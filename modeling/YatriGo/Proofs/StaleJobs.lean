import YatriGo.Proofs.RideFootprint
import YatriGo.Proofs.Searches
import YatriGo.Proofs.Versions

/-! Start-dispatch jobs in any run: what a job does that finds the ride at another version than its own. -/

namespace YatriGo
open Concurrent

/-- `dispatchUnderLock` from the hash on that it read. -/
def dispatchFrom (env : Env) (r : RideId) (read : RideHash) : App (Option RideHash) :=
  if read.status ≠ some .requested ∧ read.status ≠ some .dispatching then .ret (some read)
  else .cmd .now fun now =>
    if read.status = some .requested then
      (startFirstDispatch env r read now).bind fun ride =>
        continueDispatch env r ride read.dispatchRound (nextRadiusKm env read) now
    else continueDispatch env r read read.dispatchRound (nextRadiusKm env read) now

/-- What is left of `withLock` when `rest` is left of its body. -/
def inSection (r : RideId) (u : Uuid) (rest : App (Option RideHash)) : App (Option (Option RideHash)) :=
  (rest.tryFinally (releaseLock (.ride r) (.uuid u))).bind fun result => .ret (some result)

/-- What is left of a start-dispatch job when `rest` is left of its `withLock`. -/
def jobRest (job : JobId) (rest : App (Option (Option RideHash))) : App Unit :=
  ((((rest.bind fun result => match result.join with
        | none => .throw dispatchLocked
        | some ride => .ret ride : App RideHash).bind fun _ => (.ret () : App Unit)).tryCatch
      fun _ => (.ret () : App Unit)).bind fun _ => (.ret true : App Bool)).tryCatch
    (fun _ => (.ret false : App Bool)) |>.bind fun succeeded => redis (.finishJob job succeeded)

/-- Thread `i` executes a job for version `v` of the ride, holds its lock, and reads its hash next. -/
def AboutToRead (env : Env) (p : State) (i : ℕ) (r : RideId) (v : ℕ) : Prop :=
  ∃ reason u, p.threads[i]? = some (.work (.dispatchStart r v reason),
    jobRest (.dispatchStart r v reason) (inSection r u (dispatchUnderLock env r)))

/-- Thread `i` executes a job for version `v` of the ride, and has read the hash `read`. -/
def HasRead (env : Env) (p : State) (i : ℕ) (r : RideId) (v : ℕ) (read : RideHash) : Prop :=
  ∃ reason u, p.threads[i]? = some (.work (.dispatchStart r v reason),
    jobRest (.dispatchStart r v reason) (inSection r u (dispatchFrom env r read)))

variable {env : Env} {i : ℕ} {r : RideId} {v : ℕ} {reason : StartReason} {job : JobId} {u : Uuid} {read : RideHash}
  {p q m : State} {s t : Store} {rest : App (Option (Option RideHash))}

theorem work_eq : work env (.dispatchStart r v reason) = .cmd (.takeJob (.dispatchStart r v reason)) fun taken =>
    if taken then jobRest (.dispatchStart r v reason) (withLock (.ride r) env.lockTtlMs (dispatchUnderLock env r))
    else .ret () := rfl

theorem jobRest_cmd {β : Type} (c : Cmd β) (k : β → App (Option (Option RideHash))) :
    jobRest job (.cmd c k) = .cmd c fun b => jobRest job (k b) := rfl

theorem inSection_cmd {β : Type} (c : Cmd β) (k : β → App (Option RideHash)) :
    inSection r u (.cmd c k) = .cmd c fun b => inSection r u (k b) := rfl

theorem dispatchUnderLock_eq : dispatchUnderLock env r = .cmd (.hgetallRide r) fun hash =>
    match toRideSnapshot hash with
    | none => .ret none
    | some read => dispatchFrom env r read := by
  unfold dispatchUnderLock getRide redis
  simp only [Prog.bind_eq, Prog.perform_bind, Prog.cmd_bind, Prog.pure_eq, Prog.ret_bind]
  apply congrArg
  funext hash
  cases toRideSnapshot hash <;> rfl

/-- What a job without anything to do still performs. -/
def Cmd.closesJob : ⦃β : Type⦄ → Cmd β → Prop
  | _, .evalReleaseLock (.ride _) _ => True
  | _, .finishJob .. => True
  | _, _ => False

theorem exec_closesJob {β : Type} {c : Cmd β} (h : c.closesJob) : (exec env i c s).2.ride = s.ride ∧
    ∀ d, (exec env i c s).2.locks (.reservation d) = s.locks (.reservation d) := by
  cases c with
  | evalReleaseLock key token =>
    cases key with
    | ride r => exact ⟨(exec_sameRides (by trivial)).ride, fun d => releaseLockScript_locks_of_ne reservation_ne_ride⟩
    | driver d => exact h.elim
    | customer c => exact h.elim
    | reservation d => exact h.elim
  | finishJob job succeeded =>
    obtain ⟨jobs, hjobs⟩ := @finishJob_eq s job succeeded
    have hstore : (exec env i (.finishJob job succeeded) s).2 = { s with jobs } := hjobs
    rw [hstore]
    exact ⟨rfl, fun _ => rfl⟩
  | _ => exact h.elim

/-- After its body, a job releases the lock and is finished. -/
theorem uses_jobRest {c : ⦃β : Type⦄ → Cmd β → Prop} {rest : App (Option RideHash)} (h : rest.Uses c)
    (hrelease : c (.evalReleaseLock (.ride r) (.uuid u))) (hfinish : ∀ succeeded, c (.finishJob job succeeded)) :
    (jobRest job (inSection r u rest)).Uses c := by
  have hend : (releaseLock (.ride r) (.uuid u)).Uses c := ⟨hrelease, fun _ => Prog.uses_ret ()⟩
  have hsection : (inSection r u rest).Uses c := (h.tryFinally hend).bind fun _ => Prog.uses_ret _
  have hanswer : ((inSection r u rest).bind fun result => match result.join with
      | none => .throw dispatchLocked
      | some ride => .ret ride : App RideHash).Uses c := by
    apply hsection.bind
    intro result
    cases result.join with
    | none => exact Prog.uses_throw dispatchLocked
    | some ride => exact Prog.uses_ret ride
  have hcaught := Prog.Uses.tryCatch (hanswer.bind fun _ => Prog.uses_ret ())
    fun (_ : AppError) => (Prog.uses_ret () : (Prog.ret () : App Unit).Uses c)
  have hdone := Prog.Uses.tryCatch (hcaught.bind fun _ => Prog.uses_ret true)
    fun (_ : AppError) => (Prog.uses_ret false : (Prog.ret false : App Bool).Uses c)
  exact hdone.bind fun succeeded => (Prog.uses_perform _).mpr (hfinish succeeded)

theorem closes_jobRest {rest : App (Option RideHash)} (h : rest.Uses Cmd.closesJob) :
    (jobRest job (inSection r u rest)).Uses Cmd.closesJob := uses_jobRest h trivial fun _ => trivial

/-- A job for version `v` that has nothing to do any more, or is about to see that. -/
inductive Inert (env : Env) (r : RideId) (v : ℕ) (job : JobId) : App Unit → Prop
  | reading {u : Uuid} {read : RideHash} (h : dispatchable read = true) (hstale : read.version ≠ v) :
      Inert env r v job (jobRest job (inSection r u (dispatchFrom env r read)))
  | closing {rest : App Unit} (h : rest.Uses Cmd.closesJob) : Inert env r v job rest

/-- A stale job that reads the clock finds the ride DISPATCHING with a batch that is not over yet. -/
def Heeded (env : Env) (p : State) (a : Step) : Prop :=
  ∀ i r v read, a = .step i → HasRead env p i r v read → dispatchable read = true → read.version ≠ v →
    read.status = some .dispatching ∧ activeBatch read p.store.clock = true

theorem inert_of_read (hstale : (s.ride r).version ≠ v) :
    Inert env r v job (jobRest job (inSection r u (match toRideSnapshot (s.ride r) with
      | none => .ret none
      | some read => dispatchFrom env r read))) := by
  cases hsnapshot : toRideSnapshot (s.ride r) with
  | none => exact .closing (closes_jobRest (Prog.uses_ret none))
  | some read =>
    have hread : read = s.ride r := (toRideSnapshot_eq_some hsnapshot).1
    cases hdispatchable : dispatchable read with
    | true => exact .reading hdispatchable (hread ▸ hstale)
    | false =>
      have hother : ¬ (read.status = some .requested ∨ read.status = some .dispatching) :=
        of_decide_eq_false hdispatchable
      have hstop : dispatchFrom env r read = .ret (some read) := if_pos (not_or.mp hother)
      show Inert env r v job (jobRest job (inSection r u (dispatchFrom env r read)))
      rw [hstop]
      exact .closing (closes_jobRest (Prog.uses_ret (some read)))

theorem closes_of_running {now : Time} (hstatus : read.status = some .dispatching) (hactive : activeBatch read now = true) :
    (continueDispatch env r read read.dispatchRound (nextRadiusKm env read) now).Uses Cmd.closesJob := by
  have hopen : openBatch read = read.currentBatchId := if_pos hstatus
  unfold continueDispatch
  rw [hopen]
  simp only [activeBatch, Bool.and_eq_true, decide_eq_true_eq] at hactive
  obtain ⟨hsome, hrunning⟩ := hactive
  obtain ⟨b, hb⟩ := Option.isSome_iff_exists.mp hsome
  rw [hb]
  simp only [hrunning, if_true]
  exact Prog.uses_ret (some read)

/-- A stale job stays inert, and its steps change neither rides nor reservations. -/
theorem Inert.next {a : Step} {rest : App Unit} (h : Inert env r v (.dispatchStart r v reason) rest)
    (hi : p.threads[i]? = some (.work (.dispatchStart r v reason), rest)) (hheeded : Heeded env p a)
    (hnext : (system env).next p a = some q) :
    (∃ rest', q.threads[i]? = some (.work (.dispatchStart r v reason), rest') ∧
      Inert env r v (.dispatchStart r v reason) rest') ∧
    (a = .step i → q.store.ride = p.store.ride ∧
      ∀ d, q.store.locks (.reservation d) = p.store.locks (.reservation d)) := by
  rcases System.thread_next hnext hi with ⟨hother, hi'⟩ | ⟨rfl, β, c, k, hrest, hstore, hi'⟩
  · exact ⟨⟨rest, hi', h⟩, fun heq => absurd heq hother⟩
  · cases h with
    | @reading u read hdispatchable hstale =>
      have hcases : read.status = some .requested ∨ read.status = some .dispatching := of_decide_eq_true hdispatchable
      obtain ⟨hstatus, hactive⟩ := hheeded i r v read rfl ⟨reason, u, hi⟩ hdispatchable hstale
      have hgo : ¬ (read.status ≠ some .requested ∧ read.status ≠ some .dispatching) := fun h => h.2 hstatus
      have hnow : dispatchFrom env r read = .cmd .now fun now =>
          continueDispatch env r read read.dispatchRound (nextRadiusKm env read) now := by
        unfold dispatchFrom
        rw [if_neg hgo, hstatus]
        rfl
      rw [hnow, inSection_cmd, jobRest_cmd] at hrest
      cases hrest
      refine ⟨⟨_, hi', .closing (closes_jobRest (closes_of_running hstatus hactive))⟩, fun _ => ?_⟩
      rw [hstore]
      exact ⟨rfl, fun _ => rfl⟩
    | closing hclosing =>
      rw [hrest] at hclosing
      refine ⟨⟨_, hi', .closing (hclosing.2 _)⟩, fun _ => ?_⟩
      rw [hstore]
      exact exec_closesJob hclosing.1

/-- From the step on in which it reads another version, a job changes neither rides nor reservations. -/
theorem stale_inert {ok : State → Step → Prop} (hok : ∀ p a, ok p a → Heeded env p a) {bs : List Step} {q' : State}
    (hread : AboutToRead env p i r v) (hstale : (p.store.ride r).version ≠ v)
    (hfirst : (system env).next p (.step i) = some m) (hrun : (system env).Run ok m bs q)
    (hstep : ok q (.step i)) (hnext : (system env).next q (.step i) = some q') :
    q'.store.ride = q.store.ride ∧ ∀ d, q'.store.locks (.reservation d) = q.store.locks (.reservation d) := by
  obtain ⟨reason, u, hi⟩ := hread
  have hm : ∃ rest, m.threads[i]? = some (.work (.dispatchStart r v reason), rest) ∧
      Inert env r v (.dispatchStart r v reason) rest := by
    rcases System.thread_next hfirst hi with ⟨hother, -⟩ | ⟨-, β, c, k, hrest, -, hi'⟩
    · exact absurd rfl hother
    · rw [dispatchUnderLock_eq, inSection_cmd, jobRest_cmd] at hrest
      cases hrest
      exact ⟨_, hi', inert_of_read hstale⟩
  have hq : ∃ rest, q.threads[i]? = some (.work (.dispatchStart r v reason), rest) ∧
      Inert env r v (.dispatchStart r v reason) rest := by
    refine System.Run.invariant (I := fun q => ∃ rest, q.threads[i]? = some (.work (.dispatchStart r v reason), rest) ∧
      Inert env r v (.dispatchStart r v reason) rest) hrun hm fun p a q hp ha hpq => ?_
    obtain ⟨rest, hi, hinert⟩ := hp
    exact (hinert.next hi (hok p a ha) hpq).1
  obtain ⟨rest, hi', hinert⟩ := hq
  exact (hinert.next hi' (hok q _ hstep) hnext).2 rfl

theorem rides_kept {as : List Step} (hrun : (system env).Run RideLocksKept p as q) (hp : (rides env False).Holds p) :
    (rides env False).Holds q := rides_run (fun _ _ hk => RideLocksKept.keeps hk) hrun hp

/-- The ride exists, and its version is beyond `w`. -/
def Moved (w : ℕ) (h : RideHash) : Prop := h.status ≠ none ∧ w < h.version

theorem moved_step {w : ℕ} {a : Step} (hp : (rides env False).Holds p) (hnext : (system env).next p a = some q)
    (h : Moved w (p.store.ride r)) : Moved w (q.store.ride r) := by
  obtain ⟨hexist, hversion⟩ := h
  cases ride_step hp hnext r with
  | same heq =>
    rw [heq]
    exact ⟨hexist, hversion⟩
  | create absent c origin destination metadata now heq => exact absurd absent hexist
  | accept d acceptedAt accepts hst hd heq =>
    rw [heq]
    exact ⟨Option.some_ne_none _, hversion.trans (Nat.lt_succ_self _)⟩
  | write hash fields ws performs mem since write heq =>
    rw [heq]
    refine ⟨hset_status_ne_none hexist, ?_⟩
    rw [write.version]
    rcases since.version write.status_ne_none with h | h <;> omega

/-- Whatever changes a ride that waits for a driver, counts its version. -/
theorem dispatchable_step {a : Step} (hp : (rides env False).Holds p) (hnext : (system env).next p a = some q)
    (h : dispatchable (p.store.ride r) = true) :
    q.store.ride r = p.store.ride r ∨ Moved (p.store.ride r).version (q.store.ride r) := by
  have hcases : (p.store.ride r).status = some .requested ∨ (p.store.ride r).status = some .dispatching :=
    of_decide_eq_true h
  have hexist : (p.store.ride r).status ≠ none := by
    rcases hcases with h | h <;> (rw [h]; exact Option.some_ne_none _)
  cases ride_step hp hnext r with
  | same heq => exact .inl heq
  | create absent c origin destination metadata now heq => exact absurd absent hexist
  | accept d acceptedAt accepts hst hd heq =>
    right
    rw [heq]
    exact ⟨Option.some_ne_none _, Nat.lt_succ_self _⟩
  | write hash fields ws performs mem since write heq =>
    right
    rw [heq]
    refine ⟨hset_status_ne_none hexist, ?_⟩
    rw [write.version]
    generalize p.store.ride r = g at since hcases
    -- had the ride been accepted since it was read, it would not wait for a driver
    cases since with
    | same => exact Nat.lt_succ_self _
    | accepted d acceptedAt hst hd => rcases hcases with h | h <;> cases h
    | absent g hst => exact absurd hst write.status_ne_none

theorem exist_step {a : Step} (hp : (rides env False).Holds p) (hnext : (system env).next p a = some q)
    (hexist : (p.store.ride r).status ≠ none) : (q.store.ride r).status ≠ none := by
  cases ride_step hp hnext r with
  | same heq => rw [heq]; exact hexist
  | create absent c origin destination metadata now heq => exact absurd absent hexist
  | accept d acceptedAt accepts hst hd heq => rw [heq]; exact Option.some_ne_none _
  | write hash fields ws performs mem since write heq => rw [heq]; exact hset_status_ne_none hexist

/-- Takes no lock of the ride, and does not accept it. -/
def Cmd.confined (r : RideId) : ⦃β : Type⦄ → Cmd β → Prop
  | _, .setNX key .. => key ≠ .ride r
  | _, .evalAcceptRide .. => False
  | _, _ => True

theorem holds_of_exec {β : Type} {c : Cmd β} (hc : c.confined r) (h : Holds i (.ride r) (exec env i c s).2) :
    Holds i (.ride r) s := by
  obtain ⟨lease, hlease, howner⟩ := h
  refine ⟨lease, ?_, howner⟩
  by_cases hlock : c.lockOf = some (.ride r)
  · cases c with
    | setNX key token ttl => exact absurd (Option.some.inj hlock) hc
    | evalReleaseLock key token =>
      obtain rfl : key = .ride r := Option.some.inj hlock
      have hrelease : NoOffers s (releaseLockScript (.ride r) token s).2 := noOffers_release
      rcases hrelease.locks (.ride r) with hsame | hnone
      · exact hsame.symm.trans hlease
      · exact absurd (hnone.symm.trans hlease) (Option.some_ne_none lease).symm
    | _ => cases hlock
  · rw [exec_locks (by trivial) hlock] at hlease
    exact hlease

theorem holds_of_write {β : Type} {c : Cmd β} (hguar : RideGuar env False i c s) (hc : c.confined r)
    (hexist : (s.ride r).status ≠ none) (hchange : (exec env i c s).2.ride r ≠ s.ride r) : Holds i (.ride r) s := by
  have hride := ride_exec hguar r
  generalize (exec env i c s).2.ride r = g at hride hchange
  cases hride with
  | same => exact absurd rfl hchange
  | create absent customer origin destination metadata now => exact absurd absent hexist
  | accept d acceptedAt accepts hst hd =>
    cases c with
    | evalAcceptRide r' d' acceptedAt' reservation => exact hc.elim
    | _ => cases accepts
  | write hash fields ws writes mem holds since write => exact holds

/-- A confined thread that is going to change the ride, has its lock already. -/
theorem holds_of_change {as : List Step} {op : Op} {rest : App Unit} {q' : State}
    (hrun : (system env).Run RideLocksKept m as q) (hm : (rides env False).Holds m)
    (hexist : (m.store.ride r).status ≠ none) (hi : m.threads[i]? = some (op, rest)) (hrest : rest.Uses (Cmd.confined r))
    (hnext : (system env).next q (.step i) = some q') (hchange : q'.store.ride r ≠ q.store.ride r) :
    Holds i (.ride r) m.store := by
  induction hrun generalizing rest with
  | nil p =>
    rcases System.thread_next hnext hi with ⟨hother, -⟩ | ⟨-, β, c, k, rfl, hstore, -⟩
    · exact absurd rfl hother
    · rw [hstore] at hchange
      exact holds_of_write (hm.guar hi trivial) hrest.1 hexist hchange
  | @cons p p' q a as hok hfirst rest' ih =>
    have hp' : (rides env False).Holds p' := rides_kept (.single hok hfirst) hm
    have hexist' : (p'.store.ride r).status ≠ none := exist_step hm hfirst hexist
    rcases System.thread_next hfirst hi with ⟨hother, hi'⟩ | ⟨-, β, c, k, rfl, hstore, hi'⟩
    · have hlater : Holds i (.ride r) p'.store := ih hp' hexist' hi' hrest hnext hchange
      have hlt : i < p.threads.length := (List.getElem?_eq_some_iff.mp hi).1
      have hallowed : (rides env False).Ok p a := by
        cases a with
        | call op => trivial
        | step j => exact fun _ _ _ _ _ => trivial
        | env e =>
          rintro k hk rfl
          exact RideLocksKept.keeps hk hok
      have hrely : RideRely False i p.store p'.store := hm.rely rides_sound hallowed hfirst hlt hother
      obtain ⟨lease, hlease, howner⟩ := hlater
      exact ⟨lease, (hrely.leases (.ride r) lease trivial howner).mpr hlease, howner⟩
    · have hlater : Holds i (.ride r) p'.store := ih hp' hexist' hi' (hrest.2 _) hnext hchange
      rw [hstore] at hlater
      exact holds_of_exec hrest.1 hlater

theorem confined_dispatchUnderLock : (dispatchUnderLock env r).Uses (Cmd.confined r) := by
  apply near_dispatchUnderLock.mono
  intro β c hc
  cases c with
  | setNX key token ttl =>
    obtain ⟨d, rfl⟩ := hc
    exact reservation_ne_ride
  | evalAcceptRide r' d acceptedAt reservation => exact hc
  | _ => trivial

section once

variable {j w v' : ℕ} {as bs cs : List Step} {p' q' z z' : State}

theorem kept_step : RideLocksKept p (.step i) := fun r h => by cases h

theorem AboutToRead.confined (h : AboutToRead env p i r v) :
    ∃ op rest, p.threads[i]? = some (op, rest) ∧ rest.Uses (Cmd.confined r) := by
  obtain ⟨reason, u, hi⟩ := h
  exact ⟨_, _, hi, uses_jobRest confined_dispatchUnderLock trivial fun _ => trivial⟩

/-- What a job has read does not wait for a driver: it will not change the ride. -/
theorem settled_after_read (hread : AboutToRead env p i r v) (hsettled : ¬ dispatchable (p.store.ride r) = true)
    (hnext : (system env).next p (.step i) = some m) :
    ∃ op rest, m.threads[i]? = some (op, rest) ∧ rest.Uses Cmd.closesJob := by
  obtain ⟨reason, u, hi⟩ := hread
  rcases System.thread_next hnext hi with ⟨hother, -⟩ | ⟨-, β, c, k, hrest, -, hi'⟩
  · exact absurd rfl hother
  · rw [dispatchUnderLock_eq, inSection_cmd, jobRest_cmd] at hrest
    cases hrest
    refine ⟨_, _, hi', closes_jobRest ?_⟩
    show Prog.Uses Cmd.closesJob (match toRideSnapshot (p.store.ride r) with
      | none => .ret none
      | some read => dispatchFrom env r read)
    cases hsnapshot : toRideSnapshot (p.store.ride r) with
    | none => exact Prog.uses_ret none
    | some read =>
      have hother : ¬ (read.status = some .requested ∨ read.status = some .dispatching) := by
        rw [(toRideSnapshot_eq_some hsnapshot).1]
        exact fun h => hsettled (decide_eq_true h)
      have hstop : dispatchFrom env r read = .ret (some read) := if_pos (not_or.mp hother)
      dsimp only
      rw [hstop]
      exact Prog.uses_ret (some read)

/-- A job that changes the ride moves it beyond the version that it has read. -/
theorem moved_of_change (hp : (rides env False).Holds p) (hread : AboutToRead env p i r v)
    (hfirst : (system env).next p (.step i) = some m) (hrun : (system env).Run RideLocksKept m bs q)
    (hnext : (system env).next q (.step i) = some q') (hchange : q'.store.ride r ≠ q.store.ride r) :
    dispatchable (p.store.ride r) = true ∧ Moved (p.store.ride r).version (q'.store.ride r) := by
  have hsame : m.store.ride = p.store.ride := by
    obtain ⟨reason, u, hi⟩ := hread
    rcases System.thread_next hfirst hi with ⟨hother, -⟩ | ⟨-, β, c, k, hrest, hstore, -⟩
    · exact absurd rfl hother
    · rw [dispatchUnderLock_eq, inSection_cmd, jobRest_cmd] at hrest
      cases hrest
      rw [hstore]
      rfl
  have hdispatchable : dispatchable (p.store.ride r) = true := by
    by_contra hsettled
    obtain ⟨op, rest, hi, hcloses⟩ := settled_after_read hread hsettled hfirst
    obtain ⟨rest', hi', hcloses'⟩ := hrun.thread_uses hi hcloses
    rcases System.thread_next hnext hi' with ⟨hother, -⟩ | ⟨-, β, c, k, rfl, hstore, -⟩
    · exact absurd rfl hother
    · rw [hstore] at hchange
      exact hchange (congrFun (exec_closesJob hcloses'.1).1 r)
  refine ⟨hdispatchable, ?_⟩
  have hm : (rides env False).Holds m := rides_kept (.single kept_step hfirst) hp
  have hq : (rides env False).Holds q ∧
      (q.store.ride r = p.store.ride r ∨ Moved (p.store.ride r).version (q.store.ride r)) := by
    refine System.Run.invariant (I := fun q => (rides env False).Holds q ∧
      (q.store.ride r = p.store.ride r ∨ Moved (p.store.ride r).version (q.store.ride r))) hrun
      ⟨hm, .inl (congrFun hsame r)⟩ fun p' a q' hp' hok hnext' => ?_
    refine ⟨rides_kept (.single hok hnext') hp'.1, ?_⟩
    rcases hp'.2 with heq | hmoved
    · rw [← heq] at hdispatchable ⊢
      exact dispatchable_step hp'.1 hnext' hdispatchable
    · exact .inr (moved_step hp'.1 hnext' hmoved)
  rcases hq.2 with heq | hmoved
  · rw [← heq] at hdispatchable ⊢
    exact (dispatchable_step hq.1 hnext hdispatchable).resolve_left hchange
  · exact moved_step hq.1 hnext hmoved

/-- When a job has read the ride, another one that reads it before the first has changed it, does not change it. -/
theorem one_of_readers (hp : (rides env False).Holds p) (hi : AboutToRead env p i r v)
    (hrun : (system env).Run RideLocksKept p as p') (hj : AboutToRead env p' j r v') (hij : i ≠ j)
    (hread : (system env).next p' (.step j) = some m) (hbs : (system env).Run RideLocksKept m bs q)
    (hq : (system env).next q (.step i) = some q') (hqr : q'.store.ride r ≠ q.store.ride r)
    (hcs : (system env).Run RideLocksKept m cs z) (hz : (system env).next z (.step j) = some z')
    (hzr : z'.store.ride r ≠ z.store.ride r) : False := by
  have hp' : (rides env False).Holds p' := rides_kept hrun hp
  have hm : (rides env False).Holds m := rides_kept (.single kept_step hread) hp'
  have hdispatchable : dispatchable (p'.store.ride r) = true := (moved_of_change hp' hj hread hcs hz hzr).1
  have hexist : (m.store.ride r).status ≠ none := by
    refine exist_step hp' hread fun hnone => ?_
    have hcases : (p'.store.ride r).status = some .requested ∨ (p'.store.ride r).status = some .dispatching :=
      of_decide_eq_true hdispatchable
    rcases hcases with h | h <;> (rw [hnone] at h; cases h)
  obtain ⟨op, rest, hthread, hconfined⟩ := hi.confined
  obtain ⟨rest', hthread', hconfined'⟩ := (hrun.append (.single kept_step hread)).thread_uses hthread hconfined
  have hfirst : Holds i (.ride r) m.store := holds_of_change hbs hm hexist hthread' hconfined' hq hqr
  obtain ⟨op, rest, hthread, hconfined⟩ := hj.confined
  have hone : (system env).Run RideLocksKept p' [.step j] m := .single kept_step hread
  obtain ⟨rest', hthread', hconfined'⟩ := hone.thread_uses hthread hconfined
  have hsecond : Holds j (.ride r) m.store := holds_of_change hcs hm hexist hthread' hconfined' hz hzr
  exact hij (hfirst.unique hsecond)

/-- After the actions `before`, thread `i` reads version `w` of the ride for a job; it changes the ride after `between`. -/
structure DispatchAt (env : Env) (as : List Step) (r : RideId) (w i : ℕ) (before between : List Step) : Prop where
  among : before ++ .step i :: between ++ [.step i] <+: as
  changes : ∃ p v m q q', (system env).Run (fun _ _ => True) initial before p ∧ AboutToRead env p i r v ∧
    (p.store.ride r).version = w ∧ (system env).next p (.step i) = some m ∧
    (system env).Run (fun _ _ => True) m between q ∧ (system env).next q (.step i) = some q' ∧
    q'.store.ride r ≠ q.store.ride r

/-- Among the actions, a job of thread `i` reads version `w` of the ride, and changes the ride. -/
def Dispatches (env : Env) (as : List Step) (r : RideId) (w i : ℕ) : Prop :=
  ∃ before between, DispatchAt env as r w i before between

variable {before before' between between' : List Step}

theorem shorter_beginning {α : Type} {xs ys zs : List α} {x y : α} (hx : xs ++ [x] <+: zs) (hy : ys ++ [y] <+: zs)
    (hne : x ≠ y) (hlen : xs.length ≤ ys.length) : xs ++ [x] <+: ys := by
  have hbeginning : xs ++ [x] <+: ys ++ [y] := by
    apply List.prefix_of_prefix_length_le hx hy
    simpa only [List.length_append, List.length_singleton, Nat.add_le_add_iff_right] using hlen
  rcases List.prefix_concat_iff.mp hbeginning with heq | hshorter
  · have hlast : [x] = [y] := (List.append_inj' heq rfl).2
    exact absurd (List.singleton_inj.mp hlast) hne
  · exact hshorter

theorem DispatchAt.runs {ok : State → Step → Prop} (hrun : (system env).Run ok initial as z)
    (h : DispatchAt env as r w i before between) : ∃ p v m q q', (system env).Run ok initial before p ∧
      AboutToRead env p i r v ∧ (p.store.ride r).version = w ∧ (system env).next p (.step i) = some m ∧
      (system env).Run ok m between q ∧ (system env).next q (.step i) = some q' ∧
      q'.store.ride r ≠ q.store.ride r := by
  obtain ⟨p, v, m, q, q', hp, hread, hw, hm, hmq, hq, hqr⟩ := h.changes
  obtain ⟨rest, hrest⟩ := h.among
  simp only [List.append_assoc, List.cons_append] at hrest
  rw [← hrest] at hrun
  exact ⟨p, v, m, q, q', hrun.head hp, hread, hw, hm, ((hrun.rest hp).tail hm).head hmq, hq, hqr⟩

/-- A job that reads the ride after another one that dispatches it, finds another version. -/
theorem DispatchAt.alone (hrun : (system env).Run RideLocksKept initial as z)
    (hi : DispatchAt env as r w i before between) (hj : DispatchAt env as r w j before' between')
    (hij : i ≠ j) (hlen : before.length ≤ before'.length) : False := by
  have hne : (.step i : Step) ≠ .step j := fun h => hij (Action.step.inj h)
  have hfirst : before ++ [.step i] <+: as := by
    refine List.IsPrefix.trans ⟨between ++ [.step i], ?_⟩ hi.among
    simp only [List.append_assoc, List.cons_append, List.nil_append]
  have hsecond : before' ++ [.step j] <+: as := by
    refine List.IsPrefix.trans ⟨between' ++ [.step j], ?_⟩ hj.among
    simp only [List.append_assoc, List.cons_append, List.nil_append]
  obtain ⟨ds, rfl⟩ := shorter_beginning hfirst hsecond hne hlen
  obtain ⟨p, v, m, q, q', hp, hread, hw, hm, hmq, hq, hqr⟩ := hi.runs hrun
  obtain ⟨p', v', m', t, t', hp', hread', hw', hm', hmt, ht, htr⟩ := hj.runs hrun
  have hrides : (rides env False).Holds p := rides_kept hp rides_initial
  simp only [List.append_assoc, List.cons_append, List.nil_append] at hp'
  have hds : (system env).Run RideLocksKept m ds p' := (hp'.rest hp).tail hm
  rcases le_total (before ++ (.step i : Step) :: between).length (before ++ [(.step i : Step)] ++ ds).length with hearly | hlate
  · -- the ride has changed before the second job reads it
    obtain ⟨es, hes⟩ := shorter_beginning hi.among hsecond hne hearly
    have hbetween : between ++ .step i :: es = ds := by
      simpa only [List.append_assoc, List.cons_append, List.nil_append, List.append_cancel_left_eq,
        List.cons.injEq, true_and] using hes
    rw [← hbetween] at hds
    have hmoved : Moved (p.store.ride r).version (q'.store.ride r) := (moved_of_change hrides hread hm hmq hq hqr).2
    have hq' : (rides env False).Holds q' :=
      rides_kept (.single kept_step hq) (rides_kept hmq (rides_kept (.single kept_step hm) hrides))
    have hlater : (rides env False).Holds p' ∧ Moved (p.store.ride r).version (p'.store.ride r) := by
      refine System.Run.invariant (I := fun p' => (rides env False).Holds p' ∧
        Moved (p.store.ride r).version (p'.store.ride r)) ((hds.rest hmq).tail hq) ⟨hq', hmoved⟩ fun x a y hx hok hxy => ?_
      exact ⟨rides_kept (.single hok hxy) hx.1, moved_step hx.1 hxy hx.2⟩
    have hversion : (p.store.ride r).version < (p'.store.ride r).version := hlater.2.2
    omega
  · -- both have read the ride, and both are going to change it
    obtain ⟨es, hes⟩ := shorter_beginning hsecond hi.among hne.symm hlate
    have hbetween : ds ++ .step j :: es = between := by
      simpa only [List.append_assoc, List.cons_append, List.nil_append, List.append_cancel_left_eq,
        List.cons.injEq, true_and] using hes
    rw [← hbetween] at hmq
    have hreads : (system env).Run RideLocksKept p (.step i :: ds) p' := .cons kept_step hm hds
    exact one_of_readers hrides hread hreads hread' hij hm' ((hmq.rest hds).tail hm') hq hqr hmt ht htr

theorem dispatched_once {z : State} (hrun : (system env).Run RideLocksKept initial as z)
    (hi : Dispatches env as r w i) (hj : Dispatches env as r w j) : i = j := by
  obtain ⟨before, between, hi⟩ := hi
  obtain ⟨before', between', hj⟩ := hj
  by_contra hij
  rcases le_total before.length before'.length with hlen | hlen
  · exact hi.alone hrun hj hij hlen
  · exact hj.alone hrun hi (Ne.symm hij) hlen

end once

/-- A start-dispatch job that finds the ride at another version than its own changes neither rides nor
reservations from then on, in runs whose steps satisfy `heeded`, and no version of a ride is dispatched by two
jobs, in runs whose steps satisfy `kept`. -/
structure StaleJobsInert (env : Env) (heeded kept : State → Step → Prop) : Prop where
  inert : ∀ as p i r v m bs q q', (system env).Run heeded initial as p → AboutToRead env p i r v →
    (p.store.ride r).version ≠ v → (system env).next p (.step i) = some m → (system env).Run heeded m bs q →
    heeded q (.step i) → (system env).next q (.step i) = some q' →
    q'.store.ride = q.store.ride ∧ ∀ d, q'.store.locks (.reservation d) = q.store.locks (.reservation d)
  once : ∀ as z r w i j, (system env).Run kept initial as z → Dispatches env as r w i → Dispatches env as r w j → i = j

/-- Stale jobs are inert as long as each of them that gets to the clock finds a batch of the ride running. -/
theorem stale_jobs_inert : StaleJobsInert env (Heeded env) RideLocksKept where
  inert := by
    intro as p i r v m bs q q' _ hread hstale hfirst hrun hok hnext
    exact stale_inert (fun p a h => h) hread hstale hfirst hrun hok hnext
  once := by
    intro as z r w i j hrun hi hj
    exact dispatched_once hrun hi hj

/-- The first commands of a job that takes the lock of the ride. -/
theorem advance_work (htaken : (takeJob (.dispatchStart r v reason) s).1 = true) (hfree : s.locks (.ride r) = none) :
    ((work env (.dispatchStart r v reason)).advance ((system env).client i) 3 s).1 =
      jobRest (.dispatchStart r v reason) (inSection r ⟨i, s.nextSeq⟩ (dispatchUnderLock env r)) := by
  obtain ⟨jobs, hjobs⟩ := @takeJob_eq s (.dispatchStart r v reason)
  have htake : exec env i (.takeJob (.dispatchStart r v reason)) s = (true, { s with jobs }) := by
    rw [← htaken, ← hjobs]
    rfl
  have hlock : withLock (.ride r) env.lockTtlMs (dispatchUnderLock env r) = .cmd .uuidv4 fun u =>
      .cmd (.setNX (.ride r) (.uuid u) env.lockTtlMs) fun ok =>
        if ok then inSection r u (dispatchUnderLock env r) else .ret none := withLock_eq
  have hset : (exec env i (.setNX (.ride r) (.uuid ⟨i, s.nextSeq⟩) env.lockTtlMs)
      { s with jobs, nextSeq := s.nextSeq + 1 }).1 = true := by
    rw [exec_setNX_of_none (s := { s with jobs, nextSeq := s.nextSeq + 1 }) hfree]
  rw [work_eq, Prog.advance_succ]
  show ((if (exec env i (.takeJob (.dispatchStart r v reason)) s).1 then _ else _ : App Unit).advance _ 2
    (exec env i (.takeJob (.dispatchStart r v reason)) s).2).1 = _
  rw [htake, if_pos rfl, hlock, jobRest_cmd, Prog.advance_succ, jobRest_cmd, Prog.advance_succ, Prog.advance_zero]
  show jobRest _ (if (exec env i (.setNX (.ride r) (.uuid ⟨i, s.nextSeq⟩) env.lockTtlMs)
    { s with jobs, nextSeq := s.nextSeq + 1 }).1 then inSection r ⟨i, s.nextSeq⟩ _ else _) = _
  rw [hset, if_pos rfl]

/-- A customer requests a ride in a town without drivers. The first search widens the radius and leaves a retry for
later; meanwhile the periodic recovery has the same version dispatched. -/
def retriedAndRecovered : List Step :=
  .call (.requestRide 7 ⟨0, 0⟩ ⟨0, 0⟩ ⟨none, []⟩) :: run 0 14 ++
  .call (.work (.dispatchStart ⟨0, 1⟩ 1 .requested)) :: run 1 26 ++
  .call .recoverDispatchingRides :: run 2 4 ++
  .call (.work (.dispatchStart ⟨0, 1⟩ 3 .recoveryNoBatch)) :: run 3 17 ++ [.env (.tick 1500)]

/-- The retry of version 3 comes when the ride is at version 4: it uses up the last round, and cancels the ride. -/
theorem stale_job_cancels : ¬ StaleJobsInert townEnv (fun _ _ => True) fun _ _ => True := by
  intro hinert
  obtain ⟨p₀, hrun₀, hp₀⟩ := @town_run (fun _ _ => True) (fun _ _ _ => trivial) retriedAndRecovered
    (fun p => (takeJob (.dispatchStart ⟨0, 1⟩ 3 .expandRadius) p.store).1 &&
      (p.store.locks (.ride ⟨0, 1⟩)).isNone && p.threads.length = 4) (by decide +kernel)
  obtain ⟨p, hrun, hp⟩ := @town_run (fun _ _ => True) (fun _ _ _ => trivial)
    (retriedAndRecovered ++ .call (.work (.dispatchStart ⟨0, 1⟩ 3 .expandRadius)) :: run 4 3)
    (fun p => (p.store.ride ⟨0, 1⟩).version = 4) (by decide +kernel)
  obtain ⟨q, hrun', hq⟩ := @town_run (fun _ _ => True) (fun _ _ _ => trivial)
    ((retriedAndRecovered ++ .call (.work (.dispatchStart ⟨0, 1⟩ 3 .expandRadius)) :: run 4 3) ++ .step 4 :: run 4 4)
    (fun q => ((system townEnv).next q (.step 4)).any fun q' =>
      (q.store.ride ⟨0, 1⟩).version ≠ (q'.store.ride ⟨0, 1⟩).version &&
        (q'.store.ride ⟨0, 1⟩).status = some .cancelled) (by decide +kernel)
  simp only [Bool.and_eq_true, Option.isNone_iff_eq_none, decide_eq_true_eq] at hp₀
  obtain ⟨⟨htaken, hfree⟩, hthreads⟩ := hp₀
  obtain ⟨q', hnext, hq'⟩ := (Option.any_eq_true _ _).mp hq
  simp only [Bool.and_eq_true, decide_eq_true_eq] at hq'
  have hversion : (p.store.ride ⟨0, 1⟩).version ≠ 3 := by
    rw [of_decide_eq_true hp]
    decide
  have hread : AboutToRead townEnv p 4 ⟨0, 1⟩ 3 := by
    cases hrun.rest hrun₀ with
    | cons hok hcall hthree =>
      cases hcall
      have hlast : (p₀.threads ++ [(.work (.dispatchStart ⟨0, 1⟩ 3 .expandRadius),
          work townEnv (.dispatchStart ⟨0, 1⟩ 3 .expandRadius))])[4]? =
          some (.work (.dispatchStart ⟨0, 1⟩ 3 .expandRadius), work townEnv (.dispatchStart ⟨0, 1⟩ 3 .expandRadius)) := by
        rw [← hthreads]
        exact List.getElem?_concat_length
      obtain ⟨-, hthread⟩ := hthree.solo hlast
      rw [advance_work htaken hfree] at hthread
      exact ⟨_, _, hthread⟩
  cases hrun'.rest hrun with
  | cons hok hfirst hrest =>
    obtain ⟨hride, -⟩ := hinert.inert _ _ _ _ _ _ _ _ _ hrun hread hversion hfirst hrest trivial hnext
    apply hq'.1
    rw [hride]

end YatriGo
