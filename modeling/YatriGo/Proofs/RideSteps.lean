import YatriGo.Concurrent.Solo
import YatriGo.Proofs.RideOperations

/-! What one step of a run does to the hash of a ride. -/

namespace YatriGo
open Concurrent

/-- What `f` says of the next command of thread `i`. -/
def peek {γ : Type} (p : State) (i : ℕ) (f : ⦃β : Type⦄ → Cmd β → Option γ) : Option γ :=
  match p.threads[i]? with
  | some (_, .cmd c _) => f c
  | _ => none

theorem peek_eq {γ : Type} {p : State} {i : ℕ} {f : ⦃β : Type⦄ → Cmd β → Option γ} {op : Op}
    {β : Type} {c : Cmd β} {k : β → App Unit} (h : p.threads[i]? = some (op, .cmd c k)) :
    peek p i f = f c := by
  unfold peek
  rw [h]

theorem peek_eq_some {γ : Type} {p : State} {i : ℕ} {f : ⦃β : Type⦄ → Cmd β → Option γ} {x : γ}
    (h : peek p i f = some x) :
    ∃ op, ∃ β : Type, ∃ c : Cmd β, ∃ k, p.threads[i]? = some (op, .cmd c k) ∧ f c = some x := by
  unfold peek at h
  split at h
  · rename_i op β c k hi
    exact ⟨op, β, c, k, hi, h⟩
  · cases h

/-- Thread `i` still has a command to perform. -/
def Running (p : State) (i : ℕ) : Bool := (peek p i fun _ _ => some ()).isSome

theorem running_eq_false {p : State} {i : ℕ} {op : Op} {rest : App Unit}
    (hi : p.threads[i]? = some (op, rest)) : Running p i = false ↔ rest.ended = true := by
  unfold Running peek
  rw [hi]
  cases rest <;> simp [Prog.ended]

/-- No operation is in flight. -/
def Idle (p : State) : Bool := (List.range p.threads.length).all fun i => !Running p i

theorem running_of_thread {p : State} {i : ℕ} {op : Op} {β : Type} {c : Cmd β} {k : β → App Unit}
    (hi : p.threads[i]? = some (op, .cmd c k)) : Running p i = true := by
  unfold Running
  rw [peek_eq hi]
  rfl

theorem running_of_idle {p : State} (h : Idle p = true) (i : ℕ) : Running p i = false := by
  by_cases hi : i < p.threads.length
  · have hall := List.all_eq_true.mp h i (List.mem_range.mpr hi)
    simpa only [Bool.not_eq_true'] using hall
  · unfold Running peek
    rw [List.getElem?_eq_none (by omega)]
    rfl

/-- The arguments of an execution of the accept script, and its answer. -/
def Cmd.acceptance (s : Store) : ⦃β : Type⦄ → Cmd β → Option (RideId × DriverId × ℤ)
  | _, .evalAcceptRide r d acceptedAt reservation =>
    some (r, d, (acceptRideScript r d acceptedAt reservation s).1)
  | _, _ => none

/-- The writes of a MULTI or of a single write command. -/
def Cmd.writes : ⦃β : Type⦄ → Cmd β → Option (List Write)
  | _, .multi ws => some ws
  | _, _ => none

/-- The step runs the accept script of `d` for `r`, and the script answers `version`. -/
def Accepts (p : State) (a : Step) (r : RideId) (d : DriverId) (version : ℤ) : Prop :=
  ∃ i, a = .step i ∧ peek p i (Cmd.acceptance p.store) = some (r, d, version)

/-- The step performs the writes, in one MULTI. -/
def Performs (p : State) (a : Step) (ws : List Write) : Prop :=
  ∃ i, a = .step i ∧ peek p i Cmd.writes = some ws

/-- The command the step performs, if any, passes the check in the store it runs in. -/
def Checked (check : Store → ⦃β : Type⦄ → Cmd β → Bool) (p : State) : Step → Bool
  | .step i => (peek p i fun _ c => some (check p.store c)).getD true
  | _ => true

section Checked

variable {check : Store → ⦃β : Type⦄ → Cmd β → Bool} {p : State}

theorem checked_command {i : ℕ} {op : Op} {β : Type} {c : Cmd β} {k : β → App Unit}
    (h : Checked check p (.step i) = true) (hi : p.threads[i]? = some (op, .cmd c k)) :
    check p.store c = true := by
  simp only [Checked, peek_eq hi, Option.getD_some] at h
  exact h

theorem Performs.command {a : Step} {ws : List Write} (h : Performs p a ws) :
    ∃ i op k, a = .step i ∧ p.threads[i]? = some (op, .cmd (.multi ws) k) := by
  obtain ⟨i, rfl, hpeek⟩ := h
  obtain ⟨op, β, c, k, hi, hc⟩ := peek_eq_some hpeek
  cases c with
  | multi ws' =>
    simp only [Cmd.writes, Option.some.injEq] at hc
    subst hc
    exact ⟨i, op, k, rfl, hi⟩
  | _ => cases hc

theorem checked_multi {a : Step} {ws : List Write} (h : Checked check p a = true)
    (hw : Performs p a ws) : check p.store (.multi ws) = true := by
  obtain ⟨i, op, k, rfl, hi⟩ := hw.command
  exact checked_command h hi

end Checked

/-- What a command of client `i` can make of the hash of `r`. An update carries what its
operation had read, and finds the hash the same or accepted since. -/
inductive RideChange (env : Env) (i : ℕ) {β : Type} (c : Cmd β) (s : Store) (r : RideId) :
    RideHash → Prop
  | same : RideChange env i c s r (s.ride r)
  | create (absent : (s.ride r).status = none) (customerId : CustomerId)
      (origin destination : Location) (metadata : Metadata) (now : Time) :
      RideChange env i c s r (requestPayload env customerId origin destination metadata now)
  | accept (d : DriverId) (acceptedAt : Time)
      (accepts : c.acceptance s = some (r, d, ((s.ride r).version : ℤ) + 1))
      (hst : (s.ride r).status = some .dispatching) (hd : (s.ride r).driverId = none) :
      RideChange env i c s r ((s.ride r).accept d acceptedAt)
  | write (read : RideHash) (fields : List RideField) (ws : List Write) (writes : c.writes = some ws)
      (mem : .hsetRide r fields ∈ ws) (holds : Holds i (.ride r) s) (since : Since read (s.ride r))
      (write : RideWrite env read fields) : RideChange env i c s r ((s.ride r).hset fields)

/-- The hash of a ride is written by who holds the ride's lock. -/
def Cmd.underLock (i : ℕ) (s : Store) : ⦃β : Type⦄ → Cmd β → Prop
  | _, .multi ws => ∀ r fields, Write.hsetRide r fields ∈ ws → Holds i (.ride r) s
  | _, _ => True

section RideChange

variable {env : Env} {customers : Prop} {i : ℕ} {s : Store} {ws : List Write}

theorem ride_update (h : Update env customers i ws s) (r : RideId) :
    RideChange env i (.multi ws) s r ((s.multi ws).ride r) := by
  cases h with
  | background h =>
    rw [(multi_sameRides h.sparesRides).ride]
    exact .same
  | cleanup r' ds current holds terminal =>
    rw [(multi_sameRides cleanupWrites_sparesRides).ride]
    exact .same
  | release d r' hash active heartbeatExists now holds driver =>
    rw [(multi_sameRides releaseWrites_sparesRides).ride]
    exact .same
  | create c origin destination metadata now r' mine seq absent alone =>
    change RideChange env i _ s r (put s.ride r' _ r)
    rcases eq_or_ne r r' with rfl | hne
    · rw [put_self]
      exact .create absent c origin destination metadata now
    · rw [put_of_ne hne]
      exact .same
  | ride pre post r' read fields holds since write aside =>
    rw [(multi_update aside).1]
    rcases eq_or_ne r r' with rfl | hne
    · rw [put_self]
      have hmem : .hsetRide r fields ∈ pre ++ .hsetRide r fields :: post :=
        List.mem_append_right _ (List.mem_cons_self ..)
      exact .write read fields _ rfl hmem holds since write
    · rw [put_of_ne hne]
      exact .same

theorem ride_exec {β : Type} {c : Cmd β} (h : RideGuar env customers i c s) (r : RideId) :
    RideChange env i c s r ((exec env i c s).2.ride r) := by
  cases c with
  | multi ws => exact ride_update h r
  | evalAcceptRide r' d acceptedAt reservation =>
    change RideChange env i _ s r ((acceptRideScript r' d acceptedAt reservation s).2.ride r)
    rcases @acceptRideScript_cases s r' d acceptedAt reservation with ⟨-, h⟩ | ⟨hversion, h, hzero⟩
    · rw [h]
      exact .same
    · obtain ⟨hst, hd, -⟩ := acceptRideGuard_eq_zero hzero
      rw [h]
      change RideChange env i _ s r (put s.ride r' _ r)
      rcases eq_or_ne r r' with rfl | hne
      · rw [put_self]
        refine .accept d acceptedAt ?_ hst hd
        rw [← hversion]
        rfl
      · rw [put_of_ne hne]
        exact .same
  | _ =>
    rw [(exec_sameRides (by trivial)).ride]
    exact .same

theorem underLock_update (h : Update env customers i ws s) : Cmd.underLock i s (.multi ws) := by
  intro r fields hw
  cases h with
  | background h => exact (h.peripheral _ hw).elim
  | create c origin destination metadata now r' mine seq absent alone =>
    simp only [List.mem_cons, reduceCtorEq, List.not_mem_nil, or_self] at hw
  | ride pre post r' g fields' holds since write aside =>
    rcases List.mem_append.mp hw with hpre | hpost
    · exact (aside _ (List.mem_append_left _ hpre)).elim
    · rcases List.mem_cons.mp hpost with heq | hpost
      · cases heq
        exact holds
      · exact (aside _ (List.mem_append_right _ hpost)).elim
  | cleanup r' notifiedDrivers currentCustomerRide holds terminal => exact (cleanupWrites_sparesRides _ hw).elim
  | release d r' driverHash driverActiveRide heartbeatExists now holds driver => exact (releaseWrites_sparesRides _ hw).elim

end RideChange

/-- What a step of a run can do to the hash of `r`. -/
inductive RideStep (env : Env) (p : State) (a : Step) (q : State) (r : RideId) : Prop
  | same (heq : q.store.ride r = p.store.ride r)
  | create (absent : (p.store.ride r).status = none) (c : CustomerId)
      (origin destination : Location) (metadata : Metadata) (now : Time)
      (heq : q.store.ride r = requestPayload env c origin destination metadata now)
  | accept (d : DriverId) (acceptedAt : Time)
      (accepts : Accepts p a r d ((p.store.ride r).version + 1))
      (hst : (p.store.ride r).status = some .dispatching) (hd : (p.store.ride r).driverId = none)
      (heq : q.store.ride r = (p.store.ride r).accept d acceptedAt)
  | write (read : RideHash) (fields : List RideField) (ws : List Write) (performs : Performs p a ws)
      (mem : .hsetRide r fields ∈ ws) (since : Since read (p.store.ride r)) (write : RideWrite env read fields)
      (heq : q.store.ride r = (p.store.ride r).hset fields)

variable {env : Env} {customers : Prop} {p q : State} {a : Step}

theorem ride_step (hp : (rides env customers).Holds p) (hnext : (system env).next p a = some q)
    (r : RideId) : RideStep env p a q r := by
  rcases next_cases hnext with hsame | ⟨i, op, β, c, k, rfl, hi, hstore⟩
  · exact .same (congrFun hsame.ride r)
  · have hguar : RideGuar env customers i c p.store := hp.guar hi trivial
    have hride : q.store.ride r = (exec env i c p.store).2.ride r := by
      rw [hstore]
    have hchange := ride_exec hguar r
    rw [← hride] at hchange
    generalize hg : q.store.ride r = g at hchange
    cases hchange with
    | same => exact .same hg
    | create absent c origin destination metadata now =>
      exact .create absent c origin destination metadata now hg
    | accept d acceptedAt accepts hst hd =>
      exact .accept d acceptedAt ⟨i, rfl, (peek_eq hi).trans accepts⟩ hst hd hg
    | write read fields ws writes mem holds since write =>
      exact .write read fields ws ⟨i, rfl, (peek_eq hi).trans writes⟩ mem since write hg

theorem Accepts.command {r : RideId} {d : DriverId} {version : ℤ} (h : Accepts p a r d version) :
    ∃ i op acceptedAt reservation k, a = .step i ∧
      p.threads[i]? = some (op, .cmd (.evalAcceptRide r d acceptedAt reservation) k) ∧
      (acceptRideScript r d acceptedAt reservation p.store).1 = version := by
  obtain ⟨i, rfl, hpeek⟩ := h
  obtain ⟨op, β, c, k, hi, hc⟩ := peek_eq_some hpeek
  cases c with
  | evalAcceptRide r' d' acceptedAt reservation =>
    simp only [Cmd.acceptance, Option.some.injEq, Prod.mk.injEq] at hc
    obtain ⟨rfl, rfl, rfl⟩ := hc
    exact ⟨i, op, acceptedAt, reservation, k, rfl, hi, rfl⟩
  | _ => cases hc

theorem Accepts.guard (env : Env) {r : RideId} {d : DriverId} {version : ℤ} (h : Accepts p a r d version)
    (hversion : 0 < version) : ∃ acceptedAt reservation,
      acceptRideGuard r d acceptedAt reservation p.store = 0 ∧
      version = (p.store.ride r).version + 1 ∧
      ∀ q, (system env).next p a = some q → q.store = acceptRideCommit r d acceptedAt p.store := by
  obtain ⟨i, op, acceptedAt, reservation, k, rfl, hi, rfl⟩ := h.command
  rcases @acceptRideScript_cases p.store r d acceptedAt reservation with ⟨hneg, -⟩ | ⟨h₁, h₂, h₃⟩
  · omega
  · refine ⟨acceptedAt, reservation, h₃, h₁, fun q hnext => ?_⟩
    obtain ⟨op', β', c', k', hi', hs, -⟩ := System.next_step hnext
    rw [hi] at hi'
    cases hi'
    exact hs.trans h₂

theorem Accepts.refused {r : RideId} {d : DriverId} {version : ℤ} (h : Accepts p a r d version)
    (hversion : version ≤ 0) (hnext : (system env).next p a = some q) : q.store = p.store := by
  obtain ⟨i, op, acceptedAt, reservation, k, rfl, hi, rfl⟩ := h.command
  obtain ⟨op', β', c', k', hi', hs, -⟩ := System.next_step hnext
  rw [hi] at hi'
  cases hi'
  rcases @acceptRideScript_cases p.store r d acceptedAt reservation with ⟨-, h'⟩ | ⟨h', -⟩
  · exact hs.trans h'
  · omega

theorem town_run {ok : State → Step → Prop} (hok : ∀ p a, lasting p a = true → ok p a)
    (as : List Step) (P : State → Bool)
    (h : ((system townEnv).steps lasting as initial).any P = true) :
    ∃ q, (system townEnv).Run ok initial as q ∧ P q = true := System.exists_run hok h

theorem rides_ok (hkept : ∀ k, keeps customers k → a ≠ .env (.expireLease k)) : (rides env customers).Ok p a := by
  cases a with
  | call op => trivial
  | step i => exact fun _ _ _ _ _ => trivial
  | env e =>
    rintro k hk rfl
    exact hkept k hk rfl

theorem rides_run {ok : State → Step → Prop} {as : List Step}
    (hok : ∀ p k, keeps customers k → ¬ ok p (.env (.expireLease k)))
    (hrun : (system env).Run ok p as q) (hp : (rides env customers).Holds p) :
    (rides env customers).Holds q := by
  refine rides_sound.run (fun p a ha => rides_ok fun k hk heq => ?_) hrun hp
  rw [heq] at ha
  exact hok p k hk ha

end YatriGo
