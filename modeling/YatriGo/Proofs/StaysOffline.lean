import YatriGo.Proofs.DriverSections
import YatriGo.Proofs.CustomerRides

/-! Offline stays offline. After the write of `goOffline` no thread is in another section of the driver, so
whoever comes later sees the driver OFFLINE; only a release that has looked before can still wake it. -/

namespace YatriGo
open Concurrent

/-- The lock of `d` is held by client `i` under the token it went in with. -/
def Leased (d : DriverId) (i : ℕ) (held : Option Uuid) (s : Store) : Prop :=
  ∀ u, held = some u → u.client = i ∧ ∃ e, s.locks (.driver d) = some ⟨.uuid u, e⟩

/-- Every thread keeps to the lock of `d`. -/
def Watched (env : Env) (d : DriverId) (p : State) : Prop :=
  ∀ (i : ℕ) op (rest : App Unit), p.threads[i]? = some (op, rest) →
    ∃ held, Watch env d i (op.onlines d = false) rest held ∧ Leased d i held p.store

/-- The driver is off, and every thread that brings nobody online leaves it so. -/
structure Resting (env : Env) (d : DriverId) (p : State) : Prop where
  off : Off d p.store
  threads : ∀ (i : ℕ) op (rest : App Unit), p.threads[i]? = some (op, rest) → op.onlines d = false →
    (offline env d i).Safe (fun _ => Off d) rest p.store

/-- The step is one of a `goOnline` of `d`. -/
def OfGoOnline (d : DriverId) (p : State) : Step → Bool
  | .step i => (p.threads[i]?).any fun thread => thread.1.onlines d
  | _ => false

/-- The step is the write of a `goOffline` of `d`. -/
def OfGoOffline (d : DriverId) (p : State) (a : Step) : Prop :=
  ∃ existing activeRideId now, Performs p a (offlineWrites d existing activeRideId now)

/-- The step is the write of a release that read `d` ONLINE or BUSY with a heartbeat, while `d` is stored
OFFLINE by now. -/
def Wakes (d : DriverId) (p : State) (a : Step) : Prop :=
  (p.store.driverHash d).status = some .offline ∧
    ∃ r hash active now, hash.status.getD .offline ≠ .offline ∧
      Performs p a (releaseWrites d r hash active true now)

variable {env : Env} {d : DriverId} {i j : ℕ} {p q : State} {s : Store} {held : Option Uuid} {u : Uuid}
  {β : Type} {c : Cmd β} {a : Step}

theorem exec_answers : c.answers i (exec env i c s).1 := by
  cases c with
  | uuidv4 => rfl
  | _ => trivial

/-- The client's own command leaves it with the lease it should have. -/
theorem Leased.own (h : Leased d i held s) (hc : c.fits d i held) :
    Leased d i (c.held d held (exec env i c s).1) (exec env i c s).2 := by
  by_cases hlock : c.lockOf = some (.driver d)
  · cases c with
    | setNX key token ttl =>
      obtain rfl : key = .driver d := Option.some_inj.mp hlock
      cases held with
      | none =>
        obtain ⟨u, rfl, hu⟩ : token.ownedBy i := hc rfl
        cases hl : s.locks (.driver d) with
        | some lease =>
          rw [exec_setNX_of_some hl]
          intro v hv
          have hnone : (if LockKey.driver d = .driver d ∧ false = true then some u else none) = some v := hv
          rw [if_neg fun hok => Bool.false_ne_true hok.2] at hnone
          cases hnone
        | none =>
          rw [exec_setNX_of_none hl]
          intro v hv
          have hsome : (if LockKey.driver d = .driver d ∧ true = true then some u else none) = some v := hv
          rw [if_pos ⟨rfl, rfl⟩] at hsome
          cases hsome
          exact ⟨hu, _, put_self⟩
      | some u => exact absurd rfl hc
    | evalReleaseLock key token =>
      obtain rfl : key = .driver d := Option.some_inj.mp hlock
      intro v hv
      have hnone : (if LockKey.driver d = .driver d then none else held) = some v := hv
      rw [if_pos rfl] at hnone
      cases hnone
    | _ => cases hlock
  · rw [held_eq hlock]
    intro v hv
    obtain ⟨hv, e, hlease⟩ := h v hv
    refine ⟨hv, e, ?_⟩
    rw [exec_locks (by trivial) hlock]
    exact hlease

/-- Nobody takes or frees the lock of `d` while a client holds it. -/
theorem Leased.others {held' : Option Uuid} (h : Leased d j held' s) (hi : Leased d i held s) (hij : i ≠ j)
    (hc : c.fits d i held) : Leased d j held' (exec env i c s).2 := by
  intro v hv
  obtain ⟨hclient, e, hlease⟩ := h v hv
  refine ⟨hclient, e, ?_⟩
  by_cases hlock : c.lockOf = some (.driver d)
  · cases c with
    | setNX key token ttl =>
      obtain rfl : key = .driver d := Option.some_inj.mp hlock
      rw [exec_setNX_of_some hlease]
      exact hlease
    | evalReleaseLock key token =>
      obtain rfl : key = .driver d := Option.some_inj.mp hlock
      cases held with
      | none => exact absurd rfl hc
      | some u =>
        obtain ⟨hu, e', hlease'⟩ := hi u rfl
        rw [hlease] at hlease'
        cases hlease'
        exact absurd (hu.symm.trans hclient) hij
    | _ => cases hlock
  · rw [exec_locks (by trivial) hlock]
    exact hlease

theorem watched_initial : Watched env d initial := by
  intro i op rest hi
  simp [initial] at hi

theorem Watched.next (h : Watched env d p) (hok : LocksKept p a) (hnext : (system env).next p a = some q) :
    Watched env d q := by
  intro i op rest hi
  rcases System.next_thread hnext hi with ⟨hbefore, hother⟩ | ⟨rfl, rfl, -⟩ | ⟨rfl, β, c, k, hbefore, -, rfl⟩
  · obtain ⟨held, hwatch, hleased⟩ := h i op rest hbefore
    refine ⟨held, hwatch, ?_⟩
    cases a with
    | call op' =>
      simp only [System.next, Option.some.injEq] at hnext
      subst hnext
      exact hleased
    | step j =>
      obtain ⟨op', β, c, k, hj, hstore, -⟩ := System.next_step hnext
      obtain ⟨held', hwatch', hleased'⟩ := h j op' _ hj
      have hji : j ≠ i := fun heq => hother (congrArg Action.step heq)
      rw [hstore]
      exact hleased.others hleased' hji hwatch'.1
    | env e =>
      simp only [System.next, Option.map_eq_some_iff] at hnext
      obtain ⟨t, ht, rfl⟩ := hnext
      have hkept : e ≠ .expireLease (.driver d) := fun heq => hok (.driver d) trivial (congrArg Action.env heq)
      intro u hu
      obtain ⟨hclient, e', hlease⟩ := hleased u hu
      exact ⟨hclient, e', (event_locks ht hkept).trans hlease⟩
  · refine ⟨none, watch_code op fun honline hoffline => ?_, by rintro u ⟨⟩⟩
    rw [honline] at hoffline
    cases hoffline
  · obtain ⟨held, hwatch, hleased⟩ := h i op _ hbefore
    obtain ⟨op', β', c', k', hi', hstore, -⟩ := System.next_step hnext
    rw [hbefore] at hi'
    cases hi'
    rw [hstore]
    exact ⟨_, hwatch.2.2 _ exec_answers, hleased.own hwatch.1⟩

/-- After the write of `goOffline` the driver is off, and every other thread is outside its sections. -/
theorem Watched.resting (h : Watched env d p) (hwrite : OfGoOffline d p a)
    (hnext : (system env).next p a = some q) : Resting env d q := by
  obtain ⟨existing, activeRideId, now, hperforms⟩ := hwrite
  obtain ⟨j, op, k, rfl, hj⟩ := hperforms.command
  obtain ⟨op', β', c', k', hj', hstore, -⟩ := System.next_step hnext
  rw [hj] at hj'
  cases hj'
  have hoff : Off d q.store := by
    rw [hstore]
    exact off_offlineWrites
  have hoffline : Cmd.takesOffline d (.multi (offlineWrites d existing activeRideId now)) := ⟨_, _, _, rfl⟩
  -- the writer is in its section, so it has the lock
  obtain ⟨held, hwatch, hleased⟩ := h j op _ hj
  obtain ⟨u, rfl⟩ : ∃ u, held = some u := by
    cases held with
    | none => exact absurd hwatch.1 (@takesOffline_not_outside d j _ _ hoffline)
    | some u => exact ⟨u, rfl⟩
  obtain ⟨hclient, e, hlease⟩ := hleased u rfl
  refine ⟨hoff, fun i op' rest hi hstrict => ?_⟩
  suffices hstays : StaysOff env d i rest from hstays _ hoff
  rcases System.next_thread hnext hi with ⟨hbefore, hother⟩ | ⟨hcall, -⟩ | ⟨hstep, β', c', k', hbefore, -, rfl⟩
  · obtain ⟨held', hwatch', hleased'⟩ := h i op' rest hbefore
    cases held' with
    | none => exact hwatch'.staysOff hstrict
    | some u' =>
      obtain ⟨hclient', e', hlease'⟩ := hleased' u' rfl
      rw [hlease] at hlease'
      cases hlease'
      exact absurd (congrArg Action.step (hclient.symm.trans hclient')) hother
  · cases hcall
  · cases hstep
    rw [hj] at hbefore
    cases hbefore
    exact (hwatch.2.1 hstrict).2 hoffline _

theorem Resting.next (h : Resting env d p) (hgo : OfGoOnline d p a = false) (hwakes : ¬ Wakes d p a)
    (hnext : (system env).next p a = some q) : Resting env d q := by
  have hthread : ∀ i op rest, q.threads[i]? = some (op, rest) → op.onlines d = false →
      a ≠ .step i → Off d q.store → (offline env d i).Safe (fun _ => Off d) rest q.store := by
    intro i op rest hi hstrict hother hoff
    rcases System.next_thread hnext hi with ⟨hbefore, -⟩ | ⟨rfl, rfl, -⟩ | ⟨hstep, -⟩
    · exact (h.threads i op rest hbefore hstrict).rely fun _ => hoff
    · have hwatch : Watch env d i (op.onlines d = false) (code env op) none := by
        refine watch_code op fun honline hoffline => ?_
        rw [honline] at hoffline
        cases hoffline
      exact hwatch.staysOff hstrict _ hoff
    · exact absurd hstep hother
  cases a with
  | call op =>
    have hoff : Off d q.store := by
      simp only [System.next, Option.some.injEq] at hnext
      subst hnext
      exact h.off
    exact ⟨hoff, fun i op' rest hi hstrict => hthread i op' rest hi hstrict (by rintro ⟨⟩) hoff⟩
  | step j =>
    obtain ⟨op, β, c, k, hj, hstore, hthreads⟩ := System.next_step hnext
    have hstrict : op.onlines d = false := by
      simp only [OfGoOnline, hj, Option.any_some] at hgo
      exact hgo
    have hasleep : ¬ c.wakes d p.store := by
      intro hc
      cases c with
      | multi ws =>
        obtain ⟨hstatus, r, hash, active, now, hread, rfl⟩ := hc
        exact hwakes ⟨hstatus, r, hash, active, now, hread, j, rfl, peek_eq hj⟩
      | _ => exact hc
    obtain ⟨hkept, hk⟩ := h.threads j op _ hj hstrict p.store id hasleep
    have hoff : Off d q.store := by
      rw [hstore]
      exact hkept
    refine ⟨hoff, fun i op' rest hi hstrict' => ?_⟩
    -- the thread that made the step goes on from its answer, the others keep what they rely on
    by_cases hij : j = i
    · subst hij
      rcases System.next_thread hnext hi with ⟨-, hother⟩ | ⟨hcall, -⟩ | ⟨-, β', c', k', hbefore, -, rfl⟩
      · exact absurd rfl hother
      · cases hcall
      · rw [hj] at hbefore
        cases hbefore
        rw [hstore]
        exact hk
    · exact hthread i op' rest hi hstrict' (fun heq => hij (Action.step.inj heq)) hoff
  | env e =>
    have hoff : Off d q.store := by
      simp only [System.next, Option.map_eq_some_iff] at hnext
      obtain ⟨t, ht, rfl⟩ := hnext
      exact h.off.sameKeys (event_sameKeys ht)
    exact ⟨hoff, fun i op' rest hi hstrict => hthread i op' rest hi hstrict (by rintro ⟨⟩) hoff⟩

/-- A release that wakes the driver sets it ONLINE. -/
theorem not_off_of_wakes (hwakes : Wakes d p a) (hnext : (system env).next p a = some q) : ¬ Off d q.store := by
  intro hoff
  obtain ⟨-, r, hash, active, now, hread, hperforms⟩ := hwakes
  obtain ⟨j, op, k, rfl, hj⟩ := hperforms.command
  obtain ⟨op', β', c', k', hj', hstore, -⟩ := System.next_step hnext
  rw [hj] at hj'
  cases hj'
  have honline : ∀ s : Store, ((s.multi (releaseWrites d r hash active true now)).driverHash d).status =
      some .online := by
    intro s
    have hawake : ¬ (hash.status.getD .offline = .offline ∨ true = false) := by
      rintro (h | h)
      · exact hread h
      · cases h
    unfold releaseWrites
    generalize [Write.srem .busy d, .sremPending d r] ++
      (if active = some r then [.delDriverActiveRide d] else []) = before
    rw [multi_append, if_neg hawake, multi_append]
    split <;> exact congrArg DriverHash.status put_self
  have hstatus := hoff.status
  rw [hstore] at hstatus
  cases (honline p.store).symm.trans hstatus

/-- In the run of `as` from `p`, `d` is off wherever it leads on the way. -/
def OffAlong (env : Env) (d : DriverId) (p : State) (as : List Step) : Prop :=
  ∀ bs cs q, as = bs ++ cs → (system env).Run (fun _ _ => True) p bs q → Off d q.store

theorem watched_run {as : List Step} (hrun : (system env).Run LocksKept initial as p) : Watched env d p :=
  hrun.invariant watched_initial fun _ _ _ hI hok hnext => hI.next hok hnext

theorem Resting.along {as : List Step} (h : Resting env d p)
    (hrun : (system env).Run (fun p a => OfGoOnline d p a = false ∧ ¬ Wakes d p a) p as q) : OffAlong env d p as := by
  intro bs cs m has hm
  subst has
  obtain ⟨m', hfirst, -⟩ := hrun.split
  obtain rfl : m = m' := hm.unique hfirst
  have hresting : Resting env d m := hfirst.invariant h fun _ _ _ hI hok hnext => hI.next hok.1 hok.2 hnext
  exact hresting.off

theorem OffAlong.tail {as : List Step} (h : OffAlong env d p (a :: as))
    (hnext : (system env).next p a = some q) : OffAlong env d q as := by
  intro bs cs m has hm
  exact h (a :: bs) cs m (congrArg (a :: ·) has) (.cons trivial hnext hm)

theorem OffAlong.asleep {ok : State → Step → Prop} {as : List Step} (h : OffAlong env d p as)
    (hrun : (system env).Run ok p as q) : (system env).Run (fun p a => ok p a ∧ ¬ Wakes d p a) p as q := by
  induction hrun with
  | nil p => exact .nil p
  | cons hok hnext _ ih =>
    have hoff : Off d _ := h [_] _ _ rfl (System.Run.single trivial hnext)
    exact .cons ⟨hok, fun hwakes => not_off_of_wakes hwakes hnext hoff⟩ hnext (ih (h.tail hnext))

/-- After the write of `goOffline`, as long as no `goOnline` of the driver makes a step: the driver is off in
every state if and only if no release wakes it. -/
theorem stays_offline (env : Env) (d : DriverId) (as bs : List Step) (a : Step) (p q r : State)
    (hrun : (system env).Run LocksKept initial as p) (hwrite : OfGoOffline d p a)
    (hnext : (system env).next p a = some q)
    (hrest : (system env).Run (fun p a => LocksKept p a ∧ OfGoOnline d p a = false) q bs r) :
    OffAlong env d q bs ↔
      (system env).Run (fun p a => (LocksKept p a ∧ OfGoOnline d p a = false) ∧ ¬ Wakes d p a) q bs r := by
  have hwatched : Watched env d p := watched_run hrun
  have hresting : Resting env d q := hwatched.resting hwrite hnext
  constructor
  · intro hoff
    exact hoff.asleep hrest
  · intro hasleep
    exact hresting.along (hasleep.mono fun _ _ hok => ⟨hok.1.2, hok.2⟩)

instance {ws : List Write} {i : ℕ} : Decidable (Performs p (.step i) ws) :=
  decidable_of_iff (peek p i Cmd.writes = some ws)
    ⟨fun h => ⟨i, rfl, h⟩, fun ⟨_, hi, h⟩ => Action.step.inj hi ▸ h⟩

/-- Nothing in the way of an offline driver: locks last, and driver 1 does not go online. -/
def undisturbed (p : State) (a : Step) : Bool := lasting p a && !OfGoOnline 1 p a

theorem locksKept_of_undisturbed (p : State) (a : Step) (h : undisturbed p a = true) :
    LocksKept p a ∧ OfGoOnline 1 p a = false := by
  obtain ⟨hlasting, honline⟩ := Bool.and_eq_true_iff.mp h
  exact ⟨locksKept_of_lasting p a hlasting, Bool.not_eq_true' _ ▸ honline⟩

/-- Driver 1 goes online and starts a heartbeat. It goes offline up to the write. -/
def goingOffline : List Step :=
  .call (.goOnline 1 (some 0) (some 0) none) :: run 0 11 ++
  .call (.heartbeat 1 (some 0) (some 0) none) :: run 1 1 ++
  .call (.goOffline 1) :: run 2 6

/-- The heartbeat goes on when driver 1 is offline. -/
theorem stays_offline_heartbeat : ∃ p q r : State, (system townEnv).Run LocksKept initial goingOffline p ∧
    OfGoOffline 1 p (.step 2) ∧ (system townEnv).next p (.step 2) = some q ∧
    (system townEnv).Run (fun p a => LocksKept p a ∧ OfGoOnline 1 p a = false) q (run 2 4 ++ run 1 4) r ∧
    OffAlong townEnv 1 q (run 2 4 ++ run 1 4) := by
  -- no MULTI follows, so nothing can wake the driver
  have hquiet : ∀ (p : State) (a : Step), (undisturbed p a &&
      Checked (fun _ _ c => (Cmd.writes c).isNone) p a) = true →
      (LocksKept p a ∧ OfGoOnline 1 p a = false) ∧ ¬ Wakes 1 p a := by
    intro p a h
    obtain ⟨hok, hnone⟩ := Bool.and_eq_true_iff.mp h
    refine ⟨locksKept_of_undisturbed p a hok, ?_⟩
    rintro ⟨-, r, hash, active, now, -, hperforms⟩
    cases checked_multi hnone hperforms
  have hsteps : ((system townEnv).steps lasting goingOffline initial).any (fun p =>
      decide (Performs p (.step 2) (offlineWrites 1 (toDriverSnapshot (p.store.driverHash 1)) none 0)) &&
      ((system townEnv).next p (.step 2)).any fun q => ((system townEnv).steps (fun p a => undisturbed p a &&
        Checked (fun _ _ c => (Cmd.writes c).isNone) p a) (run 2 4 ++ run 1 4) q).any fun _ => true) = true := by
    decide +kernel
  obtain ⟨p, hrun, hp⟩ := System.exists_run locksKept_of_lasting hsteps
  obtain ⟨hwrite, hq⟩ := Bool.and_eq_true_iff.mp hp
  obtain ⟨q, hnext, hr⟩ := (Option.any_eq_true _ _).mp hq
  obtain ⟨r, hasleep, -⟩ := System.exists_run hquiet hr
  have hoffline : OfGoOffline 1 p (.step 2) := ⟨_, _, _, of_decide_eq_true hwrite⟩
  have hrest := hasleep.mono fun _ _ hok => hok.1
  exact ⟨p, q, r, hrun, hoffline, hnext, hrest,
    (stays_offline townEnv 1 _ _ _ p q r hrun hoffline hnext hrest).mpr hasleep⟩

/-- Driver 1 has ended ride `⟨1, 2⟩` up to its release, which has read that it is BUSY with a heartbeat. Now it
goes offline, up to the write. -/
def releasedLate : List Step :=
  offered ++ .call (.acceptRide ⟨1, 2⟩ 1) :: run 3 19 ++
  .call (.markDriverArriving ⟨1, 2⟩ 1) :: run 4 18 ++
  .call (.startRide ⟨1, 2⟩ 1) :: run 5 18 ++
  .call (.completeRide ⟨1, 2⟩ 1) :: run 6 16 ++
  .call (.goOffline 1) :: run 7 6

/-- The release sets driver 1 ONLINE, long after it has gone offline. -/
theorem woken : ∃ p q r bs, (system townEnv).Run LocksKept initial releasedLate p ∧
    OfGoOffline 1 p (.step 7) ∧ (system townEnv).next p (.step 7) = some q ∧
    (system townEnv).Run (fun p a => LocksKept p a ∧ OfGoOnline 1 p a = false) q bs r ∧
    (r.store.driverHash 1).status = some .online ∧ 1 ∈ r.store.driverSet .available := by
  have hsteps : ((system townEnv).steps lasting releasedLate initial).any (fun p =>
      decide (Performs p (.step 7) (offlineWrites 1 (toDriverSnapshot (p.store.driverHash 1)) (some ⟨1, 2⟩) 0)) &&
      ((system townEnv).next p (.step 7)).any fun q =>
        ((system townEnv).steps undisturbed (run 7 4 ++ run 6 1) q).any fun r =>
          decide ((r.store.driverHash 1).status = some .online ∧ 1 ∈ r.store.driverSet .available)) = true := by
    decide +kernel
  obtain ⟨p, hrun, hp⟩ := System.exists_run locksKept_of_lasting hsteps
  obtain ⟨hwrite, hq⟩ := Bool.and_eq_true_iff.mp hp
  obtain ⟨q, hnext, hr⟩ := (Option.any_eq_true _ _).mp hq
  obtain ⟨r, hrest, hend⟩ := System.exists_run locksKept_of_undisturbed hr
  obtain ⟨honline, havailable⟩ := of_decide_eq_true hend
  exact ⟨p, q, r, _, hrun, ⟨_, _, _, of_decide_eq_true hwrite⟩, hnext, hrest, honline, havailable⟩

end YatriGo
