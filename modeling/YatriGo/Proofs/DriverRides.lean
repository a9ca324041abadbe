import YatriGo.Proofs.CustomerRides

/-! One ride per driver. The accept script checks the driver's pointer and sets it, but
other clients write the pointer too: a heartbeat writes back what it had read under the
driver's lock, and the end of a ride deletes it under the ride's lock. -/

namespace YatriGo
open Concurrent

/-- Driver `d` is on ride `r`: ACCEPTED, ARRIVING or ONGOING. -/
structure OnRide (d : DriverId) (r : RideId) (s : Store) : Prop where
  live : (s.ride r).status.any RideStatus.live = true
  driver : (s.ride r).driverId = some d

instance {d : DriverId} {r : RideId} {s : Store} : Decidable (OnRide d r s) :=
  decidable_of_iff ((s.ride r).status.any RideStatus.live = true ∧ (s.ride r).driverId = some d)
    ⟨fun h => ⟨h.1, h.2⟩, fun h => ⟨h.live, h.driver⟩⟩

/-- In every state reached by steps allowed by `ok`, a driver is on one ride at most. -/
def OneRidePerDriver (env : Env) (ok : State → Step → Prop) : Prop :=
  ∀ as p d r r', (system env).Run ok initial as p → OnRide d r p.store → OnRide d r' p.store → r = r'

/-- Not a call of `requeueRideAfterDriverLoss`, which nothing in the source calls. -/
def serving : Step → Bool
  | .call (.requeueRideAfterDriverLoss ..) => false
  | _ => true

/-- No lock expires while it is held, and no ride is requeued. -/
def Serving (p : State) (a : Step) : Prop := LocksKept p a ∧ serving a = true

theorem serving_of_lasting (p : State) (a : Step) (h : (lasting p a && serving a) = true) :
    Serving p a := by
  obtain ⟨h₁, h₂⟩ := Bool.and_eq_true_iff.mp h
  exact ⟨locksKept_of_lasting p a h₁, h₂⟩

/-- The pointer of a driver is neither deleted nor moved while the driver is on the ride
it names. -/
def Write.sparesDriver (s : Store) : Write → Bool
  | .setDriverActiveRide d r => (s.driverActiveRide d).all fun a => a = r ∨ ¬ OnRide d a s
  | .delDriverActiveRide d => (s.driverActiveRide d).all fun a => ¬ OnRide d a s
  | _ => true

def Cmd.sparesDrivers (s : Store) : ⦃β : Type⦄ → Cmd β → Bool
  | _, .multi ws => ws.all (Write.sparesDriver s)
  | _, _ => true

variable {env : Env} {p q : State} {a : Step} {s t : Store} {d : DriverId} {r : RideId}

/-- The pointers name all rides that drivers are on. -/
def Pointing (s : Store) : Prop := ∀ d r, OnRide d r s → s.driverActiveRide d = some r

/-- An update that leaves a driver on a ride finds the driver on it. -/
theorem onRide_write {read h : RideHash} {fields : List RideField} (since : Since read h)
    (write : RideWrite env read fields) (hlive : (h.hset fields).status.any RideStatus.live = true)
    (hdriver : (h.hset fields).driverId = some d) :
    h.status.any RideStatus.live = true ∧ h.driverId = some d := by
  cases write with
  | start now hst =>
    rw [hset_startFields.1] at hlive
    cases hlive
  | clear now hst =>
    rw [hset_clearBatchFields.1] at hlive
    exact ⟨hlive, hset_clearBatchFields.2.1 ▸ hdriver⟩
  | exhaust now hst =>
    rw [hset_exhaustFields.1] at hlive
    cases hlive
  | expand nextRound nextRadius now hst =>
    rw [hset_expandFields.1] at hlive
    exact ⟨hlive, hset_expandFields.2.1 ▸ hdriver⟩
  | batch batchId ds expiresAt now hst =>
    rw [hset_batchFields.1] at hlive
    exact ⟨hlive, hset_batchFields.2.1 ▸ hdriver⟩
  | reject exhausted now hst =>
    rw [hset_rejectFields.1] at hlive
    exact ⟨hlive, hset_rejectFields.2.1 ▸ hdriver⟩
  | transition current next options now hst hnext hto hoptions =>
    obtain ⟨hstatus, hd, -⟩ := @hset_transitionFields env read h next options now hoptions
    rw [hstatus] at hlive
    have hcurrent : current.live = true ∧ current ≠ .dispatching := by
      cases current <;> cases next <;> simp_all [rideTransitions, RideStatus.live]
    have heq : h = read := since.eq_of_status hst hcurrent.2
    rw [heq, hst]
    rw [hd, heq] at hdriver
    exact ⟨hcurrent.1, hdriver⟩
  | requeue d' now hst hread =>
    rw [hset_requeueFields.1] at hlive
    cases hlive

/-- A driver comes to be on a ride by accepting it. -/
theorem onRide_step (h : RideStep env p a q r) (hq : OnRide d r q.store) :
    OnRide d r p.store ∨ Accepts p a r d ((p.store.ride r).version + 1) := by
  obtain ⟨hlive, hdriver⟩ := hq
  cases h with
  | same heq =>
    rw [heq] at hlive hdriver
    exact Or.inl ⟨hlive, hdriver⟩
  | create absent c origin destination metadata now heq =>
    rw [heq] at hlive
    cases hlive
  | accept d' acceptedAt accepts hst hd heq =>
    rw [heq] at hdriver
    cases hdriver
    exact Or.inr accepts
  | write read fields ws performs mem since write heq =>
    rw [heq] at hlive hdriver
    obtain ⟨h₁, h₂⟩ := onRide_write since write hlive hdriver
    exact Or.inl ⟨h₁, h₂⟩

theorem Write.apply_driverActiveRide {w : Write} (hset : ∀ r, w ≠ .setDriverActiveRide d r)
    (hdel : w ≠ .delDriverActiveRide d) : (w.apply s).driverActiveRide d = s.driverActiveRide d := by
  cases w with
  | setDriverActiveRide d' r =>
    have hne : d ≠ d' := fun h => hset r (h ▸ rfl)
    exact put_of_ne hne
  | delDriverActiveRide d' =>
    have hne : d ≠ d' := fun h => hdel (h ▸ rfl)
    exact put_of_ne hne
  | _ => rfl

/-- A MULTI that spares the drivers leaves the pointer to a ride the driver is on. -/
theorem multi_spares {ws : List Write} (hr : OnRide d r s) (hs : s.driverActiveRide d = some r)
    (hspares : ∀ w ∈ ws, w.sparesDriver s = true) (ht : t.driverActiveRide d = some r) :
    (t.multi ws).driverActiveRide d = some r := by
  induction ws generalizing t with
  | nil => exact ht
  | cons w ws ih =>
    rw [multi_cons]
    apply ih fun v hv => hspares v (List.mem_cons_of_mem _ hv)
    have hw : w.sparesDriver s = true := hspares w (List.mem_cons_self ..)
    by_cases hset : ∃ r', w = .setDriverActiveRide d r'
    · obtain ⟨r', rfl⟩ := hset
      simp only [Write.sparesDriver, hs, Option.all_some, decide_eq_true_eq] at hw
      rcases hw with rfl | hw
      · exact put_self
      · exact absurd hr hw
    · by_cases hdel : w = .delDriverActiveRide d
      · subst hdel
        simp only [Write.sparesDriver, hs, Option.all_some, decide_eq_true_eq] at hw
        exact absurd hr hw
      · rw [Write.apply_driverActiveRide (fun r' h => hset ⟨r', h⟩) hdel]
        exact ht

/-- The pointer to a ride the driver is on survives a step that spares the drivers. -/
theorem pointer_step (hnext : (system env).next p a = some q)
    (hcheck : Checked Cmd.sparesDrivers p a = true) (hr : OnRide d r p.store)
    (hs : p.store.driverActiveRide d = some r) : q.store.driverActiveRide d = some r := by
  have hsame : SameKeys p.store q.store → q.store.driverActiveRide d = some r := fun h => by
    rw [h.driverActive]
    exact hs
  rcases next_cases hnext with h | ⟨i, op, β, c, k, rfl, hi, hstore⟩
  · exact hsame h
  · have hcmd : Cmd.sparesDrivers p.store c = true := checked_command hcheck hi
    rw [hstore] at hsame ⊢
    cases c with
    | multi ws => exact multi_spares hr hs (List.all_eq_true.mp hcmd) hs
    | evalAcceptRide r' d' acceptedAt reservation =>
      change (acceptRideScript r' d' acceptedAt reservation p.store).2.driverActiveRide d = _
      rcases @acceptRideScript_cases p.store r' d' acceptedAt reservation with ⟨-, h⟩ | ⟨-, h, hzero⟩
      · rw [h]
        exact hs
      · rw [h]
        change put p.store.driverActiveRide d' (some r') d = _
        rcases eq_or_ne d d' with rfl | hne
        · -- the script has found no pointer, or a pointer to its own ride
          obtain ⟨-, -, -, -, -, -, -, hpointer⟩ := acceptRideGuard_eq_zero hzero
          rw [hs] at hpointer
          rcases hpointer with h | h
          · cases h
          · rw [put_self, h]
        · rw [put_of_ne hne]
          exact hs
    | _ => exact hsame (exec_sameKeys (by trivial))

theorem pointing_step (hp : (rides env False).Holds p) (hnext : (system env).next p a = some q)
    (hcheck : Checked Cmd.sparesDrivers p a = true) (hs : Pointing p.store) : Pointing q.store := by
  intro d r hr
  rcases onRide_step (ride_step hp hnext r) hr with hr | haccept
  · exact pointer_step hnext hcheck hr (hs d r hr)
  · obtain ⟨acceptedAt, reservation, -, -, hcommit⟩ := haccept.guard env (by omega)
    rw [hcommit q hnext]
    exact put_self

/-- A driver is on one ride at most, as long as no write takes the pointer away from a
ride that the driver is on. -/
theorem one_ride_per_driver :
    OneRidePerDriver env fun p a => LocksKept p a ∧ Checked Cmd.sparesDrivers p a = true := by
  intro as p d r r' hrun hr hr'
  have hboth : (rides env False).Holds p ∧ Pointing p.store := by
    refine hrun.invariant (I := fun p => (rides env False).Holds p ∧ Pointing p.store)
      ⟨rides_initial, fun d r hr => ?_⟩ fun p a q hp hok hnext => ⟨?_, ?_⟩
    · cases hr.driver
    · exact rides_run (fun p k hk hkept => hkept k (keeps_mutex hk) rfl) (.single hok.1 hnext) hp.1
    · exact pointing_step hp.1 hnext hok.2 hp.2
  have hpointer : p.store.driverActiveRide d = some r := hboth.2 d r hr
  rw [hboth.2 d r' hr'] at hpointer
  cases hpointer
  rfl

/-- Driver 1 accepts ride ⟨1, 2⟩ while its heartbeat is about to write back that it has
none. So it is ONLINE again, and is offered ride ⟨5, 7⟩ and accepts it as well. -/
theorem driver_on_two_rides : ¬ OneRidePerDriver townEnv Serving := by
  intro h
  let schedule : List Step := offered ++
    .call (.heartbeat 1 (some 0) (some 0) none) :: run 3 4 ++
    .call (.acceptRide ⟨1, 2⟩ 1) :: run 4 19 ++ run 3 3 ++
    .call (.requestRide 8 ⟨0, 0⟩ ⟨0, 0⟩ ⟨none, []⟩) :: run 5 14 ++
    .call (.startDispatch ⟨5, 7⟩) :: run 6 31 ++
    .call (.acceptRide ⟨5, 7⟩ 1) :: run 7 19
  have hsteps : ((system townEnv).steps (fun p a => lasting p a && serving a) schedule initial).any
      (fun p => OnRide 1 ⟨1, 2⟩ p.store ∧ OnRide 1 ⟨5, 7⟩ p.store) = true := by decide +kernel
  obtain ⟨p, hrun, hp⟩ := System.exists_run serving_of_lasting hsteps
  obtain ⟨h₁, h₂⟩ := of_decide_eq_true hp
  have heq : (⟨1, 2⟩ : RideId) = ⟨5, 7⟩ := h schedule p 1 ⟨1, 2⟩ ⟨5, 7⟩ hrun h₁ h₂
  exact absurd heq (by decide)

end YatriGo
