import YatriGo.Proofs.Locking

/-! How the hash of a ride changes. Only the holder of the ride's lock writes it, except
for the accept script, which takes no lock; so the holder finds the hash as it read it
or accepted since. -/

namespace YatriGo
open Concurrent

def RideHash.terminal (h : RideHash) : Prop :=
  h.status = some .completed ∨ h.status = some .cancelled

/-- The status of a ride in the middle of a dispatch. -/
def RideHash.working (h : RideHash) : Prop :=
  h.status = some .dispatching ∨ h.status = some .accepted

theorem RideHash.working.congr {h g : RideHash} (hs : h.working) (heq : g.status = h.status) :
    g.working := by
  unfold RideHash.working
  rw [heq]
  exact hs

theorem RideHash.terminal.congr {h g : RideHash} (hs : h.terminal) (heq : g.status = h.status) :
    g.terminal := by
  unfold RideHash.terminal
  rw [heq]
  exact hs

/-- What can become of the hash `h` of a ride while its lock is held by one client that
does not write: nothing, or an acceptance; a ride that did not exist may be created. -/
inductive Since (h : RideHash) : RideHash → Prop
  | same : Since h h
  | accepted (d : DriverId) (acceptedAt : Time) (hst : h.status = some .dispatching)
      (hd : h.driverId = none) : Since h (h.accept d acceptedAt)
  | absent (g : RideHash) (hst : h.status = none) : Since h g

section Since

variable {h g k : RideHash}

theorem Since.trans (h₁ : Since h g) (h₂ : Since g k) : Since h k := by
  cases h₁ with
  | same => exact h₂
  | absent g hst => exact .absent k hst
  | accepted d acceptedAt hst hd =>
    cases h₂ with
    | same => exact .accepted d acceptedAt hst hd
    | accepted d' atTime hst' hd' => cases hst'
    | absent k hst' => cases hst'

theorem Since.eq_of_status {s : RideStatus} (h₁ : Since h g) (hs : h.status = some s)
    (hne : s ≠ .dispatching) : g = h := by
  cases h₁ with
  | same => rfl
  | accepted d acceptedAt hst hd => rw [hs] at hst; cases hst; exact absurd rfl hne
  | absent g hst => rw [hs] at hst; cases hst

theorem Since.eq_of_terminal (h₁ : Since h g) (hs : h.terminal) : g = h := by
  rcases hs with hs | hs
  · exact h₁.eq_of_status hs (by decide)
  · exact h₁.eq_of_status hs (by decide)

theorem Since.working (h₁ : Since h g) (hs : h.working) : g.working := by
  cases h₁ with
  | same => exact hs
  | accepted d acceptedAt hst hd => exact Or.inr rfl
  | absent g hst =>
    unfold RideHash.working at hs
    simp only [hst, reduceCtorEq, or_self] at hs

theorem Since.status_ne_none (h₁ : Since h g) (hs : h.status ≠ none) : g.status ≠ none := by
  cases h₁ with
  | same => exact hs
  | accepted d acceptedAt hst hd => exact Option.some_ne_none _
  | absent g hst => exact absurd hst hs

end Since

/-- The updates of a ride's hash, each with what the operation had read in it. -/
inductive RideWrite (env : Env) (h : RideHash) : List RideField → Prop
  | start (now : Time) (hst : h.status = some .requested) : RideWrite env h (startFields env h now)
  | clear (now : Time) (hst : h.status = some .dispatching) : RideWrite env h (clearBatchFields h now)
  | exhaust (now : Time) (hst : h.working) : RideWrite env h (exhaustFields h now)
  | expand (nextRound : ℕ) (nextRadius : ℚ) (now : Time) (hst : h.working) :
      RideWrite env h (expandFields h nextRound nextRadius now)
  | batch (batchId : BatchId) (batchDrivers : List DriverId) (expiresAt now : Time) (hst : h.working) :
      RideWrite env h (batchFields h batchId batchDrivers expiresAt now)
  | reject (exhausted : Bool) (now : Time) (hst : h.status = some .dispatching) :
      RideWrite env h (rejectFields h exhausted now)
  | transition (current next : RideStatus) (options : TransitionOptions) (now : Time)
      (hst : h.status = some current) (hnext : next ∈ rideTransitions current)
      (hto : next ≠ .dispatching ∧ next ≠ .accepted) (hdriver : options.driverId = none) :
      RideWrite env h (transitionFields env h next options now)
  | requeue (d : DriverId) (now : Time) (hst : h.status = some .accepted ∨ h.status = some .arriving)
      (hd : h.driverId = some d) : RideWrite env h (requeueFields env h now)

section hset

variable {env : Env} {h g : RideHash} {fields : List RideField}

@[simp] theorem hset_nil : h.hset [] = h := rfl

@[simp] theorem hset_cons (f : RideField) : h.hset (f :: fields) = (h.setField f).hset fields := rfl

@[simp] theorem hset_append (fields' : List RideField) :
    h.hset (fields ++ fields') = (h.hset fields).hset fields' := List.foldl_append ..

theorem hset_customerId : (h.hset fields).customerId = h.customerId := by
  induction fields generalizing h with
  | nil => rfl
  | cons f fields ih =>
    rw [hset_cons, ih]
    cases f <;> rfl

theorem hset_origin : (h.hset fields).origin = h.origin := by
  induction fields generalizing h with
  | nil => rfl
  | cons f fields ih =>
    rw [hset_cons, ih]
    cases f <;> rfl

theorem hset_status_ne_none (hs : h.status ≠ none) : (h.hset fields).status ≠ none := by
  induction fields generalizing h with
  | nil => exact hs
  | cons f fields ih =>
    rw [hset_cons]
    apply ih
    cases f <;> first | exact hs | exact Option.some_ne_none _

theorem completionFields_eq {options : TransitionOptions} {now : Time} :
    ∃ distance duration fare billing commission earning, completionFields env h options now =
      [.actualDistanceKm distance, .actualDurationMin duration, .finalFare fare, .billing billing,
        .commissionAmount commission, .driverEarning earning] :=
  ⟨_, _, _, _, _, _, rfl⟩

theorem hset_transitionFields {next : RideStatus} {options : TransitionOptions} {now : Time}
    (hd : options.driverId = none) :
    (g.hset (transitionFields env h next options now)).status = some next ∧
    (g.hset (transitionFields env h next options now)).driverId = g.driverId ∧
    (g.hset (transitionFields env h next options now)).version = h.version + 1 ∧
    (g.hset (transitionFields env h next options now)).currentBatchId = g.currentBatchId ∧
    (g.hset (transitionFields env h next options now)).currentBatchDrivers =
      g.currentBatchDrivers := by
  obtain ⟨distance, duration, fare, billing, commission, earning, hc⟩ :=
    @completionFields_eq env h options now
  unfold transitionFields
  rw [hc, hd]
  clear hc
  simp only [hset_append]
  split_ifs <;> simp only [hset_cons, hset_nil, RideHash.setField, and_self]

theorem hset_startFields {now : Time} :
    (g.hset (startFields env h now)).status = some .dispatching ∧
    (g.hset (startFields env h now)).driverId = g.driverId ∧
    (g.hset (startFields env h now)).currentBatchId = g.currentBatchId := by
  simp only [startFields, hset_cons, hset_nil, RideHash.setField, and_self]

theorem hset_clearBatchFields {now : Time} :
    (g.hset (clearBatchFields h now)).status = g.status ∧
    (g.hset (clearBatchFields h now)).driverId = g.driverId ∧
    (g.hset (clearBatchFields h now)).currentBatchId = none := by
  simp only [clearBatchFields, hset_cons, hset_nil, RideHash.setField, and_self]

theorem hset_exhaustFields {now : Time} :
    (g.hset (exhaustFields h now)).status = some .cancelled ∧
    (g.hset (exhaustFields h now)).driverId = g.driverId ∧
    (g.hset (exhaustFields h now)).currentBatchId = none := by
  simp only [exhaustFields, hset_cons, hset_nil, RideHash.setField, and_self]

theorem hset_expandFields {nextRound : ℕ} {nextRadius : ℚ} {now : Time} :
    (g.hset (expandFields h nextRound nextRadius now)).status = g.status ∧
    (g.hset (expandFields h nextRound nextRadius now)).driverId = g.driverId ∧
    (g.hset (expandFields h nextRound nextRadius now)).currentBatchId = none := by
  simp only [expandFields, hset_cons, hset_nil, RideHash.setField, and_self]

theorem hset_batchFields {batchId : BatchId} {ds : List DriverId} {expiresAt now : Time} :
    (g.hset (batchFields h batchId ds expiresAt now)).status = g.status ∧
    (g.hset (batchFields h batchId ds expiresAt now)).driverId = g.driverId ∧
    (g.hset (batchFields h batchId ds expiresAt now)).currentBatchId = some batchId := by
  simp only [batchFields, hset_cons, hset_nil, RideHash.setField, and_self]

theorem hset_rejectFields {exhausted : Bool} {now : Time} :
    (g.hset (rejectFields h exhausted now)).status = g.status ∧
    (g.hset (rejectFields h exhausted now)).driverId = g.driverId ∧
    (g.hset (rejectFields h exhausted now)).currentBatchId =
      if exhausted then none else h.currentBatchId := by
  simp only [rejectFields, hset_cons, hset_nil, RideHash.setField, and_self]

theorem hset_requeueFields {now : Time} :
    (g.hset (requeueFields env h now)).status = some .dispatching ∧
    (g.hset (requeueFields env h now)).driverId = none ∧
    (g.hset (requeueFields env h now)).currentBatchId = none := by
  simp only [requeueFields, hset_cons, hset_nil, RideHash.setField, and_self]

theorem RideWrite.status_ne_none (hw : RideWrite env h fields) : h.status ≠ none := by
  cases hw with
  | start now hst => rw [hst]; exact Option.some_ne_none _
  | clear now hst => rw [hst]; exact Option.some_ne_none _
  | exhaust now hst => rcases hst with hst | hst <;> (rw [hst]; exact Option.some_ne_none _)
  | expand _ _ now hst => rcases hst with hst | hst <;> (rw [hst]; exact Option.some_ne_none _)
  | batch _ _ _ now hst => rcases hst with hst | hst <;> (rw [hst]; exact Option.some_ne_none _)
  | reject _ now hst => rw [hst]; exact Option.some_ne_none _
  | transition current next options now hst => rw [hst]; exact Option.some_ne_none _
  | requeue d now hst => rcases hst with hst | hst <;> (rw [hst]; exact Option.some_ne_none _)

theorem RideWrite.not_terminal (hw : RideWrite env h fields) : ¬ h.terminal := by
  intro ht
  unfold RideHash.terminal at ht
  cases hw with
  | start now hst => simp only [hst, Option.some.injEq, reduceCtorEq, or_self] at ht
  | clear now hst => simp only [hst, Option.some.injEq, reduceCtorEq, or_self] at ht
  | exhaust now hst => rcases hst with hst | hst <;> simp only [hst, Option.some.injEq, reduceCtorEq, or_self] at ht
  | expand _ _ now hst => rcases hst with hst | hst <;> simp only [hst, Option.some.injEq, reduceCtorEq, or_self] at ht
  | batch _ _ _ now hst => rcases hst with hst | hst <;> simp only [hst, Option.some.injEq, reduceCtorEq, or_self] at ht
  | reject _ now hst => simp only [hst, Option.some.injEq, reduceCtorEq, or_self] at ht
  | transition current next options now hst hnext =>
    rw [hst] at ht
    rcases ht with ht | ht <;> (cases ht; simp only [rideTransitions, List.not_mem_nil] at hnext)
  | requeue d now hst => rcases hst with hst | hst <;> simp only [hst, Option.some.injEq, reduceCtorEq, or_self] at ht

theorem RideWrite.version (hw : RideWrite env h fields) : (g.hset fields).version = h.version + 1 := by
  cases hw with
  | transition current next options now hst hnext hto hdriver =>
    exact (hset_transitionFields hdriver).2.2.1
  | _ => rfl

theorem Since.not_terminal (h₁ : Since h g) (hs : h.status ≠ none) (ht : ¬ h.terminal) : ¬ g.terminal := by
  cases h₁ with
  | same => exact ht
  | accepted d acceptedAt hst hd =>
    intro h'
    rcases h' with h' | h' <;> cases h'
  | absent g hst => exact absurd hst hs

end hset

/-- The other writes in a MULTI that updates a ride's hash. -/
def Write.aside : Write → Prop
  | .expireRide _ => True
  | .saddNotified .. => True
  | .delNotified _ => True
  | .hsetResponse .. => True
  | .delResponses _ => True
  | .saddPending .. => True
  | .sremPending .. => True
  | _ => False

/-- Client `i` has the lease of the lock. -/
def Holds (i : ℕ) (key : LockKey) (s : Store) : Prop :=
  ∃ lease, s.locks key = some lease ∧ lease.token.ownedBy i

/-- What the MULTIs of client `i` are, and what each has made sure of. -/
inductive Update (env : Env) (customers : Prop) (i : ℕ) : List Write → Store → Prop
  | background {ws : List Write} {s : Store} (h : BackgroundWrites env ws) : Update env customers i ws s
  | create {s : Store} (c : CustomerId) (origin destination : Location) (metadata : Metadata)
      (now : Time) (r : RideId) (mine : r.client = i) (seq : r.seq < s.nextSeq)
      (absent : (s.ride r).status = none)
      (alone : customers → Holds i (.customer c) s ∧
        ∀ a, s.customerActiveRide c = some a → (s.ride a).terminal) :
      Update env customers i [.createRide r (requestPayload env c origin destination metadata now),
        .setCustomerActiveRide c r, .saddActiveRide r, .expireRide r] s
  | ride {s : Store} (pre post : List Write) (r : RideId) (h : RideHash) (fields : List RideField)
      (holds : Holds i (.ride r) s) (since : Since h (s.ride r)) (write : RideWrite env h fields)
      (aside : ∀ w ∈ pre ++ post, w.aside) :
      Update env customers i (pre ++ .hsetRide r fields :: post) s
  | cleanup {s : Store} (r : RideId) (notifiedDrivers : List DriverId)
      (currentCustomerRide : Option RideId) (holds : Holds i (.ride r) s)
      (terminal : (s.ride r).terminal) :
      Update env customers i
        (cleanupWrites r (s.ride r).customerId notifiedDrivers currentCustomerRide) s
  | release {s : Store} (d : DriverId) (r : RideId) (driverHash : DriverHash)
      (driverActiveRide : Option RideId) (heartbeatExists : Bool) (now : Time)
      (holds : Holds i (.ride r) s) (driver : (s.ride r).driverId = some d) :
      Update env customers i
        (releaseWrites d r driverHash driverActiveRide heartbeatExists now) s

/-- The part of the store this module is about is the same before and after. -/
structure SameRides (s t : Store) : Prop where
  ride : t.ride = s.ride
  seq : s.nextSeq ≤ t.nextSeq
  pointer : ∀ c, t.customerActiveRide c = s.customerActiveRide c ∨ t.customerActiveRide c = none

/-- What client `i` can rely on while the others run. -/
structure RideRely (customers : Prop) (i : ℕ) (s t : Store) : Prop where
  leases : LeasesStay customers i s t
  seq : s.nextSeq ≤ t.nextSeq
  mine : ∀ r, r.client = i → (s.ride r).status = none → (t.ride r).status = none
  exist : ∀ r, (s.ride r).status ≠ none →
    (t.ride r).status ≠ none ∧ (t.ride r).customerId = (s.ride r).customerId
  terminal : ∀ r, (s.ride r).terminal → t.ride r = s.ride r
  locked : ∀ r, Holds i (.ride r) s → Since (s.ride r) (t.ride r)
  pointer : customers → ∀ c, Holds i (.customer c) s →
    t.customerActiveRide c = s.customerActiveRide c ∨ t.customerActiveRide c = none

/-- The invariant: who took which lock, and which rides there are. -/
structure RideInv (customers : Prop) (n : ℕ) (s : Store) : Prop where
  leases : Leases customers n s
  ids : ∀ r, (s.ride r).status ≠ none → r.client < n ∧ r.seq < s.nextSeq
  pointers : ∀ c r, s.customerActiveRide c = some r →
    (s.ride r).status ≠ none ∧ (s.ride r).customerId = c

end YatriGo
