import YatriGo.Concurrent.Solo
import YatriGo.Proofs.RideContract

/-! Everything in the store that refers to a ride, and the commands that remove it. -/

namespace YatriGo
open Concurrent

/-- A place where a ride is referred to. -/
inductive Ref
  | active
  | customer
  | pending (driverId : DriverId)
  | reservation (driverId : DriverId) (batchId : BatchId)
  | pointer (driverId : DriverId)
  | hash (driverId : DriverId)
  deriving DecidableEq

/-- The store refers to ride `r` in this place. -/
def Ref.Held (r : RideId) (s : Store) : Ref → Prop
  | .active => r ∈ s.activeRides
  | .customer => s.customerActiveRide (s.ride r).customerId = some r
  | .pending d => r ∈ s.driverPendingDispatches d
  | .reservation d b => (s.locks (.reservation d)).map Lease.token = some (.reservation r b)
  | .pointer d => s.driverActiveRide d = some r
  | .hash d => (s.driverHash d).activeRideId = some r

/-- Nothing that a reference to a ride depends on is changed. -/
structure SameRefs (s t : Store) : Prop extends SameKeys s t where
  reservations : ∀ d, t.locks (.reservation d) = s.locks (.reservation d)

def LockKey.reserves : LockKey → Prop
  | .reservation _ => True
  | _ => False

def Write.quiet : Write → Prop
  | .expireRide _ => True
  | .rpushTimeline .. => True
  | _ => False

/-- Commands that leave all references as they are. -/
def Cmd.quiet : ⦃β : Type⦄ → Cmd β → Prop
  | _, .multi ws => ∀ w ∈ ws, w.quiet
  | _, .setNX key .. => ¬ key.reserves
  | _, .evalReleaseLock key _ => ¬ key.reserves
  | _, .evalAcceptRide .. => False
  | _, _ => True

variable {env : Env} {i : ℕ} {r : RideId} {s t u : Store} {ref : Ref}

theorem SameRefs.refl : SameRefs s s := ⟨SameKeys.refl, fun _ => rfl⟩

theorem SameRefs.trans (h₁ : SameRefs s t) (h₂ : SameRefs t u) : SameRefs s u :=
  ⟨h₁.toSameKeys.trans h₂.toSameKeys, fun d => (h₂.reservations d).trans (h₁.reservations d)⟩

theorem SameKeys.held (h : SameKeys s t) (hne : ∀ d b, ref ≠ .reservation d b) :
    ref.Held r t ↔ ref.Held r s := by
  cases ref with
  | active => simp only [Ref.Held, h.active]
  | customer => simp only [Ref.Held, h.customer, h.ride]
  | pending d => simp only [Ref.Held, h.pending]
  | reservation d b => exact absurd rfl (hne d b)
  | pointer d => simp only [Ref.Held, h.driverActive]
  | hash d => simp only [Ref.Held, h.driverHash]

theorem SameRefs.held (h : SameRefs s t) : ref.Held r t ↔ ref.Held r s := by
  cases ref with
  | reservation d b => simp only [Ref.Held, h.reservations]
  | _ =>
    refine h.toSameKeys.held ?_
    intro d b hr
    cases hr

theorem multi_quiet {ws : List Write} (h : ∀ w ∈ ws, w.quiet) : SameRefs s (s.multi ws) := by
  induction ws generalizing s with
  | nil => exact SameRefs.refl
  | cons w ws ih =>
    have hw : SameRefs s (w.apply s) := by
      have hq : w.quiet := h w List.mem_cons_self
      cases w with
      | expireRide r => exact SameRefs.refl
      | rpushTimeline r e => exact ⟨⟨le_rfl, rfl, rfl, rfl, rfl, rfl, rfl, rfl, rfl, rfl, rfl⟩, fun _ => rfl⟩
      | _ => exact hq.elim
    exact hw.trans (ih fun v hv => h v (List.mem_cons_of_mem _ hv))

/-- A quiet command leaves the references as they are. -/
theorem exec_quiet {β : Type} {c : Cmd β} (h : c.quiet) : SameRefs s (exec env i c s).2 := by
  have hne : ∀ {key : LockKey} {d : DriverId}, ¬ key.reserves → LockKey.reservation d ≠ key := by
    rintro key d hkey rfl
    exact hkey trivial
  have hclerical : c.clerical → _ := @exec_clerical s env i β c
  cases c with
  | multi ws => exact multi_quiet h
  | setNX key token ttl =>
    refine ⟨exec_sameKeys trivial, fun d => ?_⟩
    cases hl : s.locks key with
    | some lease => rw [exec_setNX_of_some hl]
    | none =>
      rw [exec_setNX_of_none hl]
      exact put_of_ne (hne h)
  | evalReleaseLock key token =>
    exact ⟨exec_sameKeys trivial, fun d => releaseLockScript_locks_of_ne (hne h)⟩
  | evalAcceptRide r d acceptedAt reservation => exact h.elim
  | uuidv4 => exact ⟨exec_sameKeys trivial, fun _ => rfl⟩
  | upsertRideDoc r fields ds timeline => exact ⟨exec_sameKeys trivial, fun _ => rfl⟩
  | upsertDriverDoc d doc => exact ⟨exec_sameKeys trivial, fun _ => rfl⟩
  | updateDriverDocStatus d status => exact ⟨exec_sameKeys trivial, fun _ => rfl⟩
  | _ =>
    refine ⟨exec_sameKeys trivial, fun d => ?_⟩
    obtain ⟨idempotency, published, jobs, heq⟩ := hclerical trivial
    rw [heq]

/-- A release of the reservation that `b` made of `d` removes this reference only. -/
theorem held_release {d : DriverId} {b : BatchId} :
    ref.Held r (releaseLockScript (.reservation d) (.reservation r b) s).2 ↔
      ref.Held r s ∧ ¬ ref = .reservation d b := by
  cases ref with
  | reservation d' b' =>
    simp only [Ref.Held, Ref.reservation.injEq, not_and]
    rcases eq_or_ne d' d with rfl | hne
    · unfold releaseLockScript
      cases hl : s.locks (.reservation d') with
      | none => simp [hl]
      | some lease =>
        dsimp only
        split_ifs with htoken
        · simp only [put_self, Option.map_none, reduceCtorEq, Option.map_some, htoken,
            Option.some.injEq, Token.reservation.injEq, true_and, true_implies, false_iff, not_and,
            not_not]
          exact Eq.symm
        · simp only [hl, Option.map_some, Option.some.injEq, true_implies]
          refine ⟨fun h => ⟨h, fun hb => htoken (by rw [h, hb])⟩, And.left⟩
    · rw [releaseLockScript_locks_of_ne fun h => hne (LockKey.reservation.inj h)]
      exact ⟨fun h => ⟨h, fun hd => absurd hd hne⟩, And.left⟩
  | _ =>
    obtain ⟨locks, hl⟩ : ∃ locks, (releaseLockScript (.reservation d) (.reservation r b) s).2 =
      { s with locks } := releaseLockScript_eq
    rw [hl]
    refine (and_iff_left ?_).symm
    intro h
    cases h

section clears

/-- Writes that remove references and add none. -/
def Write.clears : Write → Prop
  | .expireRide _ => True
  | .sremActiveRide _ => True
  | .delCustomerActiveRide _ => True
  | .hsetDriver _ fields => ∀ a, .activeRideId a ∈ fields → a = none
  | .sadd .. => True
  | .srem .. => True
  | .geoadd .. => True
  | .delDriverActiveRide _ => True
  | .sremPending .. => True
  | _ => False

/-- The reference to ride `r` of customer `c` that the write removes. -/
def Write.removes (r : RideId) (c : CustomerId) : Write → Ref → Prop
  | .sremActiveRide r', .active => r' = r
  | .delCustomerActiveRide c', .customer => c = c'
  | .sremPending d r', .pending d' => d' = d ∧ r' = r
  | .delDriverActiveRide d, .pointer d' => d' = d
  | .hsetDriver d fields, .hash d' => d' = d ∧ .activeRideId none ∈ fields
  | _, _ => False

theorem hset_clears {h : DriverHash} {fields : List DriverField}
    (hf : ∀ a, .activeRideId a ∈ fields → a = none) :
    (h.hset fields).activeRideId = some r ↔ h.activeRideId = some r ∧ .activeRideId none ∉ fields := by
  induction fields generalizing h with
  | nil => simp [DriverHash.hset]
  | cons f fields ih =>
    have htail : ((h.setField f).hset fields).activeRideId = some r ↔
        (h.setField f).activeRideId = some r ∧ .activeRideId none ∉ fields :=
      ih fun a ha => hf a (List.mem_cons_of_mem _ ha)
    change ((h.setField f).hset fields).activeRideId = some r ↔ _
    rw [htail]
    cases f with
    | activeRideId a =>
      obtain rfl := hf a List.mem_cons_self
      simp [DriverHash.setField]
    | _ => simp [DriverHash.setField]

/-- The keys that a clearing MULTI does not touch. -/
structure SameBatch (s t : Store) : Prop where
  ride : t.ride = s.ride
  notified : t.rideNotifiedDrivers = s.rideNotifiedDrivers
  locks : t.locks = s.locks

theorem held_write {w : Write} (h : w.clears) :
    SameBatch s (w.apply s) ∧
      (ref.Held r (w.apply s) ↔ ref.Held r s ∧ ¬ w.removes r (s.ride r).customerId ref) := by
  cases w with
  | sremActiveRide r' =>
    refine ⟨⟨rfl, rfl, rfl⟩, ?_⟩
    cases ref with
    | active =>
      change r ∈ srem r' s.activeRides ↔ r ∈ s.activeRides ∧ ¬ r' = r
      rw [mem_srem, ne_comm]
    | _ => exact (and_iff_left not_false).symm
  | delCustomerActiveRide c =>
    refine ⟨⟨rfl, rfl, rfl⟩, ?_⟩
    cases ref with
    | customer =>
      change put s.customerActiveRide c none (s.ride r).customerId = some r ↔
        s.customerActiveRide (s.ride r).customerId = some r ∧ ¬ (s.ride r).customerId = c
      rw [put_apply]
      split_ifs with hc <;> simp [hc]
    | _ => exact (and_iff_left not_false).symm
  | delDriverActiveRide d =>
    refine ⟨⟨rfl, rfl, rfl⟩, ?_⟩
    cases ref with
    | pointer d' =>
      change put s.driverActiveRide d none d' = some r ↔ s.driverActiveRide d' = some r ∧ ¬ d' = d
      rw [put_apply]
      split_ifs with hd <;> simp [hd]
    | _ => exact (and_iff_left not_false).symm
  | sremPending d r' =>
    refine ⟨⟨rfl, rfl, rfl⟩, ?_⟩
    cases ref with
    | pending d' =>
      change r ∈ put s.driverPendingDispatches d (srem r' (s.driverPendingDispatches d)) d' ↔
        r ∈ s.driverPendingDispatches d' ∧ ¬ (d' = d ∧ r' = r)
      rw [mem_put_srem, eq_comm (a := r)]
    | _ => exact (and_iff_left not_false).symm
  | hsetDriver d fields =>
    refine ⟨⟨rfl, rfl, rfl⟩, ?_⟩
    cases ref with
    | hash d' =>
      change (put s.driverHash d ((s.driverHash d).hset fields) d').activeRideId = some r ↔
        (s.driverHash d').activeRideId = some r ∧ ¬ (d' = d ∧ .activeRideId none ∈ fields)
      rw [put_apply]
      split_ifs with hd
      · rw [hset_clears h, hd]
        simp only [true_and]
      · simp [hd]
    | _ => exact (and_iff_left not_false).symm
  | expireRide r' => exact ⟨⟨rfl, rfl, rfl⟩, (and_iff_left (by cases ref <;> exact not_false)).symm⟩
  | sadd p d => exact ⟨⟨rfl, rfl, rfl⟩, by cases ref <;> exact (and_iff_left not_false).symm⟩
  | srem p d => exact ⟨⟨rfl, rfl, rfl⟩, by cases ref <;> exact (and_iff_left not_false).symm⟩
  | geoadd d l => exact ⟨⟨rfl, rfl, rfl⟩, by cases ref <;> exact (and_iff_left not_false).symm⟩
  | _ => exact h.elim

theorem held_multi {ws : List Write} (h : ∀ w ∈ ws, w.clears) :
    SameBatch s (s.multi ws) ∧
      (ref.Held r (s.multi ws) ↔ ref.Held r s ∧ ¬ ∃ w ∈ ws, w.removes r (s.ride r).customerId ref) := by
  induction ws generalizing s with
  | nil => exact ⟨⟨rfl, rfl, rfl⟩, by simp⟩
  | cons w ws ih =>
    obtain ⟨hsame, hw⟩ := @held_write r s ref w (h w List.mem_cons_self)
    obtain ⟨hsame', hws⟩ := @ih (w.apply s) fun v hv => h v (List.mem_cons_of_mem _ hv)
    rw [multi_cons]
    refine ⟨⟨hsame'.ride.trans hsame.ride, hsame'.notified.trans hsame.notified,
      hsame'.locks.trans hsame.locks⟩, ?_⟩
    rw [hws, hw, hsame.ride]
    simp only [List.mem_cons, exists_eq_or_imp, not_or, and_assoc]

end clears

end YatriGo
