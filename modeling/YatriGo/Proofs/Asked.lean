import Mathlib.Tactic.Linarith
import YatriGo.Proofs.RideContract

/-! Redis takes a search by the position, the radius and the count. A driver is asked about a ride after a search
that Redis took, so the later searches for the ride are taken, too. -/

namespace YatriGo
open Concurrent

/-- The radius of the next search. -/
def nextRadiusKm (env : Env) (ride : RideHash) : ℚ := orNumber ride.searchRadiusKm env.dispatch.initialSearchRadiusKm

/-- Redis takes the search around the pickup of the ride. -/
def allowsSearch (env : Env) (ride : RideHash) (searchRadiusKm : ℚ) : Bool :=
  searchable ride.origin searchRadiusKm (env.dispatch.batchSize * env.dispatch.candidateMultiplier)

/-- Redis takes the searches around the pickup. -/
def allowsPickup (env : Env) (origin : Location) : Bool :=
  searchable origin env.dispatch.initialSearchRadiusKm (env.dispatch.batchSize * env.dispatch.candidateMultiplier)

/-- A radius to search with: the first one, or one that follows a search that Redis took. -/
def Follows (env : Env) (origin : Location) (searchRadiusKm : ℚ) : Prop :=
  searchRadiusKm = env.dispatch.initialSearchRadiusKm ∨ allowsPickup env origin = true ∧ 0 ≤ searchRadiusKm

/-- Who was asked about a ride, was found by a search that Redis took. -/
structure Asked (env : Env) (s : Store) : Prop where
  follows : ∀ r, Follows env (s.ride r).origin (nextRadiusKm env (s.ride r))
  allowed : ∀ r d, s.rideResponses r d ≠ none → (s.ride r).status ≠ none ∧ allowsPickup env (s.ride r).origin = true

/-- Anything but hashes of rides and responses. -/
def Write.offstage : Write → Prop
  | .createRide .. => False
  | .hsetRide .. => False
  | .hsetResponse .. => False
  | .delResponses .. => False
  | _ => True

/-- A write that asks a driver follows a search that Redis took, and so does one that sets the radius. -/
def Write.follows (env : Env) (s : Store) : Write → Prop
  | .createRide .. => False
  | .hsetRide r fields => ∀ v, .searchRadiusKm v ∈ fields → Follows env (s.ride r).origin v
  | .hsetResponse r _ _ => (s.ride r).status ≠ none ∧ allowsPickup env (s.ride r).origin = true
  | _ => True

variable {env : Env} {s t : Store} {ride : RideHash} {r : RideId} {d : DriverId} {origin : Location} {radius : ℚ}
  {fields : List RideField} {β : Type}

theorem Follows.allows (h : Follows env origin radius) (hallows : allowsPickup env origin = true) :
    searchable origin radius (env.dispatch.batchSize * env.dispatch.candidateMultiplier) = true := by
  rcases h with rfl | ⟨-, hradius⟩
  · exact hallows
  · exact searchable_radius hallows hradius

theorem Follows.taken (h : Follows env origin radius)
    (htaken : searchable origin radius (env.dispatch.batchSize * env.dispatch.candidateMultiplier) = true) :
    allowsPickup env origin = true ∧ 0 ≤ radius := by
  have hradius : 0 ≤ radius := (of_decide_eq_true htaken).2.1
  rcases h with rfl | ⟨hallows, -⟩
  · exact ⟨htaken, hradius⟩
  · exact ⟨hallows, hradius⟩

theorem Follows.wider (h : Follows env origin radius) (hradius : radius < env.dispatch.maxSearchRadiusKm)
    (htaken : searchable origin radius (env.dispatch.batchSize * env.dispatch.candidateMultiplier) = true) :
    Follows env origin (min (radius * 2) env.dispatch.maxSearchRadiusKm) := by
  obtain ⟨hallows, hnonneg⟩ := h.taken htaken
  exact .inr ⟨hallows, le_min (by linarith) (by linarith)⟩

theorem Follows.orNumber (h : Follows env origin radius) :
    Follows env origin (orNumber radius env.dispatch.initialSearchRadiusKm) := by
  unfold YatriGo.orNumber
  split_ifs
  · exact .inl rfl
  · exact h

theorem follows_hset (h : Follows env ride.origin (nextRadiusKm env ride))
    (hfields : ∀ v, .searchRadiusKm v ∈ fields → Follows env ride.origin v) :
    Follows env ride.origin (nextRadiusKm env (ride.hset fields)) := by
  induction fields generalizing ride with
  | nil => exact h
  | cons f fields ih =>
    have horigin : (ride.setField f).origin = ride.origin := by cases f <;> rfl
    rw [hset_cons, ← horigin]
    refine ih ?_ fun v hv => ?_
    · rw [horigin]
      cases f with
      | searchRadiusKm v => exact (hfields v List.mem_cons_self).orNumber
      | _ => exact h
    · rw [horigin]
      exact hfields v (List.mem_cons_of_mem _ hv)

theorem Asked.same (h : Asked env s) (hride : t.ride = s.ride) (hresponses : t.rideResponses = s.rideResponses) :
    Asked env t where
  follows := by rw [hride]; exact h.follows
  allowed := by rw [hride, hresponses]; exact h.allowed

theorem Write.follows.pickup {w : Write} (hw : w.follows env s) : ((w.apply s).ride r).origin = (s.ride r).origin ∧
    ((s.ride r).status ≠ none → ((w.apply s).ride r).status ≠ none) := by
  cases w with
  | createRide r' payload => exact hw.elim
  | hsetRide r' fields =>
    show (put s.ride r' _ r).origin = _ ∧ (_ → (put s.ride r' _ r).status ≠ none)
    rcases eq_or_ne r r' with rfl | hne
    · rw [put_self]
      exact ⟨hset_origin, hset_status_ne_none⟩
    · rw [put_of_ne hne]
      exact ⟨rfl, id⟩
  | _ => exact ⟨rfl, id⟩

theorem Write.follows.after {v w : Write} (hw : w.follows env s) (hv : v.follows env s) : v.follows env (w.apply s) := by
  cases v with
  | createRide r payload => exact hv.elim
  | hsetRide r fields =>
    intro radius hradius
    rw [(hw.pickup).1]
    exact hv radius hradius
  | hsetResponse r d value =>
    refine ⟨(hw.pickup).2 hv.1, ?_⟩
    rw [(hw.pickup).1]
    exact hv.2
  | _ => trivial

theorem asked_write {w : Write} (h : Asked env s) (hw : w.follows env s) : Asked env (w.apply s) := by
  cases w with
  | createRide r payload => exact hw.elim
  | hsetRide r fields =>
    refine ⟨fun r' => ?_, fun r' d hd => ?_⟩
    · show Follows env (put s.ride r _ r').origin (nextRadiusKm env (put s.ride r _ r'))
      rcases eq_or_ne r' r with rfl | hne
      · rw [put_self, hset_origin]
        exact follows_hset (h.follows r') hw
      · rw [put_of_ne hne]
        exact h.follows r'
    · obtain ⟨hstatus, hallows⟩ := h.allowed r' d hd
      have hpickup := @Write.follows.pickup env s r' (.hsetRide r fields) hw
      exact ⟨hpickup.2 hstatus, hpickup.1 ▸ hallows⟩
  | hsetResponse r d value =>
    refine ⟨h.follows, fun r' d' hd => ?_⟩
    rcases eq_or_ne r' r with rfl | hne
    · exact hw
    · refine h.allowed r' d' ?_
      have hother : put s.rideResponses r (put (s.rideResponses r) d (some value)) r' d' ≠ none := hd
      rw [put_of_ne hne] at hother
      exact hother
  | delResponses r =>
    refine ⟨h.follows, fun r' d' hd => ?_⟩
    refine h.allowed r' d' fun hnone => hd ?_
    show put s.rideResponses r (fun _ => none) r' d' = none
    rw [put_apply]
    split_ifs
    · rfl
    · exact hnone
  | _ => exact ⟨h.follows, h.allowed⟩

theorem asked_multi {ws : List Write} (h : Asked env s) (hws : ∀ w ∈ ws, w.follows env s) : Asked env (s.multi ws) := by
  induction ws generalizing s with
  | nil => exact h
  | cons w ws ih =>
    have hw : w.follows env s := hws w List.mem_cons_self
    rw [multi_cons]
    exact ih (asked_write h hw) fun v hv => hw.after (hws v (List.mem_cons_of_mem _ hv))

theorem Write.peripheral.offstage {w : Write} (h : w.peripheral) : w.offstage := by
  cases w <;> trivial

theorem cleanupWrites_offstage {c : CustomerId} {ds : List DriverId} {current : Option RideId} :
    ∀ w ∈ cleanupWrites r c ds current, w.offstage := by
  intro w hw
  simp only [cleanupWrites] at hw
  cases w <;> first | trivial | (exfalso; revert hw; split_ifs <;> simp)

theorem Write.offstage.follows {w : Write} (h : w.offstage) : w.follows env s := by
  cases w <;> trivial

theorem asked_single {i : ℕ} {c : Cmd β} (hsingle : c.single) (h : Asked env s) : Asked env (exec env i c s).2 := by
  have hkeys : SameKeys s (exec env i c s).2 := exec_sameKeys hsingle
  exact h.same hkeys.ride hkeys.responses

theorem follows_timeoutWrites {responses : DriverId → Option Response} {batchId : BatchId} {now : Time} {w : Write}
    (h : Asked env s) (hresponses : ∀ d, s.rideResponses r d = responses d)
    (hw : w ∈ timeoutWrites r ride batchId responses now) : w.follows env s := by
  simp only [timeoutWrites, List.mem_append, List.mem_map, List.mem_filter, List.mem_singleton] at hw
  rcases hw with ⟨d, ⟨-, hpending⟩, rfl⟩ | rfl
  · have hasked : responses d ≠ none := by
      intro hnone
      rw [hnone] at hpending
      cases hpending
    exact h.allowed r d (by rw [hresponses]; exact hasked)
  · intro v hv
    simp [clearBatchFields] at hv

theorem follows_batchWrites {batchId : BatchId} {batchDrivers : List DriverId} {expiresAt now : Time} {w : Write}
    (hstatus : (s.ride r).status ≠ none) (hallows : allowsPickup env (s.ride r).origin = true)
    (hw : w ∈ batchWrites r ride batchId batchDrivers expiresAt now) : w.follows env s := by
  rcases List.mem_append.mp hw with hw | hw
  · rw [List.mem_singleton.mp hw]
    intro v hv
    simp [batchFields] at hv
  · obtain ⟨d, -, hw⟩ := List.mem_flatMap.mp hw
    simp only [List.mem_cons, List.not_mem_nil, or_false] at hw
    rcases hw with rfl | rfl | rfl
    · trivial
    · exact ⟨hstatus, hallows⟩
    · trivial

theorem follows_rejectWrites {reason : Response} {exhausted : Bool} {now : Time} {w : Write} (h : Asked env s)
    (hresponse : s.rideResponses r d ≠ none) (hw : w ∈ rejectWrites r ride d reason exhausted now) : w.follows env s := by
  simp only [rejectWrites, List.mem_cons, List.not_mem_nil, or_false] at hw
  rcases hw with rfl | rfl | rfl
  · exact h.allowed r d hresponse
  · trivial
  · intro v hv
    simp [rejectFields] at hv

theorem radius_transitionFields {next : RideStatus} {options : TransitionOptions} {now : Time} :
    .searchRadiusKm radius ∉ transitionFields env ride next options now := by
  intro hv
  simp only [transitionFields, completionFields, List.mem_append] at hv
  rcases hv with ((hv | hv) | hv) | hv
  · simp at hv
  · cases hdriver : options.driverId <;> simp [hdriver] at hv
  · split_ifs at hv <;> simp at hv
  · split_ifs at hv <;> simp at hv

theorem follows_requeueWrites {now : Time} {w : Write} (hw : w ∈ [Write.delNotified r, .delResponses r,
    .hsetRide r (requeueFields env ride now), .expireRide r]) : w.follows env s := by
  simp only [List.mem_cons, List.not_mem_nil, or_false] at hw
  rcases hw with rfl | rfl | rfl | rfl
  · trivial
  · trivial
  · intro v hv
    simp only [requeueFields, List.mem_cons, List.not_mem_nil, or_false, reduceCtorEq, RideField.searchRadiusKm.injEq,
      false_or] at hv
    exact .inl hv
  · trivial

/-- A new ride, which nobody was asked about. -/
theorem asked_create {c : CustomerId} {destination : Location} {metadata : Metadata} {now : Time} {ws : List Write}
    (h : Asked env s) (hnew : (s.ride r).status = none) (hws : ∀ w ∈ ws, w.offstage) :
    Asked env (s.multi (.createRide r (requestPayload env c origin destination metadata now) :: ws)) := by
  rw [multi_cons]
  refine asked_multi ⟨fun r' => ?_, fun r' d hd => ?_⟩ fun w hw => (hws w hw).follows
  · show Follows env (put s.ride r _ r').origin (nextRadiusKm env (put s.ride r _ r'))
    rcases eq_or_ne r' r with rfl | hne
    · rw [put_self]
      exact Follows.orNumber (.inl rfl)
    · rw [put_of_ne hne]
      exact h.follows r'
  · obtain ⟨hstatus, hallows⟩ := h.allowed r' d hd
    have hne : r' ≠ r := by
      rintro rfl
      exact hstatus hnew
    show (put s.ride r _ r').status ≠ none ∧ allowsPickup env (put s.ride r _ r').origin = true
    rw [put_of_ne hne]
    exact ⟨hstatus, hallows⟩

/-- An acceptance answers for a driver that was asked. -/
theorem asked_accept {acceptedAt : Time} {reservation : Option Token} (h : Asked env s) :
    Asked env (acceptRideScript r d acceptedAt reservation s).2 := by
  rcases @acceptRideScript_cases s r d acceptedAt reservation with ⟨-, heq⟩ | ⟨-, heq, hguard⟩
  · rw [heq]
    exact h
  · obtain ⟨-, -, batchId, -, hpending, -⟩ := acceptRideGuard_eq_zero hguard
    obtain ⟨hstatus, hallows⟩ := h.allowed r d (by rw [hpending]; exact Option.some_ne_none _)
    rw [heq]
    refine ⟨fun r' => ?_, fun r' d' hd => ?_⟩
    · show Follows env (put s.ride r _ r').origin (nextRadiusKm env (put s.ride r _ r'))
      rcases eq_or_ne r' r with rfl | hne
      · rw [put_self]
        exact h.follows r'
      · rw [put_of_ne hne]
        exact h.follows r'
    · show (put s.ride r _ r').status ≠ none ∧ allowsPickup env (put s.ride r _ r').origin = true
      rcases eq_or_ne r' r with rfl | hne
      · rw [put_self]
        exact ⟨Option.some_ne_none _, hallows⟩
      · rw [put_of_ne hne]
        refine h.allowed r' d' ?_
        have hother : put s.rideResponses r (put (s.rideResponses r) d (some .accepted)) r' d' ≠ none := hd
        rw [put_of_ne hne] at hother
        exact hother

theorem asked_empty : Asked env ({} : Store) := by
  have hfirst : orNumber 0 env.dispatch.initialSearchRadiusKm = env.dispatch.initialSearchRadiusKm := if_pos rfl
  exact ⟨fun _ => .inl hfirst, fun _ _ h => absurd rfl h⟩

end YatriGo
