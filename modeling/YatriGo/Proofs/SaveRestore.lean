import YatriGo.Proofs.FirstVersion
import YatriGo.Proofs.RebuildFrame

/-! A ride that is saved by a sync and restored by a rebuild. -/

namespace YatriGo
open Concurrent

/-- The fields of a snapshot that later operations depend on, but for the version. -/
structure RideFields where
  status : Option RideStatus
  driverId : Option DriverId
  origin : Location
  destination : Location
  rideType : Option String
  estimatedDistanceKm : ℚ
  estimatedDurationMin : ℚ
  estimatedEtaMinutes : ℚ
  estimatedFare : Option Fare
  dispatchRound : ℕ
  searchRadiusKm : ℚ
  currentBatchId : Option BatchId
  currentBatchDrivers : List DriverId
  currentBatchExpiresAt : Option Time
  acceptedAt : Option Time
  metadata : Metadata

def RideHash.rideFields (h : RideHash) : RideFields where
  status := h.status
  driverId := h.driverId
  origin := h.origin
  destination := h.destination
  rideType := h.rideType
  estimatedDistanceKm := h.estimatedDistanceKm
  estimatedDurationMin := h.estimatedDurationMin
  estimatedEtaMinutes := h.estimatedEtaMinutes
  estimatedFare := h.estimatedFare
  dispatchRound := h.dispatchRound
  searchRadiusKm := h.searchRadiusKm
  currentBatchId := h.currentBatchId
  currentBatchDrivers := h.currentBatchDrivers
  currentBatchExpiresAt := h.currentBatchExpiresAt
  acceptedAt := h.acceptedAt
  metadata := h.metadata

/-- The final fare of the ride, if it is completed at `now`. -/
def RideHash.fareAt (env : Env) (h : RideHash) (now : Time) : Option Fare :=
  (h.hset (completionFields env h {} now)).finalFare

/-- The snapshot `after` can stand for the snapshot `before`. -/
structure Restores (env : Env) (before after : RideHash) : Prop where
  fields : after.rideFields = before.rideFields
  version : before.version ≤ after.version
  fare : before.status = some .ongoing → ∀ now, after.fareAt env now = before.fareAt env now

/-- Mongo has the current state of ride `r`, which goes on. -/
def Saved (s : Store) (r : RideId) : Prop :=
  ∃ doc, (r, doc) ∈ storedRides s ∧ doc.fields = rideDocFields (s.ride r)

/-- The keys of ride `r` are lost, perhaps with others. Mongo is as it was. -/
structure LosesRide (r : RideId) (s t : Store) : Prop where
  ride : t.ride r = {}
  rideDocs : t.rideDocs = s.rideDocs
  rideDocIds : t.rideDocIds = s.rideDocIds

/-- A rebuild in `t` gives back the ride as it was in `s`. -/
def GivesBack (env : Env) (s t : Store) (r : RideId) : Prop :=
  ∃ after, toRideSnapshot ((rebuilt env t).ride r) = some after ∧ Restores env (s.ride r) after

variable {env : Env} {s t : Store} {r : RideId}

/-- The rebuild restores the ride from its document. -/
theorem rebuilt_ride (hsaved : Saved s r) (hlost : LosesRide r s t) (hexist : (s.ride r).status ≠ none) :
    ∃ doc : RideDoc, doc.fields = rideDocFields (s.ride r) ∧
      toRideSnapshot ((rebuilt env t).ride r) = some (rebuiltRideHash env doc) := by
  obtain ⟨doc, hdoc, hfields⟩ := hsaved
  obtain ⟨u, hrides, hdrivers⟩ := @rebuilt_turns env t
  have hstored : storedRides t = storedRides s := by
    unfold storedRides
    rw [hlost.rideDocs, hlost.rideDocIds]
  have hmissing : Lost t (r, doc) := by
    refine ⟨hstored ▸ hdoc, ?_⟩
    show (t.ride r).status = none
    rw [hlost.ride]
  have hride : (rebuilt env t).ride r = rebuiltRideHash env doc :=
    (Rebuilding.mk hrides hdrivers).lost_ride hmissing
  refine ⟨doc, hfields, ?_⟩
  have hstatus : (rebuiltRideHash env doc).status ≠ none := by
    show doc.fields.status ≠ none
    rw [hfields]
    exact hexist
  rw [hride, toRideSnapshot, if_neg hstatus]

theorem requested_restored {c : CustomerId} {origin destination : Location} {metadata : Metadata} {now : Time}
    {doc : RideDoc} (hfields : doc.fields = rideDocFields (requestPayload env c origin destination metadata now)) :
    Restores env (requestPayload env c origin destination metadata now) (rebuiltRideHash env doc) where
  fields := by
    have hradius : orNumber env.dispatch.initialSearchRadiusKm env.dispatch.initialSearchRadiusKm =
        env.dispatch.initialSearchRadiusKm := ite_self _
    unfold RideHash.rideFields rebuiltRideHash
    rw [hfields]
    simp only [rideDocFields, requestPayload, Option.getD_some, hradius]
  version := le_rfl
  fare := fun hongoing => by cases hongoing

/-- The store without ride `r`. -/
def loseRide (r : RideId) (s : Store) : Store :=
  { s with
    ride := put s.ride r {}
    rideTimeline := put s.rideTimeline r []
    rideNotifiedDrivers := put s.rideNotifiedDrivers r []
    rideResponses := put s.rideResponses r fun _ => none }

theorem losesRide_loseRide : LosesRide r s (loseRide r s) where
  ride := put_self
  rideDocs := rfl
  rideDocIds := rfl

instance : Decidable (Saved s r) :=
  decidable_of_iff (∃ x ∈ storedRides s, x.1 = r ∧ x.2.fields = rideDocFields (s.ride r))
    ⟨fun ⟨x, hx, hid, hfields⟩ => ⟨x.2, hid ▸ hx, hfields⟩, fun ⟨_, hdoc, hfields⟩ => ⟨_, hdoc, rfl, hfields⟩⟩

/-- A ride is requested and synced. -/
def requestedAndSynced : List Step :=
  .call (.requestRide 7 ⟨0, 0⟩ ⟨0, 0⟩ ⟨none, []⟩) :: run 0 14 ++ .call (.work (.persistRide ⟨0, 1⟩ 1)) :: run 1 6

/-- A ride is synced when it is requested, and again when it starts. It is accepted ten minutes
after the request. -/
def startedAndSynced : List Step :=
  .call (.goOnline 1 (some 0) (some 0) none) :: run 0 11 ++
  .call (.requestRide 7 ⟨0, 0⟩ ⟨0, 0⟩ ⟨none, []⟩) :: run 1 14 ++
  .call (.work (.persistRide ⟨1, 2⟩ 1)) :: run 2 6 ++ [.env (.tick 600000)] ++
  .call (.startDispatch ⟨1, 2⟩) :: run 3 31 ++
  .call (.acceptRide ⟨1, 2⟩ 1) :: run 4 19 ++
  .call (.markDriverArriving ⟨1, 2⟩ 1) :: run 5 18 ++
  .call (.startRide ⟨1, 2⟩ 1) :: run 6 18 ++
  .call (.work (.persistRide ⟨1, 2⟩ 6)) :: run 7 6

end YatriGo
