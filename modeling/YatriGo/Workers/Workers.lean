import YatriGo.Services.Recovery

/-! The queue workers: dispatch jobs and the jobs that copy Redis state to Mongo. -/

namespace YatriGo
open Concurrent

/-- The fields of the snapshot that `syncRide` sets in the document. -/
def rideDocFields (ride : RideHash) : RideHash :=
  { ride with acceptedAt := none, createdAt := none, updatedAt := none, version := 0 }

def syncRide (rideId : RideId) : App Unit := do
  match ← getRide rideId with
  | none => return ()
  | some ride =>
    let timeline ← redis (.lrangeTimeline rideId)
    let notifiedDrivers ← redis (.smembersNotified rideId)
    -- the version that was read is not compared with that of the document
    redis (.upsertRideDoc rideId (rideDocFields ride) notifiedDrivers timeline)

def syncDriver (driverId : DriverId) : App Unit := do
  match ← getDriverState driverId with
  | none => return ()
  | some driverState =>
    redis (.upsertDriverDoc driverId
      ⟨driverState.status, driverState.activeRideId, driverState.lat, driverState.lng⟩)

/-- The handler of a job; a start-dispatch job swallows the error. -/
def handleJob (env : Env) : JobId → App Unit
  | .dispatchStart rideId _ _ =>
    -- so the job completes and is not tried again, whatever went wrong
    (do let _ ← startDispatch env rideId; return ()).tryCatch fun _ => return ()
  | .dispatchTimeout rideId batchId => do
    let _ ← handleBatchTimeout env rideId batchId
    return ()
  | .persistRide rideId _ => syncRide rideId
  | .persistDriver driverId _ _ => syncDriver driverId

/-- A worker: take the job, run its handler, record how it ended. -/
def work (env : Env) (job : JobId) : App Unit := do
  let taken ← redis (.takeJob job)
  if taken then
    let succeeded ← (do handleJob env job; return true).tryCatch fun _ => return false
    redis (.finishJob job succeeded)
  else return ()

end YatriGo
