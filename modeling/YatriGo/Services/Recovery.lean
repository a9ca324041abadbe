import YatriGo.Services.Dispatch

/-! Recovery: drivers that disappeared, and rides whose dispatch was lost. -/

namespace YatriGo
open Concurrent

def handleDriverDrop (env : Env) (driverId : DriverId) (activeRideId : Option RideId)
    (pendingRideIds : List RideId) (reason : Response) : App Unit := do
  -- a rejection that throws ends the loop: the rides after it are not told
  .forEach (fun rideId => do
    let _ ← markDriverUnavailableDuringDispatch env rideId driverId reason
    return ()) pendingRideIds
  match activeRideId with
  | none => return ()
  | some activeRideId =>
    match ← getRide activeRideId with
    | none => return ()
    | some ride =>
      -- an accepted or arriving ride is protected too, and nobody is told
      if ride.status = some .ongoing ∧ ride.driverId = some driverId then
        let now ← redis .now
        emitDriverConnectionLost ride.customerId activeRideId driverId now
      else return ()

/-- The socket handler of `go_offline`. -/
def goOfflineAndDrop (env : Env) (driverId : DriverId) (reason : Response) : App Unit := do
  let impact ← goOffline env driverId
  handleDriverDrop env impact.driverId impact.activeRideId impact.pendingRideIds reason

def scanStaleDriversAndRecover (env : Env) : App Unit := do
  let staleDrivers ← scanStaleDrivers env
  .forEach (fun staleDriver =>
    handleDriverDrop env staleDriver.driverId staleDriver.activeRideId staleDriver.pendingRideIds
      (.text "HEARTBEAT_TIMEOUT")) staleDrivers

/-- One turn of the loop of `recoverDispatchingRides`; `now` is read once, before it. -/
def recoverRide (now : Time) (rideId : RideId) : App Unit := do
  match ← getRide rideId with
  -- a ghost: the hash is gone, the id is still in the active set
  | none => write (.sremActiveRide rideId)
  | some ride =>
    if ride.status ≠ some .dispatching then return ()
    else
      match ride.currentBatchId with
      -- a known job id adds nothing, also when that job is completed
      | none => enqueueDispatchStart rideId ride.version 0 .recoveryNoBatch
      | some batchId =>
        -- a batch without an expiry is left alone here
        if ∃ e ∈ ride.currentBatchExpiresAt, e ≤ now then enqueueBatchTimeout rideId batchId 0
        else return ()

def recoverDispatchingRides : App Unit := do
  let rideIds ← redis .smembersActiveRides
  let now ← redis .now
  .forEach (recoverRide now) rideIds

end YatriGo
