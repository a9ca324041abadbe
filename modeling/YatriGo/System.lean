import YatriGo.Concurrent.RelyGuarantee
import YatriGo.Workers.Workers

/-! The running system: any number of operations interleaved command by command, with
time passing, keys expiring and jobs redelivered in between. -/

namespace YatriGo
open Concurrent

/-- The calls clients, workers and timers make. -/
inductive Op
  | requestRide (customerId : CustomerId) (origin destination : Location) (metadata : Metadata)
  | startDispatch (rideId : RideId)
  | handleBatchTimeout (rideId : RideId) (batchId : BatchId)
  | handleDriverRejection (rideId : RideId) (driverId : DriverId) (reason : Response)
  | acceptRide (rideId : RideId) (driverId : DriverId)
  | markDriverArriving (rideId : RideId) (driverId : DriverId)
  | startRide (rideId : RideId) (driverId : DriverId)
  | completeRide (rideId : RideId) (driverId : DriverId)
  | cancelRide (rideId : RideId) (actorType : ActorType) (actorId : Option ℕ) (reason : String)
  | requeueRideAfterDriverLoss (rideId : RideId) (driverId : DriverId)
  | goOnline (driverId : DriverId) (lat lng : Option ℚ) (socketId : Option SocketId)
  | heartbeat (driverId : DriverId) (lat lng : Option ℚ) (socketId : Option SocketId)
  | goOffline (driverId : DriverId)
  | goOfflineAndDrop (driverId : DriverId) (reason : Response)
  | restoreDriverSession (driverId : DriverId) (socketId : Option SocketId)
  | scanStaleDriversAndRecover
  | recoverDispatchingRides
  | work (job : JobId)

def discard {α : Type} (p : App α) : App Unit := do
  let _ ← p
  return ()

def code (env : Env) : Op → App Unit
  | .requestRide c origin destination metadata => discard (requestRide env c origin destination metadata)
  | .startDispatch r => discard (startDispatch env r)
  | .handleBatchTimeout r b => discard (handleBatchTimeout env r b)
  | .handleDriverRejection r d reason => discard (handleDriverRejection env r d reason)
  | .acceptRide r d => discard (acceptRide r d)
  | .markDriverArriving r d => discard (markDriverArriving env r d)
  | .startRide r d => discard (startRide env r d)
  | .completeRide r d => discard (completeRide env r d)
  | .cancelRide r actorType actorId reason => discard (cancelRide env r actorType actorId reason)
  | .requeueRideAfterDriverLoss r d => discard (requeueRideAfterDriverLoss env r d)
  | .goOnline d lat lng socketId => discard (goOnline env d lat lng socketId)
  | .heartbeat d lat lng socketId => discard (heartbeat env d lat lng socketId)
  | .goOffline d => discard (goOffline env d)
  | .goOfflineAndDrop d reason => goOfflineAndDrop env d reason
  | .restoreDriverSession d socketId => discard (restoreDriverSession env d socketId)
  | .scanStaleDriversAndRecover => scanStaleDriversAndRecover env
  | .recoverDispatchingRides => recoverDispatchingRides
  | .work job => work env job

/-- What happens to the store with no operation involved. -/
inductive Event
  | tick (ms : ℕ)
  | expireHeartbeat (driverId : DriverId)
  | expireCooldown (driverId : DriverId)
  | expireLease (key : LockKey)
  | redeliver (job : JobId)
  | forget (job : JobId)

/-- A key can only expire once its time is over; only an active job is redelivered, and
only a finished one is forgotten. -/
def Event.apply (s : Store) : Event → Option Store
  | .tick ms => some { s with clock := s.clock + ms }
  | .expireHeartbeat d =>
    match s.driverHeartbeat d with
    | some t => if t ≤ s.clock then some { s with driverHeartbeat := put s.driverHeartbeat d none } else none
    | none => none
  | .expireCooldown d =>
    match s.rejectCooldown d with
    | some t => if t ≤ s.clock then some { s with rejectCooldown := put s.rejectCooldown d none } else none
    | none => none
  | .expireLease key =>
    match s.locks key with
    | some lease =>
      if lease.expiresAt ≤ s.clock then some { s with locks := put s.locks key none } else none
    | none => none
  | .redeliver job =>
    match s.jobs job with
    | some (.active attemptsMade) =>
      some { s with jobs := put s.jobs job (some (.waiting s.clock attemptsMade)) }
    | _ => none
  | .forget job =>
    match s.jobs job with
    | some .completed => some { s with jobs := put s.jobs job none }
    | some .failed => some { s with jobs := put s.jobs job none }
    | _ => none

def system (env : Env) : System Cmd AppError Store Op Event where
  exec := exec env
  code := code env
  env := fun e s => e.apply s

abbrev State := Pool Cmd AppError Store Op

abbrev Step := Action Op Event

/-- The empty store, nothing running. -/
def initial : State := ⟨{}, []⟩

/-- The default configuration in a town where all distances are 1 km. -/
def townEnv : Env := .defaults (fun _ _ => 1) fun _ _ => 1

/-- The next `n` commands of thread `i`. -/
def run (i n : ℕ) : List Step := List.replicate n (.step i)

/-- Driver 1 goes online, customer 7 requests a ride, and the ride is offered to driver 1. -/
def offered : List Step :=
  .call (.goOnline 1 (some 0) (some 0) none) :: run 0 11 ++
  .call (.requestRide 7 ⟨0, 0⟩ ⟨0, 0⟩ ⟨none, []⟩) :: run 1 14 ++
  .call (.startDispatch ⟨1, 2⟩) :: run 2 31

/-- No lock expires in this step. -/
def lasting : State → Step → Bool
  | _, .env (.expireLease _) => false
  | _, _ => true

end YatriGo
