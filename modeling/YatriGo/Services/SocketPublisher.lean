import YatriGo.Utils.Lock

/-! Messages to the socket rooms. Each is published once per dedupe key. -/

namespace YatriGo
open Concurrent

def publish (room : Room) (key : PublishKey) : App Unit := do
  let allowed ← markIdempotent key
  if allowed then redis (.publish ⟨room, key⟩) else return ()

def emitRideRequested (rideId : RideId) (ride : RideHash) : App Unit :=
  publish (.customer ride.customerId) (.rideRequested rideId ride.version)

def emitRideStatusUpdate (rideId : RideId) (ride : RideHash) : App Unit := do
  publish (.customer ride.customerId) (.rideStatus rideId ride.version)
  match ride.driverId with
  | some driverId => publish (.driver driverId) (.rideStatusDriver rideId ride.version)
  | none => return ()

def emitDriverStateUpdate (driverId : DriverId) (updatedAt : Time) : App Unit :=
  publish (.driver driverId) (.driverState driverId updatedAt)

def emitDriverAssigned (rideId : RideId) (ride : RideHash) : App Unit :=
  publish (.customer ride.customerId) (.driverAssigned rideId ride.version)

def emitNewRideRequest (driverId : DriverId) (rideId : RideId) (batchId : BatchId) : App Unit :=
  publish (.driver driverId) (.newRideRequest rideId batchId driverId)

def emitRideAssignedToDriver (driverId : DriverId) (rideId : RideId) (ride : RideHash) : App Unit :=
  publish (.driver driverId) (.rideAssigned rideId ride.version driverId)

def emitRideCancelledToDriver (driverId : DriverId) (rideId : RideId) (version : ℕ) : App Unit :=
  publish (.driver driverId) (.rideCancelled rideId version driverId)

def emitDriverConnectionLost (customerId : CustomerId) (rideId : RideId) (driverId : DriverId)
    (atTime : Time) : App Unit :=
  publish (.customer customerId) (.driverConnectionLost rideId driverId atTime)

/-- `notifyRideStatusUpdate` publishes the customer's view of the ride under the same keys. -/
def notifyRideStatusUpdate (rideId : RideId) (ride : RideHash) : App Unit :=
  emitRideStatusUpdate rideId ride

def notifyRideRequested (rideId : RideId) (ride : RideHash) : App Unit :=
  emitRideRequested rideId ride

def notifyDriverAssigned (rideId : RideId) (ride : RideHash) : App Unit :=
  emitDriverAssigned rideId ride

end YatriGo
