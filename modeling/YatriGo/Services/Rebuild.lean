import YatriGo.Concurrent.Solo
import YatriGo.Workers.Workers

/-! `rebuildRedisStateFromMongo` of the recovery service. -/

namespace YatriGo
open Concurrent

inductive RebuildCmd : Type → Type
  | findRides : RebuildCmd (List (RideId × RideDoc))
  | findDrivers : RebuildCmd (List (DriverId × DriverDoc))
  | existsRide (rideId : RideId) : RebuildCmd Bool
  | getDriverActiveRide (driverId : DriverId) : RebuildCmd (Option RideId)
  | now : RebuildCmd Time
  | multi (writes : List Write) : RebuildCmd Unit

abbrev RebuildApp := Prog RebuildCmd AppError

/-- The hash that is written for a ride, field by field from its document. -/
def rebuiltRideHash (env : Env) (ride : RideDoc) : RideHash where
  customerId := ride.fields.customerId
  driverId := ride.fields.driverId
  status := ride.fields.status
  origin := ride.fields.origin
  destination := ride.fields.destination
  rideType := some (ride.fields.rideType.getD "STANDARD")
  estimatedDistanceKm := ride.fields.estimatedDistanceKm
  estimatedDurationMin := ride.fields.estimatedDurationMin
  estimatedEtaMinutes := ride.fields.estimatedEtaMinutes
  estimatedFare := ride.fields.estimatedFare
  actualDistanceKm := ride.fields.actualDistanceKm
  actualDurationMin := ride.fields.actualDurationMin
  finalFare := ride.fields.finalFare
  billing := ride.fields.billing
  commissionAmount := ride.fields.commissionAmount
  driverEarning := ride.fields.driverEarning
  dispatchRound := ride.fields.dispatchRound
  searchRadiusKm := orNumber ride.fields.searchRadiusKm env.dispatch.initialSearchRadiusKm
  currentBatchId := ride.fields.currentBatchId
  currentBatchDrivers := ride.fields.currentBatchDrivers
  currentBatchExpiresAt := ride.fields.currentBatchExpiresAt
  acceptedAt := none
  cancellation := ride.fields.cancellation
  createdAt := some ride.createdAt
  updatedAt := some ride.updatedAt
  metadata := ride.fields.metadata
  version := 1

/-- What the MULTI of a ride writes for its driver. -/
def rebuiltRideDriver (rideId : RideId) (now : Time) : Option DriverId → List Write
  | some driverId =>
    [.setDriverActiveRide driverId rideId,
      .hsetDriver driverId [.status .busy, .activeRideId (some rideId), .updatedAt now],
      .sadd .busy driverId]
  | none => []

def rebuildRideWrites (env : Env) (rideId : RideId) (ride : RideDoc) (now : Time) : List Write :=
  [.createRide rideId (rebuiltRideHash env ride), .setCustomerActiveRide ride.fields.customerId rideId,
    .saddActiveRide rideId] ++
  ride.notifiedDrivers.map (.saddNotified rideId) ++
  rebuiltRideDriver rideId now ride.fields.driverId ++
  ride.timeline.map (.rpushTimeline rideId)

/-- One turn of the loop over the rides. -/
def rebuildRide (env : Env) (ride : RideId × RideDoc) : RebuildApp Unit := do
  let rideExists ← .perform (.existsRide ride.1)
  if rideExists then return ()
  else
    let now ← .perform .now
    .perform (.multi (rebuildRideWrites env ride.1 ride.2 now))

def rebuiltDriverFields (driver : DriverDoc) (now : Time) : List DriverField :=
  [.status driver.status, .activeRideId driver.activeRideId, .lat (.ofNumber driver.lat),
    .lng (.ofNumber driver.lng), .updatedAt now]

/-- The pools of a driver. `drivers:busy` is a set, so its ZREM fails inside the transaction
and removes nothing. -/
def rebuiltDriverPools (driverId : DriverId) (driver : DriverDoc) : List Write :=
  match driver.lat, driver.lng with
  -- `lat && lng` on strings: "0" is truthy
  | some lat, some lng =>
    if driver.status = .online ∧ driver.activeRideId = none then
      [.sadd .online driverId, .sadd .available driverId, .geoadd driverId ⟨lat, lng⟩]
    else busy
  | _, _ => busy
where
  busy : List Write :=
    if driver.status = .busy ∨ driver.activeRideId ≠ none then
      [.sadd .online driverId, .sadd .busy driverId, .srem .available driverId, .zremGeo driverId]
    else []

def rebuildDriverWrites (driverId : DriverId) (driver : DriverDoc) (now : Time) : List Write :=
  .hsetDriver driverId (rebuiltDriverFields driver now) :: rebuiltDriverPools driverId driver

/-- One turn of the loop over the drivers. -/
def rebuildDriver (driver : DriverId × DriverDoc) : RebuildApp Unit := do
  let activeRideId ← .perform (.getDriverActiveRide driver.1)
  -- only the pointer is tested: the hash of a live driver without a ride is written over
  if activeRideId ≠ none then return ()
  else
    let now ← .perform .now
    .perform (.multi (rebuildDriverWrites driver.1 driver.2 now))

def rebuildRedisStateFromMongo (env : Env) : RebuildApp Unit := do
  let activeRides ← .perform .findRides
  .forEach (rebuildRide env) activeRides
  let drivers ← .perform .findDrivers
  .forEach rebuildDriver drivers

/-- `status: { $nin: Array.from(TerminalRideStatuses) }`. -/
def storedRides (s : Store) : List (RideId × RideDoc) :=
  (s.rideDocIds.filterMap fun rideId => (s.rideDocs rideId).map (rideId, ·)).filter fun ride =>
    ride.2.fields.status ≠ some .completed ∧ ride.2.fields.status ≠ some .cancelled

/-- `status: { $ne: DriverStatus.OFFLINE }`. -/
def storedDrivers (s : Store) : List (DriverId × DriverDoc) :=
  (s.driverDocIds.filterMap fun driverId => (s.driverDocs driverId).map (driverId, ·)).filter fun driver =>
    driver.2.status ≠ .offline

def rebuildExec : ⦃β : Type⦄ → RebuildCmd β → Store → β × Store
  | _, .findRides, s => (storedRides s, s)
  | _, .findDrivers, s => (storedDrivers s, s)
  | _, .existsRide rideId, s => ((s.ride rideId).status.isSome, s)
  | _, .getDriverActiveRide driverId, s => (s.driverActiveRide driverId, s)
  | _, .now, s => (s.clock, s)
  | _, .multi writes, s => ((), s.multi writes)

/-- The store after a run of the rebuild that nothing interrupts. -/
def rebuilt (env : Env) (s : Store) : Store :=
  ((rebuildRedisStateFromMongo env).finish rebuildExec s).2

end YatriGo
