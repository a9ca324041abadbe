import YatriGo.Services.DriverState

/-! The ride state machine: requests, transitions, terminal cleanup and requeueing. -/

namespace YatriGo
open Concurrent

def refreshRideRealtimeKeys (rideId : RideId) : App Unit := write (.expireRide rideId)

/-- `null` for a hash without status, that is, for a missing key. -/
def toRideSnapshot (hash : RideHash) : Option RideHash :=
  if hash.status = none then none else some hash

def appendTimelineEvent (rideId : RideId) (event : TimelineEventType) (actorType : ActorType)
    (actorId : Option ℕ) (atTime : Time) : App Unit := do
  write (.rpushTimeline rideId ⟨event, actorType, actorId, atTime⟩)
  refreshRideRealtimeKeys rideId

def getRide (rideId : RideId) : App (Option RideHash) := do
  let hash ← redis (.hgetallRide rideId)
  return toRideSnapshot hash

def assertTransition (currentStatus nextStatus : RideStatus) : App Unit :=
  if nextStatus ∈ rideTransitions currentStatus then return ()
  else .throw ⟨"Invalid transition from " ++ currentStatus.toString ++ " to " ++ nextStatus.toString,
    409, "INVALID_RIDE_TRANSITION"⟩

def resolveActualDurationMinutes (ride : RideHash) (now : Time) : ℚ :=
  match ride.acceptedAt <|> ride.createdAt with
  | none => ride.estimatedDurationMin
  | some acceptedAt =>
    -- `durationMs <= 0`: the estimate stands in
    if now ≤ acceptedAt then ride.estimatedDurationMin
    else roundCurrency (((now - acceptedAt : ℕ) : ℚ) / 60000)

/-- The MULTI of `releaseDriverAvailability`, from what it read. -/
def releaseWrites (driverId : DriverId) (rideId : RideId) (driverHash : DriverHash)
    (driverActiveRide : Option RideId) (heartbeatExists : Bool) (now : Time) : List Write :=
  [.srem .busy driverId, .sremPending driverId rideId] ++
  (if driverActiveRide = some rideId then [.delDriverActiveRide driverId] else []) ++
  -- decided on what was read before the MULTI, so on a status that may be out of date
  (if driverHash.status.getD .offline = .offline ∨ heartbeatExists = false then
    [.hsetDriver driverId [.activeRideId none, .updatedAt now, .status .offline]]
  else
    [.hsetDriver driverId [.activeRideId none, .updatedAt now, .status .online],
      .sadd .online driverId, .sadd .available driverId] ++
    (match driverHash.lat, driverHash.lng with
      -- `driverHash.lat && driverHash.lng` on strings: only "" and a missing field are falsy
      | .num lat, .num lng => [.geoadd driverId ⟨lat, lng⟩]
      | _, _ => []))

def releaseDriverAvailability (driverId : Option DriverId) (rideId : RideId) (now : Time) :
    App Unit := do
  match driverId with
  | none => return ()
  | some driverId =>
    let driverHash ← redis (.hgetallDriver driverId)
    let driverActiveRide ← redis (.getDriverActiveRide driverId)
    let heartbeatExists ← redis (.existsHeartbeat driverId)
    redis (.multi (releaseWrites driverId rideId driverHash driverActiveRide heartbeatExists now))

/-- The MULTI of `cleanupTerminalRideKeys`. -/
def cleanupWrites (rideId : RideId) (customerId : CustomerId) (notifiedDrivers : List DriverId)
    (currentCustomerRide : Option RideId) : List Write :=
  [.sremActiveRide rideId] ++
  -- read outside the transaction: the pointer may name another ride by now
  (if currentCustomerRide = some rideId then [.delCustomerActiveRide customerId] else []) ++
  [.expireRide rideId] ++
  notifiedDrivers.map fun driverId => .sremPending driverId rideId

/-- The reservations of the current batch of a ride that is over. -/
def releaseBatchReservations (rideId : RideId) (ride : RideHash) : App Unit :=
  match ride.currentBatchId with
  | some batchId =>
    .forEach (fun driverId => releaseLock (.reservation driverId) (.reservation rideId batchId))
      ride.currentBatchDrivers
  | none => return ()

/-- The driver of a ride that is over. -/
def releaseRideDriver (rideId : RideId) (ride : RideHash) (now : Time) : App Unit :=
  match ride.driverId with
  | some driverId => do
    releaseDriverAvailability (some driverId) rideId now
    enqueueDriverSync driverId (.ride (ride.status.getD .completed)) none
  | none => return ()

def cleanupTerminalRideKeys (rideId : RideId) (ride : RideHash) (now : Time) : App Unit := do
  let notifiedDrivers ← redis (.smembersNotified rideId)
  let currentCustomerRide ← redis (.getCustomerActiveRide ride.customerId)
  redis (.multi (cleanupWrites rideId ride.customerId notifiedDrivers currentCustomerRide))
  releaseBatchReservations rideId ride
  releaseRideDriver rideId ride now

def updateRideHash (rideId : RideId) (fields : List RideField) : App (Option RideHash) := do
  write (.hsetRide rideId fields)
  refreshRideRealtimeKeys rideId
  getRide rideId

/-- The `payload` of `requestRide`. -/
def requestPayload (env : Env) (customerId : CustomerId) (origin destination : Location)
    (metadata : Metadata) (now : Time) : RideHash :=
  let rideType := normalizeRideType env metadata.rideType
  let tripEstimate := estimateTrip env origin destination (some rideType)
  { customerId
    status := some .requested
    origin, destination
    searchRadiusKm := env.dispatch.initialSearchRadiusKm
    rideType := some rideType
    estimatedDistanceKm := tripEstimate.estimatedDistanceKm
    estimatedDurationMin := tripEstimate.estimatedDurationMin
    estimatedEtaMinutes := tripEstimate.estimatedEtaMinutes
    estimatedFare := some (estimateFare env tripEstimate.estimatedDistanceKm
      tripEstimate.estimatedDurationMin (some rideType) 0)
    createdAt := some now
    updatedAt := some now
    metadata := { metadata with rideType := some rideType }
    version := 1 }

/-- `existingRide && !TerminalRideStatuses.has(existingRide.status)`. -/
def isActiveRide (existingRide : Option RideHash) : Bool :=
  match existingRide.bind RideHash.status with
  | some status => !status.terminal
  | none => false

def getExistingRide (activeRideId : Option RideId) : App (Option RideHash) :=
  match activeRideId with
  | some rideId => getRide rideId
  | none => return none

/-- The part of `requestRide` after the check for an active ride. -/
def createRide (env : Env) (customerId : CustomerId) (origin destination : Location)
    (metadata : Metadata) : App RideHash := do
  let now ← redis .now
  let rideId ← redis .uuidv4
  let ride := requestPayload env customerId origin destination metadata now
  redis (.multi [.createRide rideId ride, .setCustomerActiveRide customerId rideId,
    .saddActiveRide rideId, .expireRide rideId])
  appendTimelineEvent rideId (.ride .requested) .customer (some customerId) now
  refreshRideRealtimeKeys rideId
  enqueueRideSync rideId ride.version
  notifyRideRequested rideId ride
  enqueueDispatchStart rideId ride.version 0 .requested
  return ride

/-- The lock section of `requestRide`. -/
def requestUnderLock (env : Env) (customerId : CustomerId) (origin destination : Location)
    (metadata : Metadata) : App RideHash := do
  let activeRideId ← redis (.getCustomerActiveRide customerId)
  let existingRide ← getExistingRide activeRideId
  -- a pointer to a finished or a vanished ride does not hinder a new request
  if isActiveRide existingRide then
    .throw ⟨"Customer already has an active ride", 409, "ACTIVE_RIDE_EXISTS"⟩
  else createRide env customerId origin destination metadata

def requestRide (env : Env) (customerId : CustomerId) (origin destination : Location)
    (metadata : Metadata) : App RideHash := do
  let result ← withLock (.customer customerId) env.lockTtlMs
    (requestUnderLock env customerId origin destination metadata)
  match result with
  -- `withLock` answers `null` for a busy lock, and the source tests for that
  | none => .throw ⟨"Customer lock is busy, retry", 409, "CUSTOMER_LOCKED"⟩
  | some ride => return ride

structure TransitionOptions where
  driverId : Option (Option DriverId) := none
  actorType : Option ActorType := none
  actorId : Option ℕ := none
  reason : String := ""
  actualDistanceKm : Option ℚ := none
  actualDurationMin : Option ℚ := none
  waitingMin : Option ℚ := none

/-- `value || fallback` on numbers. -/
def orNumber (value fallback : ℚ) : ℚ := if value = 0 then fallback else value

def calculateFinalFare (env : Env) (ride : RideHash) (actualDistanceKm actualDurationMin waitingMin : ℚ) :
    Fare :=
  let rideType := match ride.rideType with
    | some t => if t = "" then ride.metadata.rideType else some t
    | none => ride.metadata.rideType
  estimateFare env actualDistanceKm actualDurationMin rideType waitingMin

/-- The fields a completion adds to the update. -/
def completionFields (env : Env) (ride : RideHash) (options : TransitionOptions) (now : Time) :
    List RideField :=
  let actualDistanceKm :=
    -- 0 is falsy, so a distance of 0 is replaced by the estimate
    orNumber (options.actualDistanceKm.getD ride.actualDistanceKm) ride.estimatedDistanceKm
  let actualDurationMin :=
    orNumber (options.actualDurationMin.getD ride.actualDurationMin)
      (resolveActualDurationMinutes ride now)
  let finalFare :=
    calculateFinalFare env ride actualDistanceKm actualDurationMin (options.waitingMin.getD 0)
  [.actualDistanceKm actualDistanceKm, .actualDurationMin actualDurationMin, .finalFare finalFare,
    .billing ⟨finalFare.currency, finalFare.totalFare, finalFare.baseFare, finalFare.distanceCharge,
      finalFare.durationCharge, finalFare.waitingCharge⟩,
    .commissionAmount finalFare.commissionAmount, .driverEarning finalFare.driverEarning]

/-- The `update` of `transitionRide`. -/
def transitionFields (env : Env) (ride : RideHash) (nextStatus : RideStatus)
    (options : TransitionOptions) (now : Time) : List RideField :=
  [.status nextStatus, .updatedAt now, .version (ride.version + 1)] ++
  -- `options.driverId !== undefined`; a `null` clears the field
  (match options.driverId with
    | some driverId => [.driverId driverId]
    | none => []) ++
  (if nextStatus = .cancelled then
    [.cancellation ⟨options.actorType.getD .system, options.actorId, options.reason, now⟩]
  else []) ++
  (if nextStatus = .completed then completionFields env ride options now else [])

def rideLocked : AppError := ⟨"Ride is busy, retry", 409, "RIDE_LOCKED"⟩

def rideNotFound : AppError := ⟨"Ride not found", 404, "RIDE_NOT_FOUND"⟩

/-- The end of `transitionRide`, from the snapshot after the update on. -/
def finishTransition (rideId : RideId) (nextStatus : RideStatus) (snapshot : RideHash)
    (notifiedDrivers : List DriverId) (now : Time) : App (Option RideHash) := do
  if nextStatus.terminal then cleanupTerminalRideKeys rideId snapshot now else pure ()
  enqueueRideSync rideId snapshot.version
  notifyRideStatusUpdate rideId snapshot
  emitRideStatusUpdate rideId snapshot
  if nextStatus = .cancelled then
    .forEach (fun driverId => emitRideCancelledToDriver driverId rideId snapshot.version)
      -- a `Set` in the source: a driver that was notified and assigned is told once
      (notifiedDrivers ++ snapshot.driverId.toList.filter (· ∉ notifiedDrivers))
  else pure ()
  return some snapshot

/-- The drivers that are told of a cancellation. -/
def readNotifiedDrivers (rideId : RideId) (nextStatus : RideStatus) : App (List DriverId) :=
  if nextStatus = .cancelled then redis (.smembersNotified rideId) else return []

/-- What `transitionRide` does after the update, in the order of the source. -/
def afterTransition (rideId : RideId) (nextStatus : RideStatus) (options : TransitionOptions)
    (now : Time) : App (Option RideHash) := do
  refreshRideRealtimeKeys rideId
  appendTimelineEvent rideId (.ride nextStatus) (options.actorType.getD .system) options.actorId now
  let snapshot ← getRide rideId
  let notifiedDrivers ← readNotifiedDrivers rideId nextStatus
  match snapshot with
  -- `snapshot.version` of `null`
  | none => .throw .typeError
  | some snapshot => finishTransition rideId nextStatus snapshot notifiedDrivers now

def transitionUnderLock (env : Env) (rideId : RideId) (nextStatus : RideStatus)
    (options : TransitionOptions) : App (Option RideHash) := do
  match ← getRide rideId with
  | none => .throw rideNotFound
  | some ride =>
    -- a repeated transition answers with the ride and changes nothing
    if ride.status = some nextStatus then getRide rideId
    else
      assertTransition (ride.status.getD .requested) nextStatus
      let now ← redis .now
      write (.hsetRide rideId (transitionFields env ride nextStatus options now))
      afterTransition rideId nextStatus options now

def transitionRide (env : Env) (rideId : RideId) (nextStatus : RideStatus)
    (options : TransitionOptions) : App RideHash := do
  let result ← withLock (.ride rideId) env.lockTtlMs
    (transitionUnderLock env rideId nextStatus options)
  match result.join with
  -- a busy lock and an empty result look alike here
  | none => .throw rideLocked
  | some ride => return ride

def cancelRide (env : Env) (rideId : RideId) (actorType : ActorType) (actorId : Option ℕ)
    (reason : String) : App RideHash := do
  match ← getRide rideId with
  | none => .throw rideNotFound
  | some ride =>
    -- read without the lock; the transition under the lock checks again
    if (ride.status.map RideStatus.terminal).getD false then return ride
    else transitionRide env rideId .cancelled { actorType := some actorType, actorId, reason }

/-- `markDriverArriving`, `startRide` and `completeRide` differ in the status they set. -/
def transitionByDriver (env : Env) (nextStatus : RideStatus) (rideId : RideId)
    (driverId : DriverId) : App RideHash := do
  let ride ← getRide rideId
  -- checked before the lock is taken, and not again under it
  if ride.bind RideHash.driverId = some driverId then
    transitionRide env rideId nextStatus { actorType := some .driver, actorId := some driverId }
  else .throw ⟨"Driver is not assigned to this ride", 409, "RIDE_DRIVER_MISMATCH"⟩

def markDriverArriving (env : Env) (rideId : RideId) (driverId : DriverId) : App RideHash :=
  transitionByDriver env .arriving rideId driverId

def startRide (env : Env) (rideId : RideId) (driverId : DriverId) : App RideHash :=
  transitionByDriver env .ongoing rideId driverId

def completeRide (env : Env) (rideId : RideId) (driverId : DriverId) : App RideHash :=
  transitionByDriver env .completed rideId driverId

/-- The HSET of `requeueRideAfterDriverLoss`. -/
def requeueFields (env : Env) (ride : RideHash) (now : Time) : List RideField :=
  [.status .dispatching, .driverId none, .acceptedAt none, .dispatchRound 0,
    .searchRadiusKm env.dispatch.initialSearchRadiusKm, .currentBatchId none,
    .currentBatchDrivers [], .currentBatchExpiresAt none, .updatedAt now,
    .version (ride.version + 1)]

/-- The part of `requeueRideAfterDriverLoss` after its guards. -/
def requeueRide (env : Env) (rideId : RideId) (driverId : DriverId) (ride : RideHash) :
    App (Option RideHash) := do
  let now ← redis .now
  releaseDriverAvailability (some driverId) rideId now
  redis (.multi [.delNotified rideId, .delResponses rideId,
    .hsetRide rideId (requeueFields env ride now), .expireRide rideId])
  appendTimelineEvent rideId .rideRequeued .system (some driverId) now
  match ← getRide rideId with
  | none => .throw .typeError
  | some updated =>
    enqueueRideSync rideId updated.version
    notifyRideStatusUpdate rideId updated
    enqueueDispatchStart rideId updated.version env.dispatch.retryDelayMs .requeue
    return some updated

/-- The lock section of `requeueRideAfterDriverLoss`. -/
def requeueUnderLock (env : Env) (rideId : RideId) (driverId : DriverId) : App (Option RideHash) := do
  match ← getRide rideId with
  | none => return none
  | some ride =>
    -- an ongoing ride is not taken from its driver
    if ride.status ≠ some .accepted ∧ ride.status ≠ some .arriving then return some ride
    else if ride.driverId ≠ some driverId then return some ride
    else requeueRide env rideId driverId ride

def requeueRideAfterDriverLoss (env : Env) (rideId : RideId) (driverId : DriverId) : App RideHash := do
  let result ← withLock (.ride rideId) env.lockTtlMs (requeueUnderLock env rideId driverId)
  match result.join with
  | none => .throw rideLocked
  | some ride => return ride

end YatriGo
