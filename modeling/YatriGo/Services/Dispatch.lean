import YatriGo.Services.RideState

/-! Dispatch: batches of offers, timeouts, rejections, and acceptance. -/

namespace YatriGo
open Concurrent

/-- `value === "PENDING:" + batchId`; a missing batch id prints as `null`. -/
def isPendingResponse (value : Option Response) (batchId : Option BatchId) : Bool :=
  match batchId with
  | some batchId => value = some (.pending batchId)
  | none => value = some (.text "PENDING:null")

def releaseDriverReservations (rideId : RideId) (batchId : Option BatchId)
    (driverIds : List DriverId) : App Unit :=
  match batchId with
  | none => return ()
  | some batchId =>
    .forEach (fun driverId => releaseLock (.reservation driverId) (.reservation rideId batchId))
      driverIds

def clearPendingMembership (rideId : RideId) (driverIds : List DriverId) : App Unit :=
  if driverIds = [] then return ()
  else redis (.multi (driverIds.map fun driverId => .sremPending driverId rideId))

/-- The loop of `reserveDriversForBatch`; `reserved` is the batch so far. -/
def reserveLoop (env : Env) (rideId : RideId) (batchId : BatchId) :
    List DriverId → List DriverId → App (List DriverId)
  | [], reserved => return reserved
  | driverId :: rest, reserved => do
    -- the check may clean the driver up as a ghost
    let reservable ← isDriverReservable env driverId
    if reservable then
      let ok ← redis (.setNX (.reservation driverId) (.reservation rideId batchId)
        env.dispatch.reservationTtlMs)
      -- NX: the driver may have been reserved for another ride since the check
      let reserved := if ok then reserved ++ [driverId] else reserved
      if env.dispatch.batchSize ≤ reserved.length then return reserved
      else reserveLoop env rideId batchId rest reserved
    else reserveLoop env rideId batchId rest reserved

def reserveDriversForBatch (env : Env) (rideId : RideId) (batchId : BatchId)
    (candidateDriverIds : List DriverId) : App (List DriverId) :=
  reserveLoop env rideId batchId candidateDriverIds []

def clearBatchFields (ride : RideHash) (now : Time) : List RideField :=
  [.currentBatchId none, .currentBatchDrivers [], .currentBatchExpiresAt none, .updatedAt now,
    .version (ride.version + 1)]

/-- The MULTI that ends a batch whose time is over. -/
def timeoutWrites (rideId : RideId) (ride : RideHash) (batchId : BatchId)
    (responses : DriverId → Option Response) (now : Time) : List Write :=
  (ride.currentBatchDrivers.filter fun driverId =>
    isPendingResponse (responses driverId) (some batchId)).map
    (fun driverId => .hsetResponse rideId driverId .timeout) ++
  [.hsetRide rideId (clearBatchFields ride now)]

/-- Ends the current batch; in `handleBatchTimeout` and in the expired-batch branch of
`dispatchUnderLock` alike. -/
def endBatch (rideId : RideId) (ride : RideHash) (batchId : BatchId) (now : Time) : App Unit := do
  let responses ← redis (.hgetallResponses rideId)
  redis (.multi (timeoutWrites rideId ride batchId responses now))
  releaseDriverReservations rideId (some batchId) ride.currentBatchDrivers
  clearPendingMembership rideId ride.currentBatchDrivers
  appendTimelineEvent rideId .dispatchBatchTimeout .system none now

def startFields (env : Env) (ride : RideHash) (now : Time) : List RideField :=
  [.status .dispatching, .dispatchRound 1, .searchRadiusKm env.dispatch.initialSearchRadiusKm,
    .updatedAt now, .version (ride.version + 1)]

/-- The REQUESTED branch of `dispatchUnderLock`. -/
def startFirstDispatch (env : Env) (rideId : RideId) (ride : RideHash) (now : Time) :
    App RideHash := do
  -- the round is stored as 1; the caller goes on with the round it read before
  let _ ← updateRideHash rideId (startFields env ride now)
  match ← getRide rideId with
  | none => .throw .typeError
  | some ride =>
    appendTimelineEvent rideId .dispatchStarted .system none now
    enqueueRideSync rideId ride.version
    notifyRideStatusUpdate rideId ride
    return ride

def exhaustFields (ride : RideHash) (now : Time) : List RideField :=
  [.status .cancelled, .cancellation ⟨.system, none, "NO_DRIVERS_AVAILABLE", now⟩,
    .currentBatchId none, .currentBatchDrivers [], .currentBatchExpiresAt none, .updatedAt now,
    .version (ride.version + 1)]

def exhaustSearch (rideId : RideId) (ride : RideHash) (now : Time) : App (Option RideHash) := do
  match ← updateRideHash rideId (exhaustFields ride now) with
  | none => .throw .typeError
  | some ride =>
    appendTimelineEvent rideId .dispatchExhausted .system none now
    cleanupTerminalRideKeys rideId ride now
    enqueueRideSync rideId ride.version
    notifyRideStatusUpdate rideId ride
    return some ride

def expandFields (ride : RideHash) (nextRound : ℕ) (nextRadius : ℚ) (now : Time) : List RideField :=
  [.dispatchRound nextRound, .searchRadiusKm nextRadius, .currentBatchId none,
    .currentBatchDrivers [], .currentBatchExpiresAt none, .updatedAt now,
    .version (ride.version + 1)]

def expandSearch (env : Env) (rideId : RideId) (ride : RideHash) (nextRound : ℕ) (nextRadius : ℚ)
    (now : Time) : App (Option RideHash) := do
  match ← updateRideHash rideId (expandFields ride nextRound nextRadius now) with
  | none => .throw .typeError
  | some ride =>
    appendTimelineEvent rideId .dispatchExpanded .system none now
    enqueueRideSync rideId ride.version
    enqueueDispatchStart rideId ride.version env.dispatch.retryDelayMs .expandRadius
    return some ride

def batchFields (ride : RideHash) (batchId : BatchId) (batchDrivers : List DriverId)
    (expiresAt now : Time) : List RideField :=
  [.currentBatchId (some batchId), .currentBatchDrivers batchDrivers,
    .currentBatchExpiresAt (some expiresAt), .updatedAt now, .version (ride.version + 1)]

/-- The MULTI that records a batch. -/
def batchWrites (rideId : RideId) (ride : RideHash) (batchId : BatchId)
    (batchDrivers : List DriverId) (expiresAt now : Time) : List Write :=
  [.hsetRide rideId (batchFields ride batchId batchDrivers expiresAt now)] ++
  batchDrivers.flatMap fun driverId =>
    [.saddNotified rideId driverId, .hsetResponse rideId driverId (.pending batchId),
      .saddPending driverId rideId]

def sendBatch (env : Env) (rideId : RideId) (ride : RideHash) (batchId : BatchId)
    (batchDrivers : List DriverId) (now : Time) : App (Option RideHash) := do
  let expiresAt := now + env.dispatch.responseTtlMs
  redis (.multi (batchWrites rideId ride batchId batchDrivers expiresAt now))
  match ← getRide rideId with
  | none => .throw .typeError
  | some ride =>
    appendTimelineEvent rideId .dispatchBatchSent .system none now
    enqueueRideSync rideId ride.version
    enqueueBatchTimeout rideId batchId env.dispatch.responseTtlMs
    -- `Promise.all` in the source; here one after the other
    .forEach (fun driverId => emitNewRideRequest driverId rideId batchId) batchDrivers
    return some ride

/-- `dispatchUnderLock` from the search for drivers on. `dispatchRound` and
`searchRadiusKm` were read before the REQUESTED branch rewrote them. -/
def findDrivers (env : Env) (rideId : RideId) (ride : RideHash) (dispatchRound : ℕ)
    (searchRadiusKm : ℚ) (now : Time) : App (Option RideHash) := do
  let notifiedDrivers ← redis (.smembersNotified rideId)
  let candidates ← getNearestAvailableDrivers ride.origin searchRadiusKm
    (env.dispatch.batchSize * env.dispatch.candidateMultiplier)
  let batchId ← redis .uuidv4
  let batchDrivers ← reserveDriversForBatch env rideId batchId
    -- from the second round on drivers are asked again that were notified before
    (candidates.filter fun driverId => driverId ∉ notifiedDrivers ∨ 1 < dispatchRound)
  if batchDrivers = [] then
    -- the stop test uses the round and the radius of this search, not of the next one
    if env.dispatch.maxRounds ≤ dispatchRound ∨ env.dispatch.maxSearchRadiusKm ≤ searchRadiusKm then
      exhaustSearch rideId ride now
    else
      expandSearch env rideId ride (dispatchRound + 1)
        (min (searchRadiusKm * 2) env.dispatch.maxSearchRadiusKm) now
  else sendBatch env rideId ride batchId batchDrivers now

/-- The current batch, when there is one and the ride is still dispatching. -/
def openBatch (ride : RideHash) : Option BatchId :=
  if ride.status = some .dispatching then ride.currentBatchId else none

/-- `dispatchUnderLock` from the check of the current batch on. -/
def continueDispatch (env : Env) (rideId : RideId) (ride : RideHash) (dispatchRound : ℕ)
    (searchRadiusKm : ℚ) (now : Time) : App (Option RideHash) := do
  match openBatch ride with
  | none => findDrivers env rideId ride dispatchRound searchRadiusKm now
  | some batchId =>
    -- a batch without an expiry counts as expired
    if now < ride.currentBatchExpiresAt.getD 0 then return some ride
    else
      endBatch rideId ride batchId now
      match ← getRide rideId with
      | none => .throw .typeError
      -- the ride is read again, but not checked to be dispatching still
      | some ride => findDrivers env rideId ride dispatchRound searchRadiusKm now

def dispatchUnderLock (env : Env) (rideId : RideId) : App (Option RideHash) := do
  match ← getRide rideId with
  | none => return none
  | some read =>
    if read.status ≠ some .requested ∧ read.status ≠ some .dispatching then return some read
    else
      let now ← redis .now
      let dispatchRound := read.dispatchRound
      -- `||`: a stored radius of 0 counts as none
      let searchRadiusKm := orNumber read.searchRadiusKm env.dispatch.initialSearchRadiusKm
      let ride ←
        if read.status = some .requested then startFirstDispatch env rideId read now
        else pure read
      continueDispatch env rideId ride dispatchRound searchRadiusKm now

def dispatchLocked : AppError := ⟨"Ride dispatch is locked, retry", 409, "RIDE_LOCKED"⟩

/-- The ride lock around a dispatch operation; a `null` result counts as a busy lock. -/
def withRideLock (env : Env) (rideId : RideId) (fn : App (Option RideHash)) : App RideHash := do
  let result ← withLock (.ride rideId) env.lockTtlMs fn
  match result.join with
  | none => .throw dispatchLocked
  | some ride => return ride

def startDispatch (env : Env) (rideId : RideId) : App RideHash :=
  withRideLock env rideId (dispatchUnderLock env rideId)

/-- The lock section of `handleBatchTimeout`. -/
def batchTimeoutUnderLock (env : Env) (rideId : RideId) (batchId : BatchId) :
    App (Option RideHash) := do
  match ← getRide rideId with
  | none => return none
  | some ride =>
    -- the timeout of an older batch has no effect
    if ride.status ≠ some .dispatching ∨ ride.currentBatchId ≠ some batchId then return some ride
    else
      let now ← redis .now
      endBatch rideId ride batchId now
      match ← getRide rideId with
      | none => .throw .typeError
      | some ride =>
        enqueueRideSync rideId ride.version
        dispatchUnderLock env rideId

def handleBatchTimeout (env : Env) (rideId : RideId) (batchId : BatchId) : App RideHash :=
  withRideLock env rideId (batchTimeoutUnderLock env rideId batchId)

/-- No other driver of the batch is still pending. -/
def batchExhausted (ride : RideHash) (driverId : DriverId)
    (responses : DriverId → Option Response) : Bool :=
  ride.currentBatchDrivers.all fun candidateDriverId =>
    candidateDriverId = driverId ||
      !isPendingResponse (responses candidateDriverId) ride.currentBatchId

def rejectFields (ride : RideHash) (exhausted : Bool) (now : Time) : List RideField :=
  [.currentBatchId (if exhausted then none else ride.currentBatchId),
    .currentBatchDrivers (if exhausted then [] else ride.currentBatchDrivers),
    .currentBatchExpiresAt (if exhausted then none else ride.currentBatchExpiresAt),
    .updatedAt now, .version (ride.version + 1)]

/-- The MULTI of `handleDriverRejection`. -/
def rejectWrites (rideId : RideId) (ride : RideHash) (driverId : DriverId) (reason : Response)
    (exhausted : Bool) (now : Time) : List Write :=
  [.hsetResponse rideId driverId reason, .sremPending driverId rideId,
    .hsetRide rideId (rejectFields ride exhausted now)]

/-- `!currentResponse || currentResponse === "ACCEPTED"`. -/
def ignoresRejection (currentResponse : Option Response) : Bool :=
  currentResponse = none || currentResponse = some (.text "") || currentResponse = some .accepted

def rejectUnderLock (env : Env) (rideId : RideId) (driverId : DriverId) (reason : Response)
    (ride : RideHash) (now : Time) (responses : DriverId → Option Response) :
    App (Option RideHash) := do
  let exhausted := batchExhausted ride driverId responses
  redis (.multi (rejectWrites rideId ride driverId reason exhausted now))
  -- the cooldown also follows a drop that the driver did not choose
  applyRejectCooldown env driverId
  releaseDriverReservations rideId ride.currentBatchId [driverId]
  appendTimelineEvent rideId .driverRejected .driver (some driverId) now
  match ← getRide rideId with
  | none => .throw .typeError
  | some updated =>
    enqueueRideSync rideId updated.version
    if exhausted then
      releaseDriverReservations rideId ride.currentBatchId ride.currentBatchDrivers
      dispatchUnderLock env rideId
    else return some updated

/-- The lock section of `handleDriverRejection`. -/
def rejectionUnderLock (env : Env) (rideId : RideId) (driverId : DriverId) (reason : Response) :
    App (Option RideHash) := do
  match ← getRide rideId with
  | none => return none
  | some ride =>
    if ride.status ≠ some .dispatching then return some ride
    else
      let now ← redis .now
      let responses ← redis (.hgetallResponses rideId)
      -- the response is not compared with the current batch: a late rejection goes through
      if ignoresRejection (responses driverId) then return some ride
      else rejectUnderLock env rideId driverId reason ride now responses

def handleDriverRejection (env : Env) (rideId : RideId) (driverId : DriverId) (reason : Response) :
    App RideHash := withRideLock env rideId (rejectionUnderLock env rideId driverId reason)

def rideAlreadyAccepted : AppError := ⟨"RIDE_ALREADY_ACCEPTED", 409, "RIDE_ALREADY_ACCEPTED"⟩

/-- `acceptRide` after the script returned a version. -/
def afterAccept (rideId : RideId) (driverId : DriverId) (batchId : Option BatchId)
    (otherDrivers : List DriverId) (acceptedAt : Time) : App RideHash := do
  match ← getRide rideId with
  | none => .throw .typeError
  | some ride =>
    releaseDriverReservations rideId batchId otherDrivers
    clearPendingMembership rideId otherDrivers
    appendTimelineEvent rideId .driverAccepted .driver (some driverId) acceptedAt
    enqueueRideSync rideId ride.version
    enqueueDriverSync driverId (.ride .accepted) none
    notifyDriverAssigned rideId ride
    notifyRideStatusUpdate rideId ride
    emitRideAssignedToDriver driverId rideId ride
    emitRideStatusUpdate rideId ride
    .forEach (fun otherDriverId => emitRideCancelledToDriver otherDriverId rideId ride.version)
      otherDrivers
    return ride

def acceptRide (rideId : RideId) (driverId : DriverId) : App RideHash := do
  let preAcceptRide ← getRide rideId
  let batchId := preAcceptRide.bind RideHash.currentBatchId
  -- from the ride as read before the script, which compares it with the reservation it finds
  let reservation := batchId.map fun batchId => Token.reservation rideId batchId
  let otherDrivers :=
    ((preAcceptRide.map RideHash.currentBatchDrivers).getD []).filter (· ≠ driverId)
  let acceptedAt ← redis .now
  let version ← redis (.evalAcceptRide rideId driverId acceptedAt reservation)
  -- every code of the guard becomes the same error
  if version ≤ 0 then .throw rideAlreadyAccepted
  else afterAccept rideId driverId batchId otherDrivers acceptedAt

def markDriverUnavailableDuringDispatch (env : Env) (rideId : RideId) (driverId : DriverId)
    (reason : Response) : App RideHash := handleDriverRejection env rideId driverId reason

end YatriGo
