import YatriGo.Services.SocketPublisher

/-! Driver presence: going online and offline, heartbeats, reconnection, and whether a
driver can be offered a ride. -/

namespace YatriGo
open Concurrent

structure DriverState where
  status : DriverStatus
  lat : Option ℚ
  lng : Option ℚ
  socketId : Option SocketId
  activeRideId : Option RideId
  lastHeartbeatAt : Option Time
  updatedAt : Option Time

/-- `toNumber(value, null)`: `Number("")` is 0. -/
def Coord.toNumber : Coord → Option ℚ
  | .absent => none
  | .blank => some 0
  | .num q => some q

/-- `value != null ? String(value) : ""`. -/
def Coord.ofNumber : Option ℚ → Coord
  | some q => .num q
  | none => .blank

def toDriverSnapshot (hash : DriverHash) : Option DriverState :=
  match hash.status with
  | none => none
  | some status => some
    { status
      lat := hash.lat.toNumber
      lng := hash.lng.toNumber
      socketId := hash.socketId
      activeRideId := hash.activeRideId
      lastHeartbeatAt := hash.lastHeartbeatAt
      updatedAt := hash.updatedAt }

def getDriverState (driverId : DriverId) : App (Option DriverState) := do
  let hash ← redis (.hgetallDriver driverId)
  return toDriverSnapshot hash

/-- The MULTI of `persistDriverRealtimeState`. -/
def persistWrites (env : Env) (driverId : DriverId) (state : DriverState) : List Write :=
  [.hsetDriver driverId
    [.status state.status, .lat (.ofNumber state.lat), .lng (.ofNumber state.lng),
      .socketId state.socketId, .activeRideId state.activeRideId,
      .lastHeartbeatAt state.lastHeartbeatAt, .updatedAt (state.updatedAt.getD 0)],
    -- for every status; the callers never persist an OFFLINE snapshot
    .sadd .online driverId, .setHeartbeat driverId (env.driver.heartbeatTtlSeconds * 1000)] ++
  (if state.status = .online ∧ state.activeRideId = none then
    [.sadd .available driverId, .srem .busy driverId] ++
      (match state.lat, state.lng with
        | some lat, some lng => [.geoadd driverId ⟨lat, lng⟩]
        | _, _ => [])
  else
    [.srem .available driverId, .zremGeo driverId,
      if state.status = .busy then .sadd .busy driverId else .srem .busy driverId]) ++
  (match state.activeRideId with
    | some rideId => [.setDriverActiveRide driverId rideId]
    | none => [.delDriverActiveRide driverId])

def persistDriverRealtimeState (env : Env) (driverId : DriverId) (state : DriverState) : App Unit :=
  redis (.multi (persistWrites env driverId state))

def cleanupGhostAvailability (driverId : DriverId) : App Unit := do
  redis (.multi [.srem .available driverId, .srem .busy driverId, .srem .online driverId,
    .zremGeo driverId, .delHeartbeat driverId, .delReservation driverId])
  redis (.updateDriverDocStatus driverId .offline)

def driverLocked : AppError := ⟨"Driver state is busy, retry", 409, "DRIVER_LOCKED"⟩

def goOnline (env : Env) (driverId : DriverId) (lat lng : Option ℚ) (socketId : Option SocketId) :
    App DriverState := do
  let result ← withRetryLock (withLock (.driver driverId) env.lockTtlMs do
    let existing ← getDriverState driverId
    let activeRide ← redis (.getDriverActiveRide driverId)
    -- the pointer first, the field of the hash where there is none
    let activeRideId := activeRide <|> existing.bind DriverState.activeRideId
    let now ← redis .now
    let snapshot : DriverState :=
      { status := if activeRideId = none then .online else .busy
        lat, lng, socketId, activeRideId
        lastHeartbeatAt := some now
        updatedAt := some now }
    persistDriverRealtimeState env driverId snapshot
    return snapshot) 3
  let driverExists ← redis (.existsDriver driverId)
  -- the key is tested before the result: a busy lock on a known driver is a 409, on an unknown one a 500
  if driverExists = false then
    .throw ⟨"Driver state persistence failed", 500, "APP_ERROR"⟩
  else match result with
    | none => .throw driverLocked
    | some result =>
      enqueueDriverSync driverId .online result.updatedAt
      emitDriverStateUpdate driverId (result.updatedAt.getD 0)
      return result

def heartbeat (env : Env) (driverId : DriverId) (lat lng : Option ℚ) (socketId : Option SocketId) :
    App DriverState := do
  let result ← withRetryLock (withLock (.driver driverId) env.lockTtlMs do
    match ← getDriverState driverId with
    | none => .throw ⟨"Driver is not registered online", 404, "DRIVER_NOT_ONLINE"⟩
    | some existing =>
      -- a heartbeat does not bring a driver back online
      if existing.status = .offline then return existing
      else
        let now ← redis .now
        let snapshot : DriverState :=
          { existing with
            lat, lng
            socketId := socketId <|> existing.socketId
            lastHeartbeatAt := some now
            updatedAt := some now }
        persistDriverRealtimeState env driverId snapshot
        return snapshot) 3
  match result with
  | none => .throw ⟨"Driver heartbeat lock busy, retry", 409, "DRIVER_LOCKED"⟩
  | some result =>
    enqueueDriverSync driverId .heartbeat result.updatedAt
    return result

structure OfflineImpact where
  driverId : DriverId
  activeRideId : Option RideId
  pendingRideIds : List RideId
  previousStatus : DriverStatus

/-- The MULTI of `goOffline`. -/
def offlineWrites (driverId : DriverId) (existing : Option DriverState)
    (activeRideId : Option RideId) (now : Time) : List Write :=
  [.srem .online driverId, .srem .available driverId, .srem .busy driverId, .zremGeo driverId,
    .delHeartbeat driverId, .delReservation driverId,
    .hsetDriver driverId
      [.status .offline, .lat (.ofNumber (existing.bind DriverState.lat)),
        .lng (.ofNumber (existing.bind DriverState.lng)), .socketId none,
        .activeRideId activeRideId, .lastHeartbeatAt (some now), .updatedAt now]]

def goOffline (env : Env) (driverId : DriverId) : App OfflineImpact := do
  let result ← withLock (.driver driverId) env.lockTtlMs do
    let existing ← getDriverState driverId
    let pendingRideIds ← redis (.smembersPending driverId)
    let activeRide ← redis (.getDriverActiveRide driverId)
    let activeRideId := activeRide <|> existing.bind DriverState.activeRideId
    let now ← redis .now
    redis (.multi (offlineWrites driverId existing activeRideId now))
    -- published inside the lock section, before the release
    emitDriverStateUpdate driverId now
    let impact : OfflineImpact :=
      { driverId, activeRideId, pendingRideIds
        previousStatus := (existing.map DriverState.status).getD .offline }
    return impact
  match result with
  | none => .throw driverLocked
  | some result =>
    let now ← redis .now
    enqueueDriverSync driverId .offline (some now)
    return result

def restoreDriverSession (env : Env) (driverId : DriverId) (socketId : Option SocketId) :
    App (Option DriverState) := do
  let result ← withLock (.driver driverId) env.lockTtlMs do
    match ← getDriverState driverId with
    | none => return none
    | some existing =>
      -- an offline driver is not restored, and the caller is not told why
      if existing.status = .offline then return none
      else
        let now ← redis .now
        let snapshot : DriverState :=
          { existing with socketId, lastHeartbeatAt := some now, updatedAt := some now }
        persistDriverRealtimeState env driverId snapshot
        return some snapshot
  match result.join with
  | none => return none
  | some result =>
    enqueueDriverSync driverId .reconnect result.updatedAt
    return some result

/-- The error of GEOSEARCH is thrown on; `dispatchUnderLock` logs it and throws it again. -/
def getNearestAvailableDrivers (origin : Location) (radiusKm : ℚ) (count : ℕ) :
    App (List DriverId) := do
  match ← redis (.geosearch origin radiusKm count) with
  | none => .throw .replyError
  | some drivers => return drivers

/-- The stale ones among the drivers that were online, each taken offline. -/
def scanStaleDriversLoop (env : Env) : List DriverId → App (List OfflineImpact)
  | [] => return []
  | driverId :: rest => do
    let heartbeatExists ← redis (.existsHeartbeat driverId)
    if heartbeatExists then scanStaleDriversLoop env rest
    else
      -- throws when the driver's lock is busy, and with it the whole scan
      let impact ← goOffline env driverId
      redis (.updateDriverDocStatus driverId .offline)
      let staleDrivers ← scanStaleDriversLoop env rest
      return impact :: staleDrivers

def scanStaleDrivers (env : Env) : App (List OfflineImpact) := do
  let onlineDrivers ← redis .smembersOnline
  scanStaleDriversLoop env onlineDrivers

def applyRejectCooldown (env : Env) (driverId : DriverId) : App Unit :=
  if env.driver.rejectCooldownSeconds = 0 then return ()
  else write (.setRejectCooldown driverId (env.driver.rejectCooldownSeconds * 1000))

def isDriverOnRejectCooldown (env : Env) (driverId : DriverId) : App Bool := do
  if env.driver.rejectCooldownSeconds = 0 then return false
  else
    let ttlMs ← redis (.pttlRejectCooldown driverId)
    return decide (0 < ttlMs)

def isDriverReservable (env : Env) (driverId : DriverId) : App Bool := do
  let driverState ← getDriverState driverId
  let activeRideId ← redis (.getDriverActiveRide driverId)
  let reservation ← redis (.getReservation driverId)
  let heartbeatExists ← redis (.existsHeartbeat driverId)
  let rejectCooldown ← isDriverOnRejectCooldown env driverId
  match driverState with
  | none =>
    -- any reservation is deleted here, whoever holds it
    cleanupGhostAvailability driverId
    return false
  | some driverState =>
    if heartbeatExists then
      return decide (driverState.status = .online ∧ activeRideId = none ∧ reservation = none ∧
        rejectCooldown = false)
    else
      cleanupGhostAvailability driverId
      return false

end YatriGo
