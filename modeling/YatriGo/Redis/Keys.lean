import YatriGo.Queues.JobIds
import YatriGo.Text.Frames
import YatriGo.Text.Separated

/-! The keys under which Redis holds the data, and those by which messages are published once, as texts. The
store knows them by what they are about; here is the text that becomes of it. Ids of drivers, customers and
events come from clients and may be any text; ids of rides and batches are drawn. -/

namespace YatriGo
open Text Js

/-- The keys that are there once. -/
inductive SharedKey
  | activeRides | availableDrivers | busyDrivers | onlineDrivers | availableDriversGeo
  deriving DecidableEq

def SharedKey.text : SharedKey → String
  | .activeRides => "rides:active"
  | .availableDrivers => "drivers:available"
  | .busyDrivers => "drivers:busy"
  | .onlineDrivers => "drivers:online"
  | .availableDriversGeo => "drivers:geo:available"

/-- The keys that are there for each id: those of `keys`, then `rejectCooldownKey`, `rateLimitKey` and the
namespaced key of `markIdempotent` with their scopes, and the time of a lost connection. -/
inductive OwnKey
  | rideHash | rideTimeline | rideNotifiedDrivers | rideResponses | rideLock
  | driverHash | driverHeartbeat | driverLock | driverActiveRide | driverPendingDispatches | driverReservation
  | customerActiveRide | customerLock | socketEventAck
  | rejectCooldown | requestRideLimit | acceptRideLimit | socketPublish | socketInbound | lastDisconnect
  deriving DecidableEq

def between (before after : String) : Frame CodeUnit := ⟨units before, units after⟩

def OwnKey.frame : OwnKey → Frame CodeUnit
  | .rideHash => between "ride:" ":active"
  | .rideTimeline => between "ride:" ":timeline"
  | .rideNotifiedDrivers => between "ride:" ":notified"
  | .rideResponses => between "ride:" ":responses"
  | .rideLock => between "lock:ride:" ""
  | .driverHash => between "driver:" ":state"
  | .driverHeartbeat => between "driver:" ":heartbeat"
  | .driverLock => between "lock:driver:" ""
  | .driverActiveRide => between "driver:" ":activeRide"
  | .driverPendingDispatches => between "driver:" ":dispatches"
  | .driverReservation => between "driver:" ":reservation"
  | .customerActiveRide => between "customer:" ":activeRide"
  | .customerLock => between "lock:customer:" ""
  | .socketEventAck => between "socket:event:ack:" ""
  | .rejectCooldown => between "ops:driver:reject-cooldown:" ""
  | .requestRideLimit => between "rate-limit:customer:request-ride:" ""
  | .acceptRideLimit => between "rate-limit:driver:accept-ride:" ""
  | .socketPublish => between "idempotency:socket-publish:" ""
  | .socketInbound => between "idempotency:socket-inbound:" ""
  | .lastDisconnect => between "driver:" ":lastDisconnect"

inductive Key
  | shared (name : SharedKey)
  | own (name : OwnKey) (id : Units)

def Key.text : Key → Units
  | .shared name => units name.text
  | .own name id => name.frame.fill id

example : (Key.own .rideHash (units "7")).text = units "ride:7:active" := by decide

/-- The text of a time, with four digits for the year. -/
abbrev TimeText := { text : Units // text.length = 24 }

/-- Messages about a version of a ride. -/
inductive RideNews
  | rideRequested | rideStatus | rideStatusDriver | driverAssigned | driverArriving | rideStarted | rideCompleted
  deriving DecidableEq

def RideNews.text : RideNews → String
  | .rideRequested => "ride-requested:"
  | .rideStatus => "ride-status:"
  | .rideStatusDriver => "ride-status-driver:"
  | .driverAssigned => "driver-assigned:"
  | .driverArriving => "driver-arriving:"
  | .rideStarted => "ride-started:"
  | .rideCompleted => "ride-completed:"

/-- Messages about a version of a ride, for one driver. -/
inductive PartyNews
  | rideAssigned | rideCancelled
  deriving DecidableEq

def PartyNews.text : PartyNews → String
  | .rideAssigned => "ride-assigned:"
  | .rideCancelled => "ride-cancelled:"

/-- Messages about the driver of a ride at some time. -/
inductive TripNews
  | driverLocation | driverConnectionLost
  deriving DecidableEq

def TripNews.text : TripNews → String
  | .driverLocation => "driver-location:"
  | .driverConnectionLost => "driver-connection-lost:"

/-- The other messages. -/
inductive LoneNews
  | newRideRequest | driverState
  deriving DecidableEq

def LoneNews.text : LoneNews → String
  | .newRideRequest => "new-ride-request:"
  | .driverState => "driver-state:"

/-- What the dedupe key of a message is made of. -/
inductive MessageKey
  | ride (news : RideNews) (rideId : UuidText) (version : ℕ)
  | party (news : PartyNews) (rideId : UuidText) (version : ℕ) (driverId : Units)
  | trip (news : TripNews) (rideId : UuidText) (driverId : Units) (time : TimeText)
  | newRideRequest (rideId batchId : UuidText) (driverId : Units)
  | driverState (driverId : Units) (updatedAt : TimeText)

def colon : CodeUnit := codeUnit ':'

def MessageKey.text : MessageKey → Units
  | .ride news rideId version => units news.text ++ (rideId.val ++ colon :: numberText version)
  | .party news rideId version driverId =>
    units news.text ++ (rideId.val ++ colon :: (numberText version ++ colon :: driverId))
  | .trip news rideId driverId time => units news.text ++ (rideId.val ++ colon :: (driverId ++ colon :: time.val))
  | .newRideRequest rideId batchId driverId =>
    units LoneNews.newRideRequest.text ++ (rideId.val ++ colon :: (batchId.val ++ colon :: driverId))
  | .driverState driverId updatedAt => units LoneNews.driverState.text ++ (driverId ++ colon :: updatedAt.val)

/-- The texts that stand for the ids and times of the store. -/
structure Texts where
  uuid : Uuid → UuidText
  driver : DriverId → Units
  time : Time → TimeText

def PublishKey.messageKey (T : Texts) : PublishKey → MessageKey
  | .rideRequested r version => .ride .rideRequested (T.uuid r) version
  | .rideStatus r version => .ride .rideStatus (T.uuid r) version
  | .rideStatusDriver r version => .ride .rideStatusDriver (T.uuid r) version
  | .driverState d updatedAt => .driverState (T.driver d) (T.time updatedAt)
  | .driverAssigned r version => .ride .driverAssigned (T.uuid r) version
  | .newRideRequest r batchId d => .newRideRequest (T.uuid r) (T.uuid batchId) (T.driver d)
  | .rideAssigned r version d => .party .rideAssigned (T.uuid r) version (T.driver d)
  | .rideCancelled r version d => .party .rideCancelled (T.uuid r) version (T.driver d)
  | .driverConnectionLost r d atTime => .trip .driverConnectionLost (T.uuid r) (T.driver d) (T.time atTime)

/-- What the texts are read back to. -/
structure Texts.Back where
  uuid : UuidText → Uuid
  driver : Units → DriverId
  time : TimeText → Time

/-- The store's key for a message that the modelled operations send. -/
def MessageKey.publishKey (B : Texts.Back) : MessageKey → Option PublishKey
  | .ride .rideRequested r version => some (.rideRequested (B.uuid r) version)
  | .ride .rideStatus r version => some (.rideStatus (B.uuid r) version)
  | .ride .rideStatusDriver r version => some (.rideStatusDriver (B.uuid r) version)
  | .ride .driverAssigned r version => some (.driverAssigned (B.uuid r) version)
  | .party .rideAssigned r version d => some (.rideAssigned (B.uuid r) version (B.driver d))
  | .party .rideCancelled r version d => some (.rideCancelled (B.uuid r) version (B.driver d))
  | .trip .driverConnectionLost r d time => some (.driverConnectionLost (B.uuid r) (B.driver d) (B.time time))
  | .newRideRequest r batchId d => some (.newRideRequest (B.uuid r) (B.uuid batchId) (B.driver d))
  | .driverState d updatedAt => some (.driverState (B.driver d) (B.time updatedAt))
  | _ => none

end YatriGo
