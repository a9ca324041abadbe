import YatriGo.Concurrent.Pool
import YatriGo.Utils.Lock

/-! Inbound socket events: the idempotency key of an event, duplicates, and acknowledgments. -/

namespace YatriGo
open Concurrent

inductive SocketEventName
  | goOnline
  | goOffline
  | locationHeartbeat
  | acceptRide
  | rejectRide
  | rideArriving
  | rideStarted
  | rideCompleted
  | requestRide
  | cancelRide
  | subscribeRide
  deriving DecidableEq

def SocketEventName.toString : SocketEventName → String
  | .goOnline => "go_online"
  | .goOffline => "go_offline"
  | .locationHeartbeat => "location_heartbeat"
  | .acceptRide => "accept_ride"
  | .rejectRide => "reject_ride"
  | .rideArriving => "ride_arriving"
  | .rideStarted => "ride_started"
  | .rideCompleted => "ride_completed"
  | .requestRide => "request_ride"
  | .cancelRide => "cancel_ride"
  | .subscribeRide => "subscribe_ride"

def skipIdempotencyEvents : List SocketEventName := [.goOnline, .goOffline, .locationHeartbeat]

/-- An event as it arrives: the socket's actor, the event name, and of the payload the two
fields that the idempotency key is built from. -/
structure InboundEvent where
  actorId : String
  eventName : SocketEventName
  eventId : Option String
  rideId : Option String
  deriving DecidableEq

/-- The text of a field, unless it is missing or empty. -/
def truthy (value : Option String) : Option String := value.filter (· ≠ "")

/-- STEP 2 of `validateInboundEvent`. -/
def idempotencyKey (event : InboundEvent) : String :=
  (truthy event.eventId).getD
    (event.actorId ++ ":" ++ event.eventName.toString ++ ":" ++ (truthy event.rideId).getD "NA")

structure InboundValidation where
  accepted : Bool
  skipped : Bool := false
  duplicate : Bool := false
  tolerated : Bool := false
  idempotencyKey : Option String := none

/-- What the client is told; `data` is the JSON text of the handler's result. -/
structure Ack where
  success : Bool
  data : Option String := none
  error : Option String := none
  duplicate : Bool := false
  tolerated : Bool := false
  deriving DecidableEq

/-- `handler` is a whole run of the event's handler, which returns or throws. -/
inductive SocketCmd : Type → Type
  | markIdempotent (scope key : String) : SocketCmd Bool
  | handler : SocketCmd (Except AppError String)
  | ack (response : Ack) : SocketCmd Unit

abbrev SocketApp := Prog SocketCmd AppError

/-- The default of `data` is an empty object. -/
def ackSuccess (payload : Ack) : SocketApp Unit :=
  .perform (.ack { payload with success := true, data := some (payload.data.getD "\x7b\x7d") })

def ackFailure (message : String) : SocketApp Unit :=
  .perform (.ack { success := false, error := some message })

/-- `tolerateDuplicates` is `env.testing.tolerateDuplicateSocketEvents`. -/
def validateInboundEvent (tolerateDuplicates : Bool) (event : InboundEvent) : SocketApp InboundValidation := do
  if event.eventName ∈ skipIdempotencyEvents then return { accepted := true, skipped := true }
  else
    let accepted ← .perform (.markIdempotent "socket-inbound" (idempotencyKey event))
    if accepted then return { accepted := true, idempotencyKey := some (idempotencyKey event) }
    else
      return {
        accepted := false, duplicate := true, tolerated := tolerateDuplicates
        idempotencyKey := some (idempotencyKey event) }

/-- `await handler()`. -/
def runHandler : SocketApp String := do
  match ← .perform .handler with
  | .ok data => return data
  | .error error => .throw error

/-- The answer to a duplicate. -/
def answerDuplicate (event : InboundEvent) (validation : InboundValidation) : SocketApp Unit :=
  if event.eventName = .acceptRide then ackFailure "Duplicate accept not allowed"
  else if validation.tolerated = false then ackFailure "Duplicate event rejected"
  else ackSuccess { success := true, duplicate := true, tolerated := validation.tolerated }

def handleSocketEvent (tolerateDuplicates : Bool) (event : InboundEvent) : SocketApp Unit :=
  (do
    let validation ← validateInboundEvent tolerateDuplicates event
    if validation.accepted = false ∧ validation.duplicate then answerDuplicate event validation
    else
      let data ← runHandler
      ackSuccess { success := true, data := some data }).tryCatch fun error => ackFailure error.message

/-- What happened to the deliveries of an event, in order. -/
inductive SocketEntry
  | begun (delivery : ℕ)
  | refused (delivery : ℕ)
  | returned (delivery : ℕ)
  | threw (delivery : ℕ)
  | acked (delivery : ℕ) (response : Ack)
  deriving DecidableEq

/-- The keys that are marked, and the history of the deliveries. -/
structure SocketStore where
  idempotency : String → Bool := fun _ => false
  history : List SocketEntry := []

def namespacedKey (scope key : String) : String := "idempotency:" ++ scope ++ ":" ++ key

/-- One command of delivery `i`; `outcome i` is how a run of the handler ends there. -/
def socketExec (outcome : ℕ → Except AppError String) :
    ⦃β : Type⦄ → ℕ → SocketCmd β → SocketStore → β × SocketStore
  | _, i, .markIdempotent scope key, s =>
    if s.idempotency (namespacedKey scope key) then (false, { s with history := s.history ++ [.refused i] })
    else (true, { s with
      idempotency := put s.idempotency (namespacedKey scope key) true
      history := s.history ++ [.begun i] })
  | _, i, .handler, s =>
    let entry : SocketEntry := match outcome i with
      | .ok _ => .returned i
      | .error _ => .threw i
    (outcome i, { s with history := s.history ++ [entry] })
  | _, i, .ack response, s => ((), { s with history := s.history ++ [.acked i response] })

/-- Deliveries of one event, any number of them, interleaved command by command. -/
def socketSystem (tolerateDuplicates : Bool) (event : InboundEvent)
    (outcome : ℕ → Except AppError String) : System SocketCmd AppError SocketStore Unit Empty where
  exec := socketExec outcome
  code := fun _ => handleSocketEvent tolerateDuplicates event
  env := fun e _ => e.elim

end YatriGo
