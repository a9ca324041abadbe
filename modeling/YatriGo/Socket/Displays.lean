import YatriGo.Concurrent.Onlookers
import YatriGo.System

/-! What clients are shown of rides and drivers: the snapshots of a new connection, the answers to the customer's
requests for a ride, and the positions of drivers. The profile of the driver in a customer's view of a ride is left out. -/

namespace YatriGo
open Concurrent

/-- The body of `getRideStatus`. -/
inductive StatusBody
  | found (status : Option RideStatus) (version : ℕ) (driverId : Option DriverId) (updatedAt : Option Time)
  | notFound
  | error

/-- What is sent to a client, and to whom. -/
inductive Shown
  | customerSnapshot (customerId : CustomerId) (rideId : RideId) (ride : RideHash)
  | driverSnapshot (driverId : DriverId) (driverState : Option DriverState) (ride : Option (RideId × RideHash))
  | rideSnapshot (customerId : CustomerId) (rideId : RideId) (ride : RideHash)
  | rideDetails (actorId : Option CustomerId) (rideId : RideId) (ride : RideHash) (timeline : List TimelineEvent)
  | rideStatus (customerId : Option CustomerId) (rideId : RideId) (body : StatusBody)
  | subscription (customerId : CustomerId) (rideId : RideId) (ride : Option RideHash)
  | driverLocation (customerId : CustomerId) (rideId : RideId) (driverId : DriverId) (lat lng : Option ℚ)
      (atTime : Option Time)

/-- The key under which a position is published once. -/
structure LocationKey where
  rideId : RideId
  driverId : DriverId
  atTime : Option Time
  deriving DecidableEq

/-- The commands that change nothing of the system. -/
inductive ShowCmd : Type → Type
  | setLocation (key : LocationKey) : ShowCmd Bool
  | emit (shown : Shown) : ShowCmd Unit

inductive DisplayCmd (β : Type)
  | redis (c : Cmd β)
  | show (c : ShowCmd β)

structure DisplayStore where
  redis : Store := {}
  locations : LocationKey → Bool := fun _ => false
  shown : List Shown := []

abbrev DisplayApp := Prog DisplayCmd AppError

def displayExec (env : Env) : ⦃β : Type⦄ → ℕ → DisplayCmd β → DisplayStore → β × DisplayStore
  | _, i, .redis c, s => ((exec env i c s.redis).1, { s with redis := (exec env i c s.redis).2 })
  | _, _, .show (.setLocation key), s =>
    if s.locations key then (false, s) else (true, { s with locations := put s.locations key true })
  | _, _, .show (.emit shown), s => ((), { s with shown := s.shown ++ [shown] })

/-- A part of an operation that displays nothing. -/
def unshown {α : Type} (p : App α) : DisplayApp α := p.lift fun _ c => .redis c

def display (shown : Shown) : DisplayApp Unit := .perform (.show (.emit shown))

def canTrackLocation (status : Option RideStatus) : Bool :=
  status ∈ [some .accepted, some .arriving, some .ongoing]

def emitDriverLocationUpdate (customerId : CustomerId) (rideId : RideId) (driverId : DriverId) (lat lng : Option ℚ)
    (atTime : Option Time) : DisplayApp Unit := do
  let allowed ← .perform (.show (.setLocation ⟨rideId, driverId, atTime⟩))
  if allowed then display (.driverLocation customerId rideId driverId lat lng atTime) else return ()

def notifyDriverLocationUpdate (customerId : CustomerId) (rideId : RideId) (driverId : DriverId) (lat lng : Option ℚ)
    (atTime : Option Time) : DisplayApp Unit := emitDriverLocationUpdate customerId rideId driverId lat lng atTime

def pushLocationIfNeeded (driverId : DriverId) (driverState : DriverState) : DisplayApp Unit :=
  match driverState.activeRideId with
  | none => return ()
  | some rideId => do
    match ← unshown (getRide rideId) with
    | none => return ()
    | some ride =>
      if canTrackLocation ride.status = false then return ()
      else notifyDriverLocationUpdate ride.customerId rideId driverId driverState.lat driverState.lng driverState.updatedAt

/-- `location_heartbeat`: an error is told to the driver in the acknowledgment. -/
def locationHeartbeat (env : Env) (driverId : DriverId) (lat lng : Option ℚ) (socketId : Option SocketId) :
    DisplayApp Unit :=
  let attempt : DisplayApp Unit := do
    match ← unshown (getDriverState driverId) with
    | none => return ()
    | some currentState =>
      if currentState.status = .offline then return ()
      else
        let state ← unshown (heartbeat env driverId lat lng socketId)
        pushLocationIfNeeded driverId state
  attempt.tryCatch fun _ => .ret ()

/-- `heartbeat` of the driver controller, which has the lines of `pushLocationIfNeeded` as its own. -/
def postLocation (env : Env) (driverId : DriverId) (lat lng : Option ℚ) (socketId : Option SocketId) :
    DisplayApp Unit := do
  let state ← unshown (heartbeat env driverId lat lng socketId)
  pushLocationIfNeeded driverId state

def sendDriverSnapshot (driverId : DriverId) : DisplayApp Unit := do
  let driverState ← unshown (getDriverState driverId)
  let activeRideId ← unshown (redis (.getDriverActiveRide driverId))
  match activeRideId with
  | none => display (.driverSnapshot driverId driverState none)
  | some rideId =>
    let ride ← unshown (getRide rideId)
    display (.driverSnapshot driverId driverState (ride.map fun ride => (rideId, ride)))

/-- The socket of a driver connects; a session that cannot be restored is only logged. -/
def connectDriver (env : Env) (driverId : DriverId) (socketId : Option SocketId) : DisplayApp Unit := do
  (unshown (discard (restoreDriverSession env driverId socketId))).tryCatch fun _ => .ret ()
  sendDriverSnapshot driverId

def sendCustomerSnapshot (customerId : CustomerId) : DisplayApp Unit := do
  match ← unshown (redis (.getCustomerActiveRide customerId)) with
  | none => return ()
  | some rideId =>
    match ← unshown (getRide rideId) with
    | none => return ()
    | some ride => display (.customerSnapshot customerId rideId ride)

/-- The handler of `subscribe_ride`. -/
def subscribeRide (customerId : CustomerId) (rideId : RideId) : DisplayApp Unit := do
  let ride ← unshown (getRide rideId)
  display (.subscription customerId rideId ride)

def getRideSnapshot (rideId : RideId) (customerId : Option CustomerId) : DisplayApp Unit :=
  match customerId with
  | none => .throw ⟨"Missing customerId", 400, "CUSTOMER_ID_REQUIRED"⟩
  | some customerId => do
    match ← unshown (getRide rideId) with
    | none => .throw .typeError
    | some ride =>
      if ride.customerId ≠ customerId then .throw ⟨"Unauthorized access", 403, "APP_ERROR"⟩
      else display (.rideSnapshot customerId rideId ride)

def getRideStatus (rideId : RideId) (customerId : Option CustomerId) : DisplayApp Unit :=
  let attempt : DisplayApp Unit :=
    match customerId with
    | none => .throw ⟨"Missing customerId", 400, "CUSTOMER_ID_REQUIRED"⟩
    | some customerId => do
      match ← unshown (getRide rideId) with
      | none => display (.rideStatus (some customerId) rideId .notFound)
      | some ride =>
        if ride.customerId ≠ customerId then
          .throw ⟨"Ride does not belong to this customer", 403, "RIDE_ACCESS_FORBIDDEN"⟩
        else
          display (.rideStatus (some customerId) rideId
            (.found ride.status ride.version ride.driverId ride.updatedAt))
  attempt.tryCatch fun _ => display (.rideStatus customerId rideId .error)

/-- `getRide` of the customer controller; without authentication there is no actor, and nothing is checked. -/
def getRideDetails (rideId : RideId) (actorId : Option CustomerId) : DisplayApp Unit := do
  let ride ← unshown (getRide rideId)
  let timeline ← unshown (redis (.lrangeTimeline rideId))
  match ride with
  | none => .throw ⟨"Ride not found", 404, "RIDE_NOT_FOUND"⟩
  | some ride =>
    if actorId.any fun actorId => ride.customerId ≠ actorId then
      .throw ⟨"Ride does not belong to this customer", 403, "RIDE_ACCESS_FORBIDDEN"⟩
    else display (.rideDetails actorId rideId ride timeline)

/-- The calls of the system, and those that display something. -/
inductive DisplayOp
  | call (op : Op)
  | locationHeartbeat (driverId : DriverId) (lat lng : Option ℚ) (socketId : Option SocketId)
  | postLocation (driverId : DriverId) (lat lng : Option ℚ) (socketId : Option SocketId)
  | connectDriver (driverId : DriverId) (socketId : Option SocketId)
  | connectCustomer (customerId : CustomerId)
  | subscribeRide (customerId : CustomerId) (rideId : RideId)
  | getRideSnapshot (rideId : RideId) (customerId : Option CustomerId)
  | getRideStatus (rideId : RideId) (customerId : Option CustomerId)
  | getRideDetails (rideId : RideId) (actorId : Option CustomerId)

def displayCode (env : Env) : DisplayOp → DisplayApp Unit
  | .call op => unshown (code env op)
  | .locationHeartbeat d lat lng socketId => locationHeartbeat env d lat lng socketId
  | .postLocation d lat lng socketId => postLocation env d lat lng socketId
  | .connectDriver d socketId => connectDriver env d socketId
  | .connectCustomer c => sendCustomerSnapshot c
  | .subscribeRide c r => subscribeRide c r
  | .getRideSnapshot r c => getRideSnapshot r c
  | .getRideStatus r c => getRideStatus r c
  | .getRideDetails r c => getRideDetails r c

def displaySystem (env : Env) : System DisplayCmd AppError DisplayStore DisplayOp Event where
  exec := displayExec env
  code := displayCode env
  env := fun e s => (e.apply s.redis).map fun t => { s with redis := t }

abbrev DisplayState := Pool DisplayCmd AppError DisplayStore DisplayOp

abbrev DisplayStep := Action DisplayOp Event

/-- The empty store, nothing displayed, nothing running. -/
def displayInitial : DisplayState := ⟨{}, []⟩

end YatriGo
