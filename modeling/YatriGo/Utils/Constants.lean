import Mathlib.Data.Nat.Notation
import Mathlib.Tactic.Common

/-! Statuses of rides and drivers, and the table of legal ride transitions. -/

namespace YatriGo

inductive RideStatus
  | requested
  | dispatching
  | accepted
  | arriving
  | ongoing
  | completed
  | cancelled
  deriving DecidableEq, Repr

inductive DriverStatus
  | online
  | offline
  | busy
  deriving DecidableEq, Repr

namespace RideStatus

/-- The status string of the source. -/
def toString : RideStatus → String
  | requested => "REQUESTED"
  | dispatching => "DISPATCHING"
  | accepted => "ACCEPTED"
  | arriving => "ARRIVING"
  | ongoing => "ONGOING"
  | completed => "COMPLETED"
  | cancelled => "CANCELLED"

def terminal : RideStatus → Bool
  | completed => true
  | cancelled => true
  | _ => false

/-- A driver is on the ride. -/
def live : RideStatus → Bool
  | accepted => true
  | arriving => true
  | ongoing => true
  | _ => false

end RideStatus

/-- `RideTransitions[status]`. -/
def rideTransitions : RideStatus → List RideStatus
  | .requested => [.dispatching, .cancelled]
  | .dispatching => [.accepted, .cancelled]
  | .accepted => [.arriving, .dispatching, .cancelled]
  | .arriving => [.ongoing, .dispatching, .cancelled]
  | .ongoing => [.completed, .cancelled]
  | .completed => []
  | .cancelled => []

end YatriGo
