import YatriGo.Concurrent.Prog
import YatriGo.Redis.Command

/-! Errors, locks, and the small helpers that wrap a single command. -/

namespace YatriGo
open Concurrent

structure AppError where
  message : String
  statusCode : ℕ
  code : String
  deriving DecidableEq

/-- Reading a property of `null`. -/
def AppError.typeError : AppError :=
  ⟨"Cannot read properties of null", 500, "INTERNAL_SERVER_ERROR"⟩

/-- Redis answered a command with an error. -/
def AppError.replyError : AppError :=
  ⟨"ERR invalid longitude,latitude pair", 500, "INTERNAL_SERVER_ERROR"⟩

abbrev App := Prog Cmd AppError

def redis {β : Type} (c : Cmd β) : App β := .perform c

/-- A single write command. -/
def write (w : Write) : App Unit := redis (.multi [w])

def acquireLock (key : LockKey) (ttlMs : ℕ) : App (Option Token) := do
  let token ← redis .uuidv4
  let ok ← redis (.setNX key (.uuid token) ttlMs)
  return if ok then some (.uuid token) else none

def releaseLock (key : LockKey) (token : Token) : App Unit := do
  let _ ← redis (.evalReleaseLock key token)
  return ()

/-- `none` when the lock is busy; `fn` runs with the lock held and the lock is released
however `fn` ends. -/
def withLock {α : Type} (key : LockKey) (ttlMs : ℕ) (fn : App α) : App (Option α) := do
  match ← acquireLock key ttlMs with
  | none => return none
  | some token =>
    let result ← fn.tryFinally (releaseLock key token)
    return some result

def withRetryLock {α : Type} (fn : App (Option α)) : ℕ → App (Option α)
  | 0 => return none
  | n + 1 => do
    match ← fn with
    | some result => return some result
    | none => withRetryLock fn n

def markIdempotent (key : PublishKey) : App Bool := redis (.setIdempotent key)

def enqueueDispatchStart (rideId : RideId) (version delay : ℕ) (reason : StartReason) : App Unit :=
  redis (.addJob (.dispatchStart rideId version reason) delay)

def enqueueBatchTimeout (rideId : RideId) (batchId : BatchId) (delay : ℕ) : App Unit :=
  redis (.addJob (.dispatchTimeout rideId batchId) delay)

def enqueueRideSync (rideId : RideId) (version : ℕ) : App Unit :=
  redis (.addJob (.persistRide rideId version) 0)

/-- The default `dedupeSuffix` is `Date.now()`. -/
def enqueueDriverSync (driverId : DriverId) (reason : SyncReason) (dedupeSuffix : Option Time) :
    App Unit := do
  match dedupeSuffix with
  | some suffix => redis (.addJob (.persistDriver driverId reason suffix) 0)
  | none =>
    let suffix ← redis .now
    redis (.addJob (.persistDriver driverId reason suffix) 0)

end YatriGo
