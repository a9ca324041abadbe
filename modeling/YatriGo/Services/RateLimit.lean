import YatriGo.Concurrent.Pool
import YatriGo.Utils.Lock

/-! The rate limiter. Its counters live in Redis keys of their own, which nothing else reads or writes. -/

namespace YatriGo
open Concurrent

/-- The `scope` of a limit: `customer:request-ride` or `driver:accept-ride`. -/
inductive RateScope
  | requestRide
  | acceptRide
  deriving DecidableEq

/-- `rate-limit:{scope}:{actorId}`. -/
structure RateKey where
  scope : RateScope
  actorId : ℕ
  deriving DecidableEq

structure RateLimit where
  maxRequests : ℤ
  windowSeconds : ℤ

/-- `env.rateLimit`. -/
structure RateLimits where
  requestRide : RateLimit := ⟨5, 60⟩
  acceptRide : RateLimit := ⟨20, 60⟩

/-- A counter, with its time to live if it has one. -/
structure Counter where
  count : ℕ
  expiresAt : Option Time
  deriving DecidableEq

structure RateStore where
  clock : Time := 0
  counters : RateKey → Option Counter := fun _ => none

/-- What Redis finds under a key: nothing once its time has passed. -/
def RateStore.counter (s : RateStore) (key : RateKey) : Option Counter :=
  (s.counters key).filter fun counter => counter.expiresAt.all fun expiresAt => s.clock ≤ expiresAt

inductive RateCmd : Type → Type
  | incr (key : RateKey) : RateCmd ℕ
  | expire (key : RateKey) (seconds : ℕ) : RateCmd Unit

/-- INCR keeps the time to live of a key, and creates a missing key without one; EXPIRE of a missing key
does nothing. -/
def RateCmd.exec : ⦃β : Type⦄ → ℕ → RateCmd β → RateStore → β × RateStore
  | _, _, .incr key, s =>
    match s.counter key with
    | some counter => (counter.count + 1,
      { s with counters := put s.counters key (some { counter with count := counter.count + 1 }) })
    | none => (1, { s with counters := put s.counters key (some ⟨1, none⟩) })
  | _, _, .expire key seconds, s =>
    match s.counter key with
    | some counter => ((),
      { s with counters := put s.counters key (some { counter with expiresAt := some (s.clock + seconds * 1000) }) })
    | none => ((), s)

def enforceLimit (scope : RateScope) (actorId : Option ℕ) (limit : RateLimit) (errorCode errorMessage : String) :
    Prog RateCmd AppError Unit :=
  match actorId with
  | none => return ()
  | some actorId =>
    if limit.maxRequests ≤ 0 ∨ limit.windowSeconds ≤ 0 then return ()
    else do
      let count ← .perform (.incr ⟨scope, actorId⟩)
      -- EXPIRE is a command of its own: until it has run the counter has no end
      if count = 1 then .perform (.expire ⟨scope, actorId⟩ limit.windowSeconds.toNat) else pure ()
      if limit.maxRequests < count then .throw ⟨errorMessage, 429, errorCode⟩ else return ()

def enforceRideRequestRateLimit (limits : RateLimits) (customerId : Option ℕ) : Prog RateCmd AppError Unit :=
  enforceLimit .requestRide customerId limits.requestRide "REQUEST_RIDE_RATE_LIMITED"
    "Too many ride requests, please wait a moment"

def enforceRideAcceptRateLimit (limits : RateLimits) (driverId : Option ℕ) : Prog RateCmd AppError Unit :=
  enforceLimit .acceptRide driverId limits.acceptRide "ACCEPT_RIDE_RATE_LIMITED"
    "Too many accept attempts, please wait a moment"

/-- The calls of the controllers and the socket handlers. -/
inductive RateOp
  | requestRide (customerId : Option ℕ)
  | acceptRide (driverId : Option ℕ)

/-- Time passes, in milliseconds. -/
structure RateEvent where
  ms : ℕ

def rateSystem (limits : RateLimits) : System RateCmd AppError RateStore RateOp RateEvent where
  exec := RateCmd.exec
  code
    | .requestRide customerId => enforceRideRequestRateLimit limits customerId
    | .acceptRide driverId => enforceRideAcceptRateLimit limits driverId
  env := fun e s => some { s with clock := s.clock + e.ms }

end YatriGo
