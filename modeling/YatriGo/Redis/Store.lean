import YatriGo.Services.Pricing

/-! Everything the operations share: Redis, the job queues, the published socket
messages and the Mongo documents. Hash fields are kept decoded; an absent field and an
empty one read alike in the services, so both are the field's default here, except for a
driver's coordinates, whose absence and emptiness are told apart by `toNumber`. -/

namespace YatriGo

/-- `uuidv4()`: no two calls return the same value, so it is tagged by its caller. -/
structure Uuid where
  client : ℕ
  seq : ℕ
  deriving DecidableEq, Repr

abbrev RideId := Uuid
abbrev BatchId := Uuid
abbrev DriverId := ℕ
abbrev CustomerId := ℕ
abbrev SocketId := ℕ
/-- Milliseconds; an ISO string stands for the time it denotes, and orders alike. -/
abbrev Time := ℕ

/-- A string of the responses hash, as `isPendingResponse` and the accept script read it:
`PENDING:<batch>`, `TIMEOUT`, `ACCEPTED`, or any other text. -/
inductive Response
  | pending (batchId : BatchId)
  | timeout
  | accepted
  | text (s : String)
  deriving DecidableEq

inductive ActorType
  | system
  | customer
  | driver
  deriving DecidableEq, Repr

structure Cancellation where
  actorType : ActorType
  actorId : Option ℕ
  reason : String
  atTime : Time
  deriving DecidableEq

structure Metadata where
  rideType : Option String
  rest : List (String × String)
  deriving DecidableEq

/-- `ride:{id}:active`. The key does not exist when `status` is absent: every creation
of the hash writes all its fields. -/
structure RideHash where
  customerId : CustomerId := 0
  driverId : Option DriverId := none
  status : Option RideStatus := none
  origin : Location := ⟨0, 0⟩
  destination : Location := ⟨0, 0⟩
  dispatchRound : ℕ := 0
  searchRadiusKm : ℚ := 0
  rideType : Option String := none
  estimatedDistanceKm : ℚ := 0
  estimatedDurationMin : ℚ := 0
  estimatedEtaMinutes : ℚ := 0
  estimatedFare : Option Fare := none
  actualDistanceKm : ℚ := 0
  actualDurationMin : ℚ := 0
  finalFare : Option Fare := none
  billing : Option Billing := none
  commissionAmount : ℚ := 0
  driverEarning : ℚ := 0
  currentBatchId : Option BatchId := none
  currentBatchDrivers : List DriverId := []
  currentBatchExpiresAt : Option Time := none
  acceptedAt : Option Time := none
  cancellation : Option Cancellation := none
  createdAt : Option Time := none
  updatedAt : Option Time := none
  metadata : Metadata := ⟨none, []⟩
  version : ℕ := 0
  deriving DecidableEq

/-- A coordinate as the string in the driver hash. -/
inductive Coord
  | absent
  | blank
  | num (q : ℚ)
  deriving DecidableEq

/-- `driver:{id}:state`. -/
structure DriverHash where
  status : Option DriverStatus := none
  lat : Coord := .absent
  lng : Coord := .absent
  socketId : Option SocketId := none
  activeRideId : Option RideId := none
  lastHeartbeatAt : Option Time := none
  updatedAt : Option Time := none

/-- `RIDE_${status}` and the other events of a ride's timeline. -/
inductive TimelineEventType
  | ride (status : RideStatus)
  | dispatchStarted
  | dispatchBatchSent
  | dispatchBatchTimeout
  | dispatchExpanded
  | dispatchExhausted
  | driverRejected
  | driverAccepted
  | rideRequeued
  deriving DecidableEq

structure TimelineEvent where
  event : TimelineEventType
  actorType : ActorType
  actorId : Option ℕ
  atTime : Time
  deriving DecidableEq

/-- The keys guarded by `acquireLock` and `releaseLock`, and the driver reservations,
which are set and released the same way. -/
inductive LockKey
  | ride (rideId : RideId)
  | driver (driverId : DriverId)
  | customer (customerId : CustomerId)
  | reservation (driverId : DriverId)
  deriving DecidableEq

inductive Token
  | uuid (u : Uuid)
  | reservation (rideId : RideId) (batchId : BatchId)
  deriving DecidableEq

structure Lease where
  token : Token
  expiresAt : Time

inductive DriverSet
  | online
  | available
  | busy
  deriving DecidableEq

/-- The `reason` of a start-dispatch job. -/
inductive StartReason
  | requested
  | expandRadius
  | requeue
  | recoveryNoBatch
  deriving DecidableEq

/-- The `reason` of a driver sync job; `ride s` is `RIDE_${s}`. -/
inductive SyncReason
  | online
  | heartbeat
  | offline
  | reconnect
  | ride (status : RideStatus)
  deriving DecidableEq

/-- The arguments of `buildJobId`; they determine the job's name and data. -/
inductive JobId
  | dispatchStart (rideId : RideId) (version : ℕ) (reason : StartReason)
  | dispatchTimeout (rideId : RideId) (batchId : BatchId)
  | persistRide (rideId : RideId) (version : ℕ)
  | persistDriver (driverId : DriverId) (reason : SyncReason) (dedupeSuffix : Time)
  deriving DecidableEq

/-- A job the queue knows: waiting (from `readyAt` on), being executed, or retained. -/
inductive JobState
  | waiting (readyAt : Time) (attemptsMade : ℕ)
  | active (attemptsMade : ℕ)
  | completed
  | failed
  deriving DecidableEq

inductive Room
  | customer (customerId : CustomerId)
  | driver (driverId : DriverId)
  deriving DecidableEq

/-- The `dedupeKey` of a published message; it determines the event. -/
inductive PublishKey
  | rideRequested (rideId : RideId) (version : ℕ)
  | rideStatus (rideId : RideId) (version : ℕ)
  | rideStatusDriver (rideId : RideId) (version : ℕ)
  | driverState (driverId : DriverId) (updatedAt : Time)
  | driverAssigned (rideId : RideId) (version : ℕ)
  | newRideRequest (rideId : RideId) (batchId : BatchId) (driverId : DriverId)
  | rideAssigned (rideId : RideId) (version : ℕ) (driverId : DriverId)
  | rideCancelled (rideId : RideId) (version : ℕ) (driverId : DriverId)
  | driverConnectionLost (rideId : RideId) (driverId : DriverId) (atTime : Time)
  deriving DecidableEq

structure Message where
  room : Room
  key : PublishKey
  deriving DecidableEq

/-- The Mongo ride document: the fields `syncRide` sets, with the others of `fields` left
at their defaults, and Mongo's own timestamps. -/
structure RideDoc where
  fields : RideHash
  notifiedDrivers : List DriverId
  timeline : List TimelineEvent
  createdAt : Time
  updatedAt : Time

/-- The fields of the Mongo driver document that `syncDriver` sets. -/
structure DriverDoc where
  status : DriverStatus
  activeRideId : Option RideId
  lat : Option ℚ
  lng : Option ℚ

structure Store where
  clock : Time := 0
  nextSeq : ℕ := 0
  ride : RideId → RideHash := fun _ => {}
  rideTimeline : RideId → List TimelineEvent := fun _ => []
  rideNotifiedDrivers : RideId → List DriverId := fun _ => []
  rideResponses : RideId → DriverId → Option Response := fun _ _ => none
  activeRides : List RideId := []
  locks : LockKey → Option Lease := fun _ => none
  driverHash : DriverId → DriverHash := fun _ => {}
  driverHeartbeat : DriverId → Option Time := fun _ => none
  driverActiveRide : DriverId → Option RideId := fun _ => none
  driverPendingDispatches : DriverId → List RideId := fun _ => []
  driverSet : DriverSet → List DriverId := fun _ => []
  availableDriversGeo : List (DriverId × Location) := []
  rejectCooldown : DriverId → Option Time := fun _ => none
  customerActiveRide : CustomerId → Option RideId := fun _ => none
  jobs : JobId → Option JobState := fun _ => none
  published : List Message := []
  idempotency : PublishKey → Bool := fun _ => false
  rideDocs : RideId → Option RideDoc := fun _ => none
  rideDocIds : List RideId := []
  driverDocs : DriverId → Option DriverDoc := fun _ => none
  driverDocIds : List DriverId := []

/-- Overwrite one key of a keyspace. -/
def put {κ ν : Type} [DecidableEq κ] (f : κ → ν) (k : κ) (v : ν) : κ → ν :=
  fun x => if x = k then v else f x

section put

variable {κ ν : Type} [DecidableEq κ] {f : κ → ν} {k x : κ} {v : ν}

@[simp] theorem put_self : put f k v k = v := by
  unfold put
  rw [if_pos rfl]

theorem put_of_ne (h : x ≠ k) : put f k v x = f x := by
  unfold put
  rw [if_neg h]

theorem put_apply : put f k v x = if x = k then v else f x := rfl

end put

/-- SADD. -/
def sadd {ν : Type} [DecidableEq ν] (v : ν) (vs : List ν) : List ν :=
  if v ∈ vs then vs else vs ++ [v]

/-- SREM. -/
def srem {ν : Type} [DecidableEq ν] (v : ν) (vs : List ν) : List ν := vs.filter (· ≠ v)

section sets

variable {ν : Type} [DecidableEq ν] {v w : ν} {vs : List ν}

@[simp] theorem mem_sadd : w ∈ sadd v vs ↔ w = v ∨ w ∈ vs := by
  unfold sadd
  split
  · rename_i h
    constructor
    · exact Or.inr
    · rintro (rfl | hw)
      · exact h
      · exact hw
  · simp only [List.mem_append, List.mem_singleton]
    exact Or.comm

@[simp] theorem mem_srem : w ∈ srem v vs ↔ w ∈ vs ∧ w ≠ v := by
  unfold srem
  simp only [List.mem_filter, decide_eq_true_eq]

theorem mem_put_srem {κ : Type} [DecidableEq κ] {f : κ → List ν} {k x : κ} :
    w ∈ put f k (srem v (f k)) x ↔ w ∈ f x ∧ ¬ (x = k ∧ w = v) := by
  rw [put_apply]
  split_ifs with hx
  · rw [mem_srem, hx, eq_self, true_and]
  · rw [eq_false hx, false_and, not_false_eq_true, and_true]

end sets

end YatriGo
