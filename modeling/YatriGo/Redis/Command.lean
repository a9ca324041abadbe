import Mathlib.Data.List.Sort
import YatriGo.Redis.Store

/-! The atomic commands and their effect: single Redis commands, MULTI, the two Lua
scripts, the queue operations and the Mongo operations. EXPIRE on the keys of a ride has
no effect here, ride keys do not expire. -/

namespace YatriGo

/-- One field of an HSET on a ride hash. -/
inductive RideField
  | status (v : RideStatus)
  | driverId (v : Option DriverId)
  | dispatchRound (v : ℕ)
  | searchRadiusKm (v : ℚ)
  | actualDistanceKm (v : ℚ)
  | actualDurationMin (v : ℚ)
  | finalFare (v : Fare)
  | billing (v : Billing)
  | commissionAmount (v : ℚ)
  | driverEarning (v : ℚ)
  | currentBatchId (v : Option BatchId)
  | currentBatchDrivers (v : List DriverId)
  | currentBatchExpiresAt (v : Option Time)
  | acceptedAt (v : Option Time)
  | cancellation (v : Cancellation)
  | updatedAt (v : Time)
  | version (v : ℕ)
  deriving DecidableEq

def RideHash.setField (h : RideHash) : RideField → RideHash
  | .status v => { h with status := some v }
  | .driverId v => { h with driverId := v }
  | .dispatchRound v => { h with dispatchRound := v }
  | .searchRadiusKm v => { h with searchRadiusKm := v }
  | .actualDistanceKm v => { h with actualDistanceKm := v }
  | .actualDurationMin v => { h with actualDurationMin := v }
  | .finalFare v => { h with finalFare := some v }
  | .billing v => { h with billing := some v }
  | .commissionAmount v => { h with commissionAmount := v }
  | .driverEarning v => { h with driverEarning := v }
  | .currentBatchId v => { h with currentBatchId := v }
  | .currentBatchDrivers v => { h with currentBatchDrivers := v }
  | .currentBatchExpiresAt v => { h with currentBatchExpiresAt := v }
  | .acceptedAt v => { h with acceptedAt := v }
  | .cancellation v => { h with cancellation := some v }
  | .updatedAt v => { h with updatedAt := some v }
  | .version v => { h with version := v }

/-- HSET with several fields. -/
def RideHash.hset (h : RideHash) (fields : List RideField) : RideHash :=
  fields.foldl RideHash.setField h

inductive DriverField
  | status (v : DriverStatus)
  | lat (v : Coord)
  | lng (v : Coord)
  | socketId (v : Option SocketId)
  | activeRideId (v : Option RideId)
  | lastHeartbeatAt (v : Option Time)
  | updatedAt (v : Time)
  deriving DecidableEq

def DriverHash.setField (h : DriverHash) : DriverField → DriverHash
  | .status v => { h with status := some v }
  | .lat v => { h with lat := v }
  | .lng v => { h with lng := v }
  | .socketId v => { h with socketId := v }
  | .activeRideId v => { h with activeRideId := v }
  | .lastHeartbeatAt v => { h with lastHeartbeatAt := v }
  | .updatedAt v => { h with updatedAt := some v }

def DriverHash.hset (h : DriverHash) (fields : List DriverField) : DriverHash :=
  fields.foldl DriverHash.setField h

/-- The writes that are queued in a MULTI. -/
inductive Write
  | createRide (rideId : RideId) (payload : RideHash)
  | hsetRide (rideId : RideId) (fields : List RideField)
  | expireRide (rideId : RideId)
  | rpushTimeline (rideId : RideId) (event : TimelineEvent)
  | saddNotified (rideId : RideId) (driverId : DriverId)
  | delNotified (rideId : RideId)
  | hsetResponse (rideId : RideId) (driverId : DriverId) (value : Response)
  | delResponses (rideId : RideId)
  | saddActiveRide (rideId : RideId)
  | sremActiveRide (rideId : RideId)
  | setCustomerActiveRide (customerId : CustomerId) (rideId : RideId)
  | delCustomerActiveRide (customerId : CustomerId)
  | hsetDriver (driverId : DriverId) (fields : List DriverField)
  | sadd (drivers : DriverSet) (driverId : DriverId)
  | srem (drivers : DriverSet) (driverId : DriverId)
  | geoadd (driverId : DriverId) (location : Location)
  | zremGeo (driverId : DriverId)
  | setHeartbeat (driverId : DriverId) (ttlMs : ℕ)
  | delHeartbeat (driverId : DriverId)
  | setDriverActiveRide (driverId : DriverId) (rideId : RideId)
  | delDriverActiveRide (driverId : DriverId)
  | saddPending (driverId : DriverId) (rideId : RideId)
  | sremPending (driverId : DriverId) (rideId : RideId)
  | delReservation (driverId : DriverId)
  | setRejectCooldown (driverId : DriverId) (ttlMs : ℕ)
  deriving DecidableEq

/-- The positions that GEOADD and GEOSEARCH take: those of the Mercator square. -/
def Location.mapped (l : Location) : Bool :=
  -180 ≤ l.lng ∧ l.lng ≤ 180 ∧ -(8505112878 / 100000000) ≤ l.lat ∧ l.lat ≤ 8505112878 / 100000000

def Write.apply (s : Store) : Write → Store
  | .createRide r payload => { s with ride := put s.ride r payload }
  | .hsetRide r fields => { s with ride := put s.ride r ((s.ride r).hset fields) }
  | .expireRide _ => s
  | .rpushTimeline r e => { s with rideTimeline := put s.rideTimeline r (s.rideTimeline r ++ [e]) }
  | .saddNotified r d =>
    { s with rideNotifiedDrivers := put s.rideNotifiedDrivers r (YatriGo.sadd d (s.rideNotifiedDrivers r)) }
  | .delNotified r => { s with rideNotifiedDrivers := put s.rideNotifiedDrivers r [] }
  | .hsetResponse r d v =>
    { s with rideResponses := put s.rideResponses r (put (s.rideResponses r) d (some v)) }
  | .delResponses r => { s with rideResponses := put s.rideResponses r fun _ => none }
  | .saddActiveRide r => { s with activeRides := YatriGo.sadd r s.activeRides }
  | .sremActiveRide r => { s with activeRides := YatriGo.srem r s.activeRides }
  | .setCustomerActiveRide c r => { s with customerActiveRide := put s.customerActiveRide c (some r) }
  | .delCustomerActiveRide c => { s with customerActiveRide := put s.customerActiveRide c none }
  | .hsetDriver d fields => { s with driverHash := put s.driverHash d ((s.driverHash d).hset fields) }
  | .sadd p d => { s with driverSet := put s.driverSet p (YatriGo.sadd d (s.driverSet p)) }
  | .srem p d => { s with driverSet := put s.driverSet p (YatriGo.srem d (s.driverSet p)) }
  | .geoadd d l =>
    -- another position is an error of this command alone: EXEC runs the others and does not throw
    { s with
      availableDriversGeo :=
        if l.mapped then (d, l) :: s.availableDriversGeo.filter (·.1 ≠ d) else s.availableDriversGeo }
  | .zremGeo d => { s with availableDriversGeo := s.availableDriversGeo.filter (·.1 ≠ d) }
  | .setHeartbeat d ttl => { s with driverHeartbeat := put s.driverHeartbeat d (some (s.clock + ttl)) }
  | .delHeartbeat d => { s with driverHeartbeat := put s.driverHeartbeat d none }
  | .setDriverActiveRide d r => { s with driverActiveRide := put s.driverActiveRide d (some r) }
  | .delDriverActiveRide d => { s with driverActiveRide := put s.driverActiveRide d none }
  | .saddPending d r =>
    { s with
      driverPendingDispatches := put s.driverPendingDispatches d (YatriGo.sadd r (s.driverPendingDispatches d)) }
  | .sremPending d r =>
    { s with
      driverPendingDispatches := put s.driverPendingDispatches d (YatriGo.srem r (s.driverPendingDispatches d)) }
  | .delReservation d => { s with locks := put s.locks (.reservation d) none }
  | .setRejectCooldown d ttl => { s with rejectCooldown := put s.rejectCooldown d (some (s.clock + ttl)) }

/-- GEOADD adds the position, or Redis refuses it and nothing changes. -/
theorem write_geoadd (d : DriverId) (l : Location) (s : Store) :
    (l.mapped = true ∧ Write.apply s (.geoadd d l) =
        { s with availableDriversGeo := (d, l) :: s.availableDriversGeo.filter (·.1 ≠ d) }) ∨
      (l.mapped = false ∧ Write.apply s (.geoadd d l) = s) := by
  simp only [Write.apply]
  cases hmapped : l.mapped with
  | true => exact .inl ⟨rfl, by rw [if_pos rfl]⟩
  | false => exact .inr ⟨rfl, by rw [if_neg Bool.false_ne_true]⟩

theorem mem_geoadd {d d' : DriverId} {l l' : Location} {s : Store}
    (h : (d', l') ∈ (Write.apply s (.geoadd d l)).availableDriversGeo) :
    (d' = d ∧ l' = l) ∨ (d', l') ∈ s.availableDriversGeo := by
  rcases write_geoadd d l s with ⟨-, heq⟩ | ⟨-, heq⟩
  · rw [heq] at h
    rcases List.mem_cons.mp h with heq | hin
    · exact .inl ⟨congrArg Prod.fst heq, congrArg Prod.snd heq⟩
    · exact .inr (List.mem_of_mem_filter hin)
  · rw [heq] at h
    exact .inr h

/-- EXEC: the queued writes, in order and in one step. -/
def Store.multi (s : Store) (writes : List Write) : Store := writes.foldl Write.apply s

/-- What `ACCEPT_RIDE_SCRIPT` does to the ride hash. -/
def RideHash.accept (h : RideHash) (driverId : DriverId) (acceptedAt : Time) : RideHash :=
  { h with
    status := some .accepted
    driverId := some driverId
    acceptedAt := some acceptedAt
    updatedAt := some acceptedAt
    currentBatchId := none
    currentBatchDrivers := []
    currentBatchExpiresAt := none
    version := h.version + 1 }

/-- `RELEASE_LOCK_SCRIPT`. -/
def releaseLockScript (key : LockKey) (token : Token) (s : Store) : Bool × Store :=
  match s.locks key with
  | some lease =>
    if lease.token = token then (true, { s with locks := put s.locks key none }) else (false, s)
  | none => (false, s)

/-- The effect of the commands after the guards of `ACCEPT_RIDE_SCRIPT`. -/
def acceptRideCommit (rideId : RideId) (driverId : DriverId) (acceptedAt : Time) (s : Store) :
    Store :=
  { s with
    ride := put s.ride rideId ((s.ride rideId).accept driverId acceptedAt)
    driverHash := put s.driverHash driverId ((s.driverHash driverId).hset
      [.status .busy, .activeRideId (some rideId), .updatedAt acceptedAt])
    driverSet := put (put s.driverSet .available (srem driverId (s.driverSet .available))) .busy
      (sadd driverId (s.driverSet .busy))
    availableDriversGeo := s.availableDriversGeo.filter (·.1 ≠ driverId)
    driverActiveRide := put s.driverActiveRide driverId (some rideId)
    rideResponses := put s.rideResponses rideId (put (s.rideResponses rideId) driverId (some .accepted))
    driverPendingDispatches :=
      put s.driverPendingDispatches driverId (srem rideId (s.driverPendingDispatches driverId))
    locks := put s.locks (.reservation driverId) none }

/-- The guards of `ACCEPT_RIDE_SCRIPT`, in its order; 0 when all of them pass. -/
def acceptRideGuard (rideId : RideId) (driverId : DriverId) (acceptedAt : Time)
    (reservation : Option Token) (s : Store) : ℤ :=
  let ride := s.ride rideId
  if ride.status = none then -1
  else if ride.status ≠ some .dispatching then -2
  else if ride.driverId ≠ none then -3
  else match ride.currentBatchId with
    | none => -6
    | some batchId =>
      -- `<` on ISO texts, which order as their times do
      if ∃ e, ride.currentBatchExpiresAt = some e ∧ e < acceptedAt then -7
      -- a driver of an older batch passes this guard and fails the next one
      else if driverId ∉ s.rideNotifiedDrivers rideId then -4
      else if s.rideResponses rideId driverId ≠ some (.pending batchId) then -8
      -- a missing reservation is refused also where the caller read no batch
      else if (s.locks (.reservation driverId)).map Lease.token = none ∨
          (s.locks (.reservation driverId)).map Lease.token ≠ reservation then -9
      else if (s.driverHash driverId).status ≠ some .online ∨
          (s.driverActiveRide driverId ≠ none ∧ s.driverActiveRide driverId ≠ some rideId) then -5
      else 0

/-- `ACCEPT_RIDE_SCRIPT`: a negative code and no effect, or the ride's new version. -/
def acceptRideScript (rideId : RideId) (driverId : DriverId) (acceptedAt : Time)
    (reservation : Option Token) (s : Store) : ℤ × Store :=
  if acceptRideGuard rideId driverId acceptedAt reservation s < 0 then
    (acceptRideGuard rideId driverId acceptedAt reservation s, s)
  else ((s.ride rideId).version + 1, acceptRideCommit rideId driverId acceptedAt s)

/-- The arguments that GEOSEARCH takes: such a position, a radius that is not negative, a positive COUNT. -/
def searchable (origin : Location) (radiusKm : ℚ) (count : ℕ) : Bool :=
  origin.mapped ∧ 0 ≤ radiusKm ∧ 0 < count

/-- The members within the radius, the nearest first, at most `count` of them. -/
def nearest (env : Env) (origin : Location) (radiusKm : ℚ) (count : ℕ)
    (geo : List (DriverId × Location)) : List DriverId :=
  let distance (p : DriverId × Location) := env.geoDistanceKm origin p.2
  let near := geo.filter fun p => distance p ≤ radiusKm
  ((near.insertionSort fun p q => distance p ≤ distance q).take count).map Prod.fst

/-- GEOSEARCH FROMLONLAT BYRADIUS ASC COUNT; `none` when Redis answers with an error. -/
def geosearch (env : Env) (origin : Location) (radiusKm : ℚ) (count : ℕ)
    (geo : List (DriverId × Location)) : Option (List DriverId) :=
  if searchable origin radiusKm count then some (nearest env origin radiusKm count geo) else none

theorem geosearch_of_searchable {env : Env} {origin : Location} {radiusKm : ℚ} {count : ℕ}
    {geo : List (DriverId × Location)} (h : searchable origin radiusKm count) :
    geosearch env origin radiusKm count geo = some (nearest env origin radiusKm count geo) := if_pos h

theorem geosearch_eq_some {env : Env} {origin : Location} {radiusKm : ℚ} {count : ℕ}
    {geo : List (DriverId × Location)} {found : List DriverId} :
    geosearch env origin radiusKm count geo = some found ↔
      searchable origin radiusKm count ∧ nearest env origin radiusKm count geo = found := by
  unfold geosearch
  split_ifs with h <;> simp [h]

theorem searchable_radius {origin : Location} {radiusKm nextKm : ℚ} {count : ℕ} (h : searchable origin radiusKm count = true)
    (hnext : 0 ≤ nextKm) : searchable origin nextKm count = true := by
  obtain ⟨hmapped, -, hcount⟩ := of_decide_eq_true h
  exact decide_eq_true ⟨hmapped, hnext, hcount⟩

inductive Cmd : Type → Type
  | hgetallRide (rideId : RideId) : Cmd RideHash
  | lrangeTimeline (rideId : RideId) : Cmd (List TimelineEvent)
  | smembersNotified (rideId : RideId) : Cmd (List DriverId)
  | hgetallResponses (rideId : RideId) : Cmd (DriverId → Option Response)
  | smembersActiveRides : Cmd (List RideId)
  | getCustomerActiveRide (customerId : CustomerId) : Cmd (Option RideId)
  | hgetallDriver (driverId : DriverId) : Cmd DriverHash
  | existsDriver (driverId : DriverId) : Cmd Bool
  | getDriverActiveRide (driverId : DriverId) : Cmd (Option RideId)
  | getReservation (driverId : DriverId) : Cmd (Option Token)
  | existsHeartbeat (driverId : DriverId) : Cmd Bool
  | pttlRejectCooldown (driverId : DriverId) : Cmd ℕ
  | smembersPending (driverId : DriverId) : Cmd (List RideId)
  | smembersOnline : Cmd (List DriverId)
  | geosearch (origin : Location) (radiusKm : ℚ) (count : ℕ) : Cmd (Option (List DriverId))
  | now : Cmd Time
  | uuidv4 : Cmd Uuid
  | multi (writes : List Write) : Cmd Unit
  | setNX (key : LockKey) (token : Token) (ttlMs : ℕ) : Cmd Bool
  | evalReleaseLock (key : LockKey) (token : Token) : Cmd Bool
  | evalAcceptRide (rideId : RideId) (driverId : DriverId) (acceptedAt : Time)
      (reservation : Option Token) : Cmd ℤ
  | setIdempotent (key : PublishKey) : Cmd Bool
  | publish (message : Message) : Cmd Unit
  | addJob (job : JobId) (delay : ℕ) : Cmd Unit
  | takeJob (job : JobId) : Cmd Bool
  | finishJob (job : JobId) (succeeded : Bool) : Cmd Unit
  | upsertRideDoc (rideId : RideId) (fields : RideHash) (notifiedDrivers : List DriverId)
      (timeline : List TimelineEvent) : Cmd Unit
  | upsertDriverDoc (driverId : DriverId) (doc : DriverDoc) : Cmd Unit
  | updateDriverDocStatus (driverId : DriverId) (status : DriverStatus) : Cmd Unit

/-- `attempts` of the queues' default job options. -/
def maxAttempts : ℕ := 5

/-- `Queue.add`: nothing happens when the job id is already known. -/
def addJob (job : JobId) (delay : ℕ) (s : Store) : Store :=
  match s.jobs job with
  | some _ => s
  | none => { s with jobs := put s.jobs job (some (.waiting (s.clock + delay) 0)) }

/-- A worker picks the job up, once its delay is over. -/
def takeJob (job : JobId) (s : Store) : Bool × Store :=
  match s.jobs job with
  | some (.waiting readyAt attemptsMade) =>
    if readyAt ≤ s.clock then (true, { s with jobs := put s.jobs job (some (.active attemptsMade)) })
    else (false, s)
  | _ => (false, s)

/-- The job's handler returned or threw; a job that threw is tried again `maxAttempts` times. -/
def finishJob (job : JobId) (succeeded : Bool) (s : Store) : Store :=
  match s.jobs job with
  | some (.active attemptsMade) =>
    let state : JobState :=
      if succeeded then .completed
      else if attemptsMade + 1 < maxAttempts then .waiting s.clock (attemptsMade + 1)
      else .failed
    { s with jobs := put s.jobs job (some state) }
  | _ => s

/-- One command of client `i`. -/
def exec (env : Env) : ⦃β : Type⦄ → ℕ → Cmd β → Store → β × Store
  | _, _, .hgetallRide r, s => (s.ride r, s)
  | _, _, .lrangeTimeline r, s => (s.rideTimeline r, s)
  | _, _, .smembersNotified r, s => (s.rideNotifiedDrivers r, s)
  | _, _, .hgetallResponses r, s => (s.rideResponses r, s)
  | _, _, .smembersActiveRides, s => (s.activeRides, s)
  | _, _, .getCustomerActiveRide c, s => (s.customerActiveRide c, s)
  | _, _, .hgetallDriver d, s => (s.driverHash d, s)
  | _, _, .existsDriver d, s => ((s.driverHash d).status.isSome, s)
  | _, _, .getDriverActiveRide d, s => (s.driverActiveRide d, s)
  | _, _, .getReservation d, s => ((s.locks (.reservation d)).map Lease.token, s)
  | _, _, .existsHeartbeat d, s => ((s.driverHeartbeat d).isSome, s)
  | _, _, .pttlRejectCooldown d, s => (match s.rejectCooldown d with | some t => t - s.clock | none => 0, s)
  | _, _, .smembersPending d, s => (s.driverPendingDispatches d, s)
  | _, _, .smembersOnline, s => (s.driverSet .online, s)
  | _, _, .geosearch origin radius count, s =>
    (YatriGo.geosearch env origin radius count s.availableDriversGeo, s)
  | _, _, .now, s => (s.clock, s)
  | _, i, .uuidv4, s => (⟨i, s.nextSeq⟩, { s with nextSeq := s.nextSeq + 1 })
  | _, _, .multi writes, s => ((), s.multi writes)
  | _, _, .setNX key token ttl, s =>
    match s.locks key with
    | some _ => (false, s)
    | none => (true, { s with locks := put s.locks key (some ⟨token, s.clock + ttl⟩) })
  | _, _, .evalReleaseLock key token, s => releaseLockScript key token s
  | _, _, .evalAcceptRide r d acceptedAt reservation, s => acceptRideScript r d acceptedAt reservation s
  | _, _, .setIdempotent key, s =>
    if s.idempotency key then (false, s)
    else (true, { s with idempotency := put s.idempotency key true })
  | _, _, .publish m, s => ((), { s with published := s.published ++ [m] })
  | _, _, .addJob j delay, s => ((), YatriGo.addJob j delay s)
  | _, _, .takeJob j, s => YatriGo.takeJob j s
  | _, _, .finishJob j ok, s => ((), YatriGo.finishJob j ok s)
  | _, _, .upsertRideDoc r fields notifiedDrivers timeline, s =>
    let createdAt := ((s.rideDocs r).map RideDoc.createdAt).getD s.clock
    ((), { s with
      rideDocs := put s.rideDocs r (some ⟨fields, notifiedDrivers, timeline, createdAt, s.clock⟩)
      rideDocIds := sadd r s.rideDocIds })
  | _, _, .upsertDriverDoc d doc, s =>
    ((), { s with driverDocs := put s.driverDocs d (some doc), driverDocIds := sadd d s.driverDocIds })
  | _, _, .updateDriverDocStatus d status, s =>
    ((), { s with driverDocs := put s.driverDocs d ((s.driverDocs d).map fun doc =>
      { doc with status := status }) })

end YatriGo
