import YatriGo.Redis.Frame
import YatriGo.System

/-! The commands that neither change a ride's hash nor touch its lock or its customer,
and the programs that perform no others. -/

namespace YatriGo
open Concurrent

/-- Locks of drivers: the driver lock itself and the reservations. -/
def LockKey.ofDriver : LockKey → Prop
  | .driver _ => True
  | .reservation _ => True
  | _ => False

/-- Writes to the queues around a ride: its timeline, pending sets, pools, cooldowns. -/
def Write.minor : Write → Prop
  | .expireRide _ => True
  | .rpushTimeline .. => True
  | .sremActiveRide _ => True
  | .srem .. => True
  | .zremGeo _ => True
  | .delHeartbeat _ => True
  | .sremPending .. => True
  | .delReservation _ => True
  | .setRejectCooldown .. => True
  | _ => False

inductive BackgroundWrites (env : Env) : List Write → Prop
  | minor {ws : List Write} (h : ∀ w ∈ ws, w.minor) : BackgroundWrites env ws
  | persist (driverId : DriverId) (state : DriverState) :
      BackgroundWrites env (persistWrites env driverId state)
  | offline (driverId : DriverId) (existing : Option DriverState) (activeRideId : Option RideId)
      (now : Time) : BackgroundWrites env (offlineWrites driverId existing activeRideId now)

def Cmd.background (env : Env) : ⦃β : Type⦄ → Cmd β → Prop
  | _, .multi ws => BackgroundWrites env ws
  | _, .setNX key .. => key.ofDriver
  | _, .evalReleaseLock key _ => key.ofDriver
  | _, .evalAcceptRide .. => False
  | _, _ => True

/-- Reads, minor writes, and the reservations of drivers. -/
def Cmd.minor : ⦃β : Type⦄ → Cmd β → Prop
  | _, .multi ws => ∀ w ∈ ws, w.minor
  | _, .setNX key .. => ∃ d, key = .reservation d
  | _, .evalReleaseLock key _ => ∃ d, key = .reservation d
  | _, .evalAcceptRide .. => False
  | _, _ => True

/-- Minor commands of an operation; jobs are taken by workers. -/
def Cmd.slight : ⦃β : Type⦄ → Cmd β → Prop
  | _, .takeJob _ => False
  | _, c => c.minor

/-- Writes to a driver, to a pool of drivers or to a timeline. -/
def Write.peripheral : Write → Prop
  | .createRide .. => False
  | .hsetRide .. => False
  | .saddNotified .. => False
  | .delNotified _ => False
  | .hsetResponse .. => False
  | .delResponses _ => False
  | .saddActiveRide _ => False
  | .setCustomerActiveRide .. => False
  | .delCustomerActiveRide _ => False
  | _ => True

theorem BackgroundWrites.peripheral {env : Env} {ws : List Write} (h : BackgroundWrites env ws) :
    ∀ w ∈ ws, w.peripheral := by
  intro w hw
  cases h with
  | minor h =>
    have hm := h w hw
    cases w <;> trivial
  | persist d state =>
    simp only [persistWrites] at hw
    cases w <;> first | trivial | (exfalso; revert hw; split_ifs <;> repeat' split) <;> simp
  | offline d existing a now =>
    simp only [offlineWrites, List.mem_cons, List.not_mem_nil, or_false] at hw
    rcases hw with rfl | rfl | rfl | rfl | rfl | rfl | rfl <;> trivial

theorem releaseWrites_peripheral {d : DriverId} {r : RideId} {hash : DriverHash}
    {active : Option RideId} {heartbeatExists : Bool} {now : Time} :
    ∀ w ∈ releaseWrites d r hash active heartbeatExists now, w.peripheral := by
  intro w hw
  simp only [releaseWrites] at hw
  cases w <;> first | trivial | (exfalso; revert hw; split_ifs <;> repeat' split) <;> simp

/-- The program performs minor commands only. -/
abbrev Minor {α : Type} (p : App α) : Prop := p.Uses Cmd.minor

/-- The program performs slight commands only. -/
abbrev Slight {α : Type} (p : App α) : Prop := p.Uses Cmd.slight

/-- The program performs background commands only. -/
abbrev Background (env : Env) {α : Type} (p : App α) : Prop := p.Uses (Cmd.background env)

variable {env : Env} {r : RideId} {d : DriverId}

theorem Minor.background {α : Type} {p : App α} (h : Minor p) : Background env p := by
  refine h.mono fun β c hc => ?_
  cases c with
  | multi ws => exact .minor hc
  | setNX key token ttl =>
    obtain ⟨d, rfl⟩ := hc
    trivial
  | evalReleaseLock key token =>
    obtain ⟨d, rfl⟩ := hc
    trivial
  | evalAcceptRide r d acceptedAt reservation => exact hc
  | _ => trivial

theorem Slight.minor {α : Type} {p : App α} (h : Slight p) : Minor p := by
  refine h.mono fun β c hc => ?_
  cases c with
  | takeJob job => exact hc.elim
  | _ => exact hc

theorem Slight.background {α : Type} {p : App α} (h : Slight p) : Background env p := h.minor.background

theorem slight_write {w : Write} (h : w.minor) : Slight (write w) := by
  refine ⟨fun v hv => ?_, fun _ => trivial⟩
  rw [List.mem_singleton.mp hv]
  exact h

theorem slight_releaseLock {token : Token} : Slight (releaseLock (.reservation d) token) :=
  ⟨⟨d, rfl⟩, fun _ => trivial⟩

theorem slight_enqueueDriverSync {reason : SyncReason} {suffix : Option Time} :
    Slight (enqueueDriverSync d reason suffix) := by
  cases suffix with
  | none => exact ⟨trivial, fun _ => ⟨trivial, fun _ => trivial⟩⟩
  | some suffix => exact ⟨trivial, fun _ => trivial⟩

theorem slight_enqueueRideSync {version : ℕ} : Slight (enqueueRideSync r version) :=
  ⟨trivial, fun _ => trivial⟩

theorem slight_enqueueDispatchStart {version delay : ℕ} {reason : StartReason} :
    Slight (enqueueDispatchStart r version delay reason) := ⟨trivial, fun _ => trivial⟩

theorem slight_enqueueBatchTimeout {batchId : BatchId} {delay : ℕ} :
    Slight (enqueueBatchTimeout r batchId delay) := ⟨trivial, fun _ => trivial⟩

theorem slight_publish {room : Room} {key : PublishKey} : Slight (publish room key) := by
  refine ⟨trivial, fun allowed => ?_⟩
  cases allowed with
  | false => trivial
  | true => exact ⟨trivial, fun _ => trivial⟩

theorem slight_emitRideStatusUpdate {ride : RideHash} :
    Slight (emitRideStatusUpdate r ride) := by
  refine slight_publish.bind fun _ => ?_
  cases ride.driverId with
  | none => trivial
  | some driverId => exact slight_publish

theorem slight_getRide : Slight (getRide r) := ⟨trivial, fun _ => trivial⟩

theorem slight_getDriverState : Slight (getDriverState d) := ⟨trivial, fun _ => trivial⟩

theorem slight_appendTimelineEvent {event : TimelineEventType} {actorType : ActorType}
    {actorId : Option ℕ} {atTime : Time} :
    Slight (appendTimelineEvent r event actorType actorId atTime) :=
  (slight_write (by trivial)).bind fun _ => slight_write (by trivial)

theorem slight_refreshRideRealtimeKeys : Slight (refreshRideRealtimeKeys r) :=
  slight_write trivial

theorem slight_assertTransition {s t : RideStatus} : Slight (assertTransition s t) := by
  unfold assertTransition
  split <;> trivial

theorem slight_readNotifiedDrivers {next : RideStatus} :
    Slight (readNotifiedDrivers r next) := by
  unfold readNotifiedDrivers
  split
  · exact ⟨trivial, fun _ => trivial⟩
  · trivial

theorem slight_cleanupGhostAvailability : Slight (cleanupGhostAvailability d) := by
  refine ⟨fun w hw => ?_, fun _ => ⟨trivial, fun _ => trivial⟩⟩
  simp only [List.mem_cons, List.not_mem_nil, or_false] at hw
  rcases hw with rfl | rfl | rfl | rfl | rfl | rfl <;> trivial

theorem slight_applyRejectCooldown : Slight (applyRejectCooldown env d) := by
  unfold applyRejectCooldown
  split
  · trivial
  · exact slight_write trivial

theorem slight_isDriverOnRejectCooldown : Slight (isDriverOnRejectCooldown env d) := by
  unfold isDriverOnRejectCooldown
  split
  · trivial
  · exact ⟨trivial, fun _ => trivial⟩

theorem slight_isDriverReservable : Slight (isDriverReservable env d) := by
  refine slight_getDriverState.bind fun driverState => ⟨trivial, fun activeRideId => ⟨trivial,
    fun reservation => ⟨trivial, fun heartbeatExists => ?_⟩⟩⟩
  refine slight_isDriverOnRejectCooldown.bind fun rejectCooldown => ?_
  cases driverState with
  | none => exact slight_cleanupGhostAvailability.bind fun _ => trivial
  | some driverState =>
    cases heartbeatExists with
    | true => trivial
    | false => exact slight_cleanupGhostAvailability.bind fun _ => trivial

theorem slight_releaseBatchReservations {ride : RideHash} :
    Slight (releaseBatchReservations r ride) := by
  unfold releaseBatchReservations
  cases ride.currentBatchId with
  | none => trivial
  | some batchId => exact .forEach fun _ _ => slight_releaseLock

theorem slight_releaseDriverReservations {batchId : Option BatchId} {ds : List DriverId} :
    Slight (releaseDriverReservations r batchId ds) := by
  cases batchId with
  | none => trivial
  | some batchId => exact .forEach fun _ _ => slight_releaseLock

theorem slight_clearPendingMembership {ds : List DriverId} :
    Slight (clearPendingMembership r ds) := by
  unfold clearPendingMembership
  split
  · trivial
  · refine ⟨fun w hw => ?_, fun _ => trivial⟩
    obtain ⟨d, -, rfl⟩ := List.mem_map.mp hw
    trivial

theorem slight_getNearestAvailableDrivers {origin : Location} {radiusKm : ℚ} {count : ℕ} :
    Slight (getNearestAvailableDrivers origin radiusKm count) := by
  refine ⟨trivial, fun found => ?_⟩
  cases found with
  | none => trivial
  | some drivers => trivial

theorem slight_reserveLoop {batchId : BatchId} (ds reserved : List DriverId) :
    Slight (reserveLoop env r batchId ds reserved) := by
  induction ds generalizing reserved with
  | nil => trivial
  | cons d ds ih =>
    refine slight_isDriverReservable.bind fun reservable => ?_
    cases reservable with
    | false => exact ih reserved
    | true =>
      refine ⟨⟨d, rfl⟩, fun ok => ?_⟩
      generalize hreserved : (if ok = true then reserved ++ [d] else reserved) = next
      simp only [Prog.ret_bind, hreserved]
      split
      · trivial
      · exact ih next

theorem slight_recoverRide {now : Time} : Slight (recoverRide now r) := by
  refine slight_getRide.bind fun ride => ?_
  cases ride with
  | none => exact slight_write trivial
  | some ride =>
    dsimp only
    split
    · trivial
    · cases ride.currentBatchId with
      | none => exact slight_enqueueDispatchStart
      | some batchId =>
        dsimp only
        split
        · exact slight_enqueueBatchTimeout
        · trivial

theorem slight_recoverDispatchingRides : Slight recoverDispatchingRides :=
  ⟨trivial, fun _ => ⟨trivial, fun _ => .forEach fun _ _ => slight_recoverRide⟩⟩

theorem slight_syncRide : Slight (syncRide r) := by
  refine slight_getRide.bind fun ride => ?_
  cases ride with
  | none => trivial
  | some ride => exact ⟨trivial, fun _ => ⟨trivial, fun _ => ⟨trivial, fun _ => trivial⟩⟩⟩

theorem slight_syncDriver : Slight (syncDriver d) := by
  refine slight_getDriverState.bind fun driverState => ?_
  cases driverState with
  | none => trivial
  | some driverState => exact ⟨trivial, fun _ => trivial⟩

theorem slight_afterAccept {batchId : Option BatchId} {otherDrivers : List DriverId}
    {acceptedAt : Time} : Slight (afterAccept r d batchId otherDrivers acceptedAt) := by
  refine slight_getRide.bind fun ride => ?_
  cases ride with
  | none => trivial
  | some ride =>
    refine slight_releaseDriverReservations.bind fun _ => ?_
    refine slight_clearPendingMembership.bind fun _ => ?_
    refine slight_appendTimelineEvent.bind fun _ => ?_
    refine slight_enqueueRideSync.bind fun _ => ?_
    refine slight_enqueueDriverSync.bind fun _ => ?_
    refine slight_publish.bind fun _ => ?_
    refine slight_emitRideStatusUpdate.bind fun _ => ?_
    refine slight_publish.bind fun _ => ?_
    refine slight_emitRideStatusUpdate.bind fun _ => ?_
    exact Prog.Uses.bind (.forEach fun _ _ => slight_publish) fun _ => trivial

theorem background_releaseLock {key : LockKey} {token : Token} (h : key.ofDriver) :
    Background env (releaseLock key token) := ⟨h, fun _ => trivial⟩

theorem background_withLock {key : LockKey} {ttlMs : ℕ} {α : Type} {fn : App α} (h : key.ofDriver)
    (hf : Background env fn) : Background env (withLock key ttlMs fn) := by
  refine ⟨trivial, fun token => ⟨h, fun ok => ?_⟩⟩
  cases ok with
  | false => trivial
  | true => exact (hf.tryFinally (background_releaseLock h)).bind fun _ => trivial

theorem background_withRetryLock {α : Type} {fn : App (Option α)} (hf : Background env fn) (n : ℕ) :
    Background env (withRetryLock fn n) := by
  induction n with
  | zero => trivial
  | succ n ih =>
    refine hf.bind fun result => ?_
    cases result with
    | none => exact ih
    | some result => trivial

theorem background_persist {state : DriverState} :
    Background env (persistDriverRealtimeState env d state) :=
  ⟨.persist d state, fun _ => trivial⟩

theorem background_goOnline {lat lng : Option ℚ} {socketId : Option SocketId} :
    Background env (goOnline env d lat lng socketId) := by
  refine (background_withRetryLock (background_withLock (by trivial) ?_) 3).bind fun result => ?_
  · refine slight_getDriverState.background.bind fun existing => ?_
    exact ⟨trivial, fun activeRide => ⟨trivial, fun now => background_persist.bind fun _ => trivial⟩⟩
  · refine ⟨trivial, fun driverExists => ?_⟩
    cases driverExists with
    | false => trivial
    | true =>
      cases result with
      | none => trivial
      | some result =>
        exact slight_enqueueDriverSync.background.bind fun _ => slight_publish.background.bind fun _ => trivial

theorem background_heartbeat {lat lng : Option ℚ} {socketId : Option SocketId} :
    Background env (heartbeat env d lat lng socketId) := by
  refine (background_withRetryLock (background_withLock (by trivial) ?_) 3).bind fun result => ?_
  · refine slight_getDriverState.background.bind fun existing => ?_
    cases existing with
    | none => trivial
    | some existing =>
      dsimp only
      split
      · trivial
      · exact ⟨trivial, fun now => background_persist.bind fun _ => trivial⟩
  · cases result with
    | none => trivial
    | some result => exact slight_enqueueDriverSync.background.bind fun _ => trivial

theorem background_goOffline : Background env (goOffline env d) := by
  refine (background_withLock (by trivial) ?_).bind fun result => ?_
  · exact slight_getDriverState.background.bind fun existing => ⟨trivial, fun pendingRideIds => ⟨trivial,
      fun activeRide => ⟨trivial, fun now => ⟨.offline .., fun _ =>
        slight_publish.background.bind fun _ => trivial⟩⟩⟩⟩
  · cases result with
    | none => trivial
    | some result => exact ⟨trivial, fun now => slight_enqueueDriverSync.background.bind fun _ => trivial⟩

theorem background_restoreDriverSession {socketId : Option SocketId} :
    Background env (restoreDriverSession env d socketId) := by
  refine (background_withLock (by trivial) ?_).bind fun result => ?_
  · refine slight_getDriverState.background.bind fun existing => ?_
    cases existing with
    | none => trivial
    | some existing =>
      dsimp only
      split
      · trivial
      · exact ⟨trivial, fun now => background_persist.bind fun _ => trivial⟩
  · cases result.join with
    | none => trivial
    | some result => exact slight_enqueueDriverSync.background.bind fun _ => trivial

theorem background_scanStaleDriversLoop (ds : List DriverId) :
    Background env (scanStaleDriversLoop env ds) := by
  induction ds with
  | nil => trivial
  | cons d ds ih =>
    refine ⟨trivial, fun heartbeatExists => ?_⟩
    cases heartbeatExists with
    | true => exact ih
    | false =>
      exact background_goOffline.bind fun impact => ⟨trivial, fun _ => ih.bind fun _ => trivial⟩

theorem background_scanStaleDrivers : Background env (scanStaleDrivers env) :=
  ⟨trivial, background_scanStaleDriversLoop⟩

end YatriGo
