import YatriGo.Proofs.Walk

/-! How the operations are put together. Locks are only taken for a section, and messages are only published
by `publish`; what follows from the sections and from `publish` follows for every operation. -/

namespace YatriGo
open Concurrent

/-- Commands that take or release no lock of an operation, and publish nothing. -/
def Cmd.plain : ⦃β : Type⦄ → Cmd β → Prop
  | _, .setNX key .. => ¬ key.mutex
  | _, .evalReleaseLock key _ => ¬ key.mutex
  | _, .setIdempotent _ => False
  | _, .publish _ => False
  | _, _ => True

/-- Programs made of plain commands, of `publish` and of lock sections. -/
inductive Orderly : {α : Type} → App α → Prop
  | ret {α : Type} (a : α) : Orderly (.ret a : App α)
  | throw {α : Type} (e : AppError) : Orderly (.throw e : App α)
  | bind {α β : Type} {p : App α} {f : α → App β} (hp : Orderly p) (hf : ∀ a, Orderly (f a)) : Orderly (p.bind f)
  | tryCatch {α : Type} {p : App α} {handle : AppError → App α} (hp : Orderly p) (hhandle : ∀ e, Orderly (handle e)) :
      Orderly (p.tryCatch handle)
  | command {α : Type} (c : Cmd α) (h : c.plain) : Orderly (redis c)
  | publish (room : Room) (key : PublishKey) : Orderly (YatriGo.publish room key)
  | withLock {α : Type} (key : LockKey) (ttlMs : ℕ) {fn : App α} (hkey : key.mutex) (hfn : Orderly fn) :
      Orderly (YatriGo.withLock key ttlMs fn)

variable {env : Env} {α β : Type} {p : App α} {r : RideId} {d : DriverId} {ride : RideHash} {now : Time}

section rules

theorem Orderly.plain {c : Cmd α} {f : α → App β} (h : c.plain) (hf : ∀ a, Orderly (f a)) :
    Orderly ((redis c).bind f) := (Orderly.command c h).bind hf

theorem Orderly.write (w : Write) : Orderly (YatriGo.write w) := .command _ trivial

theorem Orderly.forEach {f : β → App Unit} (hf : ∀ x, Orderly (f x)) (xs : List β) : Orderly (Prog.forEach f xs) := by
  induction xs with
  | nil => exact .ret ()
  | cons x xs ih => exact (hf x).bind fun _ => ih

theorem Orderly.retryLock {fn : App (Option α)} (h : Orderly fn) (n : ℕ) : Orderly (withRetryLock fn n) := by
  induction n with
  | zero => exact .ret none
  | succ n ih =>
    refine h.bind fun result => ?_
    cases result with
    | none => exact ih
    | some result => exact .ret _

theorem Orderly.releaseLock {token : Token} : Orderly (YatriGo.releaseLock (.reservation d) token) :=
  .plain (fun h => h) fun _ => .ret ()

theorem Orderly.rideLock {fn : App (Option RideHash)} (h : Orderly fn) : Orderly (withRideLock env r fn) := by
  refine (Orderly.withLock (.ride r) _ trivial h).bind fun result => ?_
  cases result.join with
  | none => exact .throw _
  | some ride => exact .ret ride

end rules

section parts

theorem orderly_addJob {job : JobId} {delay : ℕ} : Orderly (redis (.addJob job delay)) := .command _ trivial

theorem orderly_getRide : Orderly (getRide r) := .plain trivial fun _ => .ret _

theorem orderly_appendTimelineEvent {event : TimelineEventType} {actorType : ActorType} {actorId : Option ℕ} {atTime : Time} :
    Orderly (appendTimelineEvent r event actorType actorId atTime) := (Orderly.write _).bind fun _ => .write _

theorem orderly_updateRideHash {fields : List RideField} : Orderly (updateRideHash r fields) :=
  (Orderly.write _).bind fun _ => (Orderly.write _).bind fun _ => orderly_getRide

theorem orderly_enqueueDriverSync {reason : SyncReason} {suffix : Option Time} : Orderly (enqueueDriverSync d reason suffix) := by
  cases suffix with
  | some suffix => exact orderly_addJob
  | none => exact .plain trivial fun _ => orderly_addJob

theorem orderly_emitRideStatusUpdate : Orderly (emitRideStatusUpdate r ride) := by
  refine (Orderly.publish _ _).bind fun _ => ?_
  cases ride.driverId with
  | none => exact .ret ()
  | some driverId => exact .publish _ _

theorem orderly_releaseDriverAvailability {driverId : Option DriverId} :
    Orderly (releaseDriverAvailability driverId r now) := by
  cases driverId with
  | none => exact .ret ()
  | some driverId => exact .plain trivial fun _ => .plain trivial fun _ => .plain trivial fun _ => .command _ trivial

theorem orderly_releaseDriverReservations {batchId : Option BatchId} {driverIds : List DriverId} :
    Orderly (releaseDriverReservations r batchId driverIds) := by
  cases batchId with
  | none => exact .ret ()
  | some batchId => exact .forEach (fun _ => .releaseLock) _

theorem orderly_clearPendingMembership {driverIds : List DriverId} : Orderly (clearPendingMembership r driverIds) := by
  unfold clearPendingMembership
  split_ifs
  · exact .ret ()
  · exact .command _ trivial

theorem orderly_cleanupTerminalRideKeys : Orderly (cleanupTerminalRideKeys r ride now) := by
  have hbatch : Orderly (releaseBatchReservations r ride) := by
    unfold releaseBatchReservations
    cases ride.currentBatchId with
    | none => exact .ret ()
    | some batchId => exact .forEach (fun _ => .releaseLock) _
  have hdriver : Orderly (releaseRideDriver r ride now) := by
    unfold releaseRideDriver
    cases ride.driverId with
    | none => exact .ret ()
    | some driverId => exact orderly_releaseDriverAvailability.bind fun _ => orderly_enqueueDriverSync
  exact .plain trivial fun _ => .plain trivial fun _ => .plain trivial fun _ => hbatch.bind fun _ => hdriver

theorem orderly_cleanupGhostAvailability : Orderly (cleanupGhostAvailability d) :=
  .plain trivial fun _ => .command _ trivial

theorem orderly_isDriverReservable : Orderly (isDriverReservable env d) := by
  have hcooldown : Orderly (isDriverOnRejectCooldown env d) := by
    unfold isDriverOnRejectCooldown
    split_ifs
    · exact .ret false
    · exact .plain trivial fun _ => .ret _
  refine Orderly.bind (.plain trivial fun _ => .ret _) fun state => .plain trivial fun _ => .plain trivial fun _ =>
    .plain trivial fun heartbeatExists => hcooldown.bind fun _ => ?_
  cases state with
  | none => exact orderly_cleanupGhostAvailability.bind fun _ => .ret false
  | some state =>
    cases heartbeatExists with
    | true => exact .ret _
    | false => exact orderly_cleanupGhostAvailability.bind fun _ => .ret false

theorem orderly_applyRejectCooldown : Orderly (applyRejectCooldown env d) := by
  unfold applyRejectCooldown
  split_ifs
  · exact .ret ()
  · exact .write _

end parts

section operations

theorem orderly_createRide {c : CustomerId} {origin destination : Location} {metadata : Metadata} :
    Orderly (createRide env c origin destination metadata) :=
  .plain trivial fun _ => .plain trivial fun _ => .plain trivial fun _ => orderly_appendTimelineEvent.bind fun _ =>
    (Orderly.write _).bind fun _ => .plain trivial fun _ => (Orderly.publish _ _).bind fun _ => .plain trivial fun _ => .ret _

theorem orderly_requestRide {c : CustomerId} {origin destination : Location} {metadata : Metadata} :
    Orderly (requestRide env c origin destination metadata) := by
  have hexisting : ∀ active, Orderly (getExistingRide active) := fun active => by
    cases active with
    | none => exact .ret none
    | some active => exact orderly_getRide
  have hsection : Orderly (requestUnderLock env c origin destination metadata) := by
    refine .plain trivial fun active => (hexisting active).bind fun existing => ?_
    split_ifs
    · exact .throw _
    · exact orderly_createRide
  refine (Orderly.withLock (.customer c) _ trivial hsection).bind fun result => ?_
  cases result with
  | none => exact .throw _
  | some ride => exact .ret ride

theorem orderly_endBatch {batchId : BatchId} : Orderly (endBatch r ride batchId now) :=
  .plain trivial fun _ => .plain trivial fun _ => orderly_releaseDriverReservations.bind fun _ =>
    orderly_clearPendingMembership.bind fun _ => orderly_appendTimelineEvent

theorem orderly_startFirstDispatch : Orderly (startFirstDispatch env r ride now) := by
  refine orderly_updateRideHash.bind fun _ => orderly_getRide.bind fun snapshot => ?_
  cases snapshot with
  | none => exact .throw _
  | some ride =>
    exact orderly_appendTimelineEvent.bind fun _ => .plain trivial fun _ => orderly_emitRideStatusUpdate.bind fun _ => .ret _

theorem orderly_exhaustSearch : Orderly (exhaustSearch r ride now) := by
  refine orderly_updateRideHash.bind fun snapshot => ?_
  cases snapshot with
  | none => exact .throw _
  | some ride =>
    exact orderly_appendTimelineEvent.bind fun _ => orderly_cleanupTerminalRideKeys.bind fun _ => .plain trivial fun _ =>
      orderly_emitRideStatusUpdate.bind fun _ => .ret _

theorem orderly_expandSearch {nextRound : ℕ} {nextRadius : ℚ} :
    Orderly (expandSearch env r ride nextRound nextRadius now) := by
  refine orderly_updateRideHash.bind fun snapshot => ?_
  cases snapshot with
  | none => exact .throw _
  | some ride =>
    exact orderly_appendTimelineEvent.bind fun _ => .plain trivial fun _ => .plain trivial fun _ => .ret _

theorem orderly_sendBatch {batchId : BatchId} {batchDrivers : List DriverId} :
    Orderly (sendBatch env r ride batchId batchDrivers now) := by
  refine .plain trivial fun _ => orderly_getRide.bind fun snapshot => ?_
  cases snapshot with
  | none => exact .throw _
  | some ride =>
    exact orderly_appendTimelineEvent.bind fun _ => .plain trivial fun _ => .plain trivial fun _ =>
      (Orderly.forEach (fun _ => .publish _ _) _).bind fun _ => .ret _

theorem orderly_reserveLoop {batchId : BatchId} (candidates reserved : List DriverId) :
    Orderly (reserveLoop env r batchId candidates reserved) := by
  induction candidates generalizing reserved with
  | nil => exact .ret _
  | cons driverId rest ih =>
    refine orderly_isDriverReservable.bind fun reservable => ?_
    cases reservable with
    | false => exact ih _
    | true =>
      refine .plain (fun h => h) fun ok => ?_
      dsimp only
      generalize (if ok then reserved ++ [driverId] else reserved) = reserved'
      split_ifs
      · exact .ret _
      · exact ih _

theorem orderly_findDrivers {dispatchRound : ℕ} {searchRadiusKm : ℚ} :
    Orderly (findDrivers env r ride dispatchRound searchRadiusKm now) := by
  refine .plain trivial fun _ => .plain trivial fun found => ?_
  cases found with
  | none => exact .throw _
  | some candidates =>
    refine .plain trivial fun _ => (orderly_reserveLoop _ _).bind fun _ => ?_
    split_ifs
    · exact orderly_exhaustSearch
    · exact orderly_expandSearch
    · exact orderly_sendBatch

theorem orderly_continueDispatch {dispatchRound : ℕ} {searchRadiusKm : ℚ} :
    Orderly (continueDispatch env r ride dispatchRound searchRadiusKm now) := by
  unfold continueDispatch
  cases openBatch ride with
  | none => exact orderly_findDrivers
  | some batchId =>
    dsimp only
    split_ifs
    · exact .ret _
    · refine orderly_endBatch.bind fun _ => orderly_getRide.bind fun snapshot => ?_
      cases snapshot with
      | none => exact .throw _
      | some ride => exact orderly_findDrivers

theorem orderly_dispatchUnderLock : Orderly (dispatchUnderLock env r) := by
  refine orderly_getRide.bind fun read => ?_
  cases read with
  | none => exact .ret none
  | some read =>
    dsimp only
    split_ifs
    · exact .ret _
    · exact .plain trivial fun _ => orderly_startFirstDispatch.bind fun _ => orderly_continueDispatch
    · exact .plain trivial fun _ => (Orderly.ret _).bind fun _ => orderly_continueDispatch

theorem orderly_batchTimeoutUnderLock {batchId : BatchId} : Orderly (batchTimeoutUnderLock env r batchId) := by
  refine orderly_getRide.bind fun read => ?_
  cases read with
  | none => exact .ret none
  | some read =>
    dsimp only
    split_ifs
    · exact .ret _
    · refine .plain trivial fun _ => orderly_endBatch.bind fun _ => orderly_getRide.bind fun snapshot => ?_
      cases snapshot with
      | none => exact .throw _
      | some ride => exact .plain trivial fun _ => orderly_dispatchUnderLock

theorem orderly_rejectionUnderLock {reason : Response} : Orderly (rejectionUnderLock env r d reason) := by
  refine orderly_getRide.bind fun read => ?_
  cases read with
  | none => exact .ret none
  | some read =>
    dsimp only
    split_ifs
    · exact .ret _
    · refine .plain trivial fun now => .plain trivial fun responses => ?_
      split_ifs
      · exact .ret _
      · refine .plain trivial fun _ => orderly_applyRejectCooldown.bind fun _ =>
          orderly_releaseDriverReservations.bind fun _ => orderly_appendTimelineEvent.bind fun _ =>
          orderly_getRide.bind fun snapshot => ?_
        cases snapshot with
        | none => exact .throw _
        | some updated =>
          refine .plain trivial fun _ => ?_
          split_ifs
          · exact orderly_releaseDriverReservations.bind fun _ => orderly_dispatchUnderLock
          · exact .ret _

theorem orderly_handleDriverRejection {reason : Response} : Orderly (handleDriverRejection env r d reason) :=
  .rideLock orderly_rejectionUnderLock

theorem orderly_acceptRide : Orderly (acceptRide r d) := by
  refine orderly_getRide.bind fun preAcceptRide => ?_
  dsimp only
  refine Orderly.plain trivial fun acceptedAt => Orderly.plain trivial fun version => ?_
  split_ifs
  · exact .throw _
  · refine orderly_getRide.bind fun snapshot => ?_
    cases snapshot with
    | none => exact .throw _
    | some ride =>
      exact orderly_releaseDriverReservations.bind fun _ => orderly_clearPendingMembership.bind fun _ =>
        orderly_appendTimelineEvent.bind fun _ => .plain trivial fun _ => orderly_enqueueDriverSync.bind fun _ =>
        (Orderly.publish _ _).bind fun _ => orderly_emitRideStatusUpdate.bind fun _ => (Orderly.publish _ _).bind fun _ =>
        orderly_emitRideStatusUpdate.bind fun _ => (Orderly.forEach (fun _ => .publish _ _) _).bind fun _ => .ret _

theorem orderly_finishTransition {next : RideStatus} {notified : List DriverId} :
    Orderly (finishTransition r next ride notified now) := by
  have htell : Orderly (Prog.forEach (fun driverId => emitRideCancelledToDriver driverId r ride.version)
      (notified ++ ride.driverId.toList.filter (· ∉ notified))) := .forEach (fun _ => .publish _ _) _
  have hend : ∀ {p : App (Option RideHash)}, Orderly p → Orderly ((enqueueRideSync r ride.version).bind fun _ =>
      (notifyRideStatusUpdate r ride).bind fun _ => (emitRideStatusUpdate r ride).bind fun _ => p) :=
    fun hp => .plain trivial fun _ => orderly_emitRideStatusUpdate.bind fun _ => orderly_emitRideStatusUpdate.bind fun _ => hp
  simp only [finishTransition, Prog.bind_eq, Prog.pure_eq]
  split_ifs
  · exact orderly_cleanupTerminalRideKeys.bind fun _ => hend (htell.bind fun _ => .ret _)
  · exact orderly_cleanupTerminalRideKeys.bind fun _ => hend (.ret _)
  · exact hend (htell.bind fun _ => .ret _)
  · exact hend (.ret _)

theorem orderly_afterTransition {next : RideStatus} {options : TransitionOptions} :
    Orderly (afterTransition r next options now) := by
  have hread : Orderly (readNotifiedDrivers r next) := by
    unfold readNotifiedDrivers
    split_ifs
    · exact .command _ trivial
    · exact .ret _
  refine (Orderly.write _).bind fun _ => orderly_appendTimelineEvent.bind fun _ => orderly_getRide.bind fun snapshot =>
    hread.bind fun notified => ?_
  cases snapshot with
  | none => exact .throw _
  | some snapshot => exact orderly_finishTransition

theorem orderly_transitionRide {next : RideStatus} {options : TransitionOptions} :
    Orderly (transitionRide env r next options) := by
  have hassert : ∀ current, Orderly (assertTransition current next) := fun current => by
    unfold assertTransition
    split_ifs
    · exact .ret ()
    · exact .throw _
  have hsection : Orderly (transitionUnderLock env r next options) := by
    refine orderly_getRide.bind fun read => ?_
    cases read with
    | none => exact .throw _
    | some read =>
      dsimp only
      split_ifs
      · exact orderly_getRide
      · refine (hassert _).bind fun _ => ?_
        exact .plain trivial fun _ => (Orderly.write _).bind fun _ => orderly_afterTransition
  refine (Orderly.withLock (.ride r) _ trivial hsection).bind fun result => ?_
  cases result.join with
  | none => exact .throw _
  | some ride => exact .ret ride

theorem orderly_transitionByDriver {next : RideStatus} : Orderly (transitionByDriver env next r d) := by
  refine orderly_getRide.bind fun ride => ?_
  split_ifs
  · exact orderly_transitionRide
  · exact .throw _

theorem orderly_cancelRide {actorType : ActorType} {actorId : Option ℕ} {reason : String} :
    Orderly (cancelRide env r actorType actorId reason) := by
  refine orderly_getRide.bind fun ride => ?_
  cases ride with
  | none => exact .throw _
  | some ride =>
    dsimp only
    split_ifs
    · exact .ret ride
    · exact orderly_transitionRide

theorem orderly_requeueRideAfterDriverLoss : Orderly (requeueRideAfterDriverLoss env r d) := by
  have hrequeue : ∀ ride, Orderly (requeueRide env r d ride) := fun ride => by
    refine .plain trivial fun _ => orderly_releaseDriverAvailability.bind fun _ => .plain trivial fun _ =>
      orderly_appendTimelineEvent.bind fun _ => orderly_getRide.bind fun snapshot => ?_
    cases snapshot with
    | none => exact .throw _
    | some updated =>
      exact .plain trivial fun _ => orderly_emitRideStatusUpdate.bind fun _ => .plain trivial fun _ => .ret _
  have hsection : Orderly (requeueUnderLock env r d) := by
    refine orderly_getRide.bind fun read => ?_
    cases read with
    | none => exact .ret none
    | some read =>
      dsimp only
      split_ifs
      · exact .ret _
      · exact .ret _
      · exact hrequeue read
  refine (Orderly.withLock (.ride r) _ trivial hsection).bind fun result => ?_
  cases result.join with
  | none => exact .throw _
  | some ride => exact .ret ride

theorem orderly_persist {state : DriverState} : Orderly (persistDriverRealtimeState env d state) := .command _ trivial

theorem orderly_getDriverState : Orderly (getDriverState d) := .plain trivial fun _ => .ret _

theorem orderly_goOnline {lat lng : Option ℚ} {socketId : Option SocketId} : Orderly (goOnline env d lat lng socketId) := by
  refine (Orderly.retryLock (Orderly.withLock (.driver d) _ trivial ?_) 3).bind fun result => .plain trivial fun driverExists => ?_
  · exact orderly_getDriverState.bind fun _ => .plain trivial fun _ => .plain trivial fun _ => orderly_persist.bind fun _ => .ret _
  · split_ifs
    · exact .throw _
    · cases result with
      | none => exact .throw _
      | some result => exact orderly_enqueueDriverSync.bind fun _ => (Orderly.publish _ _).bind fun _ => .ret _

theorem orderly_heartbeat {lat lng : Option ℚ} {socketId : Option SocketId} : Orderly (heartbeat env d lat lng socketId) := by
  refine (Orderly.retryLock (Orderly.withLock (.driver d) _ trivial ?_) 3).bind fun result => ?_
  · refine orderly_getDriverState.bind fun existing => ?_
    cases existing with
    | none => exact .throw _
    | some existing =>
      dsimp only
      split_ifs
      · exact .ret _
      · exact .plain trivial fun _ => orderly_persist.bind fun _ => .ret _
  · cases result with
    | none => exact .throw _
    | some result => exact orderly_enqueueDriverSync.bind fun _ => .ret _

theorem orderly_goOffline : Orderly (goOffline env d) := by
  refine (Orderly.withLock (.driver d) _ trivial ?_).bind fun result => ?_
  · exact orderly_getDriverState.bind fun _ => .plain trivial fun _ => .plain trivial fun _ => .plain trivial fun _ =>
      .plain trivial fun _ => (Orderly.publish _ _).bind fun _ => .ret _
  · cases result with
    | none => exact .throw _
    | some result => exact .plain trivial fun _ => orderly_enqueueDriverSync.bind fun _ => .ret _

theorem orderly_restoreDriverSession {socketId : Option SocketId} : Orderly (restoreDriverSession env d socketId) := by
  refine (Orderly.withLock (.driver d) _ trivial ?_).bind fun result => ?_
  · refine orderly_getDriverState.bind fun existing => ?_
    cases existing with
    | none => exact .ret none
    | some existing =>
      dsimp only
      split_ifs
      · exact .ret none
      · exact .plain trivial fun _ => orderly_persist.bind fun _ => .ret _
  · cases result.join with
    | none => exact .ret none
    | some result => exact orderly_enqueueDriverSync.bind fun _ => .ret _

theorem orderly_scanStaleDriversLoop (ds : List DriverId) : Orderly (scanStaleDriversLoop env ds) := by
  induction ds with
  | nil => exact .ret []
  | cons driverId rest ih =>
    refine .plain trivial fun driverExists => ?_
    split_ifs
    · exact ih
    · exact orderly_goOffline.bind fun _ => .plain trivial fun _ => ih.bind fun _ => .ret _

theorem orderly_handleDriverDrop {active : Option RideId} {pending : List RideId} {reason : Response} :
    Orderly (handleDriverDrop env d active pending reason) := by
  refine (Orderly.forEach (fun _ => orderly_handleDriverRejection.bind fun _ => .ret ()) _).bind fun _ => ?_
  cases active with
  | none => exact .ret ()
  | some active =>
    refine orderly_getRide.bind fun ride => ?_
    cases ride with
    | none => exact .ret ()
    | some ride =>
      dsimp only
      split_ifs
      · exact .plain trivial fun _ => .publish _ _
      · exact .ret ()

theorem orderly_recoverRide : Orderly (recoverRide now r) := by
  refine orderly_getRide.bind fun ride => ?_
  cases ride with
  | none => exact .write _
  | some ride =>
    dsimp only
    split_ifs
    · exact .ret ()
    · cases ride.currentBatchId with
      | none => exact orderly_addJob
      | some batchId => exact orderly_addJob
    · cases ride.currentBatchId with
      | none => exact orderly_addJob
      | some batchId => exact .ret ()

theorem orderly_handleJob (job : JobId) : Orderly (handleJob env job) := by
  cases job with
  | dispatchStart rideId version reason =>
    exact ((Orderly.rideLock orderly_dispatchUnderLock).bind fun _ => .ret ()).tryCatch fun _ => .ret ()
  | dispatchTimeout rideId batchId => exact (Orderly.rideLock orderly_batchTimeoutUnderLock).bind fun _ => .ret ()
  | persistRide rideId version =>
    refine orderly_getRide.bind fun ride => ?_
    cases ride with
    | none => exact .ret ()
    | some ride => exact .plain trivial fun _ => .plain trivial fun _ => .command _ trivial
  | persistDriver driverId reason suffix =>
    refine orderly_getDriverState.bind fun state => ?_
    cases state with
    | none => exact .ret ()
    | some state => exact .command _ trivial

theorem orderly_work (job : JobId) : Orderly (work env job) := by
  refine .plain trivial fun taken => ?_
  split_ifs
  · exact (((orderly_handleJob job).bind fun _ => .ret true).tryCatch fun _ => .ret false).bind fun _ => .command _ trivial
  · exact .ret ()

/-- Every operation is orderly. -/
theorem orderly_code (op : Op) : Orderly (code env op) := by
  have hdiscard : ∀ {α : Type} {p : App α}, Orderly p → Orderly (discard p) := fun hp => hp.bind fun _ => .ret ()
  cases op with
  | requestRide c origin destination metadata => exact hdiscard orderly_requestRide
  | startDispatch r => exact hdiscard (.rideLock orderly_dispatchUnderLock)
  | handleBatchTimeout r b => exact hdiscard (.rideLock orderly_batchTimeoutUnderLock)
  | handleDriverRejection r d reason => exact hdiscard orderly_handleDriverRejection
  | acceptRide r d => exact hdiscard orderly_acceptRide
  | markDriverArriving r d => exact hdiscard orderly_transitionByDriver
  | startRide r d => exact hdiscard orderly_transitionByDriver
  | completeRide r d => exact hdiscard orderly_transitionByDriver
  | cancelRide r actorType actorId reason => exact hdiscard orderly_cancelRide
  | requeueRideAfterDriverLoss r d => exact hdiscard orderly_requeueRideAfterDriverLoss
  | goOnline d lat lng socketId => exact hdiscard orderly_goOnline
  | heartbeat d lat lng socketId => exact hdiscard orderly_heartbeat
  | goOffline d => exact hdiscard orderly_goOffline
  | goOfflineAndDrop d reason => exact orderly_goOffline.bind fun _ => orderly_handleDriverDrop
  | restoreDriverSession d socketId => exact hdiscard orderly_restoreDriverSession
  | scanStaleDriversAndRecover =>
    refine Orderly.bind (.plain trivial fun _ => orderly_scanStaleDriversLoop _) fun _ => ?_
    exact .forEach (fun _ => orderly_handleDriverDrop) _
  | recoverDispatchingRides => exact .plain trivial fun _ => .plain trivial fun _ => .forEach (fun _ => orderly_recoverRide) _
  | work job => exact orderly_work job

end operations

theorem Orderly.keeps {σ ι : Type} {V : View Cmd σ} {P : ι → σ → Prop} (hstable : ∀ x, V.Stable (P x))
    (hplain : ∀ (β : Type) (c : Cmd β) x t, c.plain → P x t → V.assume c t → V.guar c t ∧ P x (V.exec c t).2)
    (hpublish : ∀ room key x, V.Keeps (P x) (YatriGo.publish room key))
    (hlock : ∀ (β : Type) (key : LockKey) ttlMs (fn : App β), key.mutex → (∀ x, V.Keeps (P x) fn) →
      ∀ x, V.Keeps (P x) (YatriGo.withLock key ttlMs fn))
    (hp : Orderly p) : ∀ x, V.Keeps (P x) p := by
  induction hp with
  | ret a => exact fun x => View.Keeps.ret (hstable x)
  | throw e => exact fun x => View.Keeps.throw (hstable x)
  | bind hp hf ihp ihf => exact fun x => (ihp x).bind fun a => ihf a x
  | tryCatch hp hhandle ihp ihhandle => exact fun x => (ihp x).tryCatch fun e => ihhandle e x
  | command c h => exact fun x => View.Keeps.command (hstable x) fun t ht ha => hplain _ c x t h ht ha
  | publish room key => exact hpublish room key
  | withLock key ttlMs hkey hfn ih => exact hlock _ key ttlMs _ hkey ih

end YatriGo
