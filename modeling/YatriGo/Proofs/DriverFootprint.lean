import YatriGo.Proofs.DispatchFootprint

/-! What the operations do to one driver. Outside the sections under the driver's lock its hash is
written only when the driver is released from a ride, and only then is it put into a pool. -/

namespace YatriGo
open Concurrent

/-- The write leaves the hash of `d` alone and puts `d` into no pool. -/
def Write.elsewhere (d : DriverId) : Write → Prop
  | .hsetDriver d' _ => d' ≠ d
  | .sadd _ d' => d' ≠ d
  | .geoadd d' _ => d' ≠ d
  | _ => True

inductive ElsewhereWrites (d : DriverId) : List Write → Prop
  | elsewhere {ws : List Write} (h : ∀ w ∈ ws, w.elsewhere d) : ElsewhereWrites d ws
  | release (r : RideId) (hash : DriverHash) (active : Option RideId) (heartbeatExists : Bool) (now : Time) :
      ElsewhereWrites d (releaseWrites d r hash active heartbeatExists now)

/-- A command that no section under the lock of `d` is needed for. -/
def Cmd.elsewhere (d : DriverId) : ⦃β : Type⦄ → Cmd β → Prop
  | _, .multi ws => ElsewhereWrites d ws
  | _, .setNX key .. => key ≠ .driver d
  | _, .evalReleaseLock key _ => key ≠ .driver d
  | _, _ => True

abbrev Elsewhere (d : DriverId) {α : Type} (p : App α) : Prop := p.Uses (Cmd.elsewhere d)

variable {env : Env} {r : RideId} {d d' : DriverId} {α : Type} {p : App α} {ride : RideHash} {now : Time}

theorem Slight.elsewhere (h : Slight p) : Elsewhere d p := by
  refine h.mono fun β c hc => ?_
  cases c with
  | multi ws =>
    have hws : ∀ w ∈ ws, w.elsewhere d := by
      intro w hw
      have hminor : w.minor := hc w hw
      cases w <;> trivial
    exact .elsewhere hws
  | setNX key token ttl =>
    obtain ⟨d', rfl⟩ := hc
    rintro ⟨⟩
  | evalReleaseLock key token =>
    obtain ⟨d', rfl⟩ := hc
    rintro ⟨⟩
  | _ => trivial

theorem elsewhere_redis {c : Cmd α} (h : c.elsewhere d) : Elsewhere d (redis c) := ⟨h, fun _ => trivial⟩

theorem elsewhere_multi {ws : List Write} (h : ∀ w ∈ ws, w.elsewhere d) : Elsewhere d (redis (.multi ws)) :=
  elsewhere_redis (.elsewhere h)

theorem elsewhere_write {w : Write} (h : w.elsewhere d) : Elsewhere d (write w) := by
  refine elsewhere_multi fun v hv => ?_
  rw [List.mem_singleton.mp hv]
  exact h

theorem elsewhere_withLock {key : LockKey} {ttlMs : ℕ} {fn : App α} (hkey : key ≠ .driver d)
    (hf : Elsewhere d fn) : Elsewhere d (withLock key ttlMs fn) := by
  refine ⟨trivial, fun token => ⟨hkey, fun ok => ?_⟩⟩
  cases ok with
  | false => trivial
  | true =>
    have hrelease : Elsewhere d (releaseLock key (.uuid token)) := ⟨hkey, fun _ => trivial⟩
    exact (hf.tryFinally hrelease).bind fun _ => trivial

section rides

theorem elsewhere_withRideLock {fn : App (Option RideHash)} (hf : Elsewhere d fn) :
    Elsewhere d (withRideLock env r fn) := by
  have hkey : LockKey.ride r ≠ .driver d := by rintro ⟨⟩
  refine (elsewhere_withLock hkey hf).bind fun result => ?_
  cases result.join <;> trivial

theorem elsewhere_updateRideHash {fields : List RideField} : Elsewhere d (updateRideHash r fields) := by
  have hwrite : Elsewhere d (write (.hsetRide r fields)) := elsewhere_write trivial
  refine hwrite.bind fun _ => ?_
  exact slight_refreshRideRealtimeKeys.elsewhere.bind fun _ => slight_getRide.elsewhere

/-- A release of another driver writes nothing of `d`. -/
theorem releaseWrites_elsewhere (hne : d' ≠ d) {hash : DriverHash} {active : Option RideId}
    {heartbeatExists : Bool} : ∀ w ∈ releaseWrites d' r hash active heartbeatExists now, w.elsewhere d := by
  intro w hw
  simp only [releaseWrites, List.mem_append] at hw
  rcases hw with (hw | hw) | hw
  · simp only [List.mem_cons, List.not_mem_nil, or_false] at hw
    rcases hw with rfl | rfl <;> trivial
  · split_ifs at hw
    · rw [List.mem_singleton.mp hw]
      trivial
    · cases hw
  · split_ifs at hw
    · rw [List.mem_singleton.mp hw]
      exact hne
    · simp only [List.mem_append, List.mem_cons, List.not_mem_nil, or_false] at hw
      rcases hw with (rfl | rfl | rfl) | hw
      · exact hne
      · exact hne
      · exact hne
      · split at hw
        · rw [List.mem_singleton.mp hw]
          exact hne
        · cases hw

theorem elsewhere_releaseDriverAvailability {driverId : Option DriverId} :
    Elsewhere d (releaseDriverAvailability driverId r now) := by
  cases driverId with
  | none => trivial
  | some d' =>
    refine ⟨trivial, fun hash => ⟨trivial, fun active => ⟨trivial, fun heartbeatExists => ?_⟩⟩⟩
    rcases eq_or_ne d' d with rfl | hne
    · exact elsewhere_redis (.release r hash active heartbeatExists now)
    · exact elsewhere_multi (releaseWrites_elsewhere hne)

theorem elsewhere_cleanupTerminalRideKeys : Elsewhere d (cleanupTerminalRideKeys r ride now) := by
  refine ⟨trivial, fun notifiedDrivers => ⟨trivial, fun current => ?_⟩⟩
  have hcleanup : ∀ w ∈ cleanupWrites r ride.customerId notifiedDrivers current, w.elsewhere d := by
    intro w hw
    simp only [cleanupWrites] at hw
    cases w <;> first | trivial | (exfalso; revert hw; split_ifs <;> simp)
  refine (elsewhere_multi hcleanup).bind fun _ => slight_releaseBatchReservations.elsewhere.bind fun _ => ?_
  unfold releaseRideDriver
  cases ride.driverId with
  | none => trivial
  | some d' =>
    exact elsewhere_releaseDriverAvailability.bind fun _ => slight_enqueueDriverSync.elsewhere

theorem elsewhere_finishTransition {next : RideStatus} {ds : List DriverId} :
    Elsewhere d (finishTransition r next ride ds now) := by
  have htell : Slight (Prog.forEach (fun d => emitRideCancelledToDriver d r ride.version)
      (ds ++ ride.driverId.toList.filter (· ∉ ds))) := .forEach fun _ _ => slight_publish
  have hend : ∀ p : App (Option RideHash), Slight p → Elsewhere d
      ((enqueueRideSync r ride.version).bind fun _ => (notifyRideStatusUpdate r ride).bind fun _ =>
        (emitRideStatusUpdate r ride).bind fun _ => p) := by
    intro p hp
    refine Slight.elsewhere (slight_enqueueRideSync.bind fun _ => ?_)
    exact slight_emitRideStatusUpdate.bind fun _ => slight_emitRideStatusUpdate.bind fun _ => hp
  simp only [finishTransition, Prog.bind_eq, Prog.pure_eq]
  split_ifs
  · exact elsewhere_cleanupTerminalRideKeys.bind fun _ => hend _ (htell.bind fun _ => trivial)
  · exact elsewhere_cleanupTerminalRideKeys.bind fun _ => hend _ trivial
  · exact hend _ (htell.bind fun _ => trivial)
  · exact hend _ trivial

theorem elsewhere_transitionRide {next : RideStatus} {options : TransitionOptions} :
    Elsewhere d (transitionRide env r next options) := by
  have hlocked : Elsewhere d (transitionUnderLock env r next options) := by
    refine slight_getRide.elsewhere.bind fun ride => ?_
    cases ride with
    | none => trivial
    | some ride =>
      dsimp only
      split_ifs
      · exact slight_getRide.elsewhere
      · refine slight_assertTransition.elsewhere.bind fun _ => ⟨trivial, fun now => ?_⟩
        have hupdate : Elsewhere d (write (.hsetRide r (transitionFields env ride next options now))) :=
          elsewhere_write trivial
        refine hupdate.bind fun _ => slight_refreshRideRealtimeKeys.elsewhere.bind fun _ => ?_
        refine slight_appendTimelineEvent.elsewhere.bind fun _ => ?_
        refine slight_getRide.elsewhere.bind fun snapshot => ?_
        refine slight_readNotifiedDrivers.elsewhere.bind fun notifiedDrivers => ?_
        cases snapshot with
        | none => trivial
        | some snapshot => exact elsewhere_finishTransition
  have hkey : LockKey.ride r ≠ .driver d := by rintro ⟨⟩
  refine (elsewhere_withLock hkey hlocked).bind fun result => ?_
  cases result.join <;> trivial

theorem elsewhere_cancelRide {actorType : ActorType} {actorId : Option ℕ} {reason : String} :
    Elsewhere d (cancelRide env r actorType actorId reason) := by
  refine slight_getRide.elsewhere.bind fun ride => ?_
  cases ride with
  | none => trivial
  | some ride =>
    dsimp only
    split_ifs
    · trivial
    · exact elsewhere_transitionRide

theorem elsewhere_transitionByDriver {next : RideStatus} : Elsewhere d (transitionByDriver env next r d') := by
  refine slight_getRide.elsewhere.bind fun ride => ?_
  split_ifs
  · exact elsewhere_transitionRide
  · trivial

theorem elsewhere_requeueRideAfterDriverLoss : Elsewhere d (requeueRideAfterDriverLoss env r d') := by
  have hlocked : Elsewhere d (requeueUnderLock env r d') := by
    refine slight_getRide.elsewhere.bind fun ride => ?_
    cases ride with
    | none => trivial
    | some ride =>
      dsimp only
      split_ifs
      · trivial
      · trivial
      · refine ⟨trivial, fun now => elsewhere_releaseDriverAvailability.bind fun _ => ?_⟩
        have hmulti : ∀ w ∈ [Write.delNotified r, .delResponses r, .hsetRide r (requeueFields env ride now),
            .expireRide r], w.elsewhere d := by
          intro w hw
          simp only [List.mem_cons, List.not_mem_nil, or_false] at hw
          rcases hw with rfl | rfl | rfl | rfl <;> trivial
        refine (elsewhere_multi hmulti).bind fun _ => slight_appendTimelineEvent.elsewhere.bind fun _ => ?_
        refine slight_getRide.elsewhere.bind fun updated => ?_
        cases updated with
        | none => trivial
        | some updated =>
          refine Slight.elsewhere (slight_enqueueRideSync.bind fun _ => ?_)
          exact slight_emitRideStatusUpdate.bind fun _ => slight_enqueueDispatchStart.bind fun _ => trivial
  have hkey : LockKey.ride r ≠ .driver d := by rintro ⟨⟩
  refine (elsewhere_withLock hkey hlocked).bind fun result => ?_
  cases result.join <;> trivial

theorem elsewhere_requestRide {c : CustomerId} {origin destination : Location} {metadata : Metadata} :
    Elsewhere d (requestRide env c origin destination metadata) := by
  have hcreate : Elsewhere d (createRide env c origin destination metadata) := by
    refine ⟨trivial, fun now => ⟨trivial, fun rideId => ?_⟩⟩
    have hmulti : ∀ w ∈ [Write.createRide rideId (requestPayload env c origin destination metadata now),
        .setCustomerActiveRide c rideId, .saddActiveRide rideId, .expireRide rideId], w.elsewhere d := by
      intro w hw
      simp only [List.mem_cons, List.not_mem_nil, or_false] at hw
      rcases hw with rfl | rfl | rfl | rfl <;> trivial
    refine (elsewhere_multi hmulti).bind fun _ => Slight.elsewhere (slight_appendTimelineEvent.bind fun _ => ?_)
    refine slight_refreshRideRealtimeKeys.bind fun _ => slight_enqueueRideSync.bind fun _ => ?_
    exact slight_publish.bind fun _ => slight_enqueueDispatchStart.bind fun _ => trivial
  have hlocked : Elsewhere d (requestUnderLock env c origin destination metadata) := by
    refine ⟨trivial, fun activeRideId => ?_⟩
    have hexisting : Elsewhere d (getExistingRide activeRideId) := by
      cases activeRideId with
      | none => trivial
      | some rideId => exact slight_getRide.elsewhere
    refine hexisting.bind fun existingRide => ?_
    split_ifs
    · trivial
    · exact hcreate
  have hkey : LockKey.customer c ≠ .driver d := by rintro ⟨⟩
  refine (elsewhere_withLock hkey hlocked).bind fun result => ?_
  cases result <;> trivial

end rides

section dispatch

theorem elsewhere_endBatch {batchId : BatchId} : Elsewhere d (endBatch r ride batchId now) := by
  refine ⟨trivial, fun responses => ?_⟩
  have hmulti : ∀ w ∈ timeoutWrites r ride batchId responses now, w.elsewhere d := by
    intro w hw
    cases w <;> first | trivial | (exfalso; revert hw; simp [timeoutWrites])
  refine (elsewhere_multi hmulti).bind fun _ => Slight.elsewhere (slight_releaseDriverReservations.bind fun _ => ?_)
  exact slight_clearPendingMembership.bind fun _ => slight_appendTimelineEvent

theorem elsewhere_startFirstDispatch : Elsewhere d (startFirstDispatch env r ride now) := by
  refine elsewhere_updateRideHash.bind fun _ => slight_getRide.elsewhere.bind fun updated => ?_
  cases updated with
  | none => trivial
  | some updated =>
    refine Slight.elsewhere (slight_appendTimelineEvent.bind fun _ => slight_enqueueRideSync.bind fun _ => ?_)
    exact slight_emitRideStatusUpdate.bind fun _ => trivial

theorem elsewhere_exhaustSearch : Elsewhere d (exhaustSearch r ride now) := by
  refine elsewhere_updateRideHash.bind fun updated => ?_
  cases updated with
  | none => trivial
  | some updated =>
    refine slight_appendTimelineEvent.elsewhere.bind fun _ => elsewhere_cleanupTerminalRideKeys.bind fun _ => ?_
    refine Slight.elsewhere (slight_enqueueRideSync.bind fun _ => ?_)
    exact slight_emitRideStatusUpdate.bind fun _ => trivial

theorem elsewhere_expandSearch {nextRound : ℕ} {nextRadius : ℚ} :
    Elsewhere d (expandSearch env r ride nextRound nextRadius now) := by
  refine elsewhere_updateRideHash.bind fun updated => ?_
  cases updated with
  | none => trivial
  | some updated =>
    refine Slight.elsewhere (slight_appendTimelineEvent.bind fun _ => slight_enqueueRideSync.bind fun _ => ?_)
    exact slight_enqueueDispatchStart.bind fun _ => trivial

theorem elsewhere_sendBatch {batchId : BatchId} {batchDrivers : List DriverId} :
    Elsewhere d (sendBatch env r ride batchId batchDrivers now) := by
  have hmulti : ∀ w ∈ batchWrites r ride batchId batchDrivers (now + env.dispatch.responseTtlMs) now,
      w.elsewhere d := by
    intro w hw
    cases w <;> first | trivial | (exfalso; revert hw; simp [batchWrites])
  refine (elsewhere_multi hmulti).bind fun _ => slight_getRide.elsewhere.bind fun updated => ?_
  cases updated with
  | none => trivial
  | some updated =>
    refine Slight.elsewhere (slight_appendTimelineEvent.bind fun _ => slight_enqueueRideSync.bind fun _ => ?_)
    refine slight_enqueueBatchTimeout.bind fun _ => ?_
    exact Prog.Uses.bind (.forEach fun _ _ => slight_publish) fun _ => trivial

theorem elsewhere_findDrivers {dispatchRound : ℕ} {searchRadiusKm : ℚ} :
    Elsewhere d (findDrivers env r ride dispatchRound searchRadiusKm now) := by
  refine ⟨trivial, fun notifiedDrivers => ?_⟩
  refine slight_getNearestAvailableDrivers.elsewhere.bind fun candidates => ⟨trivial, fun batchId => ?_⟩
  refine (slight_reserveLoop _ []).elsewhere.bind fun batchDrivers => ?_
  split_ifs
  · exact elsewhere_exhaustSearch
  · exact elsewhere_expandSearch
  · exact elsewhere_sendBatch

theorem elsewhere_dispatchUnderLock : Elsewhere d (dispatchUnderLock env r) := by
  have hcontinue : ∀ ride dispatchRound searchRadiusKm now,
      Elsewhere d (continueDispatch env r ride dispatchRound searchRadiusKm now) := by
    intro ride dispatchRound searchRadiusKm now
    unfold continueDispatch
    cases openBatch ride with
    | none => exact elsewhere_findDrivers
    | some batchId =>
      dsimp only
      split_ifs
      · trivial
      · refine elsewhere_endBatch.bind fun _ => slight_getRide.elsewhere.bind fun updated => ?_
        cases updated with
        | none => trivial
        | some updated => exact elsewhere_findDrivers
  refine slight_getRide.elsewhere.bind fun read => ?_
  cases read with
  | none => trivial
  | some read =>
    dsimp only
    split_ifs
    · trivial
    · exact ⟨trivial, fun now => elsewhere_startFirstDispatch.bind fun ride => hcontinue ..⟩
    · exact ⟨trivial, fun now => hcontinue ..⟩

theorem elsewhere_startDispatch : Elsewhere d (startDispatch env r) :=
  elsewhere_withRideLock elsewhere_dispatchUnderLock

theorem elsewhere_handleBatchTimeout {batchId : BatchId} : Elsewhere d (handleBatchTimeout env r batchId) := by
  refine elsewhere_withRideLock (slight_getRide.elsewhere.bind fun ride => ?_)
  cases ride with
  | none => trivial
  | some ride =>
    dsimp only
    split_ifs
    · trivial
    · refine ⟨trivial, fun now => elsewhere_endBatch.bind fun _ => slight_getRide.elsewhere.bind fun updated => ?_⟩
      cases updated with
      | none => trivial
      | some updated => exact slight_enqueueRideSync.elsewhere.bind fun _ => elsewhere_dispatchUnderLock

theorem elsewhere_rejectUnderLock {reason : Response} {responses : DriverId → Option Response} :
    Elsewhere d (rejectUnderLock env r d' reason ride now responses) := by
  have hmulti : ∀ w ∈ rejectWrites r ride d' reason (batchExhausted ride d' responses) now, w.elsewhere d := by
    intro w hw
    simp only [rejectWrites, List.mem_cons, List.not_mem_nil, or_false] at hw
    rcases hw with rfl | rfl | rfl <;> trivial
  refine (elsewhere_multi hmulti).bind fun _ => slight_applyRejectCooldown.elsewhere.bind fun _ => ?_
  refine slight_releaseDriverReservations.elsewhere.bind fun _ => ?_
  refine slight_appendTimelineEvent.elsewhere.bind fun _ => slight_getRide.elsewhere.bind fun updated => ?_
  cases updated with
  | none => trivial
  | some updated =>
    refine slight_enqueueRideSync.elsewhere.bind fun _ => ?_
    split_ifs
    · exact slight_releaseDriverReservations.elsewhere.bind fun _ => elsewhere_dispatchUnderLock
    · trivial

theorem elsewhere_handleDriverRejection {reason : Response} :
    Elsewhere d (handleDriverRejection env r d' reason) := by
  refine elsewhere_withRideLock (slight_getRide.elsewhere.bind fun ride => ?_)
  cases ride with
  | none => trivial
  | some ride =>
    dsimp only
    split_ifs
    · trivial
    · refine ⟨trivial, fun now => ⟨trivial, fun responses => ?_⟩⟩
      show Elsewhere d (if ignoresRejection (responses d') then .ret (some ride)
        else rejectUnderLock env r d' reason ride now responses)
      split_ifs
      · trivial
      · exact elsewhere_rejectUnderLock

theorem elsewhere_acceptRide : Elsewhere d (acceptRide r d') := by
  refine slight_getRide.elsewhere.bind fun preAcceptRide => ⟨trivial, fun acceptedAt => ⟨trivial, fun version => ?_⟩⟩
  simp only [Prog.ret_bind]
  split_ifs
  · trivial
  · exact slight_afterAccept.elsewhere

theorem elsewhere_handleDriverDrop {activeRideId : Option RideId} {pendingRideIds : List RideId}
    {reason : Response} : Elsewhere d (handleDriverDrop env d' activeRideId pendingRideIds reason) := by
  have hpending : Elsewhere d (Prog.forEach (fun r => discard (handleDriverRejection env r d' reason))
      pendingRideIds) := .forEach fun r _ => elsewhere_handleDriverRejection.bind fun _ => Prog.uses_ret ()
  refine Prog.Uses.bind hpending fun _ => ?_
  cases activeRideId with
  | none => trivial
  | some activeRideId =>
    refine slight_getRide.elsewhere.bind fun ride => ?_
    cases ride with
    | none => trivial
    | some ride =>
      dsimp only
      split_ifs
      · exact ⟨trivial, fun now => slight_publish.elsewhere⟩
      · trivial

theorem elsewhere_work {job : JobId} : Elsewhere d (work env job) := by
  have hjob : Elsewhere d (handleJob env job) := by
    cases job with
    | dispatchStart r version reason =>
      have hstart : Elsewhere d (discard (startDispatch env r)) := elsewhere_startDispatch.bind fun _ => trivial
      exact hstart.tryCatch fun _ => trivial
    | dispatchTimeout r batchId => exact elsewhere_handleBatchTimeout.bind fun _ => trivial
    | persistRide r version => exact slight_syncRide.elsewhere
    | persistDriver d reason suffix => exact slight_syncDriver.elsewhere
  refine ⟨trivial, fun taken => ?_⟩
  cases taken with
  | false => trivial
  | true =>
    have hrun : Elsewhere d (Prog.bind (handleJob env job) fun _ => (.ret true : App Bool)) :=
      hjob.bind fun _ => trivial
    refine (hrun.tryCatch fun _ => Prog.uses_ret false).bind fun succeeded => ?_
    exact elsewhere_redis (by trivial)

end dispatch

section drivers

variable {lat lng : Option ℚ} {socketId : Option SocketId}

theorem persistWrites_elsewhere (hne : d' ≠ d) {state : DriverState} :
    ∀ w ∈ persistWrites env d' state, w.elsewhere d := by
  intro w hw
  simp only [persistWrites, List.mem_append] at hw
  rcases hw with (hw | hw) | hw
  · simp only [List.mem_cons, List.not_mem_nil, or_false] at hw
    rcases hw with rfl | rfl | rfl
    · exact hne
    · exact hne
    · trivial
  · split_ifs at hw
    · rcases List.mem_append.mp hw with hw | hw
      · simp only [List.mem_cons, List.not_mem_nil, or_false] at hw
        rcases hw with rfl | rfl
        · exact hne
        · trivial
      · split at hw
        · rw [List.mem_singleton.mp hw]
          exact hne
        · cases hw
    · simp only [List.mem_cons, List.not_mem_nil, or_false] at hw
      rcases hw with rfl | rfl | rfl
      · trivial
      · trivial
      · exact hne
    · simp only [List.mem_cons, List.not_mem_nil, or_false] at hw
      rcases hw with rfl | rfl | rfl <;> trivial
  · split at hw
    · rw [List.mem_singleton.mp hw]
      trivial
    · rw [List.mem_singleton.mp hw]
      trivial

theorem offlineWrites_elsewhere (hne : d' ≠ d) {existing : Option DriverState} {activeRideId : Option RideId} :
    ∀ w ∈ offlineWrites d' existing activeRideId now, w.elsewhere d := by
  intro w hw
  simp only [offlineWrites, List.mem_cons, List.not_mem_nil, or_false] at hw
  rcases hw with rfl | rfl | rfl | rfl | rfl | rfl | rfl <;> trivial

theorem elsewhere_persist (hne : d' ≠ d) {state : DriverState} :
    Elsewhere d (persistDriverRealtimeState env d' state) := elsewhere_multi (persistWrites_elsewhere hne)

theorem driver_ne (hne : d' ≠ d) : LockKey.driver d' ≠ .driver d := by
  rintro ⟨⟩
  exact hne rfl

theorem elsewhere_withRetryLock {fn : App (Option α)} (hf : Elsewhere d fn) (n : ℕ) :
    Elsewhere d (withRetryLock fn n) := by
  induction n with
  | zero => trivial
  | succ n ih =>
    refine hf.bind fun result => ?_
    cases result with
    | none => exact ih
    | some result => trivial

theorem elsewhere_goOnline (hne : d' ≠ d) : Elsewhere d (goOnline env d' lat lng socketId) := by
  refine (elsewhere_withRetryLock (elsewhere_withLock (driver_ne hne) ?_) 3).bind fun result => ?_
  · refine slight_getDriverState.elsewhere.bind fun existing => ⟨trivial, fun activeRide => ⟨trivial, fun now => ?_⟩⟩
    exact (elsewhere_persist hne).bind fun _ => trivial
  · refine ⟨trivial, fun driverExists => ?_⟩
    cases driverExists with
    | false => trivial
    | true =>
      cases result with
      | none => trivial
      | some result =>
        exact Slight.elsewhere (slight_enqueueDriverSync.bind fun _ => slight_publish.bind fun _ => trivial)

theorem elsewhere_heartbeat (hne : d' ≠ d) : Elsewhere d (heartbeat env d' lat lng socketId) := by
  refine (elsewhere_withRetryLock (elsewhere_withLock (driver_ne hne) ?_) 3).bind fun result => ?_
  · refine slight_getDriverState.elsewhere.bind fun existing => ?_
    cases existing with
    | none => trivial
    | some existing =>
      dsimp only
      split_ifs
      · trivial
      · exact ⟨trivial, fun now => (elsewhere_persist hne).bind fun _ => trivial⟩
  · cases result with
    | none => trivial
    | some result => exact slight_enqueueDriverSync.elsewhere.bind fun _ => trivial

theorem elsewhere_restoreDriverSession (hne : d' ≠ d) : Elsewhere d (restoreDriverSession env d' socketId) := by
  refine (elsewhere_withLock (driver_ne hne) ?_).bind fun result => ?_
  · refine slight_getDriverState.elsewhere.bind fun existing => ?_
    cases existing with
    | none => trivial
    | some existing =>
      dsimp only
      split_ifs
      · trivial
      · exact ⟨trivial, fun now => (elsewhere_persist hne).bind fun _ => trivial⟩
  · cases result.join with
    | none => trivial
    | some result => exact slight_enqueueDriverSync.elsewhere.bind fun _ => trivial

theorem elsewhere_goOffline (hne : d' ≠ d) : Elsewhere d (goOffline env d') := by
  refine (elsewhere_withLock (driver_ne hne) ?_).bind fun result => ?_
  · refine slight_getDriverState.elsewhere.bind fun existing => ⟨trivial, fun pendingRideIds => ⟨trivial,
      fun activeRide => ⟨trivial, fun now => ?_⟩⟩⟩
    refine (elsewhere_multi (offlineWrites_elsewhere hne)).bind fun _ => ?_
    exact slight_publish.elsewhere.bind fun _ => trivial
  · cases result with
    | none => trivial
    | some result => exact ⟨trivial, fun now => slight_enqueueDriverSync.elsewhere.bind fun _ => trivial⟩

end drivers

end YatriGo
