import YatriGo.Concurrent.Tracking
import YatriGo.Proofs.RideContract

/-! An operation counts a ride's version on from what it read last. Every update of a ride's hash writes the version
that follows the one in the operation's last read of the ride, whatever Redis answers and whoever holds the lock. -/

namespace YatriGo
open Concurrent

/-- The version of each ride that an operation has read last, as long as it has not taken the ride's lock or updated
the ride since. -/
abbrev ReadVersions := RideId → Option ℕ

/-- The update writes the version after `v`. -/
def CountsUp (v : ℕ) (fields : List RideField) : Prop :=
  .version (v + 1) ∈ fields ∧ ∀ w, .version w ∈ fields → w = v + 1

def Write.countsOn (env : Env) (seen : ReadVersions) : Write → Prop
  | .createRide _ payload =>
    ∃ c origin destination metadata now, payload = requestPayload env c origin destination metadata now
  | .hsetRide r fields => ∃ v, seen r = some v ∧ CountsUp v fields
  | _ => True

def Write.updates (r : RideId) : Write → Bool
  | .hsetRide r' _ => r' = r
  | _ => false

def Cmd.countsOn (env : Env) : ⦃β : Type⦄ → Cmd β → ReadVersions → Prop
  | _, .multi ws, seen => ∀ w ∈ ws, w.countsOn env seen
  | _, _, _ => True

/-- What has been read last after the command has answered. -/
def Cmd.seenAfter : ⦃β : Type⦄ → Cmd β → β → ReadVersions → ReadVersions
  | _, .hgetallRide r, ride, seen => put seen r (if ride.status = none then none else some ride.version)
  | _, .setNX (.ride r) .., _, seen => put seen r none
  | _, .multi ws, _, seen => fun r => if ws.any (Write.updates r) then none else seen r
  | _, _, _, seen => seen

def lastReads (env : Env) : Tracker Cmd ReadVersions where
  next := Cmd.seenAfter
  needs := Cmd.countsOn env

/-- The program counts on from what it reads itself. -/
abbrev Counts (env : Env) {α : Type} (p : App α) : Prop := (lastReads env).Always p

/-- The program counts on when version `v` of the ride was read last before it. -/
def CountsFrom (env : Env) (r : RideId) (v : ℕ) {α : Type} (p : App α) : Prop :=
  ∀ seen : ReadVersions, seen r = some v → (lastReads env).Tracks p seen

/-- Commands that neither read nor write a ride's hash, nor take its lock. -/
def Cmd.overlooks : ⦃β : Type⦄ → Cmd β → Prop
  | _, .hgetallRide _ => False
  | _, .setNX key .. => key.ofDriver
  | _, .multi ws => ∀ w ∈ ws, w.peripheral
  | _, _ => True

/-- The program overlooks rides. -/
abbrev Overlooks {α : Type} (p : App α) : Prop := p.Uses Cmd.overlooks

variable {env : Env} {r : RideId} {d : DriverId} {s t : Store} {α β : Type} {p : App α} {f : α → App β} {ride : RideHash}
  {now : Time} {v : ℕ}

section overlooks

theorem Write.peripheral.updates {w : Write} (h : w.peripheral) : w.updates r = false := by
  cases w <;> first | exact h.elim | rfl

theorem Write.peripheral.countsOn {w : Write} {seen : ReadVersions} (h : w.peripheral) : w.countsOn env seen := by
  cases w <;> first | exact h.elim | trivial

theorem Cmd.overlooks.idle {c : Cmd β} (h : c.overlooks) : (lastReads env).Idle c := by
  intro seen
  cases c with
  | hgetallRide r => exact h.elim
  | multi ws =>
    refine ⟨fun w hw => (h w hw).countsOn, fun _ => funext fun r => if_neg ?_⟩
    rw [Bool.not_eq_true, List.any_eq_false]
    intro w hw
    rw [(h w hw).updates]
    exact Bool.false_ne_true
  | setNX key token ttl =>
    cases key with
    | driver d => exact ⟨trivial, fun _ => rfl⟩
    | reservation d => exact ⟨trivial, fun _ => rfl⟩
    | _ => exact h.elim
  | _ => exact ⟨trivial, fun _ => rfl⟩

theorem Overlooks.idle (h : Overlooks p) : p.Uses (lastReads env).Idle := h.mono fun _ _ hc => Cmd.overlooks.idle hc

theorem overlooks_redis {c : Cmd α} (h : c.overlooks) : Overlooks (redis c) := ⟨h, fun _ => trivial⟩

theorem overlooks_write {w : Write} (h : w.peripheral) : Overlooks (write w) := by
  refine overlooks_redis fun w' hw' => ?_
  rw [List.mem_singleton.mp hw']
  exact h

theorem overlooks_appendTimelineEvent {event : TimelineEventType} {actorType : ActorType} {actorId : Option ℕ} {atTime : Time} :
    Overlooks (appendTimelineEvent r event actorType actorId atTime) :=
  (overlooks_write (by trivial)).bind fun _ => overlooks_write (by trivial)

theorem overlooks_assertTransition {current next : RideStatus} : Overlooks (assertTransition current next) := by
  unfold assertTransition
  split_ifs <;> trivial

theorem overlooks_publish {room : Room} {key : PublishKey} : Overlooks (publish room key) := by
  refine ⟨trivial, fun allowed => ?_⟩
  cases allowed with
  | false => trivial
  | true => exact ⟨trivial, fun _ => trivial⟩

theorem overlooks_emitRideStatusUpdate : Overlooks (emitRideStatusUpdate r ride) := by
  refine overlooks_publish.bind fun _ => ?_
  cases ride.driverId with
  | none => trivial
  | some driverId => exact overlooks_publish

theorem overlooks_releaseDriverAvailability {driverId : Option DriverId} :
    Overlooks (releaseDriverAvailability driverId r now) := by
  cases driverId with
  | none => trivial
  | some d =>
    exact ⟨trivial, fun hash => ⟨trivial, fun active => ⟨trivial, fun heartbeatExists =>
      ⟨releaseWrites_peripheral, fun _ => trivial⟩⟩⟩⟩

theorem overlooks_isDriverReservable : Overlooks (isDriverReservable env d) := by
  have hghost : Overlooks (cleanupGhostAvailability d) := by
    refine ⟨fun w hw => ?_, fun _ => ⟨trivial, fun _ => trivial⟩⟩
    simp only [List.mem_cons, List.not_mem_nil, or_false] at hw
    rcases hw with rfl | rfl | rfl | rfl | rfl | rfl <;> trivial
  have hcooldown : Overlooks (isDriverOnRejectCooldown env d) := by
    unfold isDriverOnRejectCooldown
    split_ifs
    · trivial
    · exact ⟨trivial, fun _ => trivial⟩
  refine ⟨trivial, fun hash => ⟨trivial, fun _ => ⟨trivial, fun _ => ⟨trivial, fun alive => hcooldown.bind fun _ => ?_⟩⟩⟩⟩
  cases toDriverSnapshot hash with
  | none => exact hghost.bind fun _ => trivial
  | some state =>
    cases alive with
    | true => trivial
    | false => exact hghost.bind fun _ => trivial

theorem overlooks_getNearestAvailableDrivers {origin : Location} {radiusKm : ℚ} {count : ℕ} :
    Overlooks (getNearestAvailableDrivers origin radiusKm count) := by
  refine ⟨trivial, fun found => ?_⟩
  cases found with
  | none => trivial
  | some drivers => trivial

theorem overlooks_reserveLoop {batchId : BatchId} (candidates reserved : List DriverId) :
    Overlooks (reserveLoop env r batchId candidates reserved) := by
  induction candidates generalizing reserved with
  | nil => trivial
  | cons driverId rest ih =>
    refine overlooks_isDriverReservable.bind fun reservable => ?_
    cases reservable with
    | false => exact ih _
    | true =>
      refine ⟨trivial, fun ok => ?_⟩
      simp only [Prog.ret_bind]
      generalize (if ok then reserved ++ [driverId] else reserved) = reserved'
      split_ifs
      · trivial
      · exact ih _

end overlooks

section rules

theorem counts_ret {a : α} : Counts env (.ret a : App α) := Tracker.Always.ret

theorem counts_throw {e : AppError} : Counts env (.throw e : App α) := Tracker.Always.throw

theorem Counts.bind (hp : Counts env p) (hf : ∀ a, Counts env (f a)) : Counts env (p.bind f) := Tracker.Always.bind hp hf

theorem Counts.known (hp : Counts env p) : CountsFrom env r v p := fun seen _ => hp seen

theorem CountsFrom.bind (hp : CountsFrom env r v p) (hf : ∀ a, Counts env (f a)) : CountsFrom env r v (p.bind f) :=
  fun seen h => Tracker.Tracks.bind (hp seen h) hf

theorem CountsFrom.after (hp : Overlooks p) (hf : ∀ a, CountsFrom env r v (f a)) : CountsFrom env r v (p.bind f) :=
  fun seen h => Tracker.Tracks.after hp.idle fun a => hf a seen h

theorem Background.counts (hp : Background env p) : Counts env p := by
  refine Tracker.Always.of_uses (fun β c seen hc => ?_) hp
  cases c with
  | multi ws => exact fun w hw => (BackgroundWrites.peripheral hc w hw).countsOn
  | _ => trivial

theorem counts_background (hp : ∀ env, Background env p) : Counts env p := (hp env).counts

theorem Slight.counts (hp : Slight p) : Counts env p := hp.background.counts

theorem Overlooks.counts (hp : Overlooks p) : Counts env p :=
  Tracker.Always.of_uses (fun _ _ seen hc => (Cmd.overlooks.idle hc seen).1) hp

theorem counts_redis {c : Cmd α} (hc : ∀ seen, c.countsOn env seen) : Counts env (redis c) :=
  fun seen => ⟨hc seen, fun _ => trivial⟩

theorem counts_getRide {f : Option RideHash → App β} (hnone : Counts env (f none))
    (hsome : ∀ ride, CountsFrom env r ride.version (f (some ride))) : Counts env ((getRide r).bind f) := by
  intro seen
  refine ⟨trivial, fun (ride : RideHash) => ?_⟩
  show (lastReads env).Tracks (f (toRideSnapshot ride)) (put seen r (if ride.status = none then none else some ride.version))
  unfold toRideSnapshot
  split_ifs
  · exact hnone _
  · exact hsome ride _ put_self

theorem counts_withLock {key : LockKey} {ttlMs : ℕ} {fn : App α} (h : Counts env fn) :
    Counts env (withLock key ttlMs fn) := by
  have hrelease : ∀ token, Counts env (releaseLock key token) := fun token _ => ⟨trivial, fun _ => trivial⟩
  rw [withLock_eq]
  refine fun _ => ⟨trivial, fun u => ⟨trivial, fun ok => ?_⟩⟩
  cases ok with
  | false => trivial
  | true => exact (Tracker.Always.tryFinally h (hrelease _)).bind (fun _ => counts_ret) _

theorem counts_withRideLock {fn : App (Option RideHash)} (h : Counts env fn) : Counts env (withRideLock env r fn) := by
  refine (counts_withLock h).bind fun result => ?_
  cases result.join with
  | none => exact counts_throw
  | some ride => exact counts_ret

end rules

section updates

theorem counts_hset {pre post : List Write} {fields : List RideField} (hf : CountsUp v fields)
    (hw : ∀ w ∈ pre ++ post, ∀ seen, w.countsOn env seen) :
    CountsFrom env r v (redis (.multi (pre ++ .hsetRide r fields :: post))) := by
  refine fun seen hseen => ⟨fun w hmem => ?_, fun _ => trivial⟩
  rcases List.mem_append.mp hmem with h | h
  · exact hw w (List.mem_append_left _ h) seen
  · rcases List.mem_cons.mp h with rfl | h
    · exact ⟨v, hseen, hf⟩
    · exact hw w (List.mem_append_right _ h) seen

theorem counts_write {fields : List RideField} (hf : CountsUp v fields) : CountsFrom env r v (write (.hsetRide r fields)) := by
  have hmulti : ∀ w ∈ ([] : List Write) ++ [], ∀ seen, w.countsOn env seen := fun w hw => by cases hw
  exact @counts_hset env r v [] [] fields hf hmulti

theorem counts_updateRideHash {fields : List RideField} {f : Option RideHash → App β} (hf : CountsUp v fields)
    (hnone : Counts env (f none)) (hsome : ∀ ride, CountsFrom env r ride.version (f (some ride))) :
    CountsFrom env r v ((updateRideHash r fields).bind f) := by
  simp only [updateRideHash, Prog.bind_eq, Prog.bind_assoc]
  refine (counts_write hf).bind fun _ => ?_
  exact slight_refreshRideRealtimeKeys.counts.bind fun _ => counts_getRide hnone hsome

theorem countsUp_start : CountsUp ride.version (startFields env ride now) :=
  ⟨by simp [startFields], by simp [startFields]⟩

theorem countsUp_clear : CountsUp ride.version (clearBatchFields ride now) :=
  ⟨by simp [clearBatchFields], by simp [clearBatchFields]⟩

theorem countsUp_exhaust : CountsUp ride.version (exhaustFields ride now) :=
  ⟨by simp [exhaustFields], by simp [exhaustFields]⟩

theorem countsUp_expand {round : ℕ} {radius : ℚ} :
    CountsUp ride.version (expandFields ride round radius now) :=
  ⟨by simp [expandFields], by simp [expandFields]⟩

theorem countsUp_batch {batchId : BatchId} {ds : List DriverId} {expiresAt : Time} :
    CountsUp ride.version (batchFields ride batchId ds expiresAt now) :=
  ⟨by simp [batchFields], by simp [batchFields]⟩

theorem countsUp_reject {exhausted : Bool} :
    CountsUp ride.version (rejectFields ride exhausted now) :=
  ⟨by simp [rejectFields], by simp [rejectFields]⟩

theorem countsUp_requeue : CountsUp ride.version (requeueFields env ride now) :=
  ⟨by simp [requeueFields], by simp [requeueFields]⟩

theorem countsUp_transition {next : RideStatus} {options : TransitionOptions} :
    CountsUp ride.version (transitionFields env ride next options now) := by
  refine ⟨by simp [transitionFields], fun w hw => ?_⟩
  simp only [transitionFields, completionFields, List.mem_append] at hw
  rcases hw with ((hw | hw) | hw) | hw
  · simpa using hw
  · cases hdriver : options.driverId <;> simp [hdriver] at hw
  · split_ifs at hw <;> simp at hw
  · split_ifs at hw <;> simp at hw

/-- Every update of a ride counts on from the hash that it was computed from. -/
theorem RideWrite.countsUp {fields : List RideField} (hw : RideWrite env ride fields) : CountsUp ride.version fields := by
  cases hw with
  | start now hst => exact countsUp_start
  | clear now hst => exact countsUp_clear
  | exhaust now hst => exact countsUp_exhaust
  | expand nextRound nextRadius now hst => exact countsUp_expand
  | batch batchId batchDrivers expiresAt now hst => exact countsUp_batch
  | reject exhausted now hst => exact countsUp_reject
  | transition current next options now hst hnext hto hdriver => exact countsUp_transition
  | requeue d now hst hd => exact countsUp_requeue

end updates

section operations

theorem counts_endBatch {batchId : BatchId} : CountsFrom env r ride.version (endBatch r ride batchId now) := by
  refine CountsFrom.after (overlooks_redis trivial) fun responses => ?_
  have hmulti : CountsFrom env r ride.version (redis (.multi (timeoutWrites r ride batchId responses now))) := by
    refine counts_hset countsUp_clear fun w hw seen => ?_
    simp only [List.append_nil, List.mem_map] at hw
    obtain ⟨d, -, rfl⟩ := hw
    trivial
  refine hmulti.bind fun _ => counts_background fun env => ?_
  refine slight_releaseDriverReservations.background.bind fun _ => ?_
  refine slight_clearPendingMembership.background.bind fun _ => ?_
  exact slight_appendTimelineEvent.background

theorem counts_startFirstDispatch {f : RideHash → App β} (hf : ∀ ride, CountsFrom env r ride.version (f ride)) :
    CountsFrom env r ride.version ((startFirstDispatch env r ride now).bind f) := by
  have hupdate : CountsFrom env r ride.version (updateRideHash r (startFields env ride now)) := by
    refine (counts_write countsUp_start).bind fun _ => counts_background fun _ => ?_
    exact slight_refreshRideRealtimeKeys.background.bind fun _ => slight_getRide.background
  simp only [startFirstDispatch, Prog.bind_eq, Prog.bind_assoc]
  refine hupdate.bind fun _ => counts_getRide counts_throw fun ride => ?_
  simp only [Prog.bind_assoc]
  refine CountsFrom.after overlooks_appendTimelineEvent fun _ => ?_
  refine CountsFrom.after (overlooks_redis trivial) fun _ => ?_
  exact CountsFrom.after overlooks_emitRideStatusUpdate fun _ => hf ride

theorem counts_cleanupTerminalRideKeys : Counts env (cleanupTerminalRideKeys r ride now) := by
  refine Counts.bind (counts_redis fun _ => trivial) fun notifiedDrivers => ?_
  refine Counts.bind (counts_redis fun _ => trivial) fun current => ?_
  have hcleanup : Counts env (redis (.multi (cleanupWrites r ride.customerId notifiedDrivers current))) := by
    refine counts_redis fun seen w hw => ?_
    simp only [cleanupWrites] at hw
    cases w <;> first | trivial | (exfalso; revert hw; split_ifs <;> simp)
  refine hcleanup.bind fun _ => ?_
  refine slight_releaseBatchReservations.counts.bind fun _ => ?_
  unfold releaseRideDriver
  cases ride.driverId with
  | none => exact counts_ret
  | some d => exact overlooks_releaseDriverAvailability.counts.bind fun _ => slight_enqueueDriverSync.counts

theorem counts_exhaustSearch : CountsFrom env r ride.version (exhaustSearch r ride now) := by
  refine counts_updateRideHash countsUp_exhaust counts_throw fun updated => Counts.known ?_
  refine slight_appendTimelineEvent.counts.bind fun _ => ?_
  refine counts_cleanupTerminalRideKeys.bind fun _ => counts_background fun env => ?_
  refine slight_enqueueRideSync.background.bind fun _ => ?_
  exact slight_emitRideStatusUpdate.background.bind fun _ => trivial

theorem counts_expandSearch {round : ℕ} {radius : ℚ} :
    CountsFrom env r ride.version (expandSearch env r ride round radius now) := by
  refine counts_updateRideHash countsUp_expand counts_throw fun updated => Counts.known (counts_background fun env => ?_)
  refine slight_appendTimelineEvent.background.bind fun _ => ?_
  refine slight_enqueueRideSync.background.bind fun _ => ?_
  exact slight_enqueueDispatchStart.background.bind fun _ => trivial

theorem counts_sendBatch {batchId : BatchId} {ds : List DriverId} :
    CountsFrom env r ride.version (sendBatch env r ride batchId ds now) := by
  have hmulti : CountsFrom env r ride.version
      (redis (.multi (batchWrites r ride batchId ds (now + env.dispatch.responseTtlMs) now))) := by
    refine @counts_hset env r ride.version [] _ _ countsUp_batch fun w hw seen => ?_
    obtain ⟨d, -, hd⟩ := List.mem_flatMap.mp hw
    simp only [List.mem_cons, List.not_mem_nil, or_false] at hd
    rcases hd with rfl | rfl | rfl <;> trivial
  refine hmulti.bind fun _ => counts_getRide counts_throw fun updated => Counts.known (counts_background fun env => ?_)
  refine slight_appendTimelineEvent.background.bind fun _ => ?_
  refine slight_enqueueRideSync.background.bind fun _ => ?_
  refine slight_enqueueBatchTimeout.background.bind fun _ => ?_
  exact Prog.Uses.bind (.forEach fun _ _ => slight_publish.background) fun _ => trivial

theorem counts_findDrivers {round : ℕ} {radius : ℚ} :
    CountsFrom env r ride.version (findDrivers env r ride round radius now) := by
  refine CountsFrom.after (overlooks_redis trivial) fun notifiedDrivers => ?_
  refine CountsFrom.after overlooks_getNearestAvailableDrivers fun candidates => ?_
  refine CountsFrom.after (overlooks_redis trivial) fun batchId => ?_
  refine CountsFrom.after (overlooks_reserveLoop _ _) fun batchDrivers => ?_
  split_ifs
  · exact counts_exhaustSearch
  · exact counts_expandSearch
  · exact counts_sendBatch

theorem counts_continueDispatch {round : ℕ} {radius : ℚ} :
    CountsFrom env r ride.version (continueDispatch env r ride round radius now) := by
  unfold continueDispatch
  cases openBatch ride with
  | none => exact counts_findDrivers
  | some batchId =>
    dsimp only
    split_ifs
    · exact counts_ret.known
    · exact counts_endBatch.bind fun _ => counts_getRide counts_throw fun updated => counts_findDrivers

theorem counts_dispatchUnderLock : Counts env (dispatchUnderLock env r) := by
  refine counts_getRide counts_ret fun read => ?_
  dsimp only
  split_ifs
  · exact counts_ret.known
  · refine CountsFrom.after (overlooks_redis trivial) fun now => ?_
    exact counts_startFirstDispatch fun ride => counts_continueDispatch
  · exact CountsFrom.after (overlooks_redis trivial) fun now => counts_continueDispatch

theorem counts_startDispatch : Counts env (startDispatch env r) := counts_withRideLock counts_dispatchUnderLock

theorem counts_handleBatchTimeout {batchId : BatchId} : Counts env (handleBatchTimeout env r batchId) := by
  refine counts_withRideLock (counts_getRide counts_ret fun ride => ?_)
  dsimp only
  split_ifs
  · exact counts_ret.known
  · refine CountsFrom.after (overlooks_redis trivial) fun now => counts_endBatch.bind fun _ => ?_
    refine counts_getRide counts_throw fun updated => Counts.known ?_
    exact slight_enqueueRideSync.counts.bind fun _ => counts_dispatchUnderLock

theorem counts_rejectUnderLock {reason : Response} {responses : DriverId → Option Response} :
    CountsFrom env r ride.version (rejectUnderLock env r d reason ride now responses) := by
  have hmulti : CountsFrom env r ride.version (redis (.multi
      (rejectWrites r ride d reason (batchExhausted ride d responses) now))) := by
    refine @counts_hset env r ride.version [.hsetResponse r d reason, .sremPending d r] [] _ countsUp_reject
      fun w hw seen => ?_
    simp only [List.append_nil, List.mem_cons, List.not_mem_nil, or_false] at hw
    rcases hw with rfl | rfl <;> trivial
  refine hmulti.bind fun _ => ?_
  refine (@slight_applyRejectCooldown env d).counts.bind fun _ => ?_
  refine slight_releaseDriverReservations.counts.bind fun _ => ?_
  refine slight_appendTimelineEvent.counts.bind fun _ => ?_
  refine counts_getRide counts_throw fun updated => Counts.known ?_
  refine slight_enqueueRideSync.counts.bind fun _ => ?_
  split_ifs
  · exact slight_releaseDriverReservations.counts.bind fun _ => counts_dispatchUnderLock
  · exact counts_ret

theorem counts_handleDriverRejection {reason : Response} : Counts env (handleDriverRejection env r d reason) := by
  refine counts_withRideLock (counts_getRide counts_ret fun ride => ?_)
  dsimp only
  split_ifs
  · exact counts_ret.known
  · refine CountsFrom.after (overlooks_redis trivial) fun now => ?_
    refine CountsFrom.after (overlooks_redis trivial) fun responses => ?_
    split_ifs
    · exact counts_ret.known
    · exact counts_rejectUnderLock

theorem counts_acceptRide : Counts env (acceptRide r d) := by
  refine slight_getRide.counts.bind fun preAcceptRide => ?_
  refine Counts.bind (counts_redis fun _ => trivial) fun acceptedAt => ?_
  refine Counts.bind (counts_redis fun _ => trivial) fun version => ?_
  split_ifs
  · exact counts_throw
  · exact slight_afterAccept.counts

theorem counts_finishTransition {next : RideStatus} {notifiedDrivers : List DriverId} :
    Counts env (finishTransition r next ride notifiedDrivers now) := by
  have htell : Background env (Prog.forEach (fun d => emitRideCancelledToDriver d r ride.version)
      (notifiedDrivers ++ ride.driverId.toList.filter (· ∉ notifiedDrivers))) :=
    .forEach fun _ _ => slight_publish.background
  have hend : ∀ p : App (Option RideHash), Background env p → Counts env
      ((enqueueRideSync r ride.version).bind fun _ => (notifyRideStatusUpdate r ride).bind fun _ =>
        (emitRideStatusUpdate r ride).bind fun _ => p) := by
    intro p hp
    refine Background.counts (slight_enqueueRideSync.background.bind fun _ => ?_)
    refine slight_emitRideStatusUpdate.background.bind fun _ => ?_
    exact slight_emitRideStatusUpdate.background.bind fun _ => hp
  simp only [finishTransition, Prog.bind_eq, Prog.pure_eq]
  split_ifs
  · exact counts_cleanupTerminalRideKeys.bind fun _ => hend _ (htell.bind fun _ => trivial)
  · exact counts_cleanupTerminalRideKeys.bind fun _ => hend _ trivial
  · exact hend _ (htell.bind fun _ => trivial)
  · exact hend _ trivial

theorem counts_transitionRide {next : RideStatus} {options : TransitionOptions} :
    Counts env (transitionRide env r next options) := by
  have hlocked : Counts env (transitionUnderLock env r next options) := by
    refine counts_getRide counts_throw fun ride => ?_
    dsimp only
    split_ifs
    · exact slight_getRide.counts.known
    · refine CountsFrom.after overlooks_assertTransition fun _ => ?_
      refine CountsFrom.after (overlooks_redis trivial) fun now => ?_
      refine (counts_write countsUp_transition).bind fun _ => ?_
      refine slight_refreshRideRealtimeKeys.counts.bind fun _ => ?_
      refine slight_appendTimelineEvent.counts.bind fun _ => ?_
      refine slight_getRide.counts.bind fun snapshot => ?_
      refine slight_readNotifiedDrivers.counts.bind fun notifiedDrivers => ?_
      cases snapshot with
      | none => exact counts_throw
      | some snapshot => exact counts_finishTransition
  refine (counts_withLock hlocked).bind fun result => ?_
  cases result.join with
  | none => exact counts_throw
  | some ride => exact counts_ret

theorem counts_cancelRide {actorType : ActorType} {actorId : Option ℕ} {reason : String} :
    Counts env (cancelRide env r actorType actorId reason) := by
  refine slight_getRide.counts.bind fun ride => ?_
  cases ride with
  | none => exact counts_throw
  | some ride =>
    dsimp only
    split_ifs
    · exact counts_ret
    · exact counts_transitionRide

theorem counts_transitionByDriver {next : RideStatus} : Counts env (transitionByDriver env next r d) := by
  refine slight_getRide.counts.bind fun ride => ?_
  split_ifs
  · exact counts_transitionRide
  · exact counts_throw

theorem counts_requeueRideAfterDriverLoss : Counts env (requeueRideAfterDriverLoss env r d) := by
  have hlocked : Counts env (requeueUnderLock env r d) := by
    refine counts_getRide counts_ret fun ride => ?_
    dsimp only
    split_ifs
    · exact counts_ret.known
    · exact counts_ret.known
    · refine CountsFrom.after (overlooks_redis trivial) fun now => ?_
      refine CountsFrom.after overlooks_releaseDriverAvailability fun _ => ?_
      have hmulti : CountsFrom env r ride.version (redis (.multi ([.delNotified r, .delResponses r] ++
          .hsetRide r (requeueFields env ride now) :: [.expireRide r]))) := by
        refine counts_hset countsUp_requeue fun w hw seen => ?_
        simp only [List.cons_append, List.nil_append, List.mem_cons, List.not_mem_nil, or_false] at hw
        rcases hw with rfl | rfl | rfl <;> trivial
      refine hmulti.bind fun _ => ?_
      refine slight_appendTimelineEvent.counts.bind fun _ => ?_
      refine counts_getRide counts_throw fun updated => Counts.known (counts_background fun env => ?_)
      refine slight_enqueueRideSync.background.bind fun _ => ?_
      refine slight_emitRideStatusUpdate.background.bind fun _ => ?_
      exact slight_enqueueDispatchStart.background.bind fun _ => trivial
  refine (counts_withLock hlocked).bind fun result => ?_
  cases result.join with
  | none => exact counts_throw
  | some ride => exact counts_ret

theorem counts_requestRide {c : CustomerId} {origin destination : Location} {metadata : Metadata} :
    Counts env (requestRide env c origin destination metadata) := by
  have hcreate : Counts env (createRide env c origin destination metadata) := by
    refine Counts.bind (counts_redis fun _ => trivial) fun now => ?_
    refine Counts.bind (counts_redis fun _ => trivial) fun rideId => ?_
    have hmulti : Counts env (redis (.multi
        [.createRide rideId (requestPayload env c origin destination metadata now),
          .setCustomerActiveRide c rideId, .saddActiveRide rideId, .expireRide rideId])) := by
      refine counts_redis fun seen w hw => ?_
      simp only [List.mem_cons, List.not_mem_nil, or_false] at hw
      rcases hw with rfl | rfl | rfl | rfl
      · exact ⟨c, origin, destination, metadata, now, rfl⟩
      · trivial
      · trivial
      · trivial
    refine hmulti.bind fun _ => counts_background fun env => ?_
    refine slight_appendTimelineEvent.background.bind fun _ => ?_
    refine slight_refreshRideRealtimeKeys.background.bind fun _ => ?_
    refine slight_enqueueRideSync.background.bind fun _ => ?_
    refine slight_publish.background.bind fun _ => ?_
    exact slight_enqueueDispatchStart.background.bind fun _ => trivial
  have hlocked : Counts env (requestUnderLock env c origin destination metadata) := by
    refine Counts.bind (counts_redis fun _ => trivial) fun activeRideId => ?_
    have hexisting : Counts env (getExistingRide activeRideId) := by
      cases activeRideId with
      | none => exact counts_ret
      | some rideId => exact slight_getRide.counts
    refine hexisting.bind fun existingRide => ?_
    split_ifs
    · exact counts_throw
    · exact hcreate
  refine (counts_withLock hlocked).bind fun result => ?_
  cases result with
  | none => exact counts_throw
  | some ride => exact counts_ret

theorem counts_handleDriverDrop {activeRideId : Option RideId} {pendingRideIds : List RideId}
    {reason : Response} : Counts env (handleDriverDrop env d activeRideId pendingRideIds reason) := by
  refine Counts.bind (.forEach fun r => counts_handleDriverRejection.bind fun _ => counts_ret) fun _ => ?_
  cases activeRideId with
  | none => exact counts_ret
  | some activeRideId =>
    refine slight_getRide.counts.bind fun ride => ?_
    cases ride with
    | none => exact counts_ret
    | some ride =>
      dsimp only
      split_ifs
      · exact Counts.bind (counts_redis fun _ => trivial) fun now => slight_publish.counts
      · exact counts_ret

theorem counts_work {job : JobId} : Counts env (work env job) := by
  have hjob : Counts env (handleJob env job) := by
    cases job with
    | dispatchStart r version reason =>
      exact (counts_startDispatch.bind fun _ => counts_ret).tryCatch fun _ => counts_ret
    | dispatchTimeout r batchId => exact counts_handleBatchTimeout.bind fun _ => counts_ret
    | persistRide r version => exact slight_syncRide.counts
    | persistDriver d reason suffix => exact slight_syncDriver.counts
  refine Counts.bind (counts_redis fun _ => trivial) fun taken => ?_
  cases taken with
  | false => exact counts_ret
  | true =>
    refine ((hjob.bind fun _ => counts_ret).tryCatch fun _ => counts_ret).bind fun succeeded => ?_
    exact counts_redis fun _ => trivial

theorem counts_discard (hp : Counts env p) : Counts env (discard p) := hp.bind fun _ => counts_ret

theorem counts_code (op : Op) : Counts env (code env op) := by
  cases op with
  | requestRide c origin destination metadata => exact counts_discard counts_requestRide
  | startDispatch r => exact counts_discard counts_startDispatch
  | handleBatchTimeout r batchId => exact counts_discard counts_handleBatchTimeout
  | handleDriverRejection r d reason => exact counts_discard counts_handleDriverRejection
  | acceptRide r d => exact counts_discard counts_acceptRide
  | markDriverArriving r d => exact counts_discard counts_transitionByDriver
  | startRide r d => exact counts_discard counts_transitionByDriver
  | completeRide r d => exact counts_discard counts_transitionByDriver
  | cancelRide r actorType actorId reason => exact counts_discard counts_cancelRide
  | requeueRideAfterDriverLoss r d => exact counts_discard counts_requeueRideAfterDriverLoss
  | goOnline d lat lng socketId => exact counts_discard (@background_goOnline env d lat lng socketId).counts
  | heartbeat d lat lng socketId => exact counts_discard (@background_heartbeat env d lat lng socketId).counts
  | goOffline d => exact counts_discard (@background_goOffline env d).counts
  | goOfflineAndDrop d reason =>
    exact (@background_goOffline env d).counts.bind fun _ => counts_handleDriverDrop
  | restoreDriverSession d socketId => exact counts_discard (@background_restoreDriverSession env d socketId).counts
  | scanStaleDriversAndRecover =>
    exact (@background_scanStaleDrivers env).counts.bind fun _ => .forEach fun _ => counts_handleDriverDrop
  | recoverDispatchingRides => exact slight_recoverDispatchingRides.counts
  | work job => exact counts_work

end operations


end YatriGo
