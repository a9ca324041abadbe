import YatriGo.Proofs.Footprint

/-! What dispatch work writes to a ride: it never sets a driver, and no status but
DISPATCHING and, when the search is exhausted, CANCELLED. -/

namespace YatriGo
open Concurrent

def RideField.ofDispatch : RideField → Bool
  | .status v => v = .dispatching || v = .cancelled
  | .driverId _ => false
  | _ => true

def Write.ofDispatch : Write → Prop
  | .createRide .. => False
  | .hsetRide _ fields => fields.all RideField.ofDispatch = true
  | .delResponses _ => False
  | _ => True

def Cmd.ofDispatch : ⦃β : Type⦄ → Cmd β → Prop
  | _, .multi ws => ∀ w ∈ ws, w.ofDispatch
  | _, _ => True

abbrev Dispatching {α : Type} (p : App α) : Prop := p.Uses Cmd.ofDispatch

/-- A field that says nothing about who drives the ride or how it ends. -/
def RideField.calm : RideField → Bool
  | .status v => v = .dispatching
  | .driverId _ => false
  | _ => true

def Write.calm : Write → Prop
  | .createRide .. => False
  | .hsetRide _ fields => fields.all RideField.calm = true
  | .delResponses _ => False
  | _ => True

/-- Commands of a search that goes on; they do not touch the lock of a ride. -/
def Cmd.calm : ⦃β : Type⦄ → Cmd β → Prop
  | _, .multi ws => ∀ w ∈ ws, w.calm
  | _, .setNX key .. => ∀ r, key ≠ .ride r
  | _, .evalReleaseLock key _ => ∀ r, key ≠ .ride r
  | _, .evalAcceptRide .. => False
  | _, _ => True

abbrev Calm {α : Type} (p : App α) : Prop := p.Uses Cmd.calm

variable {env : Env} {r : RideId} {α : Type} {p : App α}

theorem ofDispatch_of_calm {f : RideField} (h : f.calm = true) : f.ofDispatch = true := by
  cases f with
  | status v =>
    have hv : v = .dispatching := of_decide_eq_true h
    rw [hv]
    rfl
  | _ => exact h

theorem Write.calm.ofDispatch {w : Write} (h : w.calm) : w.ofDispatch := by
  cases w with
  | hsetRide r fields =>
    have hall : fields.all RideField.calm = true := h
    exact List.all_eq_true.mpr fun f hf => ofDispatch_of_calm (List.all_eq_true.mp hall f hf)
  | _ => exact h

theorem Calm.dispatching (h : Calm p) : Dispatching p := by
  refine h.mono fun β c hc => ?_
  cases c with
  | multi ws => exact fun w hw => (hc w hw : w.calm).ofDispatch
  | _ => trivial

theorem Write.peripheral.calm {w : Write} (h : w.peripheral) : w.calm := by
  cases w <;> trivial

theorem Background.calm (h : Background env p) : Calm p := by
  refine h.mono fun β c hc => ?_
  cases c with
  | multi ws => exact fun w hw => (BackgroundWrites.peripheral hc w hw).calm
  | setNX key token ttl =>
    rintro r rfl
    exact hc
  | evalReleaseLock key token =>
    rintro r rfl
    exact hc
  | evalAcceptRide r d acceptedAt reservation => exact hc
  | _ => trivial

theorem calm_quiet (h : ∀ env, Background env p) : Calm p := (h townEnv).calm

theorem Slight.calm (h : Slight p) : Calm p := calm_quiet fun _ => h.background

theorem dispatching_quiet (h : ∀ env, Background env p) : Dispatching p := (calm_quiet h).dispatching

theorem calm_read {c : Cmd α} (h : c.calm) : Calm (redis c) := ⟨h, fun _ => trivial⟩

theorem dispatching_read {c : Cmd α} (h : c.ofDispatch) : Dispatching (redis c) :=
  ⟨h, fun _ => trivial⟩

theorem dispatching_withLock {key : LockKey} {ttlMs : ℕ} {fn : App α} (h : Dispatching fn) :
    Dispatching (withLock key ttlMs fn) := by
  refine ⟨trivial, fun token => ⟨trivial, fun ok => ?_⟩⟩
  cases ok with
  | false => trivial
  | true =>
    have hrelease : Dispatching (releaseLock key (.uuid token)) := ⟨trivial, fun _ => trivial⟩
    exact (h.tryFinally hrelease).bind fun _ => trivial

theorem dispatching_withRideLock {fn : App (Option RideHash)} (h : Dispatching fn) :
    Dispatching (withRideLock env r fn) := by
  refine (dispatching_withLock h).bind fun result => ?_
  cases result.join <;> trivial

theorem calm_hset {pre post : List Write} {fields : List RideField}
    (hf : fields.all RideField.calm = true) (hw : ∀ w ∈ pre ++ post, w.calm) :
    Calm (redis (.multi (pre ++ .hsetRide r fields :: post))) := by
  refine ⟨fun w hmem => ?_, fun _ => trivial⟩
  rcases List.mem_append.mp hmem with h | h
  · exact hw w (List.mem_append_left _ h)
  · rcases List.mem_cons.mp h with rfl | h
    · exact hf
    · exact hw w (List.mem_append_right _ h)

theorem calm_updateRideHash {fields : List RideField} (hf : fields.all RideField.calm = true) :
    Calm (updateRideHash r fields) := by
  have hwrite : Calm (write (.hsetRide r fields)) :=
    @calm_hset r [] [] fields hf fun w hw => by cases hw
  refine hwrite.bind fun _ => ?_
  refine Prog.Uses.bind slight_refreshRideRealtimeKeys.calm fun _ => ?_
  exact slight_getRide.calm

variable {ride : RideHash} {now : Time}

theorem calm_endBatch {batchId : BatchId} : Calm (endBatch r ride batchId now) := by
  refine Prog.Uses.bind (calm_read (by trivial)) fun responses => ?_
  have hmulti : Calm (redis (.multi (timeoutWrites r ride batchId responses now))) := by
    refine calm_hset rfl fun w hw => ?_
    simp only [List.append_nil, List.mem_map] at hw
    obtain ⟨d, -, rfl⟩ := hw
    trivial
  refine hmulti.bind fun _ => calm_quiet fun env => ?_
  refine slight_releaseDriverReservations.background.bind fun _ => ?_
  refine slight_clearPendingMembership.background.bind fun _ => ?_
  exact slight_appendTimelineEvent.background

theorem calm_startFirstDispatch : Calm (startFirstDispatch env r ride now) := by
  refine (calm_updateRideHash rfl).bind fun _ => calm_quiet fun env => ?_
  refine slight_getRide.background.bind fun updated => ?_
  cases updated with
  | none => trivial
  | some updated =>
    refine slight_appendTimelineEvent.background.bind fun _ => ?_
    refine slight_enqueueRideSync.background.bind fun _ => ?_
    exact slight_emitRideStatusUpdate.background.bind fun _ => trivial

theorem calm_expandSearch {nextRound : ℕ} {nextRadius : ℚ} :
    Calm (expandSearch env r ride nextRound nextRadius now) := by
  refine (calm_updateRideHash rfl).bind fun updated => calm_quiet fun env => ?_
  cases updated with
  | none => trivial
  | some updated =>
    refine slight_appendTimelineEvent.background.bind fun _ => ?_
    refine slight_enqueueRideSync.background.bind fun _ => ?_
    exact slight_enqueueDispatchStart.background.bind fun _ => trivial

theorem calm_sendBatch {batchId : BatchId} {batchDrivers : List DriverId} :
    Calm (sendBatch env r ride batchId batchDrivers now) := by
  have hmulti : Calm (redis (.multi
      (batchWrites r ride batchId batchDrivers (now + env.dispatch.responseTtlMs) now))) := by
    refine @calm_hset r [] _ _ rfl fun w hw => ?_
    obtain ⟨d, -, hd⟩ := List.mem_flatMap.mp hw
    simp only [List.mem_cons, List.not_mem_nil, or_false] at hd
    rcases hd with rfl | rfl | rfl <;> trivial
  refine hmulti.bind fun _ => calm_quiet fun env' => ?_
  refine slight_getRide.background.bind fun updated => ?_
  cases updated with
  | none => trivial
  | some updated =>
    refine slight_appendTimelineEvent.background.bind fun _ => ?_
    refine slight_enqueueRideSync.background.bind fun _ => ?_
    refine slight_enqueueBatchTimeout.background.bind fun _ => ?_
    exact Prog.Uses.bind (.forEach fun _ _ => slight_publish.background) fun _ => trivial

theorem dispatching_releaseRideDriver : Dispatching (releaseRideDriver r ride now) := by
  unfold releaseRideDriver
  cases ride.driverId with
  | none => trivial
  | some d =>
    refine Prog.Uses.bind ?_ fun _ => slight_enqueueDriverSync.calm.dispatching
    exact ⟨trivial, fun hash => ⟨trivial, fun active => ⟨trivial, fun heartbeatExists =>
      ⟨fun w hw => (releaseWrites_peripheral w hw).calm.ofDispatch, fun _ => trivial⟩⟩⟩⟩

theorem cleanupWrites_calm {c : CustomerId} {ds : List DriverId} {current : Option RideId} :
    ∀ w ∈ cleanupWrites r c ds current, w.calm := by
  intro w hw
  simp only [cleanupWrites] at hw
  cases w <;> first | trivial | (exfalso; revert hw; split_ifs <;> simp)

theorem dispatching_cleanupTerminalRideKeys : Dispatching (cleanupTerminalRideKeys r ride now) := by
  refine Prog.Uses.bind (dispatching_read (by trivial)) fun notifiedDrivers => ?_
  refine Prog.Uses.bind (dispatching_read (by trivial)) fun current => ?_
  refine Prog.Uses.bind (calm_read (by exact cleanupWrites_calm)).dispatching fun _ => ?_
  refine slight_releaseBatchReservations.calm.dispatching.bind fun _ => ?_
  exact dispatching_releaseRideDriver

theorem dispatching_exhaustSearch : Dispatching (exhaustSearch r ride now) := by
  have hupdate : Dispatching (updateRideHash r (exhaustFields ride now)) := by
    refine Prog.Uses.bind (dispatching_read fun w hw => ?_) fun _ => dispatching_quiet fun env => ?_
    · rw [List.mem_singleton.mp hw]
      rfl
    · exact slight_refreshRideRealtimeKeys.background.bind fun _ => slight_getRide.background
  refine hupdate.bind fun updated => ?_
  cases updated with
  | none => trivial
  | some updated =>
    refine slight_appendTimelineEvent.calm.dispatching.bind fun _ => ?_
    refine dispatching_cleanupTerminalRideKeys.bind fun _ => dispatching_quiet fun env => ?_
    refine slight_enqueueRideSync.background.bind fun _ => ?_
    exact slight_emitRideStatusUpdate.background.bind fun _ => trivial

theorem dispatching_findDrivers {dispatchRound : ℕ} {searchRadiusKm : ℚ} :
    Dispatching (findDrivers env r ride dispatchRound searchRadiusKm now) := by
  refine Prog.Uses.bind (dispatching_read (by trivial)) fun notifiedDrivers => ?_
  refine slight_getNearestAvailableDrivers.calm.dispatching.bind fun candidates => ?_
  refine Prog.Uses.bind (dispatching_read (by trivial)) fun batchId => ?_
  refine (@slight_reserveLoop env r _ _ _).calm.dispatching.bind fun batchDrivers => ?_
  split_ifs
  · exact dispatching_exhaustSearch
  · exact calm_expandSearch.dispatching
  · exact calm_sendBatch.dispatching

theorem dispatching_continueDispatch {ride : RideHash} {dispatchRound : ℕ} {searchRadiusKm : ℚ} :
    Dispatching (continueDispatch env r ride dispatchRound searchRadiusKm now) := by
  unfold continueDispatch
  cases openBatch ride with
  | none => exact dispatching_findDrivers
  | some batchId =>
    dsimp only
    split_ifs
    · trivial
    · refine calm_endBatch.dispatching.bind fun _ => ?_
      refine slight_getRide.calm.dispatching.bind fun updated => ?_
      cases updated with
      | none => trivial
      | some updated => exact dispatching_findDrivers

theorem dispatching_dispatchUnderLock : Dispatching (dispatchUnderLock env r) := by
  refine slight_getRide.calm.dispatching.bind fun read => ?_
  cases read with
  | none => trivial
  | some read =>
    dsimp only
    split_ifs
    · trivial
    · refine Prog.Uses.bind (dispatching_read (by trivial)) fun now => ?_
      exact calm_startFirstDispatch.dispatching.bind fun ride => dispatching_continueDispatch
    · exact Prog.Uses.bind (dispatching_read (by trivial)) fun now => dispatching_continueDispatch

theorem dispatching_startDispatch : Dispatching (startDispatch env r) :=
  dispatching_withRideLock dispatching_dispatchUnderLock

theorem dispatching_handleBatchTimeout {batchId : BatchId} :
    Dispatching (handleBatchTimeout env r batchId) := by
  refine dispatching_withRideLock (slight_getRide.calm.dispatching.bind fun ride => ?_)
  cases ride with
  | none => trivial
  | some ride =>
    dsimp only
    split_ifs
    · trivial
    · refine Prog.Uses.bind (dispatching_read (by trivial)) fun now => ?_
      refine calm_endBatch.dispatching.bind fun _ => ?_
      refine slight_getRide.calm.dispatching.bind fun updated => ?_
      cases updated with
      | none => trivial
      | some updated =>
        refine slight_enqueueRideSync.calm.dispatching.bind fun _ => ?_
        exact dispatching_dispatchUnderLock

theorem calm_rejectWrites {d : DriverId} {reason : Response} {exhausted : Bool} :
    Calm (redis (.multi (rejectWrites r ride d reason exhausted now))) := by
  refine @calm_hset r [.hsetResponse r d reason, .sremPending d r] [] _ rfl fun w hw => ?_
  simp only [List.append_nil, List.mem_cons, List.not_mem_nil, or_false] at hw
  rcases hw with rfl | rfl <;> trivial

theorem dispatching_rejectUnderLock {d : DriverId} {reason : Response}
    {responses : DriverId → Option Response} :
    Dispatching (rejectUnderLock env r d reason ride now responses) := by
  refine calm_rejectWrites.dispatching.bind fun _ => ?_
  refine (@slight_applyRejectCooldown env d).calm.dispatching.bind fun _ => ?_
  refine slight_releaseDriverReservations.calm.dispatching.bind fun _ => ?_
  refine slight_appendTimelineEvent.calm.dispatching.bind fun _ => ?_
  refine slight_getRide.calm.dispatching.bind fun updated => ?_
  cases updated with
  | none => trivial
  | some updated =>
    refine slight_enqueueRideSync.calm.dispatching.bind fun _ => ?_
    split_ifs
    · refine slight_releaseDriverReservations.calm.dispatching.bind fun _ => ?_
      exact dispatching_dispatchUnderLock
    · trivial

theorem dispatching_handleDriverRejection {d : DriverId} {reason : Response} :
    Dispatching (handleDriverRejection env r d reason) := by
  refine dispatching_withRideLock (slight_getRide.calm.dispatching.bind fun ride => ?_)
  cases ride with
  | none => trivial
  | some ride =>
    dsimp only
    split_ifs
    · trivial
    · refine Prog.Uses.bind (dispatching_read (by trivial)) fun now => ?_
      refine Prog.Uses.bind (dispatching_read (by trivial)) fun responses => ?_
      split_ifs
      · trivial
      · exact dispatching_rejectUnderLock

theorem dispatching_acceptRide {d : DriverId} : Dispatching (acceptRide r d) := by
  refine slight_getRide.calm.dispatching.bind fun preAcceptRide => ?_
  refine Prog.Uses.bind (dispatching_read (by trivial)) fun acceptedAt => ?_
  refine Prog.Uses.bind (dispatching_read (by trivial)) fun version => ?_
  split_ifs
  · trivial
  · exact slight_afterAccept.calm.dispatching

/-- Dispatch work on `r`, and acceptances of it. -/
def Op.dispatches (r : RideId) : Op → Bool
  | .startDispatch r' => r' = r
  | .handleBatchTimeout r' _ => r' = r
  | .handleDriverRejection r' _ _ => r' = r
  | .acceptRide r' _ => r' = r
  | _ => false

theorem dispatching_code {op : Op} (h : op.dispatches r = true) : Dispatching (code env op) := by
  cases op with
  | startDispatch r' => exact dispatching_startDispatch.bind fun _ => trivial
  | handleBatchTimeout r' batchId => exact dispatching_handleBatchTimeout.bind fun _ => trivial
  | handleDriverRejection r' d reason => exact dispatching_handleDriverRejection.bind fun _ => trivial
  | acceptRide r' d => exact dispatching_acceptRide.bind fun _ => trivial
  | _ => cases h

end YatriGo
