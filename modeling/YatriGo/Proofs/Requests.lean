import YatriGo.Proofs.RideContract

/-! The requests of customers and drivers: what each of them writes, and under whose name.
The source has the actor in the options of `transitionRide` and in the calls of
`appendTimelineEvent`. -/

namespace YatriGo
open Concurrent

/-- The actor under whose name the operation changes the status of a ride. -/
def Op.actor : Op → ActorType × Option ℕ
  | .requestRide c .. => (.customer, some c)
  | .acceptRide _ d => (.driver, some d)
  | .markDriverArriving _ d => (.driver, some d)
  | .startRide _ d => (.driver, some d)
  | .completeRide _ d => (.driver, some d)
  | .cancelRide _ actorType actorId _ => (actorType, actorId)
  | _ => (.system, none)

/-- The ride that the operation asks to move, and who asks. -/
def Op.request : Op → Option (RideId × ActorType × ℕ)
  | .markDriverArriving r d => some (r, .driver, d)
  | .startRide r d => some (r, .driver, d)
  | .completeRide r d => some (r, .driver, d)
  | .cancelRide r actorType actorId _ => actorId.map fun id => (r, actorType, id)
  | _ => none

/-- The write changes no ride but `subject`, and what it records it records under `actor`. -/
def Write.credits (subject : Option RideId) (actor : ActorType × Option ℕ) : Write → Prop
  | .createRide _ payload => actor = (.customer, some payload.customerId)
  | .hsetRide r fields => subject = some r ∧
    ∀ cancellation, .cancellation cancellation ∈ fields →
      (cancellation.actorType, cancellation.actorId) = actor
  | .rpushTimeline _ e => (e.actorType, e.actorId) = actor
  | _ => True

def Cmd.credits (subject : Option RideId) (actor : ActorType × Option ℕ) : ⦃β : Type⦄ → Cmd β → Prop
  | _, .multi ws => ∀ w ∈ ws, w.credits subject actor
  | _, .evalAcceptRide _ d _ _ => actor = (.driver, some d)
  | _, _ => True

abbrev Credits (subject : Option RideId) (actor : ActorType × Option ℕ) {α : Type} (p : App α) : Prop :=
  p.Uses (Cmd.credits subject actor)

variable {env : Env} {subject : Option RideId} {actor : ActorType × Option ℕ} {r : RideId}
  {d : DriverId} {ride : RideHash} {now : Time} {α : Type}

theorem credits_write {w : Write} (h : w.credits subject actor) : Credits subject actor (write w) := by
  refine ⟨fun v hv => ?_, fun _ => trivial⟩
  rw [List.mem_singleton.mp hv]
  exact h

theorem credits_refreshRideRealtimeKeys : Credits subject actor (refreshRideRealtimeKeys r) := by
  have hexpire : Write.credits subject actor (.expireRide r) := trivial
  exact credits_write hexpire

theorem credits_appendTimelineEvent {event : TimelineEventType} {actorType : ActorType}
    {actorId : Option ℕ} {atTime : Time} (h : (actorType, actorId) = actor) :
    Credits subject actor (appendTimelineEvent r event actorType actorId atTime) := by
  have hpush : Write.credits subject actor (.rpushTimeline r ⟨event, actorType, actorId, atTime⟩) := h
  exact (credits_write hpush).bind fun _ => credits_refreshRideRealtimeKeys

theorem credits_releaseLock {key : LockKey} {token : Token} : Credits subject actor (releaseLock key token) :=
  ⟨trivial, fun _ => trivial⟩

theorem credits_withLock {key : LockKey} {ttlMs : ℕ} {fn : App α} (h : Credits subject actor fn) :
    Credits subject actor (withLock key ttlMs fn) := by
  refine ⟨trivial, fun token => ⟨trivial, fun ok => ?_⟩⟩
  cases ok with
  | false => trivial
  | true => exact (h.tryFinally credits_releaseLock).bind fun _ => trivial

theorem credits_getRide : Credits subject actor (getRide r) := ⟨trivial, fun _ => trivial⟩

theorem credits_enqueueRideSync {version : ℕ} : Credits subject actor (enqueueRideSync r version) :=
  ⟨trivial, fun _ => trivial⟩

theorem credits_enqueueDriverSync {reason : SyncReason} : Credits subject actor (enqueueDriverSync d reason none) :=
  ⟨trivial, fun _ => ⟨trivial, fun _ => trivial⟩⟩

theorem credits_publish {room : Room} {key : PublishKey} : Credits subject actor (publish room key) := by
  refine ⟨trivial, fun allowed => ?_⟩
  cases allowed with
  | false => trivial
  | true => exact ⟨trivial, fun _ => trivial⟩

theorem credits_emitRideStatusUpdate : Credits subject actor (emitRideStatusUpdate r ride) := by
  refine credits_publish.bind fun _ => ?_
  cases ride.driverId with
  | none => trivial
  | some driverId => exact credits_publish

theorem credits_releaseWrites {hash : DriverHash} {active : Option RideId} {heartbeatExists : Bool} :
    ∀ w ∈ releaseWrites d r hash active heartbeatExists now, w.credits subject actor := by
  intro w hw
  cases w <;> first | trivial | (exfalso; revert hw; unfold releaseWrites; split_ifs <;> repeat' split) <;> simp

theorem credits_releaseDriverAvailability {driverId : Option DriverId} :
    Credits subject actor (releaseDriverAvailability driverId r now) := by
  cases driverId with
  | none => trivial
  | some d =>
    exact ⟨trivial, fun hash => ⟨trivial, fun active => ⟨trivial, fun heartbeatExists =>
      ⟨credits_releaseWrites, fun _ => trivial⟩⟩⟩⟩

theorem credits_releases {key : DriverId → LockKey} {token : Token} {ds : List DriverId} :
    Credits subject actor (.forEach (fun d => releaseLock (key d) token) ds) := .forEach fun _ _ => credits_releaseLock

theorem credits_cleanupTerminalRideKeys : Credits subject actor (cleanupTerminalRideKeys r ride now) := by
  refine ⟨trivial, fun notifiedDrivers => ⟨trivial, fun current => ⟨fun w hw => ?_, fun _ => ?_⟩⟩⟩
  · cases w <;> first | trivial | (exfalso; revert hw; unfold cleanupWrites; split_ifs <;> simp)
  · refine Prog.Uses.bind (p := releaseBatchReservations r ride) ?_ fun _ => ?_
    · unfold releaseBatchReservations
      cases ride.currentBatchId with
      | none => trivial
      | some batchId => exact credits_releases
    · unfold releaseRideDriver
      cases ride.driverId with
      | none => trivial
      | some d => exact credits_releaseDriverAvailability.bind fun _ => credits_enqueueDriverSync

section transition

variable {next : RideStatus} {options : TransitionOptions}

theorem credits_finishTransition {ds : List DriverId} :
    Credits subject actor (finishTransition r next ride ds now) := by
  have hend : ∀ p : App (Option RideHash), Credits subject actor p → Credits subject actor
      ((enqueueRideSync r ride.version).bind fun _ => (notifyRideStatusUpdate r ride).bind fun _ =>
        (emitRideStatusUpdate r ride).bind fun _ => p) := fun p hp =>
    credits_enqueueRideSync.bind fun _ => credits_emitRideStatusUpdate.bind fun _ =>
      credits_emitRideStatusUpdate.bind fun _ => hp
  have htell : Credits subject actor ((Prog.forEach (fun d => emitRideCancelledToDriver d r ride.version)
      (ds ++ ride.driverId.toList.filter (· ∉ ds))).bind fun _ => .ret (some ride)) :=
    Prog.Uses.bind (.forEach fun _ _ => credits_publish) fun _ => trivial
  simp only [finishTransition, Prog.bind_eq, Prog.pure_eq]
  split_ifs
  · exact credits_cleanupTerminalRideKeys.bind fun _ => hend _ htell
  · exact credits_cleanupTerminalRideKeys.bind fun _ => hend _ trivial
  · exact hend _ htell
  · exact hend _ trivial

theorem cancellation_mem {cancellation : Cancellation}
    (h : .cancellation cancellation ∈ transitionFields env ride next options now) :
    cancellation = ⟨options.actorType.getD .system, options.actorId, options.reason, now⟩ := by
  obtain ⟨distance, duration, fare, billing, commission, earning, hc⟩ :=
    @completionFields_eq env ride options now
  unfold transitionFields at h
  rw [hc] at h
  clear hc
  revert h
  split_ifs <;> split <;> simp

/-- A transition appends one event, under the actor of its options. -/
theorem credits_transitionRide
    (h : (options.actorType.getD .system, options.actorId) = actor) :
    Credits (some r) actor (transitionRide env r next options) := by
  refine Prog.Uses.bind (credits_withLock (credits_getRide.bind fun ride => ?_)) fun result => ?_
  · cases ride with
    | none => trivial
    | some ride =>
      dsimp only
      split_ifs
      · exact credits_getRide
      · refine Prog.Uses.bind ?_ fun _ => ⟨trivial, fun now => ?_⟩
        · unfold assertTransition
          split_ifs <;> trivial
        · have hupdate : Write.credits (some r) actor
              (.hsetRide r (transitionFields env ride next options now)) := by
            refine ⟨rfl, fun cancellation hc => ?_⟩
            obtain rfl := cancellation_mem hc
            exact h
          refine (credits_write hupdate).bind fun _ => credits_refreshRideRealtimeKeys.bind fun _ => ?_
          refine (credits_appendTimelineEvent h).bind fun _ => credits_getRide.bind fun snapshot => ?_
          refine Prog.Uses.bind ?_ fun ds => ?_
          · unfold readNotifiedDrivers
            split_ifs
            · exact ⟨trivial, fun _ => trivial⟩
            · trivial
          · cases snapshot with
            | none => trivial
            | some snapshot => exact credits_finishTransition
  · cases result.join <;> trivial

end transition

theorem credits_cancelRide {actorType : ActorType} {actorId : Option ℕ} {reason : String} :
    Credits (some r) (actorType, actorId) (cancelRide env r actorType actorId reason) := by
  refine credits_getRide.bind fun ride => ?_
  cases ride with
  | none => trivial
  | some ride =>
    dsimp only
    split_ifs
    · trivial
    · exact credits_transitionRide rfl

theorem credits_transitionByDriver {next : RideStatus} :
    Credits (some r) (.driver, some d) (transitionByDriver env next r d) := by
  refine credits_getRide.bind fun ride => ?_
  split_ifs
  · exact credits_transitionRide rfl
  · trivial

theorem credits_requestRide {c : CustomerId} {origin destination : Location} {metadata : Metadata} :
    Credits subject (.customer, some c) (requestRide env c origin destination metadata) := by
  have hcreate : Credits subject (.customer, some c) (createRide env c origin destination metadata) := by
    refine ⟨trivial, fun now => ⟨trivial, fun rideId => ⟨fun w hw => ?_, fun _ => ?_⟩⟩⟩
    · simp only [List.mem_cons, List.not_mem_nil, or_false] at hw
      rcases hw with rfl | rfl | rfl | rfl <;> first | rfl | trivial
    · refine (credits_appendTimelineEvent rfl).bind fun _ => ?_
      refine credits_refreshRideRealtimeKeys.bind fun _ => ?_
      refine credits_enqueueRideSync.bind fun _ => credits_publish.bind fun _ => ?_
      exact ⟨trivial, fun _ => trivial⟩
  have hunder : Credits subject (.customer, some c) (requestUnderLock env c origin destination metadata) := by
    have hexisting : ∀ activeRideId, Credits subject (.customer, some c) (getExistingRide activeRideId) := by
      intro activeRideId
      cases activeRideId with
      | none => trivial
      | some rideId => exact credits_getRide
    refine ⟨trivial, fun activeRideId => (hexisting activeRideId).bind fun existingRide => ?_⟩
    split_ifs
    · trivial
    · exact hcreate
  refine (credits_withLock hunder).bind fun result => ?_
  cases result <;> trivial

theorem credits_acceptRide : Credits subject (.driver, some d) (acceptRide r d) := by
  refine credits_getRide.bind fun preAcceptRide => ⟨trivial, fun now => ⟨rfl, fun version => ?_⟩⟩
  simp only [Prog.ret_bind]
  split_ifs
  · trivial
  · refine credits_getRide.bind fun ride => ?_
    cases ride with
    | none => trivial
    | some ride =>
      refine Prog.Uses.bind ?_ fun _ => Prog.Uses.bind ?_ fun _ => ?_
      · unfold releaseDriverReservations
        split
        · trivial
        · exact credits_releases
      · unfold clearPendingMembership
        split_ifs
        · trivial
        · refine ⟨fun w hw => ?_, fun _ => trivial⟩
          obtain ⟨d', -, rfl⟩ := List.mem_map.mp hw
          trivial
      · refine (credits_appendTimelineEvent rfl).bind fun _ => ?_
        refine credits_enqueueRideSync.bind fun _ => credits_enqueueDriverSync.bind fun _ => ?_
        refine credits_publish.bind fun _ => credits_emitRideStatusUpdate.bind fun _ => ?_
        refine credits_publish.bind fun _ => credits_emitRideStatusUpdate.bind fun _ => ?_
        exact Prog.Uses.bind (.forEach fun _ _ => credits_publish) fun _ => trivial

theorem credits_code {op : Op} {actorType : ActorType} {id : ℕ} (h : op.actor = (actorType, some id)) :
    Credits (op.request.map Prod.fst) op.actor (code env op) := by
  cases op with
  | requestRide c origin destination metadata => exact credits_requestRide.bind fun _ => trivial
  | acceptRide r d => exact credits_acceptRide.bind fun _ => trivial
  | markDriverArriving r d => exact credits_transitionByDriver.bind fun _ => trivial
  | startRide r d => exact credits_transitionByDriver.bind fun _ => trivial
  | completeRide r d => exact credits_transitionByDriver.bind fun _ => trivial
  | cancelRide r actorType' actorId reason =>
    cases h
    exact credits_cancelRide.bind fun _ => trivial
  | _ => cases h

end YatriGo
