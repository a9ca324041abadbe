import YatriGo.Concurrent.Debts
import YatriGo.Proofs.Records
import YatriGo.Proofs.RefsOperations
import YatriGo.Proofs.Walk

/-! Debts that few commands of an operation can leave. The operation pays all it owes when the parts with
such commands do. -/

namespace YatriGo
open Concurrent

def Op.requeues : Op → Bool
  | .requeueRideAfterDriverLoss .. => true
  | _ => false

/-- The scan for rides whose dispatch was lost. -/
def Op.rescues : Op → Bool
  | .recoverDispatchingRides => true
  | _ => false

variable {env : Env} {ι α β : Type} {D : Debts (system env) ι} {q : ⦃β : Type⦄ → Cmd β → Prop} {i : ℕ} {op : Op} {p : App α} {due : Set ι}
  {rest : α → Set ι} {r : RideId} {d : DriverId} {ride : RideHash} {now : Time} {owed : DriverId → Set ι}

theorem Cmd.slight.uneventful {c : Cmd α} (h : c.slight) : c.uneventful :=
  (@Slight.uneventful _ (.perform c) ⟨h, fun _ => trivial⟩).1

/-- The commands in `q` make no news. Slight commands are in `q`, and so are those of a lock. -/
structure Heedful (D : Debts (system env) ι) (q : ⦃β : Type⦄ → Cmd β → Prop) : Prop where
  slight : ∀ (β : Type) (c : Cmd β), c.slight → q c
  locks : ∀ key token, q (.evalReleaseLock key token) ∧ ∀ ttlMs, q (.setNX key token ttlMs)
  perform : ∀ op (β : Type) (c : Cmd β) due, q c → D.perform op c due
  news : ∀ i (β : Type) (c : Cmd β) s x, q c → D.known ((system env).exec i c s).2 x →
    ¬ D.changed s ((system env).exec i c s).2 x

namespace Heedful

theorem quiet (h : Heedful D q) (hp : p.Uses q) (hn : p.NoThrow) : D.Pays i op due p fun _ => due :=
  Debts.Pays.quiet (fun _ c hc due => h.perform op _ c due hc) (fun _ c s x hc => h.news i _ c s x hc) hp hn

theorem still (h : Heedful D q) (hp : p.Uses q) : D.Pays i op ∅ p fun _ => ∅ :=
  Debts.Pays.still (fun _ c hc due => h.perform op _ c due hc) (fun _ c s x hc => h.news i _ c s x hc) hp

theorem command (h : Heedful D q) {c : Cmd α} (hc : q c) : D.Pays i op due (redis c) fun _ => due :=
  h.quiet ⟨hc, fun _ => trivial⟩ fun _ => trivial

theorem uses (h : Heedful D q) (hp : Slight p) : p.Uses q := hp.mono h.slight

theorem read (h : Heedful D q) {c : Cmd α} (hc : c.slight) : D.Pays i op due (redis c) fun _ => due :=
  h.command (h.slight _ c hc)

theorem pass (h : Heedful D q) (hp : Slight p) : D.Pays i op ∅ p fun _ => ∅ := h.still (h.uses hp)

theorem lockSection (h : Heedful D q) {key : LockKey} {ttlMs : ℕ} {fn : App α} {busy : Set ι}
    (hset : ∀ u : Uuid, D.Pays i op due (redis (.setNX key (.uuid u) ttlMs)) fun ok => if ok then due else busy)
    (hfn : D.Pays i op due fn rest) :
    D.Pays i op due (YatriGo.withLock key ttlMs fn) fun result => result.elim busy rest := by
  have hrelease : ∀ (token : Token) due, D.Pays i op due (releaseLock key token) fun _ => due :=
    fun token due => h.quiet ⟨(h.locks key token).1, fun _ => trivial⟩ fun _ => trivial
  have hend : ∀ result : Option α, D.Pays i op (result.elim busy rest) (.ret result) fun result => result.elim busy rest :=
    fun result => Debts.Pays.ret subset_rfl
  have htoken : D.Pays i op due (redis .uuidv4) fun _ => due := h.read trivial
  rw [withLock_eq]
  refine htoken.bind fun u => (hset u).bind fun ok => ?_
  cases ok with
  | false => exact hend none
  | true => exact (hfn.tryFinally (hrelease _)).bind fun result => hend (some result)

theorem withLock (h : Heedful D q) {key : LockKey} {ttlMs : ℕ} {fn : App α} (hfn : D.Pays i op due fn rest) :
    D.Pays i op due (YatriGo.withLock key ttlMs fn) fun result => result.elim due rest := by
  refine h.lockSection (fun u => (h.command ((h.locks key _).2 ttlMs)).mono subset_rfl fun ok => ?_) hfn
  cases ok <;> exact subset_rfl

theorem locked (h : Heedful D q) {key : LockKey} {ttlMs : ℕ} {fn : App α} {f : Option α → App β}
    (hfn : D.Pays i op ∅ fn fun _ => ∅) (hf : ∀ result, D.Pays i op ∅ (f result) fun _ => ∅) :
    D.Pays i op ∅ ((YatriGo.withLock key ttlMs fn).bind f) fun _ => ∅ := by
  refine (h.withLock hfn).bind fun result => (hf result).mono ?_ fun _ => subset_rfl
  cases result <;> exact subset_rfl

theorem rideLock (h : Heedful D q) {fn : App (Option RideHash)} (hfn : D.Pays i op ∅ fn fun _ => ∅) :
    D.Pays i op ∅ (withRideLock env r fn) fun _ => ∅ := by
  refine h.locked hfn fun result => ?_
  cases result.join with
  | none => exact Debts.Pays.throw subset_rfl
  | some ride => exact Debts.Pays.ret subset_rfl

end Heedful

theorem pays_retryLock {fn : App (Option α)} {rest : Option α → Set ι} (h : D.Pays i op ∅ fn rest)
    (hbusy : rest none = ∅) (n : ℕ) : D.Pays i op ∅ (withRetryLock fn n) rest := by
  induction n with
  | zero => exact Debts.Pays.ret (Set.empty_subset _)
  | succ n ih =>
    refine h.bind fun result => ?_
    cases result with
    | none =>
      rw [hbusy]
      exact ih
    | some result => exact Debts.Pays.ret subset_rfl

theorem pays_discard (hp : D.Pays i op ∅ p fun _ => ∅) : D.Pays i op ∅ (discard p) fun _ => ∅ :=
  hp.bind fun _ => Debts.Pays.ret subset_rfl

/-- What a change of a driver's record leaves owed is paid by a sync job of the driver. -/
structure OfDrivers (D : Debts (system env) ι) (q : ⦃β : Type⦄ → Cmd β → Prop) (owed : DriverId → Set ι) : Prop
    extends Heedful D q where
  persist : ∀ i op d state, D.Pays i op ∅ (persistDriverRealtimeState env d state) fun _ => owed d
  offline : ∀ i op d existing activeRideId now,
    D.Pays i op ∅ (redis (.multi (offlineWrites d existing activeRideId now))) fun _ => owed d
  existsDriver : ∀ i op d, D.Pays i op (owed d) (redis (.existsDriver d)) fun driverExists => if driverExists then owed d else ∅
  driverSync : ∀ i op d reason suffix, D.Pays i op (owed d) (enqueueDriverSync d reason suffix) fun _ => ∅

/-- The parts of the operations that may make news pay what they owe. -/
structure Balanced (D : Debts (system env) ι) (q : ⦃β : Type⦄ → Cmd β → Prop) (owed : DriverId → Set ι) : Prop
    extends OfDrivers D q owed where
  startDispatch : ∀ i op r, op.rescues = false → D.Pays i op ∅ (startDispatch env r) fun _ => ∅
  handleBatchTimeout : ∀ i op r batchId, op.rescues = false → D.Pays i op ∅ (handleBatchTimeout env r batchId) fun _ => ∅
  handleDriverRejection : ∀ i op r d reason, op.rescues = false →
    D.Pays i op ∅ (handleDriverRejection env r d reason) fun _ => ∅
  createRide : ∀ i op c origin destination metadata, op.rescues = false →
    D.Pays i op ∅ (createRide env c origin destination metadata) fun _ => ∅
  transitionUnderLock : ∀ i op r next options, next ≠ .requested ∧ next ≠ .dispatching →
    D.Pays i op ∅ (transitionUnderLock env r next options) fun _ => ∅
  requeueRide : ∀ i op r d ride, op.requeues = true → D.Pays i op ∅ (requeueRide env r d ride) fun _ => ∅
  acceptRide : ∀ i op r d, D.Pays i op ∅ (acceptRide r d) fun _ => ∅
  work : ∀ i job, D.Pays i (.work job) ∅ (work env job) fun _ => ∅

/-- Debts that only the records of rides and drivers can leave: what else a dispatch writes makes no news. -/
structure OfRecords (D : Debts (system env) ι) : Prop extends Heedful D Cmd.uneventful where
  startFirstDispatch : ∀ i op r ride now, D.Pays i op ∅ (startFirstDispatch env r ride now) fun _ => ∅
  exhaustSearch : ∀ i op r ride now, D.Pays i op ∅ (exhaustSearch r ride now) fun _ => ∅
  takeJob : ∀ i job, D.Pays i (.work job) ∅ (redis (.takeJob job)) fun _ => ∅

section writes

theorem hsetRide_sets {fields : List RideField} :
    ∀ w ∈ [Write.hsetRide r fields], ∀ x, w.sets = some x → x = .ride r := by
  intro w hw x hx
  rw [List.mem_singleton.mp hw, Write.sets] at hx
  split_ifs at hx
  exact (Option.some.inj hx).symm

theorem createRide_sets {payload : RideHash} {c : CustomerId} :
    ∀ w ∈ [Write.createRide r payload, .setCustomerActiveRide c r, .saddActiveRide r, .expireRide r],
      ∀ x, w.sets = some x → x = .ride r := by
  intro w hw x hx
  simp only [List.mem_cons, List.not_mem_nil, or_false] at hw
  rcases hw with rfl | rfl | rfl | rfl <;> cases hx
  rfl

theorem requeueRide_sets :
    ∀ w ∈ [Write.delNotified r, .delResponses r, .hsetRide r (requeueFields env ride now), .expireRide r],
      ∀ x, w.sets = some x → x = .ride r := by
  intro w hw x hx
  simp only [List.mem_cons, List.not_mem_nil, or_false] at hw
  rcases hw with rfl | rfl | rfl | rfl <;> cases hx
  rfl

theorem cleanupWrites_sets {c : CustomerId} {ds : List DriverId} {current : Option RideId} :
    ∀ w ∈ cleanupWrites r c ds current, w.sets = none := by
  intro w hw
  simp only [cleanupWrites] at hw
  cases w <;> first | rfl | (exfalso; revert hw; split_ifs <;> simp)

end writes

section returns

theorem returns_releaseDriverReservations {batchId : Option BatchId} {ds : List DriverId} :
    (releaseDriverReservations r batchId ds).NoThrow := by
  cases batchId with
  | none => trivial
  | some batchId => exact .forEach fun _ _ => trivial

theorem returns_clearPendingMembership {ds : List DriverId} : (clearPendingMembership r ds).NoThrow := by
  unfold clearPendingMembership
  split
  · trivial
  · exact fun _ => trivial

end returns

section dispatch

theorem uneventful_multi {pre post : List Write} {fields : List RideField}
    (hf : fields.all RideField.unrecorded = true) (hw : ∀ w ∈ pre ++ post, w.sets = none) :
    (redis (.multi (pre ++ .hsetRide r fields :: post))).Uses Cmd.uneventful := by
  refine ⟨fun w hmem => ?_, fun _ => trivial⟩
  rcases List.mem_append.mp hmem with h | h
  · exact hw w (List.mem_append_left _ h)
  · rcases List.mem_cons.mp h with rfl | h
    · exact if_pos hf
    · exact hw w (List.mem_append_right _ h)

theorem uneventful_endBatch {batchId : BatchId} : (endBatch r ride batchId now).Uses Cmd.uneventful := by
  refine ⟨trivial, fun responses => ?_⟩
  have hmulti : (redis (.multi (timeoutWrites r ride batchId responses now))).Uses Cmd.uneventful := by
    refine uneventful_multi rfl fun w hw => ?_
    simp only [List.append_nil, List.mem_map] at hw
    obtain ⟨d, -, rfl⟩ := hw
    rfl
  refine hmulti.bind fun _ => ?_
  refine slight_releaseDriverReservations.uneventful.bind fun _ => ?_
  refine slight_clearPendingMembership.uneventful.bind fun _ => ?_
  exact slight_appendTimelineEvent.uneventful

theorem uneventful_expandSearch {nextRound : ℕ} {nextRadius : ℚ} :
    (expandSearch env r ride nextRound nextRadius now).Uses Cmd.uneventful := by
  have hupdate : (write (.hsetRide r (expandFields ride nextRound nextRadius now))).Uses Cmd.uneventful := by
    refine @uneventful_multi r [] [] _ rfl fun w hw => ?_
    cases hw
  refine (hupdate.bind fun _ => slight_refreshRideRealtimeKeys.uneventful.bind fun _ =>
    slight_getRide.uneventful).bind fun updated => ?_
  cases updated with
  | none => trivial
  | some updated =>
    refine slight_appendTimelineEvent.uneventful.bind fun _ => ?_
    refine slight_enqueueRideSync.uneventful.bind fun _ => ?_
    exact slight_enqueueDispatchStart.uneventful.bind fun _ => trivial

theorem uneventful_sendBatch {batchId : BatchId} {ds : List DriverId} :
    (sendBatch env r ride batchId ds now).Uses Cmd.uneventful := by
  have hmulti : (redis (.multi (batchWrites r ride batchId ds (now + env.dispatch.responseTtlMs) now))).Uses
      Cmd.uneventful := by
    refine @uneventful_multi r [] _ _ rfl fun w hw => ?_
    obtain ⟨d, -, hd⟩ := List.mem_flatMap.mp hw
    simp only [List.mem_cons, List.not_mem_nil, or_false] at hd
    rcases hd with rfl | rfl | rfl <;> rfl
  refine hmulti.bind fun _ => slight_getRide.uneventful.bind fun updated => ?_
  cases updated with
  | none => trivial
  | some updated =>
    refine slight_appendTimelineEvent.uneventful.bind fun _ => ?_
    refine slight_enqueueRideSync.uneventful.bind fun _ => ?_
    refine slight_enqueueBatchTimeout.uneventful.bind fun _ => ?_
    exact Prog.Uses.bind (.forEach fun _ _ => slight_publish.uneventful) fun _ => trivial

namespace OfRecords

theorem findDrivers (h : OfRecords D) {dispatchRound : ℕ} {searchRadiusKm : ℚ} :
    D.Pays i op ∅ (findDrivers env r ride dispatchRound searchRadiusKm now) fun _ => ∅ := by
  refine (h.read (by trivial)).bind fun notifiedDrivers => ?_
  refine (h.still slight_getNearestAvailableDrivers.uneventful).bind fun candidates => ?_
  refine (h.read (by trivial)).bind fun batchId => ?_
  refine (h.still (slight_reserveLoop _ _).uneventful).bind fun batchDrivers => ?_
  split_ifs
  · exact h.exhaustSearch i op r ride now
  · exact h.still uneventful_expandSearch
  · exact h.still uneventful_sendBatch

theorem continueDispatch (h : OfRecords D) {dispatchRound : ℕ} {searchRadiusKm : ℚ} :
    D.Pays i op ∅ (continueDispatch env r ride dispatchRound searchRadiusKm now) fun _ => ∅ := by
  unfold YatriGo.continueDispatch
  cases openBatch ride with
  | none => exact h.findDrivers
  | some batchId =>
    dsimp only
    split_ifs
    · exact Debts.Pays.ret subset_rfl
    · refine (h.still uneventful_endBatch).bind fun _ => ?_
      refine (h.still slight_getRide.uneventful).bind fun updated => ?_
      cases updated with
      | none => exact Debts.Pays.throw subset_rfl
      | some updated => exact h.findDrivers

theorem dispatchUnderLock (h : OfRecords D) : D.Pays i op ∅ (dispatchUnderLock env r) fun _ => ∅ := by
  refine (h.still slight_getRide.uneventful).bind fun read => ?_
  cases read with
  | none => exact Debts.Pays.ret subset_rfl
  | some read =>
    dsimp only
    split_ifs
    · exact Debts.Pays.ret subset_rfl
    · refine (h.read (by trivial)).bind fun now => ?_
      exact (h.startFirstDispatch i op r read now).bind fun _ => h.continueDispatch
    · exact (h.read (by trivial)).bind fun now => h.continueDispatch

theorem handleBatchTimeout (h : OfRecords D) {batchId : BatchId} :
    D.Pays i op ∅ (handleBatchTimeout env r batchId) fun _ => ∅ := by
  refine h.rideLock ((h.still slight_getRide.uneventful).bind fun ride => ?_)
  cases ride with
  | none => exact Debts.Pays.ret subset_rfl
  | some ride =>
    dsimp only
    split_ifs
    · exact Debts.Pays.ret subset_rfl
    · refine (h.read (by trivial)).bind fun now => ?_
      refine (h.still uneventful_endBatch).bind fun _ => ?_
      refine (h.still slight_getRide.uneventful).bind fun updated => ?_
      cases updated with
      | none => exact Debts.Pays.throw subset_rfl
      | some updated => exact (h.still slight_enqueueRideSync.uneventful).bind fun _ => h.dispatchUnderLock

theorem rejectUnderLock (h : OfRecords D) {reason : Response} {responses : DriverId → Option Response} :
    D.Pays i op ∅ (rejectUnderLock env r d reason ride now responses) fun _ => ∅ := by
  have hmulti : (redis (.multi (rejectWrites r ride d reason (batchExhausted ride d responses) now))).Uses
      Cmd.uneventful := by
    refine @uneventful_multi r [.hsetResponse r d reason, .sremPending d r] [] _ rfl fun w hw => ?_
    simp only [List.append_nil, List.mem_cons, List.not_mem_nil, or_false] at hw
    rcases hw with rfl | rfl <;> rfl
  refine (h.still hmulti).bind fun _ => ?_
  refine (h.still slight_applyRejectCooldown.uneventful).bind fun _ => ?_
  refine (h.still slight_releaseDriverReservations.uneventful).bind fun _ => ?_
  refine (h.still slight_appendTimelineEvent.uneventful).bind fun _ => ?_
  refine (h.still slight_getRide.uneventful).bind fun updated => ?_
  cases updated with
  | none => exact Debts.Pays.throw subset_rfl
  | some updated =>
    refine (h.still slight_enqueueRideSync.uneventful).bind fun _ => ?_
    split_ifs
    · exact (h.still slight_releaseDriverReservations.uneventful).bind fun _ => h.dispatchUnderLock
    · exact Debts.Pays.ret subset_rfl

theorem handleDriverRejection (h : OfRecords D) {reason : Response} :
    D.Pays i op ∅ (handleDriverRejection env r d reason) fun _ => ∅ := by
  refine h.rideLock ((h.still slight_getRide.uneventful).bind fun ride => ?_)
  cases ride with
  | none => exact Debts.Pays.ret subset_rfl
  | some ride =>
    dsimp only
    split_ifs
    · exact Debts.Pays.ret subset_rfl
    · refine (h.read (by trivial)).bind fun now => ?_
      refine (h.read (by trivial)).bind fun responses => ?_
      split_ifs
      · exact Debts.Pays.ret subset_rfl
      · exact h.rejectUnderLock

theorem work (h : OfRecords D) {job : JobId} : D.Pays i (.work job) ∅ (work env job) fun _ => ∅ := by
  have hret : ∀ result : Bool, D.Pays i (.work job) ∅ (.ret result : App Bool) fun _ => ∅ :=
    fun result => Debts.Pays.ret subset_rfl
  have hjob : D.Pays i (.work job) ∅ (handleJob env job) fun _ => ∅ := by
    cases job with
    | dispatchStart r version reason =>
      have hend : ∀ op : Op, D.Pays i op ∅ (.ret () : App Unit) fun _ => ∅ := fun op => Debts.Pays.ret subset_rfl
      exact ((h.rideLock h.dispatchUnderLock).bind fun _ => hend _).tryCatch fun _ => hend _
    | dispatchTimeout r batchId => exact h.handleBatchTimeout.bind fun _ => Debts.Pays.ret subset_rfl
    | persistRide r version => exact h.still slight_syncRide.uneventful
    | persistDriver d reason suffix => exact h.still slight_syncDriver.uneventful
  refine (h.takeJob i job).bind fun taken => ?_
  cases taken with
  | false => exact Debts.Pays.ret subset_rfl
  | true =>
    refine ((hjob.bind fun _ => hret true).tryCatch fun _ => hret false).bind fun succeeded => ?_
    exact h.read (by trivial)

end OfRecords

end dispatch

section transitions

namespace Balanced

theorem transitionRide (h : Balanced D q owed) {next : RideStatus} {options : TransitionOptions}
    (hto : next ≠ .requested ∧ next ≠ .dispatching) :
    D.Pays i op ∅ (transitionRide env r next options) fun _ => ∅ := by
  refine h.locked (h.transitionUnderLock i op r next options hto) fun result => ?_
  cases result.join with
  | none => exact Debts.Pays.throw subset_rfl
  | some ride => exact Debts.Pays.ret subset_rfl

theorem cancelRide (h : Balanced D q owed) {actorType : ActorType} {actorId : Option ℕ} {reason : String} :
    D.Pays i op ∅ (cancelRide env r actorType actorId reason) fun _ => ∅ := by
  refine (h.pass slight_getRide).bind fun ride => ?_
  cases ride with
  | none => exact Debts.Pays.throw subset_rfl
  | some ride =>
    dsimp only
    split_ifs
    · exact Debts.Pays.ret subset_rfl
    · exact h.transitionRide (by decide)

theorem transitionByDriver (h : Balanced D q owed) {next : RideStatus} (hto : next ≠ .requested ∧ next ≠ .dispatching) :
    D.Pays i op ∅ (transitionByDriver env next r d) fun _ => ∅ := by
  refine (h.pass slight_getRide).bind fun ride => ?_
  split_ifs
  · exact h.transitionRide hto
  · exact Debts.Pays.throw subset_rfl

theorem requestRide (h : Balanced D q owed) {c : CustomerId} {origin destination : Location} {metadata : Metadata}
    (hop : op.rescues = false) :
    D.Pays i op ∅ (requestRide env c origin destination metadata) fun _ => ∅ := by
  have hlocked : D.Pays i op ∅ (requestUnderLock env c origin destination metadata) fun _ => ∅ := by
    refine (h.read (by trivial)).bind fun activeRideId => ?_
    have hexisting : Slight (getExistingRide activeRideId) := by
      cases activeRideId with
      | none => trivial
      | some rideId => exact slight_getRide
    refine (h.pass hexisting).bind fun existingRide => ?_
    split_ifs
    · exact Debts.Pays.throw subset_rfl
    · exact h.createRide i op c origin destination metadata hop
  refine h.locked hlocked fun result => ?_
  cases result with
  | none => exact Debts.Pays.throw subset_rfl
  | some ride => exact Debts.Pays.ret subset_rfl

theorem requeueRideAfterDriverLoss (h : Balanced D q owed) (hop : op.requeues = true) :
    D.Pays i op ∅ (requeueRideAfterDriverLoss env r d) fun _ => ∅ := by
  have hlocked : D.Pays i op ∅ (requeueUnderLock env r d) fun _ => ∅ := by
    refine (h.pass slight_getRide).bind fun ride => ?_
    cases ride with
    | none => exact Debts.Pays.ret subset_rfl
    | some ride =>
      dsimp only
      split_ifs
      · exact Debts.Pays.ret subset_rfl
      · exact Debts.Pays.ret subset_rfl
      · exact h.requeueRide i op r d ride hop
  refine h.locked hlocked fun result => ?_
  cases result.join with
  | none => exact Debts.Pays.throw subset_rfl
  | some ride => exact Debts.Pays.ret subset_rfl

end Balanced

end transitions

section drivers

namespace OfDrivers

theorem getDriverState (h : OfDrivers D q owed) : D.Pays i op due (getDriverState d) fun _ => due :=
  h.quiet (h.uses slight_getDriverState) fun _ => trivial

theorem goOnline (h : OfDrivers D q owed) {lat lng : Option ℚ} {socketId : Option SocketId} :
    D.Pays i op ∅ (goOnline env d lat lng socketId) fun _ => ∅ := by
  refine (pays_retryLock (h.withLock (show D.Pays i op ∅ _ fun _ => owed d from ?_)) rfl 3).bind fun result => ?_
  · refine h.getDriverState.bind fun existing => ?_
    refine (h.read (by trivial)).bind fun activeRide => ?_
    refine (h.read (by trivial)).bind fun now => ?_
    exact (h.persist i op d _).bind fun _ => Debts.Pays.ret subset_rfl
  · cases result with
    | none =>
      refine (h.read (by trivial)).bind fun driverExists => ?_
      split_ifs
      · exact Debts.Pays.throw subset_rfl
      · exact Debts.Pays.throw subset_rfl
    | some result =>
      refine (h.existsDriver i op d).bind fun driverExists => ?_
      cases driverExists with
      | false => exact Debts.Pays.throw subset_rfl
      | true =>
        refine (h.driverSync i op d .online _).bind fun _ => h.pass ?_
        exact slight_publish.bind fun _ => trivial

theorem heartbeat (h : OfDrivers D q owed) {lat lng : Option ℚ} {socketId : Option SocketId} :
    D.Pays i op ∅ (heartbeat env d lat lng socketId) fun _ => ∅ := by
  refine (pays_retryLock (h.withLock (show D.Pays i op ∅ _ fun _ => owed d from ?_)) rfl 3).bind fun result => ?_
  · refine h.getDriverState.bind fun existing => ?_
    cases existing with
    | none => exact Debts.Pays.throw subset_rfl
    | some existing =>
      dsimp only
      split_ifs
      · exact Debts.Pays.ret (Set.empty_subset _)
      · refine (h.read (by trivial)).bind fun now => ?_
        exact (h.persist i op d _).bind fun _ => Debts.Pays.ret subset_rfl
  · cases result with
    | none => exact Debts.Pays.throw subset_rfl
    | some result => exact (h.driverSync i op d .heartbeat _).bind fun _ => Debts.Pays.ret subset_rfl

theorem goOffline (h : OfDrivers D q owed) : D.Pays i op ∅ (goOffline env d) fun _ => ∅ := by
  refine (h.withLock (show D.Pays i op ∅ _ fun _ => owed d from ?_)).bind fun result => ?_
  · refine h.getDriverState.bind fun existing => ?_
    refine (h.read (by trivial)).bind fun pendingRideIds => ?_
    refine (h.read (by trivial)).bind fun activeRide => ?_
    refine (h.read (by trivial)).bind fun now => ?_
    refine (h.offline i op d existing _ now).bind fun _ => ?_
    refine (h.quiet (h.uses slight_publish) gentle_publish.returns).bind fun _ => ?_
    exact Debts.Pays.ret subset_rfl
  · cases result with
    | none => exact Debts.Pays.throw subset_rfl
    | some result =>
      refine (h.read (by trivial)).bind fun now => ?_
      exact (h.driverSync i op d .offline _).bind fun _ => Debts.Pays.ret subset_rfl

theorem restoreDriverSession (h : OfDrivers D q owed) {socketId : Option SocketId} :
    D.Pays i op ∅ (restoreDriverSession env d socketId) fun _ => ∅ := by
  refine (h.withLock (show D.Pays i op ∅ _ fun restored => restored.elim ∅ fun _ => owed d from ?_)).bind fun result => ?_
  · refine h.getDriverState.bind fun existing => ?_
    cases existing with
    | none => exact Debts.Pays.ret subset_rfl
    | some existing =>
      dsimp only
      split_ifs
      · exact Debts.Pays.ret subset_rfl
      · refine (h.read (by trivial)).bind fun now => ?_
        exact (h.persist i op d _).bind fun _ => Debts.Pays.ret subset_rfl
  · cases result with
    | none => exact Debts.Pays.ret subset_rfl
    | some restored =>
      cases restored with
      | none => exact Debts.Pays.ret subset_rfl
      | some restored => exact (h.driverSync i op d .reconnect _).bind fun _ => Debts.Pays.ret subset_rfl

end OfDrivers

end drivers

section system

namespace Balanced

theorem handleDriverDrop (h : Balanced D q owed) {activeRideId : Option RideId} {pendingRideIds : List RideId}
    {reason : Response} (hop : op.rescues = false) :
    D.Pays i op ∅ (handleDriverDrop env d activeRideId pendingRideIds reason) fun _ => ∅ := by
  refine Debts.Pays.bind (Debts.Pays.forEach fun r =>
    (h.handleDriverRejection i op r d reason hop).bind fun _ => Debts.Pays.ret subset_rfl) fun _ => h.pass ?_
  cases activeRideId with
  | none => trivial
  | some activeRideId =>
    refine slight_getRide.bind fun ride => ?_
    cases ride with
    | none => trivial
    | some ride =>
      dsimp only
      split_ifs
      · exact ⟨trivial, fun now => slight_publish⟩
      · trivial

theorem scanStaleDriversLoop (h : Balanced D q owed) (ds : List DriverId) :
    D.Pays i op ∅ (scanStaleDriversLoop env ds) fun _ => ∅ := by
  induction ds with
  | nil => exact Debts.Pays.ret subset_rfl
  | cons d ds ih =>
    refine (h.read (by trivial)).bind fun heartbeatExists => ?_
    split_ifs
    · exact ih
    · refine h.goOffline.bind fun impact => ?_
      refine (h.read (by trivial)).bind fun _ => ?_
      exact ih.bind fun _ => Debts.Pays.ret subset_rfl

/-- Every operation pays what it owes. -/
theorem code (h : Balanced D q owed) (i : ℕ) (op : Op) : D.Pays i op ∅ (code env op) fun _ => ∅ := by
  cases op with
  | requestRide c origin destination metadata => exact pays_discard (h.requestRide rfl)
  | startDispatch r => exact pays_discard (h.startDispatch i _ r rfl)
  | handleBatchTimeout r batchId => exact pays_discard (h.handleBatchTimeout i _ r batchId rfl)
  | handleDriverRejection r d reason => exact pays_discard (h.handleDriverRejection i _ r d reason rfl)
  | acceptRide r d => exact pays_discard (h.acceptRide i _ r d)
  | markDriverArriving r d => exact pays_discard (h.transitionByDriver (by decide))
  | startRide r d => exact pays_discard (h.transitionByDriver (by decide))
  | completeRide r d => exact pays_discard (h.transitionByDriver (by decide))
  | cancelRide r actorType actorId reason => exact pays_discard h.cancelRide
  | requeueRideAfterDriverLoss r d => exact pays_discard (h.requeueRideAfterDriverLoss rfl)
  | goOnline d lat lng socketId => exact pays_discard h.goOnline
  | heartbeat d lat lng socketId => exact pays_discard h.heartbeat
  | goOffline d => exact pays_discard h.goOffline
  | goOfflineAndDrop d reason => exact h.goOffline.bind fun _ => h.handleDriverDrop rfl
  | restoreDriverSession d socketId => exact pays_discard h.restoreDriverSession
  | scanStaleDriversAndRecover =>
    refine Debts.Pays.bind ((h.read (by trivial)).bind fun ds => h.scanStaleDriversLoop ds) fun _ => ?_
    exact Debts.Pays.forEach fun _ => h.handleDriverDrop rfl
  | recoverDispatchingRides => exact h.pass slight_recoverDispatchingRides
  | work job => exact h.work i job

end Balanced

end system

end YatriGo
