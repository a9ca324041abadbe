import YatriGo.Proofs.Balanced

/-! Every operation that changes a record adds a sync job for it before it ends, also where it
throws. The driver of a ride that is requeued is the exception, so it is assumed that a requeue
leaves the records of drivers as they are. -/

namespace YatriGo
open Concurrent

/-- The entities for which the command adds a sync job. -/
def Cmd.tells : ⦃β : Type⦄ → Cmd β → Set Entity
  | _, .addJob job _ => {x | job.entity = some x}
  | _, _ => ∅

def Cmd.keepsDrivers (s : Store) : ⦃β : Type⦄ → Cmd β → Prop
  | _, .multi ws => ∀ d, (s.multi ws).record (.driver d) = s.record (.driver d)
  | _, _ => True

/-- A job is taken by the worker that executes it. -/
def Cmd.takenBy (op : Op) : ⦃β : Type⦄ → Cmd β → Prop
  | _, .takeJob job => op = .work job
  | _, _ => True

def syncs (env : Env) : Debts (system env) Entity where
  known := Store.knows
  changed := fun s t x => t.record x ≠ s.record x
  pays := fun _ c _ => c.tells
  assume := fun _ op _ c s => op.requeues = true → c.keepsDrivers s
  perform := fun op _ c _ => c.takenBy op

/-- The program runs in thread `i`, and starts with sync jobs to add for `due`. -/
abbrev Pays (env : Env) (i : ℕ) (op : Op) (due : Set Entity) {α : Type} (p : App α) (rest : α → Set Entity) : Prop :=
  (syncs env).Pays i op due p rest

variable {env : Env} {i : ℕ} {op : Op} {α β : Type} {p : App α} {due : Set Entity} {rest : α → Set Entity}
  {r : RideId} {d : DriverId} {ride : RideHash} {now : Time}

section rules

theorem news_of_sets {c : Cmd β} {s : Store} {x : Entity}
    (h : (syncs env).changed s ((system env).exec i c s).2 x) : x ∈ c.sets := by
  by_contra hx
  exact h (exec_record hx)

theorem Cmd.uneventful.takenBy {c : Cmd β} (h : c.uneventful) : c.takenBy op := by
  cases c with
  | takeJob job => exact h.elim
  | _ => trivial

theorem heedful_syncs : Heedful (syncs env) Cmd.uneventful where
  slight := fun _ _ hc => hc.uneventful
  locks := fun _ _ => ⟨trivial, fun _ => trivial⟩
  perform := fun _ _ _ _ hc => hc.takenBy
  news := fun _ _ _ _ _ hc _ hnews => hc.not_mem (news_of_sets hnews)

theorem pays_command {c : Cmd α} (hc : c.takenBy op) :
    Pays env i op due (redis c) fun _ => (due ∪ c.sets) \ c.tells :=
  Debts.Pays.command _ (fun _ => hc) (fun _ => subset_rfl) fun _ _ _ _ hnews => news_of_sets hnews

theorem pays_addJob {job : JobId} {delay : ℕ} {x : Entity} (hx : job.entity = some x) :
    Pays env i op (insert x due) (redis (.addJob job delay)) fun _ => due := by
  refine (pays_command (by trivial)).mono subset_rfl fun _ => ?_
  rintro y ⟨hy | hy, huntold⟩
  · exact hy.resolve_left fun heq => huntold (heq ▸ hx)
  · exact hy.elim

theorem pays_enqueueRideSync {version : ℕ} :
    Pays env i op (insert (.ride r) due) (enqueueRideSync r version) fun _ => due := pays_addJob rfl

theorem pays_enqueueDriverSync {reason : SyncReason} {suffix : Option Time} :
    Pays env i op (insert (.driver d) due) (enqueueDriverSync d reason suffix) fun _ => due := by
  cases suffix with
  | some suffix => exact pays_addJob rfl
  | none => exact (heedful_syncs.read (by trivial)).bind fun _ => pays_addJob rfl

theorem pays_getRide {f : Option RideHash → App β} {rest : β → Set Entity}
    (hnone : Pays env i op (due \ {.ride r}) (f none) rest)
    (hsome : ∀ ride, Pays env i op due (f (some ride)) rest) : Pays env i op due ((getRide r).bind f) rest := by
  simp only [getRide, redis, Prog.bind_eq, Prog.perform_bind, Prog.cmd_bind, Prog.pure_eq, Prog.ret_bind]
  refine Debts.Pays.cmd (fun _ => trivial) fun s hs _ => ?_
  have hread : Cmd.uneventful (.hgetallRide r) := trivial
  have hafter : (syncs env).Owing due (((syncs env).view i op).exec (.hgetallRide r) s).2 :=
    hs.noNews fun x _ hnews => hread.not_mem (news_of_sets hnews)
  show ((syncs env).view i op).Safe _ (f (toRideSnapshot (s.1.ride r))) _
  unfold toRideSnapshot
  split_ifs with hexist
  · exact hnone _ (hafter.without fun hknown => hknown hexist)
  · exact hsome _ _ hafter

theorem pays_getRide_after {f : Option RideHash → App β} {rest : β → Set Entity} {e : AppError}
    (hnone : f none = .throw e) (hsome : ∀ ride, Pays env i op {.ride r} (f (some ride)) rest) :
    Pays env i op {.ride r} ((getRide r).bind f) rest := by
  refine pays_getRide ?_ hsome
  rw [hnone]
  exact Debts.Pays.throw fun x hx => hx.2 hx.1

theorem pays_writes {x : Entity} {ws : List Write} (h : ∀ w ∈ ws, ∀ y, w.sets = some y → y = x) :
    Pays env i op due (redis (.multi ws)) fun _ => insert x due := by
  refine (pays_command (by trivial)).mono subset_rfl fun _ => ?_
  rintro y ⟨hy | ⟨w, hw, hsets⟩, -⟩
  · exact .inr hy
  · exact .inl (h w hw y hsets)

theorem pays_hset {fields : List RideField} :
    Pays env i op ∅ (write (.hsetRide r fields)) fun _ => {.ride r} := by
  rw [← insert_empty_eq]
  exact pays_writes hsetRide_sets

theorem pays_updateRideHash {fields : List RideField} {f : Option RideHash → App β} {rest : β → Set Entity}
    {e : AppError} (hnone : f none = .throw e) (hsome : ∀ ride, Pays env i op {.ride r} (f (some ride)) rest) :
    Pays env i op ∅ ((updateRideHash r fields).bind f) rest := by
  simp only [updateRideHash, Prog.bind_eq, Prog.bind_assoc]
  refine pays_hset.bind fun _ => ?_
  refine (heedful_syncs.quiet slight_refreshRideRealtimeKeys.uneventful returns_refreshRideRealtimeKeys).bind fun _ => ?_
  exact pays_getRide_after hnone hsome

theorem pays_append {due : Set Entity} {event : TimelineEventType} {actorType : ActorType} {actorId : Option ℕ} :
    Pays env i op due (appendTimelineEvent r event actorType actorId now) fun _ => due :=
  heedful_syncs.quiet slight_appendTimelineEvent.uneventful returns_appendTimelineEvent

theorem pays_rideSync {version : ℕ} {p : App α} (hp : p.Uses Cmd.uneventful) :
    Pays env i op {.ride r} ((enqueueRideSync r version).bind fun _ => p) fun _ => ∅ := by
  have hsync : Pays env i op (insert (.ride r) ∅) (enqueueRideSync r version) fun _ => ∅ := pays_enqueueRideSync
  rw [insert_empty_eq] at hsync
  exact hsync.bind fun _ => heedful_syncs.still hp

end rules

section drivers

theorem Write.peripheral.sets {w : Write} {x : Entity} (h : w.peripheral) (hx : w.sets = some x) :
    ∃ d fields, w = .hsetDriver d fields ∧ x = .driver d := by
  cases w with
  | createRide r payload => exact h.elim
  | hsetRide r fields => exact h.elim
  | hsetDriver d fields => exact ⟨d, fields, rfl, (Option.some.inj hx).symm⟩
  | _ => cases hx

theorem releaseWrites_sets {hash : DriverHash} {active : Option RideId} {heartbeatExists : Bool} :
    ∀ w ∈ releaseWrites d r hash active heartbeatExists now, ∀ x, w.sets = some x → x = .driver d := by
  intro w hw x hx
  obtain ⟨d', fields, rfl, rfl⟩ := (releaseWrites_peripheral w hw).sets hx
  simp only [releaseWrites] at hw
  revert hw
  split_ifs <;> repeat' split
  all_goals simp +contextual

theorem persistWrites_sets {state : DriverState} :
    ∀ w ∈ persistWrites env d state, ∀ x, w.sets = some x → x = .driver d := by
  intro w hw x hx
  obtain ⟨d', fields, rfl, rfl⟩ := ((BackgroundWrites.persist d state).peripheral w hw).sets hx
  simp only [persistWrites] at hw
  revert hw
  split_ifs <;> repeat' split
  all_goals simp +contextual

theorem offlineWrites_sets {existing : Option DriverState} {activeRideId : Option RideId} :
    ∀ w ∈ offlineWrites d existing activeRideId now, ∀ x, w.sets = some x → x = .driver d := by
  intro w hw x hx
  simp only [offlineWrites, List.mem_cons, List.not_mem_nil, or_false] at hw
  rcases hw with rfl | rfl | rfl | rfl | rfl | rfl | rfl <;> cases hx
  rfl

theorem pays_releaseDriverAvailability {due : Set Entity} :
    Pays env i op due (releaseDriverAvailability (some d) r now) fun _ => insert (.driver d) due := by
  refine (heedful_syncs.read (by trivial)).bind fun driverHash => ?_
  refine (heedful_syncs.read (by trivial)).bind fun driverActiveRide => ?_
  refine (heedful_syncs.read (by trivial)).bind fun heartbeatExists => ?_
  exact pays_writes releaseWrites_sets

theorem pays_cleanupTerminalRideKeys {due : Set Entity} :
    Pays env i op due (cleanupTerminalRideKeys r ride now) fun _ => due := by
  refine (heedful_syncs.read (by trivial)).bind fun notifiedDrivers => ?_
  refine (heedful_syncs.read (by trivial)).bind fun currentCustomerRide => ?_
  have hcleanup : Cmd.uneventful (.multi (cleanupWrites r ride.customerId notifiedDrivers currentCustomerRide)) :=
    cleanupWrites_sets
  refine (heedful_syncs.command hcleanup).bind fun _ => ?_
  refine (heedful_syncs.quiet slight_releaseBatchReservations.uneventful returns_releaseBatchReservations).bind fun _ => ?_
  unfold releaseRideDriver
  cases ride.driverId with
  | none => exact Debts.Pays.ret subset_rfl
  | some d => exact pays_releaseDriverAvailability.bind fun _ => pays_enqueueDriverSync

end drivers

section dispatch

theorem pays_startFirstDispatch : Pays env i op ∅ (startFirstDispatch env r ride now) fun _ => ∅ := by
  simp only [startFirstDispatch, Prog.bind_eq]
  have hupdate : Pays env i op ∅ (updateRideHash r (startFields env ride now)) fun _ => {.ride r} := by
    refine pays_hset.bind fun _ => heedful_syncs.quiet ?_ fun _ _ => trivial
    exact slight_refreshRideRealtimeKeys.uneventful.bind fun _ => slight_getRide.uneventful
  refine hupdate.bind fun _ => pays_getRide_after rfl fun ride => ?_
  refine pays_append.bind fun _ => pays_rideSync ?_
  exact slight_emitRideStatusUpdate.uneventful.bind fun _ => trivial

theorem pays_exhaustSearch : Pays env i op ∅ (exhaustSearch r ride now) fun _ => ∅ := by
  refine pays_updateRideHash rfl fun updated => ?_
  refine pays_append.bind fun _ => ?_
  refine pays_cleanupTerminalRideKeys.bind fun _ => pays_rideSync ?_
  exact slight_emitRideStatusUpdate.uneventful.bind fun _ => trivial

end dispatch

section transitions

theorem pays_finishTransition {next : RideStatus} {notifiedDrivers : List DriverId} :
    Pays env i op {.ride r} (finishTransition r next ride notifiedDrivers now) fun _ => ∅ := by
  have htell : (Prog.forEach (fun d => emitRideCancelledToDriver d r ride.version)
      (notifiedDrivers ++ ride.driverId.toList.filter (· ∉ notifiedDrivers)) : App Unit).Uses Cmd.uneventful :=
    .forEach fun _ _ => slight_publish.uneventful
  have hend : ∀ p : App (Option RideHash), p.Uses Cmd.uneventful → Pays env i op {.ride r}
      ((enqueueRideSync r ride.version).bind fun _ => (notifyRideStatusUpdate r ride).bind fun _ =>
        (emitRideStatusUpdate r ride).bind fun _ => p) fun _ => ∅ := by
    refine fun p hp => pays_rideSync (slight_emitRideStatusUpdate.uneventful.bind fun _ => ?_)
    exact slight_emitRideStatusUpdate.uneventful.bind fun _ => hp
  simp only [finishTransition, Prog.bind_eq, Prog.pure_eq]
  split_ifs
  · exact pays_cleanupTerminalRideKeys.bind fun _ => hend _ (htell.bind fun _ => trivial)
  · exact pays_cleanupTerminalRideKeys.bind fun _ => hend _ trivial
  · exact hend _ (htell.bind fun _ => trivial)
  · exact hend _ trivial

theorem pays_transitionUnderLock {next : RideStatus} {options : TransitionOptions} :
    Pays env i op ∅ (transitionUnderLock env r next options) fun _ => ∅ := by
  have hafter : ∀ now, Pays env i op {.ride r} (afterTransition r next options now) fun _ => ∅ := by
    intro now
    refine (heedful_syncs.quiet slight_refreshRideRealtimeKeys.uneventful returns_refreshRideRealtimeKeys).bind fun _ => ?_
    refine pays_append.bind fun _ => pays_getRide ?_ fun snapshot => ?_
    · refine ((heedful_syncs.quiet slight_readNotifiedDrivers.uneventful returns_readNotifiedDrivers).bind fun _ => ?_)
      exact Debts.Pays.throw fun x hx => hx.2 hx.1
    · refine (heedful_syncs.quiet slight_readNotifiedDrivers.uneventful returns_readNotifiedDrivers).bind fun _ => ?_
      exact pays_finishTransition
  refine (heedful_syncs.still slight_getRide.uneventful).bind fun ride => ?_
  cases ride with
  | none => exact Debts.Pays.throw subset_rfl
  | some ride =>
    dsimp only
    split_ifs
    · exact heedful_syncs.still slight_getRide.uneventful
    · refine (heedful_syncs.still slight_assertTransition.uneventful).bind fun _ => ?_
      refine (heedful_syncs.read (by trivial)).bind fun now => ?_
      exact pays_hset.bind fun _ => hafter now

theorem pays_createRide {c : CustomerId} {origin destination : Location} {metadata : Metadata} :
    Pays env i op ∅ (createRide env c origin destination metadata) fun _ => ∅ := by
  refine (heedful_syncs.read (by trivial)).bind fun now => ?_
  refine (heedful_syncs.read (by trivial)).bind fun rideId => ?_
  refine (pays_writes createRide_sets).bind fun _ => ?_
  rw [insert_empty_eq]
  refine pays_append.bind fun _ => ?_
  refine (heedful_syncs.quiet slight_refreshRideRealtimeKeys.uneventful returns_refreshRideRealtimeKeys).bind fun _ => ?_
  refine pays_rideSync (slight_publish.uneventful.bind fun _ => ?_)
  exact slight_enqueueDispatchStart.uneventful.bind fun _ => trivial

theorem pays_requeueRelease (hop : op.requeues = true) :
    Pays env i op ∅ (releaseDriverAvailability (some d) r now) fun _ => ∅ := by
  refine (heedful_syncs.read (by trivial)).bind fun driverHash => ?_
  refine (heedful_syncs.read (by trivial)).bind fun driverActiveRide => ?_
  refine (heedful_syncs.read (by trivial)).bind fun heartbeatExists => ?_
  generalize hws : releaseWrites d r driverHash driverActiveRide heartbeatExists now = ws
  refine Debts.Pays.cmd (fun _ => trivial) fun s hs hassume => ?_
  refine Debts.Pays.ret subset_rfl _ (hs.noNews fun x _ hnews => ?_)
  obtain ⟨w, hw, hsets⟩ := news_of_sets hnews
  rw [← hws] at hw
  obtain rfl : x = .driver d := releaseWrites_sets w hw x hsets
  exact hnews (hassume hop d)

theorem pays_requeueRide (hop : op.requeues = true) : Pays env i op ∅ (requeueRide env r d ride) fun _ => ∅ := by
  refine (heedful_syncs.read (by trivial)).bind fun now => (pays_requeueRelease hop).bind fun _ => ?_
  refine (pays_writes requeueRide_sets).bind fun _ => ?_
  rw [insert_empty_eq]
  refine pays_append.bind fun _ => pays_getRide_after rfl fun updated => ?_
  refine pays_rideSync (slight_emitRideStatusUpdate.uneventful.bind fun _ => ?_)
  exact slight_enqueueDispatchStart.uneventful.bind fun _ => trivial

end transitions

section acceptance

/-- The accepted ride exists, so the snapshot is there, and both jobs are added. -/
theorem safe_afterAccept {batchId : Option BatchId} {otherDrivers : List DriverId} {acceptedAt : Time}
    {s : Store × Set Entity} (hs : (syncs env).Owing {.ride r, .driver d} s) (hknown : s.1.knows (.ride r)) :
    ((syncs env).view i op).Safe (fun e t => (syncs env).Owing (Debts.left (fun _ => ∅) e) t)
      (afterAccept r d batchId otherDrivers acceptedAt) s := by
  intro t ht _
  have hstatus : (t.1.ride r).status ≠ none := ht.1 (.ride r) hknown
  have hread : Cmd.uneventful (.hgetallRide r) := trivial
  have howing : (syncs env).Owing {.ride r, .driver d} (((syncs env).view i op).exec (.hgetallRide r) t).2 :=
    (hs.rely ht).noNews fun x _ hnews => hread.not_mem (news_of_sets hnews)
  refine ⟨trivial, ?_⟩
  show ((syncs env).view i op).Safe _ (Prog.bind (.ret (toRideSnapshot (t.1.ride r))) _) _
  rw [toRideSnapshot, if_neg hstatus, Prog.ret_bind]
  dsimp only
  generalize t.1.ride r = ride
  have hrest : Pays env i op {.ride r, .driver d} (do
      releaseDriverReservations r batchId otherDrivers
      clearPendingMembership r otherDrivers
      appendTimelineEvent r .driverAccepted .driver (some d) acceptedAt
      enqueueRideSync r ride.version
      enqueueDriverSync d (.ride .accepted) none
      notifyDriverAssigned r ride
      notifyRideStatusUpdate r ride
      emitRideAssignedToDriver d r ride
      emitRideStatusUpdate r ride
      .forEach (fun otherDriverId => emitRideCancelledToDriver otherDriverId r ride.version) otherDrivers
      return ride) fun _ => ∅ := by
    refine (heedful_syncs.quiet slight_releaseDriverReservations.uneventful returns_releaseDriverReservations).bind fun _ => ?_
    refine (heedful_syncs.quiet slight_clearPendingMembership.uneventful returns_clearPendingMembership).bind fun _ => ?_
    refine pays_append.bind fun _ => pays_enqueueRideSync.bind fun _ => ?_
    have hsync : Pays env i op (insert (.driver d) ∅) (enqueueDriverSync d (.ride .accepted) none) fun _ => ∅ :=
      pays_enqueueDriverSync
    rw [insert_empty_eq] at hsync
    refine hsync.bind fun _ => heedful_syncs.still ?_
    refine slight_publish.uneventful.bind fun _ => ?_
    refine slight_emitRideStatusUpdate.uneventful.bind fun _ => ?_
    refine slight_publish.uneventful.bind fun _ => ?_
    refine slight_emitRideStatusUpdate.uneventful.bind fun _ => ?_
    exact Prog.Uses.bind (.forEach fun _ _ => slight_publish.uneventful) fun _ => trivial
  exact hrest _ howing

theorem pays_acceptRide : Pays env i op ∅ (acceptRide r d) fun _ => ∅ := by
  refine (heedful_syncs.still slight_getRide.uneventful).bind fun preAcceptRide => ?_
  refine (heedful_syncs.read (by trivial)).bind fun acceptedAt => ?_
  refine Debts.Pays.cmd (fun _ => trivial) fun s hs _ => ?_
  generalize hreservation : (preAcceptRide.bind RideHash.currentBatchId).map (fun batchId => Token.reservation r batchId) =
    reservation
  generalize hc : Cmd.evalAcceptRide r d acceptedAt reservation = c
  rcases @acceptRideScript_cases s.1 r d acceptedAt reservation with ⟨hneg, heq⟩ | ⟨hversion, heq, -⟩
  · have hstore : ((system env).exec i c s.1).2 = s.1 := by
      rw [← hc]
      exact heq
    have hanswer : ((system env).exec i c s.1).1 ≤ 0 := by
      rw [← hc]
      exact hneg.le
    rw [Prog.ret_bind, if_pos hanswer]
    refine Debts.Pays.throw subset_rfl _ (hs.noNews fun x _ hnews => hnews ?_)
    rw [hstore]
  · have hstore : ((system env).exec i c s.1).2 = acceptRideCommit r d acceptedAt s.1 := by
      rw [← hc]
      exact heq
    have hanswer : ¬ ((system env).exec i c s.1).1 ≤ 0 := by
      rw [← hc]
      show ¬ (acceptRideScript r d acceptedAt reservation s.1).1 ≤ 0
      rw [hversion]
      omega
    have hsets : c.sets = {.ride r, .driver d} := by
      rw [← hc]
      rfl
    have howing : (syncs env).Owing {.ride r, .driver d} (((syncs env).view i op).exec c s).2 := by
      refine (hs.exec fun x _ hnews => news_of_sets hnews).mono ?_
      rw [Set.empty_union, hsets]
      exact Set.sdiff_subset
    have hknown : ((((syncs env).view i op).exec c s).2).1.knows (.ride r) := by
      show (((system env).exec i c s.1).2).knows (.ride r)
      rw [hstore]
      show (put s.1.ride r _ r).status ≠ none
      rw [put_self]
      exact Option.some_ne_none _
    rw [Prog.ret_bind, if_neg hanswer]
    exact safe_afterAccept howing hknown

end acceptance

section drivers

theorem pays_existsDriver :
    Pays env i op {.driver d} (redis (.existsDriver d)) fun driverExists => if driverExists then {.driver d} else ∅ := by
  refine Debts.Pays.cmd (fun _ => trivial) fun s hs _ => ?_
  have hread : Cmd.uneventful (.existsDriver d) := trivial
  have hafter : (syncs env).Owing {.driver d} (((syncs env).view i op).exec (.existsDriver d) s).2 :=
    hs.noNews fun x _ hnews => hread.not_mem (news_of_sets hnews)
  refine Debts.Pays.ret subset_rfl _ ?_
  show (syncs env).Owing (if (s.1.driverHash d).status.isSome then {.driver d} else ∅) _
  cases hexist : (s.1.driverHash d).status with
  | none =>
    have hunknown : ¬ (syncs env).known (((syncs env).view i op).exec (.existsDriver d) s).2.1 (.driver d) :=
      fun hknown => hknown hexist
    exact (hafter.without hunknown).mono fun x hx => hx.2 hx.1
  | some status => exact hafter

theorem pays_driver {ws : List Write} (h : ∀ w ∈ ws, ∀ x, w.sets = some x → x = .driver d) :
    Pays env i op ∅ (redis (.multi ws)) fun _ => {.driver d} := by
  rw [← insert_empty_eq]
  exact pays_writes h

theorem ofDrivers_syncs : OfDrivers (syncs env) Cmd.uneventful fun d => {.driver d} where
  toHeedful := heedful_syncs
  persist := fun _ _ _ _ => pays_driver persistWrites_sets
  offline := fun _ _ _ _ _ _ => pays_driver offlineWrites_sets
  existsDriver := fun _ _ _ => pays_existsDriver
  driverSync := fun i op d reason suffix => by
    rw [← insert_empty_eq]
    exact pays_enqueueDriverSync

end drivers

theorem pays_takeJob {job : JobId} : Pays env i (.work job) ∅ (redis (.takeJob job)) fun _ => ∅ := by
  refine (pays_command (by rfl)).mono subset_rfl fun _ => ?_
  rintro x ⟨hx | hx, -⟩
  · exact hx
  · exact hx

theorem ofRecords_syncs : OfRecords (syncs env) where
  toHeedful := heedful_syncs
  startFirstDispatch := fun _ _ _ _ _ => pays_startFirstDispatch
  exhaustSearch := fun _ _ _ _ _ => pays_exhaustSearch
  takeJob := fun _ _ => pays_takeJob

theorem balanced_syncs : Balanced (syncs env) Cmd.uneventful fun d => {.driver d} where
  toOfDrivers := ofDrivers_syncs
  startDispatch := fun _ _ _ _ => ofRecords_syncs.rideLock ofRecords_syncs.dispatchUnderLock
  handleBatchTimeout := fun _ _ _ _ _ => ofRecords_syncs.handleBatchTimeout
  handleDriverRejection := fun _ _ _ _ _ _ => ofRecords_syncs.handleDriverRejection
  createRide := fun _ _ _ _ _ _ _ => pays_createRide
  transitionUnderLock := fun _ _ _ _ _ _ => pays_transitionUnderLock
  requeueRide := fun _ _ _ _ _ hop => pays_requeueRide hop
  acceptRide := fun _ _ _ _ => pays_acceptRide
  work := fun _ _ => ofRecords_syncs.work

theorem pays_code (i : ℕ) (op : Op) : Pays env i op ∅ (code env op) fun _ => ∅ := balanced_syncs.code i op

end YatriGo
