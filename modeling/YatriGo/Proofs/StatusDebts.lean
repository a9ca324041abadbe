import YatriGo.Proofs.Balanced

/-! Every operation that changes the status of a ride marks a message to the ride's customer before it ends,
of the hash with the new status or of a later one. -/

namespace YatriGo
open Concurrent

/-- The ride whose status is reported to its customer, and the version of the hash that the message shows. -/
def PublishKey.reports : PublishKey → Option (RideId × ℕ)
  | .rideRequested r v => some (r, v)
  | .rideStatus r v => some (r, v)
  | _ => none

/-- The changes up to the version that the marked message reports. -/
def Cmd.reports : ⦃β : Type⦄ → Cmd β → Set (RideId × ℕ)
  | _, .setIdempotent key => {x | ∃ v, key.reports = some (x.1, v) ∧ x.2 ≤ v}
  | _, _ => ∅

/-- `(r, v)` is the change of the status of `r` that came with version `v`. -/
def informs (env : Env) : Debts (system env) (RideId × ℕ) where
  known := fun s x => (s.ride x.1).status ≠ none ∧ x.2 ≤ (s.ride x.1).version
  changed := fun s t x => (t.ride x.1).status ≠ (s.ride x.1).status ∧ (t.ride x.1).version = x.2
  pays := fun _ c _ => c.reports
  assume := fun _ _ _ _ _ => True
  perform := fun _ _ _ _ => True

/-- The program runs in thread `i`, and starts with the changes `due` to report. -/
abbrev Informs (env : Env) (i : ℕ) (op : Op) (due : Set (RideId × ℕ)) {α : Type} (p : App α)
    (rest : α → Set (RideId × ℕ)) : Prop := (informs env).Pays i op due p rest

def changesOf (r : RideId) : Set (RideId × ℕ) := {x | x.1 = r}

def changesTo (r : RideId) (v : ℕ) : Set (RideId × ℕ) := {x | x.1 = r ∧ x.2 ≤ v}

/-- Commands that write no ride. -/
def Cmd.steady ⦃β : Type⦄ (c : Cmd β) : Prop := ∀ r, Entity.ride r ∉ c.sets

variable {env : Env} {i : ℕ} {op : Op} {α β : Type} {p : App α} {due : Set (RideId × ℕ)} {r : RideId} {d : DriverId}
  {ride : RideHash} {now : Time} {s : Store} {x : RideId × ℕ}

section rules

theorem news_of_ride {c : Cmd β} (h : (informs env).changed s ((system env).exec i c s).2 x) : Entity.ride x.1 ∈ c.sets := by
  by_contra hx
  have hrecord : ((system env).exec i c s).2.record (.ride x.1) = s.record (.ride x.1) := exec_record hx
  exact h.1 (Record.ride.inj hrecord).1

theorem Cmd.steady.noNews {c : Cmd β} (h : c.steady) : ¬ (informs env).changed s ((system env).exec i c s).2 x :=
  fun hnews => h x.1 (news_of_ride hnews)

theorem heedful_informs : Heedful (informs env) Cmd.uneventful where
  slight := fun _ _ hc => hc.uneventful
  locks := fun _ _ => ⟨trivial, fun _ => trivial⟩
  perform := fun _ _ _ _ _ => trivial
  news := fun _ _ _ _ _ hc _ hnews => hc.not_mem (news_of_ride hnews)

theorem informs_steady (hp : p.Uses Cmd.steady) : Informs env i op ∅ p fun _ => ∅ :=
  Debts.Pays.still (fun _ _ _ _ => trivial) (fun _ _ _ _ hc _ => Cmd.steady.noNews hc) hp

theorem informs_keeps (hp : p.Uses Cmd.steady) (hn : p.NoThrow) : Informs env i op due p fun _ => due :=
  Debts.Pays.quiet (fun _ _ _ _ => trivial) (fun _ _ _ _ hc _ => Cmd.steady.noNews hc) hp hn

theorem informs_command {c : Cmd α} :
    Informs env i op due (redis c) fun _ => (due ∪ {x | Entity.ride x.1 ∈ c.sets}) \ c.reports :=
  Debts.Pays.command _ (fun _ => trivial) (fun _ => subset_rfl) fun _ _ _ _ hnews => news_of_ride hnews

theorem informs_writes {ws : List Write} (h : ∀ w ∈ ws, ∀ y, w.sets = some y → y = .ride r) :
    Informs env i op ∅ (redis (.multi ws)) fun _ => changesOf r := by
  refine informs_command.mono subset_rfl fun _ => ?_
  rintro y ⟨hy | ⟨w, hw, hsets⟩, -⟩
  · exact hy.elim
  · exact Entity.ride.inj (h w hw _ hsets)

theorem informs_getRide {f : Option RideHash → App β} {rest : β → Set (RideId × ℕ)} (hnone : Informs env i op ∅ (f none) rest)
    (hsome : ∀ ride, Informs env i op (changesTo r ride.version) (f (some ride)) rest) :
    Informs env i op (changesOf r) ((getRide r).bind f) rest := by
  refine Debts.Pays.cmd (fun _ => trivial) fun s hs _ => ?_
  have hread : Cmd.uneventful (.hgetallRide r) := trivial
  have hafter : (informs env).Owing (changesOf r) (((informs env).view i op).exec (.hgetallRide r) s).2 :=
    hs.noNews fun x _ hnews => hread.not_mem (news_of_ride hnews)
  show ((informs env).view i op).Safe _ (f (toRideSnapshot (s.1.ride r))) _
  unfold toRideSnapshot
  split_ifs with hexist
  · refine hnone _ ⟨fun x hx => ?_, hafter.known⟩
    obtain rfl : x.1 = r := hafter.among hx
    exact absurd hexist (hafter.known x hx).1
  · refine hsome _ _ ⟨fun x hx => ?_, hafter.known⟩
    obtain rfl : x.1 = r := hafter.among hx
    exact ⟨rfl, (hafter.known x hx).2⟩

theorem informs_publish {room : Room} {key : PublishKey} {v : ℕ} (hkey : key.reports = some (r, v)) :
    Informs env i op (changesTo r v) (publish room key) fun _ => ∅ := by
  have hmark : Informs env i op (changesTo r v) (redis (.setIdempotent key)) fun _ => ∅ := by
    refine informs_command.mono subset_rfl fun _ => ?_
    rintro x ⟨⟨rfl, hle⟩ | hsets, hunpaid⟩
    · exact hunpaid ⟨v, hkey, hle⟩
    · exact hsets.elim
  refine hmark.bind fun allowed => heedful_informs.still ?_
  cases allowed with
  | false => trivial
  | true => exact ⟨trivial, fun _ => trivial⟩

theorem informs_emitRideStatusUpdate :
    Informs env i op (changesTo r ride.version) (emitRideStatusUpdate r ride) fun _ => ∅ := by
  refine (informs_publish rfl).bind fun _ => heedful_informs.still ?_
  cases ride.driverId with
  | none => trivial
  | some driverId => exact slight_publish.uneventful

end rules

section steady

theorem Cmd.uneventful.steady {c : Cmd β} (h : c.uneventful) : c.steady := fun _ => h.not_mem

theorem Slight.steady (h : Slight p) : p.Uses Cmd.steady := h.uneventful.mono fun _ _ hc => Cmd.uneventful.steady hc

theorem Write.peripheral.sparesRecord {w : Write} (h : w.peripheral) : w.sets ≠ some (.ride r) := by
  cases w <;> first | exact h.elim | rintro ⟨⟩

theorem Background.steady (h : Background env p) : p.Uses Cmd.steady := by
  refine h.mono fun β c hc => ?_
  cases c with
  | multi ws =>
    rintro r ⟨w, hw, hsets⟩
    have hws : BackgroundWrites env ws := hc
    exact (hws.peripheral w hw).sparesRecord hsets
  | evalAcceptRide r d acceptedAt reservation => exact hc.elim
  | _ => exact fun r => id

theorem steady_releaseDriverAvailability : (releaseDriverAvailability (some d) r now).Uses Cmd.steady := by
  refine ⟨fun _ => id, fun _ => ⟨fun _ => id, fun _ => ⟨fun _ => id, fun _ => ⟨?_, fun _ => trivial⟩⟩⟩⟩
  rintro r' ⟨w, hw, hsets⟩
  exact (releaseWrites_peripheral w hw).sparesRecord hsets

theorem steady_cleanupTerminalRideKeys : (cleanupTerminalRideKeys r ride now).Uses Cmd.steady := by
  refine ⟨fun _ => id, fun notifiedDrivers => ⟨fun _ => id, fun current => ⟨?_, fun _ => ?_⟩⟩⟩
  · rintro r' ⟨w, hw, hsets⟩
    rw [cleanupWrites_sets w hw] at hsets
    cases hsets
  · refine slight_releaseBatchReservations.steady.bind fun _ => ?_
    unfold releaseRideDriver
    cases ride.driverId with
    | none => trivial
    | some d => exact steady_releaseDriverAvailability.bind fun _ => slight_enqueueDriverSync.steady

theorem returns_cleanupTerminalRideKeys : (cleanupTerminalRideKeys r ride now).NoThrow := by
  refine fun notifiedDrivers current _ => returns_releaseBatchReservations.bind fun _ => ?_
  unfold releaseRideDriver
  cases ride.driverId with
  | none => trivial
  | some d => exact fun _ _ _ _ _ _ => trivial

end steady

section parts

theorem informs_append {event : TimelineEventType} {actorType : ActorType} {actorId : Option ℕ} :
    Informs env i op due (appendTimelineEvent r event actorType actorId now) fun _ => due :=
  heedful_informs.quiet slight_appendTimelineEvent.uneventful returns_appendTimelineEvent

theorem informs_rideSync {version : ℕ} : Informs env i op due (enqueueRideSync r version) fun _ => due :=
  heedful_informs.read (by trivial)

theorem informs_refresh : Informs env i op due (refreshRideRealtimeKeys r) fun _ => due :=
  heedful_informs.quiet slight_refreshRideRealtimeKeys.uneventful returns_refreshRideRealtimeKeys

theorem informs_startFirstDispatch : Informs env i op ∅ (startFirstDispatch env r ride now) fun _ => ∅ := by
  have hupdate : Informs env i op ∅ (updateRideHash r (startFields env ride now)) fun _ => changesOf r := by
    refine (informs_writes hsetRide_sets).bind fun _ => informs_refresh.bind fun _ => ?_
    exact heedful_informs.quiet slight_getRide.uneventful fun _ => trivial
  refine hupdate.bind fun _ => informs_getRide (Debts.Pays.throw subset_rfl) fun ride => ?_
  refine informs_append.bind fun _ => informs_rideSync.bind fun _ => ?_
  exact informs_emitRideStatusUpdate.bind fun _ => Debts.Pays.ret subset_rfl

theorem informs_exhaustSearch : Informs env i op ∅ (exhaustSearch r ride now) fun _ => ∅ := by
  simp only [exhaustSearch, updateRideHash, Prog.bind_eq, Prog.bind_assoc]
  refine (informs_writes hsetRide_sets).bind fun _ => informs_refresh.bind fun _ => informs_getRide (Debts.Pays.throw subset_rfl) fun ride => ?_
  refine informs_append.bind fun _ => ?_
  refine (informs_keeps steady_cleanupTerminalRideKeys returns_cleanupTerminalRideKeys).bind fun _ => ?_
  refine informs_rideSync.bind fun _ => ?_
  exact informs_emitRideStatusUpdate.bind fun _ => Debts.Pays.ret subset_rfl

theorem informs_createRide {c : CustomerId} {origin destination : Location} {metadata : Metadata} :
    Informs env i op ∅ (createRide env c origin destination metadata) fun _ => ∅ := by
  refine (heedful_informs.read (by trivial)).bind fun now => (heedful_informs.read (by trivial)).bind fun rideId => ?_
  have hmulti : Informs env i op ∅ (redis (.multi
      [.createRide rideId (requestPayload env c origin destination metadata now), .setCustomerActiveRide c rideId,
        .saddActiveRide rideId, .expireRide rideId])) fun _ => changesTo rideId 1 := by
    have hnews : ∀ s x, (informs env).changed s ((system env).exec i (.multi [.createRide rideId
        (requestPayload env c origin destination metadata now), .setCustomerActiveRide c rideId, .saddActiveRide rideId,
        .expireRide rideId]) s).2 x → x ∈ changesTo rideId 1 := by
      intro s x hchanged
      obtain ⟨w, hw, hsets⟩ := news_of_ride hchanged
      obtain rfl : x.1 = rideId := Entity.ride.inj (createRide_sets w hw _ hsets)
      -- a new ride starts with version 1
      exact ⟨rfl, hchanged.2.symm.trans_le (congrArg RideHash.version put_self).le⟩
    refine (Debts.Pays.command (fun _ => changesTo rideId 1) (fun _ => trivial) (fun _ => subset_rfl) fun s x _ _ => hnews s x).mono subset_rfl fun _ => ?_
    rw [Set.empty_union]
    exact Set.sdiff_subset
  refine hmulti.bind fun _ => informs_append.bind fun _ => informs_refresh.bind fun _ => informs_rideSync.bind fun _ => ?_
  refine (informs_publish rfl).bind fun _ => heedful_informs.still ?_
  exact slight_enqueueDispatchStart.uneventful.bind fun _ => trivial

theorem informs_finishTransition {next : RideStatus} {notifiedDrivers : List DriverId} :
    Informs env i op (changesTo r ride.version) (finishTransition r next ride notifiedDrivers now) fun _ => ∅ := by
  have htell : (Prog.forEach (fun d => emitRideCancelledToDriver d r ride.version)
      (notifiedDrivers ++ ride.driverId.toList.filter (· ∉ notifiedDrivers)) : App Unit).Uses Cmd.uneventful :=
    .forEach fun _ _ => slight_publish.uneventful
  have hend : ∀ p : App (Option RideHash), p.Uses Cmd.uneventful → Informs env i op (changesTo r ride.version)
      ((enqueueRideSync r ride.version).bind fun _ => (notifyRideStatusUpdate r ride).bind fun _ =>
        (emitRideStatusUpdate r ride).bind fun _ => p) fun _ => ∅ := by
    refine fun p hp => informs_rideSync.bind fun _ => informs_emitRideStatusUpdate.bind fun _ => heedful_informs.still ?_
    exact slight_emitRideStatusUpdate.uneventful.bind fun _ => hp
  have hclean : Informs env i op (changesTo r ride.version) (cleanupTerminalRideKeys r ride now)
      fun _ => changesTo r ride.version := informs_keeps steady_cleanupTerminalRideKeys returns_cleanupTerminalRideKeys
  simp only [finishTransition, Prog.bind_eq, Prog.pure_eq]
  split_ifs
  · exact hclean.bind fun _ => hend _ (htell.bind fun _ => trivial)
  · exact hclean.bind fun _ => hend _ trivial
  · exact hend _ (htell.bind fun _ => trivial)
  · exact hend _ trivial

theorem informs_transitionUnderLock {next : RideStatus} {options : TransitionOptions} :
    Informs env i op ∅ (transitionUnderLock env r next options) fun _ => ∅ := by
  refine (heedful_informs.still slight_getRide.uneventful).bind fun ride => ?_
  cases ride with
  | none => exact Debts.Pays.throw subset_rfl
  | some ride =>
    dsimp only
    split_ifs
    · exact heedful_informs.still slight_getRide.uneventful
    · refine (heedful_informs.still slight_assertTransition.uneventful).bind fun _ => ?_
      refine (heedful_informs.read (by trivial)).bind fun now => ?_
      refine (informs_writes hsetRide_sets).bind fun _ => informs_refresh.bind fun _ => informs_append.bind fun _ => ?_
      have hnotified : ∀ due, Informs env i op due (readNotifiedDrivers r next) fun _ => due :=
        fun due => heedful_informs.quiet slight_readNotifiedDrivers.uneventful returns_readNotifiedDrivers
      refine informs_getRide ((hnotified _).bind fun _ => Debts.Pays.throw subset_rfl) fun snapshot => ?_
      exact (hnotified _).bind fun _ => informs_finishTransition

theorem informs_requeueRide : Informs env i op ∅ (requeueRide env r d ride) fun _ => ∅ := by
  refine (heedful_informs.read (by trivial)).bind fun now => (informs_steady steady_releaseDriverAvailability).bind fun _ => ?_
  refine (informs_writes requeueRide_sets).bind fun _ => informs_append.bind fun _ => ?_
  refine informs_getRide (Debts.Pays.throw subset_rfl) fun updated => informs_rideSync.bind fun _ => ?_
  refine informs_emitRideStatusUpdate.bind fun _ => heedful_informs.still ?_
  exact slight_enqueueDispatchStart.uneventful.bind fun _ => trivial

theorem informs_acceptRide : Informs env i op ∅ (acceptRide r d) fun _ => ∅ := by
  refine (heedful_informs.still slight_getRide.uneventful).bind fun preAcceptRide => ?_
  refine (heedful_informs.read (by trivial)).bind fun acceptedAt => ?_
  generalize (preAcceptRide.bind RideHash.currentBatchId).map (fun batchId => Token.reservation r batchId) = reservation
  have hscript : Informs env i op ∅ (redis (.evalAcceptRide r d acceptedAt reservation))
      fun version => if version ≤ 0 then ∅ else changesOf r := by
    have hcommit : ∀ s x, (informs env).changed s ((system env).exec i (.evalAcceptRide r d acceptedAt reservation) s).2 x →
        x ∈ if ((system env).exec i (.evalAcceptRide r d acceptedAt reservation) s).1 ≤ 0 then ∅ else changesOf r := by
      intro s x hchanged
      rcases @acceptRideScript_cases s r d acceptedAt reservation with ⟨-, heq⟩ | ⟨hversion, -, -⟩
      · have hsame : ((system env).exec i (.evalAcceptRide r d acceptedAt reservation) s).2 = s := heq
        rw [hsame] at hchanged
        exact absurd rfl hchanged.1
      · have hanswer : ¬ ((system env).exec i (.evalAcceptRide r d acceptedAt reservation) s).1 ≤ 0 := by
          show ¬ (acceptRideScript r d acceptedAt reservation s).1 ≤ 0
          rw [hversion]
          omega
        rw [if_neg hanswer]
        rcases news_of_ride hchanged with hride | hdriver
        · exact Entity.ride.inj hride
        · cases hdriver
    refine (Debts.Pays.command (fun version => if version ≤ 0 then ∅ else changesOf r) (fun _ => trivial) (fun _ => subset_rfl)
      fun s x _ _ => hcommit s x).mono subset_rfl fun version => ?_
    rw [Set.empty_union]
    exact Set.sdiff_subset
  refine hscript.bind fun version => ?_
  split_ifs
  · exact Debts.Pays.throw subset_rfl
  · refine informs_getRide (Debts.Pays.throw subset_rfl) fun ride => ?_
    have hquiet : ∀ {p : App Unit}, Slight p → p.NoThrow → Informs env i op (changesTo r ride.version) p
        fun _ => changesTo r ride.version := fun hp hn => heedful_informs.quiet hp.uneventful hn
    refine (hquiet slight_releaseDriverReservations returns_releaseDriverReservations).bind fun _ => ?_
    refine (hquiet slight_clearPendingMembership returns_clearPendingMembership).bind fun _ => ?_
    refine informs_append.bind fun _ => informs_rideSync.bind fun _ => ?_
    have hsync : (enqueueDriverSync d (.ride .accepted) none).NoThrow := fun _ _ => trivial
    refine (hquiet slight_enqueueDriverSync hsync).bind fun _ => ?_
    refine (hquiet slight_publish gentle_publish.returns).bind fun _ => ?_
    refine informs_emitRideStatusUpdate.bind fun _ => heedful_informs.still ?_
    refine slight_publish.uneventful.bind fun _ => slight_emitRideStatusUpdate.uneventful.bind fun _ => ?_
    exact Prog.Uses.bind (.forEach fun _ _ => slight_publish.uneventful) fun _ => trivial

theorem ofRecords_informs : OfRecords (informs env) where
  toHeedful := heedful_informs
  startFirstDispatch := fun _ _ _ _ _ => informs_startFirstDispatch
  exhaustSearch := fun _ _ _ _ _ => informs_exhaustSearch
  takeJob := fun _ _ => informs_steady ⟨fun _ => id, fun _ => trivial⟩

theorem ofDrivers_informs : OfDrivers (informs env) Cmd.uneventful fun _ => ∅ where
  toHeedful := heedful_informs
  persist := fun _ _ _ _ => informs_steady background_persist.steady
  offline := fun _ _ d existing activeRideId now => by
    have hoffline : Background env (redis (.multi (offlineWrites d existing activeRideId now))) :=
      ⟨.offline d existing activeRideId now, fun _ => trivial⟩
    exact informs_steady hoffline.steady
  existsDriver := fun _ _ _ => (heedful_informs.read (by trivial)).mono subset_rfl fun _ => Set.empty_subset _
  driverSync := fun _ _ _ _ _ => heedful_informs.pass slight_enqueueDriverSync

theorem balanced_informs : Balanced (informs env) Cmd.uneventful fun _ => ∅ where
  toOfDrivers := ofDrivers_informs
  startDispatch := fun _ _ _ _ => ofRecords_informs.rideLock ofRecords_informs.dispatchUnderLock
  handleBatchTimeout := fun _ _ _ _ _ => ofRecords_informs.handleBatchTimeout
  handleDriverRejection := fun _ _ _ _ _ _ => ofRecords_informs.handleDriverRejection
  createRide := fun _ _ _ _ _ _ _ => informs_createRide
  transitionUnderLock := fun _ _ _ _ _ _ => informs_transitionUnderLock
  requeueRide := fun _ _ _ _ _ _ => informs_requeueRide
  acceptRide := fun _ _ _ _ => informs_acceptRide
  work := fun _ _ => ofRecords_informs.work

end parts

end YatriGo
