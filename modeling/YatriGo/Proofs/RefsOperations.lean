import YatriGo.Proofs.DriverRefs

/-! Every operation keeps the contract about references: whoever ends a ride releases the
ride's driver before it gives the ride's lock back. -/

namespace YatriGo
open Concurrent

/-- Client `i` has the lock of `r`, and the ride goes on or no driver refers to it. -/
structure Neat (i : ℕ) (r : RideId) (u : Uuid) (s : Store) : Prop where
  locked : Locked False i (.ride r) u s
  tidy : Tidy r s

/-- Client `i` has the lock of `r`, and the ride is over and stays as it is. Only its
driver may still refer to it. -/
structure Ending (i : ℕ) (r : RideId) (u : Uuid) (g : RideHash) (s : Store) : Prop where
  locked : Locked False i (.ride r) u s
  hash : s.ride r = g
  terminal : g.terminal
  tidy : g.driverId = none → Tidy r s

/-- Commands outside the lock of a ride. -/
def Cmd.loose : ⦃β : Type⦄ → Cmd β → Prop
  | _, .multi ws => ∀ w ∈ ws, w.keepsDriver
  | _, .setNX key .. => ∀ r, key ≠ .ride r
  | _, .evalReleaseLock key _ => ∀ r, key ≠ .ride r
  | _, _ => True

variable {env : Env} {i : ℕ} {r : RideId} {u : Uuid} {g ride : RideHash} {s : Store} {now : Time}

theorem RideField.keepsDriver_of_calm {f : RideField} (h : f.calm = true) : f.keepsDriver = true := by
  cases f <;> first | rfl | exact h

theorem Write.calm.keepsDriver {w : Write} (h : w.calm) : w.keepsDriver := by
  cases w with
  | hsetRide r fields =>
    have hall : fields.all RideField.calm = true := h
    exact List.all_eq_true.mpr fun f hf => RideField.keepsDriver_of_calm (List.all_eq_true.mp hall f hf)
  | _ => trivial

theorem Cmd.calm.loose {β : Type} {c : Cmd β} (h : c.calm) : c.loose := by
  cases c with
  | multi ws => exact fun w hw => (h w hw : w.calm).keepsDriver
  | evalAcceptRide r d acceptedAt reservation => trivial
  | _ => exact h

theorem Cmd.loose.guar {β : Type} {c : Cmd β} (h : c.loose) : TidyGuar c s := by
  cases c with
  | evalReleaseLock key token =>
    cases key with
    | ride r => exact absurd rfl (h r)
    | _ => trivial
  | multi ws => exact h
  | _ => trivial

theorem Cmd.loose.locks {β : Type} {c : Cmd β} (h : c.loose) {k : LockKey} (hk : keeps False k) :
    (exec env i c s).2.locks k = s.locks k := by
  apply exec_locks (keeps_mutex hk)
  cases k with
  | ride r =>
    cases c with
    | setNX key token ttl => exact fun h' => h r (Option.some.inj h')
    | evalReleaseLock key token => exact fun h' => h r (Option.some.inj h')
    | _ => simp only [Cmd.lockOf, ne_eq, reduceCtorEq, not_false_eq_true]
  | _ => exact hk.elim

theorem Locked.loose {β : Type} {c : Cmd β} (h : Locked False i (.ride r) u s) (hc : c.loose) :
    Locked False i (.ride r) u (exec env i c s).2 := h.stay (.of_locks fun _ hk => hc.locks hk)

theorem free_stable' : ((tidies env).view i).Stable (Free False i) :=
  fun _ _ hst h => h.stay hst.rides.leases

theorem neat_stable : ((tidies env).view i).Stable (Neat i r u) := fun _ _ hst h =>
  ⟨h.locked.stay hst.rides.leases, hst.tidy r h.locked.holds h.tidy⟩

theorem ending_stable : ((tidies env).view i).Stable (Ending i r u g) := by
  intro s t hst h
  have hr : (s.ride r).terminal := by
    rw [h.hash]
    exact h.terminal
  exact ⟨h.locked.stay hst.rides.leases, (hst.rides.terminal r hr).trans h.hash, h.terminal,
    fun hd => hst.tidy r h.locked.holds (h.tidy hd)⟩

section Keeps

variable {α β : Type} {p : App α}

theorem free_loose (hp : p.Uses Cmd.loose) : ((tidies env).view i).Keeps (Free False i) p :=
  View.Keeps.of_uses free_stable' (fun _ _ _ hc ht _ =>
    ⟨hc.guar, ht.stay (.of_locks fun _ hk => hc.locks hk)⟩) hp

theorem free_calm (hp : Calm p) : ((tidies env).view i).Keeps (Free False i) p :=
  free_loose (hp.mono fun _ _ => Cmd.calm.loose)

theorem neat_calm (hp : Calm p) : ((tidies env).view i).Keeps (Neat i r u) p :=
  View.Keeps.of_uses neat_stable (fun _ _ _ hc ht ha => ⟨hc.loose.guar, ht.locked.loose hc.loose,
    ht.tidy.exec ha.1.2 (terminal_calm hc ha.1.1)⟩) hp

theorem neat_background (hp : Background env p) : ((tidies env).view i).Keeps (Neat i r u) p :=
  neat_calm hp.calm

theorem Cmd.background.calm {c : Cmd α} (h : c.background env) : c.calm :=
  (@Background.calm env α (.perform c) ⟨h, fun _ => trivial⟩).1

theorem Ending.command {c : Cmd α} (h : Ending i r u g s) (hc : c.calm)
    (hsame : (exec env i c s).2.ride = s.ride) (ha : ((tidies env).view i).assume c s) :
    Ending i r u g (exec env i c s).2 where
  locked := h.locked.loose hc.loose
  hash := (congrFun hsame r).trans h.hash
  terminal := h.terminal
  tidy := fun hd => (h.tidy hd).exec ha.1.2 (terminal_calm hc ha.1.1)

theorem ending_background (hp : Background env p) : ((tidies env).view i).Keeps (Ending i r u g) p :=
  View.Keeps.of_uses ending_stable
    (fun _ _ _ hc ht ha => ⟨hc.calm.loose.guar, ht.command hc.calm hc.same.ride ha⟩) hp

theorem Ending.read {Q : Except AppError β → Store → Prop} {c : Cmd α} {f : α → App β}
    (h : Ending i r u g s) (hc : c.background env)
    (next : ∀ t, Ending i r u g t →
      ((tidies env).view i).Safe Q (f (exec env i c t).1) (exec env i c t).2) :
    ((tidies env).view i).Safe Q ((redis c).bind f) s :=
  View.Safe.cmd ending_stable h fun t ht _ => ⟨hc.calm.loose.guar, next t ht⟩

end Keeps

section release

variable {d : DriverId} {hash : DriverHash} {active : Option RideId} {heartbeatExists : Bool}

theorem release_refs :
    ((s.multi (releaseWrites d r hash active heartbeatExists now)).driverHash d).activeRideId = none ∧
    (s.multi (releaseWrites d r hash active heartbeatExists now)).driverActiveRide d =
      if active = some r then none else s.driverActiveRide d := by
  unfold releaseWrites
  constructor
  · split_ifs <;> cases hash.lat <;> cases hash.lng <;>
      simp [Store.multi, Write.apply, DriverHash.hset, DriverHash.setField]
  · split_ifs <;> cases hash.lat <;> cases hash.lng <;> simp [Store.multi, Write.apply]

/-- After the release no driver refers to the ride: its own driver was the only one. -/
theorem tidy_release (hd : (s.ride r).driverId = some d) (hr : (s.ride r).terminal) (hs : Referred s)
    (hc : Cmd.refersWell s (.multi (releaseWrites d r hash active heartbeatExists now)) = true)
    (hactive : active ≠ some r → s.driverActiveRide d ≠ some r) :
    Tidy r (s.multi (releaseWrites d r hash active heartbeatExists now)) := by
  intro hr' d' href
  have hold : Refers d' r s := by
    rcases @exec_refers townEnv 0 s d' r Unit (.multi _) hc href with hold | hon | hon
    · exact hold
    · exact absurd hr (not_terminal_of_live hon.live)
    · exact absurd hr' (not_terminal_of_live hon.live)
  have hd' : d' = d := by
    have hdriver : (s.ride r).driverId = some d' := (hs d' r hold).driver
    rw [hd] at hdriver
    exact (Option.some.inj hdriver).symm
  rw [hd'] at href
  obtain ⟨hhash, hpointer⟩ := @release_refs r s now d hash active heartbeatExists
  rcases href with href | href
  · rw [hpointer] at href
    split_ifs at href with hread
    exact hactive hread href
  · rw [hhash] at href
    cases href

/-- The release of the driver of a ride that is over. -/
theorem neat_releaseDriver (hd : g.driverId = some d) (h : Ending i r u g s) :
    ((tidies env).view i).Safe (fun _ => Neat i r u) (releaseDriverAvailability (some d) r now) s := by
  simp only [releaseDriverAvailability, Prog.bind_eq]
  refine h.read (by trivial) fun t ht => ?_
  refine ht.read (by trivial) fun v hv => ?_
  -- while the ride is ending, the pointer does not come to name it
  let read : Store → Prop := fun w => Ending i r u g w ∧
    (v.driverActiveRide d ≠ some r → w.driverActiveRide d ≠ some r)
  have hstable : ((tidies env).view i).Stable read := by
    intro w x hwx hw
    have hr : (w.ride r).terminal := by
      rw [hw.1.hash]
      exact hw.1.terminal
    exact ⟨ending_stable w x hwx hw.1, fun hne => hwx.pointer r d hw.1.locked.holds hr (hw.2 hne)⟩
  refine View.Safe.cmd (P := read) hstable ⟨hv, id⟩ fun w hw _ => ⟨trivial, ?_⟩
  refine View.Safe.cmd (P := read) hstable hw fun x hx ha => ⟨?_, ?_⟩
  · exact fun write hwrite => (releaseWrites_peripheral write hwrite).calm.keepsDriver
  · obtain ⟨⟨-, hc⟩, n, -, hinv⟩ := ha
    have hdriver : (x.ride r).driverId = some d := by
      rw [hx.1.hash]
      exact hd
    have hr : (x.ride r).terminal := by
      rw [hx.1.hash]
      exact hx.1.terminal
    refine View.Safe.ret neat_stable ⟨hx.1.locked.stay (.of_locks fun k hk => ?_), ?_⟩ fun _ => id
    · exact multi_locks (keeps_mutex hk)
    · exact tidy_release hdriver hr hinv.referred hc hx.2

theorem returns_releaseBatchReservations : (releaseBatchReservations r g).NoThrow := by
  unfold releaseBatchReservations
  cases g.currentBatchId with
  | none => trivial
  | some batchId => exact .forEach fun _ _ => trivial

theorem neat_releaseRideDriver (h : Ending i r u g s) :
    ((tidies env).view i).Safe (fun _ => Neat i r u) (releaseRideDriver r g now) s := by
  unfold releaseRideDriver
  cases hd : g.driverId with
  | none => exact View.Safe.ret neat_stable ⟨h.locked, h.tidy hd⟩ fun _ => id
  | some d =>
    exact (neat_releaseDriver hd h).andThen fun _ => neat_background slight_enqueueDriverSync.background

theorem neat_cleanup (h : Ending i r u g s) :
    ((tidies env).view i).Safe (fun _ => Neat i r u) (cleanupTerminalRideKeys r g now) s := by
  simp only [cleanupTerminalRideKeys, Prog.bind_eq]
  refine h.read (by trivial) fun t ht => ?_
  refine ht.read (by trivial) fun v hv => ?_
  refine View.Safe.cmd ending_stable hv fun w hw ha => ⟨?_, ?_⟩
  · exact fun write hwrite => (cleanupWrites_calm write hwrite).keepsDriver
  · have hcalm : (Cmd.multi (cleanupWrites r g.customerId (exec env i (.smembersNotified r) t).1
        (exec env i (.getCustomerActiveRide g.customerId) v).1)).calm := cleanupWrites_calm
    have hending := hw.command hcalm (multi_sameRides cleanupWrites_sparesRides).ride ha
    exact (ending_background slight_releaseBatchReservations.background).seq returns_releaseBatchReservations
      hending fun _ x hx => neat_releaseRideDriver hx

end release

section ending

variable {α β : Type} {Q : Except AppError β → Store → Prop} {fields : List RideField}

theorem Neat.finish {f : Unit → App β} (h : Neat i r u s) (hf : ∀ g : RideHash, (g.hset fields).terminal)
    (hk : fields.all RideField.keepsDriver = true)
    (next : ∀ g t, g.status ≠ none → Ending i r u g t → ((tidies env).view i).Safe Q (f ()) t) :
    ((tidies env).view i).Safe Q ((redis (.multi [.hsetRide r fields])).bind f) s := by
  refine View.Safe.cmd neat_stable h fun t ht ha => ⟨?_, ?_⟩
  · intro write hwrite
    rw [List.mem_singleton.mp hwrite]
    exact hk
  · obtain ⟨-, n, -, hinv⟩ := ha
    refine next ((t.ride r).hset fields) _ (terminal_status (hf _)).2
      ⟨ht.locked.stay (.of_locks fun _ _ => rfl), put_self, hf _, fun hd => ?_⟩
    rw [hset_keepsDriver hk] at hd
    intro _ d href
    have hdriver : (t.ride r).driverId = some d := (hinv.referred d r href).driver
    rw [hd] at hdriver
    cases hdriver

theorem Ending.getRide {f : Option RideHash → App β} (h : Ending i r u g s)
    (next : ∀ t, Ending i r u g t → ((tidies env).view i).Safe Q (f (some g)) t) :
    ((tidies env).view i).Safe Q ((YatriGo.getRide r).bind f) s := by
  refine View.Safe.cmd ending_stable h fun t ht _ => ⟨trivial, ?_⟩
  have hsnap : toRideSnapshot (t.ride r) = some g := by
    rw [ht.hash]
    exact if_neg (terminal_status h.terminal).2
  change View.Safe _ Q (f (toRideSnapshot (t.ride r))) t
  rw [hsnap]
  exact next t ht

theorem returns_appendTimelineEvent {event : TimelineEventType} {actorType : ActorType}
    {actorId : Option ℕ} {atTime : Time} :
    (appendTimelineEvent r event actorType actorId atTime).NoThrow := fun _ _ => trivial

theorem returns_refreshRideRealtimeKeys : (refreshRideRealtimeKeys r).NoThrow := fun _ => trivial

theorem returns_readNotifiedDrivers {next : RideStatus} : (readNotifiedDrivers r next).NoThrow := by
  unfold readNotifiedDrivers
  split
  · exact fun _ => trivial
  · trivial

theorem neat_exhaustSearch :
    ((tidies env).view i).Keeps (Neat i r u) (exhaustSearch r ride now) := by
  intro s h
  simp only [exhaustSearch, updateRideHash, write, Prog.bind_eq, Prog.bind_assoc]
  refine h.finish (fun g => Or.inr hset_exhaustFields.1) rfl fun g t hg ht => ?_
  refine (ending_background slight_refreshRideRealtimeKeys.background).seq returns_refreshRideRealtimeKeys ht
    fun _ t ht => ?_
  refine ht.getRide fun t ht => ?_
  refine (ending_background slight_appendTimelineEvent.background).seq returns_appendTimelineEvent ht
    fun _ t ht => ?_
  refine (neat_cleanup ht).andThen fun _ => neat_background ?_
  refine slight_enqueueRideSync.background.bind fun _ => ?_
  exact slight_emitRideStatusUpdate.background.bind fun _ => trivial

theorem neat_findDrivers {dispatchRound : ℕ} {searchRadiusKm : ℚ} :
    ((tidies env).view i).Keeps (Neat i r u)
      (findDrivers env r ride dispatchRound searchRadiusKm now) := by
  refine (neat_calm (calm_read (by trivial))).bind fun notifiedDrivers => ?_
  refine (neat_background slight_getNearestAvailableDrivers.background).bind fun candidates => ?_
  refine (neat_calm (calm_read (by trivial))).bind fun batchId => ?_
  refine (neat_background (slight_reserveLoop _ []).background).bind fun batchDrivers => ?_
  split_ifs
  · exact neat_exhaustSearch
  · exact neat_calm calm_expandSearch
  · exact neat_calm calm_sendBatch

theorem neat_continueDispatch {dispatchRound : ℕ} {searchRadiusKm : ℚ} :
    ((tidies env).view i).Keeps (Neat i r u)
      (continueDispatch env r ride dispatchRound searchRadiusKm now) := by
  unfold continueDispatch
  cases openBatch ride with
  | none => exact neat_findDrivers
  | some batchId =>
    dsimp only
    split_ifs
    · exact View.Keeps.ret neat_stable
    · refine (neat_calm calm_endBatch).bind fun _ => ?_
      refine (neat_background slight_getRide.background).bind fun updated => ?_
      cases updated with
      | none => exact View.Keeps.throw neat_stable
      | some updated => exact neat_findDrivers

theorem neat_dispatchUnderLock :
    ((tidies env).view i).Keeps (Neat i r u) (dispatchUnderLock env r) := by
  refine (neat_background slight_getRide.background).bind fun read => ?_
  cases read with
  | none => exact View.Keeps.ret neat_stable
  | some read =>
    dsimp only
    split_ifs
    · exact View.Keeps.ret neat_stable
    · refine (neat_calm (calm_read (by trivial))).bind fun now => ?_
      exact (neat_calm calm_startFirstDispatch).bind fun ride => neat_continueDispatch
    · exact (neat_calm (calm_read (by trivial))).bind fun now => neat_continueDispatch

theorem neat_batchTimeoutUnderLock {batchId : BatchId} :
    ((tidies env).view i).Keeps (Neat i r u) (batchTimeoutUnderLock env r batchId) := by
  refine (neat_background slight_getRide.background).bind fun ride => ?_
  cases ride with
  | none => exact View.Keeps.ret neat_stable
  | some ride =>
    dsimp only
    split_ifs
    · exact View.Keeps.ret neat_stable
    · refine (neat_calm (calm_read (by trivial))).bind fun now => ?_
      refine (neat_calm calm_endBatch).bind fun _ => ?_
      refine (neat_background slight_getRide.background).bind fun updated => ?_
      cases updated with
      | none => exact View.Keeps.throw neat_stable
      | some updated =>
        exact (neat_background slight_enqueueRideSync.background).bind fun _ => neat_dispatchUnderLock

theorem neat_rejectionUnderLock {d : DriverId} {reason : Response} :
    ((tidies env).view i).Keeps (Neat i r u) (rejectionUnderLock env r d reason) := by
  refine (neat_background slight_getRide.background).bind fun ride => ?_
  cases ride with
  | none => exact View.Keeps.ret neat_stable
  | some ride =>
    dsimp only
    split_ifs
    · exact View.Keeps.ret neat_stable
    · refine (neat_calm (calm_read (by trivial))).bind fun now => ?_
      refine (neat_calm (calm_read (by trivial))).bind fun responses => ?_
      split_ifs
      · exact View.Keeps.ret neat_stable
      · refine (neat_calm calm_rejectWrites).bind fun _ => ?_
        refine (neat_background slight_applyRejectCooldown.background).bind fun _ => ?_
        refine (neat_background slight_releaseDriverReservations.background).bind fun _ => ?_
        refine (neat_background slight_appendTimelineEvent.background).bind fun _ => ?_
        refine (neat_background slight_getRide.background).bind fun updated => ?_
        cases updated with
        | none => exact View.Keeps.throw neat_stable
        | some updated =>
          refine (neat_background slight_enqueueRideSync.background).bind fun _ => ?_
          split_ifs
          · exact (neat_background slight_releaseDriverReservations.background).bind fun _ =>
              neat_dispatchUnderLock
          · exact View.Keeps.ret neat_stable

theorem Ending.seq {p : App α} {f : α → App β} (h : Ending i r u g s) (hp : Background env p)
    (hn : p.NoThrow) (next : ∀ a t, Ending i r u g t → ((tidies env).view i).Safe Q (f a) t) :
    ((tidies env).view i).Safe Q (p.bind f) s := (ending_background hp).seq hn h next

variable {next : RideStatus} {options : TransitionOptions} {notifiedDrivers : List DriverId}

theorem transitionFields_keepsDriver (hdriver : options.driverId = none) :
    (transitionFields env ride next options now).all RideField.keepsDriver = true := by
  obtain ⟨distance, duration, fare, billing, commission, earning, hc⟩ :=
    @completionFields_eq env ride options now
  unfold transitionFields
  rw [hc, hdriver]
  split_ifs <;> rfl

theorem background_finishTransition (hn : next.terminal = false) :
    Background env (finishTransition r next g notifiedDrivers now) := by
  simp only [finishTransition, hn, Bool.false_eq_true, if_false, Prog.bind_eq, Prog.pure_eq]
  refine slight_enqueueRideSync.background.bind fun _ => slight_emitRideStatusUpdate.background.bind fun _ =>
    slight_emitRideStatusUpdate.background.bind fun _ => ?_
  split_ifs
  · exact Prog.Uses.bind (.forEach fun _ _ => slight_publish.background) fun _ => trivial
  · trivial

theorem background_afterTransition (hn : next.terminal = false) :
    Background env (afterTransition r next options now) := by
  refine slight_refreshRideRealtimeKeys.background.bind fun _ => ?_
  refine slight_appendTimelineEvent.background.bind fun _ => slight_getRide.background.bind fun snapshot => ?_
  refine slight_readNotifiedDrivers.background.bind fun notifiedDrivers => ?_
  cases snapshot with
  | none => trivial
  | some snapshot => exact background_finishTransition hn

theorem neat_afterTransition (hn : next.terminal = true) (h : Ending i r u g s) :
    ((tidies env).view i).Safe (fun _ => Neat i r u) (afterTransition r next options now) s := by
  simp only [afterTransition, Prog.bind_eq]
  refine h.seq slight_refreshRideRealtimeKeys.background returns_refreshRideRealtimeKeys fun _ t ht => ?_
  refine ht.seq slight_appendTimelineEvent.background returns_appendTimelineEvent fun _ t ht => ?_
  refine ht.getRide fun t ht => ?_
  refine ht.seq slight_readNotifiedDrivers.background returns_readNotifiedDrivers fun notifiedDrivers t ht => ?_
  simp only [finishTransition, if_pos hn, Prog.bind_eq]
  refine (neat_cleanup ht).andThen fun _ => neat_background ?_
  refine slight_enqueueRideSync.background.bind fun _ => slight_emitRideStatusUpdate.background.bind fun _ =>
    slight_emitRideStatusUpdate.background.bind fun _ => ?_
  split_ifs
  · exact Prog.Uses.bind (.forEach fun _ _ => slight_publish.background) fun _ => trivial
  · trivial

theorem neat_transitionUnderLock (hdriver : options.driverId = none) :
    ((tidies env).view i).Keeps (Neat i r u) (transitionUnderLock env r next options) := by
  refine (neat_background slight_getRide.background).bind fun read => ?_
  cases read with
  | none => exact View.Keeps.throw neat_stable
  | some ride =>
    dsimp only
    split_ifs
    · exact neat_background slight_getRide.background
    · refine (neat_background slight_assertTransition.background).bind fun _ => ?_
      refine (neat_calm (calm_read (by trivial))).bind fun now => ?_
      have hstatus : ∀ g : RideHash, (g.hset (transitionFields env ride next options now)).status =
          some next := fun g => (hset_transitionFields hdriver).1
      intro s hs
      cases hn : next.terminal with
      | true =>
        refine hs.finish (fun g => terminal_of_status hn (hstatus g))
          (transitionFields_keepsDriver hdriver) fun g t _ ht => neat_afterTransition hn ht
      | false =>
        refine View.Safe.andThen ?_ (fun _ => neat_background (background_afterTransition hn))
        refine View.Safe.cmd neat_stable hs fun t ht _ => ⟨?_, ?_⟩
        · intro write hwrite
          rw [List.mem_singleton.mp hwrite]
          exact transitionFields_keepsDriver hdriver
        · refine View.Safe.ret neat_stable ⟨ht.locked.stay (.of_locks fun _ _ => rfl), fun hr => ?_⟩
            fun _ => id
          change (put t.ride r ((t.ride r).hset _) r).terminal at hr
          rw [put_self] at hr
          rcases hr with hr | hr <;> (rw [hstatus] at hr; cases hr; cases hn)

end ending

section operations

variable {α β : Type} {d : DriverId} {reason : Response}

/-- A lock section on a ride: it starts neat because a free ride lock means that nobody
refers to a ride that is over, and it is given back as neat. -/
theorem refs_withLock {fn : App α} {ttlMs : ℕ}
    (hf : ∀ u, ((tidies env).view i).Keeps (Neat i r u) fn) :
    ((tidies env).view i).Keeps (Free False i) (withLock (.ride r) ttlMs fn) := fun s hs =>
  safe_withLock (P := fun u => Neat i r u) (tidies env) (fun _ _ hst => hst.rides.leases)
    (fun _ => trivial)
    (fun u t hu ht ha => ⟨trivial, fun hnone => by
      obtain ⟨-, n, -, hinv⟩ := ha
      have htidy : Tidy r t := hinv.referred.tidy hnone
      refine ⟨?_, (exec_sameKeys (by trivial)).tidy htidy⟩
      rw [exec_setNX_of_none hnone]
      exact ht.acquire hu⟩)
    (fun _ => neat_stable) (fun u t ht => hf u t ht) (fun u t ht _ => ⟨ht.locked, ht.tidy⟩) hs

theorem refs_withRideLock {fn : App (Option RideHash)}
    (hf : ∀ u, ((tidies env).view i).Keeps (Neat i r u) fn) :
    ((tidies env).view i).Keeps (Free False i) (withRideLock env r fn) := by
  refine (refs_withLock hf).bind fun result => ?_
  cases result.join with
  | none => exact View.Keeps.throw free_stable'
  | some ride => exact View.Keeps.ret free_stable'

theorem refs_background {p : App α} (hp : Background env p) :
    ((tidies env).view i).Keeps (Free False i) p := free_calm hp.calm

theorem refs_startDispatch : ((tidies env).view i).Keeps (Free False i) (startDispatch env r) :=
  refs_withRideLock fun _ => neat_dispatchUnderLock

theorem refs_handleBatchTimeout {batchId : BatchId} :
    ((tidies env).view i).Keeps (Free False i) (handleBatchTimeout env r batchId) :=
  refs_withRideLock fun _ => neat_batchTimeoutUnderLock

theorem refs_handleDriverRejection :
    ((tidies env).view i).Keeps (Free False i) (handleDriverRejection env r d reason) :=
  refs_withRideLock fun _ => neat_rejectionUnderLock

theorem refs_transitionRide {next : RideStatus} {options : TransitionOptions}
    (hdriver : options.driverId = none) :
    ((tidies env).view i).Keeps (Free False i) (transitionRide env r next options) := by
  refine (refs_withLock fun _ => neat_transitionUnderLock hdriver).bind fun result => ?_
  cases result.join with
  | none => exact View.Keeps.throw free_stable'
  | some ride => exact View.Keeps.ret free_stable'

theorem refs_transitionByDriver {next : RideStatus} :
    ((tidies env).view i).Keeps (Free False i) (transitionByDriver env next r d) := by
  refine (refs_background slight_getRide.background).bind fun ride => ?_
  split_ifs
  · exact refs_transitionRide rfl
  · exact View.Keeps.throw free_stable'

theorem refs_cancelRide {actorType : ActorType} {actorId : Option ℕ} {why : String} :
    ((tidies env).view i).Keeps (Free False i) (cancelRide env r actorType actorId why) := by
  refine (refs_background slight_getRide.background).bind fun ride => ?_
  cases ride with
  | none => exact View.Keeps.throw free_stable'
  | some ride =>
    dsimp only
    split_ifs
    · exact View.Keeps.ret free_stable'
    · exact refs_transitionRide rfl

theorem loose_quiet {p : App α} (hp : ∀ env, Background env p) : p.Uses Cmd.loose :=
  (calm_quiet hp).mono fun _ _ => Cmd.calm.loose

theorem loose_acceptRide : (acceptRide r d).Uses Cmd.loose := by
  refine (loose_quiet fun _ => slight_getRide.background).bind fun preAcceptRide => ?_
  refine ⟨trivial, fun acceptedAt => ⟨trivial, fun version => ?_⟩⟩
  simp only [Prog.ret_bind]
  split_ifs
  · trivial
  · exact loose_quiet fun _ => slight_afterAccept.background

variable {c : CustomerId} {origin destination : Location} {metadata : Metadata}

theorem loose_createRide : (createRide env c origin destination metadata).Uses Cmd.loose := by
  refine ⟨trivial, fun now => ⟨trivial, fun rideId => ⟨?_, fun _ => loose_quiet fun env' => ?_⟩⟩⟩
  · intro write hwrite
    simp only [List.mem_cons, List.not_mem_nil, or_false] at hwrite
    rcases hwrite with rfl | rfl | rfl | rfl <;> trivial
  · refine slight_appendTimelineEvent.background.bind fun _ => ?_
    refine slight_refreshRideRealtimeKeys.background.bind fun _ => ?_
    refine slight_enqueueRideSync.background.bind fun _ => slight_publish.background.bind fun _ => ?_
    exact slight_enqueueDispatchStart.background.bind fun _ => trivial

theorem loose_requestUnderLock :
    (requestUnderLock env c origin destination metadata).Uses Cmd.loose := by
  refine Prog.Uses.bind ⟨trivial, fun _ => trivial⟩ fun activeRideId => ?_
  refine Prog.Uses.bind ?_ fun existingRide => ?_
  · cases activeRideId with
    | none => trivial
    | some rideId => exact loose_quiet fun _ => slight_getRide.background
  · split_ifs
    · trivial
    · exact loose_createRide

theorem refs_requestRide :
    ((tidies env).view i).Keeps (Free False i) (requestRide env c origin destination metadata) := by
  have hlock : (withLock (.customer c) env.lockTtlMs
      (requestUnderLock env c origin destination metadata)).Uses Cmd.loose := by
    refine ⟨trivial, fun token => ⟨fun r => LockKey.noConfusion, fun ok => ?_⟩⟩
    cases ok with
    | false => trivial
    | true =>
      refine (loose_requestUnderLock.tryFinally ?_).bind fun _ => trivial
      exact ⟨fun r => LockKey.noConfusion, fun _ => trivial⟩
  refine (free_loose hlock).bind fun result => ?_
  cases result with
  | none => exact View.Keeps.throw free_stable'
  | some ride => exact View.Keeps.ret free_stable'

theorem refs_handleDriverDrop {activeRideId : Option RideId} {pendingRideIds : List RideId} :
    ((tidies env).view i).Keeps (Free False i)
      (handleDriverDrop env d activeRideId pendingRideIds reason) := by
  refine View.Keeps.bind (.forEach free_stable' fun r => ?_) fun _ => ?_
  · exact refs_handleDriverRejection.bind fun _ => View.Keeps.ret free_stable'
  · cases activeRideId with
    | none => exact View.Keeps.ret free_stable'
    | some activeRideId =>
      refine (refs_background slight_getRide.background).bind fun ride => ?_
      cases ride with
      | none => exact View.Keeps.ret free_stable'
      | some ride =>
        dsimp only
        split_ifs
        · exact refs_background ⟨trivial, fun now => slight_publish.background⟩
        · exact View.Keeps.ret free_stable'

theorem refs_handleJob {job : JobId} : ((tidies env).view i).Keeps (Free False i) (handleJob env job) := by
  have hret : ((tidies env).view i).Keeps (Free False i) (.ret () : App Unit) :=
    View.Keeps.ret free_stable'
  cases job with
  | dispatchStart r version reason => exact (refs_startDispatch.bind fun _ => hret).tryCatch fun _ => hret
  | dispatchTimeout r batchId => exact refs_handleBatchTimeout.bind fun _ => hret
  | persistRide r version => exact refs_background slight_syncRide.background
  | persistDriver d reason suffix => exact refs_background slight_syncDriver.background

theorem refs_work {job : JobId} : ((tidies env).view i).Keeps (Free False i) (work env job) := by
  have hret : ∀ ok : Bool, ((tidies env).view i).Keeps (Free False i) (.ret ok : App Bool) :=
    fun _ => View.Keeps.ret free_stable'
  refine View.Keeps.bind (refs_background ⟨trivial, fun _ => trivial⟩) fun taken => ?_
  cases taken with
  | false => exact View.Keeps.ret free_stable'
  | true =>
    refine View.Keeps.bind ((refs_handleJob.bind fun _ => hret true).tryCatch fun _ => hret false)
      fun succeeded => ?_
    exact refs_background ⟨trivial, fun _ => trivial⟩

theorem refs_discard {p : App α} (hp : ((tidies env).view i).Keeps (Free False i) p) :
    ((tidies env).view i).Keeps (Free False i) (discard p) :=
  hp.bind fun _ => View.Keeps.ret free_stable'

theorem refs_code {op : Op} (hop : serving (.call op) = true) :
    ((tidies env).view i).Keeps (Free False i) (code env op) := by
  cases op with
  | requestRide c origin destination metadata => exact refs_discard refs_requestRide
  | startDispatch r => exact refs_discard refs_startDispatch
  | handleBatchTimeout r batchId => exact refs_discard refs_handleBatchTimeout
  | handleDriverRejection r d reason => exact refs_discard refs_handleDriverRejection
  | acceptRide r d => exact refs_discard (free_loose loose_acceptRide)
  | markDriverArriving r d => exact refs_discard refs_transitionByDriver
  | startRide r d => exact refs_discard refs_transitionByDriver
  | completeRide r d => exact refs_discard refs_transitionByDriver
  | cancelRide r actorType actorId reason => exact refs_discard refs_cancelRide
  | requeueRideAfterDriverLoss r d => cases hop
  | goOnline d lat lng socketId => exact refs_discard (refs_background background_goOnline)
  | heartbeat d lat lng socketId => exact refs_discard (refs_background background_heartbeat)
  | goOffline d => exact refs_discard (refs_background background_goOffline)
  | goOfflineAndDrop d reason =>
    exact (refs_background background_goOffline).bind fun _ => refs_handleDriverDrop
  | restoreDriverSession d socketId =>
    exact refs_discard (refs_background background_restoreDriverSession)
  | scanStaleDriversAndRecover =>
    exact (refs_background background_scanStaleDrivers).bind fun _ =>
      .forEach free_stable' fun _ => refs_handleDriverDrop
  | recoverDispatchingRides => exact refs_background slight_recoverDispatchingRides.background
  | work job => exact refs_work

end operations

/-- Every run without requeues keeps the contract about references, if its references are
written well. -/
theorem tidies_sound : (tidies env).Sound where
  call := fun op n s _ hs => ⟨(@rides_sound env False).call op n s trivial hs.rides, hs.referred⟩
  spawn := fun op n s hop hs => refs_code hop s fun k lease hk hl ho => by
    obtain ⟨i, hi, hown⟩ := hs.rides.leases k lease hk hl
    exact absurd (hown.unique ho) hi.ne
  step := fun i n s β c hi hs ha hg =>
    ⟨rides_step hi hs.rides ha.1, referred_exec hs.referred ha.1 ha.2 hg⟩
  others := fun i j n s β c hij _ _ _ ha _ => tidyRely_exec hij ha.1 ha.2
  env := fun e n s t hok hs he => by
    have hsame : SameKeys s t := event_sameKeys he
    have hlocks : ∀ r, t.locks (.ride r) = s.locks (.ride r) := fun r =>
      event_locks he (hok (.ride r) trivial)
    have hrides := (@rides_sound env False).env e n s t hok hs.rides he
    refine ⟨⟨hrides.1, fun d r href => ?_⟩, fun j hj => hsame.tidyRely (hrides.2 j hj).leases⟩
    have hold : Referable d r s := hs.referred d r (hsame.refers.mp href)
    refine ⟨by rw [hsame.ride]; exact hold.driver, ?_⟩
    rw [hsame.ride, hlocks]
    exact hold.live

theorem tidies_initial : (tidies env).Holds initial := by
  refine Contract.holds_empty ⟨(@rides_initial env False).inv, fun d r href => ?_⟩
  rcases href with href | href <;> cases href

end YatriGo
