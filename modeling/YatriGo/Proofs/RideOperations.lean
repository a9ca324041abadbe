import YatriGo.Proofs.RideContract

/-! Every operation keeps the contract about rides. -/

namespace YatriGo
open Concurrent

variable {env : Env} {customers : Prop} {i : ℕ} {r : RideId} {u : Uuid} {s : Store}

/-- An assertion on the hash of a ride that its lock protects: only an acceptance can
interfere, and it keeps the assertion. -/
def Closed (φ : RideHash → Prop) : Prop := ∀ h g, Since h g → φ h → φ g

theorem closed_since {h : RideHash} : Closed (Since h) := fun _ _ hs h' => h'.trans hs

theorem closed_working : Closed RideHash.working := fun _ _ hs h => hs.working h

theorem closed_true : Closed fun _ => True := fun _ _ _ _ => trivial

/-- Client `i` has the lock of `r` and `φ` holds of the ride's hash. -/
structure Holding (customers : Prop) (i : ℕ) (r : RideId) (u : Uuid) (φ : RideHash → Prop)
    (s : Store) : Prop where
  locked : Locked customers i (.ride r) u s
  hash : φ (s.ride r)

/-- The body of a lock section on `r`: it ends with the lock still held. -/
abbrev Body (env : Env) (customers : Prop) (i : ℕ) (r : RideId) (u : Uuid) {α : Type} (p : App α)
    (s : Store) : Prop :=
  ((rides env customers).view i).Safe (fun _ => Locked customers i (.ride r) u) p s

theorem Locked.holds (h : Locked customers i (.ride r) u s) : Holds i (.ride r) s :=
  let ⟨_, he⟩ := h.lease trivial
  ⟨_, he, u, rfl, h.own⟩

theorem locked_stable : ((rides env customers).view i).Stable (Locked customers i (.ride r) u) :=
  fun _ _ hst h => h.stay hst.leases

theorem free_stable : ((rides env customers).view i).Stable (Free customers i) :=
  fun _ _ hst h => h.stay hst.leases

variable {φ ψ : RideHash → Prop}

theorem Holding.mono (h : Holding customers i r u φ s) (himp : ∀ g, φ g → ψ g) :
    Holding customers i r u ψ s := ⟨h.locked, himp _ h.hash⟩

theorem Holding.stable (hφ : Closed φ) :
    ((rides env customers).view i).Stable (Holding customers i r u φ) := fun _ _ hst h =>
  ⟨h.locked.stay hst.leases, hφ _ _ (hst.locked r h.locked.holds) h.hash⟩

theorem Holding.same {t : Store} (h : Holding customers i r u φ s) (hst : SameRides s t)
    (hl : ∀ k, keeps customers k → t.locks k = s.locks k) : Holding customers i r u φ t :=
  ⟨h.locked.stay (.of_locks hl), by rw [hst.ride]; exact h.hash⟩

theorem Cmd.background.guar {β : Type} {c : Cmd β} (h : c.background env) :
    RideGuar env customers i c s := by
  cases c with
  | multi ws => exact .background h
  | _ => exact @Cmd.background.ownTokens env customers i _ _ h

theorem Cmd.background.same {β : Type} {c : Cmd β} (h : c.background env) :
    SameRides s (exec env i c s).2 := by
  cases c with
  | multi ws => exact multi_sameRides (BackgroundWrites.sparesRides h)
  | evalAcceptRide r d acceptedAt reservation => exact h.elim
  | _ => exact exec_sameRides (by trivial)

theorem Cmd.background.locks {β : Type} {c : Cmd β} (h : c.background env) {k : LockKey}
    (hk : keeps customers k) : (exec env i c s).2.locks k = s.locks k := by
  apply exec_locks (keeps_mutex hk)
  cases c with
  | setNX key token ttl =>
    intro h'
    cases h'
    exact keeps_not_ofDriver hk h
  | evalReleaseLock key token =>
    intro h'
    cases h'
    exact keeps_not_ofDriver hk h
  | _ => simp only [Cmd.lockOf, ne_eq, reduceCtorEq, not_false_eq_true]

theorem Holding.safe {α : Type} {p : App α} {Q : Except AppError α → Store → Prop}
    (h : Holding customers i r u φ s) (hφ : Closed φ) (hp : Background env p)
    (hQ : ∀ x t, Holding customers i r u φ t → Q x t) : ((rides env customers).view i).Safe Q p s :=
  View.Safe.of_uses (Holding.stable hφ)
    (fun _ _ _ hc ht _ => ⟨hc.guar, ht.same hc.same fun _ hk => hc.locks hk⟩) hp h hQ

theorem free_safe {α : Type} {p : App α} {Q : Except AppError α → Store → Prop}
    (h : Free customers i s) (hp : Background env p) (hQ : ∀ x t, Free customers i t → Q x t) :
    ((rides env customers).view i).Safe Q p s :=
  View.Safe.of_uses free_stable
    (fun _ _ _ hc ht _ => ⟨hc.guar, ht.stay (.of_locks fun _ hk => hc.locks hk)⟩) hp h hQ

section Body

variable {α β : Type} {p : App α} {f : α → App β}

theorem Holding.body (h : Holding customers i r u φ s) (hφ : Closed φ) (hp : Background env p) :
    Body env customers i r u p s := h.safe hφ hp fun _ _ ht => ht.locked

theorem Holding.seq (h : Holding customers i r u φ s) (hφ : Closed φ) (hp : Background env p)
    (next : ∀ a t, Holding customers i r u φ t → Body env customers i r u (f a) t) :
    Body env customers i r u (p.bind f) s := by
  refine View.Safe.bind (h.safe hφ hp fun x t ht => ?_)
  cases x with
  | ok a => exact next a t ht
  | error e => exact ht.locked

theorem Holding.read {c : Cmd α} (h : Holding customers i r u φ s) (hφ : Closed φ)
    (hc : c.background env)
    (next : ∀ a t, Holding customers i r u φ t → Body env customers i r u (f a) t) :
    Body env customers i r u ((redis c).bind f) s := h.seq hφ ⟨hc, fun _ => trivial⟩ next

theorem Holding.getRide {f : Option RideHash → App β} (h : Holding customers i r u φ s)
    (hφ : Closed φ) (next : ∀ g t, φ g → Holding customers i r u (Since g) t →
      Body env customers i r u (f (toRideSnapshot g)) t) :
    Body env customers i r u ((YatriGo.getRide r).bind f) s :=
  View.Safe.cmd (Holding.stable hφ) h fun t ht _ =>
    ⟨trivial, next (t.ride r) t ht.hash ⟨ht.locked, .same⟩⟩

theorem Holding.update {f : Unit → App β} {g : RideHash} {fields : List RideField}
    (pre post : List Write) (h : Holding customers i r u (Since g) s) (hw : RideWrite env g fields)
    (aside : ∀ w ∈ pre ++ post, w.aside)
    (next : ∀ g' t, Since g g' → Holding customers i r u (Since (g'.hset fields)) t →
      Body env customers i r u (f ()) t) :
    Body env customers i r u ((redis (.multi (pre ++ .hsetRide r fields :: post))).bind f) s := by
  refine View.Safe.cmd (Holding.stable closed_since) h fun t ht _ =>
    ⟨.ride pre post r g fields ht.locked.holds ht.hash hw aside,
      next (t.ride r) _ ht.hash ⟨ht.locked.stay (.of_locks fun k hk => ?_), ?_⟩⟩
  · exact multi_locks (keeps_mutex hk)
  · obtain ⟨hride, -, -⟩ := @multi_update t pre post r fields aside
    change Since _ ((t.multi _).ride r)
    rw [hride, put_self]
    exact .same

theorem Holding.multi {f : Unit → App β} {ws : List Write} (h : Holding customers i r u φ s)
    (hφ : Closed φ) (hu : ∀ t, Holding customers i r u φ t → Update env customers i ws t)
    (spares : ∀ w ∈ ws, w.sparesRides)
    (next : ∀ t, Holding customers i r u φ t → Body env customers i r u (f ()) t) :
    Body env customers i r u ((redis (.multi ws)).bind f) s :=
  View.Safe.cmd (Holding.stable hφ) h fun t ht _ =>
    ⟨hu t ht, next _ (ht.same (multi_sameRides spares) fun _ hk => multi_locks (keeps_mutex hk))⟩

end Body

theorem toRideSnapshot_eq_some {h g : RideHash} (hs : toRideSnapshot h = some g) :
    g = h ∧ h.status ≠ none := by
  unfold toRideSnapshot at hs
  split at hs
  · cases hs
  · rename_i hne
    cases hs
    exact ⟨rfl, hne⟩

section dispatch

variable {β : Type} {ride : RideHash} {now : Time}

theorem body_endBatch {f : Unit → App β} {batchId : BatchId}
    (h : Holding customers i r u (Since ride) s) (hst : ride.status = some .dispatching)
    (next : ∀ t, Holding customers i r u RideHash.working t → Body env customers i r u (f ()) t) :
    Body env customers i r u ((endBatch r ride batchId now).bind f) s := by
  simp only [endBatch, timeoutWrites, Prog.bind_eq, Prog.bind_assoc]
  refine h.read closed_since trivial fun responses t ht => ?_
  refine Holding.update _ [] ht (.clear now hst) ?_ fun g' v hg hv => ?_
  · intro w hw
    simp only [List.append_nil, List.mem_map] at hw
    obtain ⟨d, -, rfl⟩ := hw
    trivial
  · have hworking : g'.working := hg.working (Or.inl hst)
    have hv : Holding customers i r u RideHash.working v := hv.mono fun k hk =>
      hk.working (hworking.congr hset_clearBatchFields.1)
    refine hv.seq closed_working slight_releaseDriverReservations.background fun _ w hw => ?_
    refine hw.seq closed_working slight_clearPendingMembership.background fun _ x hx => ?_
    exact hx.seq closed_working slight_appendTimelineEvent.background fun _ y hy => next y hy

theorem body_startFirstDispatch {f : RideHash → App β}
    (h : Holding customers i r u (Since ride) s) (hst : ride.status = some .requested)
    (next : ∀ g t, g.working → Holding customers i r u (Since g) t →
      Body env customers i r u (f g) t) :
    Body env customers i r u ((startFirstDispatch env r ride now).bind f) s := by
  simp only [startFirstDispatch, updateRideHash, write, Prog.bind_eq, Prog.bind_assoc]
  refine Holding.update [] [] h (.start now hst) (fun w hw => by cases hw)
    fun g' v hg hv => ?_
  have hv : Holding customers i r u RideHash.working v := hv.mono fun k hk =>
    hk.working (Or.inl hset_startFields.1)
  refine hv.seq closed_working slight_refreshRideRealtimeKeys.background fun _ w hw => ?_
  refine hw.seq closed_working slight_getRide.background fun _ x hx => ?_
  refine hx.getRide closed_working fun g y hg hy => ?_
  cases hsnap : toRideSnapshot g with
  | none => exact View.Safe.throw locked_stable hy.locked fun _ => id
  | some g' =>
    obtain ⟨rfl, -⟩ := toRideSnapshot_eq_some hsnap
    simp only [Prog.bind_assoc]
    refine hy.seq closed_since slight_appendTimelineEvent.background fun _ z hz => ?_
    refine hz.seq closed_since slight_enqueueRideSync.background fun _ z hz => ?_
    exact hz.seq closed_since slight_emitRideStatusUpdate.background fun _ z hz => next _ z hg hz

theorem body_expandSearch {nextRound : ℕ} {nextRadius : ℚ}
    (h : Holding customers i r u (Since ride) s) (hst : ride.working) :
    Body env customers i r u (expandSearch env r ride nextRound nextRadius now) s := by
  simp only [expandSearch, updateRideHash, write, Prog.bind_eq, Prog.bind_assoc]
  refine Holding.update [] [] h (.expand nextRound nextRadius now hst) (fun w hw => by cases hw)
    fun g' v hg hv => ?_
  refine hv.seq closed_since slight_refreshRideRealtimeKeys.background fun _ w hw => ?_
  refine hw.seq closed_since slight_getRide.background fun updated x hx => ?_
  cases updated with
  | none => exact View.Safe.throw locked_stable hx.locked fun _ => id
  | some updated =>
    refine hx.seq closed_since slight_appendTimelineEvent.background fun _ y hy => ?_
    refine hy.seq closed_since slight_enqueueRideSync.background fun _ y hy => ?_
    refine hy.seq closed_since slight_enqueueDispatchStart.background fun _ y hy => ?_
    exact View.Safe.ret locked_stable hy.locked fun _ => id

theorem body_sendBatch {batchId : BatchId} {batchDrivers : List DriverId}
    (h : Holding customers i r u (Since ride) s) (hst : ride.working) :
    Body env customers i r u (sendBatch env r ride batchId batchDrivers now) s := by
  simp only [sendBatch, batchWrites, Prog.bind_eq]
  refine Holding.update [] _ h
    (.batch batchId batchDrivers (now + env.dispatch.responseTtlMs) now hst) (fun w hw => ?_)
    fun g' v hg hv => ?_
  · obtain ⟨d, -, hd⟩ := List.mem_flatMap.mp hw
    simp only [List.mem_cons, List.not_mem_nil, or_false] at hd
    rcases hd with rfl | rfl | rfl <;> trivial
  · refine hv.seq closed_since slight_getRide.background fun updated x hx => ?_
    cases updated with
    | none => exact View.Safe.throw locked_stable hx.locked fun _ => id
    | some updated =>
      refine hx.seq closed_since slight_appendTimelineEvent.background fun _ y hy => ?_
      refine hy.seq closed_since slight_enqueueRideSync.background fun _ y hy => ?_
      refine hy.seq closed_since slight_enqueueBatchTimeout.background fun _ y hy => ?_
      refine hy.seq closed_since (.forEach fun _ _ => slight_publish.background) fun _ y hy => ?_
      exact View.Safe.ret locked_stable hy.locked fun _ => id

/-- The release of the driver of a ride that is over, or that is about to be requeued. -/
theorem body_releaseDriverAvailability {d : DriverId} {f : Unit → App β}
    (h : Holding customers i r u (fun g => g.driverId = some d ∧ g.status ≠ some .dispatching ∧
      g.status ≠ none) s)
    (next : ∀ t, Locked customers i (.ride r) u t → Body env customers i r u (f ()) t) :
    Body env customers i r u ((releaseDriverAvailability (some d) r now).bind f) s := by
  have hclosed : Closed fun g : RideHash =>
      g.driverId = some d ∧ g.status ≠ some .dispatching ∧ g.status ≠ none := by
    intro k g hs hk
    cases hs with
    | same => exact hk
    | accepted d' acceptedAt hst hd => exact absurd hst hk.2.1
    | absent g hst => exact absurd hst hk.2.2
  simp only [releaseDriverAvailability, Prog.bind_eq, Prog.bind_assoc]
  refine h.read hclosed trivial fun driverHash t ht => ?_
  refine ht.read hclosed trivial fun driverActiveRide t ht => ?_
  refine ht.read hclosed trivial fun heartbeatExists t ht => ?_
  refine ht.multi hclosed (fun v hv => ?_) releaseWrites_sparesRides fun v hv => next v hv.locked
  exact .release d r driverHash driverActiveRide heartbeatExists now hv.locked.holds hv.hash.1

theorem Holding.terminal_eq {g : RideHash} (h : Holding customers i r u (Since g) s)
    (hg : g.terminal) : s.ride r = g := h.hash.eq_of_terminal hg

theorem terminal_status {g : RideHash} (h : g.terminal) :
    g.status ≠ some .dispatching ∧ g.status ≠ none := by
  rcases h with h | h <;> (rw [h]; exact ⟨by decide, by decide⟩)

theorem body_releaseRideDriver {f : Unit → App β} {g : RideHash}
    (h : Holding customers i r u (Since g) s) (hg : g.terminal)
    (next : ∀ t, Locked customers i (.ride r) u t → Body env customers i r u (f ()) t) :
    Body env customers i r u ((releaseRideDriver r g now).bind f) s := by
  unfold releaseRideDriver
  cases hd : g.driverId with
  | none => exact next s h.locked
  | some d =>
    simp only [Prog.bind_eq, Prog.bind_assoc]
    refine body_releaseDriverAvailability ⟨h.locked, ?_⟩ fun v hv => ?_
    · rw [h.terminal_eq hg]
      exact ⟨hd, terminal_status hg⟩
    · have hv : Holding customers i r u (fun _ => True) v := ⟨hv, trivial⟩
      exact hv.seq closed_true slight_enqueueDriverSync.background fun _ w hw => next w hw.locked

theorem body_cleanupTerminalRideKeys {f : Unit → App β} {g : RideHash}
    (h : Holding customers i r u (Since g) s) (hg : g.terminal)
    (next : ∀ t, Locked customers i (.ride r) u t → Body env customers i r u (f ()) t) :
    Body env customers i r u ((cleanupTerminalRideKeys r g now).bind f) s := by
  simp only [cleanupTerminalRideKeys, Prog.bind_eq, Prog.bind_assoc]
  refine h.read closed_since trivial fun notifiedDrivers t ht => ?_
  refine ht.read closed_since trivial fun currentCustomerRide t ht => ?_
  refine ht.multi closed_since (fun v hv => ?_) cleanupWrites_sparesRides fun v hv => ?_
  · have heq : v.ride r = g := hv.terminal_eq hg
    rw [← heq] at hg ⊢
    exact .cleanup r notifiedDrivers currentCustomerRide hv.locked.holds hg
  · refine hv.seq closed_since slight_releaseBatchReservations.background fun _ w hw => ?_
    exact body_releaseRideDriver hw hg next

theorem body_exhaustSearch (h : Holding customers i r u (Since ride) s) (hst : ride.working) :
    Body env customers i r u (exhaustSearch r ride now) s := by
  simp only [exhaustSearch, updateRideHash, write, Prog.bind_eq, Prog.bind_assoc]
  refine Holding.update [] [] h (.exhaust now hst) (fun w hw => by cases hw) fun g' v hg hv => ?_
  have hterminal : (g'.hset (exhaustFields ride now)).terminal := Or.inr hset_exhaustFields.1
  refine hv.seq closed_since slight_refreshRideRealtimeKeys.background fun _ w hw => ?_
  refine hw.getRide closed_since fun g x hg' hx => ?_
  cases hsnap : toRideSnapshot g with
  | none => exact View.Safe.throw locked_stable hx.locked fun _ => id
  | some updated =>
    obtain ⟨rfl, -⟩ := toRideSnapshot_eq_some hsnap
    have hterminal : updated.terminal := by
      rw [hg'.eq_of_terminal hterminal]
      exact hterminal
    refine hx.seq closed_since slight_appendTimelineEvent.background fun _ y hy => ?_
    refine body_cleanupTerminalRideKeys hy hterminal fun z hz => ?_
    have hz : Holding customers i r u (fun _ => True) z := ⟨hz, trivial⟩
    refine hz.seq closed_true slight_enqueueRideSync.background fun _ z hz => ?_
    refine hz.seq closed_true slight_emitRideStatusUpdate.background fun _ z hz => ?_
    exact View.Safe.ret locked_stable hz.locked fun _ => id

theorem body_findDrivers {dispatchRound : ℕ} {searchRadiusKm : ℚ}
    (h : Holding customers i r u (Since ride) s) (hst : ride.working) :
    Body env customers i r u (findDrivers env r ride dispatchRound searchRadiusKm now) s := by
  simp only [findDrivers, Prog.bind_eq]
  refine h.read closed_since trivial fun notifiedDrivers t ht => ?_
  refine ht.seq closed_since slight_getNearestAvailableDrivers.background fun candidates t ht => ?_
  refine ht.read closed_since trivial fun batchId t ht => ?_
  refine ht.seq closed_since (slight_reserveLoop _ _).background fun batchDrivers v hv => ?_
  split_ifs
  · exact body_exhaustSearch hv hst
  · exact body_expandSearch hv hst
  · exact body_sendBatch hv hst

theorem openBatch_eq_some {batchId : BatchId} (h : openBatch ride = some batchId) :
    ride.status = some .dispatching ∧ ride.currentBatchId = some batchId := by
  unfold openBatch at h
  split at h
  · rename_i hst
    exact ⟨hst, h⟩
  · cases h

theorem body_continueDispatch {dispatchRound : ℕ} {searchRadiusKm : ℚ}
    (h : Holding customers i r u (Since ride) s) (hst : ride.working) :
    Body env customers i r u (continueDispatch env r ride dispatchRound searchRadiusKm now) s := by
  simp only [continueDispatch, Prog.bind_eq, Prog.pure_eq]
  cases hopen : openBatch ride with
  | none => exact body_findDrivers h hst
  | some batchId =>
    dsimp only
    split_ifs
    · exact View.Safe.ret locked_stable h.locked fun _ => id
    · refine body_endBatch h (openBatch_eq_some hopen).1 fun v hv => ?_
      refine hv.getRide closed_working fun k w hk hw => ?_
      cases hsnap : toRideSnapshot k with
      | none => exact View.Safe.throw locked_stable hw.locked fun _ => id
      | some k' =>
        obtain ⟨rfl, -⟩ := toRideSnapshot_eq_some hsnap
        exact body_findDrivers hw hk

theorem body_dispatchUnderLock (h : Locked customers i (.ride r) u s) :
    Body env customers i r u (dispatchUnderLock env r) s := by
  have h : Holding customers i r u (fun _ => True) s := ⟨h, trivial⟩
  simp only [dispatchUnderLock, Prog.bind_eq, Prog.pure_eq]
  refine h.getRide closed_true fun g t _ ht => ?_
  cases hsnap : toRideSnapshot g with
  | none => exact View.Safe.ret locked_stable ht.locked fun _ => id
  | some read =>
    obtain ⟨rfl, -⟩ := toRideSnapshot_eq_some hsnap
    dsimp only
    split_ifs with hother hrequested
    · exact View.Safe.ret locked_stable ht.locked fun _ => id
    · refine ht.read closed_since trivial fun now t ht => ?_
      exact body_startFirstDispatch ht hrequested fun k v hk hv => body_continueDispatch hv hk
    · refine ht.read closed_since trivial fun now t ht => ?_
      have hst : read.status = some .dispatching := by
        by_contra hne
        exact hother ⟨hrequested, hne⟩
      exact body_continueDispatch ht (Or.inl hst)

theorem body_batchTimeoutUnderLock {batchId : BatchId} (h : Locked customers i (.ride r) u s) :
    Body env customers i r u (batchTimeoutUnderLock env r batchId) s := by
  have h : Holding customers i r u (fun _ => True) s := ⟨h, trivial⟩
  simp only [batchTimeoutUnderLock, Prog.bind_eq, Prog.pure_eq]
  refine h.getRide closed_true fun g t _ ht => ?_
  cases hsnap : toRideSnapshot g with
  | none => exact View.Safe.ret locked_stable ht.locked fun _ => id
  | some ride =>
    obtain ⟨rfl, -⟩ := toRideSnapshot_eq_some hsnap
    dsimp only
    split_ifs with hother
    · exact View.Safe.ret locked_stable ht.locked fun _ => id
    · push Not at hother
      refine ht.read closed_since trivial fun now t ht => ?_
      refine body_endBatch ht hother.1 fun v hv => ?_
      refine hv.seq closed_working slight_getRide.background fun updated w hw => ?_
      cases updated with
      | none => exact View.Safe.throw locked_stable hw.locked fun _ => id
      | some updated =>
        exact hw.seq closed_working slight_enqueueRideSync.background fun _ x hx =>
          body_dispatchUnderLock hx.locked

theorem body_rejectUnderLock {d : DriverId} {reason : Response}
    {responses : DriverId → Option Response} (h : Holding customers i r u (Since ride) s)
    (hst : ride.status = some .dispatching) :
    Body env customers i r u (rejectUnderLock env r d reason ride now responses) s := by
  simp only [rejectUnderLock, rejectWrites, Prog.bind_eq, Prog.pure_eq]
  refine Holding.update [.hsetResponse r d reason, .sremPending d r] [] h
    (.reject (batchExhausted ride d responses) now hst) (fun w hw => ?_) fun g' v hg hv => ?_
  · simp only [List.append_nil, List.mem_cons, List.not_mem_nil, or_false] at hw
    rcases hw with rfl | rfl <;> trivial
  · refine hv.seq closed_since slight_applyRejectCooldown.background fun _ w hw => ?_
    refine hw.seq closed_since slight_releaseDriverReservations.background fun _ w hw => ?_
    refine hw.seq closed_since slight_appendTimelineEvent.background fun _ w hw => ?_
    refine hw.seq closed_since slight_getRide.background fun updated w hw => ?_
    cases updated with
    | none => exact View.Safe.throw locked_stable hw.locked fun _ => id
    | some updated =>
      refine hw.seq closed_since slight_enqueueRideSync.background fun _ w hw => ?_
      split_ifs
      · exact hw.seq closed_since slight_releaseDriverReservations.background fun _ x hx =>
          body_dispatchUnderLock hx.locked
      · exact View.Safe.ret locked_stable hw.locked fun _ => id

theorem body_rejectionUnderLock {d : DriverId} {reason : Response}
    (h : Locked customers i (.ride r) u s) :
    Body env customers i r u (rejectionUnderLock env r d reason) s := by
  have h : Holding customers i r u (fun _ => True) s := ⟨h, trivial⟩
  simp only [rejectionUnderLock, Prog.bind_eq, Prog.pure_eq]
  refine h.getRide closed_true fun g t _ ht => ?_
  cases hsnap : toRideSnapshot g with
  | none => exact View.Safe.ret locked_stable ht.locked fun _ => id
  | some ride =>
    obtain ⟨rfl, -⟩ := toRideSnapshot_eq_some hsnap
    dsimp only
    split_ifs with hother
    · exact View.Safe.ret locked_stable ht.locked fun _ => id
    · rw [not_not] at hother
      refine ht.read closed_since trivial fun now t ht => ?_
      refine ht.read closed_since trivial fun responses t ht => ?_
      split_ifs
      · exact View.Safe.ret locked_stable ht.locked fun _ => id
      · exact body_rejectUnderLock ht hother

end dispatch

section transition

variable {now : Time} {next : RideStatus} {options : TransitionOptions}

theorem terminal_of_status {g : RideHash} (hn : next.terminal = true) (hg : g.status = some next) :
    g.terminal := by
  cases next with
  | completed => exact Or.inl hg
  | cancelled => exact Or.inr hg
  | _ => cases hn

theorem body_finishTransition {g : RideHash} {notifiedDrivers : List DriverId}
    (h : Holding customers i r u (Since g) s) (hg : next.terminal = true → g.status = some next) :
    Body env customers i r u (finishTransition r next g notifiedDrivers now) s := by
  have htail : ∀ t, Locked customers i (.ride r) u t → Body env customers i r u
      ((enqueueRideSync r g.version).bind fun _ => (notifyRideStatusUpdate r g).bind fun _ =>
        (emitRideStatusUpdate r g).bind fun _ =>
          if next = .cancelled then
            (Prog.forEach (fun driverId => emitRideCancelledToDriver driverId r g.version)
              (notifiedDrivers ++ g.driverId.toList.filter (· ∉ notifiedDrivers))).bind
                fun _ => .ret (some g)
          else .ret (some g)) t := by
    intro t ht
    have ht : Holding customers i r u (fun _ => True) t := ⟨ht, trivial⟩
    refine ht.seq closed_true slight_enqueueRideSync.background fun _ t ht => ?_
    refine ht.seq closed_true slight_emitRideStatusUpdate.background fun _ t ht => ?_
    refine ht.seq closed_true slight_emitRideStatusUpdate.background fun _ t ht => ?_
    split_ifs
    · refine ht.seq closed_true (.forEach fun _ _ => slight_publish.background) fun _ t ht => ?_
      exact View.Safe.ret locked_stable ht.locked fun _ => id
    · exact View.Safe.ret locked_stable ht.locked fun _ => id
  simp only [finishTransition, Prog.bind_eq, Prog.pure_eq]
  by_cases hn : next.terminal = true
  · rw [if_pos hn]
    exact body_cleanupTerminalRideKeys h (terminal_of_status hn (hg hn)) htail
  · rw [if_neg hn]
    exact htail s h.locked

theorem body_afterTransition
    (h : Holding customers i r u (fun g => next.terminal = true → g.status = some next) s) :
    Body env customers i r u (afterTransition r next options now) s := by
  have hclosed : Closed fun g : RideHash => next.terminal = true → g.status = some next := by
    intro k g hs hk hn
    rw [hs.eq_of_terminal (terminal_of_status hn (hk hn))]
    exact hk hn
  simp only [afterTransition, Prog.bind_eq]
  refine h.seq hclosed slight_refreshRideRealtimeKeys.background fun _ t ht => ?_
  refine ht.seq hclosed slight_appendTimelineEvent.background fun _ t ht => ?_
  refine ht.getRide hclosed fun g t hg ht => ?_
  refine ht.seq closed_since slight_readNotifiedDrivers.background fun notifiedDrivers v hv => ?_
  cases hsnap : toRideSnapshot g with
  | none => exact View.Safe.throw locked_stable hv.locked fun _ => id
  | some snapshot =>
    obtain ⟨rfl, -⟩ := toRideSnapshot_eq_some hsnap
    exact body_finishTransition hv hg

theorem body_transitionUnderLock (hto : next ≠ .dispatching ∧ next ≠ .accepted)
    (hdriver : options.driverId = none)
    (h : Locked customers i (.ride r) u s) :
    Body env customers i r u (transitionUnderLock env r next options) s := by
  have h : Holding customers i r u (fun _ => True) s := ⟨h, trivial⟩
  simp only [transitionUnderLock, Prog.bind_eq]
  refine h.getRide closed_true fun g t _ ht => ?_
  cases hsnap : toRideSnapshot g with
  | none => exact View.Safe.throw locked_stable ht.locked fun _ => id
  | some ride =>
    obtain ⟨rfl, hexist⟩ := toRideSnapshot_eq_some hsnap
    obtain ⟨current, hcurrent⟩ := Option.ne_none_iff_exists'.mp hexist
    dsimp only
    split_ifs
    · exact ht.body closed_since slight_getRide.background
    · rw [hcurrent, Option.getD_some]
      unfold assertTransition
      split_ifs with hlegal
      · refine ht.read closed_since trivial fun now t ht => ?_
        refine Holding.update [] [] ht (.transition current next options now hcurrent hlegal hto hdriver)
          (fun w hw => by cases hw) fun g' v hg hv => ?_
        refine body_afterTransition (hv.mono fun k hk hn => ?_)
        have hstatus : (g'.hset (transitionFields env ride next options now)).status = some next :=
          (hset_transitionFields hdriver).1
        rw [hk.eq_of_status hstatus hto.1]
        exact hstatus
      · exact View.Safe.throw locked_stable ht.locked fun _ => id

theorem body_requeueRide {d : DriverId} {ride : RideHash}
    (h : Holding customers i r u (Since ride) s)
    (hst : ride.status = some .accepted ∨ ride.status = some .arriving)
    (hd : ride.driverId = some d) :
    Body env customers i r u (requeueRide env r d ride) s := by
  have hne : ride.status ≠ some .dispatching ∧ ride.status ≠ none := by
    rcases hst with hst | hst <;> (rw [hst]; exact ⟨by decide, by decide⟩)
  have hsame : ∀ g, Since ride g → g = ride := by
    intro g hg
    cases hg with
    | same => rfl
    | accepted d' acceptedAt hst' hd' => exact absurd hst' hne.1
    | absent g hst' => exact absurd hst' hne.2
  have hclosed : Closed (· = ride) := fun g k hk hg => hsame k (hg ▸ hk)
  simp only [requeueRide, releaseDriverAvailability, Prog.bind_eq, Prog.bind_assoc]
  have h : Holding customers i r u (· = ride) s := h.mono fun g hg => hsame g hg
  refine h.read hclosed trivial fun now t ht => ?_
  refine ht.read hclosed trivial fun driverHash t ht => ?_
  refine ht.read hclosed trivial fun driverActiveRide t ht => ?_
  refine ht.read hclosed trivial fun heartbeatExists t ht => ?_
  refine ht.multi hclosed (fun v hv => ?_) releaseWrites_sparesRides fun v hv => ?_
  · exact .release d r driverHash driverActiveRide heartbeatExists now hv.locked.holds
      (by rw [hv.hash]; exact hd)
  have hv : Holding customers i r u (Since ride) v := hv.mono fun g hg => hg ▸ .same
  refine Holding.update [.delNotified r, .delResponses r] [.expireRide r] hv (.requeue d now hst hd)
    (fun w hw => ?_) fun g' w hg hw => ?_
  · simp only [List.cons_append, List.nil_append, List.mem_cons, List.not_mem_nil, or_false] at hw
    rcases hw with rfl | rfl | rfl <;> trivial
  refine hw.seq closed_since slight_appendTimelineEvent.background fun _ x hx => ?_
  refine hx.seq closed_since slight_getRide.background fun updated x hx => ?_
  cases updated with
  | none => exact View.Safe.throw locked_stable hx.locked fun _ => id
  | some updated =>
    refine hx.seq closed_since slight_enqueueRideSync.background fun _ y hy => ?_
    refine hy.seq closed_since slight_emitRideStatusUpdate.background fun _ y hy => ?_
    refine hy.seq closed_since slight_enqueueDispatchStart.background fun _ y hy => ?_
    exact View.Safe.ret locked_stable hy.locked fun _ => id

theorem body_requeueUnderLock {d : DriverId} (h : Locked customers i (.ride r) u s) :
    Body env customers i r u (requeueUnderLock env r d) s := by
  have h : Holding customers i r u (fun _ => True) s := ⟨h, trivial⟩
  simp only [requeueUnderLock, Prog.bind_eq, Prog.pure_eq]
  refine h.getRide closed_true fun g t _ ht => ?_
  cases hsnap : toRideSnapshot g with
  | none => exact View.Safe.ret locked_stable ht.locked fun _ => id
  | some ride =>
    obtain ⟨rfl, -⟩ := toRideSnapshot_eq_some hsnap
    dsimp only
    split_ifs with hother hd
    · exact View.Safe.ret locked_stable ht.locked fun _ => id
    · exact View.Safe.ret locked_stable ht.locked fun _ => id
    · rw [not_not] at hd
      refine body_requeueRide ht ?_ hd
      by_contra hne
      push Not at hne
      exact hother hne

end transition

section operations

variable {d : DriverId}

theorem free_withLock {α : Type} {fn : App α} {ttlMs : ℕ} (h : Free customers i s)
    (body : ∀ u t, Locked customers i (.ride r) u t → Body env customers i r u fn t) :
    ((rides env customers).view i).Safe (fun _ => Free customers i) (withLock (.ride r) ttlMs fn) s := by
  refine safe_withLock (P := fun u => Locked customers i (.ride r) u) (rides env customers)
    (fun s t hst => hst.leases) (fun _ => trivial) (fun u t hu ht _ => ?_) (fun _ => locked_stable) body
    (fun u t ht _ => ⟨ht, fun _ => ⟨u, rfl, ht.own⟩⟩) h
  refine ⟨fun _ => ⟨u, rfl, hu⟩, fun hnone => ?_⟩
  rw [exec_setNX_of_none hnone]
  exact ht.acquire hu

theorem free_bind {α β : Type} {p : App α} {f : α → App β}
    (h : ((rides env customers).view i).Safe (fun _ => Free customers i) p s)
    (next : ∀ a t, Free customers i t →
      ((rides env customers).view i).Safe (fun _ => Free customers i) (f a) t) :
    ((rides env customers).view i).Safe (fun _ => Free customers i) (p.bind f) s := by
  refine View.Safe.bind (h.mono fun x t ht => ?_)
  cases x with
  | ok a => exact next a t ht
  | error e => exact ht

theorem free_ret {α : Type} {a : α} (h : Free customers i s) :
    ((rides env customers).view i).Safe (fun _ => Free customers i) (.ret a : App α) s :=
  View.Safe.ret free_stable h fun _ => id

theorem free_throw {α : Type} {e : AppError} (h : Free customers i s) :
    ((rides env customers).view i).Safe (fun _ => Free customers i) (.throw e : App α) s :=
  View.Safe.throw free_stable h fun _ => id

theorem free_background {α : Type} {p : App α} (h : Free customers i s) (hp : Background env p) :
    ((rides env customers).view i).Safe (fun _ => Free customers i) p s :=
  free_safe h hp fun _ _ => id

theorem free_withRideLock {fn : App (Option RideHash)} (h : Free customers i s)
    (body : ∀ u t, Locked customers i (.ride r) u t → Body env customers i r u fn t) :
    ((rides env customers).view i).Safe (fun _ => Free customers i) (withRideLock env r fn) s := by
  refine free_bind (free_withLock h body) fun result t ht => ?_
  cases result.join with
  | none => exact free_throw ht
  | some ride => exact free_ret ht

theorem free_startDispatch (h : Free customers i s) :
    ((rides env customers).view i).Safe (fun _ => Free customers i) (startDispatch env r) s :=
  free_withRideLock h fun _ _ => body_dispatchUnderLock

theorem free_handleBatchTimeout {batchId : BatchId} (h : Free customers i s) :
    ((rides env customers).view i).Safe (fun _ => Free customers i)
      (handleBatchTimeout env r batchId) s :=
  free_withRideLock h fun _ _ => body_batchTimeoutUnderLock

theorem free_handleDriverRejection {reason : Response} (h : Free customers i s) :
    ((rides env customers).view i).Safe (fun _ => Free customers i)
      (handleDriverRejection env r d reason) s :=
  free_withRideLock h fun _ _ => body_rejectionUnderLock

theorem free_transitionRide {next : RideStatus} {options : TransitionOptions}
    (hto : next ≠ .dispatching ∧ next ≠ .accepted) (hdriver : options.driverId = none)
    (h : Free customers i s) :
    ((rides env customers).view i).Safe (fun _ => Free customers i)
      (transitionRide env r next options) s := by
  refine free_bind (free_withLock h fun _ _ => body_transitionUnderLock hto hdriver)
    fun result t ht => ?_
  cases result.join with
  | none => exact free_throw ht
  | some ride => exact free_ret ht

theorem free_transitionByDriver {next : RideStatus}
    (hto : next ≠ .dispatching ∧ next ≠ .accepted) (h : Free customers i s) :
    ((rides env customers).view i).Safe (fun _ => Free customers i)
      (transitionByDriver env next r d) s := by
  refine free_bind (free_background h slight_getRide.background) fun ride t ht => ?_
  split_ifs
  · exact free_transitionRide hto rfl ht
  · exact free_throw ht

theorem free_cancelRide {actorType : ActorType} {actorId : Option ℕ} {reason : String}
    (h : Free customers i s) :
    ((rides env customers).view i).Safe (fun _ => Free customers i)
      (cancelRide env r actorType actorId reason) s := by
  refine free_bind (free_background h slight_getRide.background) fun ride t ht => ?_
  cases ride with
  | none => exact free_throw ht
  | some ride =>
    dsimp only
    split_ifs
    · exact free_ret ht
    · exact free_transitionRide (by decide) rfl ht

theorem free_requeue (h : Free customers i s) :
    ((rides env customers).view i).Safe (fun _ => Free customers i)
      (requeueRideAfterDriverLoss env r d) s := by
  refine free_bind (free_withLock h fun _ _ => body_requeueUnderLock) fun result t ht => ?_
  cases result.join with
  | none => exact free_throw ht
  | some ride => exact free_ret ht

theorem free_acceptRide (h : Free customers i s) :
    ((rides env customers).view i).Safe (fun _ => Free customers i) (acceptRide r d) s := by
  refine free_bind (free_background h slight_getRide.background) fun preAcceptRide t ht => ?_
  refine free_bind (free_background ht ⟨trivial, fun _ => trivial⟩) fun acceptedAt t ht => ?_
  refine View.Safe.cmd free_stable ht fun v hv _ => ⟨trivial, ?_⟩
  have hv' : Free customers i (exec env i (.evalAcceptRide r d acceptedAt
      ((preAcceptRide.bind RideHash.currentBatchId).map (Token.reservation r))) v).2 :=
    hv.stay (.of_locks fun k hk => acceptRideScript_locks (keeps_mutex hk))
  simp only [Prog.ret_bind]
  split_ifs
  · exact free_throw hv'
  · exact free_background hv' slight_afterAccept.background

end operations

section requestRide

variable {c : CustomerId} {origin destination : Location} {metadata : Metadata}

/-- Client `i` has the lock of customer `c`, whose pointer names no ride that goes on. -/
structure Alone (customers : Prop) (i : ℕ) (c : CustomerId) (u : Uuid) (s : Store) : Prop where
  locked : Locked customers i (.customer c) u s
  pointer : customers → ∀ a, s.customerActiveRide c = some a → (s.ride a).terminal

theorem Locked.holdsCustomer (h : Locked customers i (.customer c) u s) (hc : customers) :
    Holds i (.customer c) s :=
  let ⟨_, he⟩ := h.lease hc
  ⟨_, he, u, rfl, h.own⟩

theorem customerLocked_stable :
    ((rides env customers).view i).Stable (Locked customers i (.customer c) u) :=
  fun _ _ hst h => h.stay hst.leases

theorem Alone.stable : ((rides env customers).view i).Stable (Alone customers i c u) := by
  intro s t hst h
  refine ⟨h.locked.stay hst.leases, fun hc a ha => ?_⟩
  rcases hst.pointer hc c (h.locked.holdsCustomer hc) with h' | h'
  · rw [h'] at ha
    have hterminal : (s.ride a).terminal := h.pointer hc a ha
    rw [hst.terminal a hterminal]
    exact hterminal
  · rw [h'] at ha
    cases ha

theorem customer_safe {α : Type} {p : App α} (h : Locked customers i (.customer c) u s)
    (hp : Background env p) :
    ((rides env customers).view i).Safe (fun _ => Locked customers i (.customer c) u) p s :=
  View.Safe.of_uses customerLocked_stable
    (fun _ _ _ hc ht _ => ⟨hc.guar, ht.stay (.of_locks fun _ hk => hc.locks hk)⟩) hp h fun _ _ => id

theorem safe_createRide (h : Alone customers i c u s) :
    ((rides env customers).view i).Safe (fun _ => Locked customers i (.customer c) u)
      (createRide env c origin destination metadata) s := by
  refine View.Safe.cmd Alone.stable h fun t ht _ => ⟨trivial, ?_⟩
  refine View.Safe.cmd Alone.stable (s := t) ht fun v hv ha => ⟨trivial, ?_⟩
  obtain ⟨-, n, hi, hinv⟩ := ha
  -- the id is new, and stays new until this client creates the ride
  let fresh : Store → Prop := fun w => Alone customers i c u w ∧ v.nextSeq < w.nextSeq ∧
    (w.ride ⟨i, v.nextSeq⟩).status = none
  have hstable : ((rides env customers).view i).Stable fresh := fun w x hwx hw =>
    ⟨Alone.stable w x hwx hw.1, hw.2.1.trans_le hwx.seq, hwx.mine _ rfl hw.2.2⟩
  have hfresh : fresh (exec env i .uuidv4 v).2 := by
    refine ⟨⟨hv.locked.stay (.of_locks fun _ _ => rfl), hv.pointer⟩, Nat.lt_succ_self _, ?_⟩
    by_contra hne
    exact absurd (hinv.ids ⟨i, v.nextSeq⟩ hne).2 (lt_irrefl _)
  refine View.Safe.cmd hstable hfresh fun w hw _ => ⟨?_, ?_⟩
  · exact .create c origin destination metadata _ _ rfl hw.2.1 hw.2.2 fun hc =>
      ⟨hw.1.locked.holdsCustomer hc, hw.1.pointer hc⟩
  · refine customer_safe (hw.1.locked.stay (.of_locks fun k hk => multi_locks (keeps_mutex hk))) ?_
    refine slight_appendTimelineEvent.background.bind fun _ => ?_
    refine slight_refreshRideRealtimeKeys.background.bind fun _ => ?_
    refine slight_enqueueRideSync.background.bind fun _ => ?_
    refine slight_publish.background.bind fun _ => ?_
    exact slight_enqueueDispatchStart.background.bind fun _ => trivial

theorem isActiveRide_eq_false {g : RideHash} (hs : g.status ≠ none)
    (h : ¬ isActiveRide (toRideSnapshot g) = true) : g.terminal := by
  obtain ⟨st, hst⟩ := Option.ne_none_iff_exists'.mp hs
  have hsnap : toRideSnapshot g = some g := if_neg hs
  simp only [isActiveRide, hsnap, Option.bind_some, hst, Bool.not_eq_true', Bool.not_eq_false] at h
  exact terminal_of_status h hst

theorem body_requestUnderLock (h : Locked customers i (.customer c) u s) :
    ((rides env customers).view i).Safe (fun _ => Locked customers i (.customer c) u)
      (requestUnderLock env c origin destination metadata) s := by
  refine View.Safe.cmd customerLocked_stable h fun t ht ha => ⟨trivial, ?_⟩
  obtain ⟨-, n, hi, hinv⟩ := ha
  change View.Safe _ _ (Prog.bind (getExistingRide (t.customerActiveRide c)) _) t
  cases hpointer : t.customerActiveRide c with
  | none =>
    refine safe_createRide ⟨ht, fun _ a ha => ?_⟩
    rw [hpointer] at ha
    cases ha
  | some a =>
    -- the ride the pointer names exists, and the pointer can only be deleted
    let named : Store → Prop := fun v => Locked customers i (.customer c) u v ∧
      (v.ride a).status ≠ none ∧
      (customers → v.customerActiveRide c = some a ∨ v.customerActiveRide c = none)
    have hstable : ((rides env customers).view i).Stable named := by
      intro v w hvw hv
      refine ⟨hv.1.stay hvw.leases, (hvw.exist a hv.2.1).1, fun hc => ?_⟩
      rcases hvw.pointer hc c (hv.1.holdsCustomer hc) with h' | h'
      · rw [h']
        exact hv.2.2 hc
      · exact Or.inr h'
    have hnamed : named t := ⟨ht, (hinv.pointers c a hpointer).1, fun _ => Or.inl hpointer⟩
    refine View.Safe.cmd hstable hnamed fun v hv _ => ⟨trivial, ?_⟩
    simp only [Prog.ret_bind, Prog.pure_eq]
    change View.Safe _ _ (if isActiveRide (toRideSnapshot (v.ride a)) then _ else _) v
    split_ifs with hactive
    · exact View.Safe.throw customerLocked_stable hv.1 fun _ => id
    · refine safe_createRide ⟨hv.1, fun hc b hb => ?_⟩
      have hterminal : (v.ride a).terminal := isActiveRide_eq_false hv.2.1 hactive
      rcases hv.2.2 hc with h' | h'
      · rw [h'] at hb
        cases hb
        exact hterminal
      · rw [h'] at hb
        cases hb

theorem free_requestRide (h : Free customers i s) :
    ((rides env customers).view i).Safe (fun _ => Free customers i)
      (requestRide env c origin destination metadata) s := by
  refine free_bind (safe_withLock (P := fun u => Locked customers i (.customer c) u)
    (rides env customers) (fun s t hst => hst.leases) (fun _ => trivial) (fun u t hu ht _ => ?_)
    (fun _ => customerLocked_stable) (fun _ _ => body_requestUnderLock)
    (fun u t ht _ => ⟨ht, fun _ => ⟨u, rfl, ht.own⟩⟩) h) fun result t ht => ?_
  · refine ⟨fun _ => ⟨u, rfl, hu⟩, fun hnone => ?_⟩
    rw [exec_setNX_of_none hnone]
    exact ht.acquire hu
  · cases result with
    | none => exact free_throw ht
    | some ride => exact free_ret ht

end requestRide

section code

variable {d : DriverId} {reason : Response}

theorem free_forEach {β : Type} {f : β → App Unit} {xs : List β}
    (hf : ∀ x t, Free customers i t →
      ((rides env customers).view i).Safe (fun _ => Free customers i) (f x) t)
    (h : Free customers i s) :
    ((rides env customers).view i).Safe (fun _ => Free customers i) (Prog.forEach f xs) s := by
  induction xs generalizing s with
  | nil => exact free_ret h
  | cons x xs ih => exact free_bind (hf x s h) fun _ t ht => ih ht

theorem free_handleDriverDrop {activeRideId : Option RideId} {pendingRideIds : List RideId}
    (h : Free customers i s) :
    ((rides env customers).view i).Safe (fun _ => Free customers i)
      (handleDriverDrop env d activeRideId pendingRideIds reason) s := by
  refine free_bind (free_forEach (fun r t ht => ?_) h) fun _ t ht => ?_
  · exact free_bind (free_handleDriverRejection ht) fun _ v hv => free_ret hv
  · cases activeRideId with
    | none => exact free_ret ht
    | some activeRideId =>
      refine free_bind (free_background ht slight_getRide.background) fun ride v hv => ?_
      cases ride with
      | none => exact free_ret hv
      | some ride =>
        dsimp only
        split_ifs
        · exact free_background hv ⟨trivial, fun now => slight_publish.background⟩
        · exact free_ret hv

theorem free_handleJob {job : JobId} (h : Free customers i s) :
    ((rides env customers).view i).Safe (fun _ => Free customers i) (handleJob env job) s := by
  cases job with
  | dispatchStart r version reason =>
    refine View.Safe.tryCatch ((free_bind (free_startDispatch h) fun _ t ht => free_ret ht).mono ?_)
    intro x t ht
    cases x with
    | ok _ => exact ht
    | error e => exact free_ret ht
  | dispatchTimeout r batchId => exact free_bind (free_handleBatchTimeout h) fun _ t ht => free_ret ht
  | persistRide r version => exact free_background h slight_syncRide.background
  | persistDriver d reason suffix => exact free_background h slight_syncDriver.background

theorem free_work {job : JobId} (h : Free customers i s) :
    ((rides env customers).view i).Safe (fun _ => Free customers i) (work env job) s := by
  refine free_bind (free_background h ⟨trivial, fun _ => trivial⟩) fun taken t ht => ?_
  cases taken with
  | false => exact free_ret ht
  | true =>
    refine free_bind (View.Safe.tryCatch
      ((free_bind (free_handleJob ht) fun _ v hv => free_ret hv).mono ?_)) fun succeeded v hv => ?_
    · intro x v hv
      cases x with
      | ok _ => exact hv
      | error e => exact free_ret hv
    · exact free_background hv ⟨trivial, fun _ => trivial⟩

theorem free_discard {α : Type} {p : App α}
    (h : ((rides env customers).view i).Safe (fun _ => Free customers i) p s) :
    ((rides env customers).view i).Safe (fun _ => Free customers i) (discard p) s :=
  free_bind h fun _ _ => free_ret

theorem free_code {op : Op} (h : Free customers i s) :
    ((rides env customers).view i).Safe (fun _ => Free customers i) (code env op) s := by
  cases op with
  | requestRide c origin destination metadata => exact free_discard (free_requestRide h)
  | startDispatch r => exact free_discard (free_startDispatch h)
  | handleBatchTimeout r batchId => exact free_discard (free_handleBatchTimeout h)
  | handleDriverRejection r d reason => exact free_discard (free_handleDriverRejection h)
  | acceptRide r d => exact free_discard (free_acceptRide h)
  | markDriverArriving r d => exact free_discard (free_transitionByDriver (by decide) h)
  | startRide r d => exact free_discard (free_transitionByDriver (by decide) h)
  | completeRide r d => exact free_discard (free_transitionByDriver (by decide) h)
  | cancelRide r actorType actorId reason => exact free_discard (free_cancelRide h)
  | requeueRideAfterDriverLoss r d => exact free_discard (free_requeue h)
  | goOnline d lat lng socketId => exact free_discard (free_background h background_goOnline)
  | heartbeat d lat lng socketId => exact free_discard (free_background h background_heartbeat)
  | goOffline d => exact free_discard (free_background h background_goOffline)
  | goOfflineAndDrop d reason =>
    exact free_bind (free_background h background_goOffline) fun _ _ => free_handleDriverDrop
  | restoreDriverSession d socketId =>
    exact free_discard (free_background h background_restoreDriverSession)
  | scanStaleDriversAndRecover =>
    exact free_bind (free_background h background_scanStaleDrivers) fun _ _ =>
      free_forEach fun _ _ => free_handleDriverDrop
  | recoverDispatchingRides => exact free_background h slight_recoverDispatchingRides.background
  | work job => exact free_work h

end code

/-- Every run keeps the contract about rides. -/
theorem rides_sound : (rides env customers).Sound where
  call := fun _ n _ _ hs =>
    { leases := fun k lease hk hl =>
        let ⟨i, hi, ho⟩ := hs.leases k lease hk hl
        ⟨i, hi.trans (Nat.lt_succ_self n), ho⟩
      ids := fun r hr => ⟨(hs.ids r hr).1.trans (Nat.lt_succ_self n), (hs.ids r hr).2⟩
      pointers := hs.pointers }
  spawn := fun op n s _ hs => free_code fun k lease hk hl ho => by
    obtain ⟨i, hi, hown⟩ := hs.leases k lease hk hl
    exact absurd (hown.unique ho) hi.ne
  step := fun _ _ _ _ _ hi hs _ hg => rides_step hi hs hg
  others := fun _ _ _ _ _ _ hij _ _ _ _ hg => rides_others hij hg
  env := fun e n s t hok hs he => by
    have hlocks : ∀ k, keeps customers k → t.locks k = s.locks k := fun k hk =>
      event_locks he (hok k hk)
    refine ⟨(event_sameRides he).inv hs fun k lease hk hl => ?_, fun j _ =>
      (event_sameRides he).rely (.of_locks hlocks)⟩
    rw [hlocks k hk] at hl
    exact hs.leases k lease hk hl

theorem rides_initial : (rides env customers).Holds initial := by
  refine Contract.holds_empty ⟨fun k lease _ hl => ?_, fun r hr => ?_, fun c r hc => ?_⟩
  · cases hl
  · exact absurd rfl hr
  · cases hc

end YatriGo
