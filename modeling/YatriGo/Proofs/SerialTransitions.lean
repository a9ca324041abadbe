import YatriGo.Proofs.SerialOffers

/-! The life of a ride outside dispatch, run alone: the request, the acceptance, the
transitions and the requeueing. -/

namespace YatriGo
open Concurrent

variable {env : Env} {strict : Prop} {i : ℕ} {m : Around} {α β : Type}
  {Q : Except AppError α → Assertion} {X : DriverId → RideId → Prop} {L L' : Ledger} {s t : Store}
  {r : RideId} {d : DriverId} {c : CustomerId} {now : Time} {next : RideStatus}
  {options : TransitionOptions} {origin destination : Location} {metadata : Metadata}

/-- The statuses that drivers set, and CANCELLED. -/
def RideStatus.byTransition (next : RideStatus) : Prop :=
  next = .arriving ∨ next = .ongoing ∨ next = .completed ∨ next = .cancelled

theorem Ledger.Assigned.of_live {status : RideStatus} (hst : (L.ride r).status = some status)
    (hlive : status.live = true) : L.Assigned r d ↔ (L.ride r).driverId = some d := by
  unfold Ledger.Assigned
  rw [hst]
  simp [hlive]

theorem live_of_transition {status : RideStatus} (h : next ∈ rideTransitions status)
    (hnext : next = .arriving ∨ next = .ongoing) : status.live = true ∧ next.live = true := by
  rcases hnext with rfl | rfl <;> cases status <;> simp_all [rideTransitions, RideStatus.live]

/-- The end of a transition: the keys of a ride that is over are cleaned up. -/
theorem leads_finishTransition {notifiedDrivers : List DriverId}
    (hlive : next.terminal = false → even strict X L' s)
    (hover : next.terminal = true → ∀ {β : Type} {Q : Except AppError β → Assertion} {f : Unit → App β},
      (∀ t, even strict X L' t → Leads env strict i m Q (f ()) t) →
      Leads env strict i m Q ((cleanupTerminalRideKeys r (L'.ride r) now).bind f) s) :
    Leads env strict i m (fun _ => settled strict X)
      (finishTransition r next (L'.ride r) notifiedDrivers now) s := by
  simp only [finishTransition, Prog.bind_eq, Prog.pure_eq]
  have htell : ∀ {β : Type} {Q : Except AppError β → Assertion} {f : Unit → App β} t, even strict X L' t →
      (∀ t, even strict X L' t → Leads env strict i m Q (f ()) t) →
      Leads env strict i m Q ((enqueueRideSync r (L'.ride r).version).bind fun _ =>
        (notifyRideStatusUpdate r (L'.ride r)).bind fun _ => (emitRideStatusUpdate r (L'.ride r)).bind f) t := by
    intro β Q f t ht hf
    refine Leads.quiet ht gentle_addJob fun _ t ht => ?_
    refine Leads.quiet ht gentle_emitRideStatusUpdate fun _ t ht => ?_
    exact Leads.quiet ht gentle_emitRideStatusUpdate fun _ t ht => hf t ht
  have hcancelled : ∀ ds t, even strict X L' t → Leads env strict i m (fun _ => settled strict X)
      ((Prog.forEach (fun d => emitRideCancelledToDriver d r (L'.ride r).version) ds).bind fun _ =>
        (Prog.ret (some (L'.ride r)) : App (Option RideHash))) t := by
    intro ds t ht
    exact Leads.quiet ht (Gentle.forEach (fun d => gentle_publish) ds) fun _ t ht => Leads.ret ⟨L', ht⟩
  split_ifs with hterminal hcancel hcancel
  · exact hover hterminal fun t ht => htell t ht fun t ht => hcancelled _ t ht
  · exact hover hterminal fun t ht => htell t ht fun t ht => Leads.ret ⟨L', ht⟩
  · exact htell s (hlive (Bool.eq_false_iff.mpr hterminal)) fun t ht => hcancelled _ t ht
  · exact htell s (hlive (Bool.eq_false_iff.mpr hterminal)) fun t ht => Leads.ret ⟨L', ht⟩

theorem leads_transitionUnderLock (hnext : next.byTransition) (hd : options.driverId = none)
    (h : even strict X L s) :
    Leads env strict i m (fun _ => settled strict X) (transitionUnderLock env r next options) s := by
  simp only [transitionUnderLock, redis, write, Prog.bind_eq, Prog.perform_bind]
  refine leads_getRide h fun t ht => ?_
  cases hstatus : (L.ride r).status with
  | none =>
    rw [toRideSnapshot, if_pos hstatus]
    exact Leads.throw ⟨L, ht⟩
  | some status =>
    have hknown : (L.ride r).status ≠ none := by rw [hstatus]; exact Option.some_ne_none _
    rw [toRideSnapshot_of_status hknown]
    dsimp only
    rw [hstatus]
    split_ifs with hsame
    · simp only [getRide, redis, Prog.bind_eq, Prog.perform_bind]
      exact Leads.cmd (Cmd.lockless rfl) trivial ht fun t ht _ => Leads.ret ⟨L, ht⟩
    unfold assertTransition
    rw [Option.getD_some]
    split_ifs with hallowed
    swap
    · exact Leads.throw ⟨L, ht⟩
    simp only [Prog.pure_eq, Prog.ret_bind]
    -- the ride after the update
    refine Leads.now ht fun t ht => ?_
    generalize hnow : t.clock = now
    obtain ⟨hst', hdriver', -, hbatch', hdrivers'⟩ := @hset_transitionFields env (L.ride r) (L.ride r) next options now hd
    rw [← Ledger.hset_self] at hst' hdriver' hbatch' hdrivers'
    have hoff : Ledger.EqOff r L (L.hset r (transitionFields env (L.ride r) next options now)) :=
      Ledger.EqOff.hset
    have hcustomer : ((L.hset r (transitionFields env (L.ride r) next options now)).ride r).customerId =
        (L.ride r).customerId := by rw [Ledger.hset_self, hset_customerId]
    have hwrite : ∀ t, even strict X L t → stand strict X (L.hset r (transitionFields env (L.ride r) next
        options now)) L L.Offers L (t.multi [.hsetRide r (transitionFields env (L.ride r) next options now)]) := by
      intro t ht
      refine Stand.hset ht hknown (Or.inl ?_) ?_ fun heq => ?_
      · rw [hst']
        rcases hnext with rfl | rfl | rfl | rfl <;> decide
      · rw [← Ledger.hset_self, hst']
        rcases hnext with rfl | rfl | rfl | rfl <;> decide
      · rw [← Ledger.hset_self, hst'] at heq
        rcases hnext with rfl | rfl | rfl | rfl <;> cases heq
    generalize hL' : L.hset r (transitionFields env (L.ride r) next options now) = L' at *
    have hasked : ∀ t, even strict X L t → Asked env t →
        Asked env (t.multi [.hsetRide r (transitionFields env (L.ride r) next options now)]) :=
      fun t _ hasked => asked_write (w := .hsetRide ..) hasked fun v hv => absurd hv radius_transitionFields
    refine Leads.multi ht hasked (fun t ht _ => hwrite t ht) fun t ht => ?_
    simp only [afterTransition, Prog.bind_eq]
    refine Leads.quiet ht gentle_refreshRideRealtimeKeys fun _ t ht => ?_
    refine Leads.quiet ht gentle_appendTimelineEvent fun _ t ht => ?_
    refine leads_getRide ht fun t ht => ?_
    rw [toRideSnapshot_of_status (by rw [hst']; exact Option.some_ne_none _)]
    refine Leads.quiet ht gentle_readNotifiedDrivers fun notifiedDrivers t ht => ?_
    refine leads_finishTransition (fun hlive => ?_) fun hterminal β Q f hf => ?_
    · -- ARRIVING and ONGOING follow a status with the same driver
      have hlives : status.live = true ∧ next.live = true := by
        rcases hnext with rfl | rfl | rfl | rfl
        · exact live_of_transition hallowed (Or.inl rfl)
        · exact live_of_transition hallowed (Or.inr rfl)
        · cases hlive
        · cases hlive
      refine Stand.settle ht hoff (Or.inl ?_) ?_ (fun d => ?_) hcustomer
      · rw [hstatus]
        rintro heq
        cases heq
        cases hlives.1
      · unfold Ledger.Underway
        rw [hst', hstatus]
        have hover : ∀ status : RideStatus, status.live = true → status.terminal = false := by
          intro status hl
          cases status <;> first | rfl | cases hl
        simp [hover _ hlives.1, hover _ hlives.2]
      · rw [Ledger.Assigned.of_live hstatus hlives.1, Ledger.Assigned.of_live hst' hlives.2, hdriver']
    · refine leads_cleanup ht hoff ?_ hcustomer ?_ (fun b d ho => ?_) (fun d => ?_) hf
      · rcases hnext with rfl | rfl | rfl | rfl
        · cases hterminal
        · cases hterminal
        · exact Or.inl hst'
        · exact Or.inr hst'
      · rw [← hL']
        rfl
      · exact ⟨hbatch'.trans ho.batch, by rw [hdrivers']; exact ho.mem⟩
      · rw [hdriver']
        cases hlive : status.live with
        | true => exact Ledger.Assigned.of_live hstatus hlive
        | false =>
          -- REQUESTED and DISPATCHING rides have no driver
          have hnone : (L.ride r).driverId = none := by
            cases status with
            | requested => exact (h.sane.requested r hstatus).1
            | dispatching => exact h.sane.dispatching r hstatus
            | completed => simp [rideTransitions] at hallowed
            | cancelled => simp [rideTransitions] at hallowed
            | _ => cases hlive
          rw [hnone]
          refine iff_of_false (fun ha => ?_) (Option.some_ne_none _).symm
          have hsome := ha.1
          rw [hnone] at hsome
          cases hsome

theorem leads_transitionRide (hnext : next.byTransition) (hd : options.driverId = none)
    (h : settled strict X s) :
    Leads env strict i unlocked (fun _ => settled strict X) (transitionRide env r next options) s := by
  obtain ⟨L, h⟩ := h
  have hmutex : (LockKey.ride r).mutex := trivial
  have hreserves : ¬ (LockKey.ride r).reserves := id
  simp only [transitionRide, Prog.bind_eq]
  refine Leads.withLock hmutex hreserves h (fun m t ht => leads_transitionUnderLock hnext hd ht)
    (fun result t ht => ?_) fun e t ht => ht
  cases result with
  | none => exact Leads.throw ht
  | some ride => exact Leads.ret ht

theorem leads_cancelRide {actorType : ActorType} {actorId : Option ℕ} {reason : String}
    (h : settled strict X s) :
    Leads env strict i unlocked (fun _ => settled strict X) (cancelRide env r actorType actorId reason) s := by
  obtain ⟨L, h⟩ := h
  simp only [cancelRide, Prog.bind_eq]
  refine leads_getRide h fun t ht => ?_
  cases toRideSnapshot (L.ride r) with
  | none => exact Leads.throw ⟨L, ht⟩
  | some ride =>
    dsimp only
    split_ifs
    · exact Leads.ret ⟨L, ht⟩
    · exact leads_transitionRide (Or.inr (Or.inr (Or.inr rfl))) rfl ⟨L, ht⟩

theorem leads_transitionByDriver (hnext : next.byTransition) (h : settled strict X s) :
    Leads env strict i unlocked (fun _ => settled strict X) (transitionByDriver env next r d) s := by
  obtain ⟨L, h⟩ := h
  simp only [transitionByDriver, Prog.bind_eq]
  refine leads_getRide h fun t ht => ?_
  split_ifs
  · exact leads_transitionRide hnext rfl ⟨L, ht⟩
  · exact Leads.throw ⟨L, ht⟩

theorem leads_requeueRide (h : even strict X L s)
    (hst : (L.ride r).status = some .accepted ∨ (L.ride r).status = some .arriving)
    (hd : (L.ride r).driverId = some d) :
    Leads env strict i m (fun _ => settled strict X) (requeueRide env r d (L.ride r)) s := by
  obtain ⟨status, hstatus, hlive, hworking⟩ : ∃ status, (L.ride r).status = some status ∧
      status.live = true ∧ status ≠ .dispatching := by
    rcases hst with hst | hst
    · exact ⟨.accepted, hst, rfl, by decide⟩
    · exact ⟨.arriving, hst, rfl, by decide⟩
  have hnot : (L.ride r).status ≠ some .dispatching := by
    rw [hstatus]
    exact fun heq => hworking (Option.some.inj heq)
  have hknown : (L.ride r).status ≠ none := by rw [hstatus]; exact Option.some_ne_none _
  have hover : L.Underway r := by
    unfold Ledger.Underway
    rw [hstatus]
    cases status <;> first | rfl | cases hlive
  have hon : L.Assigned r d := (Ledger.Assigned.of_live hstatus hlive).mpr hd
  simp only [requeueRide, redis, Prog.bind_eq, Prog.perform_bind]
  refine Leads.now h fun t ht => ?_
  generalize t.clock = now
  have hoff : Ledger.EqOff r L (L.requeue r (requeueFields env (L.ride r) now)) :=
    ⟨fun _ hne => put_of_ne hne, fun _ hne => put_of_ne hne, fun _ hne => put_of_ne hne⟩
  -- nobody is assigned to a ride that was given back, so only its driver loses a ride
  have hnone : ∀ d', ¬ (L.requeue r (requeueFields env (L.ride r) now)).Assigned r d' := by
    rintro d' ⟨-, hlives⟩
    rw [show (L.requeue r (requeueFields env (L.ride r) now)).ride r =
      (L.ride r).hset (requeueFields env (L.ride r) now) from put_self] at hlives
    simp [requeueFields, hset_cons, hset_nil, RideHash.setField, RideStatus.live] at hlives
  have hself : ∀ r', (L.requeue r (requeueFields env (L.ride r) now)).Assigned r' d ↔
      L.Assigned r' d ∧ r' ≠ r := by
    intro r'
    rcases eq_or_ne r' r with rfl | hr
    · exact iff_of_false (hnone d) fun ha => ha.2 rfl
    · rw [hoff.assigned hr]
      exact (and_iff_left hr).symm
  have hother : ∀ d', d' ≠ d → ∀ r', L.Assigned r' d' ↔
      (L.requeue r (requeueFields env (L.ride r) now)).Assigned r' d' := by
    intro d' hne r'
    rcases eq_or_ne r' r with rfl | hr
    · refine iff_of_false (fun ha => ?_) (hnone d')
      have hsome := ha.1
      rw [hd] at hsome
      exact hne (Option.some.inj hsome).symm
    · exact (hoff.assigned hr).symm
  refine leads_releaseDriverAvailability ht (Or.inl hnot) hon hself hother fun t ht => ?_
  have hrequeue : ∀ t, stand strict X L (L.requeue r (requeueFields env (L.ride r) now)) L.Offers L t →
      even strict X (L.requeue r (requeueFields env (L.ride r) now)) (t.multi [.delNotified r, .delResponses r,
        .hsetRide r (requeueFields env (L.ride r) now), .expireRide r]) :=
    fun t ht => Stand.requeue ht hknown hover hnot
  refine Leads.multi ht (fun t ht hasked => asked_multi hasked fun w hw => follows_requeueWrites hw) (fun t ht _ => hrequeue t ht)
    fun t ht => ?_
  refine Leads.quiet ht gentle_appendTimelineEvent fun _ t ht => ?_
  refine leads_getRide ht fun t ht => ?_
  rw [show (L.requeue r (requeueFields env (L.ride r) now)).ride r =
    (L.ride r).hset (requeueFields env (L.ride r) now) from put_self,
    toRideSnapshot_of_status (hset_status_ne_none hknown)]
  refine Leads.quiet ht gentle_addJob fun _ t ht => ?_
  refine Leads.quiet ht gentle_emitRideStatusUpdate fun _ t ht => ?_
  refine Leads.quiet ht gentle_addJob fun _ t ht => ?_
  exact Leads.ret ⟨_, ht⟩

theorem leads_requeueRideAfterDriverLoss (h : settled strict X s) :
    Leads env strict i unlocked (fun _ => settled strict X) (requeueRideAfterDriverLoss env r d) s := by
  obtain ⟨L, h⟩ := h
  have hmutex : (LockKey.ride r).mutex := trivial
  have hreserves : ¬ (LockKey.ride r).reserves := id
  have hbody : ∀ m t, even strict X L t →
      Leads env strict i m (fun _ => settled strict X) (requeueUnderLock env r d) t := by
    intro m t ht
    simp only [requeueUnderLock, Prog.bind_eq]
    refine leads_getRide ht fun t ht => ?_
    by_cases hnone : (L.ride r).status = none
    · rw [toRideSnapshot, if_pos hnone]
      exact Leads.ret ⟨L, ht⟩
    rw [toRideSnapshot_of_status hnone]
    dsimp only
    split_ifs with hst hd
    · exact Leads.ret ⟨L, ht⟩
    · exact Leads.ret ⟨L, ht⟩
    · rw [not_and_or, not_not, not_not] at hst
      exact leads_requeueRide ht hst (not_not.mp hd)
  simp only [requeueRideAfterDriverLoss, Prog.bind_eq]
  refine Leads.withLock hmutex hreserves h hbody (fun result t ht => ?_) fun e t ht => ht
  cases result with
  | none => exact Leads.throw ht
  | some ride => exact Leads.ret ht

theorem leads_afterAccept {otherDrivers : List DriverId} {batchId : Option BatchId} {acceptedAt : Time}
    (hbatch : (L.ride r).currentBatchId = batchId)
    (hothers : otherDrivers = (L.ride r).currentBatchDrivers.filter (· ≠ d))
    (hst : (L.ride r).status = some .dispatching)
    (h : stand strict X (L.accept r d acceptedAt) (L.accept r d acceptedAt)
      (fun r' b' d' => L.Offers r' b' d' ∧ d' ≠ d)
      (L.answer r (put (L.responses r) d (some .accepted))) s) :
    Leads env strict i m (fun _ => settled strict X) (afterAccept r d batchId otherDrivers acceptedAt) s := by
  have hoff : Ledger.EqOff r L (L.accept r d acceptedAt) :=
    ⟨fun _ hne => put_of_ne hne, fun _ _ => rfl, fun _ hne => put_of_ne hne⟩
  have hlists : Ledger.EqOff r (L.answer r (put (L.responses r) d (some .accepted))) (L.accept r d acceptedAt) :=
    ⟨fun _ hne => put_of_ne hne, fun _ _ => rfl, fun _ hne => rfl⟩
  have hride : (L.accept r d acceptedAt).ride r = (L.ride r).accept d acceptedAt := put_self
  have hknown : ((L.accept r d acceptedAt).ride r).status ≠ none := by
    rw [hride]
    exact Option.some_ne_none _
  have hclosed : (L.accept r d acceptedAt).Closed r := Or.inr (by rw [hride]; rfl)
  have hunderway : (L.answer r (put (L.responses r) d (some .accepted))).Underway r ↔
      (L.accept r d acceptedAt).Underway r := by
    refine iff_of_true ?_ ?_
    · show (L.ride r).status.any _ = true
      rw [hst]
      rfl
    · unfold Ledger.Underway
      rw [hride]
      rfl
  have hcustomer : ((L.accept r d acceptedAt).ride r).customerId =
      ((L.answer r (put (L.responses r) d (some .accepted))).ride r).customerId := by
    rw [hride]
    rfl
  -- the drivers that still wait for this batch are the ones that `acceptRide` clears
  have hawaits : ∀ d', (L.answer r (put (L.responses r) d (some .accepted))).Awaits r d' → d' ∈ otherDrivers := by
    rintro d' ⟨⟨b, ho, hresponse⟩, -⟩
    have hmem : d' ∈ (L.ride r).currentBatchDrivers := ho.mem
    have hne : d' ≠ d := by
      rintro rfl
      have hself : put L.responses r (put (L.responses r) d' (some .accepted)) r d' = some (.pending b) := hresponse
      rw [put_self, put_self] at hself
      cases hself
    rw [hothers]
    exact List.mem_filter.mpr ⟨hmem, by simpa using hne⟩
  simp only [afterAccept, Prog.bind_eq]
  refine leads_getRide h fun t ht => ?_
  rw [toRideSnapshot_of_status hknown]
  refine leads_releaseDriverReservations ht (fun _ b _ d' _ ho => ho.not_closed hclosed) fun t ht => ?_
  refine leads_clearPending ht hclosed hlists hunderway hcustomer hawaits fun t ht => ?_
  have ht : even strict X (L.accept r d acceptedAt) t := by
    refine Stand.relabel ht (fun _ _ => Iff.rfl) (fun r' b' d' ho => ?_) (fun _ => Iff.rfl) (fun _ => rfl)
      fun _ _ => id
    obtain ⟨⟨ho, hne⟩, hnot⟩ := ho
    have hr : r' ≠ r := by
      rintro rfl
      refine hnot ⟨rfl, hbatch.symm.trans ho.batch, ?_⟩
      rw [hothers]
      exact List.mem_filter.mpr ⟨ho.mem, by simpa using hne⟩
    exact hoff.offers hr ho
  refine Leads.quiet ht gentle_appendTimelineEvent fun _ t ht => ?_
  refine Leads.quiet ht gentle_addJob fun _ t ht => ?_
  refine Leads.quiet ht gentle_enqueueDriverSync fun _ t ht => ?_
  refine Leads.quiet ht gentle_publish fun _ t ht => ?_
  refine Leads.quiet ht gentle_emitRideStatusUpdate fun _ t ht => ?_
  refine Leads.quiet ht gentle_publish fun _ t ht => ?_
  refine Leads.quiet ht gentle_emitRideStatusUpdate fun _ t ht => ?_
  refine Leads.quiet ht (Gentle.forEach (fun d => gentle_publish) _) fun _ t ht => ?_
  exact Leads.ret ⟨_, ht⟩

theorem leads_acceptRide (h : settled strict X s) :
    Leads env strict i m (fun _ => settled strict X) (acceptRide r d) s := by
  obtain ⟨L, h⟩ := h
  simp only [acceptRide, redis, Prog.bind_eq, Prog.perform_bind]
  refine leads_getRide h fun t ht => ?_
  refine Leads.now ht fun t ht => ?_
  generalize t.clock = acceptedAt
  generalize hreservation : ((toRideSnapshot (L.ride r)).bind RideHash.currentBatchId).map
    (fun batchId => Token.reservation r batchId) = reservation
  have hlock : ∀ k : LockKey, k.mutex → (Cmd.evalAcceptRide r d acceptedAt reservation).lockOf ≠ some k :=
    Cmd.lockless rfl
  refine Leads.perform hlock ht (fun t _ hasked => asked_accept hasked) fun t ht _ => ?_
  have hscript : exec env i (.evalAcceptRide r d acceptedAt reservation) t =
      acceptRideScript r d acceptedAt reservation t := rfl
  rw [hscript]
  rcases @acceptRideScript_cases t r d acceptedAt reservation with ⟨hneg, hsame⟩ | ⟨hversion, hcommit, hguard⟩
  · rw [hsame, if_pos hneg.le]
    exact Leads.throw ⟨L, ht⟩
  · have hpos : ¬ (acceptRideScript r d acceptedAt reservation t).1 ≤ 0 := by
      rw [hversion]
      omega
    rw [hcommit, if_neg hpos]
    have hst : (L.ride r).status = some .dispatching := by
      rw [← ht.ride]
      exact (acceptRideGuard_eq_zero hguard).1
    have hsnapshot : toRideSnapshot (L.ride r) = some (L.ride r) :=
      toRideSnapshot_of_status (by rw [hst]; exact Option.some_ne_none _)
    rw [hsnapshot] at hreservation ⊢
    exact leads_afterAccept rfl rfl hst (Stand.accept ht hguard hreservation.symm)

/-- The id has been drawn. -/
def Assertion.drawn (A : Assertion) (u : Uuid) : Assertion where
  holds := fun s => A s ∧ u.seq < s.nextSeq
  steady := fun hst h => ⟨A.steady hst h.1, h.2.trans_le hst.seq⟩

theorem leads_createRide (h : even strict X L s) :
    Leads env strict i m (fun _ => settled strict X) (createRide env c origin destination metadata) s := by
  simp only [createRide, redis, Prog.bind_eq, Prog.perform_bind]
  refine Leads.now h fun t ht => ?_
  generalize t.clock = now
  refine Leads.cmd (Cmd.lockless rfl) trivial ht fun t ht _ => ?_
  generalize hr : (exec env i .uuidv4 t).1 = r
  -- no ride has the new id
  have hseq : r.seq = t.nextSeq := by rw [← hr]; rfl
  have hnew : (L.ride r).status = none := by
    by_contra hst
    have hlt : r.seq < t.nextSeq := ht.sane.fresh r hst
    omega
  have hdrawn : Still t (exec env i .uuidv4 t).2 := @exec_gentle env i _ t .uuidv4 trivial
  have hfresh : r.seq < (exec env i .uuidv4 t).2.nextSeq := by
    show r.seq < t.nextSeq + 1
    omega
  have ht : (even strict X L).drawn r (exec env i .uuidv4 t).2 := ⟨Stand.still ht hdrawn, hfresh⟩
  have hcreate : ∀ t, (even strict X L).drawn r t → even strict X
      { L with ride := put L.ride r (requestPayload env c origin destination metadata now) }
      (t.multi [.createRide r (requestPayload env c origin destination metadata now),
        .setCustomerActiveRide c r, .saddActiveRide r, .expireRide r]) :=
    fun t ht => Stand.create ht.1 hnew ht.2 rfl rfl rfl
  have hasked : ∀ t, (even strict X L).drawn r t → Asked env t → Asked env (t.multi [.createRide r
      (requestPayload env c origin destination metadata now), .setCustomerActiveRide c r, .saddActiveRide r, .expireRide r]) := by
    intro t ht hasked
    refine asked_create hasked ?_ ?_
    · rw [show t.ride r = L.ride r from congrFun ht.1.ride r]
      exact hnew
    · intro w hw
      simp only [List.mem_cons, List.not_mem_nil, or_false] at hw
      rcases hw with rfl | rfl | rfl <;> trivial
  refine Leads.multi ht hasked (fun t ht _ => hcreate t ht) fun t ht => ?_
  refine Leads.quiet ht gentle_appendTimelineEvent fun _ t ht => ?_
  refine Leads.quiet ht gentle_refreshRideRealtimeKeys fun _ t ht => ?_
  refine Leads.quiet ht gentle_addJob fun _ t ht => ?_
  refine Leads.quiet ht gentle_publish fun _ t ht => ?_
  refine Leads.quiet ht gentle_addJob fun _ t ht => ?_
  exact Leads.ret ⟨_, ht⟩

theorem leads_requestRide (h : settled strict X s) :
    Leads env strict i unlocked (fun _ => settled strict X)
      (requestRide env c origin destination metadata) s := by
  obtain ⟨L, h⟩ := h
  have hmutex : (LockKey.customer c).mutex := trivial
  have hreserves : ¬ (LockKey.customer c).reserves := id
  have hread : Cmd.gentle (.getCustomerActiveRide c) := trivial
  have hexisting : ∀ activeRideId, Gentle (getExistingRide activeRideId) := by
    intro activeRideId
    cases activeRideId with
    | none => exact Gentle.ret
    | some r => exact gentle_getRide
  have hbody : ∀ m t, even strict X L t → Leads env strict i m (fun _ => settled strict X)
      (requestUnderLock env c origin destination metadata) t := by
    intro m t ht
    simp only [requestUnderLock, Prog.bind_eq]
    refine Leads.quiet ht (Gentle.command hread) fun activeRideId t ht => ?_
    refine Leads.quiet ht (hexisting activeRideId) fun existingRide t ht => ?_
    split_ifs
    · exact Leads.throw ⟨L, ht⟩
    · exact leads_createRide ht
  simp only [requestRide, Prog.bind_eq]
  exact Leads.withLock hmutex hreserves h hbody (fun result t ht => Leads.ret ht) fun e t ht => ht

end YatriGo
