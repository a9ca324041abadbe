import YatriGo.Proofs.SerialDispatch

/-! The dispatch operations run alone: each takes the lock of its ride. A rejection
withdraws the offer to the driver. -/

namespace YatriGo
open Concurrent

variable {env : Env} {strict known : Prop} {i : ℕ} {m : Around} {α β : Type}
  {Q : Except AppError α → Assertion} {A : Assertion} {X : DriverId → RideId → Prop} {L L' L₁ L₃ : Ledger}
  {O : RideId → BatchId → DriverId → Prop} {s t : Store} {r : RideId} {d : DriverId} {b : BatchId}
  {ds : List DriverId} {now : Time} {reason : Response}

/-- The end of an operation on a ride: when it fails, the ride was not `known`. -/
def told (strict : Prop) (X : DriverId → RideId → Prop) (known : Prop) :
    Except AppError RideHash → Assertion
  | .ok _ => settled strict X
  | .error _ => (settled strict X).with (¬ known)

theorem leads_withRideLock {fn : App (Option RideHash)} (h : A s)
    (body : ∀ m t, A t → Leads env strict i m (served strict X known) fn t) :
    Leads env strict i unlocked (told strict X known) (withRideLock env r fn) s := by
  have hmutex : (LockKey.ride r).mutex := trivial
  have hreserves : ¬ (LockKey.ride r).reserves := id
  simp only [withRideLock, Prog.bind_eq]
  refine Leads.withLock hmutex hreserves h body (fun result t ht => ?_) fun e t ht => ht
  obtain ⟨hsettled, hfound⟩ := ht
  cases result with
  | none => exact Leads.throw ⟨hsettled, fun hk => hfound hk rfl⟩
  | some ride => exact Leads.ret hsettled

theorem leads_startDispatch (httl : strict → env.dispatch.responseTtlMs ≤ env.dispatch.reservationTtlMs)
    (h : settled strict X s) :
    Leads env strict i unlocked (told strict X False) (startDispatch env r) s := by
  obtain ⟨L, h⟩ := h
  exact leads_withRideLock h fun m t ht => leads_dispatchUnderLock httl ht False.elim

theorem leads_batchTimeoutUnderLock
    (httl : strict → env.dispatch.responseTtlMs ≤ env.dispatch.reservationTtlMs)
    (h : even strict X L s) :
    Leads env strict i m (served strict X False) (batchTimeoutUnderLock env r b) s := by
  simp only [batchTimeoutUnderLock, redis, Prog.bind_eq, Prog.perform_bind]
  refine leads_getRide h fun t ht => ?_
  by_cases hnone : (L.ride r).status = none
  · rw [toRideSnapshot, if_pos hnone]
    exact Leads.ret ⟨⟨L, ht⟩, False.elim⟩
  rw [toRideSnapshot_of_status hnone]
  dsimp only
  split_ifs with hother
  · exact Leads.ret (served_some ⟨L, ht⟩)
  rw [not_or, not_not, not_not] at hother
  obtain ⟨hst, hb⟩ := hother
  refine Leads.now ht fun t ht => ?_
  refine leads_endBatch ht hst hb fun L' t hoff hride ht => ?_
  have hstatus : (L'.ride r).status ≠ none := by
    rw [hride]
    exact hset_status_ne_none hnone
  refine leads_getRide ht fun t ht => ?_
  rw [toRideSnapshot_of_status hstatus]
  refine Leads.quiet ht gentle_addJob fun _ t ht => ?_
  exact leads_dispatchUnderLock httl ht False.elim

theorem leads_handleBatchTimeout (httl : strict → env.dispatch.responseTtlMs ≤ env.dispatch.reservationTtlMs)
    (h : settled strict X s) :
    Leads env strict i unlocked (told strict X False) (handleBatchTimeout env r b) s := by
  obtain ⟨L, h⟩ := h
  exact leads_withRideLock h fun m t ht => leads_batchTimeoutUnderLock httl ht

/-- The reservations that the batch, if any, has made of `ds` are released. -/
theorem leads_releaseDriverReservations {batchId : Option BatchId} {f : Unit → App α}
    (h : stand strict X L L₁ O L₃ s)
    (hopen : strict → ∀ b, batchId = some b → ∀ d ∈ ds, ¬ L.Open r b d)
    (next : ∀ t, stand strict X L L₁ (fun r' b' d' => O r' b' d' ∧ ¬ (r' = r ∧ batchId = some b' ∧ d' ∈ ds)) L₃ t →
      Leads env strict i m Q (f ()) t) :
    Leads env strict i m Q ((releaseDriverReservations r batchId ds).bind f) s := by
  cases batchId with
  | none =>
    refine next s (Stand.relabel h (fun _ _ => Iff.rfl) (fun r' b' d' ho => ⟨ho, ?_⟩) (fun _ => Iff.rfl)
      (fun _ => rfl) fun _ _ => id)
    rintro ⟨-, hb, -⟩
    cases hb
  | some b =>
    refine leads_releases h (fun hx => hopen hx b rfl) fun t ht => next t ?_
    refine Stand.relabel ht (fun _ _ => Iff.rfl) (fun r' b' d' ho => ⟨ho.1, ?_⟩) (fun _ => Iff.rfl)
      (fun _ => rfl) fun _ _ => id
    rintro ⟨hr, hb, hd⟩
    exact ho.2 ⟨hr, (Option.some.inj hb).symm, hd⟩

theorem Stand.drop (h : Stand strict X L L₁ O L₃ s) (hnot : strict → ∀ b, ¬ L.Open r b d) :
    Stand strict (without X d r) L L₁ O L₃ s := by
  refine h.withdraw (fun _ _ hxd => hxd.1) fun hx r' b' d' hl hxd => ⟨hxd, ?_⟩
  rintro ⟨rfl, rfl⟩
  have hopen := hl.toOpen
  rw [h.ledger] at hopen
  exact hnot hx b' hopen

theorem fair_reject {ride : RideHash} {exhausted : Bool}
    (h : Cmd.fair s (.multi (rejectWrites r ride d (.pending b) exhausted now)) = true) :
    b.seq < s.nextSeq ∧ (s.ride r).currentBatchId ≠ some b := by
  simp only [rejectWrites, Cmd.fair, Bool.and_eq_true, decide_eq_true_eq] at h
  exact h

theorem leads_rejectUnderLock (httl : strict → env.dispatch.responseTtlMs ≤ env.dispatch.reservationTtlMs)
    (h : even strict X L s) (hst : (L.ride r).status = some .dispatching) (hresponse : L.responses r d ≠ none) :
    Leads env strict i m (served strict (without X d r) known)
      (rejectUnderLock env r d reason (L.ride r) now (L.responses r)) s := by
  refine Leads.within fun hm => ?_
  have hallows : allowsPickup env (L.ride r).origin = true := by
    rw [← show s.ride r = L.ride r from congrFun h.ride r]
    exact (hm.asked.allowed r d (by rw [show s.rideResponses r = L.responses r from congrFun h.responses r]; exact hresponse)).2
  generalize hex : batchExhausted (L.ride r) d (L.responses r) = exhausted
  simp only [rejectUnderLock, redis, Prog.bind_eq, Prog.perform_bind, hex]
  refine Leads.perform (Cmd.lockless rfl) h (fun t ht hasked => asked_multi hasked fun w hw => ?_) fun t ht hfair => ?_
  · exact follows_rejectWrites hasked (by rw [show t.rideResponses r = L.responses r from congrFun ht.responses r]; exact hresponse) hw
  -- a crafted reason must not pass for the offer of a batch to come
  have hpending : strict → ∀ b, reason = .pending b → b.seq < t.nextSeq ∧ (L.ride r).currentBatchId ≠ some b := by
    rintro hx b rfl
    rw [← ht.ride]
    exact fair_reject (hfair hx)
  obtain ⟨L', hrej, hstand⟩ := @Stand.reject strict X L t r d now reason exhausted ht hst hex.symm hpending
  obtain ⟨hstatus, hdriver, hbatch⟩ := @hset_rejectFields (L.ride r) (L.ride r) exhausted now
  have horigin : (L'.ride r).origin = (L.ride r).origin := by
    rw [hrej.ride]
    exact hset_origin
  rw [← hrej.ride] at hstatus hbatch
  rw [hst] at hstatus
  have hopen : strict → ∀ b, (L.ride r).currentBatchId = some b → ∀ d' ∈ [d], ¬ L'.Open r b d' := by
    intro hx b hb d' hd ho
    obtain rfl := List.mem_singleton.mp hd
    have hresponse := ho.response
    rw [hrej.responses, put_self] at hresponse
    exact (hpending hx b (Option.some.inj hresponse)).2 hb
  have hmulti : stand strict (without X d r) L' L' L.Offers L'
      (t.multi (rejectWrites r (L.ride r) d reason exhausted now)) := hstand
  refine Leads.quiet hmulti gentle_applyRejectCooldown fun _ t ht => ?_
  refine leads_releaseDriverReservations ht hopen fun t ht => ?_
  refine Leads.quiet ht gentle_appendTimelineEvent fun _ t ht => ?_
  refine leads_getRide ht fun t ht => ?_
  rw [toRideSnapshot_of_status (by rw [hstatus]; exact Option.some_ne_none _)]
  refine Leads.quiet ht gentle_addJob fun _ t ht => ?_
  cases exhausted with
  | false =>
    refine Leads.ret (served_some ⟨L', Stand.relabel ht (fun _ _ => Iff.rfl) (fun r' b' d' ho => ?_)
      (fun _ => Iff.rfl) (fun _ => rfl) fun _ _ => id⟩)
    rcases eq_or_ne r' r with rfl | hne
    · have hdrivers : (L'.ride r').currentBatchDrivers = (L.ride r').currentBatchDrivers := by
        rw [hrej.ride]
        simp [rejectFields, hset_cons, hset_nil, RideHash.setField]
      exact ⟨hstatus, hbatch.trans ho.1.batch, by rw [hdrivers]; exact ho.1.mem⟩
    · exact hrej.off.offers hne ho.1
  | true =>
    have hclosed : L'.Closed r := Or.inr hbatch
    simp only [if_true]
    refine leads_releaseDriverReservations ht (fun _ b _ d' _ ho => ho.not_closed hclosed) fun t ht => ?_
    have ht : even strict (without X d r) L' t := by
      refine Stand.relabel ht (fun _ _ => Iff.rfl) (fun r' b' d' ho => ?_) (fun _ => Iff.rfl) (fun _ => rfl)
        fun _ _ => id
      have hne : r' ≠ r := by
        rintro rfl
        exact ho.2 ⟨rfl, ho.1.1.batch, ho.1.1.mem⟩
      exact hrej.off.offers hne ho.1.1
    refine leads_dispatchUnderLock httl ht fun _ => ⟨?_, horigin ▸ hallows⟩
    rw [hstatus]
    exact Option.some_ne_none _

theorem leads_rejectionUnderLock (httl : strict → env.dispatch.responseTtlMs ≤ env.dispatch.reservationTtlMs)
    (h : even strict X L s) (hknown : known → (L.ride r).status ≠ none) :
    Leads env strict i m (served strict (without X d r) known) (rejectionUnderLock env r d reason) s := by
  simp only [rejectionUnderLock, redis, Prog.bind_eq, Prog.perform_bind]
  refine leads_getRide h fun t ht => ?_
  by_cases hst : (L.ride r).status = some .dispatching
  · rw [toRideSnapshot_of_status (by rw [hst]; exact Option.some_ne_none _)]
    dsimp only
    rw [if_neg (not_not.mpr hst)]
    refine Leads.now ht fun t ht => ?_
    have hread : ∀ t, exec env i (.hgetallResponses r) t = (t.rideResponses r, t) := fun _ => rfl
    have hg : Cmd.gentle (.hgetallResponses r) := trivial
    refine Leads.read hread hg ht fun t ht => ?_
    rw [show t.rideResponses r = L.responses r from congrFun ht.responses r]
    split_ifs with hignored
    · refine Leads.ret (served_some ⟨L, Stand.drop ht fun _ b ho => ?_⟩)
      rw [ignoresRejection, ho.response] at hignored
      simp at hignored
    · refine leads_rejectUnderLock httl ht hst fun hnone => hignored ?_
      rw [hnone]
      rfl
  · have hdrop : ∀ t, even strict X L t → even strict (without X d r) L t :=
      fun t ht => Stand.drop ht fun _ b ho => hst ho.status
    by_cases hnone : (L.ride r).status = none
    · rw [toRideSnapshot, if_pos hnone]
      have hunknown : known → (none : Option RideHash) ≠ none := fun hk => absurd hnone (hknown hk)
      exact Leads.ret ⟨⟨L, hdrop t ht⟩, hunknown⟩
    · rw [toRideSnapshot_of_status hnone]
      dsimp only
      rw [if_pos hst]
      exact Leads.ret (served_some ⟨L, hdrop t ht⟩)

theorem leads_handleDriverRejection
    (httl : strict → env.dispatch.responseTtlMs ≤ env.dispatch.reservationTtlMs)
    (h : settled strict X s) (hknown : known → strict ∧ X d r) :
    Leads env strict i unlocked (told strict (without X d r) known) (handleDriverRejection env r d reason) s := by
  obtain ⟨L, h⟩ := h
  refine leads_withRideLock h fun m t ht => leads_rejectionUnderLock httl ht fun hk => ?_
  obtain ⟨hx, hxd⟩ := hknown hk
  rw [← ht.ride]
  exact (ht.offered hx).known d r hxd

end YatriGo
