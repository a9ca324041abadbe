import YatriGo.Proofs.StandSteps

/-! The two MULTIs of a batch that is open: its start, and the rejection by one driver. -/

namespace YatriGo
open Concurrent

variable {strict : Prop} {X : DriverId → RideId → Prop} {L L' : Ledger} {s t : Store} {r : RideId}
  {b : BatchId} {d : DriverId} {ds : List DriverId} {now : Time}

/-- The ledger with batch `b` of `ds` open for ride `r`, and their responses pending. -/
structure Batched (r : RideId) (b : BatchId) (ds : List DriverId) (fields : List RideField)
    (L L' : Ledger) : Prop where
  off : Ledger.EqOff r L L'
  ride : L'.ride r = (L.ride r).hset fields
  notified : ∀ d, d ∈ L'.notified r ↔ d ∈ L.notified r ∨ d ∈ ds
  responses : ∀ d, L'.responses r d = if d ∈ ds then some (.pending b) else L.responses r d

/-- The notifications of a batch, driver by driver. -/
theorem multi_notify :
    ∃ notified, (∀ d, d ∈ notified ↔ d ∈ s.rideNotifiedDrivers r ∨ d ∈ ds) ∧
      s.multi (ds.flatMap fun d => [.saddNotified r d, .hsetResponse r d (.pending b), .saddPending d r]) =
        { s with
          rideNotifiedDrivers := put s.rideNotifiedDrivers r notified
          rideResponses :=
            put s.rideResponses r fun d => if d ∈ ds then some (.pending b) else s.rideResponses r d
          driverPendingDispatches := fun d =>
            if d ∈ ds then sadd r (s.driverPendingDispatches d) else s.driverPendingDispatches d } := by
  have hput : ∀ {ν : Type} (f : RideId → ν), put f r (f r) = f := by
    intro ν f
    funext r'
    rw [put_apply]
    split_ifs with hr
    · rw [hr]
    · rfl
  have hsadd : ∀ xs : List RideId, sadd r (sadd r xs) = sadd r xs := by
    intro xs
    have hmem : r ∈ sadd r xs := mem_sadd.mpr (Or.inl rfl)
    rw [sadd, if_pos hmem]
  induction ds generalizing s with
  | nil => exact ⟨s.rideNotifiedDrivers r, by simp, by simp [hput]⟩
  | cons d ds ih =>
    obtain ⟨notified, hmem, hmulti⟩ := @ih (s.multi [.saddNotified r d, .hsetResponse r d (.pending b),
      .saddPending d r])
    refine ⟨notified, fun d' => ?_, ?_⟩
    · rw [hmem]
      show d' ∈ put s.rideNotifiedDrivers r (sadd d (s.rideNotifiedDrivers r)) r ∨ d' ∈ ds ↔ _
      rw [put_self, mem_sadd, List.mem_cons]
      tauto
    · rw [List.flatMap_cons, multi_append, hmulti]
      simp only [multi_cons, multi_nil, Write.apply, Store.mk.injEq, true_and]
      refine ⟨?_, ?_, ?_⟩
      · funext r'
        by_cases hr : r' = r
        · rw [hr, put_self, put_self]
        · rw [put_of_ne hr, put_of_ne hr, put_of_ne hr]
      · funext r' d'
        by_cases hr : r' = r
        · subst hr
          simp only [put_self, List.mem_cons]
          rw [put_apply]
          by_cases hd : d' = d <;> simp [hd]
        · simp only [put_of_ne hr]
      · refine ⟨?_, trivial⟩
        funext d'
        rw [put_apply]
        by_cases hd : d' = d
        · rw [hd, if_pos rfl, hsadd, ite_self, if_pos List.mem_cons_self]
        · rw [if_neg hd]
          simp only [List.mem_cons, hd, false_or]

/-- The reservations of the current batches, and those that batch `b` of `ds` has made. -/
def Ledger.OffersOr (L : Ledger) (r : RideId) (b : BatchId) (ds : List DriverId) :
    RideId → BatchId → DriverId → Prop :=
  fun r' b' d' => L.Offers r' b' d' ∨ r' = r ∧ b' = b ∧ d' ∈ ds

/-- Everything but the rides, their responses and the pending lists is the same. -/
structure Beside (s t : Store) : Prop where
  clock : t.clock = s.clock
  seq : t.nextSeq = s.nextSeq
  locks : t.locks = s.locks
  driverHash : t.driverHash = s.driverHash
  driverActive : t.driverActiveRide = s.driverActiveRide
  driverSet : t.driverSet = s.driverSet
  geo : t.availableDriversGeo = s.availableDriversGeo
  active : t.activeRides = s.activeRides
  customer : t.customerActiveRide = s.customerActiveRide

theorem Pools.beside (h : Pools L s) (hb : Beside s t) : Pools L t where
  fit := fun d => by
    have hkeys : t.keys d = s.keys d := by
      simp only [Store.keys, hb.driverHash, hb.driverActive, hb.driverSet, hb.geo]
    rw [hkeys]
    exact h.fit d
  nodup := by rw [hb.geo]; exact h.nodup

theorem Beside.apart (h : Beside s t) (hs : s.ledger = L) (ht : t.ledger = L') (hoff : Ledger.EqOff r L L')
    (hpending : ∀ r' d, r' ≠ r → r' ∈ s.driverPendingDispatches d → r' ∈ t.driverPendingDispatches d) : Apart r s t where
  ledger := by
    rw [hs, ht]
    exact hoff
  clock := h.clock.symm.le
  seq := h.seq.symm.le
  secured := fun _ _ _ _ _ _ hsecured => hsecured.of_locks h.locks
  pending := hpending

theorem Listed.beside (h : Listed L s) (hbeside : Beside s t) (hoff : Ledger.EqOff r L L')
    (hunderway : L'.Underway r ↔ L.Underway r) (hcustomer : (L'.ride r).customerId = (L.ride r).customerId)
    (hpending : ∀ d r', r' ∈ t.driverPendingDispatches d → L'.Awaits r' d) : Listed L' t := by
  have hall : ∀ r', L'.Underway r' ↔ L.Underway r' := by
    intro r'
    rcases eq_or_ne r' r with rfl | hne
    · exact hunderway
    · exact hoff.underway hne
  refine ⟨fun r' => ?_, fun c r' hc => ?_, hpending⟩
  · rw [hbeside.active, h.active r']
    exact (hall r').symm
  · rw [hbeside.customer] at hc
    obtain ⟨hu, hcust⟩ := h.customer c r' hc
    refine ⟨(hall r').mpr hu, ?_⟩
    rcases eq_or_ne r' r with rfl | hne
    · rw [hcustomer, hcust]
    · rw [hoff.ride r' hne, hcust]

section dispatching

variable (hoff : Ledger.EqOff r L L') (hst : (L.ride r).status = some .dispatching)
  (hstatus : (L'.ride r).status = some .dispatching) (hdriver : (L'.ride r).driverId = (L.ride r).driverId)

include hoff hst hstatus hdriver

theorem assigned_iff_of_dispatching (r' : RideId) (d : DriverId) : L.Assigned r' d ↔ L'.Assigned r' d := by
  rcases eq_or_ne r' r with rfl | hne
  · unfold Ledger.Assigned
    rw [hstatus, hst, hdriver]
  · exact (hoff.assigned hne).symm

theorem sane_of_dispatching {n : ℕ} (h : L.Sane n) : L'.Sane n := by
  have hexist : (L.ride r).status ≠ none := by
    rw [hst]
    exact Option.some_ne_none _
  refine h.update hoff (fun _ => h.fresh r hexist) ?_ ?_
  · rw [hstatus]
    intro hreq
    cases hreq
  · rw [hdriver]
    exact fun _ => h.dispatching r hst

end dispatching

theorem underway_iff_of_dispatching (hst : (L.ride r).status = some .dispatching)
    (hstatus : (L'.ride r).status = some .dispatching) : L'.Underway r ↔ L.Underway r := by
  unfold Ledger.Underway
  rw [hstatus, hst]

/-- A new batch, for which all its drivers are reserved. -/
theorem Stand.opened {expiresAt : Time} (h : Stand strict X L L (L.OffersOr r b ds) L s)
    (hst : (L.ride r).status = some .dispatching) (hnone : (L.ride r).currentBatchId = none)
    (hnew : strict → ∀ d, L.responses r d ≠ some (.pending b)) (hseq : b.seq < s.nextSeq)
    (hsecured : strict → ∀ d ∈ ds, Secured s r b d expiresAt)
    (hb : Batched r b ds (batchFields (L.ride r) b ds expiresAt now) L L') (hledger : t.ledger = L')
    (hbeside : Beside s t)
    (hpending : ∀ d r', r' ∈ t.driverPendingDispatches d ↔
      r' ∈ s.driverPendingDispatches d ∨ d ∈ ds ∧ r' = r) : Even strict X L' t := by
  obtain ⟨hoff, hride, hlisted, hresponses⟩ := hb
  have hfields : (L'.ride r).status = (L.ride r).status ∧ (L'.ride r).currentBatchId = some b ∧
      (L'.ride r).currentBatchDrivers = ds ∧ (L'.ride r).driverId = (L.ride r).driverId ∧
      (L'.ride r).customerId = (L.ride r).customerId ∧
      (L'.ride r).currentBatchExpiresAt = some expiresAt := by
    rw [hride]
    simp only [batchFields, hset_cons, hset_nil, RideHash.setField, and_self]
  obtain ⟨hstatus, hbatch, hdrivers, hdriver, hcustomer, hexpires⟩ := hfields
  rw [hst] at hstatus
  have hapart : Apart r s t := hbeside.apart h.ledger hledger hoff fun r' d _ hp => (hpending d r').mpr (Or.inl hp)
  have hassigned := assigned_iff_of_dispatching hoff hst hstatus hdriver
  have hoffers : ∀ d ∈ ds, L'.Offers r b d := fun d hd => ⟨hstatus, hbatch, by rw [hdrivers]; exact hd⟩
  -- nobody has answered with the new batch's id, so what is live on this ride is the new batch
  have hlive : strict → ∀ b' d, LiveOffer t r b' d → b' = b ∧ d ∈ ds := by
    intro hx b' d hl
    have hopen : L'.Open r b' d := by
      rw [← hledger]
      exact hl.toOpen
    have hb := hopen.batch
    rw [hbatch] at hb
    obtain rfl : b = b' := Option.some.inj hb
    refine ⟨rfl, ?_⟩
    by_contra hd
    have hresp := hopen.response
    rw [hresponses, if_neg hd] at hresp
    exact hnew hx d hresp
  -- what was reserved ahead for the new batch is an offer now
  have hreserved : ∀ r' b' d, L.OffersOr r b ds r' b' d → L'.Offers r' b' d := by
    rintro r' b' d (ho | ⟨rfl, rfl, hd⟩)
    · have hne : r' ≠ r := by
        rintro rfl
        exact ho.not_closed (Or.inr hnone)
      exact hoff.offers hne ho
    · exact hoffers d hd
  exact
    { ledger := hledger
      sane := by
        rw [hbeside.seq]
        exact sane_of_dispatching hoff hst hstatus hdriver h.sane
      pools := (h.pools.beside hbeside).congr hassigned
      reserved := (h.reserved.of_locks hbeside.locks).mono hreserved
      listed := by
        refine h.listed.beside hbeside hoff (underway_iff_of_dispatching hst hstatus) hcustomer fun d r' hp => ?_
        rcases (hpending d r').mp hp with hp | ⟨hd, rfl⟩
        · have ha := h.listed.pending d r' hp
          have hne : r' ≠ r := by
            rintro rfl
            obtain ⟨⟨b', ho, -⟩, -⟩ := ha
            exact ho.not_closed (Or.inr hnone)
          exact hoff.awaits hne ha
        · exact ⟨⟨b, hoffers d hd, by rw [hresponses, if_pos hd]⟩, (hlisted d).mpr (Or.inr hd)⟩
      offered := fun hx => by
        have hrides : t.ride = L'.ride := congrArg Ledger.ride hledger
        refine (h.offered hx).apart hapart (fun b' d hl _ => ?_) (fun b' d hl => ?_) (fun b' d hr => ?_) fun _ => ?_
        · obtain ⟨rfl, hd⟩ := hlive hx b' d hl
          rw [hrides, hexpires]
          exact (hsecured hx d hd).of_locks hbeside.locks
        · obtain ⟨rfl, hd⟩ := hlive hx b' d hl
          exact (hpending d r).mpr (Or.inr ⟨hd, rfl⟩)
        · rw [show t.rideResponses = L'.responses from congrArg Ledger.responses hledger, hresponses] at hr
          rw [hbeside.seq]
          split_ifs at hr
          · cases hr
            exact hseq
          · rw [← h.responses] at hr
            exact (h.offered hx).drawn r b' d hr
        · rw [hrides, hstatus]
          exact Option.some_ne_none _ }

theorem Stand.batch {expiresAt : Time} (h : Stand strict X L L (L.OffersOr r b ds) L s)
    (hst : (L.ride r).status = some .dispatching) (hnone : (L.ride r).currentBatchId = none)
    (hnew : strict → ∀ d, L.responses r d ≠ some (.pending b)) (hseq : b.seq < s.nextSeq)
    (hsecured : strict → ∀ d ∈ ds, Secured s r b d expiresAt) :
    ∃ L', Batched r b ds (batchFields (L.ride r) b ds expiresAt now) L L' ∧
      Even strict X L' (s.multi (batchWrites r (L.ride r) b ds expiresAt now)) := by
  obtain ⟨notified, hnotified, hnotify⟩ :=
    @multi_notify (s.multi [.hsetRide r (batchFields (L.ride r) b ds expiresAt now)]) r b ds
  let L' : Ledger :=
    { ride := put L.ride r ((L.ride r).hset (batchFields (L.ride r) b ds expiresAt now))
      notified := put L.notified r notified
      responses := put L.responses r fun d => if d ∈ ds then some (.pending b) else L.responses r d }
  have hb : Batched r b ds (batchFields (L.ride r) b ds expiresAt now) L L' :=
    { off := ⟨fun _ hne => put_of_ne hne, fun _ hne => put_of_ne hne, fun _ hne => put_of_ne hne⟩
      ride := put_self
      notified := fun d => by
        show d ∈ put L.notified r notified r ↔ _
        rw [put_self, hnotified d, ← h.notified]
        rfl
      responses := fun d => congrFun put_self d }
  refine ⟨L', hb, ?_⟩
  rw [batchWrites, multi_append, hnotify]
  refine h.opened hst hnone hnew hseq hsecured hb ?_ ⟨rfl, rfl, rfl, rfl, rfl, rfl, rfl, rfl, rfl⟩ fun d r' => ?_
  · obtain rfl : s.ledger = L := h.ledger
    rfl
  · show r' ∈ (if d ∈ ds then sadd r (s.driverPendingDispatches d) else s.driverPendingDispatches d) ↔ _
    split_ifs with hd
    · rw [mem_sadd]
      simp [hd, or_comm]
    · simp [hd]

/-- One offer less in `X`. -/
def without (X : DriverId → RideId → Prop) (d : DriverId) (r : RideId) : DriverId → RideId → Prop :=
  fun d' r' => X d' r' ∧ ¬ (d' = d ∧ r' = r)

/-- What a rejection by `d` leaves: its response, and the batch if others are pending. -/
structure Rejected (r : RideId) (d : DriverId) (reason : Response) (exhausted : Bool) (now : Time)
    (L L' : Ledger) : Prop where
  off : Ledger.EqOff r L L'
  ride : L'.ride r = (L.ride r).hset (rejectFields (L.ride r) exhausted now)
  notified : L'.notified = L.notified
  responses : L'.responses r = put (L.responses r) d (some reason)

theorem Stand.reject {reason : Response} {exhausted : Bool} (h : Even strict X L s)
    (hst : (L.ride r).status = some .dispatching)
    (hexhausted : exhausted = batchExhausted (L.ride r) d (L.responses r))
    (hfair : strict → ∀ b, reason = .pending b → b.seq < s.nextSeq ∧ (L.ride r).currentBatchId ≠ some b) :
    ∃ L', Rejected r d reason exhausted now L L' ∧
      Stand strict (without X d r) L' L' L.Offers L'
        (s.multi (rejectWrites r (L.ride r) d reason exhausted now)) := by
  let L' : Ledger :=
    { ride := put L.ride r ((L.ride r).hset (rejectFields (L.ride r) exhausted now))
      notified := L.notified
      responses := put L.responses r (put (L.responses r) d (some reason)) }
  have hoff : Ledger.EqOff r L L' :=
    ⟨fun _ hne => put_of_ne hne, fun _ _ => rfl, fun _ hne => put_of_ne hne⟩
  have hride : L'.ride r = (L.ride r).hset (rejectFields (L.ride r) exhausted now) := put_self
  have hresponses : ∀ d', L'.responses r d' = if d' = d then some reason else L.responses r d' := by
    intro d'
    show put L.responses r (put (L.responses r) d (some reason)) r d' = _
    rw [put_self, put_apply]
  refine ⟨L', ⟨hoff, hride, rfl, put_self⟩, ?_⟩
  have hfields : (L'.ride r).status = (L.ride r).status ∧ (L'.ride r).driverId = (L.ride r).driverId ∧
      (L'.ride r).customerId = (L.ride r).customerId ∧
      (exhausted = true → (L'.ride r).currentBatchId = none) ∧
      (exhausted = false → (L'.ride r).currentBatchId = (L.ride r).currentBatchId ∧
        (L'.ride r).currentBatchDrivers = (L.ride r).currentBatchDrivers ∧
        (L'.ride r).currentBatchExpiresAt = (L.ride r).currentBatchExpiresAt) := by
    rw [hride]
    cases exhausted <;>
      simp [rejectFields, hset_cons, hset_nil, RideHash.setField]
  obtain ⟨hstatus, hdriver, hcustomer, hended, hkept⟩ := hfields
  rw [hst] at hstatus
  generalize ht : s.multi (rejectWrites r (L.ride r) d reason exhausted now) = t
  have hledger : t.ledger = L' := by
    obtain rfl : s.ledger = L := h.ledger
    rw [← ht]
    rfl
  have hbeside : Beside s t := by
    rw [← ht]
    exact ⟨rfl, rfl, rfl, rfl, rfl, rfl, rfl, rfl, rfl⟩
  have hpending : ∀ d' r', r' ∈ t.driverPendingDispatches d' ↔
      r' ∈ s.driverPendingDispatches d' ∧ ¬ (d' = d ∧ r' = r) := by
    intro d' r'
    rw [← ht]
    exact mem_put_srem
  -- what is open afterwards was open before: the answer of `d` repeats no batch that is current
  have hopen : ∀ b d', L'.Open r b d' → (strict → d' ≠ d) ∧ exhausted = false ∧
      (d' ≠ d → L.Open r b d') := by
    intro b d' ho
    have hfalse : exhausted = false := by
      cases hex : exhausted with
      | false => rfl
      | true => exact absurd (Or.inr (hended hex)) ho.not_closed
    have hresp := ho.response
    have hbatch := ho.batch
    rw [hresponses] at hresp
    rw [(hkept hfalse).1] at hbatch
    refine ⟨fun hx hd => ?_, hfalse, fun hd => ?_⟩
    · rw [if_pos hd] at hresp
      exact (hfair hx b (Option.some.inj hresp)).2 hbatch
    · rw [if_neg hd] at hresp
      exact ⟨hst, hbatch, hresp⟩
  have hapart : Apart r s t :=
    hbeside.apart h.ledger hledger hoff fun r' d' hne hp => (hpending d' r').mpr ⟨hp, fun heq => hne heq.2⟩
  have hearlier : strict → ∀ b d', LiveOffer t r b d' → d' ≠ d ∧ LiveOffer s r b d' ∧
      (L'.ride r).currentBatchExpiresAt = (L.ride r).currentBatchExpiresAt := by
    intro hx b d' hl
    have ho : L'.Open r b d' := by
      rw [← hledger]
      exact hl.toOpen
    obtain ⟨hne, hfalse, hold⟩ := hopen b d' ho
    have htime := hl.time
    rw [show t.ride = L'.ride from congrArg Ledger.ride hledger, hbeside.clock,
      (hkept hfalse).2.2] at htime
    refine ⟨hne hx, ⟨by rw [h.ledger]; exact hold (hne hx), ?_⟩, (hkept hfalse).2.2⟩
    rw [h.ride]
    exact htime
  have hassigned := assigned_iff_of_dispatching hoff hst hstatus hdriver
  -- a driver that is still waited for keeps the batch, so it is not exhausted
  have hawaits : ∀ d', d' ≠ d → L.Awaits r d' → L'.Awaits r d' := by
    rintro d' hne ⟨⟨b, ho, hresp⟩, hn⟩
    have hfalse : exhausted = false := by
      rw [hexhausted, Bool.eq_false_iff]
      intro hall
      have hd := List.all_eq_true.mp hall d' ho.mem
      rw [ho.batch, hresp] at hd
      simp [hne, isPendingResponse] at hd
    refine ⟨⟨b, ⟨hstatus, (hkept hfalse).1.trans ho.batch, by rw [(hkept hfalse).2.1]; exact ho.mem⟩, ?_⟩, hn⟩
    rw [hresponses, if_neg hne, hresp]
  exact
    { ledger := hledger
      sane := by
        rw [hbeside.seq]
        exact sane_of_dispatching hoff hst hstatus hdriver h.sane
      pools := (h.pools.beside hbeside).congr hassigned
      reserved := h.reserved.of_locks hbeside.locks
      listed := by
        refine h.listed.beside hbeside hoff (underway_iff_of_dispatching hst hstatus) hcustomer fun d' r' hp => ?_
        obtain ⟨hp, hnot⟩ := (hpending d' r').mp hp
        have ha := h.listed.pending d' r' hp
        rcases eq_or_ne r' r with rfl | hne
        · exact hawaits d' (fun hd => hnot ⟨hd, rfl⟩) ha
        · exact hoff.awaits hne ha
      offered := fun hx => by
        have hrides : t.ride = L'.ride := congrArg Ledger.ride hledger
        have hX : Offered X t := by
          refine (h.offered hx).apart hapart (fun b d' hl hxd => ?_) (fun b d' hl => ?_) (fun b d' hr => ?_)
            fun _ => ?_
          · obtain ⟨hne, hold, hexp⟩ := hearlier hx b d' hl
            rw [hrides, hexp, ← h.ride]
            exact ((h.offered hx).secured r b d' hold hxd).of_locks hbeside.locks
          · obtain ⟨hne, hold, -⟩ := hearlier hx b d' hl
            exact (hpending d' r).mpr ⟨(h.offered hx).pending r b d' hold, fun heq => hne heq.1⟩
          · rw [show t.rideResponses = L'.responses from congrArg Ledger.responses hledger, hresponses] at hr
            rw [hbeside.seq]
            split_ifs at hr
            · exact (hfair hx b (Option.some.inj hr)).1
            · rw [← h.responses] at hr
              exact (h.offered hx).drawn r b d' hr
          · rw [hrides, hstatus]
            exact Option.some_ne_none _
        exact
          { secured := fun r' b d' hl hnot => by
              by_cases hsame : d' = d ∧ r' = r
              · obtain ⟨rfl, rfl⟩ := hsame
                exact absurd rfl (hearlier hx b d' hl).1
              · exact hX.secured r' b d' hl fun hxd => hnot ⟨hxd, hsame⟩
            pending := hX.pending
            drawn := hX.drawn
            known := fun d' r' hxd => hX.known d' r' hxd.1 } }

end YatriGo
