import YatriGo.Proofs.Ledger
import YatriGo.Proofs.RideWrites

/-! What the MULTIs of an operation do to the ledger and to the keys that agree with it. -/

namespace YatriGo
open Concurrent

/-- Writes to what the rides say. -/
def Write.ofLedger : Write → Bool
  | .createRide .. => true
  | .hsetRide .. => true
  | .saddNotified .. => true
  | .delNotified _ => true
  | .hsetResponse .. => true
  | .delResponses _ => true
  | _ => false

/-- Writes to the lists that name rides. -/
def Write.ofLists : Write → Bool
  | .saddActiveRide _ => true
  | .sremActiveRide _ => true
  | .setCustomerActiveRide .. => true
  | .delCustomerActiveRide _ => true
  | .saddPending .. => true
  | .sremPending .. => true
  | _ => false

def Write.ofReservations : Write → Bool
  | .delReservation _ => true
  | _ => false

variable {strict : Prop} {X Y : DriverId → RideId → Prop} {L L' L₁ L₃ : Ledger} {s t : Store}
  {O : RideId → BatchId → DriverId → Prop} {r r' : RideId} {b : BatchId} {d : DriverId}
  {ws : List Write} {env : Env} {now : Time} {fields : List RideField}

/-- All keys agree with the rides as they are. -/
abbrev Even (strict : Prop) (X : DriverId → RideId → Prop) (L : Ledger) (s : Store) : Prop :=
  Stand strict X L L L.Offers L s

theorem multi_same {γ : Type} {f : Store → γ} (h : ∀ w ∈ ws, ∀ s, f (Write.apply s w) = f s) :
    f (s.multi ws) = f s := by
  induction ws generalizing s with
  | nil => rfl
  | cons w ws ih =>
    rw [multi_cons, ih fun v hv => h v (List.mem_cons_of_mem _ hv)]
    exact h w List.mem_cons_self s

theorem multi_clock : (s.multi ws).clock = s.clock :=
  multi_same (f := Store.clock) fun w _ s => by cases w <;> rfl

theorem multi_ledger (h : ∀ w ∈ ws, w.ofLedger = false) : (s.multi ws).ledger = s.ledger := by
  refine multi_same fun w hw s => ?_
  have hgroup : w.ofLedger = false := h w hw
  cases w <;> first | rfl | cases hgroup

theorem multi_reservations (h : ∀ w ∈ ws, w.ofReservations = false) : (s.multi ws).locks = s.locks := by
  refine multi_same (f := Store.locks) fun w hw s => ?_
  have hgroup : w.ofReservations = false := h w hw
  cases w <;> first | rfl | cases hgroup

/-- The lists that name rides are the same before and after. -/
structure SameLists (s t : Store) : Prop where
  active : t.activeRides = s.activeRides
  customer : t.customerActiveRide = s.customerActiveRide
  pending : t.driverPendingDispatches = s.driverPendingDispatches

theorem multi_lists (h : ∀ w ∈ ws, w.ofLists = false) : SameLists s (s.multi ws) := by
  have hw : ∀ w ∈ ws, ∀ s, (Write.apply s w).activeRides = s.activeRides ∧
      (Write.apply s w).customerActiveRide = s.customerActiveRide ∧
      (Write.apply s w).driverPendingDispatches = s.driverPendingDispatches := by
    intro w hw s
    have hgroup : w.ofLists = false := h w hw
    cases w <;> first | exact ⟨rfl, rfl, rfl⟩ | cases hgroup
  exact ⟨multi_same (f := Store.activeRides) fun w hmem s => (hw w hmem s).1,
    multi_same (f := Store.customerActiveRide) fun w hmem s => (hw w hmem s).2.1,
    multi_same (f := Store.driverPendingDispatches) fun w hmem s => (hw w hmem s).2.2⟩

theorem nodup_write {w : Write} (h : (s.availableDriversGeo.map Prod.fst).Nodup) :
    ((w.apply s).availableDriversGeo.map Prod.fst).Nodup := by
  have hfilter : ∀ d : DriverId, ((s.availableDriversGeo.filter (·.1 ≠ d)).map Prod.fst).Nodup :=
    fun d => h.sublist (List.filter_sublist.map _)
  cases w with
  | geoadd d l =>
    rcases write_geoadd d l s with ⟨-, heq⟩ | ⟨-, heq⟩
    · rw [heq]
      refine List.nodup_cons.mpr ⟨?_, hfilter d⟩
      intro hmem
      obtain ⟨p, hp, hd⟩ := List.mem_map.mp hmem
      have hne : p.1 ≠ d := by simpa using (List.mem_filter.mp hp).2
      exact hne hd
    · rw [heq]
      exact h
  | zremGeo d => exact hfilter d
  | _ => exact h

theorem nodup_multi (h : (s.availableDriversGeo.map Prod.fst).Nodup) :
    ((s.multi ws).availableDriversGeo.map Prod.fst).Nodup := by
  induction ws generalizing s with
  | nil => exact h
  | cons w ws ih => exact ih (nodup_write h)

theorem Listed.same (h : Listed L s) (hl : SameLists s t) : Listed L t where
  active := fun r => by rw [hl.active]; exact h.active r
  customer := fun c r hc => by rw [hl.customer] at hc; exact h.customer c r hc
  pending := fun d r hp => by rw [hl.pending] at hp; exact h.pending d r hp

theorem Pools.multi (h : Pools L s) (hw : ∀ w ∈ ws, w.driver = none) : Pools L (s.multi ws) where
  fit := fun d => by
    rw [keys_multi_of_ne fun w hmem => by rw [hw w hmem]; exact (Option.some_ne_none d).symm]
    exact h.fit d
  nodup := nodup_multi h.nodup

theorem Pools.driver (h : Pools L s) (hw : ∀ w ∈ ws, ∀ d', w.driver = some d' → d' = d)
    (hfit : Fit (fun r => L'.Assigned r d) (ws.foldl DriverKeys.update (s.keys d)))
    (hother : ∀ d', d' ≠ d → ∀ r, L.Assigned r d' ↔ L'.Assigned r d') : Pools L' (s.multi ws) where
  fit := fun d' => by
    rcases eq_or_ne d' d with rfl | hne
    · rw [keys_multi hw]
      exact hfit
    · rw [keys_multi_of_ne fun w hmem hd => hne (hw w hmem d' hd)]
      exact (h.fit d').congr (hother d' hne)
  nodup := nodup_multi h.nodup

theorem Pools.congr (h : Pools L s) (hon : ∀ r d, L.Assigned r d ↔ L'.Assigned r d) : Pools L' s where
  fit := fun d => (h.fit d).congr fun r => hon r d
  nodup := h.nodup

theorem Reserved.mono {O' : RideId → BatchId → DriverId → Prop} (h : Reserved O s)
    (himp : ∀ r b d, O r b d → O' r b d) : Reserved O' s := fun d r b hl => himp r b d (h d r b hl)

theorem Reserved.of_locks (h : Reserved O s) (hl : t.locks = s.locks) : Reserved O t :=
  fun d r b ht => h d r b (by rw [← hl]; exact ht)

/-- What a step leaves of the offers and reservations of all rides but `r`. -/
structure Apart (r : RideId) (s t : Store) : Prop where
  ledger : Ledger.EqOff r s.ledger t.ledger
  clock : s.clock ≤ t.clock
  seq : s.nextSeq ≤ t.nextSeq
  secured : ∀ r' b d e, r' ≠ r → LiveOffer s r' b d → Secured s r' b d e → Secured t r' b d e
  pending : ∀ r' d, r' ≠ r → r' ∈ s.driverPendingDispatches d → r' ∈ t.driverPendingDispatches d

theorem LiveOffer.apart (h : LiveOffer t r' b d) (ha : Apart r s t) (hne : r' ≠ r) :
    LiveOffer s r' b d where
  toOpen := ha.ledger.opened hne h.toOpen
  time := by
    rw [← show t.ride r' = s.ride r' from ha.ledger.ride r' hne]
    exact ha.clock.trans_lt h.time

/-- A step that concerns ride `r` only keeps the live offers of the other rides secured. -/
theorem Offered.apart (h : Offered X s) (ha : Apart r s t)
    (secured : ∀ b d, LiveOffer t r b d → ¬ X d r →
      Secured t r b d ((t.ride r).currentBatchExpiresAt.getD 0))
    (pending : ∀ b d, LiveOffer t r b d → r ∈ t.driverPendingDispatches d)
    (drawn : ∀ b d, t.rideResponses r d = some (.pending b) → b.seq < t.nextSeq)
    (known : (s.ride r).status ≠ none → (t.ride r).status ≠ none) : Offered X t where
  secured := fun r' b d hl hx => by
    rcases eq_or_ne r' r with rfl | hne
    · exact secured b d hl hx
    · rw [show t.ride r' = s.ride r' from ha.ledger.ride r' hne]
      exact ha.secured r' b d _ hne (hl.apart ha hne) (h.secured r' b d (hl.apart ha hne) hx)
  pending := fun r' b d hl => by
    rcases eq_or_ne r' r with rfl | hne
    · exact pending b d hl
    · exact ha.pending r' d hne (h.pending r' b d (hl.apart ha hne))
  drawn := fun r' b d hr => by
    rcases eq_or_ne r' r with rfl | hne
    · exact drawn b d hr
    · rw [show t.rideResponses r' = s.rideResponses r' from ha.ledger.responses r' hne] at hr
      exact (h.drawn r' b d hr).trans_le ha.seq
  known := fun d r' hx => by
    rcases eq_or_ne r' r with rfl | hne
    · exact known (h.known d r' hx)
    · rw [show t.ride r' = s.ride r' from ha.ledger.ride r' hne]
      exact h.known d r' hx

theorem Secured.of_locks {e : Time} (h : Secured s r b d e) (hl : t.locks = s.locks) :
    Secured t r b d e := by
  unfold Secured
  rw [hl]
  exact h

/-- The ledger after an HSET on ride `r`. -/
def Ledger.hset (L : Ledger) (r : RideId) (fields : List RideField) : Ledger :=
  { L with ride := put L.ride r ((L.ride r).hset fields) }

@[simp] theorem Ledger.hset_self : (L.hset r fields).ride r = (L.ride r).hset fields := put_self

theorem Ledger.EqOff.hset : Ledger.EqOff r L (L.hset r fields) :=
  ⟨fun _ hne => put_of_ne hne, fun _ _ => rfl, fun _ _ => rfl⟩

/-- An update of one ride that ends its batch, or finds it without one. -/
theorem Stand.hset (h : Stand strict X L L₁ O L₃ s) (hst : (L.ride r).status ≠ none)
    (closed : (L.hset r fields).Closed r)
    (requested : ((L.ride r).hset fields).status ≠ some .requested)
    (dispatching : ((L.ride r).hset fields).status = some .dispatching →
      ((L.ride r).hset fields).driverId = none) :
    Stand strict X (L.hset r fields) L₁ O L₃ (s.multi [.hsetRide r fields]) := by
  have hledger : (s.multi [.hsetRide r fields]).ledger = L.hset r fields := by
    rw [← h.ledger]
    rfl
  have hride : (s.multi [.hsetRide r fields]).ride r = (L.ride r).hset fields := by
    have hat : (s.multi [.hsetRide r fields]).ledger.ride r = (L.hset r fields).ride r := by rw [hledger]
    exact hat.trans Ledger.hset_self
  have hapart : Apart r s (s.multi [.hsetRide r fields]) := by
    refine ⟨?_, multi_clock.symm.le, multi_nextSeq.symm.le, fun _ _ _ _ _ _ hs => hs.of_locks rfl,
      fun _ _ _ hp => hp⟩
    rw [hledger, h.ledger]
    exact Ledger.EqOff.hset
  have hlive : ∀ b d, ¬ LiveOffer (s.multi [.hsetRide r fields]) r b d := by
    intro b d hl
    have hopen := hl.toOpen
    rw [hledger] at hopen
    exact hopen.not_closed closed
  have hsane : (L.hset r fields).Sane s.nextSeq := by
    refine h.sane.update Ledger.EqOff.hset (fun _ => h.sane.fresh r hst) ?_ ?_
    · rw [Ledger.hset_self]
      exact fun hreq => absurd hreq requested
    · rw [Ledger.hset_self]
      exact dispatching
  exact
    { ledger := hledger
      sane := by rw [multi_nextSeq]; exact hsane
      pools := h.pools.multi (by simp [Write.driver])
      reserved := h.reserved.of_locks rfl
      listed := h.listed.same ⟨rfl, rfl, rfl⟩
      offered := fun hx => (h.offered hx).apart hapart (fun b d hl => absurd hl (hlive b d))
        (fun b d hl => absurd hl (hlive b d)) (fun b d hr => ((h.offered hx).drawn r b d hr).trans_eq multi_nextSeq.symm)
        fun _ => by rw [hride]; exact hset_status_ne_none hst }

theorem Stand.relabel {L₁' L₃' : Ledger} {O' : RideId → BatchId → DriverId → Prop}
    (h : Stand strict X L L₁ O L₃ s) (hpools : ∀ r d, L₁.Assigned r d ↔ L₁'.Assigned r d)
    (hreserved : ∀ r b d, O r b d → O' r b d) (hunderway : ∀ r, L₃.Underway r ↔ L₃'.Underway r)
    (hcustomer : ∀ r, (L₃'.ride r).customerId = (L₃.ride r).customerId)
    (hawaits : ∀ r d, L₃.Awaits r d → L₃'.Awaits r d) : Stand strict X L L₁' O' L₃' s :=
  { h with
    pools := h.pools.congr hpools
    reserved := h.reserved.mono hreserved
    listed :=
      { active := fun r => (h.listed.active r).trans (hunderway r)
        customer := fun c r hc => by
          obtain ⟨hu, hcust⟩ := h.listed.customer c r hc
          exact ⟨(hunderway r).mp hu, (hcustomer r).trans hcust⟩
        pending := fun d r hp => hawaits r d (h.listed.pending d r hp) } }

theorem Stand.withdraw (h : Stand strict X L L₁ O L₃ s) (hsub : ∀ d r, Y d r → X d r)
    (hdone : strict → ∀ r b d, LiveOffer s r b d → X d r → Y d r) : Stand strict Y L L₁ O L₃ s :=
  { h with
    offered := fun hx =>
      { h.offered hx with
        secured := fun r b d hl hy => (h.offered hx).secured r b d hl fun hxd => hy (hdone hx r b d hl hxd)
        known := fun d r hy => (h.offered hx).known d r (hsub d r hy) } }

section batches

variable {ds : List DriverId} {v : Response}

theorem srem_srem {ν : Type} [DecidableEq ν] {x : ν} {xs : List ν} : srem x (srem x xs) = srem x xs := by
  unfold srem
  rw [List.filter_filter]
  simp

theorem multi_sremPending : s.multi (ds.map fun d => .sremPending d r) =
    { s with
      driverPendingDispatches := fun d =>
        if d ∈ ds then srem r (s.driverPendingDispatches d) else s.driverPendingDispatches d } := by
  induction ds generalizing s with
  | nil => simp
  | cons d ds ih =>
    rw [List.map_cons, multi_cons, ih]
    simp only [Write.apply, Store.mk.injEq, true_and]
    refine ⟨?_, trivial⟩
    funext d'
    rw [put_apply]
    by_cases hd : d' = d
    · rw [hd, if_pos rfl, srem_srem, ite_self, if_pos List.mem_cons_self]
    · rw [if_neg hd]
      simp only [List.mem_cons, hd, false_or]

theorem multi_hsetResponse : s.multi (ds.map fun d => .hsetResponse r d v) =
    { s with
      rideResponses :=
        put s.rideResponses r fun d => if d ∈ ds then some v else s.rideResponses r d } := by
  induction ds generalizing s with
  | nil =>
    have hput : put s.rideResponses r (s.rideResponses r) = s.rideResponses := by
      funext r'
      rw [put_apply]
      split_ifs with hr
      · rw [hr]
      · rfl
    simp [hput]
  | cons d ds ih =>
    rw [List.map_cons, multi_cons, ih]
    simp only [Write.apply, Store.mk.injEq, true_and]
    refine ⟨?_, trivial⟩
    funext r' d'
    by_cases hr : r' = r
    · subst hr
      simp only [put_self, List.mem_cons]
      rw [put_apply]
      by_cases hd : d' = d
      · simp [hd]
      · simp [hd]
    · simp only [put_of_ne hr]

/-- The ledger after the responses of ride `r` have changed to `f`. -/
def Ledger.answer (L : Ledger) (r : RideId) (f : DriverId → Option Response) : Ledger :=
  { L with responses := put L.responses r f }

theorem Ledger.EqOff.answer {f : DriverId → Option Response} : Ledger.EqOff r L (L.answer r f) :=
  ⟨fun _ _ => rfl, fun _ _ => rfl, fun _ hne => put_of_ne hne⟩

/-- Responses that only stop being pending. -/
theorem Stand.answer {f : DriverId → Option Response} (h : Stand strict X L L₁ O L₃ s)
    (hf : ∀ d b, f d = some (.pending b) → L.responses r d = some (.pending b)) :
    Stand strict X (L.answer r f) L₁ O L₃ { s with rideResponses := put s.rideResponses r f } := by
  have hpend : ∀ r' d b, put s.rideResponses r f r' d = some (.pending b) →
      s.rideResponses r' d = some (.pending b) := by
    intro r' d b hd
    rw [h.responses] at hd ⊢
    rcases eq_or_ne r' r with rfl | hne
    · rw [put_self] at hd
      exact hf d b hd
    · rw [put_of_ne hne] at hd
      exact hd
  have hlive : ∀ r' b d, LiveOffer { s with rideResponses := put s.rideResponses r f } r' b d →
      LiveOffer s r' b d :=
    fun r' b d hl => ⟨⟨hl.status, hl.batch, hpend r' d b hl.response⟩, hl.time⟩
  exact
    { ledger := by rw [← h.ledger]; rfl
      sane := ⟨h.sane.fresh, h.sane.requested, h.sane.dispatching⟩
      pools := ⟨h.pools.fit, h.pools.nodup⟩
      reserved := h.reserved.of_locks rfl
      listed := h.listed.same ⟨rfl, rfl, rfl⟩
      offered := fun hx =>
        { secured := fun r' b d hl hxd => (h.offered hx).secured r' b d (hlive r' b d hl) hxd
          pending := fun r' b d hl => (h.offered hx).pending r' b d (hlive r' b d hl)
          drawn := fun r' b d hr => (h.offered hx).drawn r' b d (hpend r' d b hr)
          known := (h.offered hx).known } }

/-- The end of a batch whose time is over: its hash fields and the pending responses go. -/
theorem Stand.timeout (h : Stand strict X L L₁ O L₃ s) (hst : (L.ride r).status = some .dispatching) :
    ∃ L', Ledger.EqOff r L L' ∧ L'.notified = L.notified ∧
      L'.ride r = (L.ride r).hset (clearBatchFields (L.ride r) now) ∧
      Stand strict X L' L₁ O L₃ (s.multi (timeoutWrites r (L.ride r) b (L.responses r) now)) := by
  generalize hds : ((L.ride r).currentBatchDrivers.filter fun driverId =>
    isPendingResponse (L.responses r driverId) (some b)) = ds
  have hanswer := h.answer (r := r) (f := fun d => if d ∈ ds then some .timeout else s.rideResponses r d)
    fun d b hd => by
      split_ifs at hd
      · cases hd
      · rwa [h.responses] at hd
  have hwrites : s.multi (timeoutWrites r (L.ride r) b (L.responses r) now) =
      (s.multi (ds.map fun d => .hsetResponse r d .timeout)).multi
        [.hsetRide r (clearBatchFields (L.ride r) now)] := by
    rw [timeoutWrites, hds, multi_append]
  generalize hf : (fun d => if d ∈ ds then some Response.timeout else s.rideResponses r d) = f at hanswer
  refine ⟨(L.answer r f).hset r (clearBatchFields (L.ride r) now),
    Ledger.EqOff.answer.trans Ledger.EqOff.hset, rfl, Ledger.hset_self, ?_⟩
  rw [hwrites, multi_hsetResponse, hf]
  have hg : (((L.answer r f).ride r).hset (clearBatchFields (L.ride r) now)).status = some .dispatching :=
    (hset_clearBatchFields (g := L.ride r)).1.trans hst
  refine hanswer.hset (by rw [show (L.answer r f).ride r = L.ride r from rfl, hst]; exact Option.some_ne_none _)
    (Or.inr (by rw [Ledger.hset_self]; exact (hset_clearBatchFields (g := L.ride r)).2.2)) (by rw [hg]; decide) fun _ => ?_
  exact (hset_clearBatchFields (g := L.ride r)).2.1.trans (h.sane.dispatching r hst)

/-- The lists agree with another ledger once what it does not say of ride `r` is removed. -/
theorem Stand.clearPending (h : Stand strict X L L₁ O L₃ s) (hclosed : L.Closed r)
    (hoff : Ledger.EqOff r L₃ L') (hunderway : L₃.Underway r ↔ L'.Underway r)
    (hcustomer : (L'.ride r).customerId = (L₃.ride r).customerId)
    (hawaits : ∀ d, L₃.Awaits r d → d ∈ ds) :
    Stand strict X L L₁ O L' (s.multi (ds.map fun d => .sremPending d r)) := by
  rw [multi_sremPending]
  have hmem : ∀ d r', r' ∈ (if d ∈ ds then srem r (s.driverPendingDispatches d)
      else s.driverPendingDispatches d) ↔
        r' ∈ s.driverPendingDispatches d ∧ ¬ (d ∈ ds ∧ r' = r) := by
    intro d r'
    split_ifs with hd
    · rw [mem_srem]
      simp [hd]
    · simp [hd]
  refine ⟨h.ledger, h.sane, ⟨h.pools.fit, h.pools.nodup⟩, h.reserved.of_locks rfl,
    ⟨fun r' => ?_, fun c r' hc => ?_, fun d r' hp => ?_⟩, fun hx => ?_⟩
  · rw [h.listed.active r']
    rcases eq_or_ne r' r with rfl | hne
    · exact hunderway
    · exact (hoff.underway hne).symm
  · obtain ⟨hu, hcust⟩ := h.listed.customer c r' hc
    rcases eq_or_ne r' r with rfl | hne
    · exact ⟨hunderway.mp hu, hcustomer.trans hcust⟩
    · exact ⟨(hoff.underway hne).mpr hu, by rw [hoff.ride r' hne]; exact hcust⟩
  · obtain ⟨hp, hnot⟩ := (hmem d r').mp hp
    -- whoever waits for an answer on `r` is cleared, so what is left is about other rides
    have ha : L₃.Awaits r' d := h.listed.pending d r' hp
    have hne : r' ≠ r := by
      rintro rfl
      exact hnot ⟨hawaits d ha, rfl⟩
    exact hoff.awaits hne ha
  · refine ⟨fun r' b d hl => (h.offered hx).secured r' b d ⟨hl.toOpen, hl.time⟩,
      fun r' b d hl => (hmem d r').mpr ?_, (h.offered hx).drawn, (h.offered hx).known⟩
    have hlive : LiveOffer s r' b d := ⟨hl.toOpen, hl.time⟩
    refine ⟨(h.offered hx).pending r' b d hlive, ?_⟩
    rintro ⟨-, rfl⟩
    have hopen : L.Open r' b d := by
      rw [← h.ledger]
      exact hl.toOpen
    exact hopen.not_closed hclosed

/-- A reservation is released whose offer is not open. -/
theorem Stand.release {O' : RideId → BatchId → DriverId → Prop} (h : Stand strict X L L₁ O L₃ s)
    (hopen : strict → ¬ L.Open r b d) (hO : ∀ r' b' d', O r' b' d' → O' r' b' d' ∨ r' = r ∧ b' = b ∧ d' = d) :
    Stand strict X L L₁ O' L₃ (releaseLockScript (.reservation d) (.reservation r b) s).2 := by
  obtain ⟨locks, hlocks⟩ : ∃ locks, (releaseLockScript (.reservation d) (.reservation r b) s).2 =
      { s with locks } := releaseLockScript_eq
  -- the script removes just this reservation, and only when the token is the ride's and the batch's
  have hheld : ∀ r' b' d', Ref.Held r' (releaseLockScript (.reservation d) (.reservation r b) s).2
      (.reservation d' b') → Ref.Held r' s (.reservation d' b') ∧ ¬ (r' = r ∧ b' = b ∧ d' = d) := by
    intro r' b' d' hheld
    by_cases hd : d' = d
    · subst hd
      simp only [Ref.Held, releaseLockScript] at hheld ⊢
      cases hl : s.locks (.reservation d') with
      | none => simp [hl] at hheld
      | some lease =>
        rw [hl] at hheld
        dsimp only at hheld
        split_ifs at hheld with htoken
        · simp at hheld
        · rw [hl] at hheld
          refine ⟨hheld, ?_⟩
          rintro ⟨rfl, rfl, -⟩
          exact htoken (Option.some.inj hheld)
    · simp only [Ref.Held] at hheld ⊢
      rw [releaseLockScript_locks_of_ne fun hk => hd (LockKey.reservation.inj hk)] at hheld
      exact ⟨hheld, fun hk => hd hk.2.2⟩
  have hreserved : Reserved O' (releaseLockScript (.reservation d) (.reservation r b) s).2 := by
    intro d' r' b' hl
    obtain ⟨hs, hnot⟩ := hheld r' b' d' hl
    exact (hO r' b' d' (h.reserved d' r' b' hs)).resolve_right hnot
  have hsecured : ∀ r' b' d' e, ¬ (r' = r ∧ b' = b ∧ d' = d) → Secured s r' b' d' e →
      Secured (releaseLockScript (.reservation d) (.reservation r b) s).2 r' b' d' e := by
    rintro r' b' d' e hnot ⟨lease, hlease, htoken, he⟩
    refine ⟨lease, ?_, htoken, he⟩
    by_cases hd : d' = d
    · subst hd
      simp only [releaseLockScript, hlease]
      rw [if_neg]
      · exact hlease
      · intro heq
        rw [htoken, Token.reservation.injEq] at heq
        exact hnot ⟨heq.1, heq.2, rfl⟩
    · rw [releaseLockScript_locks_of_ne fun hk => hd (LockKey.reservation.inj hk)]
      exact hlease
  rw [hlocks] at hreserved hsecured ⊢
  refine ⟨h.ledger, h.sane, ⟨h.pools.fit, h.pools.nodup⟩, hreserved, h.listed.same ⟨rfl, rfl, rfl⟩,
    fun hx => ⟨fun r' b' d' hl hxd => ?_, fun r' b' d' hl => (h.offered hx).pending r' b' d' ⟨hl.toOpen, hl.time⟩,
      (h.offered hx).drawn, (h.offered hx).known⟩⟩
  have hlive : LiveOffer s r' b' d' := ⟨hl.toOpen, hl.time⟩
  refine hsecured r' b' d' _ ?_ ((h.offered hx).secured r' b' d' hlive hxd)
  rintro ⟨rfl, rfl, rfl⟩
  rw [← h.ledger] at hopen
  exact hopen hx hl.toOpen

/-- A ride that is over leaves the lists: the active rides, its customer's pointer and the
pending lists of the drivers that were notified. -/
theorem Stand.cleanup (h : Stand strict X L L₁ O L₃ s) (hoff : Ledger.EqOff r L₃ L)
    (hover : ¬ L.Underway r) (hclosed : L.Closed r) (hcustomer : (L.ride r).customerId = (L₃.ride r).customerId)
    (hnotified : L.notified r = L₃.notified r) :
    Stand strict X L L₁ O L (s.multi (cleanupWrites r (L.ride r).customerId (L.notified r)
      (s.customerActiveRide (L.ride r).customerId))) := by
  have hmulti : s.multi (cleanupWrites r (L.ride r).customerId (L.notified r)
      (s.customerActiveRide (L.ride r).customerId)) =
      { s with
        activeRides := srem r s.activeRides
        customerActiveRide :=
          if s.customerActiveRide (L.ride r).customerId = some r then
            put s.customerActiveRide (L.ride r).customerId none
          else s.customerActiveRide
        driverPendingDispatches := fun d =>
          if d ∈ L.notified r then srem r (s.driverPendingDispatches d)
          else s.driverPendingDispatches d } := by
    rw [cleanupWrites, multi_append, multi_sremPending]
    split_ifs <;> rfl
  rw [hmulti]
  refine ⟨h.ledger, h.sane, ⟨h.pools.fit, h.pools.nodup⟩, h.reserved.of_locks rfl,
    ⟨fun r' => ?_, fun c r' hc => ?_, fun d r' hp => ?_⟩, fun hx => ?_⟩
  · rw [mem_srem, h.listed.active r']
    rcases eq_or_ne r' r with rfl | hne
    · exact ⟨fun hr => absurd rfl hr.2, fun hr => absurd hr hover⟩
    · rw [hoff.underway hne]
      exact and_iff_left hne
  -- a pointer that is still there was there before
  · have hold : s.customerActiveRide c = some r' := by
      revert hc
      dsimp only
      split_ifs with heq
      · rw [put_apply]
        split_ifs
        · intro hc
          cases hc
        · exact id
      · exact id
    obtain ⟨hu, hcust⟩ := h.listed.customer c r' hold
    have hne : r' ≠ r := by
      rintro rfl
      rw [← hcustomer] at hcust
      subst hcust
      dsimp only at hc
      rw [if_pos hold, put_self] at hc
      cases hc
    exact ⟨(hoff.underway hne).mpr hu, by rw [hoff.ride r' hne]; exact hcust⟩
  · dsimp only at hp
    split_ifs at hp with hd
    · obtain ⟨hp, hne⟩ := mem_srem.mp hp
      exact hoff.awaits hne (h.listed.pending d r' hp)
    · have ha : L₃.Awaits r' d := h.listed.pending d r' hp
      have hne : r' ≠ r := by
        rintro rfl
        rw [hnotified] at hd
        exact hd ha.notified
      exact hoff.awaits hne ha
  · refine ⟨fun r' b d hl => (h.offered hx).secured r' b d ⟨hl.toOpen, hl.time⟩, fun r' b d hl => ?_,
      (h.offered hx).drawn, (h.offered hx).known⟩
    have hp := (h.offered hx).pending r' b d ⟨hl.toOpen, hl.time⟩
    have hopen : L.Open r' b d := by
      rw [← h.ledger]
      exact hl.toOpen
    have hne : r' ≠ r := by
      rintro rfl
      exact hopen.not_closed hclosed
    dsimp only
    split_ifs
    · exact mem_srem.mpr ⟨hp, hne⟩
    · exact hp

end batches

end YatriGo
