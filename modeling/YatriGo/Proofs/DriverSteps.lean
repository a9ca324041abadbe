import YatriGo.Proofs.BatchSteps

/-! The MULTIs about one driver, the accept script, and the two ends of a ride's life with
a driver: the requeueing, and the creation of a new ride. -/

namespace YatriGo
open Concurrent

variable {strict : Prop} {X Y : DriverId → RideId → Prop} {L L' L₁ L₃ : Ledger} {s t : Store}
  {O : RideId → BatchId → DriverId → Prop} {r r' : RideId} {b : BatchId} {d : DriverId}
  {ws : List Write} {env : Env} {now : Time}

section drivers

variable {hash : DriverHash} {heartbeatExists : Bool} {state : DriverState} {existing : Option DriverState}

/-- A MULTI that takes ride `r` off the pending list of `d`, if any. -/
theorem multi_pending (h : ∀ w ∈ ws, w.ofLists = true → w = .sremPending d r) :
    (s.multi ws).activeRides = s.activeRides ∧ (s.multi ws).customerActiveRide = s.customerActiveRide ∧
      (∀ d' r', r' ∈ (s.multi ws).driverPendingDispatches d' → r' ∈ s.driverPendingDispatches d') ∧
      ∀ d' r', r' ≠ r → r' ∈ s.driverPendingDispatches d' → r' ∈ (s.multi ws).driverPendingDispatches d' := by
  induction ws generalizing s with
  | nil => exact ⟨rfl, rfl, fun _ _ => id, fun _ _ _ => id⟩
  | cons w ws ih =>
    obtain ⟨hactive, hcustomer, hsub, hkeep⟩ := @ih (w.apply s) fun v hv => h v (List.mem_cons_of_mem _ hv)
    rw [multi_cons]
    cases hw : w.ofLists with
    | false =>
      have hsame : SameLists s (s.multi [w]) := multi_lists fun v hv => by
        rw [List.mem_singleton.mp hv]
        exact hw
      have hpending : (w.apply s).driverPendingDispatches = s.driverPendingDispatches := hsame.pending
      rw [hpending] at hsub hkeep
      exact ⟨hactive.trans hsame.active, hcustomer.trans hsame.customer, hsub, hkeep⟩
    | true =>
      obtain rfl := h w List.mem_cons_self hw
      have hmem : ∀ d' r', r' ∈ (Write.apply s (.sremPending d r)).driverPendingDispatches d' ↔
          r' ∈ s.driverPendingDispatches d' ∧ ¬ (d' = d ∧ r' = r) := by
        intro d' r'
        exact mem_put_srem
      refine ⟨hactive, hcustomer, fun d' r' hr => ((hmem d' r').mp (hsub d' r' hr)).1, fun d' r' hne hr => ?_⟩
      exact hkeep d' r' hne ((hmem d' r').mpr ⟨hr, fun heq => hne heq.2⟩)

theorem releaseWrites_driver {active : Option RideId} : ∀ w ∈ releaseWrites d r hash active heartbeatExists now,
    w.ofLedger = false ∧ w.ofReservations = false ∧ (w.ofLists = true → w = .sremPending d r) ∧
      ∀ d', w.driver = some d' → d' = d := by
  intro w hw
  simp only [releaseWrites, List.mem_append, List.mem_cons, List.not_mem_nil, or_false] at hw
  rcases hw with ((rfl | rfl) | hw) | hw
  · simp [Write.ofLedger, Write.ofReservations, Write.ofLists, Write.driver, eq_comm]
  · simp [Write.ofLedger, Write.ofReservations, Write.ofLists, Write.driver]
  · split_ifs at hw
    · obtain rfl := List.mem_singleton.mp hw
      simp [Write.ofLedger, Write.ofReservations, Write.ofLists, Write.driver, eq_comm]
    · cases hw
  · revert hw
    split_ifs
    · simp only [List.mem_singleton]
      rintro rfl
      simp [Write.ofLedger, Write.ofReservations, Write.ofLists, Write.driver, eq_comm]
    · rw [List.mem_append]
      rintro (hw | hw)
      · simp only [List.mem_cons, List.not_mem_nil, or_false] at hw
        rcases hw with rfl | rfl | rfl <;>
          simp [Write.ofLedger, Write.ofReservations, Write.ofLists, Write.driver, eq_comm]
      · split at hw
        · obtain rfl := List.mem_singleton.mp hw
          simp [Write.ofLedger, Write.ofReservations, Write.ofLists, Write.driver, eq_comm]
        · cases hw

/-- The driver of a ride is released: it is on no ride any more. -/
theorem Stand.releaseDriver (h : Stand strict X L L₁ O L₃ s) (hclosed : L.Closed r)
    (hon : L₁.Assigned r d) (hd : ∀ r', L'.Assigned r' d ↔ L₁.Assigned r' d ∧ r' ≠ r)
    (hother : ∀ d', d' ≠ d → ∀ r', L₁.Assigned r' d' ↔ L'.Assigned r' d') :
    Stand strict X L L' O L₃
      (s.multi (releaseWrites d r hash (s.driverActiveRide d) heartbeatExists now)) := by
  have hw := @releaseWrites_driver r d now hash heartbeatExists (s.driverActiveRide d)
  generalize hws : releaseWrites d r hash (s.driverActiveRide d) heartbeatExists now = ws at hw
  have hledger : (s.multi ws).ledger = s.ledger := multi_ledger fun w hmem => (hw w hmem).1
  have hlocks : (s.multi ws).locks = s.locks := multi_reservations fun w hmem => (hw w hmem).2.1
  obtain ⟨hactive, hcustomer, hsub, hkeep⟩ := multi_pending (s := s) fun w hmem => (hw w hmem).2.2.1
  have hfit : Fit (fun r' => L'.Assigned r' d) (ws.foldl DriverKeys.update (s.keys d)) := by
    rw [← hws]
    exact ((h.pools.fit d).release hon).congr fun r' => (hd r').symm
  have hapart : Apart r s (s.multi ws) := by
    refine ⟨?_, multi_clock.symm.le, multi_nextSeq.symm.le, fun _ _ _ _ _ _ hs => hs.of_locks hlocks,
      fun r' d' hne hp => hkeep d' r' hne hp⟩
    rw [hledger]
    exact Ledger.EqOff.refl
  have hlive : ∀ b d', ¬ LiveOffer (s.multi ws) r b d' := by
    intro b d' hl
    have hopen := hl.toOpen
    rw [hledger, h.ledger] at hopen
    exact hopen.not_closed hclosed
  exact
    { ledger := hledger.trans h.ledger
      sane := by rw [multi_nextSeq]; exact h.sane
      pools := h.pools.driver (fun w hmem => (hw w hmem).2.2.2) hfit hother
      reserved := h.reserved.of_locks hlocks
      listed :=
        { active := fun r' => by rw [hactive]; exact h.listed.active r'
          customer := fun c r' hc => by rw [hcustomer] at hc; exact h.listed.customer c r' hc
          pending := fun d' r' hp => h.listed.pending d' r' (hsub d' r' hp) }
      offered := fun hx => by
        refine (h.offered hx).apart hapart (fun b d' hl => absurd hl (hlive b d'))
          (fun b d' hl => absurd hl (hlive b d')) (fun b d' hr => ?_) fun hn => ?_
        · rw [show (s.multi ws).rideResponses = s.rideResponses from congrArg Ledger.responses hledger] at hr
          exact ((h.offered hx).drawn r b d' hr).trans_eq multi_nextSeq.symm
        · rw [show (s.multi ws).ride = s.ride from congrArg Ledger.ride hledger]
          exact hn }

theorem persistWrites_driver : ∀ w ∈ persistWrites env d state,
    w.ofLedger = false ∧ w.ofReservations = false ∧ w.ofLists = false ∧
      ∀ d', w.driver = some d' → d' = d := by
  intro w hw
  simp only [persistWrites, List.mem_append, List.mem_cons, List.not_mem_nil, or_false] at hw
  rcases hw with ((rfl | rfl | rfl) | hw) | hw
  · simp [Write.ofLedger, Write.ofReservations, Write.ofLists, Write.driver, eq_comm]
  · simp [Write.ofLedger, Write.ofReservations, Write.ofLists, Write.driver, eq_comm]
  · simp [Write.ofLedger, Write.ofReservations, Write.ofLists, Write.driver]
  · revert hw
    split_ifs
    all_goals
      simp only [List.mem_append, List.mem_cons, List.not_mem_nil, or_false]
    · rintro ((rfl | rfl) | hw)
      · simp [Write.ofLedger, Write.ofReservations, Write.ofLists, Write.driver, eq_comm]
      · simp [Write.ofLedger, Write.ofReservations, Write.ofLists, Write.driver, eq_comm]
      · split at hw
        · obtain rfl := List.mem_singleton.mp hw
          simp [Write.ofLedger, Write.ofReservations, Write.ofLists, Write.driver, eq_comm]
        · cases hw
    all_goals
      rintro (rfl | rfl | rfl) <;>
        simp [Write.ofLedger, Write.ofReservations, Write.ofLists, Write.driver, eq_comm]
  · split at hw <;> (obtain rfl := List.mem_singleton.mp hw) <;>
      simp [Write.ofLedger, Write.ofReservations, Write.ofLists, Write.driver, eq_comm]

/-- What a MULTI about driver `d` leaves when it may delete the reservation of `d`. -/
theorem multi_delReservation (h : ∀ w ∈ ws, w.ofReservations = true → w = .delReservation d) :
    (∀ k lease, (s.multi ws).locks k = some lease → s.locks k = some lease) ∧
      ∀ k, k ≠ .reservation d → (s.multi ws).locks k = s.locks k := by
  induction ws generalizing s with
  | nil => exact ⟨fun _ _ => id, fun _ _ => rfl⟩
  | cons w ws ih =>
    obtain ⟨hsub, hkeep⟩ := @ih (w.apply s) fun v hv => h v (List.mem_cons_of_mem _ hv)
    rw [multi_cons]
    cases hw : w.ofReservations with
    | false =>
      have hlocks : (s.multi [w]).locks = s.locks := multi_reservations fun v hv => by
        rw [List.mem_singleton.mp hv]
        exact hw
      have happly : (w.apply s).locks = s.locks := hlocks
      rw [happly] at hsub hkeep
      exact ⟨hsub, hkeep⟩
    | true =>
      obtain rfl := h w List.mem_cons_self hw
      refine ⟨fun k lease hk => ?_, fun k hne => (hkeep k hne).trans (put_of_ne hne)⟩
      have hput : put s.locks (.reservation d) none k = some lease := hsub k lease hk
      rw [put_apply] at hput
      split_ifs at hput
      exact hput

/-- A MULTI on the keys of one driver. -/
theorem Stand.driver (h : Stand strict X L L₁ O L₃ s) (hsub : ∀ d r, X d r → Y d r)
    (hw : ∀ w ∈ ws, w.ofLedger = false ∧ (w.ofReservations = true → w = .delReservation d) ∧
      w.ofLists = false ∧ ∀ d', w.driver = some d' → d' = d)
    (hfit : Fit (fun r => L₁.Assigned r d) (ws.foldl DriverKeys.update (s.keys d)))
    (hlive : strict → ∀ r b, LiveOffer s r b d → ¬ Y d r →
      (s.multi ws).locks (.reservation d) = s.locks (.reservation d))
    (hknown : strict → ∀ d r, Y d r → (L.ride r).status ≠ none) :
    Stand strict Y L L₁ O L₃ (s.multi ws) := by
  have hledger : (s.multi ws).ledger = s.ledger := multi_ledger fun w hmem => (hw w hmem).1
  have hlists : SameLists s (s.multi ws) := multi_lists fun w hmem => (hw w hmem).2.2.1
  obtain ⟨hlocks, hkeep⟩ := multi_delReservation (s := s) fun w hmem => (hw w hmem).2.1
  have hride : (s.multi ws).ride = s.ride := congrArg Ledger.ride hledger
  have hearlier : ∀ {r b d'}, LiveOffer (s.multi ws) r b d' → LiveOffer s r b d' := by
    intro r b d' hl
    refine ⟨?_, ?_⟩
    · rw [← hledger]
      exact hl.toOpen
    · have htime := hl.time
      rw [multi_clock, hride] at htime
      exact htime
  exact
    { ledger := hledger.trans h.ledger
      sane := by rw [multi_nextSeq]; exact h.sane
      pools := h.pools.driver (fun w hmem => (hw w hmem).2.2.2) hfit fun _ _ _ => Iff.rfl
      reserved := fun d' r b hheld => by
        obtain ⟨lease, hlease, htoken⟩ := Option.map_eq_some_iff.mp hheld
        exact h.reserved d' r b (Option.map_eq_some_iff.mpr ⟨lease, hlocks _ _ hlease, htoken⟩)
      listed := h.listed.same hlists
      offered := fun hx =>
        { secured := fun r b d' hl hy => by
            obtain ⟨lease, hlease, htoken, he⟩ :=
              (h.offered hx).secured r b d' (hearlier hl) fun hxd => hy (hsub d' r hxd)
            refine ⟨lease, ?_, htoken, by rw [hride]; exact he⟩
            rcases eq_or_ne d' d with rfl | hne
            · rw [hlive hx r b (hearlier hl) hy, hlease]
            · rw [hkeep _ fun heq => hne (LockKey.reservation.inj heq), hlease]
          pending := fun r b d' hl => by
            rw [hlists.pending]
            exact (h.offered hx).pending r b d' (hearlier hl)
          drawn := fun r b d' hr => by
            rw [show (s.multi ws).rideResponses = s.rideResponses from congrArg Ledger.responses hledger] at hr
            exact ((h.offered hx).drawn r b d' hr).trans_eq multi_nextSeq.symm
          known := fun d' r hy => by
            rw [hride, h.ride]
            exact hknown hx d' r hy } }

theorem Stand.persist (h : Stand strict X L L₁ O L₃ s) (hride : state.activeRideId = s.driverActiveRide d)
    (hstatus : state.status = if s.driverActiveRide d = none then .online else .busy) :
    Stand strict X L L₁ O L₃ (s.multi (persistWrites env d state)) := by
  have hw := @persistWrites_driver d env state
  have hlocks : (s.multi (persistWrites env d state)).locks = s.locks :=
    multi_reservations fun w hmem => (hw w hmem).2.1
  refine h.driver (fun _ _ => id) (fun w hmem => ?_) ((h.pools.fit d).persist hride hstatus)
    (fun _ _ _ _ _ => by rw [hlocks]) fun hx d' r hy => ?_
  · obtain ⟨hledger, hres, hlists, hdriver⟩ := hw w hmem
    have hnone : w.ofReservations = true → w = .delReservation d := by
      intro hr
      rw [hres] at hr
      cases hr
    exact ⟨hledger, hnone, hlists, hdriver⟩
  · have hk := (h.offered hx).known d' r hy
    rw [h.ride] at hk
    exact hk

theorem Stand.offline (h : Stand strict X L L₁ O L s) :
    Stand strict (fun d' r => X d' r ∨ d' = d ∧ r ∈ s.driverPendingDispatches d) L L₁ O L
      (s.multi (offlineWrites d existing (s.driverActiveRide d) now)) := by
  refine h.driver (fun _ _ => Or.inl) (fun w hmem => ?_) (h.pools.fit d).offline
    (fun hx r b hl hy => ?_) fun hx d' r hy => ?_
  · simp only [offlineWrites, List.mem_cons, List.not_mem_nil, or_false] at hmem
    rcases hmem with rfl | rfl | rfl | rfl | rfl | rfl | rfl <;>
      simp [Write.ofLedger, Write.ofReservations, Write.ofLists, Write.driver, eq_comm]
  · exact absurd (Or.inr ⟨rfl, (h.offered hx).pending r b d hl⟩) hy
  · rcases hy with hy | ⟨-, hy⟩
    · have hk := (h.offered hx).known d' r hy
      rw [h.ride] at hk
      exact hk
    · obtain ⟨⟨b, ho, -⟩, -⟩ := h.listed.pending d r hy
      exact ho.underway.ne_none

theorem Stand.ghost (h : Stand strict X L L₁ O L₃ s) (hstatus : (s.driverHash d).status ≠ some .busy)
    (hfair : strict → ∀ r b, ¬ LiveOffer s r b d) :
    Stand strict X L L₁ O L₃ (s.multi [.srem .available d, .srem .busy d, .srem .online d, .zremGeo d,
      .delHeartbeat d, .delReservation d]) := by
  refine h.driver (fun _ _ => id) (fun w hmem => ?_) ((h.pools.fit d).ghost hstatus)
    (fun hx r b hl => absurd hl (hfair hx r b)) fun hx d' r hy => ?_
  · simp only [List.mem_cons, List.not_mem_nil, or_false] at hmem
    rcases hmem with rfl | rfl | rfl | rfl | rfl | rfl <;>
      simp [Write.ofLedger, Write.ofReservations, Write.ofLists, Write.driver, eq_comm]
  · have hk := (h.offered hx).known d' r hy
    rw [h.ride] at hk
    exact hk

/-- The ledger after the accept script. -/
def Ledger.accept (L : Ledger) (r : RideId) (d : DriverId) (acceptedAt : Time) : Ledger :=
  { L with
    ride := put L.ride r ((L.ride r).accept d acceptedAt)
    responses := put L.responses r (put (L.responses r) d (some .accepted)) }

theorem acceptRideGuard_reservation {acceptedAt : Time} {reservation : Option Token}
    (h : acceptRideGuard r d acceptedAt reservation s = 0) :
    (s.locks (.reservation d)).map Lease.token = reservation := by
  unfold acceptRideGuard at h
  cases hb : (s.ride r).currentBatchId with
  | none =>
    simp only [hb] at h
    split_ifs at h
  | some batchId =>
    simp only [hb] at h
    split_ifs at h with h₁ h₂ h₃ h₄ h₅ h₆ h₇ h₈
    push Not at h₇
    exact h₇.2

theorem keys_accept {acceptedAt : Time} : (acceptRideCommit r d acceptedAt s).keys d =
    { s.keys d with
      status := some .busy, hashRide := some r, activeRide := some r, available := false
      busy := true, geo := false } := by
  have hgeo : ((s.availableDriversGeo.filter (·.1 ≠ d)).any fun p => p.1 = d) = false := by
    rw [any_zrem]
    simp
  have hsrem : d ∉ srem d (s.driverSet .available) := fun hmem => (mem_srem.mp hmem).2 rfl
  have hsadd : d ∈ sadd d (s.driverSet .busy) := mem_sadd.mpr (Or.inl rfl)
  unfold Store.keys acceptRideCommit
  simp only [hgeo]
  simp [put_apply, hsrem, hsadd, DriverHash.hset, DriverHash.setField]

theorem keys_accept_of_ne {acceptedAt : Time} {d' : DriverId} (hne : d' ≠ d) :
    (acceptRideCommit r d acceptedAt s).keys d' = s.keys d' := by
  have hgeo : ((s.availableDriversGeo.filter (·.1 ≠ d)).any fun p => p.1 = d') =
      s.availableDriversGeo.any fun p => p.1 = d' := by
    rw [any_zrem]
    simp [hne]
  unfold Store.keys acceptRideCommit
  simp only [hgeo]
  simp [put_apply, hne]

/-- The accept script, when its guards pass: the driver of a live offer is on the ride. -/
theorem Stand.accept {acceptedAt : Time} {reservation : Option Token} (h : Even strict X L s)
    (hguard : acceptRideGuard r d acceptedAt reservation s = 0)
    (hreservation : reservation = (L.ride r).currentBatchId.map fun b => Token.reservation r b) :
    Stand strict X (L.accept r d acceptedAt) (L.accept r d acceptedAt)
      (fun r' b' d' => L.Offers r' b' d' ∧ d' ≠ d)
      (L.answer r (put (L.responses r) d (some .accepted))) (acceptRideCommit r d acceptedAt s) := by
  obtain ⟨hst, hdriver, b, hb, hresp, hnotified, honline, hactive⟩ := acceptRideGuard_eq_zero hguard
  have htoken : (s.locks (.reservation d)).map Lease.token = some (.reservation r b) := by
    rw [acceptRideGuard_reservation hguard, hreservation, ← h.ride, hb]
    rfl
  rw [h.ride] at hst hdriver hb
  -- the script lets a pointer to this very ride pass; an online driver has none at all
  have hnone : s.driverActiveRide d = none := (h.pools.fit d).online honline
  have hoff : Ledger.EqOff r L (L.accept r d acceptedAt) :=
    ⟨fun _ hne => put_of_ne hne, fun _ _ => rfl, fun _ hne => put_of_ne hne⟩
  have hride : (L.accept r d acceptedAt).ride r = (L.ride r).accept d acceptedAt := put_self
  have hledger : (acceptRideCommit r d acceptedAt s).ledger = L.accept r d acceptedAt := by
    obtain rfl : s.ledger = L := h.ledger
    rfl
  -- the script clears the batch, so no offer of this ride is left
  have hclosed : (L.accept r d acceptedAt).Closed r := Or.inr (by rw [hride]; rfl)
  have hassigned : ∀ r' d', (L.accept r d acceptedAt).Assigned r' d' ↔
      L.Assigned r' d' ∨ r' = r ∧ d' = d := by
    intro r' d'
    rcases eq_or_ne r' r with rfl | hne
    · unfold Ledger.Assigned
      rw [hride, hst]
      simp [RideHash.accept, RideStatus.live, eq_comm]
    · rw [hoff.assigned hne]
      simp [hne]
  have hpending : ∀ d' r', r' ∈ (acceptRideCommit r d acceptedAt s).driverPendingDispatches d' ↔
      r' ∈ s.driverPendingDispatches d' ∧ ¬ (d' = d ∧ r' = r) := by
    intro d' r'
    exact mem_put_srem
  have hlocks : ∀ d', d' ≠ d →
      (acceptRideCommit r d acceptedAt s).locks (.reservation d') = s.locks (.reservation d') :=
    fun d' hne => put_of_ne fun heq => hne (LockKey.reservation.inj heq)
  have hapart : Apart r s (acceptRideCommit r d acceptedAt s) :=
    { ledger := by rw [h.ledger, hledger]; exact hoff
      clock := le_rfl
      seq := le_rfl
      secured := fun r' b' d' e hne _ hs => by
        obtain ⟨lease, hlease, ht, he⟩ := hs
        -- the driver's reservation was one for this ride, so no other ride loses its own
        have hd : d' ≠ d := by
          rintro rfl
          rw [hlease] at htoken
          have heq : lease.token = .reservation r b := Option.some.inj htoken
          rw [ht] at heq
          exact hne (Token.reservation.inj heq).1
        exact ⟨lease, (hlocks d' hd).trans hlease, ht, he⟩
      pending := fun r' d' hne hp => (hpending d' r').mpr ⟨hp, fun heq => hne heq.2⟩ }
  have hlive : ∀ b' d', ¬ LiveOffer (acceptRideCommit r d acceptedAt s) r b' d' := by
    intro b' d' hl
    have hopen := hl.toOpen
    rw [hledger] at hopen
    exact hopen.not_closed hclosed
  exact
    { ledger := hledger
      sane := by
        refine h.sane.update hoff (fun _ => h.sane.fresh r (by rw [hst]; exact Option.some_ne_none _)) ?_ ?_ <;>
          (rw [hride]; intro hreq; cases hreq)
      pools :=
        { fit := fun d' => by
            rcases eq_or_ne d' d with rfl | hne
            · rw [keys_accept]
              have hother : ∀ r', ¬ L.Assigned r' d' := by
                intro r' hr'
                have hkey := ((h.pools.fit d').assigned r').mpr hr'
                have hkey' : s.driverActiveRide d' = some r' := hkey
                rw [hnone] at hkey'
                cases hkey'
              have hon : ∀ r', some r = some r' ↔ (L.accept r d' acceptedAt).Assigned r' d' := by
                intro r'
                rw [hassigned, Option.some.injEq]
                simp only [hother, false_or, and_true]
                exact eq_comm
              refine ⟨?_, ?_, ?_, ?_, ?_, rfl, hon⟩ <;> simp
            · rw [keys_accept_of_ne hne]
              exact (h.pools.fit d').congr fun r' => by
                rw [hassigned]
                simp [hne]
          nodup := h.pools.nodup.sublist (List.filter_sublist.map _) }
      reserved := fun d' r' b' hl => by
        have hd : d' ≠ d := by
          rintro rfl
          have hgone : (acceptRideCommit r d' acceptedAt s).locks (.reservation d') = none := put_self
          rw [hgone] at hl
          cases hl
        rw [hlocks d' hd] at hl
        exact ⟨h.reserved d' r' b' hl, hd⟩
      listed :=
        { active := h.listed.active
          customer := h.listed.customer
          pending := fun d' r' hp => by
            obtain ⟨hp, hnot⟩ := (hpending d' r').mp hp
            obtain ⟨⟨b', ho, hawaited⟩, hn⟩ := h.listed.pending d' r' hp
            refine ⟨⟨b', ⟨ho.status, ho.batch, ho.mem⟩, ?_⟩, hn⟩
            show put L.responses r (put (L.responses r) d (some .accepted)) r' d' = _
            rcases eq_or_ne r' r with rfl | hne
            · have hd : d' ≠ d := fun heq => hnot ⟨heq, rfl⟩
              rw [put_self]
              exact (put_of_ne hd).trans hawaited
            · rw [put_of_ne hne, hawaited] }
      offered := fun hx => by
        refine (h.offered hx).apart hapart (fun b' d' hl => absurd hl (hlive b' d'))
          (fun b' d' hl => absurd hl (hlive b' d')) (fun b' d' hr => ?_) fun _ => ?_
        · have hr' : put (s.rideResponses r) d (some Response.accepted) d' = some (.pending b') := by
            rw [← hr]
            exact (congrFun put_self d').symm
          rw [put_apply] at hr'
          split_ifs at hr'
          · cases hr'
          · exact (h.offered hx).drawn r b' d' hr'
        · have hat : (acceptRideCommit r d acceptedAt s).ride r = (s.ride r).accept d acceptedAt := put_self
          rw [hat]
          exact Option.some_ne_none _ }

/-- The ledger after a ride was given back to dispatch. -/
def Ledger.requeue (L : Ledger) (r : RideId) (fields : List RideField) : Ledger :=
  { ride := put L.ride r ((L.ride r).hset fields)
    notified := put L.notified r []
    responses := put L.responses r fun _ => none }

theorem Stand.requeue (h : Stand strict X L (L.requeue r (requeueFields env (L.ride r) now)) L.Offers L s)
    (hst : (L.ride r).status ≠ none) (hover : L.Underway r) (hnot : (L.ride r).status ≠ some .dispatching) :
    Even strict X (L.requeue r (requeueFields env (L.ride r) now))
      (s.multi [.delNotified r, .delResponses r, .hsetRide r (requeueFields env (L.ride r) now),
        .expireRide r]) := by
  have hoff : Ledger.EqOff r L (L.requeue r (requeueFields env (L.ride r) now)) :=
    ⟨fun _ hne => put_of_ne hne, fun _ hne => put_of_ne hne, fun _ hne => put_of_ne hne⟩
  have hfields : ((L.requeue r (requeueFields env (L.ride r) now)).ride r).status = some .dispatching ∧
      ((L.requeue r (requeueFields env (L.ride r) now)).ride r).driverId = none ∧
      ((L.requeue r (requeueFields env (L.ride r) now)).ride r).currentBatchId = none ∧
      ((L.requeue r (requeueFields env (L.ride r) now)).ride r).customerId = (L.ride r).customerId := by
    rw [show (L.requeue r (requeueFields env (L.ride r) now)).ride r =
      (L.ride r).hset (requeueFields env (L.ride r) now) from put_self]
    simp only [requeueFields, hset_cons, hset_nil, RideHash.setField, and_self]
  generalize hL' : L.requeue r (requeueFields env (L.ride r) now) = L' at h hoff hfields
  obtain ⟨hstatus, hdriver, hbatch, hcustomer⟩ := hfields
  generalize ht : s.multi [.delNotified r, .delResponses r, .hsetRide r (requeueFields env (L.ride r) now),
    .expireRide r] = t
  have hledger : t.ledger = L' := by
    obtain rfl : s.ledger = L := h.ledger
    rw [← ht, ← hL']
    rfl
  have hbeside : Beside s t := by
    rw [← ht]
    exact ⟨rfl, rfl, rfl, rfl, rfl, rfl, rfl, rfl, rfl⟩
  have hpending : t.driverPendingDispatches = s.driverPendingDispatches := by
    rw [← ht]
    rfl
  have hapart : Apart r s t := by
    apply hbeside.apart h.ledger hledger hoff
    intro r' d' _ hp
    rw [hpending]
    exact hp
  -- the batch is cleared, so nothing is on offer
  have hlive : ∀ b' d', ¬ LiveOffer t r b' d' := by
    intro b' d' hl
    have hopen := hl.toOpen
    rw [hledger] at hopen
    exact hopen.not_closed (Or.inr hbatch)
  have hunderway : L'.Underway r ↔ L.Underway r := by
    refine iff_of_true ?_ hover
    unfold Ledger.Underway
    rw [hstatus]
    rfl
  exact
    { ledger := hledger
      sane := by
        rw [hbeside.seq]
        refine h.sane.update hoff (fun _ => h.sane.fresh r hst) ?_ fun _ => hdriver
        rw [hstatus]
        intro hreq
        cases hreq
      pools := h.pools.beside hbeside
      reserved := (h.reserved.of_locks hbeside.locks).mono fun r' b' d' ho => by
        have hne : r' ≠ r := by
          rintro rfl
          exact hnot ho.status
        exact hoff.offers hne ho
      listed := by
        refine h.listed.beside hbeside hoff hunderway hcustomer fun d' r' hp => ?_
        rw [hpending] at hp
        have ha := h.listed.pending d' r' hp
        have hne : r' ≠ r := by
          rintro rfl
          obtain ⟨⟨b', ho, -⟩, -⟩ := ha
          exact hnot ho.status
        exact hoff.awaits hne ha
      offered := fun hx => by
        refine (h.offered hx).apart hapart (fun b' d' hl => absurd hl (hlive b' d'))
          (fun b' d' hl => absurd hl (hlive b' d')) (fun b' d' hr => ?_) fun _ => ?_
        · have hgone : t.rideResponses r = fun _ => none := by
            rw [show t.rideResponses = L'.responses from congrArg Ledger.responses hledger, ← hL']
            exact put_self
          rw [hgone] at hr
          cases hr
        · rw [show t.ride = L'.ride from congrArg Ledger.ride hledger, hstatus]
          exact Option.some_ne_none _ }

end drivers

/-- A new ride, listed as active and named by its customer's pointer. -/
theorem Stand.create {payload : RideHash} (h : Even strict X L s) (hnew : (L.ride r).status = none)
    (hfresh : r.seq < s.nextSeq) (hst : payload.status = some .requested)
    (hdriver : payload.driverId = none) (hbatch : payload.currentBatchId = none) :
    Even strict X { L with ride := put L.ride r payload }
      (s.multi [.createRide r payload, .setCustomerActiveRide payload.customerId r, .saddActiveRide r,
        .expireRide r]) := by
  generalize hL' : ({ L with ride := put L.ride r payload } : Ledger) = L'
  have hoff : Ledger.EqOff r L L' := by
    rw [← hL']
    exact ⟨fun _ hne => put_of_ne hne, fun _ _ => rfl, fun _ _ => rfl⟩
  have hride : L'.ride r = payload := by
    rw [← hL']
    exact put_self
  generalize ht : s.multi [.createRide r payload, .setCustomerActiveRide payload.customerId r,
    .saddActiveRide r, .expireRide r] = t
  have hledger : t.ledger = L' := by
    obtain rfl : s.ledger = L := h.ledger
    rw [← ht, ← hL']
    rfl
  have hactive : t.activeRides = sadd r s.activeRides := by
    rw [← ht]
    rfl
  have hcustomer : t.customerActiveRide = put s.customerActiveRide payload.customerId (some r) := by
    rw [← ht]
    rfl
  have hsame : t.clock = s.clock ∧ t.nextSeq = s.nextSeq ∧ t.locks = s.locks ∧
      t.driverPendingDispatches = s.driverPendingDispatches := by
    rw [← ht]
    exact ⟨rfl, rfl, rfl, rfl⟩
  obtain ⟨hclock, hseq, hlocks, hpending⟩ := hsame
  have hpools : Pools L t := by
    rw [← ht]
    exact ⟨h.pools.fit, h.pools.nodup⟩
  have hapart : Apart r s t :=
    { ledger := by rw [h.ledger, hledger]; exact hoff
      clock := hclock.symm.le
      seq := hseq.symm.le
      secured := fun _ _ _ _ _ _ hs => hs.of_locks hlocks
      pending := fun r' d' _ hp => by rw [hpending]; exact hp }
  have hlive : ∀ b' d', ¬ LiveOffer t r b' d' := by
    intro b' d' hl
    have hopen := hl.toOpen
    rw [hledger] at hopen
    refine hopen.not_closed (Or.inr ?_)
    rw [hride, hbatch]
  -- no list, pointer or reservation can name a ride whose id was not drawn yet
  have hnotUnder : ¬ L.Underway r := fun hu => hu.ne_none hnew
  have hunder : L'.Underway r := by
    unfold Ledger.Underway
    rw [hride, hst]
    rfl
  have hassigned : ∀ r' d, L.Assigned r' d ↔ L'.Assigned r' d := by
    intro r' d
    rcases eq_or_ne r' r with rfl | hne
    · refine iff_of_false (fun ha => ha.ne_none hnew) ?_
      rintro ⟨hd, -⟩
      rw [hride, hdriver] at hd
      cases hd
    · exact (hoff.assigned hne).symm
  exact
    { ledger := hledger
      sane := by
        rw [hseq]
        refine h.sane.update hoff (fun _ => hfresh) (fun _ => by rw [hride]; exact ⟨hdriver, hbatch⟩) fun hd => ?_
        rw [hride]
        exact hdriver
      pools := hpools.congr hassigned
      reserved := (h.reserved.of_locks hlocks).mono fun r' b' d' ho => by
        have hne : r' ≠ r := by
          rintro rfl
          exact hnotUnder ho.underway
        exact hoff.offers hne ho
      listed :=
        { active := fun r' => by
            rw [hactive, mem_sadd, h.listed.active r']
            rcases eq_or_ne r' r with rfl | hne
            · exact ⟨fun _ => hunder, fun _ => Or.inl rfl⟩
            · rw [hoff.underway hne]
              exact or_iff_right hne
          customer := fun c r' hc => by
            rw [hcustomer, put_apply] at hc
            split_ifs at hc with heq
            · obtain rfl : r = r' := Option.some.inj hc
              exact ⟨hunder, by rw [hride, heq]⟩
            · obtain ⟨hu, hcust⟩ := h.listed.customer c r' hc
              have hne : r' ≠ r := by
                rintro rfl
                exact hnotUnder hu
              exact ⟨(hoff.underway hne).mpr hu, by rw [hoff.ride r' hne]; exact hcust⟩
          pending := fun d' r' hp => by
            rw [hpending] at hp
            have ha := h.listed.pending d' r' hp
            have hne : r' ≠ r := by
              rintro rfl
              obtain ⟨⟨b', ho, -⟩, -⟩ := ha
              exact hnotUnder ho.underway
            exact hoff.awaits hne ha }
      offered := fun hx => by
        refine (h.offered hx).apart hapart (fun b' d' hl => absurd hl (hlive b' d'))
          (fun b' d' hl => absurd hl (hlive b' d')) (fun b' d' hr => ?_) fun hn => ?_
        · have hsame : t.rideResponses = s.rideResponses := by
            rw [← ht]
            rfl
          rw [hsame] at hr
          rw [hseq]
          exact (h.offered hx).drawn r b' d' hr
        · rw [h.ride] at hn
          exact absurd hnew hn }

end YatriGo
