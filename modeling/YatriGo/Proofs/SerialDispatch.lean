import Mathlib.Data.List.Sort
import YatriGo.Proofs.SerialRides

/-! Dispatch run alone: drivers are reserved one by one, and then the search goes on, is
given up, or a batch is sent. -/

namespace YatriGo
open Concurrent

variable {env : Env} {strict : Prop} {i : ℕ} {m : Around} {α β : Type}
  {Q : Except AppError α → Assertion} {X : DriverId → RideId → Prop} {L L' : Ledger}
  {O : RideId → BatchId → DriverId → Prop} {s t : Store} {r : RideId} {d : DriverId} {b : BatchId}
  {ds rest reserved : List DriverId} {now : Time}

theorem LiveOffer.offerLive (h : LiveOffer s r b d) : offerLive s r d = true := by
  have hbatch : (s.ride r).currentBatchId = some b := h.batch
  have hresponse : s.rideResponses r d = some (.pending b) := h.response
  have hstatus : (s.ride r).status = some .dispatching := h.status
  simp [YatriGo.offerLive, hbatch, hresponse, hstatus, h.time]

/-- A driver whose reservation is free is reserved. -/
theorem Stand.reserve {e : Time} (h : Stand strict X L L O L s) (hfree : s.locks (.reservation d) = none) :
    Stand strict X L L (fun r' b' d' => O r' b' d' ∨ r' = r ∧ b' = b ∧ d' = d) L
      { s with locks := put s.locks (.reservation d) (some ⟨.reservation r b, e⟩) } where
  ledger := h.ledger
  sane := h.sane
  pools := ⟨h.pools.fit, h.pools.nodup⟩
  reserved := fun d' r' b' hl => by
    rcases eq_or_ne d' d with rfl | hne
    · have hself : (put s.locks (.reservation d') (some ⟨.reservation r b, e⟩) (.reservation d')).map
          Lease.token = some (.reservation r' b') := hl
      rw [put_self] at hself
      obtain ⟨rfl, rfl⟩ := Token.reservation.inj (Option.some.inj hself)
      exact Or.inr ⟨rfl, rfl, rfl⟩
    · have hother : (put s.locks (.reservation d) (some ⟨.reservation r b, e⟩) (.reservation d')).map
          Lease.token = some (.reservation r' b') := hl
      rw [put_of_ne fun heq => hne (LockKey.reservation.inj heq)] at hother
      exact Or.inl (h.reserved d' r' b' hother)
  listed := h.listed.same ⟨rfl, rfl, rfl⟩
  offered := fun hx =>
    { secured := fun r' b' d' hl hxd => by
        obtain ⟨lease, hlease, htoken, he⟩ := (h.offered hx).secured r' b' d' ⟨hl.toOpen, hl.time⟩ hxd
        have hne : d' ≠ d := by
          rintro rfl
          rw [hfree] at hlease
          cases hlease
        exact ⟨lease, (put_of_ne fun heq => hne (LockKey.reservation.inj heq)).trans hlease, htoken, he⟩
      pending := fun r' b' d' hl => (h.offered hx).pending r' b' d' ⟨hl.toOpen, hl.time⟩
      drawn := (h.offered hx).drawn
      known := (h.offered hx).known }

/-- Batch `b` of ride `r` is being put together: `reserved` so far, from `rest` on. -/
structure Reserving (env : Env) (strict : Prop) (X : DriverId → RideId → Prop) (L : Ledger) (r : RideId)
    (b : BatchId) (now : Time) (rest reserved : List DriverId) (s : Store) : Prop where
  stand : Stand strict X L L (L.OffersOr r b reserved) L s
  seq : b.seq < s.nextSeq
  secured : strict → ∀ d ∈ reserved, Secured s r b d (now + env.dispatch.responseTtlMs)
  idle : ∀ d ∈ rest, (s.driverHash d).status ≠ some .busy
  nodup : rest.Nodup
  apart : ∀ d ∈ rest, d ∉ reserved

def reserving (env : Env) (strict : Prop) (X : DriverId → RideId → Prop) (L : Ledger) (r : RideId)
    (b : BatchId) (now : Time) (rest reserved : List DriverId) : Assertion where
  holds := Reserving env strict X L r b now rest reserved
  steady := fun hst h =>
    { stand := h.stand.still hst
      seq := h.seq.trans_le hst.seq
      secured := fun hx d hd => by
        obtain ⟨lease, hlease, hrest⟩ := h.secured hx d hd
        exact ⟨lease, by rw [hst.reservations, hlease], hrest⟩
      idle := fun d hd => by rw [hst.driverHash]; exact h.idle d hd
      nodup := h.nodup
      apart := h.apart }

theorem Reserving.tail (h : Reserving env strict X L r b now (d :: rest) reserved s) :
    Reserving env strict X L r b now rest reserved s :=
  { h with
    idle := fun d' hd => h.idle d' (List.mem_cons_of_mem _ hd)
    nodup := (List.nodup_cons.mp h.nodup).2
    apart := fun d' hd => h.apart d' (List.mem_cons_of_mem _ hd) }

/-- The cleanup of the next candidate, when its heartbeat or its hash is gone. -/
theorem Reserving.ghost (h : Reserving env strict X L r b now (d :: rest) reserved s)
    (hfair : strict → Cmd.fair s (.multi [.srem .available d, .srem .busy d, .srem .online d, .zremGeo d,
      .delHeartbeat d, .delReservation d]) = true) :
    Reserving env strict X L r b now (d :: rest) reserved
      (s.multi [.srem .available d, .srem .busy d, .srem .online d, .zremGeo d, .delHeartbeat d,
        .delReservation d]) where
  stand := by
    refine h.stand.ghost (h.idle d List.mem_cons_self) fun hx r' b' hl => ?_
    have hmem : r' ∈ s.driverPendingDispatches d := (h.stand.offered hx).pending r' b' d hl
    have hnot := List.all_eq_true.mp (hfair hx) r' hmem
    rw [hl.offerLive] at hnot
    cases hnot
  seq := by rw [multi_nextSeq]; exact h.seq
  secured := fun hx d' hd => by
    obtain ⟨lease, hlease, hrest⟩ := h.secured hx d' hd
    have hne : d' ≠ d := by
      rintro rfl
      exact h.apart d' List.mem_cons_self hd
    exact ⟨lease, (put_of_ne fun heq => hne (LockKey.reservation.inj heq)).trans hlease, hrest⟩
  idle := h.idle
  nodup := h.nodup
  apart := h.apart

theorem Reserving.reserve {e : Time} (h : Reserving env strict X L r b now (d :: rest) reserved s)
    (hfree : s.locks (.reservation d) = none) (he : strict → now + env.dispatch.responseTtlMs ≤ e) :
    Reserving env strict X L r b now rest (reserved ++ [d])
      { s with locks := put s.locks (.reservation d) (some ⟨.reservation r b, e⟩) } where
  stand := by
    refine h.stand.reserve hfree |>.relabel (fun _ _ => Iff.rfl) ?_ (fun _ => Iff.rfl) (fun _ => rfl)
      fun _ _ => id
    rintro r' b' d' ((ho | ⟨hr, hb, hd⟩) | ⟨hr, hb, hd⟩)
    · exact Or.inl ho
    · exact Or.inr ⟨hr, hb, List.mem_append_left _ hd⟩
    · exact Or.inr ⟨hr, hb, List.mem_append_right _ (List.mem_singleton.mpr hd)⟩
  seq := h.seq
  secured := fun hx d' hd => by
    rcases eq_or_ne d' d with rfl | hne
    · exact ⟨_, put_self, rfl, he hx⟩
    · have hmem : d' ∈ reserved := by
        rcases List.mem_append.mp hd with hd | hd
        · exact hd
        · exact absurd (List.mem_singleton.mp hd) hne
      obtain ⟨lease, hlease, hrest⟩ := h.secured hx d' hmem
      exact ⟨lease, (put_of_ne fun heq => hne (LockKey.reservation.inj heq)).trans hlease, hrest⟩
  idle := fun d' hd => h.idle d' (List.mem_cons_of_mem _ hd)
  nodup := (List.nodup_cons.mp h.nodup).2
  apart := fun d' hd hmem => by
    rcases List.mem_append.mp hmem with hmem | hmem
    · exact h.apart d' (List.mem_cons_of_mem _ hd) hmem
    · rw [List.mem_singleton.mp hmem] at hd
      exact (List.nodup_cons.mp h.nodup).1 hd

theorem gentle_getDriverState : Gentle (getDriverState d) := by
  have hread : Cmd.gentle (.hgetallDriver d) := trivial
  exact (Gentle.command hread).bind fun _ => Gentle.ret

theorem gentle_isDriverOnRejectCooldown : Gentle (isDriverOnRejectCooldown env d) := by
  unfold isDriverOnRejectCooldown
  have hread : Cmd.gentle (.pttlRejectCooldown d) := trivial
  split_ifs
  · exact Gentle.ret
  · exact (Gentle.command hread).bind fun _ => Gentle.ret

theorem leads_cleanupGhostAvailability {f : Unit → App α}
    (h : reserving env strict X L r b now (d :: rest) reserved s)
    (next : ∀ t, reserving env strict X L r b now (d :: rest) reserved t → Leads env strict i m Q (f ()) t) :
    Leads env strict i m Q ((cleanupGhostAvailability d).bind f) s := by
  have hghost : ∀ t, reserving env strict X L r b now (d :: rest) reserved t →
      (strict → Cmd.fair t (.multi [.srem .available d, .srem .busy d, .srem .online d, .zremGeo d,
        .delHeartbeat d, .delReservation d]) = true) →
      reserving env strict X L r b now (d :: rest) reserved (t.multi [.srem .available d, .srem .busy d,
        .srem .online d, .zremGeo d, .delHeartbeat d, .delReservation d]) :=
    fun t ht hfair => Reserving.ghost ht hfair
  simp only [cleanupGhostAvailability, redis, Prog.bind_eq, Prog.perform_bind]
  have hoffstage : ∀ w ∈ [Write.srem .available d, .srem .busy d, .srem .online d, .zremGeo d, .delHeartbeat d,
      .delReservation d], w.offstage := by
    intro w hw
    simp only [List.mem_cons, List.not_mem_nil, or_false] at hw
    rcases hw with rfl | rfl | rfl | rfl | rfl | rfl <;> trivial
  refine Leads.writes h hoffstage hghost fun t ht => ?_
  have hdoc : Cmd.gentle (.updateDriverDocStatus d .offline) := trivial
  exact Leads.quiet ht (Gentle.command hdoc) fun _ t ht => next t ht

theorem leads_isDriverReservable {f : Bool → App α}
    (h : reserving env strict X L r b now (d :: rest) reserved s)
    (next : ∀ v t, reserving env strict X L r b now (d :: rest) reserved t → Leads env strict i m Q (f v) t) :
    Leads env strict i m Q ((isDriverReservable env d).bind f) s := by
  have hactive : Cmd.gentle (.getDriverActiveRide d) := trivial
  have hreservation : Cmd.gentle (.getReservation d) := trivial
  have hheartbeat : Cmd.gentle (.existsHeartbeat d) := trivial
  unfold isDriverReservable
  simp only [Prog.bind_eq, Prog.bind_assoc]
  refine Leads.quiet h gentle_getDriverState fun driverState t ht => ?_
  refine Leads.quiet ht (Gentle.command hactive) fun activeRideId t ht => ?_
  refine Leads.quiet ht (Gentle.command hreservation) fun reservation t ht => ?_
  refine Leads.quiet ht (Gentle.command hheartbeat) fun heartbeatExists t ht => ?_
  refine Leads.quiet ht gentle_isDriverOnRejectCooldown fun rejectCooldown t ht => ?_
  cases driverState with
  | none =>
    simp only [Prog.bind_assoc]
    exact leads_cleanupGhostAvailability ht fun t ht => next false t ht
  | some driverState =>
    dsimp only
    split_ifs
    · exact next _ t ht
    · simp only [Prog.bind_assoc]
      exact leads_cleanupGhostAvailability ht fun t ht => next false t ht

/-- `reserveLoop`: when it returns, the drivers in the result are reserved. -/
theorem leads_reserveLoop (httl : strict → env.dispatch.responseTtlMs ≤ env.dispatch.reservationTtlMs)
    (hnow : now ≤ m.since) {f : List DriverId → App α}
    (h : reserving env strict X L r b now rest reserved s)
    (next : ∀ reserved t, reserving env strict X L r b now [] reserved t →
      Leads env strict i m Q (f reserved) t) :
    Leads env strict i m Q ((reserveLoop env r b rest reserved).bind f) s := by
  have hdone : ∀ {rest reserved t}, reserving env strict X L r b now rest reserved t →
      reserving env strict X L r b now [] reserved t := by
    intro rest reserved t ht
    exact ⟨ht.stand, ht.seq, ht.secured, fun _ hd => absurd hd List.not_mem_nil, List.nodup_nil,
      fun _ hd => absurd hd List.not_mem_nil⟩
  induction rest generalizing reserved s with
  | nil => exact next reserved s h
  | cons d rest ih =>
    simp only [reserveLoop, Prog.bind_eq, Prog.bind_assoc]
    refine leads_isDriverReservable h fun reservable t ht => ?_
    cases reservable with
    | false => exact ih (Reserving.tail ht)
    | true =>
      -- the batch with and without the driver, then on to the next or not
      have hgo : ∀ reserved t, reserving env strict X L r b now rest reserved t →
          Leads env strict i m Q ((if env.dispatch.batchSize ≤ reserved.length then
            (pure reserved : App (List DriverId)) else reserveLoop env r b rest reserved).bind f) t := by
        intro reserved t ht
        split_ifs
        · exact next reserved t (hdone ht)
        · exact ih ht
      refine Leads.cmd (c := .setNX (.reservation d) (.reservation r b) env.dispatch.reservationTtlMs)
        (fun k hk heq => ?_) trivial ht fun t ht _ => ?_
      · obtain rfl := Option.some.inj heq
        exact hk
      · refine Leads.within fun hm => ?_
        have hsince : m.since ≤ t.clock := hm.since.trans_eq exec_clock
        cases hlock : t.locks (.reservation d) with
        | some lease =>
          rw [exec_setNX_of_some hlock]
          exact hgo reserved t (Reserving.tail ht)
        | none =>
          rw [exec_setNX_of_none hlock]
          refine hgo (reserved ++ [d]) _ (Reserving.reserve ht hlock fun hx => ?_)
          exact Nat.add_le_add (hnow.trans hsince) (httl hx)

/-- The keys agree with the ride as it now is: no batch of it was open before. -/
theorem Stand.settle (h : Stand strict X L' L L.Offers L s) (hoff : Ledger.EqOff r L L')
    (hclosed : L.Closed r) (hunderway : L.Underway r ↔ L'.Underway r)
    (hassigned : ∀ d, L.Assigned r d ↔ L'.Assigned r d)
    (hcustomer : (L'.ride r).customerId = (L.ride r).customerId) : Even strict X L' s := by
  refine h.relabel (fun r' d => ?_) (fun r' b d ho => ?_) (fun r' => ?_) (fun r' => ?_) fun r' d ha => ?_
  · rcases eq_or_ne r' r with rfl | hne
    · exact hassigned d
    · exact (hoff.assigned hne).symm
  · have hne : r' ≠ r := by
      rintro rfl
      exact ho.not_closed hclosed
    exact hoff.offers hne ho
  · rcases eq_or_ne r' r with rfl | hne
    · exact hunderway
    · exact (hoff.underway hne).symm
  · rcases eq_or_ne r' r with rfl | hne
    · exact hcustomer
    · rw [hoff.ride r' hne]
  · have hne : r' ≠ r := by
      rintro rfl
      obtain ⟨⟨b, ho, -⟩, -⟩ := ha
      exact ho.not_closed hclosed
    exact hoff.awaits hne ha

/-- The end of a dispatch operation; a ride that is `known` is returned. -/
def served (strict : Prop) (X : DriverId → RideId → Prop) (known : Prop) :
    Except AppError (Option RideHash) → Assertion
  | .ok result => (settled strict X).with (known → result ≠ none)
  | .error _ => (settled strict X).with (¬ known)

section search

variable {known : Prop} {ride : RideHash} {nextRound dispatchRound : ℕ} {radius : ℚ}

theorem served_some (h : settled strict X s) : served strict X known (.ok (some ride)) s :=
  ⟨h, fun _ => Option.some_ne_none _⟩

theorem leads_expandSearch (h : even strict X L s) (hst : (L.ride r).status = some .dispatching)
    (hbatch : (L.ride r).currentBatchId = none) (hfollows : Follows env (L.ride r).origin radius) :
    Leads env strict i m (served strict X known)
      (expandSearch env r (L.ride r) nextRound radius now) s := by
  obtain ⟨hstatus, hdriver, hnone⟩ := @hset_expandFields (L.ride r) (L.ride r) nextRound radius now
  rw [hst] at hstatus
  have hknown : (L.ride r).status ≠ none := by rw [hst]; exact Option.some_ne_none _
  simp only [expandSearch, Prog.bind_eq]
  have hradius : ∀ v, .searchRadiusKm v ∈ expandFields (L.ride r) nextRound radius now → Follows env (L.ride r).origin v := by
    intro v hv
    simp only [expandFields, List.mem_cons, List.not_mem_nil, or_false, reduceCtorEq, RideField.searchRadiusKm.injEq,
      false_or] at hv
    rw [hv]
    exact hfollows
  refine leads_updateRideHash h hradius hknown (Or.inr (by rw [Ledger.hset_self, hnone])) ?_ (fun _ => ?_)
    fun t ht => ?_
  · rw [hstatus]
    decide
  · rw [hdriver]
    exact h.sane.dispatching r hst
  have ht : even strict X (L.hset r (expandFields (L.ride r) nextRound radius now)) t := by
    refine Stand.settle ht Ledger.EqOff.hset (Or.inr hbatch) ?_ (fun d => ?_) ?_
    · unfold Ledger.Underway
      rw [Ledger.hset_self, hstatus, hst]
    · unfold Ledger.Assigned
      rw [Ledger.hset_self, hstatus, hst, hdriver]
    · rw [Ledger.hset_self, hset_customerId]
  refine Leads.quiet ht gentle_appendTimelineEvent fun _ t ht => ?_
  refine Leads.quiet ht gentle_addJob fun _ t ht => ?_
  refine Leads.quiet ht gentle_addJob fun _ t ht => ?_
  exact Leads.ret (served_some ⟨_, ht⟩)

theorem leads_exhaustSearch (h : even strict X L s) (hst : (L.ride r).status = some .dispatching)
    (hbatch : (L.ride r).currentBatchId = none) :
    Leads env strict i m (served strict X known) (exhaustSearch r (L.ride r) now) s := by
  obtain ⟨hstatus, hdriver, -⟩ := @hset_exhaustFields (L.ride r) (L.ride r) now
  have hnone : (L.ride r).driverId = none := h.sane.dispatching r hst
  have hknown : (L.ride r).status ≠ none := by rw [hst]; exact Option.some_ne_none _
  have hover : (L.hset r (exhaustFields (L.ride r) now)).Closed r := by
    refine Or.inl ?_
    rw [Ledger.hset_self, hstatus]
    decide
  simp only [exhaustSearch, Prog.bind_eq]
  have hradius : ∀ v, .searchRadiusKm v ∈ exhaustFields (L.ride r) now → Follows env (L.ride r).origin v := by
    intro v hv
    simp [exhaustFields] at hv
  refine leads_updateRideHash h hradius hknown hover ?_ (fun heq => ?_) fun t ht => ?_
  · rw [hstatus]
    decide
  · rw [hstatus] at heq
    cases heq
  refine Leads.quiet ht gentle_appendTimelineEvent fun _ t ht => ?_
  rw [← Ledger.hset_self]
  refine leads_cleanup ht Ledger.EqOff.hset (Or.inr ?_) ?_ rfl (fun b d ho => ?_) (fun d => ?_) fun t ht => ?_
  · rw [Ledger.hset_self, hstatus]
  · rw [Ledger.hset_self, hset_customerId]
  · exact absurd (Or.inr hbatch) ho.not_closed
  · rw [Ledger.hset_self, hdriver, hnone]
    refine iff_of_false (fun ha => ?_) (Option.some_ne_none _).symm
    have hsome := ha.1
    rw [hnone] at hsome
    cases hsome
  refine Leads.quiet ht gentle_addJob fun _ t ht => ?_
  refine Leads.quiet ht gentle_emitRideStatusUpdate fun _ t ht => ?_
  exact Leads.ret (served_some ⟨_, ht⟩)

theorem leads_sendBatch (h : reserving env strict X L r b now [] ds s)
    (hst : (L.ride r).status = some .dispatching) (hbatch : (L.ride r).currentBatchId = none)
    (hnew : strict → ∀ d, L.responses r d ≠ some (.pending b)) (hallows : allowsPickup env (L.ride r).origin = true) :
    Leads env strict i m (served strict X known) (sendBatch env r (L.ride r) b ds now) s := by
  simp only [sendBatch, redis, Prog.bind_eq, Prog.perform_bind]
  refine Leads.perform (Cmd.lockless rfl) h (fun t ht hasked => asked_multi hasked fun w hw => ?_) fun t ht _ => ?_
  · have hride : t.ride r = L.ride r := congrFun ht.stand.ride r
    exact follows_batchWrites (by rw [hride, hst]; exact Option.some_ne_none _) (by rw [hride]; exact hallows) hw
  obtain ⟨L', hb, ht⟩ :=
    @Stand.batch strict X L t r b ds now _ ht.stand hst hbatch hnew ht.seq ht.secured
  have hride : (L'.ride r).status ≠ none := by
    rw [hb.ride]
    exact hset_status_ne_none (by rw [hst]; exact Option.some_ne_none _)
  have ht : even strict X L' (t.multi (batchWrites r (L.ride r) b ds (now + env.dispatch.responseTtlMs) now)) :=
    ht
  refine leads_getRide ht fun t ht => ?_
  rw [toRideSnapshot_of_status hride]
  refine Leads.quiet ht gentle_appendTimelineEvent fun _ t ht => ?_
  refine Leads.quiet ht gentle_addJob fun _ t ht => ?_
  refine Leads.quiet ht gentle_addJob fun _ t ht => ?_
  refine Leads.quiet ht (Gentle.forEach (fun d => gentle_publish) ds) fun _ t ht => ?_
  exact Leads.ret (served_some ⟨_, ht⟩)

end search

section geosearch

variable {origin : Location} {radius : ℚ} {count : ℕ} {geo : List (DriverId × Location)}

theorem nearest_sublist : ∃ near : List (DriverId × Location),
    near.Perm (geo.filter fun p => env.geoDistanceKm origin p.2 ≤ radius) ∧
    (nearest env origin radius count geo).Sublist (near.map Prod.fst) := by
  refine ⟨_, List.perm_insertionSort (fun p q => env.geoDistanceKm origin p.2 ≤ env.geoDistanceKm origin q.2) _,
    ?_⟩
  exact (List.take_sublist count _).map Prod.fst

theorem nodup_nearest (h : (geo.map Prod.fst).Nodup) : (nearest env origin radius count geo).Nodup := by
  obtain ⟨near, hperm, hsub⟩ := @nearest_sublist env origin radius count geo
  have hnear : (near.map Prod.fst).Nodup :=
    (hperm.map Prod.fst).nodup_iff.mpr (h.sublist (List.filter_sublist.map Prod.fst))
  exact hnear.sublist hsub

theorem mem_nearest (h : d ∈ nearest env origin radius count geo) :
    (geo.any fun p => p.1 = d) = true := by
  obtain ⟨near, hperm, hsub⟩ := @nearest_sublist env origin radius count geo
  obtain ⟨p, hp, rfl⟩ := List.mem_map.mp (hsub.subset h)
  have hmem : p ∈ geo := List.mem_of_mem_filter (hperm.subset hp)
  exact List.any_eq_true.mpr ⟨p, hmem, by simp⟩

theorem Pools.found (h : Pools L s) (hd : d ∈ nearest env origin radius count s.availableDriversGeo) :
    (s.driverHash d).status = some .online := by
  have hgeo : (s.keys d).geo = true := mem_nearest hd
  exact ((h.fit d).available ((h.fit d).geo hgeo)).1

end geosearch

section dispatch

variable {known : Prop} {dispatchRound : ℕ} {radius : ℚ}

theorem leads_findDrivers (httl : strict → env.dispatch.responseTtlMs ≤ env.dispatch.reservationTtlMs)
    (hnow : now ≤ m.since) (h : even strict X L s) (hst : (L.ride r).status = some .dispatching)
    (hbatch : (L.ride r).currentBatchId = none) (hfollows : Follows env (L.ride r).origin radius)
    (hallows : known → allowsPickup env (L.ride r).origin = true) :
    Leads env strict i m (served strict X known) (findDrivers env r (L.ride r) dispatchRound radius now) s := by
  simp only [findDrivers, reserveDriversForBatch, getNearestAvailableDrivers, redis, Prog.bind_eq,
    Prog.perform_bind]
  refine Leads.cmd (Cmd.lockless rfl) trivial h fun t ht _ => ?_
  have ht : even strict X L (exec env i (.smembersNotified r) t).2 := ht
  refine Leads.cmd (Cmd.lockless rfl) trivial ht fun t ht _ => ?_
  cases hfound : (exec env i (.geosearch (L.ride r).origin radius
      (env.dispatch.batchSize * env.dispatch.candidateMultiplier)) t).1 with
  | none =>
    refine Leads.throw ⟨⟨L, ht⟩, fun hknown => ?_⟩
    have htaken : geosearch env (L.ride r).origin radius (env.dispatch.batchSize * env.dispatch.candidateMultiplier)
        t.availableDriversGeo = some _ := geosearch_of_searchable (hfollows.allows (hallows hknown))
    have hnone := htaken.symm.trans hfound
    cases hnone
  | some candidates =>
    obtain ⟨htaken, hnearest⟩ := geosearch_eq_some.mp hfound
    have hnearest : nearest env (L.ride r).origin radius (env.dispatch.batchSize * env.dispatch.candidateMultiplier)
        t.availableDriversGeo = candidates := hnearest
    have hnodup : candidates.Nodup := by
      rw [← hnearest]
      exact nodup_nearest ht.pools.nodup
    have honline : ∀ d ∈ candidates, (t.driverHash d).status = some .online := by
      rw [← hnearest]
      exact fun d hd => ht.pools.found hd
    have hkeep : ∀ {s t : Store}, Still s t → t.driverHash = s.driverHash := fun hst => hst.driverHash
    have ht : (even strict X L).reading Store.driverHash hkeep t.driverHash (exec env i
        (.geosearch (L.ride r).origin radius (env.dispatch.batchSize * env.dispatch.candidateMultiplier)) t).2 :=
      ⟨ht, rfl⟩
    refine Leads.cmd (Cmd.lockless rfl) trivial ht fun u hu _ => ?_
    obtain ⟨hu, hhash⟩ := hu
    generalize hb : (exec env i .uuidv4 u).1 = b
    have hseq : b.seq = u.nextSeq := by rw [← hb]; rfl
    -- the id of the batch is new, so no response is pending for it
    have hnew : strict → ∀ d, L.responses r d ≠ some (.pending b) := by
      intro hx d hd
      rw [← hu.responses] at hd
      have hlt : b.seq < u.nextSeq := (hu.offered hx).drawn r b d hd
      omega
    have hdrawn : Still u (exec env i .uuidv4 u).2 := @exec_gentle env i _ u .uuidv4 trivial
    have hreserving : ∀ keep : DriverId → Bool, reserving env strict X L r b now (candidates.filter keep) []
        (exec env i .uuidv4 u).2 := by
      intro keep
      refine ⟨?_, ?_, fun _ d hd => absurd hd List.not_mem_nil, fun d hd => ?_, hnodup.filter _,
        fun _ _ => List.not_mem_nil⟩
      · exact Stand.relabel (Stand.still hu hdrawn) (fun _ _ => Iff.rfl) (fun _ _ _ => Or.inl)
          (fun _ => Iff.rfl) (fun _ => rfl) fun _ _ => id
      · show b.seq < u.nextSeq + 1
        omega
      · have hstatus : (u.driverHash d).status = some .online := by
          rw [hhash]
          exact honline d (List.mem_of_mem_filter hd)
        show (u.driverHash d).status ≠ some .busy
        rw [hstatus]
        decide
    refine leads_reserveLoop httl hnow (hreserving _) fun ds v hv => ?_
    split_ifs with hds hgo
    · have hv : even strict X L v := by
        refine Stand.relabel hv.stand (fun _ _ => Iff.rfl) ?_ (fun _ => Iff.rfl) (fun _ => rfl) fun _ _ => id
        rintro r' b' d' (ho | ⟨-, -, hd⟩)
        · exact ho
        · rw [hds] at hd
          cases hd
      exact leads_exhaustSearch hv hst hbatch
    · have hv : even strict X L v := by
        refine Stand.relabel hv.stand (fun _ _ => Iff.rfl) ?_ (fun _ => Iff.rfl) (fun _ => rfl) fun _ _ => id
        rintro r' b' d' (ho | ⟨-, -, hd⟩)
        · exact ho
        · rw [hds] at hd
          cases hd
      exact leads_expandSearch hv hst hbatch (hfollows.wider (not_le.mp fun hmax => hgo (.inr hmax)) htaken)
    · exact leads_sendBatch hv hst hbatch hnew (hfollows.taken htaken).1

theorem leads_continueDispatch (httl : strict → env.dispatch.responseTtlMs ≤ env.dispatch.reservationTtlMs)
    (hnow : now ≤ m.since) (h : even strict X L s) (hst : (L.ride r).status = some .dispatching)
    (hfollows : Follows env (L.ride r).origin radius) (hallows : known → allowsPickup env (L.ride r).origin = true) :
    Leads env strict i m (served strict X known)
      (continueDispatch env r (L.ride r) dispatchRound radius now) s := by
  unfold continueDispatch openBatch
  rw [if_pos hst]
  cases hb : (L.ride r).currentBatchId with
  | none => exact leads_findDrivers httl hnow h hst hb hfollows hallows
  | some b =>
    dsimp only
    split_ifs
    · exact Leads.ret (served_some ⟨L, h⟩)
    · simp only [Prog.bind_eq]
      refine leads_endBatch h hst hb fun L' t hoff hride ht => ?_
      obtain ⟨hstatus, hdriver, hnone⟩ := @hset_clearBatchFields (L.ride r) (L.ride r) now
      have horigin : (L'.ride r).origin = (L.ride r).origin := by
        rw [hride]
        exact hset_origin
      rw [← hride] at hstatus hnone
      rw [hst] at hstatus
      rw [← horigin] at hfollows hallows
      refine leads_getRide ht fun t ht => ?_
      rw [toRideSnapshot_of_status (by rw [hstatus]; exact Option.some_ne_none _)]
      exact leads_findDrivers httl hnow ht hstatus hnone hfollows hallows

theorem leads_startFirstDispatch {f : RideHash → App α} (h : even strict X L s)
    (hst : (L.ride r).status = some .requested)
    (next : ∀ L' t, (L'.ride r).status = some .dispatching → (L'.ride r).origin = (L.ride r).origin → even strict X L' t →
      Leads env strict i m Q (f (L'.ride r)) t) :
    Leads env strict i m Q ((startFirstDispatch env r (L.ride r) now).bind f) s := by
  obtain ⟨hstatus, hdriver, hbatch⟩ := @hset_startFields env (L.ride r) (L.ride r) now
  obtain ⟨hnone, hclosed⟩ := h.sane.requested r hst
  have hknown : (L.ride r).status ≠ none := by rw [hst]; exact Option.some_ne_none _
  simp only [startFirstDispatch, Prog.bind_eq, Prog.bind_assoc]
  have hradius : ∀ v, .searchRadiusKm v ∈ startFields env (L.ride r) now → Follows env (L.ride r).origin v := by
    intro v hv
    simp only [startFields, List.mem_cons, List.not_mem_nil, or_false, reduceCtorEq, RideField.searchRadiusKm.injEq,
      false_or] at hv
    exact .inl hv
  refine leads_updateRideHash h hradius hknown (Or.inr (by rw [Ledger.hset_self, hbatch, hclosed])) ?_ (fun _ => ?_)
    fun t ht => ?_
  · rw [hstatus]
    decide
  · rw [hdriver, hnone]
  have hstatus' : ((L.hset r (startFields env (L.ride r) now)).ride r).status = some .dispatching := by
    rw [Ledger.hset_self, hstatus]
  have ht : even strict X (L.hset r (startFields env (L.ride r) now)) t := by
    refine Stand.settle ht Ledger.EqOff.hset (Or.inr hclosed) ?_ (fun d => ?_) ?_
    · unfold Ledger.Underway
      rw [hstatus', hst]
      exact Iff.rfl
    · unfold Ledger.Assigned
      rw [Ledger.hset_self, hdriver, hnone]
      simp
    · rw [Ledger.hset_self, hset_customerId]
  refine leads_getRide ht fun t ht => ?_
  rw [toRideSnapshot_of_status (by rw [hstatus']; exact Option.some_ne_none _)]
  simp only [Prog.bind_assoc]
  refine Leads.quiet ht gentle_appendTimelineEvent fun _ t ht => ?_
  refine Leads.quiet ht gentle_addJob fun _ t ht => ?_
  refine Leads.quiet ht gentle_emitRideStatusUpdate fun _ t ht => ?_
  refine next _ t hstatus' ?_ ht
  rw [Ledger.hset_self]
  exact hset_origin

theorem leads_dispatchUnderLock (httl : strict → env.dispatch.responseTtlMs ≤ env.dispatch.reservationTtlMs)
    (h : even strict X L s) (hknown : known → (L.ride r).status ≠ none ∧ allowsPickup env (L.ride r).origin = true) :
    Leads env strict i m (served strict X known) (dispatchUnderLock env r) s := by
  refine Leads.within fun hm => ?_
  have hfollows : Follows env (L.ride r).origin (nextRadiusKm env (L.ride r)) := by
    rw [← show s.ride r = L.ride r from congrFun h.ride r]
    exact hm.asked.follows r
  have hallows : known → allowsPickup env (L.ride r).origin = true := fun hk => (hknown hk).2
  simp only [dispatchUnderLock, redis, Prog.bind_eq, Prog.perform_bind]
  refine leads_getRide h fun t ht => ?_
  by_cases hnone : (L.ride r).status = none
  · rw [toRideSnapshot, if_pos hnone]
    have hunknown : known → (none : Option RideHash) ≠ none := fun hk => absurd hnone (hknown hk).1
    exact Leads.ret ⟨⟨L, ht⟩, hunknown⟩
  rw [toRideSnapshot_of_status hnone]
  dsimp only
  split_ifs with hother hst
  · exact Leads.ret (served_some ⟨L, ht⟩)
  · refine Leads.now ht fun t ht => ?_
    refine leads_startFirstDispatch ht hst fun L' t hst' horigin ht => ?_
    rw [← horigin] at hfollows hallows
    exact leads_continueDispatch httl le_rfl ht hst' hfollows hallows
  · have hdispatching : (L.ride r).status = some .dispatching := by
      by_contra hne
      exact hother ⟨hst, hne⟩
    refine Leads.now ht fun t ht => ?_
    exact leads_continueDispatch httl le_rfl ht hdispatching hfollows hallows

end dispatch

end YatriGo
