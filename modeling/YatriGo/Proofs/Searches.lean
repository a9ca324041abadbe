import YatriGo.Proofs.Alone

/-! A search for drivers that runs alone: which drivers it can reserve, and what becomes of the ride. -/

namespace YatriGo
open Concurrent

/-- A GEOSEARCH: its radius, and the round that the hash of the ride has then. -/
structure Search where
  radius : ℚ
  round : ℕ
  deriving DecidableEq

def searchOf (r : RideId) (radiusKm : ℚ) (s : Store) : Search := ⟨radiusKm, (s.ride r).dispatchRound⟩

variable {env : Env} {i : ℕ} {r : RideId} {d d' : DriverId} {s t u : Store} {α β γ : Type} {note : ℚ → Store → γ} {p : App α}
  {f : α → App β} {ride : RideHash} {now : Time}

/-- What `isDriverReservable` answers. -/
def reservable (env : Env) (s : Store) (d : DriverId) : Bool :=
  decide ((s.driverHash d).status = some .online) && (s.driverHeartbeat d).isSome &&
    decide (s.driverActiveRide d = none) && decide (s.locks (.reservation d) = none) &&
    !(decide (env.driver.rejectCooldownSeconds ≠ 0) &&
      (s.rejectCooldown d).any fun expiresAt => decide (s.clock < expiresAt))

/-- The checks of drivers change nothing about rides, and nothing about which drivers can be reserved. -/
structure Screened (env : Env) (s t : Store) : Prop where
  ride : t.ride = s.ride
  reservable : ∀ d, reservable env t d = reservable env s d
  noOffers : NoOffers s t

theorem reservable_congr (hhash : t.driverHash d = s.driverHash d)
    (hheartbeat : t.driverHeartbeat d = s.driverHeartbeat d)
    (hactive : t.driverActiveRide d = s.driverActiveRide d)
    (hreservation : t.locks (.reservation d) = s.locks (.reservation d))
    (hcooldown : t.rejectCooldown d = s.rejectCooldown d) (hclock : t.clock = s.clock) :
    reservable env t d = reservable env s d := by
  unfold reservable
  rw [hhash, hheartbeat, hactive, hreservation, hcooldown, hclock]

theorem unreserved_of_reservable (h : reservable env s d = true) : s.locks (.reservation d) = none := by
  simp only [reservable, Bool.and_eq_true, decide_eq_true_eq] at h
  exact h.1.2

theorem not_reservable_of_heartbeat (h : s.driverHeartbeat d = none) : reservable env s d = false := by
  unfold reservable
  rw [h, Option.isSome_none, Bool.and_false, Bool.false_and, Bool.false_and, Bool.false_and]

theorem alone_cooldown : Solo env i note (isDriverOnRejectCooldown env d) s
    (.ok (decide (env.driver.rejectCooldownSeconds ≠ 0) &&
      (s.rejectCooldown d).any fun expiresAt => decide (s.clock < expiresAt))) s [] := by
  unfold isDriverOnRejectCooldown
  by_cases hzero : env.driver.rejectCooldownSeconds = 0
  · rw [if_pos hzero]
    simp only [hzero, ne_eq, not_true, decide_false, Bool.false_and]
    exact Prog.Ends.ret
  · have hanswer : ((s.rejectCooldown d).any fun expiresAt => decide (s.clock < expiresAt)) =
        decide (0 < (exec env i (.pttlRejectCooldown d) s).1) := by
      cases hcooldown : s.rejectCooldown d with
      | none => simp [exec, hcooldown]
      | some expiresAt => simp [exec, hcooldown]
    rw [if_neg hzero, hanswer]
    simp only [hzero, ne_eq, not_false_eq_true, decide_true, Bool.true_and]
    exact Prog.Ends.cmd Prog.Ends.ret

/-- A driver that cannot be reserved is cleaned up as a ghost. -/
theorem alone_cleanupGhostAvailability (h : reservable env s d = false) :
    ∃ t, Solo env i note (cleanupGhostAvailability d) s (.ok ()) t [] ∧ Screened env s t := by
  obtain ⟨sets, geo, hwrites⟩ : ∃ sets geo, s.multi [.srem .available d, .srem .busy d, .srem .online d, .zremGeo d,
      .delHeartbeat d, .delReservation d] = { s with
        driverSet := sets, availableDriversGeo := geo
        driverHeartbeat := put s.driverHeartbeat d none
        locks := put s.locks (.reservation d) none } := by
    simp only [Store.multi, List.foldl_cons, List.foldl_nil, Write.apply]
    exact ⟨_, _, rfl⟩
  have hends : ∃ docs, Solo env i note (cleanupGhostAvailability d) s (.ok ()) { s with
      driverSet := sets, availableDriversGeo := geo, driverDocs := docs
      driverHeartbeat := put s.driverHeartbeat d none
      locks := put s.locks (.reservation d) none } [] := by
    refine ⟨put s.driverDocs d ((s.driverDocs d).map fun doc => { doc with status := .offline }), ?_⟩
    refine Prog.Ends.cmd ?_
    show Solo env i note (redis (.updateDriverDocStatus d .offline)) (s.multi _) _ _ _
    rw [hwrites]
    exact Prog.Ends.cmd Prog.Ends.ret
  obtain ⟨docs, hends⟩ := hends
  refine ⟨_, hends, rfl, fun d' => ?_, rfl, rfl, fun key => ?_⟩
  · rcases eq_or_ne d' d with rfl | hne
    · rw [h]
      exact not_reservable_of_heartbeat put_self
    · have hreservation : LockKey.reservation d' ≠ .reservation d := fun heq => hne (LockKey.reservation.inj heq)
      exact reservable_congr rfl (put_of_ne hne) rfl (put_of_ne hreservation) rfl rfl
  · rcases eq_or_ne key (.reservation d) with rfl | hne
    · exact .inr put_self
    · exact .inl (put_of_ne hne)

theorem alone_readDriver {f : Option DriverState → App α} {result : Except AppError α} {notes : List γ}
    (hf : Solo env i note (f (toDriverSnapshot (s.driverHash d))) s result t notes) :
    Solo env i note ((getDriverState d).bind f) s result t notes := by
  have hread : Solo env i note (getDriverState d) s (.ok (toDriverSnapshot (s.driverHash d))) s [] := .cmd .ret
  exact hread.bind hf

theorem alone_isDriverReservable : ∃ t,
    Solo env i note (isDriverReservable env d) s (.ok (reservable env s d)) t [] ∧ Screened env s t ∧
      (reservable env s d = true → t = s) := by
  -- both ghosts, without a hash and without a heartbeat, are cleaned up and refused
  have hghost : reservable env s d = false → ∃ t, Solo env i note
      ((cleanupGhostAvailability d).bind fun _ => .ret false) s (.ok false) t [] ∧ Screened env s t := by
    intro hfalse
    obtain ⟨t, ht, hscreened⟩ := alone_cleanupGhostAvailability hfalse
    exact ⟨t, ht.bind Prog.Ends.ret, hscreened⟩
  have hstatus : (toDriverSnapshot (s.driverHash d)).map DriverState.status = (s.driverHash d).status := by
    unfold toDriverSnapshot
    cases (s.driverHash d).status <;> rfl
  cases hsnapshot : toDriverSnapshot (s.driverHash d) with
  | none =>
    rw [hsnapshot, Option.map_none] at hstatus
    have hfalse : reservable env s d = false := by
      unfold reservable
      rw [← hstatus]
      rfl
    obtain ⟨t, ht, hscreened⟩ := hghost hfalse
    refine ⟨t, alone_readDriver ?_, hscreened, fun htrue => ?_⟩
    · rw [hsnapshot, hfalse]
      exact .cmd (.cmd (.cmd (alone_cooldown.bind ht)))
    · rw [hfalse] at htrue
      cases htrue
  | some driverState =>
    rw [hsnapshot, Option.map_some] at hstatus
    cases hheartbeat : s.driverHeartbeat d with
    | none =>
      have hfalse : reservable env s d = false := not_reservable_of_heartbeat hheartbeat
      obtain ⟨t, ht, hscreened⟩ := hghost hfalse
      refine ⟨t, alone_readDriver ?_, hscreened, fun htrue => ?_⟩
      · rw [hsnapshot, hfalse]
        refine .cmd (.cmd (.cmd (alone_cooldown.bind ?_)))
        show Solo env i note (if (s.driverHeartbeat d).isSome = true then _ else _) s _ _ _
        rw [hheartbeat]
        exact ht
      · rw [hfalse] at htrue
        cases htrue
    | some expiresAt =>
      refine ⟨s, alone_readDriver ?_, ⟨rfl, fun _ => rfl, .refl⟩, fun _ => rfl⟩
      have hanswer : reservable env s d = decide (driverState.status = .online ∧ s.driverActiveRide d = none ∧
          (s.locks (.reservation d)).map Lease.token = none ∧
          (decide (env.driver.rejectCooldownSeconds ≠ 0) &&
            (s.rejectCooldown d).any fun expiresAt => decide (s.clock < expiresAt)) = false) := by
        unfold reservable
        rw [← hstatus, hheartbeat, Bool.eq_iff_iff]
        simp only [Bool.and_eq_true, decide_eq_true_eq, Bool.not_eq_true', Option.isSome_some, and_true,
          Option.map_eq_none_iff, Option.some.injEq, and_assoc]
      rw [hsnapshot, hanswer]
      refine .cmd (.cmd (.cmd (alone_cooldown.bind ?_)))
      show Solo env i note (if (s.driverHeartbeat d).isSome = true then _ else _) s _ _ _
      rw [hheartbeat]
      exact .ret

/-- The loop reserves a driver unless there is none to reserve. -/
theorem alone_reserveLoop {b : BatchId} (ds reserved : List DriverId) (s : Store) :
    ∃ out t, Solo env i note (reserveLoop env r b ds reserved) s (.ok out) t [] ∧ t.ride = s.ride ∧
      Renewed r b s t ∧ (out = [] ↔ reserved = [] ∧ ∀ d ∈ ds, reservable env s d = false) ∧
      t.rideResponses = s.rideResponses ∧ ∀ d ∈ out, d ∈ reserved ∨ reservable env s d = true := by
  induction ds generalizing reserved s with
  | nil =>
    refine ⟨reserved, s, .ret, rfl, NoOffers.refl.renewed, ?_, rfl, fun d hd => .inl hd⟩
    simp
  | cons d ds ih =>
    obtain ⟨t, ht, hscreened, hsame⟩ := @alone_isDriverReservable env i d s γ note
    cases hd : reservable env s d with
    | false =>
      rw [hd] at ht
      obtain ⟨out, u, hu, hride, hrenewed, hout, hresponses, hchosen⟩ := ih reserved t
      simp only [hscreened.reservable] at hchosen
      refine ⟨out, u, ht.bind hu, hride.trans hscreened.ride, hscreened.noOffers.renewed.trans hrenewed, hout.trans ?_,
        hresponses.trans hscreened.noOffers.responses, hchosen⟩
      simp only [List.forall_mem_cons, hd, true_and, hscreened.reservable]
    | true =>
      rw [hd, hsame hd] at ht
      have hfree : s.locks (.reservation d) = none := unreserved_of_reservable hd
      have hlock := @exec_setNX_of_none (.reservation d) (.reservation r b) s env i env.dispatch.reservationTtlMs hfree
      let taken : Store := { s with
        locks := put s.locks (.reservation d)
          (some ⟨.reservation r b, s.clock + env.dispatch.reservationTtlMs⟩) }
      have htaken : Renewed r b s taken := by
        refine ⟨fun _ => .inl rfl, fun d' => ?_⟩
        rcases eq_or_ne d' d with rfl | hne
        · right
          right
          show (put s.locks _ _ _).map Lease.token = _
          rw [put_self, Option.map_some]
        · exact .inl (put_of_ne fun heq => hne (LockKey.reservation.inj heq))
      -- the batch has this driver now, and is full or goes on with the others
      have hrest : ∃ out u, Solo env i note
          (if env.dispatch.batchSize ≤ (reserved ++ [d]).length then .ret (reserved ++ [d])
            else reserveLoop env r b ds (reserved ++ [d])) taken (.ok out) u [] ∧
          u.ride = s.ride ∧ Renewed r b taken u ∧ out ≠ [] ∧ u.rideResponses = s.rideResponses ∧
          ∀ d' ∈ out, d' ∈ reserved ++ [d] ∨ reservable env taken d' = true := by
        have hne : reserved ++ [d] ≠ [] := List.append_ne_nil_of_right_ne_nil _ (List.cons_ne_nil d [])
        split_ifs
        · exact ⟨_, _, .ret, rfl, NoOffers.refl.renewed, hne, rfl, fun d' hd' => .inl hd'⟩
        · obtain ⟨out, u, hu, hride, hrenewed, hout, hresponses, hchosen⟩ := ih (reserved ++ [d]) taken
          exact ⟨out, u, hu, hride, hrenewed, (fun hnil => hne (hout.mp hnil).1), hresponses, hchosen⟩
      obtain ⟨out, u, hu, hride, hrenewed, hout, hresponses, hchosen⟩ := hrest
      have hreserve : Solo env i note (reserveLoop env r b (d :: ds) reserved) s (.ok out) u [] := by
        refine ht.bind (Prog.Ends.cmd ?_)
        have hclient : (system env).client i (.setNX (.reservation d) (.reservation r b)
            env.dispatch.reservationTtlMs) s = _ := hlock
        rw [hclient]
        exact hu
      refine ⟨out, u, hreserve, hride, htaken.trans hrenewed, ?_, hresponses, fun d' hd' => ?_⟩
      · have hfound : ¬ ∀ d' ∈ d :: ds, reservable env s d' = false := by
          intro hnone
          rw [hnone d List.mem_cons_self] at hd
          cases hd
        simp only [hout, hfound, and_false]
      · rcases eq_or_ne d' d with rfl | hne
        · exact .inr hd
        · have hother : LockKey.reservation d' ≠ .reservation d := fun heq => hne (LockKey.reservation.inj heq)
          -- reserving `d` does not touch another driver
          have hsame' : reservable env taken d' = reservable env s d' := reservable_congr rfl rfl rfl (put_of_ne hother) rfl rfl
          rw [← hsame']
          rcases hchosen d' hd' with hmem | hreservable
          · exact .inl ((List.mem_append.mp hmem).resolve_right fun hlast => hne (List.mem_singleton.mp hlast))
          · exact .inr hreservable

/-- A driver that the search can reserve, among the nearest ones that it looks at. -/
def Reachable (env : Env) (s : Store) (r : RideId) (dispatchRound : ℕ) (searchRadiusKm : ℚ) : Prop :=
  ∃ found, geosearch env (s.ride r).origin searchRadiusKm (env.dispatch.batchSize * env.dispatch.candidateMultiplier)
      s.availableDriversGeo = some found ∧
    ∃ d ∈ found, (d ∉ s.rideNotifiedDrivers r ∨ 1 < dispatchRound) ∧ reservable env s d = true

theorem Reachable.allows {dispatchRound : ℕ} {searchRadiusKm : ℚ} (h : Reachable env s r dispatchRound searchRadiusKm) :
    allowsSearch env (s.ride r) searchRadiusKm = true := by
  obtain ⟨found, hfound, -⟩ := h
  exact (geosearch_eq_some.mp hfound).1

/-- What a search makes of the hash of the ride: a batch, the end of the search, or a wider one. -/
inductive Searched (env : Env) (found : Prop) (ride : RideHash) (dispatchRound : ℕ) (searchRadiusKm : ℚ)
    (now : Time) : RideHash → Prop
  | sent (hfound : found) (b : BatchId) (ds : List DriverId) (hds : ds ≠ []) (expiresAt : Time) :
      Searched env found ride dispatchRound searchRadiusKm now (ride.hset (batchFields ride b ds expiresAt now))
  | exhausted (none : ¬ found)
      (stop : env.dispatch.maxRounds ≤ dispatchRound ∨ env.dispatch.maxSearchRadiusKm ≤ searchRadiusKm) :
      Searched env found ride dispatchRound searchRadiusKm now (ride.hset (exhaustFields ride now))
  | expanded (none : ¬ found)
      (go : ¬ (env.dispatch.maxRounds ≤ dispatchRound ∨ env.dispatch.maxSearchRadiusKm ≤ searchRadiusKm)) :
      Searched env found ride dispatchRound searchRadiusKm now (ride.hset (expandFields ride (dispatchRound + 1)
        (min (searchRadiusKm * 2) env.dispatch.maxSearchRadiusKm) now))

theorem Searched.version {found : Prop} {dispatchRound : ℕ} {searchRadiusKm : ℚ} {hash : RideHash}
    (h : Searched env found ride dispatchRound searchRadiusKm now hash) : hash.version = ride.version + 1 := by
  cases h <;> rfl

theorem Searched.origin {found : Prop} {dispatchRound : ℕ} {searchRadiusKm : ℚ} {hash : RideHash}
    (h : Searched env found ride dispatchRound searchRadiusKm now hash) : hash.origin = ride.origin := by
  cases h with
  | sent hfound b ds hds expiresAt => exact hset_origin
  | exhausted none stop => exact hset_origin
  | expanded none go => exact hset_origin

/-- The search offers nothing to a driver without a heartbeat. -/
def Unoffered (r : RideId) (s t : Store) : Prop :=
  ∀ d, s.driverHeartbeat d = none → t.rideResponses r d = s.rideResponses r d

theorem responses_batchWrites {b : BatchId} {ds : List DriverId} {expiresAt : Time} (h : d ∉ ds) :
    (s.multi (batchWrites r ride b ds expiresAt now)).rideResponses r d = s.rideResponses r d := by
  unfold batchWrites
  rw [multi_append]
  show ((s.multi [.hsetRide r (batchFields ride b ds expiresAt now)]).multi _).rideResponses r d =
    (s.multi [.hsetRide r (batchFields ride b ds expiresAt now)]).rideResponses r d
  generalize s.multi [.hsetRide r (batchFields ride b ds expiresAt now)] = t
  induction ds generalizing t with
  | nil => rfl
  | cons d' ds ih =>
    obtain ⟨hne, hrest⟩ := List.ne_and_not_mem_of_not_mem_cons h
    rw [List.flatMap_cons, multi_append, ih hrest]
    show put t.rideResponses r (put (t.rideResponses r) d' (some (.pending b))) r d = _
    rw [put_self, put_of_ne hne]

theorem renewed_batchWrites {b : BatchId} {ds : List DriverId} {expiresAt : Time} :
    Renewed r b s (s.multi (batchWrites r ride b ds expiresAt now)) := by
  have hhset : Renewed r b s (s.multi [.hsetRide r (batchFields ride b ds expiresAt now)]) :=
    ⟨fun _ => .inl rfl, fun _ => .inl rfl⟩
  unfold batchWrites
  rw [multi_append]
  refine hhset.trans ?_
  generalize s.multi [.hsetRide r (batchFields ride b ds expiresAt now)] = t
  clear hhset
  induction ds generalizing t with
  | nil => exact NoOffers.refl.renewed
  | cons d ds ih =>
    rw [List.flatMap_cons, multi_append]
    have hfirst : Renewed r b t (t.multi [.saddNotified r d, .hsetResponse r d (.pending b), .saddPending d r]) := by
      refine ⟨fun d' => ?_, fun _ => .inl rfl⟩
      show put t.rideResponses r (put (t.rideResponses r) d (some (.pending b))) r d' = _ ∨
        put t.rideResponses r (put (t.rideResponses r) d (some (.pending b))) r d' = _
      rw [put_self]
      rcases eq_or_ne d' d with rfl | hne
      · exact .inr put_self
      · exact .inl (put_of_ne hne)
    exact hfirst.trans (ih _)

theorem alone_sendBatch {b : BatchId} {ds : List DriverId} (h : (s.ride r).status ≠ none) :
    ∃ ride' t, Solo env i note (sendBatch env r ride b ds now) s (.ok (some ride')) t [] ∧
      t.ride r = (s.ride r).hset (batchFields ride b ds (now + env.dispatch.responseTtlMs) now) ∧ Renewed r b s t ∧
      ∀ d, d ∉ ds → t.rideResponses r d = s.rideResponses r d := by
  let fields := batchFields ride b ds (now + env.dispatch.responseTtlMs) now
  let writes := batchWrites r ride b ds (now + env.dispatch.responseTtlMs) now
  have hspares : ∀ w ∈ ds.flatMap fun d => [Write.saddNotified r d, .hsetResponse r d (.pending b), .saddPending d r],
      w.sparesRides := by
    intro w hw
    obtain ⟨d, -, hw⟩ := List.mem_flatMap.mp hw
    simp only [List.mem_cons, List.not_mem_nil, or_false] at hw
    rcases hw with rfl | rfl | rfl <;> trivial
  have hride : (s.multi writes).ride r = (s.ride r).hset fields := ride_multi_hset hspares
  have hstatus : ((s.multi writes).ride r).status ≠ none := by
    rw [hride, hset_batchFields.1]
    exact h
  obtain ⟨t, ht, hbackstage⟩ := behind_appendTimelineEvent.before
    (fun _ => behind_addJob.before fun _ => behind_addJob.before fun _ =>
      (Behind.forEach (fun d => behind_publish) ds).before fun _ => alone_ret) (s.multi writes)
  refine ⟨(s.multi writes).ride r, t, Prog.Ends.cmd (alone_getRide hstatus ht), ?_, ?_, fun d hd => ?_⟩
  · rw [hbackstage.rides, hride]
  · exact renewed_batchWrites.trans hbackstage.noOffers.renewed
  · rw [hbackstage.noOffers.responses]
    exact responses_batchWrites hd

theorem alone_expandSearch {nextRound : ℕ} {nextRadius : ℚ} (h : (s.ride r).status ≠ none) :
    ∃ ride' t, Solo env i note (expandSearch env r ride nextRound nextRadius now) s (.ok (some ride')) t [] ∧
      t.ride r = (s.ride r).hset (expandFields ride nextRound nextRadius now) ∧ NoOffers s t := by
  have hstatus : ((s.ride r).hset (expandFields ride nextRound nextRadius now)).status ≠ none := by
    rw [hset_expandFields.1]
    exact h
  have hset := @alone_updateRideHash env i r s γ note _ hstatus
  obtain ⟨t, ht, hbackstage⟩ := behind_appendTimelineEvent.before
    (fun _ => behind_addJob.before fun _ => behind_addJob.before fun _ => alone_ret)
    { s with ride := put s.ride r ((s.ride r).hset (expandFields ride nextRound nextRadius now)) }
  refine ⟨_, t, hset.bind ht, ?_, ?_⟩
  · rw [hbackstage.rides]
    exact put_self
  · exact ⟨hbackstage.noOffers.seq, hbackstage.noOffers.responses, hbackstage.noOffers.locks⟩

theorem alone_exhaustSearch :
    ∃ ride' t, Solo env i note (exhaustSearch r ride now) s (.ok (some ride')) t [] ∧
      t.ride r = (s.ride r).hset (exhaustFields ride now) ∧ NoOffers s t := by
  let hash := (s.ride r).hset (exhaustFields ride now)
  have hstatus : hash.status ≠ none := Option.some_ne_none _
  have hset := @alone_updateRideHash env i r s γ note _ hstatus
  have happend : Behind (appendTimelineEvent r .dispatchExhausted .system none now) := behind_appendTimelineEvent
  have hcleanup : Offstage (cleanupTerminalRideKeys r hash now) := offstage_cleanupTerminalRideKeys
  obtain ⟨a, t, ht, hbackstage⟩ := happend.alone { s with ride := put s.ride r hash }
  obtain ⟨a', u, hu, hride, hkept⟩ := alone_offstage hcleanup t
  obtain ⟨v, hv, hbackstage'⟩ := behind_addJob.before (fun _ => behind_emitRideStatusUpdate.before fun _ => alone_ret) u
  refine ⟨_, v, hset.bind (ht.bind (hu.bind hv)), ?_, ?_⟩
  · rw [hbackstage'.rides, hride, hbackstage.rides]
    exact put_self
  · have hall := (hbackstage.noOffers.trans hkept).trans hbackstage'.noOffers
    exact ⟨hall.seq, hall.responses, hall.locks⟩

theorem alone_getNearestAvailableDrivers {origin : Location} {radiusKm : ℚ} {count : ℕ} {found : List DriverId}
    (h : geosearch env origin radiusKm count s.availableDriversGeo = some found) :
    Solo env i note (getNearestAvailableDrivers origin radiusKm count) s (.ok found) s [note radiusKm s] := by
  have hanswer : (system env).client i (.geosearch origin radiusKm count) s = (some found, s) := Prod.ext h rfl
  exact Prog.Ends.cmd_of_eq hanswer .ret

theorem alone_getNearestAvailableDrivers_refused {origin : Location} {radiusKm : ℚ} {count : ℕ}
    (h : searchable origin radiusKm count = false) :
    Solo env i note (getNearestAvailableDrivers origin radiusKm count) s (.error .replyError) s [note radiusKm s] := by
  have hanswer : geosearch env origin radiusKm count s.availableDriversGeo = none := if_neg (by rw [h]; decide)
  have hrefused : (system env).client i (.geosearch origin radiusKm count) s = (none, s) := Prod.ext hanswer rfl
  exact Prog.Ends.cmd_of_eq hrefused .throw

theorem alone_findDrivers_refused {dispatchRound : ℕ} {searchRadiusKm : ℚ} (h : allowsSearch env ride searchRadiusKm = false) :
    Solo env i note (findDrivers env r ride dispatchRound searchRadiusKm now) s (.error .replyError) s
      [note searchRadiusKm s] :=
  Prog.Ends.cmd (alone_getNearestAvailableDrivers_refused h).bind_error

/-- The drivers that a search may reserve, in the order in which it tries them. -/
def candidates (env : Env) (r : RideId) (dispatchRound : ℕ) (searchRadiusKm : ℚ) (s : Store) : List DriverId :=
  (nearest env (s.ride r).origin searchRadiusKm (env.dispatch.batchSize * env.dispatch.candidateMultiplier)
    s.availableDriversGeo).filter fun d => d ∉ s.rideNotifiedDrivers r ∨ 1 < dispatchRound

theorem alone_candidates {dispatchRound : ℕ} {searchRadiusKm : ℚ} {result : Except AppError (Option RideHash)} {notes : List γ}
    (hallows : allowsSearch env (s.ride r) searchRadiusKm = true)
    (h : Solo env i note ((reserveDriversForBatch env r ⟨i, s.nextSeq⟩ (candidates env r dispatchRound searchRadiusKm s)).bind
      fun batchDrivers =>
        if batchDrivers = [] then
          if env.dispatch.maxRounds ≤ dispatchRound ∨ env.dispatch.maxSearchRadiusKm ≤ searchRadiusKm then
            exhaustSearch r (s.ride r) now
          else expandSearch env r (s.ride r) (dispatchRound + 1)
            (min (searchRadiusKm * 2) env.dispatch.maxSearchRadiusKm) now
        else sendBatch env r (s.ride r) ⟨i, s.nextSeq⟩ batchDrivers now) { s with nextSeq := s.nextSeq + 1 } result t notes) :
    Solo env i note (findDrivers env r (s.ride r) dispatchRound searchRadiusKm now) s result t (note searchRadiusKm s :: notes) :=
  Prog.Ends.cmd ((alone_getNearestAvailableDrivers (geosearch_of_searchable hallows)).bind (Prog.Ends.cmd h))

/-- A search for drivers, from the radius and the round that were read. -/
theorem alone_findDrivers {dispatchRound : ℕ} {searchRadiusKm : ℚ} (h : (s.ride r).status = some .dispatching)
    (hallows : allowsSearch env (s.ride r) searchRadiusKm = true) :
    ∃ ride' t, Solo env i note (findDrivers env r (s.ride r) dispatchRound searchRadiusKm now) s (.ok (some ride')) t
        [note searchRadiusKm s] ∧
      Searched env (Reachable env s r dispatchRound searchRadiusKm) (s.ride r) dispatchRound searchRadiusKm now
        (t.ride r) ∧ Renewed r ⟨i, s.nextSeq⟩ s t ∧ Unoffered r s t := by
  have hanswer := @geosearch_of_searchable env _ _ _ s.availableDriversGeo hallows
  let u : Store := { s with nextSeq := s.nextSeq + 1 }
  obtain ⟨out, t, ht, hride, hrenewed, hout, hresponses, hchosen⟩ := @alone_reserveLoop env i r γ note ⟨i, s.nextSeq⟩
    (candidates env r dispatchRound searchRadiusKm s) [] u
  have hstart : Renewed r ⟨i, s.nextSeq⟩ s u := ⟨fun _ => .inl rfl, fun _ => .inl rfl⟩
  have hstatus : (t.ride r).status ≠ none := by
    rw [hride]
    exact h ▸ Option.some_ne_none _
  -- an empty batch means that none of the candidates could be reserved
  have hfound : out = [] ↔ ¬ Reachable env s r dispatchRound searchRadiusKm := by
    rw [hout]
    simp only [true_and, Reachable, hanswer, Option.some.injEq, exists_eq_left', candidates, List.mem_filter,
      decide_eq_true_eq]
    constructor
    · rintro hnone ⟨d, hd, hnew, hreservable⟩
      have hfalse : reservable env s d = false := hnone d ⟨hd, hnew⟩
      rw [hfalse] at hreservable
      cases hreservable
    · rintro hnone d ⟨hd, hnew⟩
      by_contra hreservable
      exact hnone ⟨d, hd, hnew, Bool.not_eq_false _ ▸ hreservable⟩
  have hunoffered : ∀ {v : Store}, v.rideResponses = t.rideResponses → Unoffered r s v := by
    intro v hv d _
    rw [hv, hresponses]
  by_cases hempty : out = []
  · by_cases hstop : env.dispatch.maxRounds ≤ dispatchRound ∨ env.dispatch.maxSearchRadiusKm ≤ searchRadiusKm
    · obtain ⟨ride', v, hv, hhash, hkept⟩ := @alone_exhaustSearch env i r t γ note (s.ride r) now
      refine ⟨ride', v, alone_candidates hallows (ht.bind ?_), ?_, hstart.trans (hrenewed.trans hkept.renewed), hunoffered hkept.responses⟩
      · rw [if_pos hempty, if_pos hstop]
        exact hv
      · rw [hhash, hride]
        exact .exhausted (hfound.mp hempty) hstop
    · obtain ⟨ride', v, hv, hhash, hkept⟩ := @alone_expandSearch env i r t γ note (s.ride r) now (dispatchRound + 1)
        (min (searchRadiusKm * 2) env.dispatch.maxSearchRadiusKm) hstatus
      refine ⟨ride', v, alone_candidates hallows (ht.bind ?_), ?_, hstart.trans (hrenewed.trans hkept.renewed), hunoffered hkept.responses⟩
      · rw [if_pos hempty, if_neg hstop]
        exact hv
      · rw [hhash, hride]
        exact .expanded (hfound.mp hempty) hstop
  · obtain ⟨ride', v, hv, hhash, hsent, hothers⟩ :=
      @alone_sendBatch env i r t γ note (s.ride r) now ⟨i, s.nextSeq⟩ out hstatus
    refine ⟨ride', v, alone_candidates hallows (ht.bind ?_), ?_, hstart.trans (hrenewed.trans hsent), fun d hd => ?_⟩
    · rw [if_neg hempty]
      exact hv
    · rw [hhash, hride]
      exact .sent (not_not.mp (mt hfound.mpr hempty)) ⟨i, s.nextSeq⟩ out hempty _
    · have hout : d ∉ out := by
        intro hmem
        rcases hchosen d hmem with hnil | hreservable
        · cases hnil
        · have hfalse : reservable env u d = false := not_reservable_of_heartbeat hd
          rw [hfalse] at hreservable
          cases hreservable
      rw [hothers d hout, hresponses]

/-- Everything that a search looks at is the same, but for the hash of the ride. -/
structure SameChoice (s t : Store) : Prop where
  geo : t.availableDriversGeo = s.availableDriversGeo
  notified : t.rideNotifiedDrivers = s.rideNotifiedDrivers
  hash : t.driverHash = s.driverHash
  heartbeat : t.driverHeartbeat = s.driverHeartbeat
  active : t.driverActiveRide = s.driverActiveRide
  cooldown : t.rejectCooldown = s.rejectCooldown
  clock : t.clock = s.clock
  reservation : ∀ d, t.locks (.reservation d) = s.locks (.reservation d)

theorem SameChoice.refl : SameChoice s s := ⟨rfl, rfl, rfl, rfl, rfl, rfl, rfl, fun _ => rfl⟩

theorem SameChoice.trans (h : SameChoice s t) (h' : SameChoice t u) : SameChoice s u :=
  ⟨h'.geo.trans h.geo, h'.notified.trans h.notified, h'.hash.trans h.hash, h'.heartbeat.trans h.heartbeat,
    h'.active.trans h.active, h'.cooldown.trans h.cooldown, h'.clock.trans h.clock,
    fun d => (h'.reservation d).trans (h.reservation d)⟩

theorem Backstage.choice (h : Backstage s t) : SameChoice s t := by
  obtain ⟨_, _, _, _, rfl⟩ := h
  exact ⟨rfl, rfl, rfl, rfl, rfl, rfl, rfl, fun _ => rfl⟩

theorem SameChoice.reservable (h : SameChoice s t) (d : DriverId) : reservable env t d = reservable env s d :=
  reservable_congr (congrFun h.hash d) (congrFun h.heartbeat d) (congrFun h.active d) (h.reservation d)
    (congrFun h.cooldown d) h.clock

theorem SameChoice.reachable {dispatchRound : ℕ} {searchRadiusKm : ℚ} (h : SameChoice s t)
    (horigin : (t.ride r).origin = (s.ride r).origin) :
    Reachable env t r dispatchRound searchRadiusKm ↔ Reachable env s r dispatchRound searchRadiusKm := by
  unfold Reachable
  rw [horigin, h.geo, h.notified]
  simp only [h.reservable]

/-- Sets fields of rides and responses, or takes rides from the pending ones of a driver. -/
def Write.bystander : Write → Prop
  | .hsetRide .. => True
  | .hsetResponse .. => True
  | .sremPending .. => True
  | _ => False

theorem choice_multi {ws : List Write} (h : ∀ w ∈ ws, w.bystander) : SameChoice s (s.multi ws) := by
  induction ws generalizing s with
  | nil => exact .refl
  | cons w ws ih =>
    have hbystander : w.bystander := h w List.mem_cons_self
    have hfirst : SameChoice s (w.apply s) := by
      cases w with
      | hsetRide r fields => exact ⟨rfl, rfl, rfl, rfl, rfl, rfl, rfl, fun _ => rfl⟩
      | hsetResponse r d value => exact ⟨rfl, rfl, rfl, rfl, rfl, rfl, rfl, fun _ => rfl⟩
      | sremPending d r => exact ⟨rfl, rfl, rfl, rfl, rfl, rfl, rfl, fun _ => rfl⟩
      | _ => exact hbystander.elim
    exact hfirst.trans (ih fun v hv => h v (List.mem_cons_of_mem _ hv))

/-- The reservations of the ride's current batch are given back. -/
def givenBack (r : RideId) (s : Store) : Store :=
  { s with
    locks := fun key => match key with
      | .reservation d =>
        if d ∈ (s.ride r).currentBatchDrivers ∧
            (s.locks (.reservation d)).map Lease.token = (s.ride r).currentBatchId.map (Token.reservation r) then none
        else s.locks (.reservation d)
      | key => s.locks key }

@[simp] theorem givenBack_ride : (givenBack r s).ride = s.ride := rfl

theorem sameChoice_givenBack (h : (s.ride r).currentBatchId = none) : SameChoice s (givenBack r s) := by
  refine ⟨rfl, rfl, rfl, rfl, rfl, rfl, rfl, fun d => ?_⟩
  show (if _ then none else s.locks (.reservation d)) = _
  rw [h, Option.map_none]
  split_ifs with hgone
  · exact (Option.map_eq_none_iff.mp hgone.2).symm
  · rfl

/-- The REQUESTED branch, run alone. -/
theorem alone_startFirstDispatch : ∃ t,
    Solo env i note (startFirstDispatch env r ride now) s (.ok ((s.ride r).hset (startFields env ride now))) t [] ∧
      SameChoice s t ∧ t.ride r = (s.ride r).hset (startFields env ride now) := by
  let hash := (s.ride r).hset (startFields env ride now)
  let u : Store := { s with ride := put s.ride r hash }
  have hput : u.ride r = hash := put_self
  have hchoice : SameChoice s u := ⟨rfl, rfl, rfl, rfl, rfl, rfl, rfl, fun _ => rfl⟩
  have hstatus : hash.status ≠ none := Option.some_ne_none _
  have hset := @alone_updateRideHash env i r s γ note _ hstatus
  obtain ⟨t, ht, hbackstage⟩ := behind_appendTimelineEvent.before
    (fun _ => behind_addJob.before fun _ => behind_emitRideStatusUpdate.before fun _ => alone_ret (x := hash)) u
  have hread : (u.ride r).status ≠ none := by
    rw [hput]
    exact hstatus
  refine ⟨t, hset.bind (alone_getRide hread ?_), hchoice.trans hbackstage.choice, ?_⟩
  · rw [hput]
    exact ht
  · rw [hbackstage.rides]
    exact hput

/-- The end of the current batch, run alone. -/
theorem alone_endBatch {b : BatchId} (hb : (s.ride r).currentBatchId = some b) :
    ∃ t, Solo env i note (endBatch r (s.ride r) b now) s (.ok ()) t [] ∧ SameChoice (givenBack r s) t ∧
      t.ride r = (s.ride r).hset (clearBatchFields (s.ride r) now) := by
  let ride := s.ride r
  let ended := s.multi (timeoutWrites r ride b (s.rideResponses r) now)
  have hended : SameChoice s ended := by
    apply choice_multi
    intro w hw
    rcases List.mem_append.mp hw with hw | hw
    · obtain ⟨d, -, rfl⟩ := List.mem_map.mp hw
      trivial
    · rw [List.mem_singleton.mp hw]
      trivial
  have hhash : ended.ride r = ride.hset (clearBatchFields ride now) := by
    -- the timeouts come first in the MULTI, and are not written to the hash
    have hspares : ∀ w ∈ (ride.currentBatchDrivers.filter fun d =>
        isPendingResponse (s.rideResponses r d) (some b)).map fun d => Write.hsetResponse r d .timeout, w.sparesRides := by
      intro w hw
      obtain ⟨d, -, rfl⟩ := List.mem_map.mp hw
      trivial
    show (s.multi (_ ++ _)).ride r = _
    rw [multi_append]
    show put (s.multi _).ride r (((s.multi _).ride r).hset _) r = _
    rw [put_self, (multi_sameRides hspares).ride]
  obtain ⟨locks, hrelease, hlocks⟩ := @alone_releaseDriverReservations env i r γ note b ride.currentBatchDrivers ended
  have hclear : ∃ u, Solo env i note (clearPendingMembership r ride.currentBatchDrivers) { ended with locks } (.ok ()) u []
      ∧ SameChoice { ended with locks } u ∧ u.ride = ended.ride := by
    unfold clearPendingMembership
    split_ifs with hnil
    · exact ⟨_, .ret, .refl, rfl⟩
    · have hwrites : ∀ w ∈ ride.currentBatchDrivers.map fun d => Write.sremPending d r, w.bystander ∧ w.sparesRides := by
        intro w hw
        obtain ⟨d, -, rfl⟩ := List.mem_map.mp hw
        exact ⟨trivial, trivial⟩
      exact ⟨_, Prog.Ends.cmd .ret, choice_multi fun w hw => (hwrites w hw).1,
        (multi_sameRides fun w hw => (hwrites w hw).2).ride⟩
  obtain ⟨u, hu, hchoice, hride⟩ := hclear
  have happend : Behind (appendTimelineEvent r .dispatchBatchTimeout .system none now) := behind_appendTimelineEvent
  obtain ⟨a, t, ht, hbackstage⟩ := @Behind.alone env i Unit γ note _ happend u
  have hgiven : SameChoice (givenBack r s) { ended with locks } := by
    refine ⟨hended.geo, hended.notified, hended.hash, hended.heartbeat, hended.active, hended.cooldown, hended.clock,
      fun d => ?_⟩
    show locks (.reservation d) = if _ then _ else _
    rw [hlocks, hended.reservation, hb, Option.map_some]
  refine ⟨t, Prog.Ends.cmd (Prog.Ends.cmd (hrelease.bind (hu.bind ht))), (hgiven.trans hchoice).trans hbackstage.choice, ?_⟩
  rw [hbackstage.rides, hride]
  exact hhash

/-- The ride is REQUESTED or DISPATCHING. -/
def dispatchable (ride : RideHash) : Bool := ride.status = some .requested ∨ ride.status = some .dispatching

/-- The ride has a batch that is not over yet. -/
def activeBatch (ride : RideHash) (now : Time) : Bool :=
  ride.currentBatchId.isSome && decide (now < ride.currentBatchExpiresAt.getD 0)

theorem dispatchable_of_dispatching (h : ride.status = some .dispatching) : dispatchable ride = true :=
  decide_eq_true (Or.inr h)

theorem activeBatch_of_none (h : ride.currentBatchId = none) : activeBatch ride now = false := by
  unfold activeBatch
  rw [h]
  rfl

/-- The hash after the REQUESTED branch. -/
def started (env : Env) (ride : RideHash) (now : Time) : RideHash :=
  if ride.status = some .requested then ride.hset (startFields env ride now) else ride

/-- The hash that the search finds. -/
def searching (env : Env) (ride : RideHash) (now : Time) : RideHash :=
  if (started env ride now).currentBatchId = none then started env ride now
  else (started env ride now).hset (clearBatchFields (started env ride now) now)

theorem origin_searching_clear : (if ride.currentBatchId = none then ride
    else ride.hset (clearBatchFields ride now)).origin = ride.origin := by
  split_ifs
  · rfl
  · exact hset_origin

theorem alone_continueDispatch_waits {dispatchRound : ℕ} {searchRadiusKm : ℚ} (h : (s.ride r).status = some .dispatching)
    (hactive : activeBatch (s.ride r) now = true) :
    Solo env i note (continueDispatch env r (s.ride r) dispatchRound searchRadiusKm now) s (.ok (some (s.ride r))) s [] := by
  have hopen : openBatch (s.ride r) = (s.ride r).currentBatchId := if_pos h
  unfold activeBatch at hactive
  unfold continueDispatch
  rw [hopen]
  cases hb : (s.ride r).currentBatchId with
  | none =>
    rw [hb] at hactive
    cases hactive
  | some b =>
    have hlive : now < (s.ride r).currentBatchExpiresAt.getD 0 := of_decide_eq_true (Bool.and_eq_true_iff.mp hactive).2
    simp only [hlive, if_true]
    exact .ret

/-- From the check of the current batch on, run alone: once the batch is over, the search is still to come. -/
theorem alone_continueDispatch {dispatchRound : ℕ} {searchRadiusKm : ℚ} (h : (s.ride r).status = some .dispatching)
    (hactive : activeBatch (s.ride r) now = false) :
    ∃ u, ((s.ride r).currentBatchId = none → u = s) ∧
      u.ride r = (if (s.ride r).currentBatchId = none then s.ride r
        else (s.ride r).hset (clearBatchFields (s.ride r) now)) ∧ SameChoice (givenBack r s) u ∧
      ∀ {result t notes}, Solo env i note (findDrivers env r (u.ride r) dispatchRound searchRadiusKm now) u result t notes →
        Solo env i note (continueDispatch env r (s.ride r) dispatchRound searchRadiusKm now) s result t notes := by
  have hopen : openBatch (s.ride r) = (s.ride r).currentBatchId := if_pos h
  unfold continueDispatch
  unfold activeBatch at hactive
  rw [hopen]
  cases hb : (s.ride r).currentBatchId with
  | none =>
    have hgiven : SameChoice (givenBack r s) s :=
      ⟨rfl, rfl, rfl, rfl, rfl, rfl, rfl, fun d => ((sameChoice_givenBack hb).reservation d).symm⟩
    exact ⟨s, fun _ => rfl, (if_pos rfl).symm, hgiven, id⟩
  | some b =>
    have hover : ¬ now < (s.ride r).currentBatchExpiresAt.getD 0 := by
      rw [hb] at hactive
      exact of_decide_eq_false hactive
    obtain ⟨u, hu, hchoice, hhash⟩ := @alone_endBatch env i r s γ note now b hb
    have hclear : u.ride r = if some b = none then s.ride r
        else (s.ride r).hset (clearBatchFields (s.ride r) now) := by
      rw [hhash]
      exact (if_neg (Option.some_ne_none b)).symm
    have hstatus : (u.ride r).status ≠ none := by
      rw [hhash, hset_clearBatchFields.1, h]
      exact Option.some_ne_none _
    refine ⟨u, fun hnone => absurd hnone (Option.some_ne_none b), hclear, hchoice, fun hsearch => ?_⟩
    simp only [hover, if_false]
    exact hu.bind (alone_getRide hstatus hsearch)

theorem started_of_dispatching (h : ride.status ≠ some .requested) : started env ride now = ride := if_neg h

theorem started_batch : (started env ride now).currentBatchId = ride.currentBatchId ∧
    (started env ride now).currentBatchDrivers = ride.currentBatchDrivers ∧
    activeBatch (started env ride now) now = activeBatch ride now ∧ (started env ride now).origin = ride.origin := by
  unfold started
  split_ifs
  · exact ⟨rfl, rfl, rfl, rfl⟩
  · exact ⟨rfl, rfl, rfl, rfl⟩

theorem status_searching (h : dispatchable (s.ride r) = true) :
    (searching env (s.ride r) s.clock).status = some .dispatching := by
  have hcases : (s.ride r).status = some .requested ∨ (s.ride r).status = some .dispatching := of_decide_eq_true h
  have hstarted : (started env (s.ride r) s.clock).status = some .dispatching := by
    unfold started
    split_ifs with hrequested
    · exact hset_startFields.1
    · exact hcases.resolve_left hrequested
  unfold searching
  split_ifs
  · exact hstarted
  · rw [hset_clearBatchFields.1, hstarted]

/-- The first part of `dispatchUnderLock`, run alone: the ride is DISPATCHING, the rest is still to come. -/
theorem alone_start (h : dispatchable (s.ride r) = true) : ∃ t, SameChoice s t ∧
    ((s.ride r).status ≠ some .requested → t = s) ∧ t.ride r = started env (s.ride r) s.clock ∧ (t.ride r).status = some .dispatching ∧
    ∀ {result u notes}, Solo env i note (continueDispatch env r (t.ride r) (s.ride r).dispatchRound
      (nextRadiusKm env (s.ride r)) s.clock) t result u notes →
    Solo env i note (dispatchUnderLock env r) s result u notes := by
  have hcases : (s.ride r).status = some .requested ∨ (s.ride r).status = some .dispatching := of_decide_eq_true h
  have hread : (s.ride r).status ≠ none := by
    rcases hcases with hstatus | hstatus <;> (rw [hstatus]; exact Option.some_ne_none _)
  have hgo : ¬ ((s.ride r).status ≠ some .requested ∧ (s.ride r).status ≠ some .dispatching) :=
    fun hother => hcases.elim hother.1 hother.2
  by_cases hrequested : (s.ride r).status = some .requested
  · obtain ⟨t, ht, hchoice, hhash⟩ := @alone_startFirstDispatch env i r s γ note (s.ride r) s.clock
    refine ⟨t, hchoice, fun hother => absurd hrequested hother, ?_, ?_, fun hrest => alone_getRide hread ?_⟩
    · rw [hhash]
      exact (if_pos hrequested).symm
    · rw [hhash]
      exact hset_startFields.1
    · simp only [hrequested, if_true]
      rw [hhash] at hrest
      exact Prog.Ends.cmd (ht.bind hrest)
  · have hdispatching : (s.ride r).status = some .dispatching := hcases.resolve_left hrequested
    refine ⟨s, .refl, fun _ => rfl, (if_neg hrequested).symm, hdispatching, fun hrest => alone_getRide hread ?_⟩
    simp only [hgo, if_false, hrequested]
    exact Prog.Ends.cmd (Prog.Ends.ret.bind hrest)

theorem origin_searching : (searching env ride now).origin = ride.origin := by
  unfold searching
  rw [origin_searching_clear, started_batch.2.2.2]

/-- A wider search is taken where the one before it was. -/
theorem Searched.allows {found : Prop} {dispatchRound : ℕ} {hash : RideHash}
    (h : Searched env found ride dispatchRound (nextRadiusKm env ride) now hash)
    (hallows : allowsSearch env ride (nextRadiusKm env ride) = true) : allowsSearch env hash (nextRadiusKm env hash) = true := by
  have hnext : 0 ≤ nextRadiusKm env hash := by
    have hradius : 0 ≤ nextRadiusKm env ride := (of_decide_eq_true hallows).2.1
    cases h with
    | sent hfound b ds hds expiresAt =>
      simp only [nextRadiusKm, batchFields, hset_cons, hset_nil, RideHash.setField] at hradius ⊢
      exact hradius
    | exhausted none stop =>
      simp only [nextRadiusKm, exhaustFields, hset_cons, hset_nil, RideHash.setField] at hradius ⊢
      exact hradius
    | expanded none go =>
      have hmax : nextRadiusKm env ride ≤ env.dispatch.maxSearchRadiusKm := le_of_lt (not_le.mp fun hle => go (.inr hle))
      have hwider : 0 ≤ min (nextRadiusKm env ride * 2) env.dispatch.maxSearchRadiusKm :=
        le_min (mul_nonneg hradius zero_le_two) (hradius.trans hmax)
      have hstored : (ride.hset (expandFields ride (dispatchRound + 1)
          (min (nextRadiusKm env ride * 2) env.dispatch.maxSearchRadiusKm) now)).searchRadiusKm =
            min (nextRadiusKm env ride * 2) env.dispatch.maxSearchRadiusKm := by
        simp only [expandFields, hset_cons, hset_nil, RideHash.setField]
      show 0 ≤ orNumber _ _
      rw [hstored]
      unfold orNumber
      split_ifs with hzero
      · -- the radius was 0, and so the one of the configuration is
        have hnone : nextRadiusKm env ride = 0 := by
          by_contra hne
          have hpos : 0 < nextRadiusKm env ride := lt_of_le_of_ne hradius (Ne.symm hne)
          exact (lt_min (mul_pos hpos two_pos) (hpos.trans_le hmax)).ne' hzero
        unfold nextRadiusKm orNumber at hnone
        split_ifs at hnone with hstored
        · exact hnone.ge
        · exact absurd hnone hstored
      · exact hwider
  unfold allowsSearch
  rw [h.origin]
  exact searchable_radius hallows hnext

theorem batch_searching : (searching env ride now).currentBatchId = none := by
  unfold searching
  split_ifs with hnone
  · exact hnone
  · exact hset_clearBatchFields.2.2

/-- `dispatchUnderLock`, run alone on a ride that it searches drivers for: the search is still to come. -/
theorem alone_toSearch (h : dispatchable (s.ride r) = true) (hactive : activeBatch (s.ride r) s.clock = false) :
    ∃ u, ((s.ride r).status = some .dispatching → (s.ride r).currentBatchId = none → u = s) ∧
      u.ride r = searching env (s.ride r) s.clock ∧ SameChoice (givenBack r s) u ∧
      ∀ {result t notes}, Solo env i note (findDrivers env r (u.ride r) (s.ride r).dispatchRound (nextRadiusKm env (s.ride r))
        s.clock) u result t notes → Solo env i note (dispatchUnderLock env r) s result t notes := by
  obtain ⟨t, hchoice, hunstarted, hhash, hstatus, hall⟩ := @alone_start env i r s γ note h
  obtain ⟨hbatch, hdrivers, hsame, -⟩ := @started_batch env (s.ride r) s.clock
  rw [← hsame, ← hhash] at hactive
  obtain ⟨u, hsame', hsearching, hgiven', hrest⟩ := @alone_continueDispatch env i r t γ note s.clock (s.ride r).dispatchRound
    (nextRadiusKm env (s.ride r)) hstatus hactive
  have hgiven : SameChoice (givenBack r s) (givenBack r t) := by
    refine ⟨hchoice.geo, hchoice.notified, hchoice.hash, hchoice.heartbeat, hchoice.active, hchoice.cooldown,
      hchoice.clock, fun d => ?_⟩
    show (if _ then none else t.locks (.reservation d)) = if _ then none else s.locks (.reservation d)
    rw [hhash, hbatch, hdrivers, hchoice.reservation d]
  refine ⟨u, fun hdispatching hnone => ?_, ?_, hgiven.trans hgiven', fun hsearch => hall (hrest hsearch)⟩
  · have hts : t = s := by
      apply hunstarted
      rw [hdispatching]
      decide
    rw [hts] at hsame'
    exact hsame' hnone
  · rw [hsearching, hhash]
    rfl

/-- `dispatchUnderLock`, run alone on a ride that it searches drivers for. -/
theorem alone_dispatchUnderLock (h : dispatchable (s.ride r) = true) (hactive : activeBatch (s.ride r) s.clock = false)
    (hallows : allowsSearch env (s.ride r) (nextRadiusKm env (s.ride r)) = true) :
    ∃ u, ((s.ride r).status = some .dispatching → (s.ride r).currentBatchId = none → u = s) ∧
      u.ride r = searching env (s.ride r) s.clock ∧
      ∃ ride' t, Solo env i note (dispatchUnderLock env r) s (.ok (some ride')) t
          [note (nextRadiusKm env (s.ride r)) u] ∧
        Searched env (Reachable env (givenBack r s) r (s.ride r).dispatchRound (nextRadiusKm env (s.ride r)))
          (u.ride r) (s.ride r).dispatchRound (nextRadiusKm env (s.ride r)) s.clock (t.ride r) ∧
        Renewed r ⟨i, u.nextSeq⟩ u t ∧ Unoffered r u t ∧
        (system env).after i (findDrivers env r (u.ride r) (s.ride r).dispatchRound (nextRadiusKm env (s.ride r)) s.clock) u = t ∧
        u.rideNotifiedDrivers = s.rideNotifiedDrivers := by
  obtain ⟨u, hsame, hhash, hchoice, hrest⟩ := @alone_toSearch env i r s γ note h hactive
  have hstatus : (u.ride r).status = some .dispatching := by
    rw [hhash]
    exact status_searching h
  have horigin : (u.ride r).origin = (s.ride r).origin := by
    rw [hhash]
    exact origin_searching
  have hallows' : allowsSearch env (u.ride r) (nextRadiusKm env (s.ride r)) = true := by
    unfold allowsSearch at hallows ⊢
    rw [horigin]
    exact hallows
  obtain ⟨ride', t, ht, hsearched, hrenewed, hunoffered⟩ := @alone_findDrivers env i r u γ note s.clock
    (s.ride r).dispatchRound (nextRadiusKm env (s.ride r)) hstatus hallows'
  have hfound : Reachable env u r (s.ride r).dispatchRound (nextRadiusKm env (s.ride r)) ↔
      Reachable env (givenBack r s) r (s.ride r).dispatchRound (nextRadiusKm env (s.ride r)) := hchoice.reachable horigin
  rw [hfound] at hsearched
  exact ⟨u, hsame, hhash, ride', t, hrest ht, hsearched, hrenewed, hunoffered, congrArg Prod.snd ht.finish, hchoice.notified⟩

theorem alone_dispatchUnderLock_refused (h : dispatchable (s.ride r) = true)
    (hactive : activeBatch (s.ride r) s.clock = false)
    (hrefused : allowsSearch env (s.ride r) (nextRadiusKm env (s.ride r)) = false) :
    ∃ u, ((s.ride r).status = some .dispatching → (s.ride r).currentBatchId = none → u = s) ∧
      u.ride r = searching env (s.ride r) s.clock ∧ u.rideNotifiedDrivers = s.rideNotifiedDrivers ∧
      Solo env i note (dispatchUnderLock env r) s (.error .replyError) u [note (nextRadiusKm env (s.ride r)) u] := by
  obtain ⟨u, hsame, hhash, hchoice, hrest⟩ := @alone_toSearch env i r s γ note h hactive
  have hrefused' : allowsSearch env (u.ride r) (nextRadiusKm env (s.ride r)) = false := by
    unfold allowsSearch at hrefused ⊢
    rw [hhash, origin_searching]
    exact hrefused
  exact ⟨u, hsame, hhash, hchoice.notified, hrest (alone_findDrivers_refused hrefused')⟩

/-- `dispatchUnderLock`, run alone on a ride that it leaves to others. -/
theorem alone_dispatchUnderLock_idle (h : dispatchable (s.ride r) = false ∨ activeBatch (s.ride r) s.clock = true) :
    ∃ answer t, Solo env i note (dispatchUnderLock env r) s (.ok answer) t [] ∧
      t.ride r = started env (s.ride r) s.clock ∧ t.rideNotifiedDrivers = s.rideNotifiedDrivers := by
  cases hdispatchable : dispatchable (s.ride r) with
  | false =>
    have hother : ¬ ((s.ride r).status = some .requested ∨ (s.ride r).status = some .dispatching) :=
      of_decide_eq_false hdispatchable
    rw [not_or] at hother
    have hunchanged : s.ride r = started env (s.ride r) s.clock := (started_of_dispatching hother.1).symm
    by_cases hread : (s.ride r).status = none
    · refine ⟨none, s, ?_, hunchanged, rfl⟩
      have hsnapshot : toRideSnapshot (s.ride r) = none := if_pos hread
      apply alone_readRide
      rw [hsnapshot]
      exact .ret
    · refine ⟨some (s.ride r), s, alone_getRide hread ?_, hunchanged, rfl⟩
      have hstop : (s.ride r).status ≠ some .requested ∧ (s.ride r).status ≠ some .dispatching := hother
      simp only [hstop, ne_eq, not_false_eq_true, and_self, if_true]
      exact .ret
  | true =>
    have hactive : activeBatch (s.ride r) s.clock = true := by
      rcases h with h | h
      · rw [hdispatchable] at h
        cases h
      · exact h
    obtain ⟨t, hchoice, -, hhash, hstatus, hall⟩ := @alone_start env i r s γ note hdispatchable
    have hsame := (@started_batch env (s.ride r) s.clock).2.2.1
    rw [← hsame, ← hhash] at hactive
    exact ⟨_, t, hall (alone_continueDispatch_waits hstatus hactive), hhash, hchoice.notified⟩

end YatriGo
