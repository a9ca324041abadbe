import YatriGo.Proofs.Searches
import YatriGo.Proofs.SerialDispatch

/-! Whom a search that runs alone takes into its batch, and who has been notified after it. -/

namespace YatriGo
open Concurrent

/-- The drivers that a search takes: the nearest ones of those it looks at that it can reserve. -/
def offer (env : Env) (r : RideId) (dispatchRound : ℕ) (searchRadiusKm : ℚ) (s : Store) : List DriverId :=
  ((candidates env r dispatchRound searchRadiusKm s).filter (reservable env s)).take env.dispatch.batchSize

/-- Leaves alone who has been notified. -/
def Write.mute : Write → Prop
  | .saddNotified .. => False
  | .delNotified _ => False
  | _ => True

def Cmd.mute : ⦃β : Type⦄ → Cmd β → Prop
  | _, .multi ws => ∀ w ∈ ws, w.mute
  | _, _ => True

abbrev Mute {α : Type} (p : App α) : Prop := p.Uses Cmd.mute

variable {env : Env} {i : ℕ} {r : RideId} {d : DriverId} {b : BatchId} {s t u : Store} {α β γ : Type} {note : ℚ → Store → γ}
  {p : App α} {ride : RideHash} {now : Time} {dispatchRound : ℕ} {searchRadiusKm : ℚ} {ds reserved : List DriverId}

theorem notified_multi {ws : List Write} (h : ∀ w ∈ ws, w.mute) :
    (s.multi ws).rideNotifiedDrivers = s.rideNotifiedDrivers := by
  induction ws generalizing s with
  | nil => rfl
  | cons w ws ih =>
    have hmute : w.mute := h w List.mem_cons_self
    have hfirst : (w.apply s).rideNotifiedDrivers = s.rideNotifiedDrivers := by
      cases w with
      | saddNotified r d => exact hmute.elim
      | delNotified r => exact hmute.elim
      | _ => rfl
    rw [multi_cons, ih fun v hv => h v (List.mem_cons_of_mem _ hv), hfirst]

theorem notified_exec {c : Cmd β} (h : c.mute) : (exec env i c s).2.rideNotifiedDrivers = s.rideNotifiedDrivers := by
  by_cases hsingle : c.single
  · exact (exec_sameKeys hsingle).notified
  · cases c with
    | multi ws => exact notified_multi h
    | evalAcceptRide r d acceptedAt reservation =>
      show (acceptRideScript r d acceptedAt reservation s).2.rideNotifiedDrivers = _
      unfold acceptRideScript
      split_ifs <;> rfl
    | _ => exact absurd trivial hsingle

theorem Mute.after (h : Mute p) (s : Store) : ((system env).after i p s).rideNotifiedDrivers = s.rideNotifiedDrivers := by
  have hstep : ∀ (γ : Type) (c : Cmd γ) (s : Store), c.mute →
      ((system env).client i c s).2.rideNotifiedDrivers = s.rideNotifiedDrivers := fun _ _ _ hc => notified_exec hc
  exact h.finish (R := fun s t : Store => t.rideNotifiedDrivers = s.rideNotifiedDrivers) (fun _ => rfl)
    (fun _ _ _ h h' => h'.trans h) hstep s

theorem Mute.ends {result : Except AppError α} {notes : List γ} (h : Mute p) (ht : Solo env i note p s result t notes) :
    t.rideNotifiedDrivers = s.rideNotifiedDrivers := by
  have hafter : (system env).after i p s = t := congrArg Prod.snd ht.finish
  rw [← hafter]
  exact h.after s

theorem Slight.mute (h : Slight p) : Mute p := by
  refine h.mono fun β c hc => ?_
  cases c with
  | multi ws =>
    intro w hw
    have hminor : w.minor := hc w hw
    cases w with
    | saddNotified r d => exact hminor
    | delNotified r => exact hminor
    | _ => trivial
  | _ => trivial

theorem mute_write {w : Write} (h : w.mute) : Mute (write w) := by
  refine ⟨fun v hv => ?_, fun _ => trivial⟩
  rw [List.mem_singleton.mp hv]
  exact h

theorem mute_updateRideHash {fields : List RideField} : Mute (updateRideHash r fields) := by
  have hset : Write.mute (.hsetRide r fields) := trivial
  exact (mute_write hset).bind fun _ => slight_refreshRideRealtimeKeys.mute.bind fun _ => slight_getRide.mute

theorem Write.peripheral.mute {w : Write} (h : w.peripheral) : w.mute := by
  cases w <;> trivial

theorem mute_cleanupWrites {c : CustomerId} {current : Option RideId} : ∀ w ∈ cleanupWrites r c ds current, w.mute := by
  intro w hw
  simp only [cleanupWrites] at hw
  cases w <;> first | trivial | (exfalso; revert hw; split_ifs <;> simp)

theorem mute_releaseRideDriver : Mute (releaseRideDriver r ride now) := by
  unfold releaseRideDriver
  cases ride.driverId with
  | none => trivial
  | some d =>
    refine Prog.Uses.bind ⟨trivial, fun hash => ⟨trivial, fun active => ⟨trivial, fun alive => ?_⟩⟩⟩
      fun _ => slight_enqueueDriverSync.mute
    exact ⟨fun w hw => (releaseWrites_peripheral w hw).mute, fun _ => trivial⟩

theorem mute_exhaustSearch : Mute (exhaustSearch r ride now) := by
  refine mute_updateRideHash.bind fun updated => ?_
  cases updated with
  | none => trivial
  | some updated =>
    refine slight_appendTimelineEvent.mute.bind fun _ => Prog.Uses.bind ?_ fun _ => slight_enqueueRideSync.mute.bind fun _ =>
      slight_emitRideStatusUpdate.mute.bind fun _ => trivial
    exact ⟨trivial, fun ds => ⟨trivial, fun current => ⟨mute_cleanupWrites, fun _ =>
      slight_releaseBatchReservations.mute.bind fun _ => mute_releaseRideDriver⟩⟩⟩

theorem mute_expandSearch {nextRound : ℕ} {nextRadius : ℚ} : Mute (expandSearch env r ride nextRound nextRadius now) := by
  refine mute_updateRideHash.bind fun updated => ?_
  cases updated with
  | none => trivial
  | some updated =>
    exact slight_appendTimelineEvent.mute.bind fun _ => slight_enqueueRideSync.mute.bind fun _ =>
      slight_enqueueDispatchStart.mute.bind fun _ => trivial

/-- The loop takes the drivers that it can reserve, as many as the batch has room for. -/
theorem out_reserveLoop (hnodup : ds.Nodup) (hroom : reserved.length < env.dispatch.batchSize) : ∃ t,
    Solo env i note (reserveLoop env r b ds reserved) s
      (.ok (reserved ++ (ds.filter (reservable env s)).take (env.dispatch.batchSize - reserved.length))) t [] := by
  induction ds generalizing reserved s with
  | nil =>
    rw [List.filter_nil, List.take_nil, List.append_nil]
    exact ⟨s, .ret⟩
  | cons d ds ih =>
    obtain ⟨hnew, hrest⟩ := List.nodup_cons.mp hnodup
    obtain ⟨t, ht, hscreened, hsame⟩ := @alone_isDriverReservable env i d s γ note
    cases hd : reservable env s d with
    | false =>
      obtain ⟨u, hu⟩ := @ih t reserved hrest hroom
      have hfilter : ds.filter (reservable env t) = ds.filter (reservable env s) :=
        List.filter_congr fun d' _ => hscreened.reservable d'
      rw [hd] at ht
      rw [hfilter] at hu
      rw [List.filter_cons_of_neg (by rw [hd]; exact Bool.false_ne_true)]
      exact ⟨u, ht.bind hu⟩
    | true =>
      rw [hd, hsame hd] at ht
      have hfree : s.locks (.reservation d) = none := unreserved_of_reservable hd
      have hlock := @exec_setNX_of_none (.reservation d) (.reservation r b) s env i env.dispatch.reservationTtlMs hfree
      let taken : Store := { s with
        locks := put s.locks (.reservation d) (some ⟨.reservation r b, s.clock + env.dispatch.reservationTtlMs⟩) }
      -- the candidates differ, so reserving one leaves the others as they were
      have hfilter : ds.filter (reservable env taken) = ds.filter (reservable env s) := by
        refine List.filter_congr fun d' hd' => ?_
        have hne : LockKey.reservation d' ≠ .reservation d := by
          intro heq
          rw [LockKey.reservation.inj heq] at hd'
          exact hnew hd'
        exact reservable_congr rfl rfl rfl (put_of_ne hne) rfl rfl
      have hlength : (reserved ++ [d]).length = reserved.length + 1 := List.length_append
      obtain ⟨room, hroom'⟩ := Nat.exists_eq_add_of_lt hroom
      have htake : env.dispatch.batchSize - reserved.length = room + 1 := by omega
      rw [List.filter_cons_of_pos hd, htake, List.take_succ_cons]
      have hnext : ∃ u, Solo env i note (if env.dispatch.batchSize ≤ (reserved ++ [d]).length then .ret (reserved ++ [d])
          else reserveLoop env r b ds (reserved ++ [d])) taken
          (.ok (reserved ++ d :: (ds.filter (reservable env s)).take room)) u [] := by
        split_ifs with hfull
        · have hnone : room = 0 := by omega
          rw [hnone, List.take_zero]
          exact ⟨taken, .ret⟩
        · obtain ⟨u, hu⟩ := @ih taken (reserved ++ [d]) hrest (by omega)
          have hroom'' : env.dispatch.batchSize - (reserved ++ [d]).length = room := by omega
          rw [hfilter, hroom'', List.append_assoc, List.singleton_append] at hu
          exact ⟨u, hu⟩
      obtain ⟨u, hu⟩ := hnext
      refine ⟨u, ht.bind (Prog.Ends.cmd ?_)⟩
      have hclient : (system env).client i (.setNX (.reservation d) (.reservation r b)
          env.dispatch.reservationTtlMs) s = (true, taken) := hlock
      rw [hclient]
      exact hu

/-- Who is in the batch after a search, and who has been notified. -/
structure Notified (env : Env) (r : RideId) (dispatchRound : ℕ) (searchRadiusKm : ℚ) (s t : Store) : Prop where
  batch : (s.availableDriversGeo.map Prod.fst).Nodup → (t.ride r).currentBatchDrivers = offer env r dispatchRound searchRadiusKm s
  drivers : ∀ d, d ∈ t.rideNotifiedDrivers r ↔ d ∈ s.rideNotifiedDrivers r ∨ d ∈ (t.ride r).currentBatchDrivers

theorem notified_batchWrites {expiresAt : Time} :
    d ∈ (s.multi (batchWrites r ride b ds expiresAt now)).rideNotifiedDrivers r ↔ d ∈ s.rideNotifiedDrivers r ∨ d ∈ ds := by
  unfold batchWrites
  rw [multi_append]
  show d ∈ ((s.multi [.hsetRide r (batchFields ride b ds expiresAt now)]).multi _).rideNotifiedDrivers r ↔
    d ∈ (s.multi [.hsetRide r (batchFields ride b ds expiresAt now)]).rideNotifiedDrivers r ∨ d ∈ ds
  generalize s.multi [.hsetRide r (batchFields ride b ds expiresAt now)] = t
  induction ds generalizing t with
  | nil => simp
  | cons d' ds ih =>
    rw [List.flatMap_cons, multi_append, ih]
    show d ∈ put t.rideNotifiedDrivers r (sadd d' (t.rideNotifiedDrivers r)) r ∨ d ∈ ds ↔ _
    rw [put_self, mem_sadd, List.mem_cons]
    tauto

theorem notified_sendBatch : d ∈ ((system env).after i (sendBatch env r ride b ds now) s).rideNotifiedDrivers r ↔
    d ∈ s.rideNotifiedDrivers r ∨ d ∈ ds := by
  -- once the batch is recorded, nobody else is notified
  obtain ⟨rest, hsend, hrest⟩ : ∃ rest : App (Option RideHash), sendBatch env r ride b ds now =
      .cmd (.multi (batchWrites r ride b ds (now + env.dispatch.responseTtlMs) now)) (fun _ => rest) ∧ Mute rest := by
    refine ⟨_, rfl, slight_getRide.mute.bind fun updated => ?_⟩
    cases updated with
    | none => trivial
    | some updated =>
      refine slight_appendTimelineEvent.mute.bind fun _ => slight_enqueueRideSync.mute.bind fun _ =>
        slight_enqueueBatchTimeout.mute.bind fun _ => Prog.Uses.bind ?_ fun _ => trivial
      exact Prog.Uses.forEach fun d _ => slight_publish.mute
  rw [hsend]
  show d ∈ ((system env).after i rest (s.multi _)).rideNotifiedDrivers r ↔ _
  rw [hrest.after]
  exact notified_batchWrites

/-- A search that runs alone. -/
theorem notified_findDrivers (h : (s.ride r).status = some .dispatching)
    (hallows : allowsSearch env (s.ride r) searchRadiusKm = true) : Notified env r dispatchRound searchRadiusKm s
    ((system env).after i (findDrivers env r (s.ride r) dispatchRound searchRadiusKm now) s) := by
  let asked := candidates env r dispatchRound searchRadiusKm s
  let drawn : Store := { s with nextSeq := s.nextSeq + 1 }
  let note : ℚ → Store → Unit := fun _ _ => ()
  obtain ⟨out, u, hu, hride, -⟩ := @alone_reserveLoop env i r Unit note ⟨i, s.nextSeq⟩ asked [] drawn
  let go : App (Option RideHash) := if out = [] then
      if env.dispatch.maxRounds ≤ dispatchRound ∨ env.dispatch.maxSearchRadiusKm ≤ searchRadiusKm then
        exhaustSearch r (s.ride r) now
      else expandSearch env r (s.ride r) (dispatchRound + 1) (min (searchRadiusKm * 2) env.dispatch.maxSearchRadiusKm) now
    else sendBatch env r (s.ride r) ⟨i, s.nextSeq⟩ out now
  have hafter : (system env).after i (findDrivers env r (s.ride r) dispatchRound searchRadiusKm now) s =
      (system env).after i go u := by
    have hgo : Solo env i note go u (go.finish ((system env).client i) u).1 (go.finish ((system env).client i) u).2
        (go.visits ((system env).client i) (Cmd.searches note) u) := ⟨rfl, rfl⟩
    exact congrArg Prod.snd (alone_candidates hallows (hu.bind hgo)).finish
  have hnotified : u.rideNotifiedDrivers = drawn.rideNotifiedDrivers := (slight_reserveLoop asked []).mute.ends hu
  have hout : (s.availableDriversGeo.map Prod.fst).Nodup → out = offer env r dispatchRound searchRadiusKm s := by
    intro hnodup
    rcases Nat.eq_zero_or_pos env.dispatch.batchSize with hzero | hroom
    · have hnone : asked = [] := by
        simp only [asked, candidates, nearest, hzero, Nat.zero_mul, List.take_zero, List.map_nil, List.filter_nil]
      rw [hnone] at hu
      have hempty : out = [] := by
        have hend := congrArg Prod.fst hu.finish
        exact (Except.ok.inj hend).symm
      unfold offer
      rw [hzero, List.take_zero, hempty]
    · have hasked : asked.Nodup := (nodup_nearest hnodup).filter _
      obtain ⟨u', hu'⟩ := @out_reserveLoop env i r ⟨i, s.nextSeq⟩ drawn Unit note asked [] hasked hroom
      have hend := congrArg Prod.fst (hu.finish.symm.trans hu'.finish)
      exact Except.ok.inj hend
  have hstatus : (u.ride r).status ≠ none := by
    rw [hride]
    exact h ▸ Option.some_ne_none _
  rw [hafter]
  -- of the three ways a search ends, only a batch notifies anybody
  have hall : (((system env).after i go u).ride r).currentBatchDrivers = out ∧
      ∀ d, d ∈ ((system env).after i go u).rideNotifiedDrivers r ↔ d ∈ u.rideNotifiedDrivers r ∨ d ∈ out := by
    unfold go
    by_cases hempty : out = []
    · rw [if_pos hempty]
      split_ifs
      · obtain ⟨_, v, hv, hhash, -⟩ := @alone_exhaustSearch env i r u Unit note (s.ride r) now
        have hend : (system env).after i (exhaustSearch r (s.ride r) now) u = v := congrArg Prod.snd hv.finish
        rw [hend, hhash, hempty, mute_exhaustSearch.ends hv]
        exact ⟨rfl, fun d => by simp⟩
      · obtain ⟨_, v, hv, hhash, -⟩ := @alone_expandSearch env i r u Unit note (s.ride r) now (dispatchRound + 1)
          (min (searchRadiusKm * 2) env.dispatch.maxSearchRadiusKm) hstatus
        have hend := congrArg Prod.snd hv.finish
        unfold System.after
        rw [hend, hhash, hempty, mute_expandSearch.ends hv]
        exact ⟨rfl, fun d => by simp⟩
    · rw [if_neg hempty]
      obtain ⟨_, v, hv, hhash, -⟩ := @alone_sendBatch env i r u Unit note (s.ride r) now ⟨i, s.nextSeq⟩ out hstatus
      refine ⟨?_, fun d => notified_sendBatch⟩
      have hend : (system env).after i (sendBatch env r (s.ride r) ⟨i, s.nextSeq⟩ out now) u = v := congrArg Prod.snd hv.finish
      rw [hend, hhash]
      rfl
  refine ⟨fun hnodup => hall.1.trans (hout hnodup), fun d => ?_⟩
  rw [hall.2, hnotified, hall.1]

end YatriGo
