import YatriGo.Concurrent.Solo
import YatriGo.Proofs.DriverSteps

/-! What the end of a ride does to a driver who is on another ride by then. -/

namespace YatriGo
open Concurrent

/-- The driver keeps its hash, apart from the time of the last update, its ride and its place in the pools. -/
structure SameStanding (d : DriverId) (s t : Store) : Prop where
  hash : { t.driverHash d with updatedAt := (s.driverHash d).updatedAt } = s.driverHash d
  activeRide : (t.keys d).activeRide = (s.keys d).activeRide
  available : (t.keys d).available = (s.keys d).available
  geo : (t.keys d).geo = (s.keys d).geo
  busy : (t.keys d).busy = (s.keys d).busy

/-- Of the driver's other keys, only a pending dispatch and a reservation of the ride `r` went away. -/
structure Narrow (r : RideId) (d : DriverId) (s t : Store) : Prop where
  heartbeat : t.driverHeartbeat d = s.driverHeartbeat d
  cooldown : t.rejectCooldown d = s.rejectCooldown d
  pending : ∀ r', r' ≠ r → (r' ∈ t.driverPendingDispatches d ↔ r' ∈ s.driverPendingDispatches d)
  cleared : r ∈ t.driverPendingDispatches d → r ∈ s.driverPendingDispatches d
  reservation : t.locks (.reservation d) = s.locks (.reservation d) ∨
    t.locks (.reservation d) = none ∧ ∃ b e, s.locks (.reservation d) = some ⟨.reservation r b, e⟩

/-- `driverHash.lat && driverHash.lng`, and Redis takes the position. -/
def DriverHash.located (hash : DriverHash) : Bool :=
  match hash.lat, hash.lng with
  | .num lat, .num lng => Location.mapped ⟨lat, lng⟩
  | _, _ => false

/-- The driver's standing is already the one that a release leaves. -/
structure AlreadyFree (d : DriverId) (s : Store) : Prop where
  hashRide : (s.keys d).hashRide = none
  busy : (s.keys d).busy = false
  standing : (s.keys d).status = some .offline ∨
    (s.keys d).status = some .online ∧ (s.driverHeartbeat d).isSome = true ∧ (s.keys d).available = true ∧
      ((s.driverHash d).located = true → (s.keys d).geo = true)

/-- A step that leaves the driver alone, but for what belongs to the ride `r`. -/
structure Aside (r : RideId) (d : DriverId) (s t : Store) : Prop where
  hash : t.driverHash = s.driverHash
  activeRide : t.driverActiveRide = s.driverActiveRide
  pools : t.driverSet = s.driverSet
  geo : t.availableDriversGeo = s.availableDriversGeo
  narrow : Narrow r d s t

variable {env : Env} {i : ℕ} {r r' : RideId} {d d' : DriverId} {s t u : Store} {hash : DriverHash}
  {active : Option RideId} {heartbeatExists : Bool} {now : Time} {w : Write} {ws : List Write} {ride : RideHash}
  {b : BatchId}

theorem Narrow.refl : Narrow r d s s := ⟨rfl, rfl, fun _ _ => Iff.rfl, id, .inl rfl⟩

theorem Narrow.trans (h : Narrow r d s t) (h' : Narrow r d t u) : Narrow r d s u where
  heartbeat := h'.heartbeat.trans h.heartbeat
  cooldown := h'.cooldown.trans h.cooldown
  pending := fun r' hne => (h'.pending r' hne).trans (h.pending r' hne)
  cleared := fun hr => h.cleared (h'.cleared hr)
  reservation := by
    rcases h'.reservation with hsame' | ⟨hnone', b, e, hheld'⟩
    · rw [hsame']
      exact h.reservation
    · rcases h.reservation with hsame | ⟨hnone, -⟩
      · rw [hsame] at hheld'
        exact .inr ⟨hnone', b, e, hheld'⟩
      · rw [hnone] at hheld'
        cases hheld'

/-- Of the keys of `Narrow`, the write changes only pending dispatches, and removes only `r` from them. -/
def Write.narrow (r : RideId) : Write → Prop
  | .setHeartbeat .. => False
  | .delHeartbeat _ => False
  | .setRejectCooldown .. => False
  | .delReservation _ => False
  | .saddPending .. => False
  | .sremPending _ r' => r' = r
  | _ => True

theorem Write.narrow.apply (h : w.narrow r) : Narrow r d s (w.apply s) := by
  cases w with
  | sremPending d' r' =>
    have hr : r' = r := h
    refine ⟨rfl, rfl, fun x hne => ?_, fun hx => (mem_put_srem.mp hx).1, .inl rfl⟩
    exact mem_put_srem.trans ⟨fun hx => hx.1, fun hx => ⟨hx, fun heq => hne (heq.2.trans hr)⟩⟩
  | setHeartbeat d' ttl => exact h.elim
  | delHeartbeat d' => exact h.elim
  | setRejectCooldown d' ttl => exact h.elim
  | delReservation d' => exact h.elim
  | saddPending d' r' => exact h.elim
  | _ => exact ⟨rfl, rfl, fun _ _ => Iff.rfl, id, .inl rfl⟩

theorem narrow_multi (h : ∀ w ∈ ws, w.narrow r) : Narrow r d s (s.multi ws) := by
  induction ws generalizing s with
  | nil => exact .refl
  | cons w ws ih =>
    have hfirst : Narrow r d s (w.apply s) := (h w List.mem_cons_self).apply
    rw [multi_cons]
    exact hfirst.trans (ih fun v hv => h v (List.mem_cons_of_mem _ hv))

theorem Aside.trans (h : Aside r d s t) (h' : Aside r d t u) : Aside r d s u :=
  ⟨h'.hash.trans h.hash, h'.activeRide.trans h.activeRide, h'.pools.trans h.pools, h'.geo.trans h.geo,
    h.narrow.trans h'.narrow⟩

theorem Aside.keys (h : Aside r d s t) : t.keys d = s.keys d := by
  simp only [Store.keys, h.hash, h.activeRide, h.pools, h.geo]

theorem Aside.alreadyFree (h : Aside r d s t) : AlreadyFree d t ↔ AlreadyFree d s := by
  constructor
  · rintro ⟨hride, hbusy, hstanding⟩
    rw [h.keys] at hride hbusy hstanding
    rw [h.hash, h.narrow.heartbeat] at hstanding
    exact ⟨hride, hbusy, hstanding⟩
  · rintro ⟨hride, hbusy, hstanding⟩
    rw [← h.keys] at hride hbusy hstanding
    rw [← h.hash, ← h.narrow.heartbeat] at hstanding
    exact ⟨hride, hbusy, hstanding⟩

theorem sameStanding_iff (h : Aside r d s t) {t' u' : Store} (h' : Aside r d t' u') :
    SameStanding d s u' ↔ SameStanding d t t' := by
  constructor
  · rintro ⟨hhash, hactive, havailable, hgeo, hbusy⟩
    rw [h'.hash, ← h.hash] at hhash
    rw [h'.keys, ← h.keys] at hactive havailable hgeo hbusy
    exact ⟨hhash, hactive, havailable, hgeo, hbusy⟩
  · rintro ⟨hhash, hactive, havailable, hgeo, hbusy⟩
    rw [← h'.hash, h.hash] at hhash
    rw [← h'.keys, h.keys] at hactive havailable hgeo hbusy
    exact ⟨hhash, hactive, havailable, hgeo, hbusy⟩

theorem releaseWrites_narrow : ∀ w ∈ releaseWrites d r hash active heartbeatExists now, w.narrow r := by
  intro w hw
  have hlists : w.ofLists = true → w = .sremPending d r := (releaseWrites_driver w hw).2.2.1
  have hperipheral : w.peripheral := releaseWrites_peripheral w hw
  simp only [releaseWrites] at hw
  cases w with
  | sremPending d' r' => exact (Write.sremPending.inj (hlists rfl)).2
  | saddPending d' r' => cases hlists rfl
  | setHeartbeat d' ttl => (exfalso; revert hw; split_ifs <;> repeat' split) <;> simp
  | delHeartbeat d' => (exfalso; revert hw; split_ifs <;> repeat' split) <;> simp
  | setRejectCooldown d' ttl => (exfalso; revert hw; split_ifs <;> repeat' split) <;> simp
  | delReservation d' => (exfalso; revert hw; split_ifs <;> repeat' split) <;> simp
  | _ => trivial

/-- What a release makes of the keys of a driver who is not on the ride. -/
theorem released_keys (hactive : (s.keys d).activeRide ≠ some r) :
    (s.multi (releaseWrites d r (s.driverHash d) (s.driverActiveRide d) heartbeatExists now)).keys d =
      if (s.driverHash d).status.getD .offline = .offline ∨ heartbeatExists = false then
        { s.keys d with status := some .offline, hashRide := none, busy := false }
      else
        { s.keys d with
          status := some .online, hashRide := none, busy := false, online := true, available := true
          geo := (s.keys d).geo || (s.driverHash d).located } := by
  have hother : s.driverActiveRide d ≠ some r := hactive
  rw [keys_multi fun w hw => (releaseWrites_driver w hw).2.2.2]
  generalize hk : s.keys d = k
  generalize hhash : s.driverHash d = hash
  unfold releaseWrites
  rw [if_neg hother]
  split_ifs
  · rfl
  · cases hlat : hash.lat <;> cases hlng : hash.lng <;>
      simp [DriverKeys.update, DriverKeys.setField, DriverKeys.setPool, DriverHash.located, hlat, hlng]

theorem released_hash :
    (s.multi (releaseWrites d r (s.driverHash d) active heartbeatExists now)).driverHash d =
      { s.driverHash d with
        activeRideId := none
        updatedAt := some now
        status := some (if (s.driverHash d).status.getD .offline = .offline ∨ heartbeatExists = false then .offline
          else .online) } := by
  generalize hhash : s.driverHash d = hash
  unfold releaseWrites
  split_ifs
  · simp [Store.multi, Write.apply, put_self, hhash, DriverHash.hset, DriverHash.setField]
  · cases hash.lat <;> cases hash.lng <;>
      simp [Store.multi, Write.apply, put_self, hhash, DriverHash.hset, DriverHash.setField]
  · simp [Store.multi, Write.apply, put_self, hhash, DriverHash.hset, DriverHash.setField]
  · cases hash.lat <;> cases hash.lng <;>
      simp [Store.multi, Write.apply, put_self, hhash, DriverHash.hset, DriverHash.setField]

theorem sameHash_iff {status : DriverStatus} {atTime : Option Time} (hash : DriverHash) :
    { ({ hash with activeRideId := none, updatedAt := atTime, status := some status } : DriverHash) with
      updatedAt := hash.updatedAt } = hash ↔ hash.activeRideId = none ∧ hash.status = some status := by
  constructor
  · intro h
    exact ⟨(congrArg DriverHash.activeRideId h).symm, (congrArg DriverHash.status h).symm⟩
  · rintro ⟨hride, hstatus⟩
    rw [← hride, ← hstatus]

/-- A release leaves the standing of such a driver alone just if it has nothing to do. -/
theorem sameStanding_release (hactive : (s.keys d).activeRide ≠ some r) :
    SameStanding d s (s.multi (releaseWrites d r (s.driverHash d) (s.driverActiveRide d)
      (s.driverHeartbeat d).isSome now)) ↔ AlreadyFree d s := by
  have hkeys := @released_keys r d s (s.driverHeartbeat d).isSome now hactive
  have hhash := @released_hash r d s (s.driverActiveRide d) (s.driverHeartbeat d).isSome now
  have hstatus : (s.keys d).status = (s.driverHash d).status := rfl
  split_ifs at hkeys hhash with hoffline
  · constructor
    · rintro ⟨hh, -, -, -, hb⟩
      rw [hhash, sameHash_iff] at hh
      rw [hkeys] at hb
      exact ⟨hh.1, hb.symm, .inl hh.2⟩
    · rintro ⟨hride, hbusy, hstanding⟩
      have hs : (s.driverHash d).status = some .offline := by
        rcases hstanding with hs | ⟨hs, hbeat, -⟩
        · exact hs
        · rcases hoffline with hoff | hoff
          · rw [← hstatus, hs] at hoff
            cases hoff
          · rw [hbeat] at hoff
            cases hoff
      refine ⟨?_, by rw [hkeys], by rw [hkeys], by rw [hkeys], by rw [hkeys, hbusy]⟩
      rw [hhash, sameHash_iff]
      exact ⟨hride, hs⟩
  · rw [not_or] at hoffline
    obtain ⟨hoff, hbeat⟩ := hoffline
    have hbeat' : (s.driverHeartbeat d).isSome = true := Bool.eq_true_of_not_eq_false hbeat
    constructor
    · rintro ⟨hh, -, ha, hg, hb⟩
      rw [hhash, sameHash_iff] at hh
      rw [hkeys] at ha hg hb
      refine ⟨hh.1, hb.symm, .inr ⟨hh.2, hbeat', ha.symm, fun hlocated => ?_⟩⟩
      rw [← hg, hlocated, Bool.or_true]
    · rintro ⟨hride, hbusy, hstanding⟩
      rcases hstanding with hs | ⟨hs, -, ha, hg⟩
      · rw [← hstatus, hs] at hoff
        exact absurd rfl hoff
      · have hgeo : ((s.keys d).geo || (s.driverHash d).located) = (s.keys d).geo := by
          cases hlocated : (s.driverHash d).located with
          | false => exact Bool.or_false _
          | true =>
            rw [hg hlocated]
            rfl
        refine ⟨?_, by rw [hkeys], by rw [hkeys, ha], by rw [hkeys]; exact hgeo, by rw [hkeys, hbusy]⟩
        rw [hhash, sameHash_iff]
        exact ⟨hride, hs⟩

theorem aside_multi (h : ∀ w ∈ ws, w.driver = none ∧ w.narrow r) : Aside r d s (s.multi ws) := by
  have hdriver : ∀ w ∈ ws, w.driver = none := fun w hw => (h w hw).1
  constructor
  · exact multi_same (f := Store.driverHash) fun w hw s => by
      have hw := hdriver w hw
      cases w <;> first | rfl | cases hw
  · exact multi_same (f := Store.driverActiveRide) fun w hw s => by
      have hw := hdriver w hw
      cases w <;> first | rfl | cases hw
  · exact multi_same (f := Store.driverSet) fun w hw s => by
      have hw := hdriver w hw
      cases w <;> first | rfl | cases hw
  · exact multi_same (f := Store.availableDriversGeo) fun w hw s => by
      have hw := hdriver w hw
      cases w <;> first | rfl | cases hw
  · exact narrow_multi fun w hw => (h w hw).2

theorem aside_releaseLock : Aside r d s (releaseLockScript (.reservation d') (.reservation r b) s).2 := by
  obtain ⟨locks, hlocks⟩ := @releaseLockScript_eq (.reservation d') (.reservation r b) s
  have hreservation : (releaseLockScript (.reservation d') (.reservation r b) s).2.locks (.reservation d) =
      s.locks (.reservation d) ∨
      (releaseLockScript (.reservation d') (.reservation r b) s).2.locks (.reservation d) = none ∧
        ∃ b e, s.locks (.reservation d) = some ⟨.reservation r b, e⟩ := by
    unfold releaseLockScript
    split
    · rename_i lease hlease
      split_ifs with htoken
      · rcases eq_or_ne d d' with rfl | hne
        · exact .inr ⟨put_self, b, lease.expiresAt, by rw [hlease, ← htoken]⟩
        · exact .inl (put_of_ne fun heq => hne (LockKey.reservation.inj heq))
      · exact .inl rfl
    · exact .inl rfl
  rw [hlocks] at hreservation ⊢
  exact ⟨rfl, rfl, rfl, rfl, rfl, rfl, fun _ _ => Iff.rfl, id, hreservation⟩

theorem finish_releaseBatchReservations : ∃ t,
    (releaseBatchReservations r ride).finish ((system env).client i) s = (.ok (), t) ∧ Aside r d s t := by
  have hrefl : ∀ s : Store, Aside r d s s := fun s => ⟨rfl, rfl, rfl, rfl, .refl⟩
  unfold releaseBatchReservations
  split
  · rename_i b hb
    have hturn : ∀ (d' : DriverId) (s : Store),
        (releaseLock (.reservation d') (.reservation r b)).finish ((system env).client i) s =
          (.ok (), (releaseLockScript (.reservation d') (.reservation r b) s).2) := fun _ _ => rfl
    have hfold : ∀ (ds : List DriverId) (s : Store), Aside r d s
        (ds.foldl (fun s d' => (releaseLockScript (.reservation d') (.reservation r b) s).2) s) := by
      intro ds
      induction ds with
      | nil => exact hrefl
      | cons d' ds ih => exact fun s => aside_releaseLock.trans (ih _)
    exact ⟨_, Prog.finish_forEach hturn _ s, hfold _ s⟩
  · exact ⟨s, rfl, hrefl s⟩

theorem cleanupWrites_aside {c : CustomerId} {ds : List DriverId} {current : Option RideId} :
    ∀ w ∈ cleanupWrites r c ds current, w.driver = none ∧ w.narrow r := by
  intro w hw
  simp only [cleanupWrites, List.mem_append, List.mem_singleton, List.mem_map] at hw
  rcases hw with ((rfl | hw) | rfl) | ⟨d', -, rfl⟩
  · exact ⟨rfl, trivial⟩
  · split_ifs at hw
    · obtain rfl := List.mem_singleton.mp hw
      exact ⟨rfl, trivial⟩
    · cases hw
  · exact ⟨rfl, trivial⟩
  · exact ⟨rfl, rfl⟩

theorem aside_enqueueDriverSync {reason : SyncReason} :
    Aside r d s ((system env).after i (enqueueDriverSync d' reason none) s) := by
  obtain ⟨jobs, hjobs⟩ := @addJob_eq s (.persistDriver d' reason s.clock) 0
  have hafter : (system env).after i (enqueueDriverSync d' reason none) s =
      addJob (.persistDriver d' reason s.clock) 0 s := rfl
  rw [hafter, hjobs]
  exact ⟨rfl, rfl, rfl, rfl, rfl, rfl, fun _ _ => Iff.rfl, id, .inl rfl⟩

/-- But for what belongs to the ride, `cleanupTerminalRideKeys` treats the driver as a release does. -/
theorem after_cleanup (hdriver : ride.driverId = some d) :
    ∃ s₁, Aside r d s s₁ ∧ Aside r d ((system env).after i (releaseDriverAvailability (some d) r now) s₁)
      ((system env).after i (cleanupTerminalRideKeys r ride now) s) := by
  have hwrites : Aside r d s (s.multi (cleanupWrites r ride.customerId (s.rideNotifiedDrivers r)
      (s.customerActiveRide ride.customerId))) := aside_multi cleanupWrites_aside
  obtain ⟨s₁, hfinish, hreleases⟩ := @finish_releaseBatchReservations env i r d
    (s.multi (cleanupWrites r ride.customerId (s.rideNotifiedDrivers r)
      (s.customerActiveRide ride.customerId))) ride
  have hcleanup : (system env).after i (cleanupTerminalRideKeys r ride now) s =
      (system env).after i (releaseRideDriver r ride now) s₁ := by
    have hfront : (system env).after i (cleanupTerminalRideKeys r ride now) s =
        (system env).after i ((releaseBatchReservations r ride).bind fun _ => releaseRideDriver r ride now)
          (s.multi (cleanupWrites r ride.customerId (s.rideNotifiedDrivers r)
            (s.customerActiveRide ride.customerId))) := rfl
    rw [hfront, System.after, Prog.finish_bind, hfinish, Prog.resume_ok]
  refine ⟨s₁, hwrites.trans hreleases, ?_⟩
  rw [hcleanup, releaseRideDriver, hdriver]
  exact aside_enqueueDriverSync

/-- Finishing the ride `r` leaves a driver who is on another ride alone just if the driver's standing
is already the one of a free driver. -/
theorem finished_ride_spares (hactive : s.driverActiveRide d = some r') (hne : r' ≠ r) :
    ((SameStanding d s ((system env).after i (releaseDriverAvailability (some d) r now) s) ∧
        Narrow r d s ((system env).after i (releaseDriverAvailability (some d) r now) s)) ↔ AlreadyFree d s) ∧
      ∀ ride : RideHash, ride.driverId = some d →
        ((SameStanding d s ((system env).after i (cleanupTerminalRideKeys r ride now) s) ∧
          Narrow r d s ((system env).after i (cleanupTerminalRideKeys r ride now) s)) ↔ AlreadyFree d s) := by
  have hother : ∀ {u : Store}, u.driverActiveRide d = some r' → (u.keys d).activeRide ≠ some r := by
    intro u hu heq
    have heq' : u.driverActiveRide d = some r := heq
    rw [hu] at heq'
    exact hne (Option.some.inj heq')
  have hrelease : ∀ u : Store, Narrow r d u ((system env).after i (releaseDriverAvailability (some d) r now) u) :=
    fun u => narrow_multi releaseWrites_narrow
  refine ⟨?_, fun ride hdriver => ?_⟩
  · rw [and_iff_left (hrelease s)]
    exact sameStanding_release (hother hactive)
  · obtain ⟨s₁, hbefore, hafter⟩ := @after_cleanup env i r d s now ride hdriver
    have hactive₁ : s₁.driverActiveRide d = some r' := by rw [hbefore.activeRide, hactive]
    have hnarrow := (hbefore.narrow.trans (hrelease s₁)).trans hafter.narrow
    rw [and_iff_left hnarrow, sameStanding_iff hbefore hafter, ← hbefore.alreadyFree]
    exact sameStanding_release (hother hactive₁)

/-- Driver 1 drives ride `⟨0, 2⟩`, and the ride `⟨0, 1⟩` still names it. -/
def drivingStore : Store where
  driverHash := put (fun _ => {}) 1 { status := some .busy, activeRideId := some ⟨0, 2⟩ }
  driverHeartbeat := put (fun _ => none) 1 (some 15000)
  driverActiveRide := put (fun _ => none) 1 (some ⟨0, 2⟩)
  driverSet := fun pool => if pool = .available then [] else [1]

theorem finished_ride_spares_driving :
    ¬ (SameStanding 1 drivingStore
        ((system townEnv).after 0 (releaseDriverAvailability (some 1) ⟨0, 1⟩ 5000) drivingStore) ∧
      Narrow ⟨0, 1⟩ 1 drivingStore
        ((system townEnv).after 0 (releaseDriverAvailability (some 1) ⟨0, 1⟩ 5000) drivingStore)) := by
  have hactive : drivingStore.driverActiveRide 1 = some ⟨0, 2⟩ := rfl
  have hne : (⟨0, 2⟩ : RideId) ≠ ⟨0, 1⟩ := by decide
  intro h
  have hfree : AlreadyFree 1 drivingStore := (finished_ride_spares hactive hne).1.mp h
  exact absurd hfree.hashRide (by decide)

/-- The end of the other ride makes the driver ONLINE and available. -/
theorem driving_driver_freed :
    drivingStore.driverActiveRide 1 = some ⟨0, 2⟩ ∧
      (((system townEnv).after 0 (releaseDriverAvailability (some 1) ⟨0, 1⟩ 5000) drivingStore).driverHash 1).status =
        some .online ∧
      1 ∈ ((system townEnv).after 0 (releaseDriverAvailability (some 1) ⟨0, 1⟩ 5000) drivingStore).driverSet
        .available ∧
      ¬ SameStanding 1 drivingStore
        ((system townEnv).after 0 (releaseDriverAvailability (some 1) ⟨0, 1⟩ 5000) drivingStore) := by
  refine ⟨rfl, rfl, by decide, fun h => ?_⟩
  have havailable := h.available
  revert havailable
  decide

end YatriGo
