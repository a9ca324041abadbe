import YatriGo.Proofs.Searches

/-! When a search finds a driver: the candidates are cut to the nearest ones before they are checked. -/

namespace YatriGo
open Concurrent

variable {env : Env} {i : ℕ} {r : RideId} {s : Store}

/-- Redis answers the next search, and a driver is within its radius that can be reserved and may be asked. -/
def Offerable (env : Env) (r : RideId) (s : Store) : Prop :=
  allowsSearch env (s.ride r) (nextRadiusKm env (s.ride r)) = true ∧
  ∃ p ∈ s.availableDriversGeo, env.geoDistanceKm (s.ride r).origin p.2 ≤ nextRadiusKm env (s.ride r) ∧
    reservable env s p.1 = true ∧ ((s.ride r).dispatchRound ≤ 1 → p.1 ∉ s.rideNotifiedDrivers r)

/-- `dispatchUnderLock` makes a search and leaves the ride DISPATCHING, with a batch: an expanded search
has none, and an exhausted one cancels the ride. -/
def Sends (env : Env) (i : ℕ) (r : RideId) (s : Store) : Prop :=
  (dispatchUnderLock env r).visits ((system env).client i) (Cmd.searches (searchOf r)) s ≠ [] ∧
    (((system env).after i (dispatchUnderLock env r) s).ride r).status = some .dispatching ∧
    (((system env).after i (dispatchUnderLock env r) s).ride r).currentBatchId ≠ none ∧
    (((system env).after i (dispatchUnderLock env r) s).ride r).currentBatchDrivers ≠ []

/-- A driver that may be asked is among the nearest `batchSize * candidateMultiplier` ones; the
reservations of a batch that is over do not count. -/
def InWindow (env : Env) (r : RideId) (s : Store) : Prop :=
  Reachable env (givenBack r s) r (s.ride r).dispatchRound (nextRadiusKm env (s.ride r))

/-- A batch is sent exactly when no other one is running and the window has a driver to ask. -/
theorem sends_iff (h : dispatchable (s.ride r) = true) :
    Sends env i r s ↔ activeBatch (s.ride r) s.clock = false ∧ InWindow env r s := by
  cases hactive : activeBatch (s.ride r) s.clock with
  | true =>
    obtain ⟨answer, t, ht, -⟩ := @alone_dispatchUnderLock_idle env i r s _ (searchOf r) (.inr hactive)
    simp only [Bool.true_eq_false, false_and, iff_false]
    exact fun hsends => hsends.1 ht.visits
  | false =>
    -- a search that Redis refuses sends nothing, and finds nobody either
    cases hallows : allowsSearch env (s.ride r) (nextRadiusKm env (s.ride r)) with
    | false =>
      obtain ⟨u, -, hu, -, hrefused⟩ := @alone_dispatchUnderLock_refused env i r s _ (searchOf r) h hactive hallows
      have hafter : (system env).after i (dispatchUnderLock env r) s = u := congrArg Prod.snd hrefused.finish
      refine ⟨fun hsends => ?_, fun hwindow => ?_⟩
      · have hbatch := hsends.2.2.1
        rw [hafter, hu, batch_searching] at hbatch
        exact absurd rfl hbatch
      · have hallowed : allowsSearch env (s.ride r) (nextRadiusKm env (s.ride r)) = true := hwindow.2.allows
        rw [hallows] at hallowed
        cases hallowed
    | true =>
      obtain ⟨u, -, hu, ride', t, ht, hsearched, -⟩ := @alone_dispatchUnderLock env i r s _ (searchOf r) h hactive hallows
      rw [hu] at hsearched
      have hafter : (system env).after i (dispatchUnderLock env r) s = t := congrArg Prod.snd ht.finish
      have hvisits : (dispatchUnderLock env r).visits ((system env).client i) (Cmd.searches (searchOf r)) s ≠ [] := by
        rw [ht.visits]
        exact List.cons_ne_nil _ _
      unfold Sends
      rw [hafter]
      simp only [hvisits, ne_eq, not_false_eq_true, true_and]
      generalize t.ride r = hash at hsearched
      cases hsearched with
      | sent hfound b ds hds expiresAt =>
        refine ⟨fun _ => hfound, fun _ => ⟨?_, ?_, hds⟩⟩
        · rw [hset_batchFields.1]
          exact status_searching h
        · rw [hset_batchFields.2.2]
          exact Option.some_ne_none b
      | exhausted hnone hstop =>
        refine ⟨fun hsent => ?_, fun hfound => absurd hfound hnone⟩
        rw [hset_exhaustFields.1] at hsent
        cases hsent.1
      | expanded hnone hgo =>
        refine ⟨fun hsent => ?_, fun hfound => absurd hfound hnone⟩
        rw [hset_expandFields.2.2] at hsent
        exact absurd rfl hsent.2.1

/-- An offerable driver gets the ride offered exactly when one of the offerable ones is in the window. -/
theorem no_false_exhaustion (h : dispatchable (s.ride r) = true) :
    (Offerable env r s → Sends env i r s) ↔
      (Offerable env r s → activeBatch (s.ride r) s.clock = false ∧ InWindow env r s) := by
  rw [sends_iff h]

/-- With no more drivers in the radius than the window holds, every offerable one is in it. -/
theorem inWindow_of_offerable (hoffer : Offerable env r s)
    (hfew : (s.availableDriversGeo.filter fun p =>
      env.geoDistanceKm (s.ride r).origin p.2 ≤ nextRadiusKm env (s.ride r)).length ≤
        env.dispatch.batchSize * env.dispatch.candidateMultiplier) :
    InWindow env r s := by
  obtain ⟨hallows, p, hp, hnear, hreservable, hnew⟩ := hoffer
  refine ⟨_, geosearch_of_searchable hallows, p.1, ?_, ?_, ?_⟩
  · unfold nearest
    refine List.mem_map_of_mem ?_
    rw [List.take_of_length_le]
    · rw [List.mem_insertionSort]
      exact List.mem_filter.mpr ⟨hp, decide_eq_true hnear⟩
    · rw [List.length_insertionSort]
      exact hfew
  · rcases le_or_gt (s.ride r).dispatchRound 1 with hround | hround
    · exact .inl (hnew hround)
    · exact .inr hround
  · have hfree : s.locks (.reservation p.1) = none := unreserved_of_reservable hreservable
    have hstays : (givenBack r s).locks (.reservation p.1) = s.locks (.reservation p.1) := by
      show (if _ then none else s.locks (.reservation p.1)) = _
      rw [hfree, ite_self]
    have hsame : reservable env (givenBack r s) p.1 = reservable env s p.1 :=
      reservable_congr rfl rfl rfl hstays rfl rfl
    rw [hsame]
    exact hreservable

/-- Drivers 0 to 18, the farther the higher; all but driver 18 were notified of ride `⟨0, 0⟩` already. -/
def crowdedStore : Store where
  ride := put (fun _ => {}) ⟨0, 0⟩ { status := some .dispatching, dispatchRound := 1, searchRadiusKm := 2, version := 8 }
  rideNotifiedDrivers := put (fun _ => []) ⟨0, 0⟩ (List.range 18)
  driverHash := fun _ => { status := some .online }
  driverHeartbeat := fun _ => some 15000
  availableDriversGeo := (List.range 19).map fun d => (d, ⟨d / 10, 0⟩)

/-- The defaults, and a road on which a driver's latitude is its distance. -/
def roadEnv : Env := .defaults (fun _ _ => 1) fun _ location => location.lat

theorem no_false_exhaustion_crowded :
    (Offerable roadEnv ⟨0, 0⟩ crowdedStore → Sends roadEnv 0 ⟨0, 0⟩ crowdedStore) ↔
      (Offerable roadEnv ⟨0, 0⟩ crowdedStore → activeBatch (crowdedStore.ride ⟨0, 0⟩) crowdedStore.clock = false ∧
        InWindow roadEnv ⟨0, 0⟩ crowdedStore) :=
  no_false_exhaustion (by decide)

/-- Driver 18 is near enough, but the window holds only drivers that were notified already. -/
theorem crowded_ride_expands :
    Offerable roadEnv ⟨0, 0⟩ crowdedStore ∧ ¬ Sends roadEnv 0 ⟨0, 0⟩ crowdedStore ∧
      (((system roadEnv).after 0 (dispatchUnderLock roadEnv ⟨0, 0⟩) crowdedStore).ride ⟨0, 0⟩).searchRadiusKm = 4 := by
  have hoffer : Offerable roadEnv ⟨0, 0⟩ crowdedStore := by
    refine ⟨?_, (18, ⟨18 / 10, 0⟩), ?_, ?_, ?_, ?_⟩ <;> decide +kernel
  have hwindow : ¬ InWindow roadEnv ⟨0, 0⟩ crowdedStore := by
    rintro ⟨found, hfound, hd⟩
    obtain ⟨-, rfl⟩ := geosearch_eq_some.mp hfound
    revert hd
    decide +kernel
  refine ⟨hoffer, fun hsends => ?_, ?_⟩
  · exact hwindow ((sends_iff (by decide)).mp hsends).2
  · decide +kernel

end YatriGo
