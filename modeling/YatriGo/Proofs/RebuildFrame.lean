import YatriGo.Proofs.CustomerRides
import YatriGo.Proofs.RebuildTurns

/-! What a rebuild does to Redis state that is alive. -/

namespace YatriGo
open Concurrent

/-- The ride is in Redis and neither COMPLETED nor CANCELLED. -/
def Store.goingOn (s : Store) (r : RideId) : Prop := (s.ride r).status ≠ none ∧ ¬ (s.ride r).terminal

structure PoolInvariants (s : Store) : Prop where
  disjoint : ∀ d, d ∈ s.driverSet .available → d ∉ s.driverSet .busy
  available : ∀ d, d ∈ s.driverSet .available → (s.driverHash d).status = some .online ∧
    (s.driverHash d).activeRideId = none ∧ s.driverActiveRide d = none
  busy : ∀ d, (s.driverHash d).status = some .busy →
    ∃ r, (s.driverHash d).activeRideId = some r ∧ s.goingOn r
  customer : ∀ c r, s.customerActiveRide c = some r → ActiveRide c r s

/-- Every document was synced from some earlier state of its ride or driver. -/
structure FromEarlier (s : Store) : Prop where
  rides : ∀ x ∈ storedRides s, ∃ past : Store, (past.ride x.1).status ≠ none ∧
    x.2.fields = rideDocFields (past.ride x.1)
  drivers : ∀ x ∈ storedDrivers s, ∃ past : Store, PoolInvariants past ∧
    ∃ state, toDriverSnapshot (past.driverHash x.1) = some state ∧
      x.2 = ⟨state.status, state.activeRideId, state.lat, state.lng⟩

/-- What Redis had is still there after a rebuild. -/
structure Undamaged (s t : Store) : Prop where
  drivers : ∀ d, (s.driverHash d).status ≠ none → t.driverHash d = s.driverHash d
  rides : ∀ r, (s.ride r).status ≠ none → t.ride r = s.ride r
  customers : ∀ c r, s.customerActiveRide c = some r → ActiveRide c r s → t.customerActiveRide c = some r
  pools : PoolInvariants t

/-- A stored ride that goes on there, and that Redis does not have. -/
def Lost (s : Store) (ride : RideId × RideDoc) : Prop := ride ∈ storedRides s ∧ Missing s ride

/-- The driver has no active ride, and gets none from a lost ride. -/
def Unassigned (s : Store) (d : DriverId) : Prop :=
  s.driverActiveRide d = none ∧ ∀ ride, Lost s ride → ride.2.fields.driverId ≠ some d

/-- The hash says what the document says, and was updated just now. -/
structure Reflects (driver : DriverDoc) (now : Time) (hash : DriverHash) : Prop where
  status : hash.status = some driver.status
  activeRideId : hash.activeRideId = driver.activeRideId
  lat : hash.lat = .ofNumber driver.lat
  lng : hash.lng = .ofNumber driver.lng
  updatedAt : hash.updatedAt = some now

/-- Redis has neither an active ride of the customer nor the driver of a lost ride. A stored
driver without active ride is not in Redis, or there already as stored; it is not among the
busy drivers if it is stored as free, and its stored ride goes on if it is stored as busy. -/
structure Harmless (s : Store) : Prop where
  customers : ∀ x, Lost s x → s.customerActiveRide x.2.fields.customerId = none
  rideDrivers : ∀ x d, Lost s x → x.2.fields.driverId = some d → (s.driverHash d).status = none
  hashes : ∀ x ∈ storedDrivers s, Unassigned s x.1 → (s.driverHash x.1).status ≠ none →
    Reflects x.2 s.clock (s.driverHash x.1)
  free : ∀ x ∈ storedDrivers s, Unassigned s x.1 → x.2.opens → x.1 ∉ s.driverSet .busy
  busy : ∀ x ∈ storedDrivers s, Unassigned s x.1 → x.2.status = .busy →
    ∃ r, x.2.activeRideId = some r ∧ (s.goingOn r ∨ ∃ ride, Lost s (r, ride))

variable {env : Env} {s u t : Store} {r : RideId} {c : CustomerId} {d : DriverId}

theorem reflects_iff {driver : DriverDoc} {now : Time} {hash : DriverHash} :
    Reflects driver now hash ↔ hash.hset (rebuiltDriverFields driver now) = hash := by
  constructor
  · rintro ⟨hstatus, hactive, hlat, hlng, hupdated⟩
    cases hash
    cases hstatus
    cases hactive
    cases hlat
    cases hlng
    cases hupdated
    rfl
  · intro h
    exact
      { status := by rw [← h]; rfl
        activeRideId := by rw [← h]; rfl
        lat := by rw [← h]; rfl
        lng := by rw [← h]; rfl
        updatedAt := by rw [← h]; rfl }

/-- Seen from `s`: the loop over the rides leads to `u`, and the one over the drivers to `t`. -/
structure Rebuilding (env : Env) (s u t : Store) : Prop where
  rides : RidesRebuilt env s (storedRides s) u
  drivers : DriversRebuilt u (storedDrivers s) t

section rebuilding

variable (h : Rebuilding env s u t)
include h

theorem Rebuilding.ride_eq (hr : (s.ride r).status ≠ none) : t.ride r = s.ride r := by
  rw [h.drivers.rides.1]
  rcases h.rides.ride r with ⟨heq, -⟩ | ⟨x, -, hmissing, rfl, -⟩
  · exact heq
  · exact absurd hmissing hr

theorem Rebuilding.goingOn (hr : s.goingOn r) : t.goingOn r := by
  unfold Store.goingOn
  rw [h.ride_eq hr.1]
  exact hr

theorem Rebuilding.lost_ride {x : RideId × RideDoc} (hx : Lost s x) : t.ride x.1 = rebuiltRideHash env x.2 := by
  rw [h.drivers.rides.1]
  rcases h.rides.ride x.1 with ⟨-, hnone⟩ | ⟨y, hy, -, hid, heq⟩
  · exact absurd rfl (hnone x hx.1 hx.2)
  · rw [heq, storedRides_one x hx.1 y hy hid]

theorem Rebuilding.lost_goingOn (hdocs : FromEarlier s) {x : RideId × RideDoc} (hx : Lost s x) :
    t.goingOn x.1 := by
  unfold Store.goingOn
  rw [h.lost_ride hx]
  obtain ⟨-, hcompleted, hcancelled⟩ := mem_storedRides hx.1
  obtain ⟨past, hstatus, hfields⟩ := hdocs.rides x hx.1
  refine ⟨?_, ?_⟩
  · show x.2.fields.status ≠ none
    rw [hfields]
    exact hstatus
  · rintro (hterminal | hterminal)
    · exact hcompleted hterminal
    · exact hcancelled hterminal

theorem Rebuilding.goingOn_cases (hr : t.goingOn r) : s.goingOn r ∨ ∃ ride, Lost s (r, ride) := by
  rcases h.rides.ride r with ⟨heq, -⟩ | ⟨x, hx, hmissing, rfl, -⟩
  · left
    unfold Store.goingOn at hr ⊢
    rw [h.drivers.rides.1, heq] at hr
    exact hr
  · exact Or.inr ⟨x.2, hx, hmissing⟩

theorem Rebuilding.named {x : RideId × RideDoc} (hx : Lost s x) (hd : x.2.fields.driverId = some d) :
    ∃ y, Lost s y ∧ (t.driverHash d).status = some .busy ∧ (t.driverHash d).activeRideId = some y.1 := by
  rcases h.rides.driver d with ⟨-, -, -, hnone⟩ | ⟨y, hy, hmissing, -, hkey, hstatus, hactive⟩
  · exact absurd hd (hnone x hx.1 hx.2)
  · refine ⟨y, ⟨hy, hmissing⟩, ?_⟩
    rcases h.drivers.driver d with ⟨hhash, -, -⟩ | ⟨z, -, -, hfree, -⟩
    · rw [hhash]
      exact ⟨hstatus, hactive⟩
    · rw [hkey] at hfree
      cases hfree

theorem Rebuilding.named_available {x : RideId × RideDoc} (hx : Lost s x) (hd : x.2.fields.driverId = some d) :
    d ∈ t.driverSet .available ↔ d ∈ s.driverSet .available := by
  rcases h.rides.driver d with ⟨-, -, -, hnone⟩ | ⟨y, -, -, -, hkey, -⟩
  · exact absurd hd (hnone x hx.1 hx.2)
  · rcases h.drivers.driver d with ⟨-, hsets, -⟩ | ⟨z, -, -, hfree, -⟩
    · rw [hsets, h.rides.available]
    · rw [hkey] at hfree
      cases hfree

theorem Rebuilding.unassigned (hd : Unassigned s d) :
    u.driverActiveRide d = none ∧ u.driverHash d = s.driverHash d ∧
      (d ∈ u.driverSet .busy ↔ d ∈ s.driverSet .busy) := by
  rcases h.rides.driver d with ⟨hkey, hhash, hbusy, -⟩ | ⟨y, hy, hmissing, hid, -⟩
  · exact ⟨hkey.trans hd.1, hhash, hbusy⟩
  · exact absurd hid (hd.2 y ⟨hy, hmissing⟩)

theorem Rebuilding.written {x : DriverId × DriverDoc} (hx : x ∈ storedDrivers s) (hd : Unassigned s x.1) :
    t.driverHash x.1 = (s.driverHash x.1).hset (rebuiltDriverFields x.2 s.clock) ∧
      (x.1 ∈ t.driverSet .available ↔ x.2.opens ∨ x.1 ∈ s.driverSet .available ∧ ¬ x.2.engages) ∧
      (x.1 ∈ t.driverSet .busy ↔ x.1 ∈ s.driverSet .busy ∨ x.2.engages) := by
  obtain ⟨hkey, hhash, hbusy⟩ := h.unassigned hd
  rcases h.drivers.driver x.1 with ⟨-, -, hnone⟩ | ⟨y, hy, hid, -, hhash', havailable', hbusy'⟩
  · exact absurd hkey (hnone x hx rfl)
  · obtain rfl := storedDrivers_one x hx y hy hid
    rw [hhash', havailable', hbusy', hhash, hbusy, h.rides.available, h.rides.clock]
    exact ⟨rfl, Iff.rfl, Iff.rfl⟩

theorem Rebuilding.driver_cases (d : DriverId) :
    (t.driverHash d = s.driverHash d ∧ (d ∈ t.driverSet .available ↔ d ∈ s.driverSet .available) ∧
      (d ∈ t.driverSet .busy ↔ d ∈ s.driverSet .busy) ∧ t.driverActiveRide d = s.driverActiveRide d) ∨
    (∃ x, Lost s x ∧ x.2.fields.driverId = some d) ∨
    ∃ x ∈ storedDrivers s, x.1 = d ∧ Unassigned s d ∧ t.driverActiveRide d = none := by
  obtain ⟨-, -, hkeys, -⟩ := h.drivers.rides
  rcases h.rides.driver d with ⟨hkey, hhash, hbusy, hnone⟩ | ⟨x, hx, hmissing, hid, -⟩
  · rcases h.drivers.driver d with ⟨hhash', hpools, -⟩ | ⟨x, hx, hid, hfree, -⟩
    · refine Or.inl ⟨hhash'.trans hhash, ?_, (hpools _).trans hbusy, by rw [hkeys, hkey]⟩
      rw [hpools, h.rides.available]
    · refine Or.inr (Or.inr ⟨x, hx, hid, ⟨hkey ▸ hfree, fun y hy => hnone y hy.1 hy.2⟩, ?_⟩)
      rw [hkeys]
      exact hfree
  · exact Or.inr (Or.inl ⟨x, ⟨hx, hmissing⟩, hid⟩)

theorem Rebuilding.harmless (hpools : PoolInvariants s) (hafter : Undamaged s t) : Harmless s where
  customers := by
    intro x hx
    rw [Option.eq_none_iff_forall_ne_some]
    intro r hr
    have hactive : ActiveRide x.2.fields.customerId r s := hpools.customer _ _ hr
    have hkept : t.customerActiveRide x.2.fields.customerId = some r := hafter.customers _ _ hr hactive
    rw [h.drivers.rides.2.1] at hkept
    rcases h.rides.customer x.2.fields.customerId with ⟨-, hnone⟩ | ⟨y, -, hmissing, -, heq⟩
    · exact hnone x hx.1 hx.2 rfl
    · rw [heq] at hkept
      cases hkept
      exact hactive.exist hmissing
  rideDrivers := by
    intro x d hx hd
    by_contra hthere
    obtain ⟨y, hy, hstatus, hactive⟩ := h.named hx hd
    rw [hafter.drivers d hthere] at hstatus hactive
    obtain ⟨r, hr, hgoing⟩ := hpools.busy d hstatus
    rw [hactive] at hr
    cases hr
    exact hgoing.1 hy.2
  hashes := by
    intro x hx hd hthere
    rw [reflects_iff, ← (h.written hx hd).1]
    exact hafter.drivers x.1 hthere
  free := by
    intro x hx hd hopens hbusy
    obtain ⟨-, havailable, hbusy'⟩ := h.written hx hd
    exact hafter.pools.disjoint x.1 (havailable.mpr (Or.inl hopens)) (hbusy'.mpr (Or.inl hbusy))
  busy := by
    intro x hx hd hstatus
    obtain ⟨hhash, -, -⟩ := h.written hx hd
    have hbusy : (t.driverHash x.1).status = some .busy := by
      rw [hhash, ← hstatus]
      rfl
    obtain ⟨r, hr, hgoing⟩ := hafter.pools.busy x.1 hbusy
    rw [hhash] at hr
    exact ⟨r, hr, h.goingOn_cases hgoing⟩

theorem Rebuilding.hash_eq (hharmless : Harmless s) (hd : (s.driverHash d).status ≠ none) :
    t.driverHash d = s.driverHash d := by
  rcases h.driver_cases d with ⟨heq, -⟩ | ⟨x, hx, hid⟩ | ⟨x, hx, rfl, hfree, -⟩
  · exact heq
  · exact absurd (hharmless.rideDrivers x d hx hid) hd
  · rw [(h.written hx hfree).1]
    exact reflects_iff.mp (hharmless.hashes x hx hfree hd)

theorem Rebuilding.available_eq (hpools : PoolInvariants s) (hharmless : Harmless s)
    (hd : d ∈ s.driverSet .available) :
    (t.driverHash d).status = some .online ∧ (t.driverHash d).activeRideId = none ∧
      t.driverActiveRide d = none := by
  obtain ⟨hstatus, hactive, hkey⟩ := hpools.available d hd
  have hthere : (s.driverHash d).status ≠ none := by
    rw [hstatus]
    exact Option.some_ne_none _
  rw [h.hash_eq hharmless hthere]
  refine ⟨hstatus, hactive, ?_⟩
  rcases h.driver_cases d with ⟨-, -, -, hkey'⟩ | ⟨x, hx, hid⟩ | ⟨x, hx, hid, hfree, hkey'⟩
  · rw [hkey', hkey]
  · exact absurd (hharmless.rideDrivers x d hx hid) hthere
  · exact hkey'

theorem Rebuilding.disjoint (hpools : PoolInvariants s) (hharmless : Harmless s)
    (hd : d ∈ t.driverSet .available) : d ∉ t.driverSet .busy := by
  intro hbusy
  rcases h.driver_cases d with ⟨-, havailable, hbusy', -⟩ | ⟨x, hx, hid⟩ | ⟨x, hx, rfl, hfree, -⟩
  · exact hpools.disjoint d (havailable.mp hd) (hbusy'.mp hbusy)
  · -- such a driver has no hash, so it was not available
    have hold : d ∈ s.driverSet .available := (h.named_available hx hid).mp hd
    have hstatus : (s.driverHash d).status = some .online := (hpools.available d hold).1
    rw [hharmless.rideDrivers x d hx hid] at hstatus
    cases hstatus
  · obtain ⟨-, havailable, hbusy'⟩ := h.written hx hfree
    rcases havailable.mp hd with hopens | ⟨hold, hengages⟩
    · rcases hbusy'.mp hbusy with hwas | hengages
      · exact hharmless.free x hx hfree hopens hwas
      · exact hopens.not_engages hengages
    · rcases hbusy'.mp hbusy with hwas | hengages'
      · exact hpools.disjoint x.1 hold hwas
      · exact hengages hengages'

theorem Rebuilding.pools (hpools : PoolInvariants s) (hdocs : FromEarlier s) (hharmless : Harmless s) :
    PoolInvariants t where
  disjoint := fun d hd => h.disjoint hpools hharmless hd
  available := by
    intro d hd
    rcases h.driver_cases d with ⟨-, havailable, -⟩ | ⟨x, hx, hid⟩ | ⟨x, hx, rfl, hfree, hkey⟩
    · exact h.available_eq hpools hharmless (havailable.mp hd)
    · exact h.available_eq hpools hharmless ((h.named_available hx hid).mp hd)
    · obtain ⟨hhash, havailable, -⟩ := h.written hx hfree
      rcases havailable.mp hd with hopens | ⟨hold, -⟩
      · rw [hhash]
        exact ⟨congrArg some hopens.1, hopens.2.1, hkey⟩
      · exact h.available_eq hpools hharmless hold
  busy := by
    intro d hd
    rcases h.driver_cases d with ⟨hhash, -⟩ | ⟨x, hx, hid⟩ | ⟨x, hx, rfl, hfree, -⟩
    · rw [hhash] at hd ⊢
      obtain ⟨r, hr, hgoing⟩ := hpools.busy d hd
      exact ⟨r, hr, h.goingOn hgoing⟩
    · obtain ⟨y, hy, -, hactive⟩ := h.named hx hid
      exact ⟨y.1, hactive, h.lost_goingOn hdocs hy⟩
    · obtain ⟨hhash, -, -⟩ := h.written hx hfree
      have hstatus : x.2.status = .busy := by
        rw [hhash] at hd
        exact Option.some_inj.mp hd
      obtain ⟨r, hr, hgoing⟩ := hharmless.busy x hx hfree hstatus
      refine ⟨r, by rw [hhash]; exact hr, ?_⟩
      rcases hgoing with hgoing | ⟨ride, hlost⟩
      · exact h.goingOn hgoing
      · exact h.lost_goingOn hdocs hlost
  customer := by
    intro c r hr
    rw [h.drivers.rides.2.1] at hr
    rcases h.rides.customer c with ⟨heq, -⟩ | ⟨x, hx, hmissing, hid, heq⟩
    · rw [heq] at hr
      have hactive : ActiveRide c r s := hpools.customer c r hr
      exact hactive.congr (h.ride_eq hactive.exist).symm
    · rw [heq] at hr
      cases hr
      have hgoing : t.goingOn x.1 := h.lost_goingOn hdocs ⟨hx, hmissing⟩
      refine ⟨hgoing.1, hgoing.2, ?_⟩
      rw [h.lost_ride ⟨hx, hmissing⟩]
      exact hid

end rebuilding

/-- On a store that keeps the invariants, a rebuild from earlier states damages nothing exactly
when it is harmless. -/
theorem rebuilt_undamaged (env : Env) (s : Store) (hpools : PoolInvariants s) (hdocs : FromEarlier s) :
    Undamaged s (rebuilt env s) ↔ Harmless s := by
  obtain ⟨u, hrides, hdrivers⟩ := @rebuilt_turns env s
  have h : Rebuilding env s u (rebuilt env s) := ⟨hrides, hdrivers⟩
  constructor
  · exact h.harmless hpools
  · intro hharmless
    refine ⟨fun d hd => h.hash_eq hharmless hd, fun r hr => h.ride_eq hr, fun c r hr hactive => ?_,
      h.pools hpools hdocs hharmless⟩
    rw [h.drivers.rides.2.1]
    rcases h.rides.customer c with ⟨heq, -⟩ | ⟨x, hx, hmissing, rfl, -⟩
    · rw [heq, hr]
    · rw [hharmless.customers x ⟨hx, hmissing⟩] at hr
      cases hr

/-- Ride ⟨1, 2⟩, accepted by driver 1. -/
def acceptedRide : RideHash where
  customerId := 7
  driverId := some 1
  status := some .accepted
  version := 3

/-- Ride ⟨3, 4⟩, on its way with driver 3. -/
def ongoingRide : RideHash where
  customerId := 8
  driverId := some 3
  status := some .ongoing
  version := 5

/-- Redis has lost the accepted ride and its driver. Driver 2 has just gone online, and driver 3 is on its way with
ride ⟨3, 4⟩; Mongo has all of this. -/
def halfLost : Store where
  clock := 5
  ride := put (fun _ => {}) ⟨3, 4⟩ ongoingRide
  activeRides := [⟨3, 4⟩]
  driverHash := put (put (fun _ => {}) 2 { status := some .online, lat := .num 0, lng := .num 0, updatedAt := some 5 }) 3
    { status := some .busy, activeRideId := some ⟨3, 4⟩, lat := .num 1, lng := .num 1, updatedAt := some 2 }
  driverActiveRide := put (fun _ => none) 3 (some ⟨3, 4⟩)
  driverSet := put (put (put (fun _ => []) .online [2, 3]) .available [2]) .busy [3]
  availableDriversGeo := [(2, ⟨0, 0⟩)]
  customerActiveRide := put (fun _ => none) 8 (some ⟨3, 4⟩)
  rideDocs := put (put (fun _ => none) ⟨1, 2⟩ (some ⟨rideDocFields acceptedRide, [1], [], 0, 0⟩)) ⟨3, 4⟩
    (some ⟨rideDocFields ongoingRide, [3], [], 0, 0⟩)
  rideDocIds := [⟨1, 2⟩, ⟨3, 4⟩]
  driverDocs := put (put (fun _ => none) 2 (some ⟨.online, none, some 0, some 0⟩)) 3
    (some ⟨.busy, some ⟨3, 4⟩, some 1, some 1⟩)
  driverDocIds := [2, 3]

theorem halfLost_driver (hd : (halfLost.driverHash d).status ≠ none) : d = 2 ∨ d = 3 := by
  by_contra hne
  push Not at hne
  refine hd ?_
  show (put (put (fun _ => ({} : DriverHash)) 2 _) 3 _ d).status = none
  rw [put_of_ne hne.2, put_of_ne hne.1]

theorem halfLost_pools : PoolInvariants halfLost where
  disjoint := by
    intro d hd
    obtain rfl : d = 2 := List.mem_singleton.mp hd
    decide
  available := by
    intro d hd
    obtain rfl : d = 2 := List.mem_singleton.mp hd
    exact ⟨rfl, rfl, rfl⟩
  busy := by
    intro d hd
    have hexist : (halfLost.driverHash d).status ≠ none := by
      rw [hd]
      exact Option.some_ne_none _
    rcases halfLost_driver hexist with rfl | rfl
    · cases hd
    · exact ⟨⟨3, 4⟩, rfl, Option.some_ne_none _, by rintro (h | h) <;> cases h⟩
  customer := by
    intro c r hr
    rcases eq_or_ne c 8 with rfl | hne
    · cases hr
      exact ⟨Option.some_ne_none _, (by rintro (h | h) <;> cases h), rfl⟩
    · have hnone : put (fun _ => none) 8 (some ⟨3, 4⟩) c = some r := hr
      rw [put_of_ne hne] at hnone
      cases hnone

/-- The rebuild brings the accepted ride back, and leaves what there was. -/
theorem rebuilt_halfLost : Undamaged halfLost (rebuilt townEnv halfLost) := by
  have hdocs : FromEarlier halfLost :=
    { rides := by
        intro x hx
        rcases List.mem_pair.mp hx with rfl | rfl
        · exact ⟨{ ride := fun _ => acceptedRide }, Option.some_ne_none _, rfl⟩
        · exact ⟨halfLost, Option.some_ne_none _, rfl⟩
      drivers := by
        intro x hx
        rcases List.mem_pair.mp hx with rfl | rfl
        · exact ⟨halfLost, halfLost_pools, _, rfl, rfl⟩
        · exact ⟨halfLost, halfLost_pools, _, rfl, rfl⟩ }
  have hlost : ∀ x, Lost halfLost x → x = (⟨1, 2⟩, ⟨rideDocFields acceptedRide, [1], [], 0, 0⟩) := by
    rintro x ⟨hx, hmissing⟩
    rcases List.mem_pair.mp hx with rfl | rfl
    · rfl
    · cases hmissing
  -- of the stored drivers only driver 2 has no active ride
  have hfree : ∀ x ∈ storedDrivers halfLost, Unassigned halfLost x.1 → x = (2, ⟨.online, none, some 0, some 0⟩) := by
    rintro x hx ⟨hkey, -⟩
    rcases List.mem_pair.mp hx with rfl | rfl
    · rfl
    · cases hkey
  have hharmless : Harmless halfLost :=
    { customers := by
        intro x hx
        rw [hlost x hx]
        rfl
      rideDrivers := by
        intro x d hx hd
        rw [hlost x hx] at hd
        cases hd
        rfl
      hashes := by
        intro x hx hunassigned _
        rw [hfree x hx hunassigned]
        exact ⟨rfl, rfl, rfl, rfl, rfl⟩
      free := by
        intro x hx hunassigned _
        rw [hfree x hx hunassigned]
        decide
      busy := by
        intro x hx hunassigned hbusy
        rw [hfree x hx hunassigned] at hbusy
        cases hbusy }
  exact (rebuilt_undamaged townEnv halfLost halfLost_pools hdocs).mpr hharmless

/-- Driver 1 on its way with ride ⟨1, 2⟩. -/
def onTheWay : Store where
  ride := put (fun _ => {}) ⟨1, 2⟩ { customerId := 7, driverId := some 1, status := some .ongoing, version := 5 }
  driverHash := put (fun _ => {}) 1
    { status := some .busy, activeRideId := some ⟨1, 2⟩, lat := .num 0, lng := .num 0 }
  driverSet := put (put (fun _ => []) .online [1]) .busy [1]

/-- The ride is completed and the driver available again, but Mongo still has the driver as it
was on the way. -/
def completedSince : Store where
  ride := put (fun _ => {}) ⟨1, 2⟩ { customerId := 7, driverId := some 1, status := some .completed, version := 6 }
  driverHash := put (fun _ => {}) 1 { status := some .online, lat := .num 0, lng := .num 0 }
  driverSet := put (put (fun _ => []) .online [1]) .available [1]
  availableDriversGeo := [(1, ⟨0, 0⟩)]
  driverDocs := put (fun _ => none) 1 (some ⟨.busy, some ⟨1, 2⟩, some 0, some 0⟩)
  driverDocIds := [1]

theorem onTheWay_pools : PoolInvariants onTheWay where
  disjoint := fun d hd => absurd hd List.not_mem_nil
  available := fun d hd => absurd hd List.not_mem_nil
  busy := by
    intro d hd
    rcases eq_or_ne d 1 with rfl | hne
    · exact ⟨⟨1, 2⟩, rfl, Option.some_ne_none _, by rintro (h | h) <;> cases h⟩
    · have hhash : onTheWay.driverHash d = {} := by
        show put (fun _ => ({} : DriverHash)) 1 _ d = {}
        exact put_of_ne hne
      rw [hhash] at hd
      cases hd
  customer := fun c r hr => by cases hr

theorem rebuilt_damages : PoolInvariants completedSince ∧ FromEarlier completedSince ∧
    ¬ Undamaged completedSince (rebuilt townEnv completedSince) := by
  refine ⟨⟨fun d hd => List.not_mem_nil, fun d hd => ?_, fun d hd => ?_, fun c r hr => (by cases hr)⟩,
    ⟨fun x hx => (by cases hx), fun x hx => ?_⟩, fun h => ?_⟩
  · obtain rfl : d = 1 := List.mem_singleton.mp hd
    exact ⟨rfl, rfl, rfl⟩
  · rcases eq_or_ne d 1 with rfl | hne
    · cases hd
    · have hhash : completedSince.driverHash d = {} := by
        show put (fun _ => ({} : DriverHash)) 1 _ d = {}
        exact put_of_ne hne
      rw [hhash] at hd
      cases hd
  · obtain rfl := List.mem_singleton.mp hx
    exact ⟨onTheWay, onTheWay_pools, _, rfl, rfl⟩
  · have hkept : (rebuilt townEnv completedSince).driverHash 1 = completedSince.driverHash 1 :=
      h.drivers 1 (Option.some_ne_none _)
    have hstatus : ((rebuilt townEnv completedSince).driverHash 1).status = some .busy := rfl
    rw [hkept] at hstatus
    cases hstatus

end YatriGo
