import Mathlib.Data.List.Induction
import YatriGo.Redis.Frame
import YatriGo.Services.Rebuild

/-! The two loops of the rebuild as folds over the documents, and what they leave of the
keys of each ride, each customer and each driver. -/

namespace YatriGo
open Concurrent

variable {env : Env} {s u t : Store} {r : RideId} {c : CustomerId} {d : DriverId}

/-- One turn of the loop over the rides. -/
def rideTurn (env : Env) (s : Store) (ride : RideId × RideDoc) : Store :=
  if (s.ride ride.1).status ≠ none then s else s.multi (rebuildRideWrites env ride.1 ride.2 s.clock)

/-- One turn of the loop over the drivers. -/
def driverTurn (s : Store) (driver : DriverId × DriverDoc) : Store :=
  if s.driverActiveRide driver.1 ≠ none then s
  else s.multi (rebuildDriverWrites driver.1 driver.2 s.clock)

theorem finish_rebuildRide (ride : RideId × RideDoc) (s : Store) :
    (rebuildRide env ride).finish rebuildExec s = (.ok (), rideTurn env s ride) := by
  simp only [rebuildRide, Prog.bind_eq, Prog.perform_bind, Prog.finish_cmd, rebuildExec, rideTurn,
    Option.isSome_iff_ne_none]
  by_cases hstatus : (s.ride ride.1).status ≠ none
  · rw [if_pos hstatus, if_pos hstatus]
    rfl
  · rw [if_neg hstatus, if_neg hstatus]
    rfl

theorem finish_rebuildDriver (driver : DriverId × DriverDoc) (s : Store) :
    (rebuildDriver driver).finish rebuildExec s = (.ok (), driverTurn s driver) := by
  have hcode : (rebuildDriver driver).finish rebuildExec s =
      (if s.driverActiveRide driver.1 ≠ none then (.ret () : RebuildApp Unit)
      else .cmd .now fun now => .perform (.multi (rebuildDriverWrites driver.1 driver.2 now))).finish
        rebuildExec s := rfl
  rw [hcode, driverTurn]
  by_cases hactive : s.driverActiveRide driver.1 ≠ none
  · rw [if_pos hactive, if_pos hactive]
    rfl
  · rw [if_neg hactive, if_neg hactive]
    rfl

theorem rebuilt_eq : rebuilt env s =
    (storedDrivers ((storedRides s).foldl (rideTurn env) s)).foldl driverTurn
      ((storedRides s).foldl (rideTurn env) s) := by
  simp only [rebuilt, rebuildRedisStateFromMongo, Prog.bind_eq, Prog.perform_bind, Prog.finish_cmd,
    rebuildExec, Prog.finish_bind, Prog.finish_forEach finish_rebuildRide, Prog.resume_ok,
    Prog.finish_forEach finish_rebuildDriver]

theorem mem_storedRides {ride : RideId × RideDoc} (h : ride ∈ storedRides s) :
    s.rideDocs ride.1 = some ride.2 ∧ ride.2.fields.status ≠ some .completed ∧
      ride.2.fields.status ≠ some .cancelled := by
  obtain ⟨hmem, hstatus⟩ := List.mem_filter.mp h
  obtain ⟨rideId, -, hfound⟩ := List.mem_filterMap.mp hmem
  obtain ⟨doc, hdoc, rfl⟩ := Option.map_eq_some_iff.mp hfound
  exact ⟨hdoc, of_decide_eq_true hstatus⟩

theorem mem_storedDrivers {driver : DriverId × DriverDoc} (h : driver ∈ storedDrivers s) :
    s.driverDocs driver.1 = some driver.2 ∧ driver.2.status ≠ .offline := by
  obtain ⟨hmem, hstatus⟩ := List.mem_filter.mp h
  obtain ⟨driverId, -, hfound⟩ := List.mem_filterMap.mp hmem
  obtain ⟨doc, hdoc, rfl⟩ := Option.map_eq_some_iff.mp hfound
  exact ⟨hdoc, of_decide_eq_true hstatus⟩

theorem multi_saddNotified {ds : List DriverId} :
    ∃ rideNotifiedDrivers, s.multi (ds.map (.saddNotified r)) = { s with rideNotifiedDrivers } := by
  induction ds generalizing s with
  | nil => exact ⟨_, rfl⟩
  | cons d ds ih =>
    obtain ⟨notified, h⟩ := @ih (Write.apply s (.saddNotified r d))
    exact ⟨notified, h⟩

theorem multi_rpushTimeline {events : List TimelineEvent} :
    ∃ rideTimeline, s.multi (events.map (.rpushTimeline r)) = { s with rideTimeline } := by
  induction events generalizing s with
  | nil => exact ⟨_, rfl⟩
  | cons e events ih =>
    obtain ⟨timeline, h⟩ := @ih (Write.apply s (.rpushTimeline r e))
    exact ⟨timeline, h⟩

/-- The keys of a ride's driver after the ride's turn. -/
def assignRide (s : Store) (r : RideId) : Option DriverId → Store
  | some d => { s with
      driverActiveRide := put s.driverActiveRide d (some r)
      driverHash := put s.driverHash d ((s.driverHash d).hset
        [.status .busy, .activeRideId (some r), .updatedAt s.clock])
      driverSet := put s.driverSet .busy (sadd d (s.driverSet .busy)) }
  | none => s

section assignRide

variable {driverId : Option DriverId}

theorem assignRide_of_ne (h : driverId ≠ some d) :
    (assignRide s r driverId).driverActiveRide d = s.driverActiveRide d ∧
    (assignRide s r driverId).driverHash d = s.driverHash d ∧
    (d ∈ (assignRide s r driverId).driverSet .busy ↔ d ∈ s.driverSet .busy) := by
  cases driverId with
  | none => exact ⟨rfl, rfl, Iff.rfl⟩
  | some d' =>
    have hne : d ≠ d' := fun heq => h (heq ▸ rfl)
    refine ⟨put_of_ne hne, put_of_ne hne, ?_⟩
    simp only [assignRide, put_self, mem_sadd, hne, false_or]

theorem assignRide_self :
    (assignRide s r (some d)).driverActiveRide d = some r ∧
    ((assignRide s r (some d)).driverHash d).status = some .busy ∧
    ((assignRide s r (some d)).driverHash d).activeRideId = some r := by
  simp only [assignRide, put_self]
  exact ⟨trivial, rfl, rfl⟩

theorem assignRide_available : (assignRide s r driverId).driverSet .available = s.driverSet .available := by
  cases driverId with
  | none => rfl
  | some d =>
    show put s.driverSet .busy (sadd d (s.driverSet .busy)) .available = s.driverSet .available
    exact put_of_ne (by decide)

theorem assignRide_clock : (assignRide s r driverId).clock = s.clock := by
  cases driverId <;> rfl

theorem assignRide_drivers : storedDrivers (assignRide s r driverId) = storedDrivers s := by
  cases driverId <;> rfl

end assignRide

/-- What the turn of a ride that Redis does not have writes. -/
theorem multi_rebuildRideWrites {ride : RideDoc} :
    ∃ rideNotifiedDrivers rideTimeline, s.multi (rebuildRideWrites env r ride s.clock) =
      { assignRide s r ride.fields.driverId with
        ride := put s.ride r (rebuiltRideHash env ride)
        customerActiveRide := put s.customerActiveRide ride.fields.customerId (some r)
        activeRides := sadd r s.activeRides
        rideNotifiedDrivers, rideTimeline } := by
  simp only [rebuildRideWrites, multi_append]
  obtain ⟨notified, hnotified⟩ := @multi_saddNotified
    (s.multi [.createRide r (rebuiltRideHash env ride), .setCustomerActiveRide ride.fields.customerId r,
      .saddActiveRide r]) r ride.notifiedDrivers
  rw [hnotified]
  obtain ⟨timeline, htimeline⟩ := @multi_rpushTimeline
    (Store.multi { s.multi [.createRide r (rebuiltRideHash env ride),
      .setCustomerActiveRide ride.fields.customerId r, .saddActiveRide r] with
      rideNotifiedDrivers := notified } (rebuiltRideDriver r s.clock ride.fields.driverId)) r ride.timeline
  rw [htimeline]
  refine ⟨notified, timeline, ?_⟩
  cases ride.fields.driverId with
  | none => rfl
  | some d => rfl

/-- Redis does not have the ride of the document. -/
def Missing (s : Store) (ride : RideId × RideDoc) : Prop := (s.ride ride.1).status = none

/-- After the turns of `rides`, from `s`: a key is as it was, and no missing ride concerns it, or
it is as the turn of a missing ride left it. -/
structure RidesRebuilt (env : Env) (s : Store) (rides : List (RideId × RideDoc)) (u : Store) : Prop where
  ride : ∀ r, (u.ride r = s.ride r ∧ ∀ x ∈ rides, Missing s x → x.1 ≠ r) ∨
    ∃ x ∈ rides, Missing s x ∧ x.1 = r ∧ u.ride r = rebuiltRideHash env x.2
  customer : ∀ c, (u.customerActiveRide c = s.customerActiveRide c ∧
      ∀ x ∈ rides, Missing s x → x.2.fields.customerId ≠ c) ∨
    ∃ x ∈ rides, Missing s x ∧ x.2.fields.customerId = c ∧ u.customerActiveRide c = some x.1
  driver : ∀ d, (u.driverActiveRide d = s.driverActiveRide d ∧ u.driverHash d = s.driverHash d ∧
      (d ∈ u.driverSet .busy ↔ d ∈ s.driverSet .busy) ∧
      ∀ x ∈ rides, Missing s x → x.2.fields.driverId ≠ some d) ∨
    ∃ x ∈ rides, Missing s x ∧ x.2.fields.driverId = some d ∧ u.driverActiveRide d = some x.1 ∧
      (u.driverHash d).status = some .busy ∧ (u.driverHash d).activeRideId = some x.1
  available : u.driverSet .available = s.driverSet .available
  clock : u.clock = s.clock
  drivers : storedDrivers u = storedDrivers s

theorem forall_snoc {β : Type} {P : β → Prop} {xs : List β} {x : β} (h : ∀ y ∈ xs, P y) (hx : P x) :
    ∀ y ∈ xs ++ [x], P y := by
  intro y hy
  rcases List.mem_append.mp hy with hxs | hlast
  · exact h y hxs
  · rw [List.mem_singleton.mp hlast]
    exact hx

section rides

variable {rides : List (RideId × RideDoc)} {x : RideId × RideDoc}

theorem ridesRebuilt_nil : RidesRebuilt env s [] s where
  ride := fun _ => Or.inl ⟨rfl, fun _ hx => absurd hx List.not_mem_nil⟩
  customer := fun _ => Or.inl ⟨rfl, fun _ hx => absurd hx List.not_mem_nil⟩
  driver := fun _ => Or.inl ⟨rfl, rfl, Iff.rfl, fun _ hx => absurd hx List.not_mem_nil⟩
  available := rfl
  clock := rfl
  drivers := rfl

/-- A document whose ride is there, or was rebuilt before, has no effect. -/
theorem RidesRebuilt.skip (h : RidesRebuilt env s rides u) (hsame : ∀ y ∈ rides, y.1 = x.1 → y = x)
    (hthere : (u.ride x.1).status ≠ none) : RidesRebuilt env s (rides ++ [x]) u := by
  have hold : ∀ y ∈ rides, y ∈ rides ++ [x] := fun y hy => List.mem_append_left _ hy
  have hdone : Missing s x → x ∈ rides := by
    intro hmissing
    rcases h.ride x.1 with ⟨heq, -⟩ | ⟨y, hy, -, hid, -⟩
    · rw [heq] at hthere
      exact absurd hmissing hthere
    · exact hsame y hy hid ▸ hy
  refine ⟨fun r => ?_, fun c => ?_, fun d => ?_, h.available, h.clock, h.drivers⟩
  · rcases h.ride r with ⟨heq, hnone⟩ | ⟨y, hy, hrest⟩
    · exact Or.inl ⟨heq, forall_snoc hnone fun hmissing => hnone x (hdone hmissing) hmissing⟩
    · exact Or.inr ⟨y, hold y hy, hrest⟩
  · rcases h.customer c with ⟨heq, hnone⟩ | ⟨y, hy, hrest⟩
    · exact Or.inl ⟨heq, forall_snoc hnone fun hmissing => hnone x (hdone hmissing) hmissing⟩
    · exact Or.inr ⟨y, hold y hy, hrest⟩
  · rcases h.driver d with ⟨hkey, hhash, hbusy, hnone⟩ | ⟨y, hy, hrest⟩
    · exact Or.inl ⟨hkey, hhash, hbusy, forall_snoc hnone fun hmissing => hnone x (hdone hmissing) hmissing⟩
    · exact Or.inr ⟨y, hold y hy, hrest⟩

/-- The turn of a document whose ride is still missing. -/
theorem RidesRebuilt.add (h : RidesRebuilt env s rides u) (hgone : (u.ride x.1).status = none) :
    RidesRebuilt env s (rides ++ [x]) (u.multi (rebuildRideWrites env x.1 x.2 u.clock)) := by
  have hold : ∀ y ∈ rides, y ∈ rides ++ [x] := fun y hy => List.mem_append_left _ hy
  have hnew : x ∈ rides ++ [x] := List.mem_append_right _ (List.mem_singleton_self x)
  -- missing now means missing at the start: no earlier turn wrote it
  have hmissing : Missing s x := by
    rcases h.ride x.1 with ⟨heq, -⟩ | ⟨y, -, hy, hid, -⟩
    · rwa [heq] at hgone
    · unfold Missing
      rwa [← hid]
  obtain ⟨notified, timeline, heq⟩ := @multi_rebuildRideWrites env u x.1 x.2
  rw [heq]
  refine ⟨fun r => ?_, fun c => ?_, fun d => ?_, ?_, ?_, ?_⟩
  · show (put u.ride x.1 (rebuiltRideHash env x.2) r = s.ride r ∧ _) ∨
      ∃ y ∈ rides ++ [x], Missing s y ∧ y.1 = r ∧ put u.ride x.1 (rebuiltRideHash env x.2) r = _
    rcases eq_or_ne r x.1 with rfl | hne
    · exact Or.inr ⟨x, hnew, hmissing, rfl, put_self⟩
    · rw [put_of_ne hne]
      rcases h.ride r with ⟨hsame, hnone⟩ | ⟨y, hy, hrest⟩
      · exact Or.inl ⟨hsame, forall_snoc hnone fun _ => hne.symm⟩
      · exact Or.inr ⟨y, hold y hy, hrest⟩
  · show (put u.customerActiveRide x.2.fields.customerId (some x.1) c = s.customerActiveRide c ∧ _) ∨
      ∃ y ∈ rides ++ [x], Missing s y ∧ y.2.fields.customerId = c ∧
        put u.customerActiveRide x.2.fields.customerId (some x.1) c = some y.1
    rcases eq_or_ne c x.2.fields.customerId with rfl | hne
    · exact Or.inr ⟨x, hnew, hmissing, rfl, put_self⟩
    · rw [put_of_ne hne]
      rcases h.customer c with ⟨hsame, hnone⟩ | ⟨y, hy, hrest⟩
      · exact Or.inl ⟨hsame, forall_snoc hnone fun _ => hne.symm⟩
      · exact Or.inr ⟨y, hold y hy, hrest⟩
  · have hother : x.2.fields.driverId ≠ some d →
        (assignRide u x.1 x.2.fields.driverId).driverActiveRide d = u.driverActiveRide d ∧
        (assignRide u x.1 x.2.fields.driverId).driverHash d = u.driverHash d ∧
        (d ∈ (assignRide u x.1 x.2.fields.driverId).driverSet .busy ↔ d ∈ u.driverSet .busy) :=
      assignRide_of_ne
    rcases eq_or_ne x.2.fields.driverId (some d) with hdriver | hdriver
    · refine Or.inr ⟨x, hnew, hmissing, hdriver, ?_⟩
      rw [hdriver]
      exact assignRide_self
    · obtain ⟨hkey, hhash, hbusy⟩ := hother hdriver
      rcases h.driver d with ⟨hkey', hhash', hbusy', hnone⟩ | ⟨y, hy, hmiss, hid, hkey', hstatus, hactive⟩
      · exact Or.inl ⟨hkey.trans hkey', hhash.trans hhash', hbusy.trans hbusy',
          forall_snoc hnone fun _ => hdriver⟩
      · exact Or.inr ⟨y, hold y hy, hmiss, hid, hkey.trans hkey', hhash ▸ hstatus, hhash ▸ hactive⟩
  · exact assignRide_available.trans h.available
  · exact assignRide_clock.trans h.clock
  · exact assignRide_drivers.trans h.drivers

theorem RidesRebuilt.turn (h : RidesRebuilt env s rides u) (hsame : ∀ y ∈ rides, y.1 = x.1 → y = x) :
    RidesRebuilt env s (rides ++ [x]) (rideTurn env u x) := by
  unfold rideTurn
  by_cases hthere : (u.ride x.1).status ≠ none
  · rw [if_pos hthere]
    exact h.skip hsame hthere
  · rw [if_neg hthere]
    exact h.add (not_not.mp hthere)

theorem ridesRebuilt_foldl (hone : ∀ x ∈ rides, ∀ y ∈ rides, y.1 = x.1 → y = x) :
    RidesRebuilt env s rides (rides.foldl (rideTurn env) s) := by
  induction rides using List.reverseRecOn with
  | nil => exact ridesRebuilt_nil
  | append_singleton rides x ih =>
    have hbefore : RidesRebuilt env s rides (rides.foldl (rideTurn env) s) := by
      refine ih fun x hx y hy => hone x (List.mem_append_left _ hx) y (List.mem_append_left _ hy)
    rw [List.foldl_append]
    refine hbefore.turn fun y hy => ?_
    exact hone x (List.mem_append_right _ (List.mem_singleton_self x)) y (List.mem_append_left _ hy)

end rides

/-- The document makes its driver available. -/
def DriverDoc.opens (driver : DriverDoc) : Prop :=
  driver.status = .online ∧ driver.activeRideId = none ∧ driver.lat ≠ none ∧ driver.lng ≠ none

/-- The document makes its driver busy. -/
def DriverDoc.engages (driver : DriverDoc) : Prop := driver.status = .busy ∨ driver.activeRideId ≠ none

theorem DriverDoc.opens.not_engages {driver : DriverDoc} (h : driver.opens) : ¬ driver.engages := by
  obtain ⟨hstatus, hactive, -, -⟩ := h
  rintro (hbusy | hride)
  · rw [hstatus] at hbusy
    cases hbusy
  · exact hride hactive

theorem rebuiltDriverPools_cases (d : DriverId) (driver : DriverDoc) :
    (driver.opens ∧ ∃ location,
      rebuiltDriverPools d driver = [.sadd .online d, .sadd .available d, .geoadd d location]) ∨
    (¬ driver.opens ∧ driver.engages ∧ rebuiltDriverPools d driver =
      [.sadd .online d, .sadd .busy d, .srem .available d, .zremGeo d]) ∨
    (¬ driver.opens ∧ ¬ driver.engages ∧ rebuiltDriverPools d driver = []) := by
  have hbusy : ¬ driver.opens → rebuiltDriverPools d driver = rebuiltDriverPools.busy d driver := by
    intro hopens
    unfold rebuiltDriverPools
    split
    · rename_i lat lng hlat hlng
      rw [if_neg fun h => hopens ⟨h.1, h.2, by simp [hlat], by simp [hlng]⟩]
    · rfl
  by_cases hopens : driver.opens
  · left
    obtain ⟨hstatus, hactive, hlat, hlng⟩ := hopens
    obtain ⟨lat, hlat⟩ := Option.ne_none_iff_exists'.mp hlat
    obtain ⟨lng, hlng⟩ := Option.ne_none_iff_exists'.mp hlng
    refine ⟨⟨hstatus, hactive, by simp [hlat], by simp [hlng]⟩, ⟨lat, lng⟩, ?_⟩
    simp only [rebuiltDriverPools, hlat, hlng, hstatus, hactive, and_self, if_true]
  · rw [hbusy hopens, rebuiltDriverPools.busy]
    by_cases hengages : driver.engages
    · exact Or.inr (Or.inl ⟨hopens, hengages, if_pos hengages⟩)
    · exact Or.inr (Or.inr ⟨hopens, hengages, if_neg hengages⟩)

/-- What the turn of driver `d` leaves, from `s`. -/
structure DriverTurned (s : Store) (d : DriverId) (driver : DriverDoc) (t : Store) : Prop where
  hash : t.driverHash = put s.driverHash d ((s.driverHash d).hset (rebuiltDriverFields driver s.clock))
  others : ∀ d' ≠ d, ∀ p, d' ∈ t.driverSet p ↔ d' ∈ s.driverSet p
  available : d ∈ t.driverSet .available ↔ driver.opens ∨ d ∈ s.driverSet .available ∧ ¬ driver.engages
  busy : d ∈ t.driverSet .busy ↔ d ∈ s.driverSet .busy ∨ driver.engages
  rides : t.ride = s.ride ∧ t.customerActiveRide = s.customerActiveRide ∧
    t.driverActiveRide = s.driverActiveRide ∧ t.clock = s.clock

theorem driverTurned_multi (s : Store) (d : DriverId) (driver : DriverDoc) :
    DriverTurned s d driver (s.multi (rebuildDriverWrites d driver s.clock)) := by
  unfold rebuildDriverWrites
  rcases rebuiltDriverPools_cases d driver with ⟨hopens, location, hpools⟩ | ⟨hopens, hengages, hpools⟩ |
    ⟨hopens, hengages, hpools⟩
  · have hengages : ¬ driver.engages := hopens.not_engages
    simp only [hpools, multi_cons, multi_nil, Write.apply]
    exact
      { hash := rfl
        others := fun d' hne p => by cases p <;> simp [put_apply, hne]
        available := by simp [put_apply, hopens]
        busy := by simp [put_apply, hengages]
        rides := ⟨rfl, rfl, rfl, rfl⟩ }
  · simp only [hpools, multi_cons, multi_nil, Write.apply]
    exact
      { hash := rfl
        others := fun d' hne p => by cases p <;> simp [put_apply, hne]
        available := by simp [put_apply, hopens, hengages]
        busy := by simp [put_apply, hengages]
        rides := ⟨rfl, rfl, rfl, rfl⟩ }
  · simp only [hpools, multi_cons, multi_nil, Write.apply]
    exact
      { hash := rfl
        others := fun d' hne p => Iff.rfl
        available := by simp [hopens, hengages]
        busy := by simp [hengages]
        rides := ⟨rfl, rfl, rfl, rfl⟩ }

/-- After the turns of `drivers`, from `s`: a driver is as it was, and has an active ride if it has
a document, or it is as the turn of its document left it. -/
structure DriversRebuilt (s : Store) (drivers : List (DriverId × DriverDoc)) (t : Store) : Prop where
  driver : ∀ d, (t.driverHash d = s.driverHash d ∧ (∀ p, d ∈ t.driverSet p ↔ d ∈ s.driverSet p) ∧
      ∀ x ∈ drivers, x.1 = d → s.driverActiveRide d ≠ none) ∨
    ∃ x ∈ drivers, x.1 = d ∧ s.driverActiveRide d = none ∧
      t.driverHash d = (s.driverHash d).hset (rebuiltDriverFields x.2 s.clock) ∧
      (d ∈ t.driverSet .available ↔ x.2.opens ∨ d ∈ s.driverSet .available ∧ ¬ x.2.engages) ∧
      (d ∈ t.driverSet .busy ↔ d ∈ s.driverSet .busy ∨ x.2.engages)
  rides : t.ride = s.ride ∧ t.customerActiveRide = s.customerActiveRide ∧
    t.driverActiveRide = s.driverActiveRide ∧ t.clock = s.clock

section drivers

variable {drivers : List (DriverId × DriverDoc)} {x : DriverId × DriverDoc}

theorem driversRebuilt_nil : DriversRebuilt s [] s where
  driver := fun _ => Or.inl ⟨rfl, fun _ => Iff.rfl, fun _ hx => absurd hx List.not_mem_nil⟩
  rides := ⟨rfl, rfl, rfl, rfl⟩

theorem hset_rebuiltDriverFields {h : DriverHash} {driver : DriverDoc} {now : Time} :
    (h.hset (rebuiltDriverFields driver now)).hset (rebuiltDriverFields driver now) =
      h.hset (rebuiltDriverFields driver now) := rfl

theorem DriversRebuilt.skip (h : DriversRebuilt s drivers t) (hactive : t.driverActiveRide x.1 ≠ none) :
    DriversRebuilt s (drivers ++ [x]) t where
  driver := by
    intro d
    rcases h.driver d with ⟨hhash, hpools, hnone⟩ | ⟨y, hy, hrest⟩
    · refine Or.inl ⟨hhash, hpools, forall_snoc hnone fun heq => ?_⟩
      rw [← heq, ← h.rides.2.2.1]
      exact hactive
    · exact Or.inr ⟨y, List.mem_append_left _ hy, hrest⟩
  rides := h.rides

theorem DriversRebuilt.add (h : DriversRebuilt s drivers t) (hsame : ∀ y ∈ drivers, y.1 = x.1 → y = x)
    (hactive : t.driverActiveRide x.1 = none) :
    DriversRebuilt s (drivers ++ [x]) (t.multi (rebuildDriverWrites x.1 x.2 t.clock)) := by
  obtain ⟨hrides, hcustomer, hkeys, hclock⟩ := h.rides
  have hturned := driverTurned_multi t x.1 x.2
  obtain ⟨hrides', hcustomer', hkeys', hclock'⟩ := hturned.rides
  refine ⟨fun d => ?_, hrides'.trans hrides, hcustomer'.trans hcustomer, hkeys'.trans hkeys,
    hclock'.trans hclock⟩
  rcases eq_or_ne d x.1 with rfl | hne
  · have hfree : s.driverActiveRide x.1 = none := by rw [← hkeys]; exact hactive
    refine Or.inr ⟨x, List.mem_append_right _ (List.mem_singleton_self x), rfl, hfree, ?_⟩
    rw [hturned.hash, put_self, hturned.available, hturned.busy, hclock]
    rcases h.driver x.1 with ⟨hhash, hpools, -⟩ | ⟨y, hy, hid, -, hhash, havailable, hbusy⟩
    · rw [hhash, hpools, hpools]
      exact ⟨rfl, Iff.rfl, Iff.rfl⟩
    · -- the same document had its turn before
      obtain rfl := hsame y hy hid
      rw [hhash, havailable, hbusy, hset_rebuiltDriverFields]
      exact ⟨rfl, by tauto, by tauto⟩
  · rw [hturned.hash, put_of_ne hne, hturned.others d hne, hturned.others d hne]
    rcases h.driver d with ⟨hhash, hpools, hnone⟩ | ⟨y, hy, hrest⟩
    · refine Or.inl ⟨hhash, fun p => (hturned.others d hne p).trans (hpools p), ?_⟩
      exact forall_snoc hnone fun heq => absurd heq.symm hne
    · exact Or.inr ⟨y, List.mem_append_left _ hy, hrest⟩

theorem DriversRebuilt.turn (h : DriversRebuilt s drivers t) (hsame : ∀ y ∈ drivers, y.1 = x.1 → y = x) :
    DriversRebuilt s (drivers ++ [x]) (driverTurn t x) := by
  unfold driverTurn
  by_cases hactive : t.driverActiveRide x.1 ≠ none
  · rw [if_pos hactive]
    exact h.skip hactive
  · rw [if_neg hactive]
    exact h.add hsame (not_not.mp hactive)

theorem driversRebuilt_foldl (hone : ∀ x ∈ drivers, ∀ y ∈ drivers, y.1 = x.1 → y = x) :
    DriversRebuilt s drivers (drivers.foldl driverTurn s) := by
  induction drivers using List.reverseRecOn with
  | nil => exact driversRebuilt_nil
  | append_singleton drivers x ih =>
    have hbefore : DriversRebuilt s drivers (drivers.foldl driverTurn s) :=
      ih fun x hx y hy => hone x (List.mem_append_left _ hx) y (List.mem_append_left _ hy)
    rw [List.foldl_append]
    refine hbefore.turn fun y hy => ?_
    exact hone x (List.mem_append_right _ (List.mem_singleton_self x)) y (List.mem_append_left _ hy)

end drivers

theorem storedRides_one : ∀ x ∈ storedRides s, ∀ y ∈ storedRides s, y.1 = x.1 → y = x := by
  intro x hx y hy hid
  have hdoc : some y.2 = some x.2 := by
    rw [← (mem_storedRides hx).1, ← (mem_storedRides hy).1, hid]
  exact Prod.ext hid (Option.some_inj.mp hdoc)

theorem storedDrivers_one : ∀ x ∈ storedDrivers s, ∀ y ∈ storedDrivers s, y.1 = x.1 → y = x := by
  intro x hx y hy hid
  have hdoc : some y.2 = some x.2 := by
    rw [← (mem_storedDrivers hx).1, ← (mem_storedDrivers hy).1, hid]
  exact Prod.ext hid (Option.some_inj.mp hdoc)

theorem rebuilt_turns : ∃ u, RidesRebuilt env s (storedRides s) u ∧
    DriversRebuilt u (storedDrivers s) (rebuilt env s) := by
  have hrides : RidesRebuilt env s (storedRides s) ((storedRides s).foldl (rideTurn env) s) :=
    ridesRebuilt_foldl storedRides_one
  refine ⟨_, hrides, ?_⟩
  rw [rebuilt_eq, hrides.drivers]
  exact driversRebuilt_foldl storedDrivers_one

end YatriGo
