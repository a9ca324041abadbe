import YatriGo.Redis.Frame
import YatriGo.System

/-! The keys of one driver: its hash, its active ride and the pools it is in. What the
writes do to them, and when they agree with each other and with the rides. -/

namespace YatriGo
open Concurrent

structure DriverKeys where
  status : Option DriverStatus
  hashRide : Option RideId
  activeRide : Option RideId
  online : Bool
  available : Bool
  busy : Bool
  geo : Bool

def Store.keys (s : Store) (d : DriverId) : DriverKeys where
  status := (s.driverHash d).status
  hashRide := (s.driverHash d).activeRideId
  activeRide := s.driverActiveRide d
  online := decide (d ∈ s.driverSet .online)
  available := decide (d ∈ s.driverSet .available)
  busy := decide (d ∈ s.driverSet .busy)
  geo := s.availableDriversGeo.any fun p => p.1 = d

namespace DriverKeys

def setField (k : DriverKeys) : DriverField → DriverKeys
  | .status v => { k with status := some v }
  | .activeRideId v => { k with hashRide := v }
  | _ => k

def setPool (k : DriverKeys) (v : Bool) : DriverSet → DriverKeys
  | .online => { k with online := v }
  | .available => { k with available := v }
  | .busy => { k with busy := v }

/-- A write to keys of this driver. -/
def update (k : DriverKeys) : Write → DriverKeys
  | .hsetDriver _ fields => fields.foldl setField k
  | .sadd p _ => k.setPool true p
  | .srem p _ => k.setPool false p
  | .geoadd _ l => { k with geo := k.geo || l.mapped }
  | .zremGeo _ => { k with geo := false }
  | .setDriverActiveRide _ r => { k with activeRide := some r }
  | .delDriverActiveRide _ => { k with activeRide := none }
  | _ => k

end DriverKeys

/-- The driver whose keys the write changes. -/
def Write.driver : Write → Option DriverId
  | .hsetDriver d _ => some d
  | .sadd _ d => some d
  | .srem _ d => some d
  | .geoadd d _ => some d
  | .zremGeo d => some d
  | .setDriverActiveRide d _ => some d
  | .delDriverActiveRide d => some d
  | _ => none

variable {env : Env} {s : Store} {w : Write} {ws : List Write} {d d' : DriverId}

theorem hset_keys {h : DriverHash} {fields : List DriverField} {k : DriverKeys}
    (hstatus : k.status = h.status) (hride : k.hashRide = h.activeRideId) :
    (fields.foldl DriverKeys.setField k) =
      { k with status := (h.hset fields).status, hashRide := (h.hset fields).activeRideId } := by
  induction fields generalizing h k with
  | nil =>
    show k = _
    rw [DriverHash.hset, List.foldl_nil, ← hstatus, ← hride]
  | cons f fields ih =>
    have htail : (h.hset (f :: fields)) = (h.setField f).hset fields := rfl
    rw [List.foldl_cons, htail]
    cases f <;> (rw [ih (h := h.setField _)] <;> first | rfl | assumption)

theorem any_zrem {geo : List (DriverId × Location)} :
    ((geo.filter (·.1 ≠ d')).any fun p => p.1 = d) = ((geo.any fun p => p.1 = d) && d ≠ d') := by
  induction geo with
  | nil => rfl
  | cons p geo ih =>
    rw [List.filter_cons]
    by_cases hp : p.1 = d'
    · rw [if_neg (by simpa using hp), ih, List.any_cons]
      by_cases hd : d = d' <;> simp [hd, hp, Ne.symm]
    · rw [if_pos (by simpa using hp), List.any_cons, ih, List.any_cons]
      by_cases hd : d = d' <;> simp [hd, hp]

/-- A write to keys of the driver does to them what `update` says. -/
theorem keys_write (h : w.driver = some d) : (w.apply s).keys d = (s.keys d).update w := by
  cases w with
  | hsetDriver d' fields =>
    obtain rfl : d' = d := Option.some.inj h
    have hset := @hset_keys (s.driverHash d') fields (s.keys d') rfl rfl
    show (Store.keys _ d') = fields.foldl DriverKeys.setField _
    rw [hset]
    simp only [Store.keys, Write.apply, put_self]
    rfl
  | sadd p d' =>
    obtain rfl : d' = d := Option.some.inj h
    cases p <;> simp [Store.keys, Write.apply, DriverKeys.update, DriverKeys.setPool, put_apply]
  | srem p d' =>
    obtain rfl : d' = d := Option.some.inj h
    cases p <;> simp [Store.keys, Write.apply, DriverKeys.update, DriverKeys.setPool, put_apply]
  | geoadd d' l =>
    obtain rfl : d' = d := Option.some.inj h
    rcases write_geoadd d' l s with ⟨hmapped, heq⟩ | ⟨hmapped, heq⟩
    · simp only [heq, Store.keys, DriverKeys.update, List.any_cons, decide_true, Bool.true_or, hmapped, Bool.or_true]
    · simp only [heq, DriverKeys.update, hmapped, Bool.or_false]
  | zremGeo d' =>
    obtain rfl : d' = d := Option.some.inj h
    simp only [Store.keys, Write.apply, DriverKeys.update, any_zrem, ne_eq, not_true, decide_false,
      Bool.and_false]
    rfl
  | setDriverActiveRide d' r =>
    obtain rfl : d' = d := Option.some.inj h
    simp only [Store.keys, Write.apply, DriverKeys.update, put_self]
    rfl
  | delDriverActiveRide d' =>
    obtain rfl : d' = d := Option.some.inj h
    simp only [Store.keys, Write.apply, DriverKeys.update, put_self]
    rfl
  | _ => cases h

theorem keys_write_of_ne (h : w.driver ≠ some d) : (w.apply s).keys d = s.keys d := by
  cases w with
  | hsetDriver d' fields =>
    have hne : d ≠ d' := fun heq => h (congrArg some heq.symm)
    simp only [Store.keys, Write.apply, put_of_ne hne]
    rfl
  | sadd p d' =>
    have hne : d ≠ d' := fun heq => h (congrArg some heq.symm)
    cases p <;> simp [Store.keys, Write.apply, put_apply, hne]
  | srem p d' =>
    have hne : d ≠ d' := fun heq => h (congrArg some heq.symm)
    cases p <;> simp [Store.keys, Write.apply, put_apply, hne]
  | geoadd d' l =>
    have hne : d ≠ d' := fun heq => h (congrArg some heq.symm)
    rcases write_geoadd d' l s with ⟨-, heq⟩ | ⟨-, heq⟩
    · simp only [heq, Store.keys, List.any_cons, any_zrem, decide_eq_false hne.symm, hne, ne_eq,
        not_false_iff, decide_true, Bool.and_true, Bool.false_or]
    · rw [heq]
  | zremGeo d' =>
    have hne : d ≠ d' := fun heq => h (congrArg some heq.symm)
    simp only [Store.keys, Write.apply, any_zrem, hne, ne_eq, not_false_iff, decide_true, Bool.and_true]
    rfl
  | setDriverActiveRide d' r =>
    have hne : d ≠ d' := fun heq => h (congrArg some heq.symm)
    simp only [Store.keys, Write.apply, put_of_ne hne]
    rfl
  | delDriverActiveRide d' =>
    have hne : d ≠ d' := fun heq => h (congrArg some heq.symm)
    simp only [Store.keys, Write.apply, put_of_ne hne]
    rfl
  | _ => rfl

theorem keys_multi_of_ne (h : ∀ w ∈ ws, w.driver ≠ some d) : (s.multi ws).keys d = s.keys d := by
  induction ws generalizing s with
  | nil => rfl
  | cons w ws ih =>
    rw [multi_cons, ih fun v hv => h v (List.mem_cons_of_mem _ hv)]
    exact keys_write_of_ne (h w List.mem_cons_self)

theorem keys_multi (h : ∀ w ∈ ws, ∀ d', w.driver = some d' → d' = d) :
    (s.multi ws).keys d = ws.foldl DriverKeys.update (s.keys d) := by
  induction ws generalizing s with
  | nil => rfl
  | cons w ws ih =>
    rw [multi_cons, ih fun v hv => h v (List.mem_cons_of_mem _ hv), List.foldl_cons]
    congr 1
    cases hd : w.driver with
    | none =>
      rw [keys_write_of_ne (by rw [hd]; exact Option.some_ne_none d |>.symm)]
      cases w <;> first | rfl | cases hd
    | some d' =>
      obtain rfl : d' = d := h w List.mem_cons_self d' hd
      exact keys_write hd

/-- The keys of a driver agree with each other, and with the ride `on` it is on. -/
structure Fit (on : RideId → Prop) (k : DriverKeys) : Prop where
  geo : k.geo = true → k.available = true
  available : k.available = true → k.status = some .online ∧ k.online = true
  online : k.status = some .online → k.activeRide = none
  busy : k.busy = true ↔ k.status = some .busy
  onRide : k.status = some .busy → k.activeRide ≠ none
  hash : k.hashRide = k.activeRide
  assigned : ∀ r, k.activeRide = some r ↔ on r

section Fit

variable {on on' : RideId → Prop} {k : DriverKeys} {state : DriverState} {r : RideId} {now : Time}

theorem Fit.congr (h : Fit on k) (hon : ∀ r, on r ↔ on' r) : Fit on' k :=
  { h with assigned := fun r => (h.assigned r).trans (hon r) }

theorem fit_empty : Fit (fun _ => False) ⟨none, none, none, false, false, false, false⟩ := by
  constructor <;> simp

/-- `persistDriverRealtimeState` with the driver's own ride, ONLINE without one and BUSY with. -/
theorem Fit.persist (h : Fit on k) (hride : state.activeRideId = k.activeRide)
    (hstatus : state.status = if k.activeRide = none then .online else .busy) :
    Fit on ((persistWrites env d state).foldl DriverKeys.update k) := by
  cases hk : k.activeRide with
  | none =>
    rw [hk] at hride
    rw [hk, if_pos rfl] at hstatus
    have hon : ∀ r, ¬ on r := fun r hr => by
      rw [← h.assigned, hk] at hr
      cases hr
    cases hlat : state.lat <;> cases hlng : state.lng <;> constructor <;>
      simp [persistWrites, hride, hstatus, hlat, hlng, DriverKeys.update, DriverKeys.setField,
        DriverKeys.setPool, hon]
  | some r =>
    rw [hk] at hride
    rw [hk, if_neg (Option.some_ne_none r)] at hstatus
    have hon : ∀ r', some r = some r' ↔ on r' := fun r' => by
      rw [← h.assigned, hk]
    constructor <;>
      simp [persistWrites, hride, hstatus, DriverKeys.update, DriverKeys.setField,
        DriverKeys.setPool, ← hon]

theorem Fit.offline (h : Fit on k) {existing : Option DriverState} :
    Fit on ((offlineWrites d existing k.activeRide now).foldl DriverKeys.update k) where
  geo := by simp [offlineWrites, DriverKeys.update, DriverKeys.setField, DriverKeys.setPool]
  available := by simp [offlineWrites, DriverKeys.update, DriverKeys.setField, DriverKeys.setPool]
  online := by simp [offlineWrites, DriverKeys.update, DriverKeys.setField, DriverKeys.setPool]
  busy := by simp [offlineWrites, DriverKeys.update, DriverKeys.setField, DriverKeys.setPool]
  onRide := by simp [offlineWrites, DriverKeys.update, DriverKeys.setField, DriverKeys.setPool]
  hash := by simp [offlineWrites, DriverKeys.update, DriverKeys.setField, DriverKeys.setPool]
  assigned := h.assigned

/-- A driver that the end of a ride releases: OFFLINE, or ONLINE and available. -/
theorem Fit.release (h : Fit on k) (hr : on r) {hash : DriverHash} {heartbeatExists : Bool} :
    Fit (fun r' => on r' ∧ r' ≠ r)
      ((releaseWrites d r hash k.activeRide heartbeatExists now).foldl DriverKeys.update k) := by
  have hride : k.activeRide = some r := (h.assigned r).mpr hr
  have honly : ∀ r', ¬ (on r' ∧ r' ≠ r) := by
    rintro r' ⟨hr', hne⟩
    rw [← h.assigned, hride] at hr'
    exact hne (Option.some.inj hr').symm
  have hoff : k.available = false := by
    rw [Bool.eq_false_iff]
    intro ha
    rw [h.online (h.available ha).1] at hride
    cases hride
  have hgeo : k.geo = false := by
    rw [Bool.eq_false_iff]
    intro hg
    rw [h.geo hg] at hoff
    cases hoff
  unfold releaseWrites
  rw [hride, if_pos rfl]
  split_ifs
  · constructor <;>
      simp [DriverKeys.update, DriverKeys.setField, DriverKeys.setPool, honly, hoff, hgeo]
  · cases hash.lat <;> cases hash.lng <;> constructor <;>
      simp [DriverKeys.update, DriverKeys.setField, DriverKeys.setPool, honly]

theorem Fit.ghost (h : Fit on k) (hstatus : k.status ≠ some .busy) :
    Fit on ([.srem .available d, .srem .busy d, .srem .online d, .zremGeo d, .delHeartbeat d,
      .delReservation d].foldl DriverKeys.update k) where
  geo := by simp [DriverKeys.update, DriverKeys.setPool]
  available := by simp [DriverKeys.update, DriverKeys.setPool]
  online := h.online
  busy := by
    show false = true ↔ k.status = some .busy
    simp [hstatus]
  onRide := h.onRide
  hash := h.hash
  assigned := h.assigned

end Fit

end YatriGo
