import YatriGo.Proofs.Alone
import YatriGo.Proofs.DriverFootprint

/-! Where a driver is: what the hash says and where the geo index has it, against what the driver reported. A
coordinate that is not given is stored as an empty string, and an empty string is read as 0. -/

namespace YatriGo
open Concurrent

/-- The coordinates that `getDriverState` gives, none of a driver without a hash. -/
def location (d : DriverId) (s : Store) : Option ℚ × Option ℚ :=
  ((toDriverSnapshot (s.driverHash d)).bind DriverState.lat, (toDriverSnapshot (s.driverHash d)).bind DriverState.lng)

/-- The driver is known and not OFFLINE. -/
def awake (d : DriverId) (s : Store) : Bool := (s.driverHash d).status.getD .offline ≠ .offline

/-- The calls about one driver. -/
inductive DriverCall
  | goOnline (lat lng : Option ℚ) (socketId : Option SocketId)
  | heartbeat (lat lng : Option ℚ) (socketId : Option SocketId)
  | restoreDriverSession (socketId : Option SocketId)
  | goOffline
  | release (rideId : RideId) (now : Time)

def DriverCall.code (env : Env) (d : DriverId) : DriverCall → App Unit
  | .goOnline lat lng socketId => discard (YatriGo.goOnline env d lat lng socketId)
  | .heartbeat lat lng socketId => discard (YatriGo.heartbeat env d lat lng socketId)
  | .restoreDriverSession socketId => discard (YatriGo.restoreDriverSession env d socketId)
  | .goOffline => discard (YatriGo.goOffline env d)
  | .release rideId now => releaseDriverAvailability (some d) rideId now

/-- The pair that a call carries. -/
def DriverCall.pair : DriverCall → Option Location
  | .goOnline (some lat) (some lng) _ => some ⟨lat, lng⟩
  | .heartbeat (some lat) (some lng) _ => some ⟨lat, lng⟩
  | _ => none

/-- The coordinates that a call writes: those it carries, or those that were read. A heartbeat of a driver that
is not awake is not written. -/
def DriverCall.writes (d : DriverId) (s : Store) : DriverCall → Option ℚ × Option ℚ
  | .goOnline lat lng _ => (lat, lng)
  | .heartbeat lat lng _ => if awake d s then (lat, lng) else location d s
  | _ => location d s

/-- What else happens to the store: the driver is not brought online, its coordinates stay, it is put nowhere in
the geo index, and its lock is not left taken. -/
structure Undisturbed (d : DriverId) (s t : Store) : Prop where
  lat : (t.driverHash d).lat = (s.driverHash d).lat
  lng : (t.driverHash d).lng = (s.driverHash d).lng
  known : (t.driverHash d).status = none → (s.driverHash d).status = none
  asleep : awake d s = false → awake d t = false
  geo : ∀ l, (d, l) ∈ t.availableDriversGeo → (d, l) ∈ s.availableDriversGeo
  lock : s.locks (.driver d) = none → t.locks (.driver d) = none

/-- The calls so far, the last one first, one after the other from the empty store, and the store they led to. -/
inductive Calls (env : Env) (d : DriverId) (ok : Store → DriverCall → Prop) : List DriverCall → Store → Prop
  | nil : Calls env d ok [] {}
  | call {calls : List DriverCall} {s : Store} (h : Calls env d ok calls s) (i : ℕ) (c : DriverCall) (hok : ok s c) :
      Calls env d ok (c :: calls) ((system env).after i (c.code env d) s)
  | meanwhile {calls : List DriverCall} {s t : Store} (h : Calls env d ok calls s) (hst : Undisturbed d s t) : Calls env d ok calls t

/-- The last pair that was carried. -/
def lastPair (calls : List DriverCall) : Option Location := calls.findSome? DriverCall.pair

/-- What is stored about the driver is what it reported. -/
structure StoredAsReported (env : Env) (d : DriverId) (ok : Store → DriverCall → Prop) : Prop where
  read : ∀ calls s i c, Calls env d ok calls s → ok s c → location d ((system env).after i (c.code env d) s) = c.writes d s
  geo : ∀ calls s l, Calls env d ok calls s → (d, l) ∈ s.availableDriversGeo → lastPair calls = some l

/-- The call puts a driver that is on no ride at a position that Redis refuses. -/
def DriverCall.refused (d : DriverId) (s : Store) : DriverCall → Prop
  | .goOnline (some lat) (some lng) _ => Location.mapped ⟨lat, lng⟩ = false ∧ s.driverActiveRide d = none ∧
    (toDriverSnapshot (s.driverHash d)).bind DriverState.activeRideId = none
  | .heartbeat (some lat) (some lng) _ => Location.mapped ⟨lat, lng⟩ = false ∧ (s.driverHash d).status = some .online ∧
    (s.driverHash d).activeRideId = none
  | _ => False

/-- The geo index has the driver at no other position than the call carries. -/
def DriverCall.agrees (d : DriverId) (s : Store) (c : DriverCall) : Prop :=
  ∀ l l', c.pair = some l → (d, l') ∈ s.availableDriversGeo → l' = l

/-- Both coordinates are given where the driver is awake, and a driver that goes offline has both. A heartbeat that is
not heeded and a position that Redis refuses do not contradict the geo index. -/
def FullyReported (d : DriverId) (s : Store) : DriverCall → Prop
  | .goOnline lat lng socketId => (lat ≠ none ∧ lng ≠ none) ∧
    ((DriverCall.goOnline lat lng socketId).refused d s → (DriverCall.goOnline lat lng socketId).agrees d s)
  | .heartbeat lat lng socketId => (awake d s = true → lat ≠ none ∧ lng ≠ none) ∧
    (awake d s = false ∨ (DriverCall.heartbeat lat lng socketId).refused d s → (DriverCall.heartbeat lat lng socketId).agrees d s)
  | .goOffline => (location d s).1 ≠ none ∧ (location d s).2 ≠ none
  | _ => True

variable {env : Env} {i : ℕ} {d : DriverId} {r : RideId} {s t u : Store} {lat lng : Option ℚ} {socketId : Option SocketId}
  {state : DriverState} {now : Time} {α β : Type}

theorem toNumber_ofNumber {v : Option ℚ} (h : v ≠ none) : (Coord.ofNumber v).toNumber = v := by
  cases v with
  | none => exact absurd rfl h
  | some q => rfl

theorem location_of_hash {hash : DriverHash} (hhash : s.driverHash d = hash) (h : hash.status ≠ none) :
    location d s = (hash.lat.toNumber, hash.lng.toNumber) := by
  unfold location toDriverSnapshot
  rw [hhash]
  cases hstatus : hash.status with
  | none => exact absurd hstatus h
  | some status => rfl

/-- The driver's hash has these coordinates and this status, and its lock is free. -/
structure Written (d : DriverId) (lat lng : Option ℚ) (status : DriverStatus) (t : Store) : Prop where
  lat : (t.driverHash d).lat = .ofNumber lat
  lng : (t.driverHash d).lng = .ofNumber lng
  status : (t.driverHash d).status = some status
  lock : t.locks (.driver d) = none

/-- The same hash of the driver and the same geo index, with the driver's lock free. -/
structure Left (d : DriverId) (s t : Store) : Prop where
  hash : t.driverHash d = s.driverHash d
  geo : t.availableDriversGeo = s.availableDriversGeo
  lock : t.locks (.driver d) = none

theorem persisted_hash : ((s.multi (persistWrites env d state)).driverHash d).lat = .ofNumber state.lat ∧
    ((s.multi (persistWrites env d state)).driverHash d).lng = .ofNumber state.lng ∧
    ((s.multi (persistWrites env d state)).driverHash d).status = some state.status := by
  obtain ⟨status, lat, lng, socketId, activeRideId, lastHeartbeatAt, updatedAt⟩ := state
  unfold persistWrites
  simp only
  split_ifs <;> cases activeRideId <;> cases lat <;> cases lng <;>
    simp [Store.multi, Write.apply, DriverHash.hset, DriverHash.setField]

theorem persisted_geo {a b : ℚ} {l : Location} (hlat : state.lat = some a) (hlng : state.lng = some b)
    (hin : (d, l) ∈ (s.multi (persistWrites env d state)).availableDriversGeo) : l = ⟨a, b⟩ ∨
      (Location.mapped ⟨a, b⟩ = false ∧ (state.status = .online ∧ state.activeRideId = none) ∧
        (d, l) ∈ s.availableDriversGeo) := by
  obtain ⟨status, lat, lng, socketId, activeRideId, lastHeartbeatAt, updatedAt⟩ := state
  cases hlat
  cases hlng
  revert hin
  unfold persistWrites
  simp only
  split_ifs with hfree hbusy
  · obtain ⟨rfl, rfl⟩ := hfree
    intro hin
    cases hmapped : Location.mapped ⟨a, b⟩ with
    | true =>
      left
      simpa [Store.multi, Write.apply, hmapped] using hin
    | false =>
      right
      simpa [Store.multi, Write.apply, hmapped] using hin
  · cases activeRideId <;> simp [Store.multi, Write.apply]
  · cases activeRideId <;> simp [Store.multi, Write.apply]

theorem offline_hash {existing : Option DriverState} {active : Option RideId} :
    ((s.multi (offlineWrites d existing active now)).driverHash d).lat = .ofNumber (existing.bind DriverState.lat) ∧
    ((s.multi (offlineWrites d existing active now)).driverHash d).lng = .ofNumber (existing.bind DriverState.lng) ∧
    ((s.multi (offlineWrites d existing active now)).driverHash d).status = some .offline := by
  simp [offlineWrites, Store.multi, Write.apply, DriverHash.hset, DriverHash.setField]

theorem offline_geo {existing : Option DriverState} {active : Option RideId} {l : Location} :
    (d, l) ∉ (s.multi (offlineWrites d existing active now)).availableDriversGeo := by
  simp [offlineWrites, Store.multi, Write.apply]

theorem Left.trans (h : Left d s t) (h' : Left d t u) : Left d s u :=
  ⟨h'.hash.trans h.hash, h'.geo.trans h.geo, h'.lock⟩

theorem Backstage.left (h : Backstage s t) (hlock : s.locks (.driver d) = none) : Left d s t := by
  obtain ⟨_, _, _, _, rfl⟩ := h
  exact ⟨rfl, rfl, hlock⟩

theorem left_backstage {p : App α} (hp : p.Uses Cmd.backstage) (hlock : s.locks (.driver d) = none) :
    Left d s ((system env).after i p s) := by
  have hstep : ∀ (γ : Type) (c : Cmd γ) (s : Store), c.backstage → Backstage s ((system env).client i c s).2 := by
    intro γ c s hc
    have hkeep : Backstage s (exec env i c s).2 ∧ c.searches (fun _ _ => ()) s = [] := exec_backstage hc
    exact hkeep.1
  have hback : Backstage s ((system env).after i p s) :=
    hp.finish (R := Backstage) (fun _ => .refl) (fun _ _ _ h h' => h.trans h') hstep s
  exact hback.left hlock

theorem left_section {p : App α} {result : Except AppError α} {ttlMs : ℕ} (hfree : s.locks (.driver d) = none)
    (hp : p.finish ((system env).client i) (lockTaken i (.driver d) ttlMs s) = (result, t))
    (hheld : t.locks (.driver d) = (lockTaken i (.driver d) ttlMs s).locks (.driver d)) :
    ∃ u, (withLock (.driver d) ttlMs p).finish ((system env).client i) s = (result.map some, u) ∧ Left d t u := by
  have hends := @alone_withLock env i s t α Unit (fun _ _ => ()) p (.driver d) ttlMs result _ hfree ⟨hp, rfl⟩
  refine ⟨_, hends.finish, ?_⟩
  have htaken : t.locks (.driver d) = some ⟨.uuid ⟨i, s.nextSeq⟩, s.clock + ttlMs⟩ := hheld.trans put_self
  unfold releaseLockScript
  simp only [htaken, if_true]
  exact ⟨rfl, rfl, put_self⟩

theorem finish_withRetryLock {p : App (Option α)} {result : Except AppError α} {n : ℕ}
    (hp : p.finish ((system env).client i) s = (result.map some, t)) :
    (withRetryLock p (n + 1)).finish ((system env).client i) s = (result.map some, t) := by
  rw [withRetryLock, Prog.bind_eq, Prog.finish_bind, hp]
  cases result with
  | ok a => rfl
  | error e => rfl

theorem left_rest {p : App α} {f : α → App β} {result : Except AppError α}
    (hp : p.finish ((system env).client i) s = (result, t)) (hlock : t.locks (.driver d) = none) (hf : ∀ a, (f a).Uses Cmd.backstage) :
    Left d t ((system env).after i (discard (p.bind f)) s) := by
  have hall : (discard (p.bind f)).finish ((system env).client i) s =
      Prog.resume ((system env).client i) (fun a => discard (f a)) (p.finish ((system env).client i) s) := by
    have hassoc : discard (p.bind f) = p.bind fun a => discard (f a) := Prog.bind_assoc ..
    rw [hassoc]
    exact Prog.finish_bind ..
  unfold System.after
  rw [hall, hp]
  cases result with
  | ok a => exact left_backstage ((hf a).bind fun _ => trivial) hlock
  | error e => exact ⟨rfl, rfl, hlock⟩

theorem left_locked {p : App α} {f : Option α → App β} (result : Except AppError α) (hfree : s.locks (.driver d) = none)
    (hp : p.finish ((system env).client i) (lockTaken i (.driver d) env.lockTtlMs s) = (result, t))
    (hheld : t.locks (.driver d) = (lockTaken i (.driver d) env.lockTtlMs s).locks (.driver d))
    (hf : ∀ a, (f a).Uses Cmd.backstage) :
    Left d t ((system env).after i (discard ((withLock (.driver d) env.lockTtlMs p).bind f)) s) := by
  obtain ⟨u, hu, hleft⟩ := left_section hfree hp hheld
  exact hleft.trans (left_rest hu hleft.lock hf)

theorem left_retried {p : App α} {f : Option α → App β} (result : Except AppError α) (hfree : s.locks (.driver d) = none)
    (hp : p.finish ((system env).client i) (lockTaken i (.driver d) env.lockTtlMs s) = (result, t))
    (hheld : t.locks (.driver d) = (lockTaken i (.driver d) env.lockTtlMs s).locks (.driver d))
    (hf : ∀ a, (f a).Uses Cmd.backstage) :
    Left d t ((system env).after i (discard ((withRetryLock (withLock (.driver d) env.lockTtlMs p) 3).bind f)) s) := by
  obtain ⟨u, hu, hleft⟩ := left_section hfree hp hheld
  exact hleft.trans (left_rest (finish_withRetryLock hu) hleft.lock hf)

/-- The driver as it was persisted. -/
structure Persisted (d : DriverId) (state : DriverState) (s t : Store) : Prop where
  written : Written d state.lat state.lng state.status t
  geo : ∀ a b l, state.lat = some a → state.lng = some b → (d, l) ∈ t.availableDriversGeo → l = ⟨a, b⟩ ∨
    (Location.mapped ⟨a, b⟩ = false ∧ (state.status = .online ∧ state.activeRideId = none) ∧
      (d, l) ∈ s.availableDriversGeo)

theorem Left.persisted (h : Left d (s.multi (persistWrites env d state)) t) : Persisted d state s t := by
  obtain ⟨hlat, hlng, hstatus⟩ := @persisted_hash env d s state
  refine ⟨⟨?_, ?_, ?_, h.lock⟩, fun a b l ha hb hin => ?_⟩
  · rw [h.hash, hlat]
  · rw [h.hash, hlng]
  · rw [h.hash, hstatus]
  · rw [h.geo] at hin
    exact persisted_geo ha hb hin

theorem uses_enqueueDriverSync {reason : SyncReason} {suffix : Option Time} :
    (enqueueDriverSync d reason suffix).Uses Cmd.backstage := by
  cases suffix with
  | none => exact ⟨trivial, fun _ => behind_addJob.uses⟩
  | some suffix => exact behind_addJob.uses

theorem finish_readDriver {f : Option DriverState → App α} : ((getDriverState d).bind f).finish ((system env).client i) s =
    (f (toDriverSnapshot (s.driverHash d))).finish ((system env).client i) s := rfl

theorem persisted_goOnline (hfree : s.locks (.driver d) = none) : ∃ state : DriverState,
    (state.lat = lat ∧ state.lng = lng) ∧
    (state.activeRideId = none → s.driverActiveRide d = none ∧
      (toDriverSnapshot (s.driverHash d)).bind DriverState.activeRideId = none) ∧
    Persisted d state s ((system env).after i ((DriverCall.goOnline lat lng socketId).code env d) s) := by
  let held := lockTaken i (.driver d) env.lockTtlMs s
  let active := s.driverActiveRide d <|> (toDriverSnapshot (s.driverHash d)).bind DriverState.activeRideId
  let snapshot : DriverState :=
    { status := if active = none then .online else .busy
      lat, lng, socketId
      activeRideId := active
      lastHeartbeatAt := some s.clock
      updatedAt := some s.clock }
  have hheld : (held.multi (persistWrites env d snapshot)).locks (.driver d) = held.locks (.driver d) := multi_locks trivial
  have hleft : Left d (held.multi (persistWrites env d snapshot))
      ((system env).after i (discard (YatriGo.goOnline env d lat lng socketId)) s) := by
    unfold goOnline
    refine left_retried (.ok snapshot) hfree rfl hheld fun result => ⟨trivial, fun known => ?_⟩
    cases known with
    | false => trivial
    | true =>
      cases result with
      | none => trivial
      | some state => exact uses_enqueueDriverSync.bind fun _ => behind_publish.uses.bind fun _ => trivial
  have hpersisted := hleft.persisted
  have hactive : active = none → s.driverActiveRide d = none ∧
      (toDriverSnapshot (s.driverHash d)).bind DriverState.activeRideId = none := by
    intro hnone
    simpa only [active, Option.orElse_eq_orElse, Option.orElse_eq_or, Option.or_eq_none_iff] using hnone
  exact ⟨snapshot, ⟨rfl, rfl⟩, hactive, hpersisted.written, hpersisted.geo⟩

theorem asleep_state (h : awake d s = false) : toDriverSnapshot (s.driverHash d) = none ∨
    ∃ state, toDriverSnapshot (s.driverHash d) = some state ∧ state.status = .offline := by
  unfold awake at h
  unfold toDriverSnapshot
  cases hstatus : (s.driverHash d).status with
  | none => exact .inl rfl
  | some status =>
    simp only [hstatus, Option.getD_some, ne_eq, decide_not, Bool.not_eq_false', decide_eq_true_eq] at h
    exact .inr ⟨_, rfl, h⟩

theorem exists_state (h : awake d s = true) : ∃ state, toDriverSnapshot (s.driverHash d) = some state ∧
    state.status ≠ .offline ∧ location d s = (state.lat, state.lng) := by
  unfold awake at h
  unfold location toDriverSnapshot
  cases hstatus : (s.driverHash d).status with
  | none => simp [hstatus] at h
  | some status =>
    simp only [hstatus, Option.getD_some, ne_eq, decide_not, Bool.not_eq_true', decide_eq_false_iff_not] at h
    exact ⟨_, rfl, h, rfl⟩

theorem hash_of_snapshot (h : toDriverSnapshot (s.driverHash d) = some state)
    (hfree : state.status = .online ∧ state.activeRideId = none) :
    (s.driverHash d).status = some .online ∧ (s.driverHash d).activeRideId = none := by
  unfold toDriverSnapshot at h
  cases hstatus : (s.driverHash d).status with
  | none => simp [hstatus] at h
  | some status =>
    rw [hstatus] at h
    obtain rfl := Option.some.inj h
    exact ⟨congrArg some hfree.1, hfree.2⟩

theorem Left.of_taken (i ttlMs : ℕ) (h : Left d (lockTaken i (.driver d) ttlMs s) t) : Left d s t := ⟨h.hash, h.geo, h.lock⟩

theorem uses_heartbeat_rest (result : Option DriverState) : Prog.Uses Cmd.backstage
    (match result with
      | none => .throw ⟨"Driver heartbeat lock busy, retry", 409, "DRIVER_LOCKED"⟩
      | some result => (enqueueDriverSync d .heartbeat result.updatedAt).bind fun _ => .ret result : App DriverState) := by
  cases result with
  | none => trivial
  | some state => exact uses_enqueueDriverSync.bind fun _ => trivial

theorem left_heartbeat (hfree : s.locks (.driver d) = none) (hasleep : awake d s = false) :
    Left d s ((system env).after i ((DriverCall.heartbeat lat lng socketId).code env d) s) := by
  show Left d s ((system env).after i (discard (YatriGo.heartbeat env d lat lng socketId)) s)
  apply Left.of_taken i env.lockTtlMs
  unfold heartbeat
  rcases asleep_state hasleep with hnone | ⟨existing, hexisting, hoffline⟩
  · refine left_retried (.error ⟨"Driver is not registered online", 404, "DRIVER_NOT_ONLINE"⟩) hfree ?_ rfl
      uses_heartbeat_rest
    have hread : toDriverSnapshot ((lockTaken i (.driver d) env.lockTtlMs s).driverHash d) = none := hnone
    rw [Prog.bind_eq, finish_readDriver, hread]
    rfl
  · refine left_retried (.ok existing) hfree ?_ rfl uses_heartbeat_rest
    have hread : toDriverSnapshot ((lockTaken i (.driver d) env.lockTtlMs s).driverHash d) = some existing := hexisting
    rw [Prog.bind_eq, finish_readDriver, hread]
    simp only [if_pos hoffline]
    rfl

theorem persisted_heartbeat (hfree : s.locks (.driver d) = none) (hawake : awake d s = true) : ∃ state : DriverState,
    (state.lat = lat ∧ state.lng = lng) ∧
    (state.status = .online ∧ state.activeRideId = none →
      (s.driverHash d).status = some .online ∧ (s.driverHash d).activeRideId = none) ∧
    Persisted d state s ((system env).after i ((DriverCall.heartbeat lat lng socketId).code env d) s) := by
  let held := lockTaken i (.driver d) env.lockTtlMs s
  obtain ⟨existing, hexisting, hstatus, -⟩ := exists_state hawake
  let snapshot : DriverState :=
    { existing with
      lat, lng
      socketId := socketId <|> existing.socketId
      lastHeartbeatAt := some s.clock
      updatedAt := some s.clock }
  have hheld : (held.multi (persistWrites env d snapshot)).locks (.driver d) = held.locks (.driver d) := multi_locks trivial
  have hleft : Left d (held.multi (persistWrites env d snapshot))
      ((system env).after i (discard (YatriGo.heartbeat env d lat lng socketId)) s) := by
    unfold heartbeat
    refine left_retried (.ok snapshot) hfree ?_ hheld uses_heartbeat_rest
    have hread : toDriverSnapshot (held.driverHash d) = some existing := hexisting
    rw [Prog.bind_eq, finish_readDriver, hread]
    simp only [if_neg hstatus]
    rfl
  have hpersisted := hleft.persisted
  have hfree : existing.status = .online ∧ existing.activeRideId = none → _ := hash_of_snapshot hexisting
  exact ⟨snapshot, ⟨rfl, rfl⟩, hfree, hpersisted.written, hpersisted.geo⟩

theorem uses_restore_rest (result : Option (Option DriverState)) : Prog.Uses Cmd.backstage
    (match result.join with
      | none => .ret none
      | some result => (enqueueDriverSync d .reconnect result.updatedAt).bind fun _ => .ret (some result) :
        App (Option DriverState)) := by
  cases result.join with
  | none => trivial
  | some state => exact uses_enqueueDriverSync.bind fun _ => trivial

theorem left_restoreDriverSession (hfree : s.locks (.driver d) = none) (hasleep : awake d s = false) :
    Left d s ((system env).after i ((DriverCall.restoreDriverSession socketId).code env d) s) := by
  show Left d s ((system env).after i (discard (YatriGo.restoreDriverSession env d socketId)) s)
  apply Left.of_taken i env.lockTtlMs
  unfold restoreDriverSession
  refine left_locked (.ok none) hfree ?_ rfl uses_restore_rest
  rw [Prog.bind_eq, finish_readDriver]
  rcases asleep_state hasleep with hnone | ⟨existing, hexisting, hoffline⟩
  · have hread : toDriverSnapshot ((lockTaken i (.driver d) env.lockTtlMs s).driverHash d) = none := hnone
    rw [hread]
    rfl
  · have hread : toDriverSnapshot ((lockTaken i (.driver d) env.lockTtlMs s).driverHash d) = some existing := hexisting
    rw [hread]
    simp only [if_pos hoffline]
    rfl

/-- A session that is restored is persisted with the coordinates that were read. -/
theorem persisted_restoreDriverSession (hfree : s.locks (.driver d) = none) (hawake : awake d s = true) :
    ∃ state : DriverState, location d s = (state.lat, state.lng) ∧
      Persisted d state s ((system env).after i ((DriverCall.restoreDriverSession socketId).code env d) s) := by
  let held := lockTaken i (.driver d) env.lockTtlMs s
  obtain ⟨existing, hexisting, hstatus, hlocation⟩ := exists_state hawake
  let snapshot : DriverState :=
    { existing with socketId, lastHeartbeatAt := some s.clock, updatedAt := some s.clock }
  have hheld : (held.multi (persistWrites env d snapshot)).locks (.driver d) = held.locks (.driver d) := multi_locks trivial
  have hleft : Left d (held.multi (persistWrites env d snapshot))
      ((system env).after i (discard (YatriGo.restoreDriverSession env d socketId)) s) := by
    unfold restoreDriverSession
    refine left_locked (.ok (some snapshot)) hfree ?_ hheld uses_restore_rest
    have hread : toDriverSnapshot (held.driverHash d) = some existing := hexisting
    rw [Prog.bind_eq, finish_readDriver, hread]
    simp only [if_neg hstatus]
    rfl
  have hpersisted := hleft.persisted
  exact ⟨snapshot, hlocation, hpersisted.written, hpersisted.geo⟩

/-- A driver that goes offline is written with the coordinates that were read, and leaves the geo index. -/
theorem written_goOffline (hfree : s.locks (.driver d) = none) :
    Written d (location d s).1 (location d s).2 .offline ((system env).after i (DriverCall.goOffline.code env d) s) ∧
      ∀ l, (d, l) ∉ ((system env).after i (DriverCall.goOffline.code env d) s).availableDriversGeo := by
  let held := lockTaken i (.driver d) env.lockTtlMs s
  let existing := toDriverSnapshot (s.driverHash d)
  let active := s.driverActiveRide d <|> existing.bind DriverState.activeRideId
  let m := held.multi (offlineWrites d existing active s.clock)
  let impact : OfflineImpact :=
    { driverId := d, activeRideId := active, pendingRideIds := s.driverPendingDispatches d
      previousStatus := (existing.map DriverState.status).getD .offline }
  have hheld : m.locks (.driver d) = held.locks (.driver d) := multi_locks trivial
  have hemit : Behind (emitDriverStateUpdate d s.clock) := behind_publish
  obtain ⟨_, v, hv, timeline, published, idempotency, jobs, rfl⟩ := @Behind.alone env i _ Unit (fun _ _ => ()) _ hemit m
  have hleft : Left d m ((system env).after i (DriverCall.goOffline.code env d) s) := by
    have hlocked : Left d { m with
        rideTimeline := timeline, published := published, idempotency := idempotency, jobs := jobs }
        ((system env).after i (discard (YatriGo.goOffline env d)) s) := by
      unfold goOffline
      refine left_locked (.ok impact) hfree ?_ hheld fun result => ?_
      · exact (hv.bind (f := fun _ => (.ret impact : App OfflineImpact)) .ret).finish
      · cases result with
        | none => trivial
        | some impact => exact ⟨trivial, fun now => uses_enqueueDriverSync.bind fun _ => trivial⟩
    exact ⟨hlocked.hash, hlocked.geo, hlocked.lock⟩
  obtain ⟨hlat, hlng, hstatus⟩ := @offline_hash d held s.clock existing active
  refine ⟨⟨?_, ?_, ?_, hleft.lock⟩, fun l => ?_⟩
  · rw [hleft.hash]
    exact hlat
  · rw [hleft.hash]
    exact hlng
  · rw [hleft.hash]
    exact hstatus
  · rw [hleft.geo]
    exact offline_geo

section release

variable {active : Option RideId} {alive : Bool}

/-- What a release makes of the driver: OFFLINE, or ONLINE if it was awake. -/
structure Released (d : DriverId) (s t : Store) : Prop where
  lat : (t.driverHash d).lat = (s.driverHash d).lat
  lng : (t.driverHash d).lng = (s.driverHash d).lng
  status : (t.driverHash d).status ≠ none
  asleep : awake d s = false → awake d t = false
  geo : ∀ l, (d, l) ∈ t.availableDriversGeo → (d, l) ∈ s.availableDriversGeo ∨
    awake d s = true ∧ (s.driverHash d).lat = .num l.lat ∧ (s.driverHash d).lng = .num l.lng

theorem released_hset {status : DriverStatus} {geo : List (DriverId × Location)}
    (hhash : t.driverHash d = (s.driverHash d).hset [.activeRideId none, .updatedAt now, .status status])
    (hstatus : awake d s = false → status = .offline) (hgeo : t.availableDriversGeo = geo)
    (hin : ∀ l, (d, l) ∈ geo → (d, l) ∈ s.availableDriversGeo ∨
      awake d s = true ∧ (s.driverHash d).lat = .num l.lat ∧ (s.driverHash d).lng = .num l.lng) : Released d s t := by
  refine ⟨by rw [hhash]; rfl, by rw [hhash]; rfl, fun hnone => ?_, fun hasleep => ?_, fun l hl => hin l (hgeo ▸ hl)⟩
  · rw [hhash] at hnone
    cases hnone
  · unfold awake
    rw [hhash, hstatus hasleep]
    rfl

theorem released_multi : Released d s (s.multi (releaseWrites d r (s.driverHash d) active alive now)) := by
  let m := s.multi ([.srem .busy d, .sremPending d r] ++ if active = some r then [.delDriverActiveRide d] else [])
  have hm : m.driverHash = s.driverHash ∧ m.availableDriversGeo = s.availableDriversGeo := by
    unfold m
    split_ifs <;> exact ⟨rfl, rfl⟩
  unfold releaseWrites
  rw [multi_append]
  change Released d s (m.multi _)
  clear_value m
  obtain ⟨hmhash, hmgeo⟩ := hm
  split_ifs with hoff
  · have hhash : put m.driverHash d ((m.driverHash d).hset [.activeRideId none, .updatedAt now, .status .offline]) d =
        (s.driverHash d).hset [.activeRideId none, .updatedAt now, .status .offline] := by
      rw [put_self, hmhash]
    exact released_hset hhash (fun _ => rfl) hmgeo fun l hin => .inl hin
  · have hawake : awake d s = true := by
      unfold awake
      exact decide_eq_true fun heq => hoff (.inl heq)
    have hhash : put m.driverHash d ((m.driverHash d).hset [.activeRideId none, .updatedAt now, .status .online]) d =
        (s.driverHash d).hset [.activeRideId none, .updatedAt now, .status .online] := by
      rw [put_self, hmhash]
    have hstatus : awake d s = false → DriverStatus.online = .offline := by
      intro hasleep
      rw [hawake] at hasleep
      cases hasleep
    -- the driver is put into the geo index only if both coordinates are numbers
    cases hlat : (s.driverHash d).lat with
    | num lat =>
      cases hlng : (s.driverHash d).lng with
      | num lng =>
        refine released_hset hhash hstatus rfl fun l hin => ?_
        rcases mem_geoadd hin with ⟨-, rfl⟩ | hin
        · exact .inr ⟨hawake, hlat, hlng⟩
        · exact .inl (hmgeo ▸ hin)
      | _ => exact released_hset hhash hstatus hmgeo fun l hin => .inl hin
    | _ => exact released_hset hhash hstatus hmgeo fun l hin => .inl hin

end release

/-- Where the driver is, after these calls. -/
structure Known (d : DriverId) (calls : List DriverCall) (s : Store) : Prop where
  lock : s.locks (.driver d) = none
  fresh : (s.driverHash d).status = none → (s.driverHash d).lat = .absent ∧ (s.driverHash d).lng = .absent
  hash : awake d s = true →
    ∃ l, lastPair calls = some l ∧ (s.driverHash d).lat = .num l.lat ∧ (s.driverHash d).lng = .num l.lng
  geo : ∀ l, (d, l) ∈ s.availableDriversGeo → lastPair calls = some l

variable {calls : List DriverCall} {c : DriverCall} {status : DriverStatus} {l : Location}

theorem Undisturbed.refl : Undisturbed d s s := ⟨rfl, rfl, id, id, fun _ => id, id⟩

theorem undisturbed_event {e : Event} (h : e.apply s = some t) : Undisturbed d s t := by
  cases event_happens h with
  | expireLease key lease hlease hover =>
    refine ⟨rfl, rfl, id, id, fun _ => id, fun hfree => ?_⟩
    rcases eq_or_ne (LockKey.driver d) key with rfl | hne
    · exact put_self
    · exact (put_of_ne hne).trans hfree
  | _ => exact ⟨rfl, rfl, id, id, fun _ => id, id⟩

/-- A driver that accepts a ride was ONLINE. -/
theorem undisturbed_acceptRideScript {d' : DriverId} {acceptedAt : Time} {reservation : Option Token} :
    Undisturbed d s (acceptRideScript r d' acceptedAt reservation s).2 := by
  rcases @acceptRideScript_cases s r d' acceptedAt reservation with ⟨-, heq⟩ | ⟨-, heq, hguard⟩
  · rw [heq]
    exact .refl
  · obtain ⟨-, -, batchId, -, -, -, honline, -⟩ := acceptRideGuard_eq_zero hguard
    have hgeo : ∀ l, (d, l) ∈ (acceptRideCommit r d' acceptedAt s).availableDriversGeo → (d, l) ∈ s.availableDriversGeo :=
      fun l hin => List.mem_of_mem_filter hin
    have hlock : s.locks (.driver d) = none → (acceptRideCommit r d' acceptedAt s).locks (.driver d) = none := by
      intro hfree
      have hkey : LockKey.driver d ≠ .reservation d' := fun h => by cases h
      show put s.locks (.reservation d') none (.driver d) = none
      rw [put_of_ne hkey, hfree]
    rw [heq]
    rcases eq_or_ne d d' with rfl | hne
    · have hawake : awake d s = true := by
        unfold awake
        rw [honline]
        rfl
      have hhash : (acceptRideCommit r d acceptedAt s).driverHash d =
          (s.driverHash d).hset [.status .busy, .activeRideId (some r), .updatedAt acceptedAt] := put_self
      refine ⟨by rw [hhash]; rfl, by rw [hhash]; rfl, fun hnone => ?_, fun hasleep => ?_, hgeo, hlock⟩
      · rw [hhash] at hnone
        cases hnone
      · rw [hawake] at hasleep
        cases hasleep
    · have hhash : (acceptRideCommit r d' acceptedAt s).driverHash d = s.driverHash d := put_of_ne hne
      refine ⟨by rw [hhash], by rw [hhash], fun hnone => ?_, fun hasleep => ?_, hgeo, hlock⟩
      · rwa [hhash] at hnone
      · unfold awake
        rw [hhash]
        exact hasleep

theorem Undisturbed.trans (h : Undisturbed d s t) (h' : Undisturbed d t u) : Undisturbed d s u where
  lat := h'.lat.trans h.lat
  lng := h'.lng.trans h.lng
  known hnone := h.known (h'.known hnone)
  asleep hasleep := h'.asleep (h.asleep hasleep)
  geo l hin := h.geo l (h'.geo l hin)
  lock hfree := h'.lock (h.lock hfree)

/-- The commands of programs that deal with the driver neither under its lock nor in a release. -/
def Cmd.apart (d : DriverId) : ⦃β : Type⦄ → Cmd β → Prop
  | _, .multi ws => ∀ w ∈ ws, w.elsewhere d
  | _, .setNX key .. => key ≠ .driver d
  | _, _ => True

theorem undisturbed_write {w : Write} (h : w.elsewhere d) : Undisturbed d s (w.apply s) := by
  have hlock : (w.apply s).locks (.driver d) = s.locks (.driver d) := Write.apply_locks trivial
  have hhash : (w.apply s).driverHash d = s.driverHash d := by
    cases w with
    | hsetDriver d' fields => exact put_of_ne (Ne.symm h)
    | _ => rfl
  refine ⟨by rw [hhash], by rw [hhash], fun hnone => hhash ▸ hnone, fun hasleep => ?_, fun l hin => ?_, hlock.trans⟩
  · unfold awake
    rw [hhash]
    exact hasleep
  · cases w with
    | geoadd d' l' =>
      rcases mem_geoadd hin with ⟨heq, -⟩ | hin
      · exact absurd heq.symm h
      · exact hin
    | zremGeo d' => exact List.mem_of_mem_filter hin
    | _ => exact hin

theorem undisturbed_multi {ws : List Write} (h : ∀ w ∈ ws, w.elsewhere d) : Undisturbed d s (s.multi ws) := by
  induction ws generalizing s with
  | nil => exact .refl
  | cons w ws ih =>
    have hfirst : Undisturbed d s (w.apply s) := undisturbed_write (h w List.mem_cons_self)
    exact hfirst.trans (ih fun v hv => h v (List.mem_cons_of_mem _ hv))

/-- A free lock of the driver stays free. -/
theorem free_exec {c : Cmd β} (h : c.apart d) (hsingle : c.single) (hfree : s.locks (.driver d) = none) :
    (exec env i c s).2.locks (.driver d) = none := by
  have hclerical : c.clerical → _ := @exec_clerical s env i β c
  cases c with
  | multi ws => exact hsingle.elim
  | evalAcceptRide r d' acceptedAt reservation => exact hsingle.elim
  | setNX key token ttl =>
    cases hlock : s.locks key with
    | some lease =>
      rw [exec_setNX_of_some hlock]
      exact hfree
    | none =>
      rw [exec_setNX_of_none hlock]
      exact (put_of_ne (Ne.symm h)).trans hfree
  | evalReleaseLock key token =>
    rcases eq_or_ne (LockKey.driver d) key with rfl | hne
    · simp only [exec, releaseLockScript, hfree]
    · exact (releaseLockScript_locks_of_ne hne).trans hfree
  | uuidv4 => exact hfree
  | upsertRideDoc r fields ds timeline => exact hfree
  | upsertDriverDoc d' doc => exact hfree
  | updateDriverDocStatus d' status => exact hfree
  | _ =>
    obtain ⟨idempotency, published, jobs, heq⟩ := hclerical trivial
    rw [heq]
    exact hfree

theorem undisturbed_exec {c : Cmd β} (h : c.apart d) : Undisturbed d s (exec env i c s).2 := by
  by_cases hsingle : c.single
  · have hsame := @exec_sameKeys s env i β c hsingle
    refine ⟨by rw [hsame.driverHash], by rw [hsame.driverHash], fun hnone => hsame.driverHash ▸ hnone, fun hasleep => ?_,
      fun l hin => hsame.geo ▸ hin, free_exec h hsingle⟩
    unfold awake
    rw [hsame.driverHash]
    exact hasleep
  · cases c with
    | multi ws => exact undisturbed_multi h
    | evalAcceptRide r d' acceptedAt reservation => exact undisturbed_acceptRideScript
    | _ => exact absurd trivial hsingle

theorem Calls.apart {ok : Store → DriverCall → Prop} {p : App α} (h : Calls env d ok calls s) (hp : p.Uses (Cmd.apart d)) :
    Calls env d ok calls ((system env).after i p s) := by
  have hstep : ∀ (γ : Type) (c : Cmd γ) (s : Store), c.apart d → Undisturbed d s ((system env).client i c s).2 :=
    fun _ _ _ hc => undisturbed_exec hc
  exact h.meanwhile (hp.finish (fun _ => .refl) (fun _ _ _ h h' => h.trans h') hstep s)

theorem Known.meanwhile (h : Known d calls s) (hst : Undisturbed d s t) : Known d calls t := by
  refine ⟨hst.lock h.lock, fun hnone => ?_, fun hawake => ?_, fun l hin => h.geo l (hst.geo l hin)⟩
  · rw [hst.lat, hst.lng]
    exact h.fresh (hst.known hnone)
  · rw [hst.lat, hst.lng]
    apply h.hash
    by_contra hasleep
    rw [hst.asleep (Bool.eq_false_of_not_eq_true hasleep)] at hawake
    exact Bool.false_ne_true hawake

theorem Known.left (h : Known d calls s) (hleft : Left d s t) (hasleep : awake d s = false)
    (hpair : ∀ l, (d, l) ∈ s.availableDriversGeo → lastPair (c :: calls) = some l) : Known d (c :: calls) t := by
  have hsame : awake d t = awake d s := by
    unfold awake
    rw [hleft.hash]
  refine ⟨hleft.lock, fun hnone => ?_, fun hawake => ?_, fun l hin => ?_⟩
  · rw [hleft.hash] at hnone ⊢
    exact h.fresh hnone
  · rw [hsame, hasleep] at hawake
    exact absurd hawake Bool.false_ne_true
  · rw [hleft.geo] at hin
    exact hpair l hin

theorem known_of_persisted (h : Persisted d state s t) (hlat : state.lat = some l.lat) (hlng : state.lng = some l.lng)
    (hpair : lastPair calls = some l)
    (hrefused : l.mapped = false → state.status = .online ∧ state.activeRideId = none →
      ∀ l', (d, l') ∈ s.availableDriversGeo → l' = l) : Known d calls t := by
  obtain ⟨hwrittenLat, hwrittenLng, hstatus, hlock⟩ := h.written
  rw [hlat] at hwrittenLat
  rw [hlng] at hwrittenLng
  refine ⟨hlock, fun hnone => ?_, fun _ => ⟨l, hpair, hwrittenLat, hwrittenLng⟩, fun l' hin => ?_⟩
  · rw [hstatus] at hnone
    exact absurd hnone (Option.some_ne_none _)
  · rcases h.geo _ _ l' hlat hlng hin with rfl | ⟨hmapped, hfree, hbefore⟩
    · exact hpair
    · rw [hpair, hrefused hmapped hfree l' hbefore]

theorem location_of_written {a b : Option ℚ} (ha : a ≠ none) (hb : b ≠ none) (h : Written d a b status t) :
    location d t = (a, b) := by
  have hstatus : (t.driverHash d).status ≠ none := by
    rw [h.status]
    exact Option.some_ne_none _
  rw [location_of_hash rfl hstatus, h.lat, h.lng, toNumber_ofNumber ha, toNumber_ofNumber hb]

theorem Left.location_eq (h : Left d s t) : location d t = location d s := by
  unfold location
  rw [h.hash]

theorem location_of_known {l : Location} (hawake : awake d s = true) (hlat : (s.driverHash d).lat = .num l.lat)
    (hlng : (s.driverHash d).lng = .num l.lng) : location d s = (some l.lat, some l.lng) := by
  have hstatus : (s.driverHash d).status ≠ none := by
    intro hnone
    simp [awake, hnone] at hawake
  rw [location_of_hash rfl hstatus, hlat, hlng]
  rfl

theorem known_release (h : Known d calls s) :
    Known d (.release r now :: calls) ((system env).after i ((DriverCall.release r now).code env d) s) ∧
      location d ((system env).after i ((DriverCall.release r now).code env d) s) = location d s := by
  let alive := (s.driverHeartbeat d).isSome
  let t := s.multi (releaseWrites d r (s.driverHash d) (s.driverActiveRide d) alive now)
  have hreleased : Released d s t := released_multi
  have hlock : t.locks (.driver d) = s.locks (.driver d) := multi_locks trivial
  show Known d (.release r now :: calls) t ∧ location d t = location d s
  have hlocation : location d t = location d s := by
    rw [location_of_hash rfl hreleased.status, hreleased.lat, hreleased.lng]
    cases hknown : (s.driverHash d).status with
    | none =>
      obtain ⟨hlat', hlng'⟩ := h.fresh hknown
      rw [hlat', hlng']
      unfold location toDriverSnapshot
      rw [hknown]
      rfl
    | some status =>
      have hsome : (s.driverHash d).status ≠ none := by
        rw [hknown]
        exact Option.some_ne_none _
      rw [location_of_hash rfl hsome]
  -- the release wakes no driver that was asleep
  have hhash : awake d t = true → awake d s = true := by
    intro hawake
    by_contra hoff
    rw [hreleased.asleep (Bool.eq_false_of_not_eq_true hoff)] at hawake
    exact Bool.false_ne_true hawake
  refine ⟨⟨hlock.trans h.lock, fun hnone => absurd hnone hreleased.status, fun hawake => ?_, fun l hin => ?_⟩, hlocation⟩
  · rw [hreleased.lat, hreleased.lng]
    exact h.hash (hhash hawake)
  · rcases hreleased.geo l hin with hbefore | ⟨hawake, hlat', hlng'⟩
    · exact h.geo l hbefore
    · obtain ⟨l', hlast, hlat'', hlng''⟩ := h.hash hawake
      rw [hlat'] at hlat''
      rw [hlng'] at hlng''
      cases l
      cases l'
      cases hlat''
      cases hlng''
      exact hlast

/-- A call stores what is reported. -/
theorem known_call (h : Known d calls s) (hok : FullyReported d s c) :
    Known d (c :: calls) ((system env).after i (c.code env d) s) ∧
      location d ((system env).after i (c.code env d) s) = c.writes d s := by
  cases c with
  | goOnline lat lng socketId =>
    obtain ⟨⟨hlat, hlng⟩, hagrees⟩ := hok
    obtain ⟨a, rfl⟩ := Option.ne_none_iff_exists'.mp hlat
    obtain ⟨b, rfl⟩ := Option.ne_none_iff_exists'.mp hlng
    obtain ⟨state, ⟨ha, hb⟩, hfree, hpersisted⟩ := @persisted_goOnline env i d s (some a) (some b) socketId h.lock
    have hwritten := hpersisted.written
    rw [ha, hb] at hwritten
    refine ⟨known_of_persisted (l := ⟨a, b⟩) hpersisted ha hb rfl fun hmapped hon l' hin => ?_,
      location_of_written hlat hlng hwritten⟩
    exact hagrees ⟨hmapped, hfree hon.2⟩ _ l' rfl hin
  | heartbeat lat lng socketId =>
    cases hawake : awake d s with
    | true =>
      obtain ⟨hlat, hlng⟩ := hok.1 hawake
      obtain ⟨a, rfl⟩ := Option.ne_none_iff_exists'.mp hlat
      obtain ⟨b, rfl⟩ := Option.ne_none_iff_exists'.mp hlng
      obtain ⟨state, ⟨ha, hb⟩, hfree, hpersisted⟩ :=
        @persisted_heartbeat env i d s (some a) (some b) socketId h.lock hawake
      have hwrites : (DriverCall.heartbeat (some a) (some b) socketId).writes d s = (some a, some b) := if_pos hawake
      have hwritten := hpersisted.written
      rw [ha, hb] at hwritten
      rw [hwrites]
      refine ⟨known_of_persisted (l := ⟨a, b⟩) hpersisted ha hb rfl fun hmapped hon l' hin => ?_,
        location_of_written hlat hlng hwritten⟩
      exact hok.2 (.inr ⟨hmapped, hfree hon⟩) _ l' rfl hin
    | false =>
      -- the heartbeat of an offline driver is a call that stores nothing
      have hleft := @left_heartbeat env i d s lat lng socketId h.lock hawake
      have hwrites : (DriverCall.heartbeat lat lng socketId).writes d s = location d s :=
        if_neg (Bool.not_eq_true _ ▸ hawake)
      rw [hwrites]
      refine ⟨h.left hleft hawake fun l hin => ?_, hleft.location_eq⟩
      cases hpair : (DriverCall.heartbeat lat lng socketId).pair with
      | none =>
        have hlast : lastPair (.heartbeat lat lng socketId :: calls) = lastPair calls := by
          unfold lastPair
          rw [List.findSome?_cons, hpair]
        rw [hlast]
        exact h.geo l hin
      | some l' =>
        have hlast : lastPair (.heartbeat lat lng socketId :: calls) = some l' := by
          unfold lastPair
          rw [List.findSome?_cons, hpair]
        rw [hlast, hok.2 (.inl hawake) l' l hpair hin]
  | restoreDriverSession socketId =>
    cases hawake : awake d s with
    | true =>
      obtain ⟨l, hlast, hlat, hlng⟩ := h.hash hawake
      have hread := location_of_known hawake hlat hlng
      obtain ⟨state, hstate, hpersisted⟩ := @persisted_restoreDriverSession env i d s socketId h.lock hawake
      obtain ⟨ha, hb⟩ := Prod.mk.inj (hstate.symm.trans hread)
      have hwritten := hpersisted.written
      rw [ha, hb] at hwritten
      -- a position that Redis refuses again leaves the driver where the last call put it
      have hsame : ∀ l', (d, l') ∈ s.availableDriversGeo → l' = l := fun l' hin =>
        Option.some.inj ((h.geo l' hin).symm.trans hlast)
      refine ⟨known_of_persisted (l := l) hpersisted ha hb hlast fun _ _ => hsame, ?_⟩
      exact (location_of_written (Option.some_ne_none _) (Option.some_ne_none _) hwritten).trans hread.symm
    | false =>
      have hleft := @left_restoreDriverSession env i d s socketId h.lock hawake
      exact ⟨h.left hleft hawake h.geo, hleft.location_eq⟩
  | goOffline =>
    obtain ⟨hwritten, hgone⟩ := @written_goOffline env i d s h.lock
    have hread := location_of_written hok.1 hok.2 hwritten
    refine ⟨⟨hwritten.lock, fun hnone => ?_, fun hawake => ?_, fun l hin => absurd hin (hgone l)⟩, hread⟩
    · rw [hwritten.status] at hnone
      exact absurd hnone (Option.some_ne_none _)
    · simp [awake, hwritten.status] at hawake
  | release rideId now => exact known_release h

theorem known_calls (h : Calls env d (FullyReported d) calls s) : Known d calls s := by
  induction h with
  | nil =>
    have hasleep : awake d {} = false := rfl
    refine ⟨rfl, fun _ => ⟨rfl, rfl⟩, fun hawake => ?_, fun l hin => absurd hin List.not_mem_nil⟩
    rw [hasleep] at hawake
    cases hawake
  | call h i c hok ih => exact (known_call ih hok).1
  | meanwhile h hst ih => exact ih.meanwhile hst

theorem stored_as_reported : StoredAsReported env d (FullyReported d) where
  read _ _ _ _ h hok := (known_call (known_calls h) hok).2
  geo _ _ l h hin := (known_calls h).geo l hin

theorem never_reported : ∃ s, Calls townEnv 1 (fun _ _ => True) [.restoreDriverSession none, .goOnline none none none] s ∧
    location 1 s = (some 0, some 0) ∧ (1, ⟨0, 0⟩) ∈ s.availableDriversGeo :=
  ⟨_, .call (.call .nil 0 (.goOnline none none none) trivial) 0 (.restoreDriverSession none) trivial,
    by decide +kernel, by decide +kernel⟩

theorem found_at_zero : ¬ StoredAsReported townEnv 1 fun _ _ => True := by
  intro h
  obtain ⟨s, hcalls, -, hin⟩ := never_reported
  have hlast := h.geo _ s _ hcalls hin
  cases hlast

end YatriGo
