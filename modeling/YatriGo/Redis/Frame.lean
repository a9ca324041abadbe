import YatriGo.Redis.Command

/-! What a command can change, stated once for the keys that the proofs follow. -/

namespace YatriGo

/-- The keys of `withLock`, as opposed to driver reservations. -/
def LockKey.mutex : LockKey → Prop
  | .reservation _ => False
  | _ => True

theorem Write.apply_locks {w : Write} {s : Store} {k : LockKey} (h : k.mutex) :
    (w.apply s).locks k = s.locks k := by
  cases w <;> first | rfl | skip
  exact put_of_ne fun h' => by subst h'; exact h

theorem Write.apply_nextSeq {w : Write} {s : Store} : (w.apply s).nextSeq = s.nextSeq := by
  cases w <;> rfl

theorem multi_cons (s : Store) (w : Write) (ws : List Write) :
    s.multi (w :: ws) = (w.apply s).multi ws := rfl

@[simp] theorem multi_nil (s : Store) : s.multi [] = s := rfl

theorem multi_append (s : Store) (ws vs : List Write) :
    s.multi (ws ++ vs) = (s.multi ws).multi vs := List.foldl_append ..

theorem multi_locks {ws : List Write} {s : Store} {k : LockKey} (h : k.mutex) :
    (s.multi ws).locks k = s.locks k := by
  induction ws generalizing s with
  | nil => rfl
  | cons w ws ih => rw [multi_cons, ih, Write.apply_locks h]

theorem multi_nextSeq {ws : List Write} {s : Store} : (s.multi ws).nextSeq = s.nextSeq := by
  induction ws generalizing s with
  | nil => rfl
  | cons w ws ih => rw [multi_cons, ih, Write.apply_nextSeq]

theorem multi_jobs {ws : List Write} {s : Store} : (s.multi ws).jobs = s.jobs := by
  induction ws generalizing s with
  | nil => rfl
  | cons w ws ih =>
    rw [multi_cons, ih]
    cases w <;> rfl

variable {key : LockKey} {token : Token} {s : Store} {k : LockKey} {j : JobId} {n : ℕ} {ok : Bool}

theorem releaseLockScript_locks_of_ne (h : k ≠ key) :
    (releaseLockScript key token s).2.locks k = s.locks k := by
  unfold releaseLockScript
  split
  · split
    · exact put_of_ne h
    · rfl
  · rfl

theorem exec_setNX_of_some {env : Env} {i ttl : ℕ} {lease : Lease} (h : s.locks key = some lease) :
    exec env i (.setNX key token ttl) s = (false, s) := by
  simp only [exec, h]

theorem exec_setNX_of_none {env : Env} {i ttl : ℕ} (h : s.locks key = none) :
    exec env i (.setNX key token ttl) s =
      (true, { s with locks := put s.locks key (some ⟨token, s.clock + ttl⟩) }) := by
  simp only [exec, h]

theorem addJob_eq : ∃ jobs, addJob j n s = { s with jobs } := by
  unfold addJob
  split <;> exact ⟨_, rfl⟩

theorem takeJob_eq : ∃ jobs, (takeJob j s).2 = { s with jobs } := by
  unfold takeJob
  split
  · split <;> exact ⟨_, rfl⟩
  · exact ⟨_, rfl⟩

theorem finishJob_eq : ∃ jobs, finishJob j ok s = { s with jobs } := by
  unfold finishJob
  split <;> exact ⟨_, rfl⟩

theorem releaseLockScript_eq : ∃ locks, (releaseLockScript key token s).2 = { s with locks } := by
  unfold releaseLockScript
  split
  · split <;> exact ⟨_, rfl⟩
  · exact ⟨_, rfl⟩

theorem exec_setNX_eq {env : Env} {i ttl : ℕ} : ∃ locks, (exec env i (.setNX key token ttl) s).2 = { s with locks } := by
  cases hl : s.locks key with
  | some lease =>
    rw [exec_setNX_of_some hl]
    exact ⟨_, rfl⟩
  | none =>
    rw [exec_setNX_of_none hl]
    exact ⟨_, rfl⟩

/-- The commands that touch messages, marks and jobs at most. -/
def Cmd.clerical : ⦃β : Type⦄ → Cmd β → Prop
  | _, .multi _ => False
  | _, .uuidv4 => False
  | _, .setNX .. => False
  | _, .evalReleaseLock .. => False
  | _, .evalAcceptRide .. => False
  | _, .upsertRideDoc .. => False
  | _, .upsertDriverDoc .. => False
  | _, .updateDriverDocStatus .. => False
  | _, _ => True

theorem exec_clerical {env : Env} {i : ℕ} {β : Type} {c : Cmd β} (h : c.clerical) :
    ∃ idempotency published jobs, (exec env i c s).2 = { s with idempotency, published, jobs } := by
  cases c with
  | setIdempotent key =>
    simp only [exec]
    split <;> exact ⟨_, _, _, rfl⟩
  | addJob job delay =>
    obtain ⟨jobs, hj⟩ : ∃ jobs, addJob job delay s = { s with jobs } := addJob_eq
    exact ⟨_, _, jobs, hj⟩
  | takeJob job =>
    obtain ⟨jobs, hj⟩ : ∃ jobs, (takeJob job s).2 = { s with jobs } := takeJob_eq
    exact ⟨_, _, jobs, hj⟩
  | finishJob job succeeded =>
    obtain ⟨jobs, hj⟩ : ∃ jobs, finishJob job succeeded s = { s with jobs } := finishJob_eq
    exact ⟨_, _, jobs, hj⟩
  | _ => first | exact h.elim | exact ⟨_, _, _, rfl⟩

/-- The commands that leave the queues alone. -/
def Cmd.queueless : ⦃β : Type⦄ → Cmd β → Prop
  | _, .addJob .. => False
  | _, .takeJob _ => False
  | _, .finishJob .. => False
  | _, _ => True

theorem exec_jobs {env : Env} {i : ℕ} {β : Type} {c : Cmd β} (h : c.queueless) : (exec env i c s).2.jobs = s.jobs := by
  cases c with
  | multi ws => exact multi_jobs
  | evalAcceptRide r d acceptedAt reservation =>
    simp only [exec, acceptRideScript]
    split_ifs <;> rfl
  | setNX key token ttl =>
    obtain ⟨locks, hl⟩ := @exec_setNX_eq key token s env i ttl
    rw [hl]
  | evalReleaseLock key token =>
    obtain ⟨locks, hl⟩ : ∃ locks, (releaseLockScript key token s).2 = { s with locks } := releaseLockScript_eq
    simp only [exec, hl]
  | setIdempotent key =>
    simp only [exec]
    split <;> rfl
  | addJob job delay => exact h.elim
  | takeJob job => exact h.elim
  | finishJob job succeeded => exact h.elim
  | _ => rfl

/-- Every command that is neither a MULTI nor the accept script. -/
def Cmd.single : ⦃β : Type⦄ → Cmd β → Prop
  | _, .multi _ => False
  | _, .evalAcceptRide .. => False
  | _, _ => True

/-- The keys of rides, drivers and customers are the same before and after. -/
structure SameKeys (s t : Store) : Prop where
  seq : s.nextSeq ≤ t.nextSeq
  ride : t.ride = s.ride
  notified : t.rideNotifiedDrivers = s.rideNotifiedDrivers
  responses : t.rideResponses = s.rideResponses
  active : t.activeRides = s.activeRides
  driverHash : t.driverHash = s.driverHash
  driverActive : t.driverActiveRide = s.driverActiveRide
  pending : t.driverPendingDispatches = s.driverPendingDispatches
  driverSet : t.driverSet = s.driverSet
  geo : t.availableDriversGeo = s.availableDriversGeo
  customer : t.customerActiveRide = s.customerActiveRide

theorem exec_sameKeys {env : Env} {i : ℕ} {β : Type} {c : Cmd β} (h : c.single) :
    SameKeys s (exec env i c s).2 := by
  have hclerical : c.clerical → _ := @exec_clerical s env i β c
  cases c with
  | multi ws => exact h.elim
  | evalAcceptRide r d acceptedAt reservation => exact h.elim
  | uuidv4 => exact ⟨Nat.le_succ _, rfl, rfl, rfl, rfl, rfl, rfl, rfl, rfl, rfl, rfl⟩
  | setNX key token ttl =>
    obtain ⟨locks, hl⟩ := @exec_setNX_eq key token s env i ttl
    rw [hl]
    exact ⟨le_rfl, rfl, rfl, rfl, rfl, rfl, rfl, rfl, rfl, rfl, rfl⟩
  | evalReleaseLock key token =>
    obtain ⟨locks, hl⟩ : ∃ locks, (releaseLockScript key token s).2 = { s with locks } := releaseLockScript_eq
    simp only [exec, hl]
    exact ⟨le_rfl, rfl, rfl, rfl, rfl, rfl, rfl, rfl, rfl, rfl, rfl⟩
  | upsertRideDoc r fields ds timeline => exact ⟨le_rfl, rfl, rfl, rfl, rfl, rfl, rfl, rfl, rfl, rfl, rfl⟩
  | upsertDriverDoc d doc => exact ⟨le_rfl, rfl, rfl, rfl, rfl, rfl, rfl, rfl, rfl, rfl, rfl⟩
  | updateDriverDocStatus d status => exact ⟨le_rfl, rfl, rfl, rfl, rfl, rfl, rfl, rfl, rfl, rfl, rfl⟩
  | _ =>
    obtain ⟨idempotency, published, jobs, heq⟩ := hclerical trivial
    rw [heq]
    exact ⟨le_rfl, rfl, rfl, rfl, rfl, rfl, rfl, rfl, rfl, rfl, rfl⟩

end YatriGo
