import YatriGo.Proofs.Footprint

/-! Leases: a client that took a lock keeps it until it releases it itself. Which locks
are followed is a parameter, so that only their leases need to last as long as they are
held. -/

namespace YatriGo
open Concurrent

/-- The ride locks, and with `customers` also the customer locks. -/
def keeps (customers : Prop) : LockKey → Prop
  | .ride _ => True
  | .customer _ => customers
  | _ => False

theorem keeps_not_ofDriver {customers : Prop} {k : LockKey} (h : keeps customers k) :
    ¬ k.ofDriver := by
  cases k <;> first | exact h.elim | exact id

theorem keeps_mutex {customers : Prop} {k : LockKey} (h : keeps customers k) : k.mutex := by
  cases k <;> first | exact h.elim | trivial

def Token.ownedBy (i : ℕ) (token : Token) : Prop := ∃ u, token = .uuid u ∧ u.client = i

theorem Token.ownedBy.unique {i j : ℕ} {token : Token} (hi : token.ownedBy i)
    (hj : token.ownedBy j) : i = j := by
  obtain ⟨u, rfl, hu⟩ := hi
  obtain ⟨v, hv, hj⟩ := hj
  cases hv
  exact hu.symm.trans hj

variable {env : Env} {customers : Prop} {i j : ℕ} {key : LockKey} {u : Uuid} {s t : Store}

/-- No lock is leased to client `i`. -/
def Free (customers : Prop) (i : ℕ) (s : Store) : Prop :=
  ∀ k lease, keeps customers k → s.locks k = some lease → ¬ lease.token.ownedBy i

/-- The one lock of client `i` is `key`, taken with the token `u`. -/
structure Locked (customers : Prop) (i : ℕ) (key : LockKey) (u : Uuid) (s : Store) : Prop where
  own : u.client = i
  lease : keeps customers key → ∃ e, s.locks key = some ⟨.uuid u, e⟩
  only : ∀ k lease, keeps customers k → k ≠ key → s.locks k = some lease → ¬ lease.token.ownedBy i

/-- The leases of client `i` are the same before and after. -/
def LeasesStay (customers : Prop) (i : ℕ) (s t : Store) : Prop :=
  ∀ k lease, keeps customers k → lease.token.ownedBy i → (s.locks k = some lease ↔ t.locks k = some lease)

theorem LeasesStay.refl : LeasesStay customers i s s := fun _ _ _ _ => Iff.rfl

theorem LeasesStay.trans {v : Store} (h₁ : LeasesStay customers i s t)
    (h₂ : LeasesStay customers i t v) : LeasesStay customers i s v :=
  fun k lease hk ho => (h₁ k lease hk ho).trans (h₂ k lease hk ho)

theorem LeasesStay.of_locks (h : ∀ k, keeps customers k → t.locks k = s.locks k) :
    LeasesStay customers i s t := fun k _ hk _ => by rw [h k hk]

theorem Free.stay (h : Free customers i s) (hst : LeasesStay customers i s t) : Free customers i t :=
  fun k lease hk hl ho => h k lease hk ((hst k lease hk ho).mpr hl) ho

theorem Locked.stay (h : Locked customers i key u s) (hst : LeasesStay customers i s t) :
    Locked customers i key u t where
  own := h.own
  lease := fun hk =>
    let ⟨e, he⟩ := h.lease hk
    ⟨e, (hst key _ hk ⟨u, rfl, h.own⟩).mp he⟩
  only := fun k lease hk hne hl ho => h.only k lease hk hne ((hst k lease hk ho).mpr hl) ho

theorem Free.acquire {e : Time} (h : Free customers i s) (hu : u.client = i) :
    Locked customers i key u { s with locks := put s.locks key (some ⟨.uuid u, e⟩) } where
  own := hu
  lease := fun _ => ⟨e, put_self⟩
  only := fun k lease hk hne hl ho => by
    simp only [put_of_ne hne] at hl
    exact h k lease hk hl ho

theorem Locked.release (h : Locked customers i key u s) :
    Free customers i (releaseLockScript key (.uuid u) s).2 := by
  intro k lease hk hl ho
  rcases eq_or_ne k key with rfl | hne
  · obtain ⟨e, he⟩ := h.lease hk
    simp only [releaseLockScript, he, if_true, put_self] at hl
    cases hl
  · rw [releaseLockScript_locks_of_ne hne] at hl
    exact h.only k lease hk hne hl ho

/-- The client takes and releases the locks only with tokens of its own. -/
def Cmd.ownTokens (customers : Prop) (i : ℕ) : ⦃β : Type⦄ → Cmd β → Prop
  | _, .setNX key token _ => keeps customers key → token.ownedBy i
  | _, .evalReleaseLock key token => keeps customers key → token.ownedBy i
  | _, _ => True

theorem Cmd.background.ownTokens {β : Type} {c : Cmd β} (h : c.background env) :
    c.ownTokens customers i := by
  cases c <;> first | trivial | exact fun hk => (keeps_not_ofDriver hk h).elim

theorem acceptRideScript_locks {r : RideId} {d : DriverId} {acceptedAt : Time}
    {reservation : Option Token} {k : LockKey} (h : k.mutex) :
    (acceptRideScript r d acceptedAt reservation s).2.locks k = s.locks k := by
  unfold acceptRideScript
  split
  · rfl
  · exact put_of_ne fun h' => by subst h'; exact h

/-- The lock that a command takes or releases. -/
def Cmd.lockOf : ⦃β : Type⦄ → Cmd β → Option LockKey
  | _, .setNX key .. => some key
  | _, .evalReleaseLock key _ => some key
  | _, _ => none

theorem exec_locks {β : Type} {c : Cmd β} {k : LockKey} (h : k.mutex) (hc : c.lockOf ≠ some k) :
    (exec env i c s).2.locks k = s.locks k := by
  have hclerical : c.clerical → _ := @exec_clerical s env i β c
  cases c with
  | multi ws => exact multi_locks h
  | setNX key token ttl =>
    have hne : k ≠ key := fun h' => hc (congrArg some h'.symm)
    cases hl : s.locks key with
    | some lease => rw [exec_setNX_of_some hl]
    | none => rw [exec_setNX_of_none hl]; exact put_of_ne hne
  | evalReleaseLock key token =>
    exact releaseLockScript_locks_of_ne fun h' => hc (congrArg some h'.symm)
  | evalAcceptRide r d acceptedAt reservation => exact acceptRideScript_locks h
  | uuidv4 => rfl
  | upsertRideDoc r fields ds timeline => rfl
  | upsertDriverDoc d doc => rfl
  | updateDriverDocStatus d status => rfl
  | _ =>
    obtain ⟨idempotency, published, jobs, heq⟩ := hclerical trivial
    rw [heq]

theorem leasesStay_setNX {token : Token} {ttl : ℕ} (h : keeps customers key → token.ownedBy i)
    (hij : i ≠ j) : LeasesStay customers j s (exec env i (.setNX key token ttl) s).2 := by
  intro k lease hk ho
  by_cases hkey : k = key
  · subst hkey
    cases hl : s.locks k with
    | some held => rw [exec_setNX_of_some hl, hl]
    | none =>
      simp only [exec_setNX_of_none hl, put_self]
      refine ⟨fun h' => (by cases h'), fun h' => ?_⟩
      cases h'
      exact absurd ((h hk).unique ho) hij
  · rw [exec_locks (keeps_mutex hk) (by simpa only [Cmd.lockOf, ne_eq, Option.some.injEq] using Ne.symm hkey)]

theorem leasesStay_release {token : Token} (h : keeps customers key → token.ownedBy i)
    (hij : i ≠ j) : LeasesStay customers j s (exec env i (.evalReleaseLock key token) s).2 := by
  intro k lease hk ho
  by_cases hkey : k = key
  · subst hkey
    simp only [exec, releaseLockScript]
    split
    · rename_i held hheld
      split
      · rename_i htoken
        simp only [hheld, put_self]
        refine ⟨fun h' => ?_, fun h' => (by cases h')⟩
        cases h'
        exact absurd ((h hk).unique (htoken ▸ ho)) hij
      · exact Iff.rfl
    · exact Iff.rfl
  · rw [exec_locks (keeps_mutex hk) (by simpa only [Cmd.lockOf, ne_eq, Option.some.injEq] using Ne.symm hkey)]

theorem leasesStay_exec {β : Type} {c : Cmd β} (h : c.ownTokens customers i) (hij : i ≠ j) :
    LeasesStay customers j s (exec env i c s).2 := by
  cases c with
  | setNX key token ttl => exact leasesStay_setNX h hij
  | evalReleaseLock key token => exact leasesStay_release h hij
  | _ => exact .of_locks fun k hk => exec_locks (keeps_mutex hk) (by simp [Cmd.lockOf])

/-- Every lease was taken by one of the first `n` clients. -/
def Leases (customers : Prop) (n : ℕ) (s : Store) : Prop :=
  ∀ k lease, keeps customers k → s.locks k = some lease → ∃ i, i < n ∧ lease.token.ownedBy i

theorem leases_exec {n : ℕ} {β : Type} {c : Cmd β} (hs : Leases customers n s) (hi : i < n)
    (h : c.ownTokens customers i) : Leases customers n (exec env i c s).2 := by
  intro k lease hk hl
  by_cases hc : c.lockOf = some k
  · cases c with
    | setNX key token ttl =>
      cases hc
      cases hnone : s.locks k with
      | some held =>
        rw [exec_setNX_of_some hnone] at hl
        exact hs k lease hk hl
      | none =>
        simp only [exec_setNX_of_none hnone, put_self] at hl
        cases hl
        exact ⟨i, hi, h hk⟩
    | evalReleaseLock key token =>
      cases hc
      simp only [exec, releaseLockScript] at hl
      split at hl
      · split at hl
        · simp only [put_self] at hl
          cases hl
        · exact hs _ lease hk hl
      · exact hs _ lease hk hl
    | _ => simp [Cmd.lockOf] at hc
  · rw [exec_locks (keeps_mutex hk) hc] at hl
    exact hs k lease hk hl

section withLock

variable (K : Contract (system env)) {α : Type} {ttlMs : ℕ} {fn : App α} {P : Uuid → Store → Prop}

theorem view_exec {K : Contract (system env)} {β : Type} {c : Cmd β} :
    (K.view i).exec c s = exec env i c s := rfl

theorem withLock_eq : withLock key ttlMs fn = .cmd .uuidv4 fun u => .cmd (.setNX key (.uuid u) ttlMs)
    fun ok => if ok then (fn.tryFinally (releaseLock key (.uuid u))).bind fun result => .ret (some result)
      else .ret none := by
  unfold withLock acquireLock redis
  simp only [Prog.bind_eq, Prog.perform_bind, Prog.cmd_bind, Prog.pure_eq, Prog.ret_bind]
  refine congrArg _ (funext fun u => congrArg _ (funext fun ok => ?_))
  cases ok <;> rfl

/-- `withLock` around a body that starts and ends in `P token`: at the end all locks of
the client are free again, however the body ended. -/
theorem safe_withLock (hrely : ∀ s t, K.rely i s t → LeasesStay customers i s t)
    (huuid : ∀ s, K.guar i .uuidv4 s)
    (acquire : ∀ u t, u.client = i → Free customers i t → (K.view i).assume (.setNX key (.uuid u) ttlMs) t →
      K.guar i (.setNX key (.uuid u) ttlMs) t ∧
      (t.locks key = none → P u (exec env i (.setNX key (.uuid u) ttlMs) t).2))
    (stable : ∀ u, (K.view i).Stable (P u))
    (body : ∀ u t, P u t → (K.view i).Safe (fun _ => P u) fn t)
    (release : ∀ u t, P u t → (K.view i).assume (.evalReleaseLock key (.uuid u)) t →
      Locked customers i key u t ∧ K.guar i (.evalReleaseLock key (.uuid u)) t)
    (hs : Free customers i s) :
    (K.view i).Safe (fun _ => Free customers i) (withLock key ttlMs fn) s := by
  have hfree : (K.view i).Stable (Free customers i) := fun s t hst h => h.stay (hrely s t hst)
  have hrelease : ∀ u w, P u w → (K.view i).Safe (fun _ => Free customers i)
      (releaseLock key (.uuid u)) w := fun u w hw =>
    View.Safe.cmd (stable u) hw fun x hx ha =>
      ⟨(release u x hx ha).2, View.Safe.ret hfree (release u x hx ha).1.release fun _ => id⟩
  rw [withLock_eq]
  refine View.Safe.cmd hfree hs fun t ht _ => ⟨huuid t, ?_⟩
  refine View.Safe.cmd (P := Free customers i) hfree ht fun v hv ha => ?_
  obtain ⟨hguar, hP⟩ := acquire _ v rfl hv ha
  refine ⟨hguar, ?_⟩
  rw [view_exec]
  cases hl : v.locks key with
  | some lease =>
    rw [exec_setNX_of_some hl]
    exact View.Safe.ret hfree hv fun _ => id
  | none =>
    have hP := hP hl
    rw [exec_setNX_of_none hl] at hP ⊢
    rw [if_pos rfl]
    refine View.Safe.bind (View.Safe.tryFinally ((body _ _ hP).mono fun r w hw => ?_))
    refine (hrelease _ w hw).mono fun f x hx => ?_
    cases f with
    | ok _ =>
      cases r with
      | ok a => exact View.Safe.ret hfree hx fun _ => id
      | error e => exact hx
    | error e => exact hx

end withLock

end YatriGo
