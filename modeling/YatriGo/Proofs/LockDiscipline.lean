import YatriGo.Proofs.RideContract

/-! Any number of clients that run bodies of any kind under one lock, whose key may expire at any time. -/

namespace YatriGo
open Concurrent

/-- As `apply`, except that a lock may expire before its time is over. -/
def Event.anytime (s : Store) : Event → Option Store
  | .expireLease key => some { s with locks := put s.locks key none }
  | e => e.apply s

/-- The command neither takes nor releases the lock. -/
def Cmd.leaves (key : LockKey) ⦃β : Type⦄ (c : Cmd β) : Prop := c.lockOf ≠ some key

variable {α Op : Type}

/-- Every call runs its own body under the lock. -/
def lockClients (env : Env) (key : LockKey) (ttlMs : Op → ℕ) (fn : Op → App α) :
    System Cmd AppError Store Op Event where
  exec := exec env
  code := fun op => discard (withLock key (ttlMs op) (fn op))
  env := fun e s => e.anytime s

/-- What is left of `withLock` when `rest` is left of its body and the lock was taken with `u`. -/
def inFn (key : LockKey) (u : Uuid) (rest : App α) : App Unit :=
  discard ((rest.tryFinally (releaseLock key (.uuid u))).bind fun result => .ret (some result))

/-- What is left of `withLock` when its token is `u` and the lock is not taken yet. -/
def acquiring (key : LockKey) (ttlMs : ℕ) (fn : App α) (u : Uuid) : App Unit :=
  .cmd (.setNX key (.uuid u) ttlMs) fun ok => if ok then inFn key u fn else .ret ()

/-- Where client `i` is in its call, and the token under which it is inside `fn`. -/
inductive Phase (key : LockKey) (α : Type) (i : ℕ) : App Unit → Option Uuid → Prop
  | entering {ttlMs : ℕ} {fn : App α} (hfn : fn.Uses (Cmd.leaves key)) :
      Phase key α i (.cmd .uuidv4 (acquiring key ttlMs fn)) none
  | acquiring {ttlMs : ℕ} {fn : App α} {u : Uuid} (hu : u.client = i) (hfn : fn.Uses (Cmd.leaves key)) :
      Phase key α i (acquiring key ttlMs fn u) none
  | inside {u : Uuid} {rest : App α} (hu : u.client = i) (hrest : rest.Uses (Cmd.leaves key)) :
      Phase key α i (inFn key u rest) (some u)
  | returned : Phase key α i (.ret ()) none
  | threw {e : AppError} : Phase key α i (.throw e) none

/-- The store holds the lock for the token `u`. -/
def Store.lockedWith (s : Store) (key : LockKey) (u : Uuid) : Prop := ∃ e, s.locks key = some ⟨.uuid u, e⟩

variable {env : Env} {key : LockKey} {ttlMs : ℕ} {i j : ℕ} {u v : Uuid} {held held' : Option Uuid}
  {fn rest : App α} {p : App Unit} {s t : Store}

theorem discard_withLock : discard (withLock key ttlMs fn) = .cmd .uuidv4 (acquiring key ttlMs fn) := by
  have hbranch : ∀ (u : Uuid) (ok : Bool),
      ((if ok then (fn.tryFinally (releaseLock key (.uuid u))).bind fun result => .ret (some result)
        else .ret none : App (Option α)).bind fun _ => .ret ()) = if ok then inFn key u fn else .ret () := by
    intro u ok
    cases ok with
    | false => rfl
    | true => rfl
  rw [withLock_eq]
  simp only [discard, Prog.bind_eq, Prog.cmd_bind, Prog.pure_eq, hbranch]
  rfl

theorem inFn_ret (a : α) : inFn key u (.ret a) = .cmd (.evalReleaseLock key (.uuid u)) fun _ => .ret () := rfl

theorem inFn_throw (e : AppError) :
    inFn key u (.throw e : App α) = .cmd (.evalReleaseLock key (.uuid u)) fun _ => .throw e := rfl

theorem inFn_cmd {β : Type} (c : Cmd β) (k : β → App α) :
    inFn key u (.cmd c k) = .cmd c fun b => inFn key u (k b) := rfl

theorem lockedWith_of_release (h : s.lockedWith key u) :
    (releaseLockScript key (.uuid u) s).2.locks key = none := by
  obtain ⟨e, he⟩ := h
  simp only [releaseLockScript, he, if_true, put_self]

theorem release_of_other (h : ¬ s.lockedWith key u) : (releaseLockScript key (.uuid u) s).2 = s := by
  cases hl : s.locks key with
  | none => simp only [releaseLockScript, hl]
  | some lease =>
    have hother : lease.token ≠ .uuid u := fun heq => h ⟨lease.expiresAt, by rw [hl, ← heq]⟩
    simp only [releaseLockScript, hl, hother, if_false]

/-- How one command of a client in phase `held` moves the client and the lock. -/
inductive Move (key : LockKey) (i : ℕ) (s t : Store) : Option Uuid → Option Uuid → Prop
  | idle {held : Option Uuid} (same : t.locks key = s.locks key) : Move key i s t held held
  | acquire {u : Uuid} (hu : u.client = i) (free : s.locks key = none) (locked : t.lockedWith key u) :
      Move key i s t none (some u)
  | release {u : Uuid} (hu : u.client = i) (locked : s.lockedWith key u) (free : t.locks key = none) :
      Move key i s t (some u) none
  | late {u : Uuid} (hu : u.client = i) (other : ¬ s.lockedWith key u) (same : t.locks key = s.locks key) :
      Move key i s t (some u) none

/-- The call returned or threw. -/
def Ended (p : App Unit) : Prop := p = .ret () ∨ ∃ e, p = .throw e

theorem Ended.phase (h : Ended p) : Phase key α i p none := by
  rcases h with rfl | ⟨e, rfl⟩
  · exact .returned
  · exact .threw

theorem Move.of_release (hu : u.client = i) :
    Move key i s (releaseLockScript key (.uuid u) s).2 (some u) none := by
  by_cases hlocked : s.lockedWith key u
  · exact .release hu hlocked (lockedWith_of_release hlocked)
  · exact .late hu hlocked (by rw [release_of_other hlocked])

theorem Phase.step (hkey : key.mutex) {β : Type} {c : Cmd β} {k : β → App Unit}
    (h : Phase key α i (.cmd c k) held) :
    ∃ held', Phase key α i (k (exec env i c s).1) held' ∧ Move key i s (exec env i c s).2 held held' ∧
      (held = none ∨ held' = held ∨ Ended (k (exec env i c s).1)) := by
  generalize hp : Prog.cmd c k = p at h
  cases h with
  | @entering ttlMs fn hfn =>
    cases hp
    exact ⟨none, .acquiring rfl hfn, .idle rfl, .inl rfl⟩
  | @acquiring ttlMs fn u hu hfn =>
    cases hp
    cases hl : s.locks key with
    | none =>
      rw [exec_setNX_of_none hl]
      exact ⟨some u, .inside hu hfn, .acquire hu hl ⟨s.clock + ttlMs, put_self⟩, .inl rfl⟩
    | some lease =>
      rw [exec_setNX_of_some hl]
      exact ⟨none, .returned, .idle rfl, .inl rfl⟩
  | @inside u rest hu hrest =>
    cases rest with
    | ret a =>
      rw [inFn_ret] at hp
      cases hp
      exact ⟨none, .returned, .of_release hu, .inr (.inr (.inl rfl))⟩
    | throw e =>
      rw [inFn_throw] at hp
      cases hp
      exact ⟨none, .threw, .of_release hu, .inr (.inr (.inr ⟨e, rfl⟩))⟩
    | cmd c' k' =>
      rw [inFn_cmd] at hp
      cases hp
      exact ⟨some u, .inside hu (hrest.2 _), .idle (exec_locks hkey hrest.1), .inr (.inl rfl)⟩
  | returned => cases hp
  | threw => cases hp

/-- The token with which a command ends a section, or `none` when it starts one. -/
def Cmd.closing (key : LockKey) : ⦃β : Type⦄ → Cmd β → Option (Option Uuid)
  | _, .evalReleaseLock key' (.uuid u) => if key' = key then some (some u) else none
  | _, .setNX key' .. => if key' = key then some none else none
  | _, _ => none

/-- The token that the program releases, if it does not take the lock before. -/
def closing (env : Env) (key : LockKey) {α : Type} : App α → Option Uuid
  | .ret _ => none
  | .throw _ => none
  | .cmd c k => (c.closing key).getD (closing env key (k (exec env 0 c {}).1))

theorem closing_of_leaves {β : Type} {c : Cmd β} (h : c.leaves key) : c.closing key = none := by
  cases c with
  | setNX key' token ttl => exact if_neg fun heq => h (congrArg some heq)
  | evalReleaseLock key' token =>
    cases token with
    | uuid u => exact if_neg fun heq => h (congrArg some heq)
    | reservation r batchId => rfl
  | _ => rfl

theorem closing_inFn (hrest : rest.Uses (Cmd.leaves key)) : closing env key (inFn key u rest) = some u := by
  have hrelease : (Cmd.evalReleaseLock key (.uuid u)).closing key = some (some u) := if_pos rfl
  induction rest with
  | ret a => rw [inFn_ret, closing, hrelease, Option.getD_some]
  | throw e => rw [inFn_throw, closing, hrelease, Option.getD_some]
  | cmd c k ih =>
    rw [inFn_cmd, closing, closing_of_leaves hrest.1, Option.getD_none]
    exact ih _ (hrest.2 _)

theorem closing_acquiring : closing env key (acquiring key ttlMs fn u) = none := by
  have htake : (Cmd.setNX key (.uuid u) ttlMs).closing key = some none := if_pos rfl
  rw [acquiring, closing, htake, Option.getD_some]

theorem Phase.closing (env : Env) (h : Phase key α i p held) : YatriGo.closing env key p = held := by
  cases h with
  | entering hfn => exact closing_acquiring
  | acquiring hu hfn => exact closing_acquiring
  | inside hu hrest => exact closing_inFn hrest
  | returned => rfl
  | threw => rfl

theorem Phase.unique (h : Phase key α i p held) (h' : Phase key α i p held') : held = held' :=
  (h.closing townEnv).symm.trans (h'.closing townEnv)

section pool

variable {fns : Op → App α} {ttls : Op → ℕ} {q m : Pool Cmd AppError Store Op} {a : Action Op Event}
  {ok : Pool Cmd AppError Store Op → Action Op Event → Prop} {as : List (Action Op Event)} {op : Op}

/-- Client `i` is inside `fn`, under the token `u`. -/
def InFn (key : LockKey) (α : Type) (p : Pool Cmd AppError Store Op) (i : ℕ) (u : Uuid) : Prop :=
  ∃ op rest, p.threads[i]? = some (op, rest) ∧ Phase key α i rest (some u)

/-- The call of client `i` returned or threw. -/
def Over (p : Pool Cmd AppError Store Op) (i : ℕ) : Prop :=
  ∃ op rest, p.threads[i]? = some (op, rest) ∧ Ended rest

def AllPhases (key : LockKey) (α : Type) (p : Pool Cmd AppError Store Op) : Prop :=
  ∀ (i : ℕ) op rest, p.threads[i]? = some (op, rest) → ∃ held, Phase key α i rest held

theorem phase_code (hfns : ∀ op, (fns op).Uses (Cmd.leaves key)) :
    Phase key α i ((lockClients env key ttls fns).code op) none := by
  have hcode : (lockClients env key ttls fns).code op = .cmd .uuidv4 (acquiring key (ttls op) (fns op)) :=
    discard_withLock
  rw [hcode]
  exact .entering (hfns op)

theorem AllPhases.next (hkey : key.mutex) (hfns : ∀ op, (fns op).Uses (Cmd.leaves key))
    (h : AllPhases key α m) (hnext : (lockClients env key ttls fns).next m a = some q) : AllPhases key α q := by
  intro i op rest hi
  rcases System.next_thread hnext hi with ⟨hbefore, -⟩ | ⟨-, rfl, -⟩ | ⟨-, β, c, k, hbefore, -, rfl⟩
  · exact h i op rest hbefore
  · exact ⟨none, phase_code hfns⟩
  · obtain ⟨held, hphase⟩ := h i op _ hbefore
    obtain ⟨held', hphase', -, -⟩ := hphase.step hkey
    exact ⟨held', hphase'⟩

/-- What an action does to the lock, and who did it. -/
inductive LockChange (key : LockKey) (α : Type) (m : Pool Cmd AppError Store Op) (a : Action Op Event)
    (q : Pool Cmd AppError Store Op) : Prop
  | kept (same : q.store.locks key = m.store.locks key)
  | expired (expiry : a = .env (.expireLease key)) (free : q.store.locks key = none)
  | acquired (i : ℕ) (u : Uuid) (step : a = .step i) (entered : InFn key α q i u)
      (free : m.store.locks key = none) (locked : q.store.lockedWith key u)
  | released (i : ℕ) (u : Uuid) (step : a = .step i) (inside : InFn key α m i u)
      (locked : m.store.lockedWith key u) (free : q.store.locks key = none)

theorem anytime_locks {e : Event} (h : e.anytime s = some t) :
    t.locks key = s.locks key ∨ e = .expireLease key ∧ t.locks key = none := by
  cases e with
  | expireLease key' =>
    obtain rfl := Option.some.inj h
    rcases eq_or_ne key key' with rfl | hne
    · exact .inr ⟨rfl, put_self⟩
    · exact .inl (put_of_ne hne)
  | tick ms => exact .inl (event_locks (e := .tick ms) h (by rintro ⟨⟩))
  | expireHeartbeat d => exact .inl (event_locks (e := .expireHeartbeat d) h (by rintro ⟨⟩))
  | expireCooldown d => exact .inl (event_locks (e := .expireCooldown d) h (by rintro ⟨⟩))
  | redeliver job => exact .inl (event_locks (e := .redeliver job) h (by rintro ⟨⟩))
  | forget job => exact .inl (event_locks (e := .forget job) h (by rintro ⟨⟩))

theorem lockChange (hkey : key.mutex) (h : AllPhases key α m)
    (hnext : (lockClients env key ttls fns).next m a = some q) : LockChange key α m a q := by
  cases a with
  | call op =>
    cases hnext
    exact .kept rfl
  | env e =>
    obtain ⟨t, ht, rfl⟩ := Option.map_eq_some_iff.mp hnext
    rcases anytime_locks ht with hsame | ⟨hexpiry, hfree⟩
    · exact .kept hsame
    · exact .expired (congrArg Action.env hexpiry) hfree
  | step i =>
    obtain ⟨op, β, c, k, hi, hstore, hthreads⟩ := System.next_step hnext
    obtain ⟨held, hphase⟩ := h i op _ hi
    obtain ⟨held', hphase', hmove, -⟩ := hphase.step (s := m.store) hkey
    have hi' : q.threads[i]? = some (op, k (exec env i c m.store).1) := by
      rw [hthreads]
      exact List.getElem?_set_self (List.getElem?_eq_some_iff.mp hi).1
    have hexec : q.store = (exec env i c m.store).2 := hstore
    rw [← hexec] at hmove
    cases hmove with
    | idle same => exact .kept same
    | @acquire u hu free locked => exact .acquired i u rfl ⟨op, _, hi', hphase'⟩ free locked
    | @release u hu locked free => exact .released i u rfl ⟨op, _, hi, hphase⟩ locked free
    | @late u hu other same => exact .kept same

theorem inFn_client (h : InFn key α m i u) : u.client = i := by
  obtain ⟨op, rest, -, hphase⟩ := h
  cases hphase with
  | inside hu hrest => exact hu

/-- Nobody leaves `fn` but by a release of its own. -/
theorem InFn.next (hkey : key.mutex) (h : InFn key α m i u)
    (hnext : (lockClients env key ttls fns).next m a = some q) :
    InFn key α q i u ∨ Over q i ∧ a = .step i ∧
      (q.store.locks key = none ∨ ¬ m.store.lockedWith key u) := by
  obtain ⟨op, rest, hi, hphase⟩ := h
  rcases System.thread_next hnext hi with ⟨-, hi'⟩ | ⟨rfl, β, c, k, rfl, hstore, hi'⟩
  · exact .inl ⟨op, rest, hi', hphase⟩
  · obtain ⟨held', hphase', hmove, hend⟩ := hphase.step (s := m.store) hkey
    have hexec : q.store = (exec env i c m.store).2 := hstore
    rw [← hexec] at hmove
    -- the client stays inside, or its last command was the release
    rcases hend with hnone | rfl | hended
    · cases hnone
    · exact .inl ⟨op, _, hi', hphase'⟩
    · have hheld : held' = none := hphase'.unique hended.phase
      rw [hheld] at hmove
      cases hmove with
      | release hu locked free => exact .inr ⟨⟨op, _, hi', hended⟩, rfl, .inl free⟩
      | late hu other same => exact .inr ⟨⟨op, _, hi', hended⟩, rfl, .inr other⟩

theorem Over.next (h : Over m i) (hnext : (lockClients env key ttls fns).next m a = some q) : Over q i := by
  obtain ⟨op, rest, hi, hended⟩ := h
  rcases System.thread_next hnext hi with ⟨-, hi'⟩ | ⟨-, β, c, k, rfl, -⟩
  · exact ⟨op, rest, hi', hended⟩
  · rcases hended with hret | ⟨e, hthrow⟩
    · cases hret
    · cases hthrow

theorem Over.not_inFn (h : Over m i) : ¬ InFn key α m i u := by
  rintro ⟨op, rest, hi, hphase⟩
  obtain ⟨op', rest', hi', hended⟩ := h
  rw [hi] at hi'
  cases hi'
  have hnone := hphase.unique hended.phase
  cases hnone

/-- A client inside `fn` was there before, or it just took the free lock. -/
theorem InFn.before (hkey : key.mutex) (hfns : ∀ op, (fns op).Uses (Cmd.leaves key))
    (hphases : AllPhases key α m) (hnext : (lockClients env key ttls fns).next m a = some q)
    (h : InFn key α q i u) :
    InFn key α m i u ∧ (a = .step i → q.store.locks key = m.store.locks key) ∨
      a = .step i ∧ m.store.locks key = none ∧ q.store.lockedWith key u := by
  obtain ⟨op, rest, hi, hphase⟩ := h
  rcases System.next_thread hnext hi with ⟨hbefore, hother⟩ | ⟨-, rfl, -⟩ | ⟨rfl, β, c, k, hbefore, -, rfl⟩
  · exact .inl ⟨⟨op, rest, hbefore, hphase⟩, fun hstep => absurd hstep hother⟩
  · have hnone := hphase.unique (phase_code hfns)
    cases hnone
  · obtain ⟨held, hbeforePhase⟩ := hphases i op _ hbefore
    obtain ⟨held', hphase', hmove, -⟩ := hbeforePhase.step (s := m.store) hkey
    have hheld : held' = some u := hphase'.unique hphase
    obtain ⟨op', β', c', k', hbefore', hstore, -⟩ := System.next_step hnext
    rw [hbefore] at hbefore'
    cases hbefore'
    have hexec : q.store = (exec env i c m.store).2 := hstore
    rw [← hexec, hheld] at hmove
    cases hmove with
    | idle same => exact .inl ⟨⟨op, _, hbefore, hbeforePhase⟩, fun _ => same⟩
    | acquire hu free locked => exact .inr ⟨rfl, free, locked⟩

section run

variable (hkey : key.mutex) (hfns : ∀ op, (fns op).Uses (Cmd.leaves key))
  (h : (lockClients env key ttls fns).Run ok ⟨s, []⟩ as q)

include hkey hfns h

theorem phases_of_run : AllPhases key α q := by
  apply h.invariant (I := AllPhases key α)
  · intro i op rest hi
    cases hi
  · intro m a q hphases _ hnext
    exact hphases.next hkey hfns hnext

theorem acquired_of_inFn (hin : InFn key α q i u) :
    ∃ bs cs m m', as = bs ++ .step i :: cs ∧ (lockClients env key ttls fns).Run ok ⟨s, []⟩ bs m ∧
      (lockClients env key ttls fns).next m (.step i) = some m' ∧
      (lockClients env key ttls fns).Run ok m' cs q ∧ ¬ InFn key α m i u ∧ InFn key α m' i u ∧
      m.store.locks key = none ∧ m'.store.lockedWith key u := by
  have hstart : ¬ InFn key α (⟨s, []⟩ : Pool Cmd AppError Store Op) i u := by
    rintro ⟨op, rest, hi, -⟩
    cases hi
  obtain ⟨bs, a, cs, m, m', rfl, hrun, hnext, hout, hin'⟩ := h.acquires (P := fun p => InFn key α p i u) hstart hin
  have hphases := phases_of_run hkey hfns hrun
  rcases hin'.before hkey hfns hphases hnext with ⟨hbefore, -⟩ | ⟨rfl, hfree, hlocked⟩
  · exact absurd hbefore hout
  · exact ⟨bs, cs, m, m', rfl, hrun, hnext, (h.rest hrun).tail hnext, hout, hin', hfree, hlocked⟩

/-- A client inside `fn` without the lock lost it to the expiry of the key. -/
theorem expired_of_inFn (hin : InFn key α q i u) (hlost : ¬ q.store.lockedWith key u) :
    ∃ bs cs m, as = bs ++ .env (.expireLease key) :: cs ∧
      (lockClients env key ttls fns).Run ok ⟨s, []⟩ bs m ∧
      (lockClients env key ttls fns).Run ok m (.env (.expireLease key) :: cs) q ∧
      InFn key α m i u ∧ m.store.lockedWith key u := by
  have hstart : ¬ (InFn key α (⟨s, []⟩ : Pool Cmd AppError Store Op) i u ∧ ¬ s.lockedWith key u) := by
    rintro ⟨⟨op, rest, hi, -⟩, -⟩
    cases hi
  obtain ⟨bs, a, cs, m, m', rfl, hrun, hnext, hbefore, hin', hlost'⟩ :=
    h.acquires (P := fun p => InFn key α p i u ∧ ¬ p.store.lockedWith key u) hstart ⟨hin, hlost⟩
  have hphases := phases_of_run hkey hfns hrun
  rcases hin'.before hkey hfns hphases hnext with ⟨hinside, hstep⟩ | ⟨-, -, hlocked⟩
  · have hlocked : m.store.lockedWith key u := not_not.mp fun hnot => hbefore ⟨hinside, hnot⟩
    obtain ⟨e, he⟩ := hlocked
    cases lockChange hkey hphases hnext with
    | kept same => exact absurd ⟨e, same.trans he⟩ hlost'
    | expired expiry free =>
      subst expiry
      exact ⟨bs, cs, m, rfl, hrun, h.rest hrun, hinside, e, he⟩
    | acquired j v step entered free locked =>
      rw [free] at he
      cases he
    | released j v step inside locked free =>
      -- The token in the key names its client, which has just left `fn`.
      obtain ⟨e', he'⟩ := locked
      rw [he] at he'
      cases he'
      obtain rfl : i = j := (inFn_client hinside).symm.trans (inFn_client inside)
      rw [hstep step, he] at free
      cases free
  · exact absurd hlocked hlost'

end run

theorem stays_or_over (hkey : key.mutex) (h : (lockClients env key ttls fns).Run ok m as q)
    (hin : InFn key α m i u) : InFn key α q i u ∨ Over q i := by
  apply h.invariant (I := fun p => InFn key α p i u ∨ Over p i) (.inl hin)
  intro p a q hp _ hnext
  rcases hp with hin | hover
  · rcases hin.next hkey hnext with hin' | ⟨hover, -⟩
    · exact .inl hin'
    · exact .inr hover
  · exact .inr (hover.next hnext)

theorem inFn_between {m₁ m₂ : Pool Cmd AppError Store Op} {as₁ as₂ : List (Action Op Event)}
    (hkey : key.mutex) (h₁ : (lockClients env key ttls fns).Run ok m₁ as₁ m)
    (h₂ : (lockClients env key ttls fns).Run ok m as₂ m₂) (hfirst : InFn key α m₁ i u)
    (hlast : InFn key α m₂ i v) : InFn key α m i u := by
  rcases stays_or_over hkey h₁ hfirst with hin | hover
  · exact hin
  · have hover' : Over m₂ i := h₂.invariant (I := fun p => Over p i) hover fun _ _ _ hp _ hnext => hp.next hnext
    exact absurd hlast hover'.not_inFn

/-- The key expired while it held the token of client `i`, which was inside `fn`, and client `j` was not
inside yet. -/
def LostBefore (S : System Cmd AppError Store Op Event) (ok : Pool Cmd AppError Store Op → Action Op Event → Prop)
    (start : Pool Cmd AppError Store Op) (as : List (Action Op Event)) (key : LockKey) (α : Type)
    (i : ℕ) (u : Uuid) (j : ℕ) (v : Uuid) : Prop :=
  ∃ bs cs m, as = bs ++ .env (.expireLease key) :: cs ∧ S.Run ok start bs m ∧ InFn key α m i u ∧
    m.store.lockedWith key u ∧ ¬ InFn key α m j v

theorem earlier_lost {bs cs : List (Action Op Event)} (hkey : key.mutex)
    (hfns : ∀ op, (fns op).Uses (Cmd.leaves key))
    (hrun : (lockClients env key ttls fns).Run ok ⟨s, []⟩ bs m)
    (hrest : (lockClients env key ttls fns).Run ok m cs q) (hin : InFn key α m i u)
    (hfree : m.store.locks key = none) (hout : ¬ InFn key α m j v) (hlater : InFn key α q j v) :
    LostBefore (lockClients env key ttls fns) ok ⟨s, []⟩ (bs ++ cs) key α i u j v := by
  have hlost : ¬ m.store.lockedWith key u := by
    rintro ⟨e, he⟩
    rw [hfree] at he
    cases he
  obtain ⟨bs', cs', m', rfl, hrun', hrest', hin', hlocked⟩ := expired_of_inFn hkey hfns hrun hin hlost
  refine ⟨bs', cs' ++ cs, m', by rw [List.append_assoc, List.cons_append], hrun', hin', hlocked, fun hj => ?_⟩
  exact hout (inFn_between hkey hrest' hrest hj hlater)

theorem two_inside (hkey : key.mutex) (hfns : ∀ op, (fns op).Uses (Cmd.leaves key))
    (h : (lockClients env key ttls fns).Run ok ⟨s, []⟩ as q) (hne : i ≠ j)
    (hi : InFn key α q i u) (hj : InFn key α q j v) :
    LostBefore (lockClients env key ttls fns) ok ⟨s, []⟩ as key α i u j v ∨
      LostBefore (lockClients env key ttls fns) ok ⟨s, []⟩ as key α j v i u := by
  obtain ⟨bs, cs, m, m', rfl, hrun, hnext, hrest, hout, hin', hfree, -⟩ := acquired_of_inFn hkey hfns h hj
  by_cases hfirst : InFn key α m i u
  · exact .inl (earlier_lost hkey hfns hrun (h.rest hrun) hfirst hfree hout hj)
  · -- Client `i` takes the lock after client `j`.
    have hout' : ¬ InFn key α m' i u := by
      intro hin
      rcases hin.before hkey hfns (phases_of_run hkey hfns hrun) hnext with ⟨hbefore, -⟩ | ⟨hstep, -⟩
      · exact hfirst hbefore
      · exact hne (Action.step.inj hstep).symm
    obtain ⟨bs', a, cs', m₁, m₂, rfl, hrun', hnext', hbefore, hin₂⟩ :=
      hrest.acquires (P := fun p => InFn key α p i u) hout' hi
    have hrun₁ : (lockClients env key ttls fns).Run ok ⟨s, []⟩ (bs ++ .step j :: bs') m₁ := by
      have hok : ok m (.step j) := by
        cases h.rest hrun with
        | cons hok _ _ => exact hok
      exact hrun.append (.cons hok hnext hrun')
    rcases hin₂.before hkey hfns (phases_of_run hkey hfns hrun₁) hnext' with ⟨hin₁, -⟩ | ⟨rfl, hfree₁, -⟩
    · exact absurd hin₁ hbefore
    · have hj₁ : InFn key α m₁ j v := inFn_between hkey hrun' (hrest.rest hrun') hin' hj
      have hlost := earlier_lost hkey hfns hrun₁ (hrest.rest hrun') hj₁ hfree₁ hbefore hi
      rw [List.append_assoc, List.cons_append] at hlost
      exact .inr hlost

theorem release_of_inFn (hphases : AllPhases key α m) {k : Bool → App Unit}
    (hi : m.threads[i]? = some (op, .cmd (.evalReleaseLock key (.uuid u)) k))
    (hnext : (lockClients env key ttls fns).next m (.step i) = some q) :
    InFn key α m i u ∧ (m.store.lockedWith key u → q.store.locks key = none) ∧
      (¬ m.store.lockedWith key u → q.store.locks key = m.store.locks key) := by
  obtain ⟨held, hphase⟩ := hphases i op _ hi
  have hrelease : (Cmd.evalReleaseLock key (.uuid u)).closing key = some (some u) := if_pos rfl
  have hheld : some u = held := by
    rw [← hphase.closing townEnv, closing, hrelease, Option.getD_some]
  rw [← hheld] at hphase
  obtain ⟨op', β, c, k', hi', hstore, -⟩ := System.next_step hnext
  rw [hi] at hi'
  cases hi'
  have hstore' : q.store = (releaseLockScript key (.uuid u) m.store).2 := hstore
  rw [hstore']
  exact ⟨⟨op, _, hi, hphase⟩, lockedWith_of_release, fun hother => by rw [release_of_other hother]⟩

/-- Whoever the key names is inside `fn`. -/
def OwnerInside (key : LockKey) (α : Type) (p : Pool Cmd AppError Store Op) : Prop :=
  ∀ u, p.store.lockedWith key u → InFn key α p u.client u

theorem OwnerInside.next (hkey : key.mutex) (hphases : AllPhases key α m) (h : OwnerInside key α m)
    (hnext : (lockClients env key ttls fns).next m a = some q) : OwnerInside key α q := by
  intro u hlocked
  obtain ⟨e, he⟩ := hlocked
  have hfree : ¬ q.store.locks key = none := by
    rw [he]
    exact Option.some_ne_none _
  have hkept : q.store.locks key = m.store.locks key → InFn key α q u.client u := by
    intro hsame
    have hlocked : m.store.lockedWith key u := ⟨e, hsame.symm.trans he⟩
    rcases (h u hlocked).next hkey hnext with hin | ⟨-, -, hnone | hnot⟩
    · exact hin
    · exact absurd hnone hfree
    · exact absurd hlocked hnot
  cases lockChange hkey hphases hnext with
  | kept same => exact hkept same
  | expired expiry free => exact absurd free hfree
  | acquired i v step entered free locked =>
    obtain ⟨e', he'⟩ := locked
    rw [he] at he'
    cases he'
    rw [inFn_client entered]
    exact entered
  | released i v step inside locked free => exact absurd free hfree

theorem ownerInside_of_run (hkey : key.mutex) (hfns : ∀ op, (fns op).Uses (Cmd.leaves key))
    (hfree : s.locks key = none) (h : (lockClients env key ttls fns).Run ok ⟨s, []⟩ as q) :
    OwnerInside key α q := by
  have hstart : AllPhases key α (⟨s, []⟩ : Pool Cmd AppError Store Op) ∧
      OwnerInside key α (⟨s, []⟩ : Pool Cmd AppError Store Op) := by
    constructor
    · intro i op rest hi
      cases hi
    · rintro u ⟨e, he⟩
      rw [hfree] at he
      cases he
  refine (h.invariant (I := fun p => AllPhases key α p ∧ OwnerInside key α p) hstart ?_).2
  intro m a q hm _ hnext
  exact ⟨hm.1.next hkey hfns hnext, hm.2.next hkey hm.1 hnext⟩

theorem step_keeps_others (hkey : key.mutex) (hphases : AllPhases key α m) {lease : Lease}
    (hlease : m.store.locks key = some lease)
    (hnext : (lockClients env key ttls fns).next m (.step i) = some q) :
    q.store.locks key = some lease ∨
      q.store.locks key = none ∧ ∃ u, lease.token = .uuid u ∧ InFn key α m i u := by
  cases lockChange hkey hphases hnext with
  | kept same => exact .inl (same.trans hlease)
  | expired expiry free => cases expiry
  | acquired j u step entered free locked =>
    rw [free] at hlease
    cases hlease
  | released j u step inside locked free =>
    obtain rfl := Action.step.inj step
    obtain ⟨e, he⟩ := locked
    rw [hlease] at he
    cases he
    exact .inr ⟨free, u, rfl, inside⟩

/-- Any number of clients run bodies that leave the key alone under one lock, from a store in which it is
free, and the key may expire at any time. -/
theorem lock_discipline (hkey : key.mutex) (hfns : ∀ op, (fns op).Uses (Cmd.leaves key))
    (hfree : s.locks key = none) (h : (lockClients env key ttls fns).Run ok ⟨s, []⟩ as q) :
    -- Who is inside `fn` took the free lock with its own token.
    (∀ i u, InFn key α q i u → u.client = i ∧ ∃ bs cs m m', as = bs ++ .step i :: cs ∧
      (lockClients env key ttls fns).Run ok ⟨s, []⟩ bs m ∧
      (lockClients env key ttls fns).next m (.step i) = some m' ∧
      m.store.locks key = none ∧ m'.store.lockedWith key u) ∧
    -- A release is made with this token, and removes the key only if it holds the token.
    (∀ i op u k r, q.threads[i]? = some (op, .cmd (.evalReleaseLock key (.uuid u)) k) →
      (lockClients env key ttls fns).next q (.step i) = some r →
      InFn key α q i u ∧ (q.store.lockedWith key u → r.store.locks key = none) ∧
        (¬ q.store.lockedWith key u → r.store.locks key = q.store.locks key)) ∧
    -- No other step of a client removes the key.
    (∀ i lease r, q.store.locks key = some lease →
      (lockClients env key ttls fns).next q (.step i) = some r →
      r.store.locks key = some lease ∨
        r.store.locks key = none ∧ ∃ u, lease.token = .uuid u ∧ InFn key α q i u) ∧
    -- Of two clients inside `fn`, the earlier one lost the key to its expiry.
    (∀ i j u v, i ≠ j → InFn key α q i u → InFn key α q j v →
      LostBefore (lockClients env key ttls fns) ok ⟨s, []⟩ as key α i u j v ∨
        LostBefore (lockClients env key ttls fns) ok ⟨s, []⟩ as key α j v i u) ∧
    ((∀ a ∈ as, a ≠ .env (.expireLease key)) →
      ∀ i j u v, InFn key α q i u → InFn key α q j v → i = j) ∧
    -- The key does not hold the token of a client whose call is over.
    ∀ i u, Over q i → u.client = i → ¬ q.store.lockedWith key u := by
  have hphases := phases_of_run hkey hfns h
  have htwo : ∀ i j u v, i ≠ j → InFn key α q i u → InFn key α q j v →
      LostBefore (lockClients env key ttls fns) ok ⟨s, []⟩ as key α i u j v ∨
        LostBefore (lockClients env key ttls fns) ok ⟨s, []⟩ as key α j v i u :=
    fun i j u v hne hi hj => two_inside hkey hfns h hne hi hj
  refine ⟨fun i u hin => ?_, fun i op u k r hi hnext => release_of_inFn hphases hi hnext,
    fun i lease r hlease hnext => step_keeps_others hkey hphases hlease hnext, htwo, fun hlasting i j u v hi hj => ?_,
    fun i u hover hu hlocked => ?_⟩
  · obtain ⟨bs, cs, m, m', has, hrun, hnext, -, -, -, hfree', hlocked⟩ := acquired_of_inFn hkey hfns h hin
    exact ⟨inFn_client hin, bs, cs, m, m', has, hrun, hnext, hfree', hlocked⟩
  · by_contra hne
    have hexpiry : ∃ bs cs, as = bs ++ .env (.expireLease key) :: cs := by
      rcases htwo i j u v hne hi hj with ⟨bs, cs, m, has, -⟩ | ⟨bs, cs, m, has, -⟩
      · exact ⟨bs, cs, has⟩
      · exact ⟨bs, cs, has⟩
    obtain ⟨bs, cs, has⟩ := hexpiry
    have hmem : Action.env (.expireLease key) ∈ as := by
      rw [has]
      exact List.mem_append_right bs (List.mem_cons_self ..)
    exact hlasting _ hmem rfl
  · have hin := ownerInside_of_run hkey hfns hfree h u hlocked
    rw [hu] at hin
    exact hover.not_inFn hin

/-- Two clients that run nothing under the lock of a ride. -/
def idleClients : System Cmd AppError Store Unit Event :=
  lockClients townEnv (.ride ⟨0, 0⟩) (fun _ => 100) fun _ => (.ret () : App Unit)

/-- The key of the first client expires before it releases it, and the second client takes it. -/
def hurried : List (Action Unit Event) :=
  [.call (), .step 0, .step 0, .env (.expireLease (.ride ⟨0, 0⟩)), .call (), .step 1, .step 1]

theorem lock_discipline_hurried : ∃ q, idleClients.Run (fun _ _ => True) ⟨{}, []⟩ hurried q ∧
    InFn (.ride ⟨0, 0⟩) Unit q 0 ⟨0, 0⟩ ∧ InFn (.ride ⟨0, 0⟩) Unit q 1 ⟨1, 1⟩ ∧
    (LostBefore idleClients (fun _ _ => True) ⟨{}, []⟩ hurried (.ride ⟨0, 0⟩) Unit 0 ⟨0, 0⟩ 1 ⟨1, 1⟩ ∨
      LostBefore idleClients (fun _ _ => True) ⟨{}, []⟩ hurried (.ride ⟨0, 0⟩) Unit 1 ⟨1, 1⟩ 0 ⟨0, 0⟩) := by
  have hrun : ∃ q, idleClients.Run (fun _ _ => True) ⟨{}, []⟩ hurried q ∧
      InFn (.ride ⟨0, 0⟩) Unit q 0 ⟨0, 0⟩ ∧ InFn (.ride ⟨0, 0⟩) Unit q 1 ⟨1, 1⟩ := by
    refine ⟨_, .cons trivial rfl (.cons trivial rfl (.cons trivial rfl (.cons trivial rfl (.cons trivial rfl
      (.cons trivial rfl (.cons trivial rfl (.nil _))))))), ?_, ?_⟩
    · exact ⟨(), _, rfl, @Phase.inside _ _ _ ⟨0, 0⟩ (.ret ()) rfl trivial⟩
    · exact ⟨(), _, rfl, @Phase.inside _ _ _ ⟨1, 1⟩ (.ret ()) rfl trivial⟩
  obtain ⟨q, hrun, h0, h1⟩ := hrun
  have hkey : LockKey.mutex (.ride ⟨0, 0⟩) := trivial
  have hfns : ∀ op : Unit, (.ret () : App Unit).Uses (Cmd.leaves (.ride ⟨0, 0⟩)) := fun _ => trivial
  have hdiscipline := lock_discipline hkey hfns rfl hrun
  exact ⟨q, hrun, h0, h1, hdiscipline.2.2.2.1 0 1 ⟨0, 0⟩ ⟨1, 1⟩ Nat.zero_ne_one h0 h1⟩

end pool

end YatriGo
