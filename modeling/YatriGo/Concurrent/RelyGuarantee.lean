import YatriGo.Concurrent.Pool

/-! Rely/guarantee reasoning for pools of programs. A thread is checked alone: between
any two of its commands the store moves by the thread's `rely`, and each command it
performs has to satisfy the thread's `guar`. -/

namespace Concurrent

/-- What one thread may count on (`rely`, and `assume` at its own commands) and what it
promises of each command it performs (`guar`). -/
structure View (C : Type → Type) (σ : Type) where
  exec : ⦃β : Type⦄ → C β → σ → β × σ
  rely : σ → σ → Prop
  assume : ⦃β : Type⦄ → C β → σ → Prop
  guar : ⦃β : Type⦄ → C β → σ → Prop
  refl : ∀ s, rely s s
  trans : ∀ {s t u}, rely s t → rely t u → rely s u

namespace View

variable {C : Type → Type} {ε σ α β γ : Type} (V : View C σ)

/-- From the store `s`, under any interference, every command of the program keeps the
guarantee, and the program ends in `Q`. -/
def Safe (Q : Except ε α → σ → Prop) : Prog C ε α → σ → Prop
  | .ret a, s => ∀ t, V.rely s t → Q (.ok a) t
  | .throw e, s => ∀ t, V.rely s t → Q (.error e) t
  | .cmd c k, s => ∀ t, V.rely s t → V.assume c t →
      V.guar c t ∧ Safe Q (k (V.exec c t).1) (V.exec c t).2

def Stable (P : σ → Prop) : Prop := ∀ s t, V.rely s t → P s → P t

variable {V} {Q Q' : Except ε α → σ → Prop} {P : σ → Prop} {p : Prog C ε α} {s t : σ}

theorem Safe.rely (h : V.Safe Q p s) (hr : V.rely s t) : V.Safe Q p t := by
  cases p with
  | ret a => exact fun u hu => h u (V.trans hr hu)
  | throw e => exact fun u hu => h u (V.trans hr hu)
  | cmd c k => exact fun u hu => h u (V.trans hr hu)

theorem Safe.mono (h : V.Safe Q p s) (himp : ∀ r t, Q r t → Q' r t) : V.Safe Q' p s := by
  induction p generalizing s with
  | ret a => exact fun t ht => himp _ _ (h t ht)
  | throw e => exact fun t ht => himp _ _ (h t ht)
  | cmd c k ih =>
    intro t ht ha
    obtain ⟨hg, hk⟩ := h t ht ha
    exact ⟨hg, ih _ hk⟩

theorem Safe.ret {a : α} (hP : V.Stable P) (hs : P s) (h : ∀ t, P t → Q (.ok a) t) :
    V.Safe Q (.ret a) s := fun t ht => h t (hP s t ht hs)

theorem Safe.throw {e : ε} (hP : V.Stable P) (hs : P s) (h : ∀ t, P t → Q (.error e) t) :
    V.Safe Q (.throw e) s := fun t ht => h t (hP s t ht hs)

theorem Safe.cmd {c : C β} {k : β → Prog C ε α} (hP : V.Stable P) (hs : P s)
    (step : ∀ t, P t → V.assume c t →
      V.guar c t ∧ V.Safe Q (k (V.exec c t).1) (V.exec c t).2) :
    V.Safe Q (.cmd c k) s := fun t ht ha => step t (hP s t ht hs) ha

theorem Safe.bind {f : α → Prog C ε β} {Q : Except ε β → σ → Prop}
    (h : V.Safe (fun r t => match r with
      | .ok a => V.Safe Q (f a) t
      | .error e => Q (.error e) t) p s) : V.Safe Q (p.bind f) s := by
  induction p generalizing s with
  | ret a => exact h s (V.refl s)
  | throw e => exact h
  | cmd c k ih =>
    intro t ht ha
    obtain ⟨hg, hk⟩ := h t ht ha
    exact ⟨hg, ih _ hk⟩

theorem Safe.close (h : V.Safe Q p s) :
    V.Safe (fun r t => ∀ u, V.rely t u → Q r u) p s := by
  induction p generalizing s with
  | ret a => exact fun t ht u hu => h u (V.trans ht hu)
  | throw e => exact fun t ht u hu => h u (V.trans ht hu)
  | cmd c k ih =>
    intro t ht ha
    obtain ⟨hg, hk⟩ := h t ht ha
    exact ⟨hg, ih _ hk⟩

theorem Safe.tryFinally {fin : Prog C ε Unit}
    (h : V.Safe (fun r t => V.Safe (fun f u => match f with
      | .ok _ => Q r u
      | .error e => Q (.error e) u) fin t) p s) : V.Safe Q (p.tryFinally fin) s := by
  induction p generalizing s with
  | ret a =>
    refine Safe.bind ((h s (V.refl s)).close.mono ?_)
    rintro (e | u) t hq
    · exact hq t (V.refl t)
    · exact hq
  | throw e =>
    refine Safe.bind ((h s (V.refl s)).close.mono ?_)
    rintro (f | u) t hq
    · exact hq t (V.refl t)
    · exact hq
  | cmd c k ih =>
    intro t ht ha
    obtain ⟨hg, hk⟩ := h t ht ha
    exact ⟨hg, ih _ hk⟩

theorem Safe.tryCatch {ε' : Type} {handle : ε → Prog C ε' α} {Q : Except ε' α → σ → Prop}
    (h : V.Safe (fun r t => match r with
      | .ok a => Q (.ok a) t
      | .error e => V.Safe Q (handle e) t) p s) : V.Safe Q (p.tryCatch handle) s := by
  induction p generalizing s with
  | ret a => exact h
  | throw e => exact h s (V.refl s)
  | cmd c k ih =>
    intro t ht ha
    obtain ⟨hg, hk⟩ := h t ht ha
    exact ⟨hg, ih _ hk⟩

theorem Safe.bindCatch {ε' : Type} {f : α → Prog C ε β} {handle : ε → Prog C ε' β} {Q : Except ε' β → σ → Prop}
    (h : V.Safe (fun r t => match r with
      | .ok a => V.Safe Q ((f a).tryCatch handle) t
      | .error e => V.Safe Q (handle e) t) p s) : V.Safe Q ((p.bind f).tryCatch handle) s := by
  induction p generalizing s with
  | ret a => exact h s (V.refl s)
  | throw e => exact h s (V.refl s)
  | cmd c k ih =>
    intro t ht ha
    obtain ⟨hg, hk⟩ := h t ht ha
    exact ⟨hg, ih _ hk⟩

theorem Safe.of_uses {q : ⦃β : Type⦄ → C β → Prop} (hP : V.Stable P)
    (quiet : ∀ (β : Type) (c : C β) t, q c → P t → V.assume c t →
      V.guar c t ∧ P (V.exec c t).2)
    (hp : p.Uses q) (hs : P s) (hQ : ∀ r t, P t → Q r t) : V.Safe Q p s := by
  induction p generalizing s with
  | ret a => exact Safe.ret hP hs (hQ _)
  | throw e => exact Safe.throw hP hs (hQ _)
  | cmd c k ih =>
    refine Safe.cmd hP hs fun t ht ha => ?_
    obtain ⟨hg, hk⟩ := quiet _ c t hp.1 ht ha
    exact ⟨hg, ih _ (hp.2 _) hk⟩

/-- From every store in `P` the program keeps the guarantee, and ends in `P`. -/
def Keeps (V : View C σ) (P : σ → Prop) (p : Prog C ε α) : Prop := ∀ s, P s → V.Safe (fun _ => P) p s

section Keeps

variable {f : α → Prog C ε β}

theorem Keeps.ret {a : α} (hP : V.Stable P) : V.Keeps P (.ret a : Prog C ε α) :=
  fun _ hs => Safe.ret hP hs fun _ => id

theorem Keeps.throw {e : ε} (hP : V.Stable P) : V.Keeps P (.throw e : Prog C ε α) :=
  fun _ hs => Safe.throw hP hs fun _ => id

theorem Safe.andThen (h : V.Safe (fun _ => P) p s) (hf : ∀ a, V.Keeps P (f a)) :
    V.Safe (fun _ => P) (p.bind f) s := by
  refine Safe.bind (h.mono fun r t ht => ?_)
  cases r with
  | ok a => exact hf a t ht
  | error e => exact ht

theorem Keeps.bind (hp : V.Keeps P p) (hf : ∀ a, V.Keeps P (f a)) : V.Keeps P (p.bind f) :=
  fun s hs => (hp s hs).andThen hf

theorem Keeps.tryCatch {ε' : Type} {handle : ε → Prog C ε' α} (hp : V.Keeps P p)
    (hh : ∀ e, V.Keeps P (handle e)) : V.Keeps P (p.tryCatch handle) := by
  intro s hs
  refine Safe.tryCatch ((hp s hs).mono fun r t ht => ?_)
  cases r with
  | ok a => exact ht
  | error e => exact hh e t ht

theorem Keeps.tryFinally {fin : Prog C ε Unit} (hp : V.Keeps P p) (hfin : V.Keeps P fin) :
    V.Keeps P (p.tryFinally fin) := by
  intro s hs
  refine Safe.tryFinally ((hp s hs).mono fun r t ht => (hfin t ht).mono fun ended u hu => ?_)
  cases ended <;> exact hu

theorem Keeps.command {c : C α} (hP : V.Stable P) (h : ∀ t, P t → V.assume c t → V.guar c t ∧ P (V.exec c t).2) :
    V.Keeps P (Prog.perform c : Prog C ε α) :=
  fun _ hs => Safe.cmd hP hs fun t ht ha => ⟨(h t ht ha).1, Safe.ret hP (h t ht ha).2 fun _ => id⟩

theorem Keeps.forEach {g : γ → Prog C ε Unit} {xs : List γ} (hP : V.Stable P)
    (hg : ∀ x, V.Keeps P (g x)) : V.Keeps P (Prog.forEach g xs) := by
  induction xs with
  | nil => exact Keeps.ret hP
  | cons x xs ih => exact (hg x).bind fun _ => ih

theorem Keeps.of_uses {q : ⦃β : Type⦄ → C β → Prop} (hP : V.Stable P)
    (quiet : ∀ (β : Type) (c : C β) t, q c → P t → V.assume c t →
      V.guar c t ∧ P (V.exec c t).2) (hp : p.Uses q) : V.Keeps P p :=
  fun _ hs => Safe.of_uses hP quiet hp hs fun _ _ => id

theorem Keeps.seq {Q : Except ε β → σ → Prop} (hp : V.Keeps P p) (hn : p.NoThrow) (hs : P s)
    (rest : ∀ a t, P t → V.Safe Q (f a) t) : V.Safe Q (p.bind f) s := by
  have hsafe : V.Safe (fun _ => P) p s := hp s hs
  clear hp hs
  induction p generalizing s with
  | ret a => exact rest a s (hsafe s (V.refl s))
  | throw e => exact hn.elim
  | cmd c k ih =>
    intro t ht ha
    obtain ⟨hg, hk⟩ := hsafe t ht ha
    exact ⟨hg, ih _ (hn _) hk⟩

end Keeps

end View

/-- The views of all threads of a system. `inv n` is the invariant of the store once `n`
threads have been called; `okOp` and `okEnv` are the calls and environment steps allowed. -/
structure Contract {C : Type → Type} {ε σ Op Env : Type} (S : System C ε σ Op Env) where
  inv : ℕ → σ → Prop
  rely : ℕ → σ → σ → Prop
  assume : ℕ → ⦃β : Type⦄ → C β → σ → Prop
  guar : ℕ → ⦃β : Type⦄ → C β → σ → Prop
  post : ℕ → σ → Prop
  okOp : Op → Prop
  okEnv : Env → Prop
  refl : ∀ i s, rely i s s
  trans : ∀ i {s t u}, rely i s t → rely i t u → rely i s u

namespace Contract

variable {C : Type → Type} {ε σ Op Env : Type} {S : System C ε σ Op Env} (K : Contract S)

def view (i : ℕ) : View C σ where
  exec := fun _ c s => S.exec i c s
  rely := K.rely i
  assume := fun _ c s => K.assume i c s ∧ ∃ n, i < n ∧ K.inv n s
  guar := fun _ c s => K.guar i c s
  refl := K.refl i
  trans := K.trans i

/-- An action the contract speaks about. -/
def Ok (p : Pool C ε σ Op) : Action Op Env → Prop
  | .call op => K.okOp op
  | .step i => ∀ op (β : Type) (c : C β) k,
      p.threads[i]? = some (op, .cmd c k) → K.assume i c p.store
  | .env e => K.okEnv e

/-- The obligations under which every run keeps the contract. -/
structure Sound : Prop where
  call : ∀ op n s, K.okOp op → K.inv n s → K.inv (n + 1) s
  spawn : ∀ op n s, K.okOp op → K.inv n s →
    (K.view n).Safe (fun _ => K.post n) (S.code op) s
  step : ∀ i n s (β : Type) (c : C β), i < n → K.inv n s → K.assume i c s → K.guar i c s →
    K.inv n (S.exec i c s).2
  others : ∀ i j n s (β : Type) (c : C β), i ≠ j → i < n → j < n → K.inv n s → K.assume i c s →
    K.guar i c s → K.rely j s (S.exec i c s).2
  env : ∀ e n s t, K.okEnv e → K.inv n s → S.env e s = some t →
    K.inv n t ∧ ∀ j, j < n → K.rely j s t

/-- Every thread of the pool is safe from the current store. -/
structure Holds (p : Pool C ε σ Op) : Prop where
  inv : K.inv p.threads.length p.store
  safe : ∀ i op (rest : Prog C ε Unit), p.threads[i]? = some (op, rest) →
    (K.view i).Safe (fun _ => K.post i) rest p.store

variable {K} {p q : Pool C ε σ Op}

theorem Holds.guar (h : K.Holds p) {i : ℕ} {op : Op} {β : Type} {c : C β} {k : β → Prog C ε Unit}
    (hi : p.threads[i]? = some (op, .cmd c k)) (ha : K.assume i c p.store) :
    K.guar i c p.store := by
  have hn : i < p.threads.length := (List.getElem?_eq_some_iff.mp hi).1
  exact (h.safe i op _ hi p.store (K.refl i _) ⟨ha, _, hn, h.inv⟩).1

theorem Holds.rely (hK : K.Sound) (h : K.Holds p) {a : Action Op Env} (hok : K.Ok p a)
    (hnext : S.next p a = some q) {j : ℕ} (hj : j < p.threads.length) (hother : a ≠ .step j) :
    K.rely j p.store q.store := by
  cases a with
  | call op =>
    cases hnext
    exact K.refl j p.store
  | step i =>
    obtain ⟨op, β, c, k, hi, hs, -⟩ := System.next_step hnext
    have hn : i < p.threads.length := (List.getElem?_eq_some_iff.mp hi).1
    have ha : K.assume i c p.store := hok op β c k hi
    have hij : i ≠ j := fun heq => hother (congrArg Action.step heq)
    rw [hs]
    exact hK.others i j _ _ β c hij hn hj h.inv ha (h.guar hi ha)
  | env e =>
    obtain ⟨t, hst, rfl⟩ := Option.map_eq_some_iff.mp hnext
    exact (hK.env e _ _ t hok h.inv hst).2 j hj

theorem Holds.next (hK : K.Sound) (h : K.Holds p) {a : Action Op Env} (hok : K.Ok p a)
    (hnext : S.next p a = some q) : K.Holds q := by
  constructor
  · cases a with
    | call op =>
      cases hnext
      rw [List.length_append, List.length_singleton]
      exact hK.call op _ _ hok h.inv
    | step i =>
      obtain ⟨op, β, c, k, hi, hstore, hthreads⟩ := System.next_step hnext
      have hn : i < p.threads.length := (List.getElem?_eq_some_iff.mp hi).1
      have ha : K.assume i c p.store := hok op β c k hi
      rw [hthreads, hstore, List.length_set]
      exact hK.step i _ _ β c hn h.inv ha (h.guar hi ha)
    | env e =>
      obtain ⟨t, hst, rfl⟩ := Option.map_eq_some_iff.mp hnext
      exact (hK.env e _ _ t hok h.inv hst).1
  · intro i op rest hi
    rcases System.next_thread hnext hi with ⟨hbefore, hother⟩ | ⟨rfl, rfl, rfl⟩ | ⟨rfl, β, c, k, hbefore, hstore, rfl⟩
    · have hn : i < p.threads.length := (List.getElem?_eq_some_iff.mp hbefore).1
      exact (h.safe i op rest hbefore).rely (h.rely hK hok hnext hn hother)
    · cases hnext
      exact hK.spawn op _ _ hok h.inv
    · have hn : i < p.threads.length := (List.getElem?_eq_some_iff.mp hbefore).1
      have ha : K.assume i c p.store := hok op β c k hbefore
      rw [hstore]
      exact (h.safe i op _ hbefore p.store (K.refl i _) ⟨ha, _, hn, h.inv⟩).2

/-- Soundness: in every run whose actions the contract allows, every pool reached keeps
the invariant and every thread in it stays safe. -/
theorem Sound.run (hK : K.Sound) {ok : Pool C ε σ Op → Action Op Env → Prop}
    (hok : ∀ p a, ok p a → K.Ok p a) {as : List (Action Op Env)}
    (h : S.Run ok p as q) (hp : K.Holds p) : K.Holds q :=
  h.invariant hp fun _ _ _ hI ha hnext => hI.next hK (hok _ _ ha) hnext

theorem holds_empty {s : σ} (h : K.inv 0 s) : K.Holds (⟨s, []⟩ : Pool C ε σ Op) :=
  ⟨h, fun i op rest hi => by simp at hi⟩

end Contract
end Concurrent
