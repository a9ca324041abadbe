import YatriGo.Concurrent.Prog

/-! A pool of programs over one store, interleaved command by command. -/

namespace Concurrent

/-- A thread is named by its position `i` in the pool; `exec i` runs one command of
thread `i`. `env` is what happens to the store with no thread involved. -/
structure System (C : Type → Type) (ε σ Op Env : Type) where
  exec : ⦃β : Type⦄ → ℕ → C β → σ → β × σ
  code : Op → Prog C ε Unit
  env : Env → σ → Option σ

structure Pool (C : Type → Type) (ε σ Op : Type) where
  store : σ
  threads : List (Op × Prog C ε Unit)

inductive Action (Op Env : Type)
  | call (op : Op)
  | step (i : ℕ)
  | env (e : Env)

namespace System

variable {C : Type → Type} {ε σ Op Env : Type} (S : System C ε σ Op Env)

/-- One action: a new call, the next command of a running thread, or the environment. -/
def next (p : Pool C ε σ Op) : Action Op Env → Option (Pool C ε σ Op)
  | .call op => some { p with threads := p.threads ++ [(op, S.code op)] }
  | .step i =>
    match p.threads[i]? with
    | some (op, .cmd c k) =>
      some ⟨(S.exec i c p.store).2, p.threads.set i (op, k (S.exec i c p.store).1)⟩
    | _ => none
  | .env e => (S.env e p.store).map fun s => { p with store := s }

/-- Runs the actions one after the other, as long as `check` allows them. -/
def steps (check : Pool C ε σ Op → Action Op Env → Bool) :
    List (Action Op Env) → Pool C ε σ Op → Option (Pool C ε σ Op)
  | [], p => some p
  | a :: as, p => if check p a then (S.next p a).bind (steps check as) else none

/-- `S.Run ok p as q`: the actions `as` lead from `p` to `q`, each of them allowed by
`ok` in the pool it starts from. -/
inductive Run (ok : Pool C ε σ Op → Action Op Env → Prop) :
    Pool C ε σ Op → List (Action Op Env) → Pool C ε σ Op → Prop
  | nil (p) : Run ok p [] p
  | cons {p q r a as} (hok : ok p a) (hnext : S.next p a = some q) (rest : Run ok q as r) :
      Run ok p (a :: as) r

variable {S} {ok ok' : Pool C ε σ Op → Action Op Env → Prop} {p q r : Pool C ε σ Op}

theorem Run.append {as bs : List (Action Op Env)} (h₁ : S.Run ok p as q)
    (h₂ : S.Run ok q bs r) : S.Run ok p (as ++ bs) r := by
  induction h₁ with
  | nil => exact h₂
  | cons hok hnext _ ih => exact .cons hok hnext (ih h₂)

theorem Run.single {a : Action Op Env} (hok : ok p a) (hnext : S.next p a = some q) :
    S.Run ok p [a] q := .cons hok hnext (.nil q)

theorem Run.split {as bs : List (Action Op Env)} (h : S.Run ok p (as ++ bs) r) :
    ∃ q, S.Run ok p as q ∧ S.Run ok q bs r := by
  induction as generalizing p with
  | nil => exact ⟨p, .nil p, h⟩
  | cons a as ih =>
    cases h with
    | cons hok hnext rest =>
      obtain ⟨q, h₁, h₂⟩ := ih rest
      exact ⟨q, .cons hok hnext h₁, h₂⟩

theorem Run.unique {as : List (Action Op Env)} (h : S.Run ok p as q) (h' : S.Run ok' p as r) :
    q = r := by
  induction h with
  | nil =>
    cases h'
    rfl
  | cons _ hnext _ ih =>
    cases h' with
    | cons _ hnext' rest' =>
      rw [hnext] at hnext'
      cases hnext'
      exact ih rest'

theorem Run.rest {as bs : List (Action Op Env)} (h : S.Run ok p (as ++ bs) r) (hrun : S.Run ok' p as q) :
    S.Run ok q bs r := by
  obtain ⟨m, hm, hrest⟩ := h.split
  rw [← hm.unique hrun]
  exact hrest

theorem Run.head {as bs : List (Action Op Env)} (h : S.Run ok p (as ++ bs) r) (hrun : S.Run ok' p as q) :
    S.Run ok p as q := by
  obtain ⟨m, hm, -⟩ := h.split
  rw [← hm.unique hrun]
  exact hm

theorem Run.tail {a : Action Op Env} {as : List (Action Op Env)} (h : S.Run ok p (a :: as) r)
    (hnext : S.next p a = some q) : S.Run ok q as r := by
  cases h with
  | cons _ hnext' rest =>
    rw [hnext] at hnext'
    obtain rfl := Option.some.inj hnext'
    exact rest

theorem Run.mono {as : List (Action Op Env)} (h : S.Run ok p as q)
    (himp : ∀ p a, ok p a → ok' p a) : S.Run ok' p as q := by
  induction h with
  | nil => exact .nil _
  | cons hok hnext _ ih => exact .cons (himp _ _ hok) hnext ih

theorem Run.invariant {I : Pool C ε σ Op → Prop} {as : List (Action Op Env)}
    (h : S.Run ok p as q) (hp : I p)
    (step : ∀ p a q, I p → ok p a → S.next p a = some q → I q) : I q := by
  induction h with
  | nil => exact hp
  | cons hok hnext _ ih => exact ih (step _ _ _ hp hok hnext)

theorem run_of_steps {check : Pool C ε σ Op → Action Op Env → Bool}
    (himp : ∀ p a, check p a = true → ok p a) {as : List (Action Op Env)}
    (h : S.steps check as p = some q) : S.Run ok p as q := by
  induction as generalizing p with
  | nil => simp only [steps, Option.some.injEq] at h; subst h; exact .nil p
  | cons a as ih =>
    simp only [steps] at h
    split at h
    · rename_i hcheck
      obtain ⟨m, hm, hq⟩ := Option.bind_eq_some_iff.mp h
      exact .cons (himp p a hcheck) hm (ih hq)
    · cases h

theorem exists_run {check : Pool C ε σ Op → Action Op Env → Bool}
    (himp : ∀ p a, check p a = true → ok p a) {as : List (Action Op Env)}
    {P : Pool C ε σ Op → Bool} (h : (S.steps check as p).any P = true) :
    ∃ q, S.Run ok p as q ∧ P q = true := by
  cases hsteps : S.steps check as p with
  | none =>
    rw [hsteps] at h
    cases h
  | some q =>
    rw [hsteps] at h
    exact ⟨q, run_of_steps himp hsteps, h⟩

theorem Run.acquires {P : Pool C ε σ Op → Prop} {as : List (Action Op Env)}
    (h : S.Run ok p as q) (hp : ¬ P p) (hq : P q) :
    ∃ bs a cs m m', as = bs ++ a :: cs ∧ S.Run ok p bs m ∧ S.next m a = some m' ∧ ¬ P m ∧ P m' := by
  induction h with
  | nil => exact absurd hq hp
  | @cons p m q a as hok hnext rest ih =>
    by_cases hm : P m
    · exact ⟨[], a, as, p, m, rfl, .nil p, hnext, hp, hm⟩
    · obtain ⟨bs, b, cs, m₁, m₂, rfl, hrun, hnext', h₁, h₂⟩ := ih hm hq
      exact ⟨a :: bs, b, cs, m₁, m₂, rfl, .cons hok hnext hrun, hnext', h₁, h₂⟩

theorem next_step {i : ℕ} (h : S.next p (.step i) = some q) :
    ∃ op, ∃ β : Type, ∃ c : C β, ∃ k, p.threads[i]? = some (op, .cmd c k) ∧
      q.store = (S.exec i c p.store).2 ∧
      q.threads = p.threads.set i (op, k (S.exec i c p.store).1) := by
  simp only [next] at h
  split at h
  · rename_i op β c k hi
    cases h
    exact ⟨op, β, c, k, hi, rfl, rfl⟩
  · cases h

/-- What becomes of a thread: it stays as it is, or it makes the step. -/
theorem thread_next {a : Action Op Env} (h : S.next p a = some q) {i : ℕ} {op : Op} {rest : Prog C ε Unit}
    (hi : p.threads[i]? = some (op, rest)) :
    (a ≠ .step i ∧ q.threads[i]? = some (op, rest)) ∨
    (a = .step i ∧ ∃ β : Type, ∃ c : C β, ∃ k, rest = .cmd c k ∧ q.store = (S.exec i c p.store).2 ∧
      q.threads[i]? = some (op, k (S.exec i c p.store).1)) := by
  have hlt : i < p.threads.length := (List.getElem?_eq_some_iff.mp hi).1
  cases a with
  | call op' =>
    cases h
    exact .inl ⟨(fun h => by cases h), (List.getElem?_append_left hlt).trans hi⟩
  | env e =>
    obtain ⟨t, -, rfl⟩ := Option.map_eq_some_iff.mp h
    exact .inl ⟨(fun h => by cases h), hi⟩
  | step j =>
    obtain ⟨op', β, c, k, hj, hstore, hthreads⟩ := next_step h
    rcases eq_or_ne j i with rfl | hne
    · rw [hj] at hi
      cases hi
      refine .inr ⟨rfl, β, c, k, rfl, hstore, ?_⟩
      rw [hthreads]
      exact List.getElem?_set_self hlt
    · refine .inl ⟨(fun h => hne (Action.step.inj h)), ?_⟩
      rw [hthreads, List.getElem?_set_ne hne]
      exact hi

/-- Where a thread comes from: it was there before, it was just called, or it made the step. -/
theorem next_thread {a : Action Op Env} (h : S.next p a = some q) {i : ℕ} {op : Op} {rest : Prog C ε Unit}
    (hi : q.threads[i]? = some (op, rest)) :
    (p.threads[i]? = some (op, rest) ∧ a ≠ .step i) ∨
    (a = .call op ∧ rest = S.code op ∧ i = p.threads.length) ∨
    (a = .step i ∧ ∃ β : Type, ∃ c : C β, ∃ k, p.threads[i]? = some (op, .cmd c k) ∧
      q.store = (S.exec i c p.store).2 ∧ rest = k (S.exec i c p.store).1) := by
  cases a with
  | call op' =>
    simp only [next, Option.some.injEq] at h
    subst h
    rcases Nat.lt_trichotomy i p.threads.length with hlt | rfl | hgt
    · rw [List.getElem?_append_left hlt] at hi
      exact Or.inl ⟨hi, by rintro ⟨⟩⟩
    · simp only [List.getElem?_concat_length, Option.some.injEq, Prod.mk.injEq] at hi
      obtain ⟨rfl, rfl⟩ := hi
      exact Or.inr (Or.inl ⟨rfl, rfl, rfl⟩)
    · have hlen : (p.threads ++ [(op', S.code op')]).length ≤ i := by
        simp only [List.length_append, List.length_singleton]
        omega
      rw [List.getElem?_eq_none hlen] at hi
      cases hi
  | step j =>
    obtain ⟨op', β, c, k, hj, hstore, ht⟩ := next_step h
    rw [ht, List.getElem?_set] at hi
    split at hi
    · rename_i hij
      subst hij
      split at hi
      · simp only [Option.some.injEq, Prod.mk.injEq] at hi
        obtain ⟨rfl, rfl⟩ := hi
        exact Or.inr (Or.inr ⟨rfl, β, c, k, hj, hstore, rfl⟩)
      · cases hi
    · rename_i hij
      exact Or.inl ⟨hi, fun heq => hij (Action.step.inj heq)⟩
  | env e =>
    simp only [next, Option.map_eq_some_iff] at h
    obtain ⟨t, -, rfl⟩ := h
    exact Or.inl ⟨hi, by rintro ⟨⟩⟩

theorem Run.uses {Q : Op → Prop} {c : ⦃β : Type⦄ → C β → Prop} {as : List (Action Op Env)}
    (hcode : ∀ op, Q op → (S.code op).Uses c) (h : S.Run ok p as q)
    (hp : ∀ (i : ℕ) op (rest : Prog C ε Unit), p.threads[i]? = some (op, rest) → Q op → rest.Uses c) :
    ∀ (i : ℕ) op (rest : Prog C ε Unit), q.threads[i]? = some (op, rest) → Q op → rest.Uses c := by
  refine h.invariant (I := fun p => ∀ (i : ℕ) op (rest : Prog C ε Unit), p.threads[i]? = some (op, rest) →
    Q op → rest.Uses c) hp fun p a q hI _ hnext i op rest hi hQ => ?_
  rcases next_thread hnext hi with ⟨hbefore, -⟩ | ⟨-, rfl, -⟩ | ⟨-, β, d, k, hbefore, -, rfl⟩
  · exact hI i op rest hbefore hQ
  · exact hcode op hQ
  · exact (hI i op _ hbefore hQ).2 _

theorem Run.thread_uses {c : ⦃β : Type⦄ → C β → Prop} {as : List (Action Op Env)} (h : S.Run ok p as q) {i : ℕ}
    {op : Op} {rest : Prog C ε Unit} (hi : p.threads[i]? = some (op, rest)) (hrest : rest.Uses c) :
    ∃ rest', q.threads[i]? = some (op, rest') ∧ rest'.Uses c := by
  refine h.invariant (I := fun q => ∃ rest', q.threads[i]? = some (op, rest') ∧ rest'.Uses c)
    ⟨rest, hi, hrest⟩ fun p a q hp _ hnext => ?_
  obtain ⟨rest', hi', hrest'⟩ := hp
  rcases thread_next hnext hi' with ⟨-, hkept⟩ | ⟨-, β, d, k, rfl, -, hstepped⟩
  · exact ⟨rest', hkept, hrest'⟩
  · exact ⟨_, hstepped, hrest'.2 _⟩

end System
end Concurrent
