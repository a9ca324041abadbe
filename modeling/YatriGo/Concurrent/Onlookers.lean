import Mathlib.Data.Set.Image
import YatriGo.Concurrent.History

/-! Systems with onlookers. Next to the operations of a system run programs that read its store and note what they
read, before, between and after the commands of an operation. Their runs are runs of the system, with the notes left out. -/

namespace Concurrent

variable {C D : Type → Type} {ε σ τ Op Op' Env α β : Type}

/-- The program with its commands embedded into other commands. -/
def Prog.lift (embed : ⦃β : Type⦄ → C β → D β) : Prog C ε α → Prog D ε α
  | .ret a => .ret a
  | .throw e => .throw e
  | .cmd c k => .cmd (embed c) fun b => (k b).lift embed

/-- The action with its call replaced. -/
def Action.map (base : Op' → Op) : Action Op' Env → Action Op Env
  | .call op => .call (base op)
  | .step i => .step i
  | .env e => .env e

/-- `T` looks on at `S`: the store of `S` is a part of its store, on which it can perform the commands of `S`. -/
structure Onlooking (S : System C ε σ Op Env) (T : System D ε τ Op' Env) where
  store : τ → σ
  embed : ⦃β : Type⦄ → C β → D β
  exec : ∀ i (β : Type) (c : C β) t, (T.exec i (embed c) t).1 = (S.exec i c (store t)).1 ∧
    store (T.exec i (embed c) t).2 = (S.exec i c (store t)).2
  env : ∀ e t t', T.env e t = some t' → S.env e (store t) = some (store t')

namespace Onlooking

variable {S : System C ε σ Op Env} {T : System D ε τ Op' Env} (O : Onlooking S T)

/-- The command leaves the store of `S` as it is. -/
def Quiet ⦃β : Type⦄ (c : D β) : Prop := ∀ i t, O.store (T.exec i c t).2 = O.store t

/-- Each command of the program is quiet, or is the next one of `q`. -/
def Follows : Prog D ε α → Prog C ε Unit → Prop
  | .ret _, _ => True
  | .throw _, _ => True
  | .cmd c k, q => (O.Quiet c ∧ ∀ b, Follows (k b) q) ∨
    ∃ c' k', q = .cmd c' k' ∧ c = O.embed c' ∧ ∀ b, Follows (k b) (k' b)

variable {O} {p : Prog D ε α} {f : α → Prog D ε β} {q : Prog C ε Unit}

theorem Follows.quiet (hp : p.Uses O.Quiet) : O.Follows p q := by
  induction p with
  | ret a => trivial
  | throw e => trivial
  | cmd c k ih => exact .inl ⟨hp.1, fun b => ih b (hp.2 b)⟩

theorem Follows.after (hp : p.Uses O.Quiet) (hf : ∀ a, O.Follows (f a) q) : O.Follows (p.bind f) q := by
  induction p with
  | ret a => exact hf a
  | throw e => trivial
  | cmd c k ih => exact .inl ⟨hp.1, fun b => ih b (hp.2 b)⟩

theorem Follows.bind (hp : O.Follows p q) (hf : ∀ a, (f a).Uses O.Quiet) : O.Follows (p.bind f) q := by
  induction p generalizing q with
  | ret a => exact .quiet (hf a)
  | throw e => trivial
  | cmd c k ih =>
    rcases hp with ⟨hquiet, hk⟩ | ⟨c', k', rfl, rfl, hk⟩
    · exact .inl ⟨hquiet, fun b => ih b (hk b)⟩
    · exact .inr ⟨c', k', rfl, rfl, fun b => ih b (hk b)⟩

theorem Follows.tryCatch {handle : ε → Prog D ε α} (hp : O.Follows p q) (hhandle : ∀ e, (handle e).Uses O.Quiet) :
    O.Follows (p.tryCatch handle) q := by
  induction p generalizing q with
  | ret a => trivial
  | throw e => exact .quiet (hhandle e)
  | cmd c k ih =>
    rcases hp with ⟨hquiet, hk⟩ | ⟨c', k', rfl, rfl, hk⟩
    · exact .inl ⟨hquiet, fun b => ih b (hk b)⟩
    · exact .inr ⟨c', k', rfl, rfl, fun b => ih b (hk b)⟩

theorem follows_lift (p : Prog C ε α) (g : α → Prog C ε Unit) : O.Follows (p.lift O.embed) (p.bind g) := by
  induction p with
  | ret a => trivial
  | throw e => trivial
  | cmd c k ih => exact .inr ⟨c, _, rfl, rfl, ih⟩

variable (O) in
/-- The same store and the same threads, which are where their onlookers have got to. -/
structure Shadows (base : Op' → Op) (p : Pool D ε τ Op') (q : Pool C ε σ Op) : Prop where
  store : q.store = O.store p.store
  length : q.threads.length = p.threads.length
  follows : ∀ (i : ℕ) op (rest : Prog D ε Unit), p.threads[i]? = some (op, rest) →
    ∃ rest', q.threads[i]? = some (base op, rest') ∧ O.Follows rest rest'

variable {base : Op' → Op} {m m' : Pool D ε τ Op'} {n : Pool C ε σ Op} {a : Action Op' Env}

/-- An action with onlookers is one of the system, or none. -/
theorem Shadows.next (hcode : ∀ op, O.Follows (T.code op) (S.code (base op))) (h : O.Shadows base m n)
    (hnext : T.next m a = some m') :
    O.Shadows base m' n ∨ ∃ n', S.next n (a.map base) = some n' ∧ O.Shadows base m' n' := by
  cases a with
  | call op =>
    refine .inr ⟨_, rfl, ?_, ?_, fun i op' rest hi => ?_⟩
    · cases hnext
      exact h.store
    · cases hnext
      simp only [List.length_append, List.length_singleton, h.length]
    · rcases System.next_thread hnext hi with ⟨hbefore, -⟩ | ⟨hcall, rfl, rfl⟩ | ⟨hstep, -⟩
      · obtain ⟨rest', hi', hfollows⟩ := h.follows i op' rest hbefore
        refine ⟨rest', ?_, hfollows⟩
        rw [List.getElem?_append_left (List.getElem?_eq_some_iff.mp hi').1]
        exact hi'
      · cases hcall
        refine ⟨S.code (base op), ?_, hcode op⟩
        rw [← h.length]
        exact List.getElem?_concat_length ..
      · cases hstep
  | env e =>
    obtain ⟨t, ht, rfl⟩ := Option.map_eq_some_iff.mp hnext
    refine .inr ⟨{ n with store := O.store t }, ?_, rfl, h.length, h.follows⟩
    show (S.env e n.store).map _ = _
    rw [h.store, O.env e _ t ht]
    rfl
  | step i =>
    obtain ⟨op, β, c, k, hi, hstore, hthreads⟩ := System.next_step hnext
    have hlt : i < m.threads.length := (List.getElem?_eq_some_iff.mp hi).1
    obtain ⟨rest', hi', hfollows⟩ := h.follows i op _ hi
    rcases hfollows with ⟨hquiet, hk⟩ | ⟨c', k', rfl, rfl, hk⟩
    · -- the system stays where it is
      refine .inl ⟨?_, ?_, fun j op' rest hj => ?_⟩
      · rw [h.store, hstore, hquiet]
      · rw [h.length, hthreads, List.length_set]
      · rw [hthreads] at hj
        rcases eq_or_ne i j with rfl | hne
        · rw [List.getElem?_set_self hlt] at hj
          cases hj
          exact ⟨rest', hi', hk _⟩
        · rw [List.getElem?_set_ne hne] at hj
          exact h.follows j op' rest hj
    · -- the system makes the step
      obtain ⟨hanswer, hafter⟩ := O.exec i β c' m.store
      refine .inr ⟨⟨(S.exec i c' n.store).2, n.threads.set i (base op, k' (S.exec i c' n.store).1)⟩, ?_, ?_, ?_, ?_⟩
      · simp only [Action.map, System.next, hi']
      · rw [hstore, hafter, h.store]
      · rw [List.length_set, h.length, hthreads, List.length_set]
      · intro j op' rest hj
        rw [hthreads] at hj
        rcases eq_or_ne i j with rfl | hne
        · rw [List.getElem?_set_self hlt] at hj
          cases hj
          refine ⟨_, List.getElem?_set_self (h.length ▸ hlt), ?_⟩
          rw [hanswer, h.store]
          exact hk _
        · rw [List.getElem?_set_ne hne] at hj
          rw [List.getElem?_set_ne hne]
          exact h.follows j op' rest hj

theorem Shadows.run {ok : Pool C ε σ Op → Action Op Env → Prop} {ok' : Pool D ε τ Op' → Action Op' Env → Prop}
    {as : List (Action Op' Env)} (hcode : ∀ op, O.Follows (T.code op) (S.code (base op)))
    (hok : ∀ m n a, O.Shadows base m n → ok' m a → ok n (a.map base)) (h : O.Shadows base m n)
    (hrun : T.Run ok' m as m') :
    ∃ bs n', S.Run ok n bs n' ∧ O.Shadows base m' n' ∧ Set.image O.store (Passed T m as) = Passed S n bs := by
  refine hrun.last_induction (I := fun as m' => ∃ bs n', S.Run ok n bs n' ∧ O.Shadows base m' n' ∧
    Set.image O.store (Passed T m as) = Passed S n bs) ⟨[], n, .nil n, h, ?_⟩ fun as a l l' hl hshadows hoka hnext => ?_
  · rw [passed_nil, passed_nil, Set.image_singleton, h.store]
  · obtain ⟨bs, n', hbs, hn', hpassed⟩ := hshadows
    have hall : Set.image O.store (Passed T m (as ++ [a])) = insert (O.store l'.store) (Passed S n bs) := by
      rw [hl.passed_snoc hnext, Set.image_insert_eq, hpassed]
    rcases hn'.next hcode hnext with hsame | ⟨n'', hnext', hn''⟩
    · refine ⟨bs, n', hbs, hsame, ?_⟩
      rw [hall, ← hsame.store]
      exact Set.insert_eq_of_mem hbs.passed
    · refine ⟨bs ++ [a.map base], n'', hbs.append (.single (hok l n' a hn' hoka) hnext'), hn'', ?_⟩
      rw [hall, hbs.passed_snoc hnext', hn''.store]

theorem Cites.lift {E : Evidence S} {E' : Evidence T} {i : ℕ} {Q : α → Set σ → Prop} {p : Prog C ε α} {past : Set τ}
    (hneeds : ∀ (β : Type) (c : C β) past, E.needs c (Set.image O.store past) → E'.needs (O.embed c) past)
    (h : E.Cites i Q p (Set.image O.store past)) :
    E'.Cites i (fun a u => Q a (Set.image O.store u)) (p.lift O.embed) past := by
  induction p generalizing past with
  | ret a => exact h
  | throw e => trivial
  | cmd c k ih =>
    obtain ⟨hc, hk⟩ := h
    refine ⟨hneeds _ c past hc, fun t => ?_⟩
    obtain ⟨hanswer, hafter⟩ := O.exec i _ c t
    rw [hanswer]
    apply ih
    rw [Set.image_insert_eq, Set.image_insert_eq, hafter]
    exact hk (O.store t)

end Onlooking
end Concurrent
