import Mathlib.Data.List.Induction
import Mathlib.Data.Set.Insert
import YatriGo.Concurrent.Pool

/-! What a thread says, it has read. A program is checked against every store it could see at its commands,
without any interference to rule out; what it needs to have seen, has then been there in every run. -/

namespace Concurrent

variable {C : Type → Type} {ε ε' σ Op Env α β γ : Type}

/-- `needs c past`: command `c` may be performed by a thread that has seen the stores `past`. -/
structure Evidence (S : System C ε σ Op Env) where
  needs : ⦃β : Type⦄ → C β → Set σ → Prop
  mono : ∀ (β : Type) (c : C β) past past', past ⊆ past' → needs c past → needs c past'

namespace Evidence

variable {S : System C ε σ Op Env} (E : Evidence S)

/-- Every command of the program is backed by the stores seen before it, and a program that returns has
seen what `Q` asks for. A thread sees the store before and after each of its commands. -/
def Cites (i : ℕ) (Q : α → Set σ → Prop) : Prog C ε α → Set σ → Prop
  | .ret a, past => Q a past
  | .throw _, _ => True
  | .cmd c k, past => E.needs c past ∧
      ∀ s, Cites i Q (k (S.exec i c s).1) (insert s (insert (S.exec i c s).2 past))

variable {E} {i : ℕ} {Q : α → Set σ → Prop} {R : β → Set σ → Prop} {p : Prog C ε α} {f : α → Prog C ε β}
  {past past' : Set σ}

theorem Cites.more (h : E.Cites i Q p past) (hpast : past ⊆ past') (hQ : ∀ a u v, u ⊆ v → Q a u → Q a v) :
    E.Cites i Q p past' := by
  induction p generalizing past past' with
  | ret a => exact hQ a past past' hpast h
  | throw e => trivial
  | cmd c k ih =>
    refine ⟨E.mono _ c past past' hpast h.1, fun s => ih _ (h.2 s) ?_⟩
    exact Set.insert_subset_insert (Set.insert_subset_insert hpast)

theorem Cites.mono {Q' : α → Set σ → Prop} (h : E.Cites i Q p past) (hQ : ∀ a u, past ⊆ u → Q a u → Q' a u) :
    E.Cites i Q' p past := by
  induction p generalizing past with
  | ret a => exact hQ a past subset_rfl h
  | throw e => trivial
  | cmd c k ih =>
    refine ⟨h.1, fun s => ih _ (h.2 s) fun a u hu => hQ a u ?_⟩
    exact ((Set.subset_insert _ _).trans (Set.subset_insert _ _)).trans hu

theorem Cites.bind (h : E.Cites i Q p past) (hf : ∀ a u, past ⊆ u → Q a u → E.Cites i R (f a) u) :
    E.Cites i R (p.bind f) past := by
  induction p generalizing past with
  | ret a => exact hf a past subset_rfl h
  | throw e => trivial
  | cmd c k ih =>
    refine ⟨h.1, fun s => ih _ (h.2 s) fun a u hu => hf a u ?_⟩
    exact ((Set.subset_insert _ _).trans (Set.subset_insert _ _)).trans hu

theorem Cites.command {c : C α} (hneeds : E.needs c past)
    (hQ : ∀ s, Q (S.exec i c s).1 (insert s (insert (S.exec i c s).2 past))) :
    E.Cites i Q (Prog.perform c : Prog C ε α) past := ⟨hneeds, hQ⟩

theorem Cites.tryFinally {fin : Prog C ε Unit} (h : E.Cites i Q p past)
    (hfin : ∀ u, past ⊆ u → E.Cites i (fun _ _ => True) fin u) (hQ : ∀ a u v, u ⊆ v → Q a u → Q a v) :
    E.Cites i Q (p.tryFinally fin) past := by
  induction p generalizing past with
  | ret a =>
    refine (hfin past subset_rfl).bind fun _ u hu _ => ?_
    exact hQ a past u hu h
  | throw e => exact (hfin past subset_rfl).bind fun _ u hu _ => trivial
  | cmd c k ih =>
    refine ⟨h.1, fun s => ih _ (h.2 s) fun u hu => hfin u ?_⟩
    exact ((Set.subset_insert _ _).trans (Set.subset_insert _ _)).trans hu

theorem Cites.tryCatch {handle : ε → Prog C ε α} (h : E.Cites i Q p past)
    (hhandle : ∀ e u, past ⊆ u → E.Cites i Q (handle e) u) : E.Cites i Q (p.tryCatch handle) past := by
  induction p generalizing past with
  | ret a => exact h
  | throw e => exact hhandle e past subset_rfl
  | cmd c k ih =>
    refine ⟨h.1, fun s => ih _ (h.2 s) fun e u hu => hhandle e u ?_⟩
    exact ((Set.subset_insert _ _).trans (Set.subset_insert _ _)).trans hu

theorem Cites.free {q : ⦃β : Type⦄ → C β → Prop} (hq : ∀ (β : Type) (c : C β) past, q c → E.needs c past)
    (hp : p.Uses q) : E.Cites i (fun _ _ => True) p past := by
  induction p generalizing past with
  | ret a => trivial
  | throw e => trivial
  | cmd c k ih => exact ⟨hq _ c past hp.1, fun s => ih _ (hp.2 _)⟩

theorem Cites.forEach {g : γ → Prog C ε Unit} {xs : List γ}
    (hg : ∀ x ∈ xs, ∀ u, past ⊆ u → E.Cites i (fun _ _ => True) (g x) u) :
    E.Cites i (fun _ _ => True) (Prog.forEach g xs) past := by
  induction xs generalizing past with
  | nil => trivial
  | cons x xs ih =>
    refine (hg x (List.mem_cons_self ..) past subset_rfl).bind fun _ u hu _ => ih fun y hy v hv => ?_
    exact hg y (List.mem_cons_of_mem _ hy) v (hu.trans hv)

end Evidence

section history

variable (S : System C ε σ Op Env)

/-- The stores that the actions `as` have passed through. -/
def Passed (p : Pool C ε σ Op) (as : List (Action Op Env)) : Set σ :=
  {s | ∃ bs cs m, as = bs ++ cs ∧ S.Run (fun _ _ => True) p bs m ∧ m.store = s}

/-- What is noted of the actions `as`, one after the other. -/
def System.observed (note : Pool C ε σ Op → Action Op Env → List γ) : List (Action Op Env) → Pool C ε σ Op → List γ
  | [], _ => []
  | a :: as, p => note p a ++ match S.next p a with
    | some q => System.observed note as q
    | none => []

variable {S} {ok : Pool C ε σ Op → Action Op Env → Prop} {p q : Pool C ε σ Op} {as : List (Action Op Env)}

theorem System.Run.observed_append {note : Pool C ε σ Op → Action Op Env → List γ} {bs : List (Action Op Env)}
    (h : S.Run ok p as q) : S.observed note (as ++ bs) p = S.observed note as p ++ S.observed note bs q := by
  induction h with
  | nil => rfl
  | cons hok hnext rest ih =>
    simp only [List.cons_append, System.observed, hnext, ih, List.append_assoc]

theorem System.observed_single {note : Pool C ε σ Op → Action Op Env → List γ} {a : Action Op Env}
    (hnext : S.next p a = some q) : S.observed note [a] p = note p a := by
  simp only [System.observed, hnext, List.append_nil]

theorem passed_append {bs : List (Action Op Env)} : Passed S p as ⊆ Passed S p (as ++ bs) := by
  rintro s ⟨cs, ds, m, rfl, hrun, hstore⟩
  exact ⟨cs, ds ++ bs, m, List.append_assoc .., hrun, hstore⟩

theorem System.Run.passed (h : S.Run ok p as q) : q.store ∈ Passed S p as :=
  ⟨as, [], q, (List.append_nil as).symm, h.mono fun _ _ _ => trivial, rfl⟩

theorem System.Run.passed_concat {a : Action Op Env} (h : S.Run ok p (as ++ [a]) q) :
    Passed S p (as ++ [a]) ⊆ insert q.store (Passed S p as) := by
  rintro s ⟨bs, cs, m, hactions, hrun, rfl⟩
  rcases List.eq_nil_or_concat cs with rfl | ⟨ds, b, rfl⟩
  · rw [List.append_nil] at hactions
    rw [← hactions] at hrun
    exact .inl (congrArg Pool.store (hrun.unique h))
  · rw [List.concat_eq_append, ← List.append_assoc] at hactions
    exact .inr ⟨bs, ds, m, (List.append_inj' hactions rfl).1, hrun, rfl⟩

theorem passed_nil : Passed S p [] = {p.store} := by
  ext s
  constructor
  · rintro ⟨bs, cs, m, hactions, hrun, rfl⟩
    obtain ⟨rfl, rfl⟩ := List.append_eq_nil_iff.mp hactions.symm
    cases hrun
    exact Set.mem_singleton _
  · intro hs
    rw [Set.mem_singleton_iff.mp hs]
    have hrun : S.Run (fun _ _ => True) p [] p := .nil p
    exact hrun.passed

theorem System.Run.passed_snoc {a : Action Op Env} {r : Pool C ε σ Op} (h : S.Run ok p as q) (hnext : S.next q a = some r) :
    Passed S p (as ++ [a]) = insert r.store (Passed S p as) := by
  have hlast : S.Run (fun _ _ => True) p (as ++ [a]) r := (h.mono fun _ _ _ => trivial).append (.single trivial hnext)
  exact (System.Run.passed_concat hlast).antisymm (Set.insert_subset hlast.passed passed_append)

theorem System.Run.last_induction {I : List (Action Op Env) → Pool C ε σ Op → Prop} (h : S.Run ok p as q) (hp : I [] p)
    (step : ∀ bs a m m', S.Run ok p bs m → I bs m → ok m a → S.next m a = some m' → I (bs ++ [a]) m') : I as q := by
  induction as using List.reverseRecOn generalizing q with
  | nil =>
    cases h
    exact hp
  | append_singleton bs a ih =>
    obtain ⟨m, hbs, hlast⟩ := h.split
    cases hlast with
    | cons hok hnext rest =>
      cases rest
      exact step bs a m q hbs (ih hbs) hok hnext

theorem Evidence.run {E : Evidence S} (hcode : ∀ i op past, E.Cites i (fun _ _ => True) (S.code op) past) {s : σ}
    (h : S.Run ok ⟨s, []⟩ as q) : ∀ (i : ℕ) op (rest : Prog C ε Unit), q.threads[i]? = some (op, rest) →
      E.Cites i (fun _ _ => True) rest (Passed S ⟨s, []⟩ as) := by
  refine h.last_induction (I := fun as q => ∀ (i : ℕ) op (rest : Prog C ε Unit), q.threads[i]? = some (op, rest) →
    E.Cites i (fun _ _ => True) rest (Passed S ⟨s, []⟩ as)) ?_ fun bs a m m' hrun hm hok hnext i op rest hi => ?_
  · intro i op rest hi
    simp at hi
  · rcases System.next_thread hnext hi with ⟨hbefore, -⟩ | ⟨-, rfl, -⟩ | ⟨-, β, c, k, hbefore, hstore, rfl⟩
    · exact (hm i op rest hbefore).more passed_append fun _ _ _ _ h => h
    · exact hcode i op _
    · -- the stores before and after the step were passed
      have hlast : S.Run ok ⟨s, []⟩ (bs ++ [a]) m' := hrun.append (.single hok hnext)
      have hafter : (S.exec i c m.store).2 ∈ Passed S ⟨s, []⟩ (bs ++ [a]) := by
        rw [← hstore]
        exact hlast.passed
      refine ((hm i op _ hbefore).2 m.store).more ?_ fun _ _ _ _ h => h
      exact Set.insert_subset (passed_append hrun.passed) (Set.insert_subset hafter passed_append)

end history
end Concurrent
