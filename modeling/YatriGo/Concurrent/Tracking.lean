import YatriGo.Concurrent.Pool

/-! Values that a program carries along. A tracker follows what a program knows, from one command to the next and
by their answers alone; what it needs to know at a command is then known in every run. -/

namespace Concurrent

variable {C : Type → Type} {G ε ε' σ Op Env α β γ : Type}

/-- `next c b g` is what is known after command `c` has answered `b`, and `needs c g` what has to be known when
`c` is performed. -/
structure Tracker (C : Type → Type) (G : Type) where
  next : ⦃β : Type⦄ → C β → β → G → G
  needs : ⦃β : Type⦄ → C β → G → Prop

namespace Tracker

variable (T : Tracker C G)

/-- From what is known at its start, the program knows what it needs at all its commands. -/
def Tracks : Prog C ε α → G → Prop
  | .ret _, _ => True
  | .throw _, _ => True
  | .cmd c k, g => T.needs c g ∧ ∀ b, Tracks (k b) (T.next c b g)

/-- The program knows what it needs, whatever is known at its start. -/
def Always (p : Prog C ε α) : Prop := ∀ g, T.Tracks p g

/-- A command that needs to know nothing, and adds nothing to what is known. -/
def Idle ⦃β : Type⦄ (c : C β) : Prop := ∀ g, T.needs c g ∧ ∀ b, T.next c b g = g

variable {T} {p : Prog C ε α} {f : α → Prog C ε β} {g : G}

theorem Tracks.bind (hp : T.Tracks p g) (hf : ∀ a, T.Always (f a)) : T.Tracks (p.bind f) g := by
  induction p generalizing g with
  | ret a => exact hf a g
  | throw e => trivial
  | cmd c k ih => exact ⟨hp.1, fun b => ih b (hp.2 b)⟩

/-- What is known survives idle commands. -/
theorem Tracks.after (hp : p.Uses T.Idle) (hf : ∀ a, T.Tracks (f a) g) : T.Tracks (p.bind f) g := by
  induction p with
  | ret a => exact hf a
  | throw e => trivial
  | cmd c k ih =>
    refine ⟨(hp.1 g).1, fun b => ?_⟩
    rw [(hp.1 g).2 b]
    exact ih b (hp.2 b)

theorem Always.ret {a : α} : T.Always (.ret a : Prog C ε α) := fun _ => trivial

theorem Always.throw {e : ε} : T.Always (.throw e : Prog C ε α) := fun _ => trivial

theorem Always.bind (hp : T.Always p) (hf : ∀ a, T.Always (f a)) : T.Always (p.bind f) := fun g => (hp g).bind hf

theorem Always.of_uses {u : ⦃β : Type⦄ → C β → Prop} (hu : ∀ (β : Type) (c : C β) g, u c → T.needs c g) (hp : p.Uses u) :
    T.Always p := by
  induction p with
  | ret a => exact Always.ret
  | throw e => exact Always.throw
  | cmd c k ih => exact fun g => ⟨hu _ c g hp.1, fun b => ih b (hp.2 b) _⟩

theorem Always.tryCatch {handle : ε → Prog C ε' α} (hp : T.Always p) (hh : ∀ e, T.Always (handle e)) :
    T.Always (p.tryCatch handle) := by
  intro g
  have htracks : T.Tracks p g := hp g
  clear hp
  induction p generalizing g with
  | ret a => trivial
  | throw e => exact hh e g
  | cmd c k ih => exact ⟨htracks.1, fun b => ih b _ (htracks.2 b)⟩

theorem Always.tryFinally {fin : Prog C ε Unit} (hp : T.Always p) (hfin : T.Always fin) :
    T.Always (p.tryFinally fin) := by
  intro g
  have htracks : T.Tracks p g := hp g
  clear hp
  induction p generalizing g with
  | ret a => exact (hfin g).bind fun _ => Always.ret
  | throw e => exact (hfin g).bind fun _ => Always.throw
  | cmd c k ih => exact ⟨htracks.1, fun b => ih b _ (htracks.2 b)⟩

theorem Always.forEach {h : γ → Prog C ε Unit} {xs : List γ} (hh : ∀ x, T.Always (h x)) :
    T.Always (Prog.forEach h xs) := by
  induction xs with
  | nil => exact Always.ret
  | cons x xs ih => exact (hh x).bind fun _ => ih

section runs

variable {S : System C ε σ Op Env} {q r : Pool C ε σ Op} {a : Action Op Env} {K K' : ℕ → G → Prop}

/-- Each thread of the pool knows what it needs, and what thread `i` knows satisfies `K i`. -/
def Holds (T : Tracker C G) (K : ℕ → G → Prop) (q : Pool C ε σ Op) : Prop :=
  ∀ (i : ℕ) (op : Op) (rest : Prog C ε Unit), q.threads[i]? = some (op, rest) → ∃ g, K i g ∧ T.Tracks rest g

theorem holds_empty {s : σ} : T.Holds K (⟨s, []⟩ : Pool C ε σ Op) := by
  intro i op rest hi
  simp at hi

theorem Holds.needs (h : T.Holds K q) {i : ℕ} {op : Op} {β : Type} {c : C β} {k : β → Prog C ε Unit}
    (hi : q.threads[i]? = some (op, .cmd c k)) : ∃ g, K i g ∧ T.needs c g := by
  obtain ⟨g, hg, htracks⟩ := h i op _ hi
  exact ⟨g, hg, htracks.1⟩

/-- One step: a new thread starts with `g`, the others keep what they know, and the thread that moves has what it
knew and the answer to its command. -/
theorem Holds.next (h : T.Holds K q) {g : G} (hcode : ∀ op, T.Tracks (S.code op) g) (hnext : S.next q a = some r)
    (hnew : ∀ i, K' i g) (hothers : ∀ i g, i < q.threads.length → a ≠ .step i → K i g → K' i g)
    (hown : ∀ i op (β : Type) (c : C β) k g, a = .step i → q.threads[i]? = some (op, .cmd c k) → K i g → T.needs c g →
      K' i (T.next c (S.exec i c q.store).1 g)) : T.Holds K' r := by
  intro i op rest hi
  rcases System.next_thread hnext hi with ⟨hbefore, hother⟩ | ⟨-, rfl, -⟩ | ⟨hstep, β, c, k, hbefore, -, rfl⟩
  · obtain ⟨g', hg', htracks⟩ := h i op rest hbefore
    have hlt : i < q.threads.length := (List.getElem?_eq_some_iff.mp hbefore).1
    exact ⟨g', hothers i g' hlt hother hg', htracks⟩
  · exact ⟨g, hnew i, hcode op⟩
  · obtain ⟨g', hg', htracks⟩ := h i op _ hbefore
    exact ⟨_, hown i op β c k g' hstep hbefore hg' htracks.1, htracks.2 _⟩

end runs

end Tracker
end Concurrent
