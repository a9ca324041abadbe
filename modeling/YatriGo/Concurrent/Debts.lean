import Mathlib.Order.BooleanAlgebra.Set
import YatriGo.Concurrent.RelyGuarantee

/-! Threads with debts. A command that changes something leaves its thread owing a notice of
the change; where every thread pays before it ends, nothing is owed once all have ended. -/

namespace Concurrent

/-- `known s x` says that there is something to tell of `x`, `changed s t x` that there is
news of it, and `pays` is what a command gives notice of, by the store after it. Of its own
commands a thread may `assume` something of the store, and it makes no others than it may
`perform` with what it owes; between its commands it may count on `rely`. -/
structure Debts {C : Type → Type} {ε σ Op Env : Type} (S : System C ε σ Op Env) (ι : Type) where
  known : σ → ι → Prop
  changed : σ → σ → ι → Prop
  pays : ⦃β : Type⦄ → C β → σ → Set ι
  assume : ℕ → Op → ⦃β : Type⦄ → C β → σ → Prop
  perform : Op → ⦃β : Type⦄ → C β → Set ι → Prop
  rely : ℕ → σ → σ → Prop := fun _ _ _ => True
  refl : ∀ i s, rely i s s := by intros; trivial
  trans : ∀ i {s t u}, rely i s t → rely i t u → rely i s u := by intros; trivial

namespace Debts

variable {C : Type → Type} {ε ε' σ Op Env ι α β γ : Type} {S : System C ε σ Op Env} (D : Debts S ι)

/-- What a thread that owed `due` owes after its command. -/
def after (c : C β) (s t : σ) (due : Set ι) : Set ι :=
  {x | D.known t x ∧ (x ∈ due ∨ D.changed s t x) ∧ x ∉ D.pays c t}

/-- A thread with what it owes. The others leave known what is known. -/
def view (i : ℕ) (op : Op) : View C (σ × Set ι) where
  exec := fun _ c s => ((S.exec i c s.1).1, (S.exec i c s.1).2, D.after c s.1 (S.exec i c s.1).2 s.2)
  rely := fun s t => (∀ x, D.known s.1 x → D.known t.1 x) ∧ t.2 = s.2 ∧ D.rely i s.1 t.1
  assume := fun _ c s => D.assume i op c s.1
  guar := fun _ c s => D.perform op c s.2
  refl := fun s => ⟨fun _ => id, rfl, D.refl i s.1⟩
  trans := fun h₁ h₂ => ⟨fun x hx => h₂.1 x (h₁.1 x hx), h₂.2.1.trans h₁.2.1, D.trans i h₁.2.2 h₂.2.2⟩

/-- The thread owes at most `due`, and all it owes is known. -/
structure Owing (due : Set ι) (s : σ × Set ι) : Prop where
  among : s.2 ⊆ due
  known : ∀ x ∈ s.2, D.known s.1 x

/-- What is owed at the end; a program must not throw before it has paid. -/
def left (rest : α → Set ι) : Except ε α → Set ι
  | .ok a => rest a
  | .error _ => ∅

/-- From the debts `due` the program gets to the debts `rest`, and throws with none. -/
def Pays (i : ℕ) (op : Op) (due : Set ι) (p : Prog C ε α) (rest : α → Set ι) : Prop :=
  ∀ s, D.Owing due s → (D.view i op).Safe (fun r t => D.Owing (left rest r) t) p s

variable {D} {i : ℕ} {op : Op} {due due' : Set ι} {p : Prog C ε α} {f : α → Prog C ε β} {rest : α → Set ι}
  {s t : σ × Set ι}

theorem Owing.mono (h : D.Owing due s) (hle : due ⊆ due') : D.Owing due' s := ⟨h.among.trans hle, h.known⟩

theorem Owing.without {x : ι} (h : D.Owing due s) (hx : ¬ D.known s.1 x) : D.Owing (due \ {x}) s := by
  refine ⟨fun y hy => ⟨h.among hy, ?_⟩, h.known⟩
  rintro rfl
  exact hx (h.known y hy)

theorem Owing.rely (h : D.Owing due s) (hst : (D.view i op).rely s t) : D.Owing due t := by
  obtain ⟨hknown, hdue, -⟩ := hst
  constructor
  · rw [hdue]
    exact h.among
  · rw [hdue]
    exact fun x hx => hknown x (h.known x hx)

theorem stable_owing : (D.view i op).Stable (D.Owing due) := fun _ _ hst h => h.rely hst

theorem Owing.exec {c : C β} (h : D.Owing due s)
    (hchanged : ∀ x, D.known (S.exec i c s.1).2 x → D.changed s.1 (S.exec i c s.1).2 x → x ∈ due') :
    D.Owing ((due ∪ due') \ D.pays c (S.exec i c s.1).2) ((D.view i op).exec c s).2 := by
  refine ⟨?_, fun x hx => hx.1⟩
  rintro x ⟨hknown, hdue | hnews, hunpaid⟩
  · exact ⟨.inl (h.among hdue), hunpaid⟩
  · exact ⟨.inr (hchanged x hknown hnews), hunpaid⟩

theorem Owing.noNews {c : C β} (h : D.Owing due s)
    (hnone : ∀ x, D.known (S.exec i c s.1).2 x → ¬ D.changed s.1 (S.exec i c s.1).2 x) :
    D.Owing due ((D.view i op).exec c s).2 := by
  have hchanged : ∀ x, D.known (S.exec i c s.1).2 x → D.changed s.1 (S.exec i c s.1).2 x → x ∈ (∅ : Set ι) :=
    fun x hknown hnews => absurd hnews (hnone x hknown)
  refine (h.exec hchanged).mono ?_
  rw [Set.union_empty]
  exact Set.sdiff_subset

namespace Pays

theorem mono {rest' : α → Set ι} (h : D.Pays i op due' p rest) (hdue : due ⊆ due')
    (hrest : ∀ a, rest a ⊆ rest' a) : D.Pays i op due p rest' := by
  refine fun s hs => (h s (hs.mono hdue)).mono fun r t ht => ht.mono ?_
  cases r with
  | ok a => exact hrest a
  | error e => exact subset_rfl

theorem ret {a : α} (h : due ⊆ rest a) : D.Pays i op due (.ret a : Prog C ε α) rest :=
  fun _ hs => View.Safe.ret stable_owing hs fun _ ht => ht.mono h

theorem throw {e : ε} (h : due ⊆ ∅) : D.Pays i op due (.throw e : Prog C ε α) rest :=
  fun _ hs => View.Safe.throw stable_owing hs fun _ ht => ht.mono h

theorem bind {rest' : β → Set ι} (hp : D.Pays i op due p rest) (hf : ∀ a, D.Pays i op (rest a) (f a) rest') :
    D.Pays i op due (p.bind f) rest' := by
  refine fun s hs => View.Safe.bind ((hp s hs).mono fun r t ht => ?_)
  cases r with
  | ok a => exact hf a t ht
  | error e => exact ht

theorem cmd {c : C γ} {k : γ → Prog C ε α} (hc : ∀ due, D.perform op c due)
    (h : ∀ s, D.Owing due s → D.assume i op c s.1 →
      (D.view i op).Safe (fun r t => D.Owing (left rest r) t) (k (S.exec i c s.1).1) ((D.view i op).exec c s).2) :
    D.Pays i op due (.cmd c k) rest :=
  fun _ hs => View.Safe.cmd stable_owing hs fun t ht ha => ⟨hc _, h t ht ha⟩

theorem command {c : C α} (news : α → Set ι) {paid : Set ι} (hc : ∀ due, D.perform op c due)
    (hpaid : ∀ t, paid ⊆ D.pays c t)
    (h : ∀ s x, D.assume i op c s → D.known (S.exec i c s).2 x → D.changed s (S.exec i c s).2 x → x ∈ news (S.exec i c s).1) :
    D.Pays i op due (.perform c) fun a => (due ∪ news a) \ paid := by
  refine cmd hc fun s hs hassume => ret subset_rfl _ ((hs.exec fun x => h s.1 x hassume).mono ?_)
  exact Set.sdiff_subset_sdiff subset_rfl (hpaid _)

theorem tryFinally {fin : Prog C ε Unit} (hp : D.Pays i op due p rest)
    (hfin : ∀ due, D.Pays i op due fin fun _ => due) : D.Pays i op due (p.tryFinally fin) rest := by
  refine fun s hs => View.Safe.tryFinally ((hp s hs).mono fun r t ht => ?_)
  refine (hfin _ t ht).mono fun ended u hu => ?_
  cases ended with
  | ok _ => exact hu
  | error e => exact hu

theorem tryCatch {handle : ε → Prog C ε α} (hp : D.Pays i op due p rest)
    (hhandle : ∀ e, D.Pays i op ∅ (handle e) rest) : D.Pays i op due (p.tryCatch handle) rest := by
  refine fun s hs => View.Safe.tryCatch ((hp s hs).mono fun r t ht => ?_)
  cases r with
  | ok a => exact ht
  | error e => exact hhandle e t ht

/-- A handler around the program catches what is thrown without debts; the debts that the program returns with
are for the rest, in which the handler may pay them too. -/
theorem bindCatch {g : α → Prog C ε β} {handle : ε → Prog C ε β} {rest' : β → Set ι} (hp : D.Pays i op due p rest)
    (hg : ∀ a, D.Pays i op (rest a) ((g a).tryCatch handle) rest') (hhandle : ∀ e, D.Pays i op ∅ (handle e) rest') :
    D.Pays i op due ((p.bind g).tryCatch handle) rest' := by
  refine fun s hs => View.Safe.bindCatch ((hp s hs).mono fun r t ht => ?_)
  cases r with
  | ok a => exact hg a t ht
  | error e => exact hhandle e t ht

theorem forEach {g : γ → Prog C ε Unit} {xs : List γ} (hg : ∀ x, D.Pays i op ∅ (g x) fun _ => ∅) :
    D.Pays i op ∅ (Prog.forEach g xs) fun _ => ∅ := by
  induction xs with
  | nil => exact Pays.ret subset_rfl
  | cons x xs ih => exact (hg x).bind fun _ => ih

section quiet

variable {q : ⦃β : Type⦄ → C β → Prop}
  (hperform : ∀ (β : Type) (c : C β), q c → ∀ due, D.perform op c due)
  (hq : ∀ (β : Type) (c : C β) s x, q c → D.known (S.exec i c s).2 x → ¬ D.changed s (S.exec i c s).2 x)
include hperform hq

theorem quiet (hp : p.Uses q) (hn : p.NoThrow) : D.Pays i op due p fun _ => due := by
  induction p generalizing due with
  | ret a => exact Pays.ret subset_rfl
  | throw e => exact hn.elim
  | cmd c k ih =>
    exact Pays.cmd (hperform _ c hp.1) fun s hs _ => ih _ (hp.2 _) (hn _) _ (hs.noNews fun x => hq _ c s.1 x hp.1)

theorem still (hp : p.Uses q) : D.Pays i op ∅ p fun _ => ∅ := by
  induction p with
  | ret a => exact Pays.ret subset_rfl
  | throw e => exact Pays.throw subset_rfl
  | cmd c k ih =>
    exact Pays.cmd (hperform _ c hp.1) fun s hs _ => ih _ (hp.2 _) _ (hs.noNews fun x => hq _ c s.1 x hp.1)

end quiet

end Pays

/-- As `Pays`, from the stores in which `φ` holds. -/
def PaysFrom (D : Debts S ι) (i : ℕ) (op : Op) (φ : σ → Prop) (due : Set ι) (p : Prog C ε α) (rest : α → Set ι) : Prop :=
  ∀ s, D.Owing due s → φ s.1 → (D.view i op).Safe (fun r t => D.Owing (left rest r) t) p s

section given

variable {φ : σ → Prop}

theorem Pays.given (h : D.Pays i op due p rest) : D.PaysFrom i op φ due p rest := fun s hs _ => h s hs

theorem PaysFrom.mono (h : D.PaysFrom i op φ due' p rest) (hdue : due ⊆ due') : D.PaysFrom i op φ due p rest :=
  fun s hs hφ => h s (hs.mono hdue) hφ

theorem PaysFrom.bind {rest' : β → Set ι} (hp : D.PaysFrom i op φ due p rest) (hf : ∀ a, D.Pays i op (rest a) (f a) rest') :
    D.PaysFrom i op φ due (p.bind f) rest' := by
  refine fun s hs hφ => View.Safe.bind ((hp s hs hφ).mono fun r t ht => ?_)
  cases r with
  | ok a => exact hf a t ht
  | error e => exact ht

theorem PaysFrom.cmd {c : C γ} {k : γ → Prog C ε α} (hstable : ∀ s t, D.rely i s t → φ s → φ t)
    (hc : ∀ due, D.perform op c due)
    (h : ∀ s, D.Owing due s → φ s.1 → D.assume i op c s.1 →
      (D.view i op).Safe (fun r t => D.Owing (left rest r) t) (k (S.exec i c s.1).1) ((D.view i op).exec c s).2) :
    D.PaysFrom i op φ due (.cmd c k) rest := by
  have hpair : (D.view i op).Stable fun s => D.Owing due s ∧ φ s.1 :=
    fun s t hst hs => ⟨hs.1.rely hst, hstable s.1 t.1 hst.2.2 hs.2⟩
  exact fun s hs hφ => View.Safe.cmd hpair ⟨hs, hφ⟩ fun t ht ha => ⟨hc _, h t ht.1 ht.2 ha⟩

theorem PaysFrom.read {c : C γ} {k : γ → Prog C ε α} (hstable : ∀ s t, D.rely i s t → φ s → φ t)
    (hc : ∀ due, D.perform op c due) (hkeeps : ∀ s, φ s → φ (S.exec i c s).2)
    (hnone : ∀ s x, D.known (S.exec i c s).2 x → ¬ D.changed s (S.exec i c s).2 x)
    (hk : ∀ a, D.PaysFrom i op φ due (k a) rest) : D.PaysFrom i op φ due ((Prog.perform c).bind k) rest :=
  PaysFrom.cmd hstable hc fun s hs hφ _ => hk _ _ (hs.noNews (hnone s.1)) (hkeeps s.1 hφ)

end given

/-- What each thread of the pool owes, and that it is going to pay. -/
structure Holds (D : Debts S ι) (p : Pool C ε σ Op) (due : ℕ → Set ι) : Prop where
  pays : ∀ i op (rest : Prog C ε Unit), p.threads[i]? = some (op, rest) →
    (D.view i op).Safe (fun _ t => D.Owing ∅ t) rest (p.store, due i)
  none : ∀ i, p.threads.length ≤ i → due i = ∅

theorem holds_empty {s : σ} : D.Holds ⟨s, []⟩ fun _ => ∅ :=
  ⟨fun i op rest hi => by simp at hi, fun _ _ => rfl⟩

section pool

variable {p q : Pool C ε σ Op} {debts : ℕ → Set ι} {a : Action Op Env}

theorem Holds.ended (h : D.Holds p debts) {i : ℕ} {op : Op} {rest : Prog C ε Unit}
    (hi : p.threads[i]? = some (op, rest)) (hend : ∀ (β : Type) (c : C β) k, rest ≠ .cmd c k) : debts i = ∅ := by
  have hsafe : (D.view i op).Safe (fun _ t => D.Owing ∅ t) rest (p.store, debts i) := h.pays i op rest hi
  cases rest with
  | ret u => exact Set.subset_empty_iff.mp (hsafe _ ((D.view i op).refl _)).among
  | throw e => exact Set.subset_empty_iff.mp (hsafe _ ((D.view i op).refl _)).among
  | cmd c k => exact absurd rfl (hend _ c k)

/-- Who owes something has a command left. -/
theorem Holds.running (h : D.Holds p debts) {i : ℕ} {x : ι} (hx : x ∈ debts i) :
    ∃ (op : Op) (β : Type) (c : C β) (k : β → Prog C ε Unit), p.threads[i]? = some (op, .cmd c k) := by
  by_contra hnot
  push Not at hnot
  have hnone : debts i = ∅ := by
    cases hthread : p.threads[i]? with
    | none => exact h.none i (List.getElem?_eq_none_iff.mp hthread)
    | some thread => exact h.ended hthread fun β c k heq => hnot thread.1 β c k (by rw [hthread, ← heq])
  rw [hnone] at hx
  exact hx

theorem Holds.perform (h : D.Holds p debts) {i : ℕ} {op : Op} {c : C β} {k : β → Prog C ε Unit}
    (hi : p.threads[i]? = some (op, .cmd c k)) (hassume : D.assume i op c p.store) : D.perform op c (debts i) :=
  (h.pays i op _ hi _ ((D.view i op).refl _) hassume).1

/-- The debts after one action: the thread that made a step owes what the step left to pay, and the others
owe what they owed. -/
structure Moves (D : Debts S ι) (p : Pool C ε σ Op) (a : Action Op Env) (q : Pool C ε σ Op) (debts debts' : ℕ → Set ι) :
    Prop where
  others : ∀ i, a ≠ .step i → debts' i = debts i
  stepped : ∀ (i : ℕ) op (β : Type) (c : C β) k, a = .step i → p.threads[i]? = some (op, .cmd c k) →
    debts' i = D.after c p.store q.store (debts i)

/-- What the threads assume of an action: its own thread of the command, the others of the change. -/
structure Allows (D : Debts S ι) (p : Pool C ε σ Op) (a : Action Op Env) (q : Pool C ε σ Op) : Prop where
  assume : ∀ (i : ℕ) op (β : Type) (c : C β) k, a = .step i → p.threads[i]? = some (op, .cmd c k) →
    D.assume i op c p.store
  rely : ∀ i, a ≠ .step i → i < p.threads.length → D.rely i p.store q.store

theorem Allows.always (hassume : ∀ i op (β : Type) (c : C β) s, D.assume i op c s) (hrely : ∀ i s t, D.rely i s t) :
    D.Allows p a q := ⟨fun i op β c _ _ _ => hassume i op β c _, fun i _ _ => hrely i _ _⟩

theorem Holds.next (hcode : ∀ i op, D.Pays i op ∅ (S.code op) fun _ => ∅) (h : D.Holds p debts)
    (hnext : S.next p a = some q) (hknown : ∀ x, D.known p.store x → D.known q.store x) (hallows : D.Allows p a q) :
    ∃ debts', D.Holds q debts' ∧ D.Moves p a q debts debts' := by
  cases a with
  | call op =>
    have hstore : q.store = p.store := by
      cases hnext
      rfl
    have hlength : q.threads.length = p.threads.length + 1 := by
      cases hnext
      exact List.length_append ..
    refine ⟨debts, ⟨fun i op' rest hi => ?_, fun i hi => h.none i (by omega)⟩, fun _ _ => rfl, fun _ _ _ _ _ hstep => by cases hstep⟩
    rw [hstore]
    rcases System.next_thread hnext hi with ⟨hbefore, -⟩ | ⟨-, rfl, rfl⟩ | ⟨hstep, -⟩
    · exact h.pays i op' rest hbefore
    · -- a new thread owes nothing yet
      have hnone : debts p.threads.length = ∅ := h.none _ le_rfl
      have howing : D.Owing ∅ (p.store, debts p.threads.length) := by
        rw [hnone]
        exact ⟨subset_rfl, fun x hx => hx.elim⟩
      refine (hcode _ op' _ howing).mono fun r t ht => ?_
      cases r <;> exact ht
    · cases hstep
  | env e =>
    obtain ⟨t, -, rfl⟩ := Option.map_eq_some_iff.mp hnext
    refine ⟨debts, ⟨fun i op rest hi => ?_, h.none⟩, fun _ _ => rfl, fun _ _ _ _ _ hstep => by cases hstep⟩
    have hlt : i < p.threads.length := (List.getElem?_eq_some_iff.mp hi).1
    exact (h.pays i op rest hi).rely ⟨hknown, rfl, hallows.rely i (fun heq => by cases heq) hlt⟩
  | step i =>
    obtain ⟨op, β, c, k, hi, hstore, hthreads⟩ := System.next_step hnext
    have hassume : D.assume i op c p.store := hallows.assume i op β c k rfl hi
    have hlt : i < p.threads.length := (List.getElem?_eq_some_iff.mp hi).1
    refine ⟨Function.update debts i (D.after c p.store q.store (debts i)), ⟨fun j op' rest hj => ?_, fun j hj => ?_⟩,
      fun j hj => ?_, fun j op' β' c' k' hstep hi' => ?_⟩
    · rw [hthreads] at hj
      rcases eq_or_ne i j with rfl | hne
      · rw [List.getElem?_set_self hlt, Option.some.injEq, Prod.mk.injEq] at hj
        obtain ⟨rfl, rfl⟩ := hj
        have hrest := (h.pays i op _ hi _ ((D.view i op).refl _) hassume).2
        rw [Function.update_self, hstore]
        exact hrest
      · rw [List.getElem?_set_ne hne] at hj
        rw [Function.update_of_ne hne.symm]
        have hother : Action.step i ≠ (Action.step j : Action Op Env) := fun heq => hne (Action.step.inj heq)
        have hlt' : j < p.threads.length := (List.getElem?_eq_some_iff.mp hj).1
        exact (h.pays j op' rest hj).rely ⟨hknown, rfl, hallows.rely j hother hlt'⟩
    · rw [hthreads, List.length_set] at hj
      have hne : j ≠ i := by omega
      rw [Function.update_of_ne hne]
      exact h.none j hj
    · exact Function.update_of_ne (fun heq => hj (congrArg Action.step heq.symm)) _ _
    · cases hstep
      rw [hi] at hi'
      cases hi'
      exact Function.update_self ..

/-- Whatever is outstanding, some thread owes. -/
structure Covers (D : Debts S ι) (outstanding : σ → ι → Prop) (p : Pool C ε σ Op) (debts : ℕ → Set ι) : Prop where
  holds : D.Holds p debts
  owed : ∀ x, outstanding p.store x → ∃ i, x ∈ debts i

/-- What is outstanding was so before or is news, and it is not what was paid. -/
structure Sound (D : Debts S ι) (outstanding : σ → ι → Prop) : Prop where
  code : ∀ i op, D.Pays i op ∅ (S.code op) fun _ => ∅
  known : ∀ i (β : Type) (c : C β) s x, D.known s x → D.known (S.exec i c s).2 x
  event : ∀ e s t x, S.env e s = some t → (D.known s x → D.known t x) ∧ (outstanding t x → outstanding s x)
  exec : ∀ i (β : Type) (c : C β) s x, outstanding (S.exec i c s).2 x → D.known (S.exec i c s).2 x ∧
    (outstanding s x ∨ D.changed s (S.exec i c s).2 x) ∧ x ∉ D.pays c (S.exec i c s).2

variable {outstanding : σ → ι → Prop}

theorem Sound.stays (hD : D.Sound outstanding) (hnext : S.next p a = some q) {x : ι} (hx : D.known p.store x) :
    D.known q.store x := by
  cases a with
  | call op =>
    cases hnext
    exact hx
  | env e =>
    obtain ⟨t, ht, rfl⟩ := Option.map_eq_some_iff.mp hnext
    exact (hD.event e _ _ x ht).1 hx
  | step i =>
    obtain ⟨op, β, c, k, -, hstore, -⟩ := System.next_step hnext
    rw [hstore]
    exact hD.known i β c _ x hx

theorem Covers.next (hD : D.Sound outstanding) (h : D.Covers outstanding p debts) (hnext : S.next p a = some q)
    (hallows : D.Allows p a q) : ∃ debts', D.Covers outstanding q debts' ∧ D.Moves p a q debts debts' := by
  obtain ⟨debts', hholds, hmoves⟩ := h.holds.next hD.code hnext (fun _ => hD.stays hnext) hallows
  obtain ⟨hothers, hstep⟩ := hmoves
  refine ⟨debts', ⟨hholds, fun x hx => ?_⟩, hothers, hstep⟩
  cases a with
  | call op =>
    cases hnext
    obtain ⟨i, hi⟩ := h.owed x hx
    exact ⟨i, by rw [hothers i (fun h => by cases h)]; exact hi⟩
  | env e =>
    obtain ⟨t, ht, rfl⟩ := Option.map_eq_some_iff.mp hnext
    obtain ⟨i, hi⟩ := h.owed x ((hD.event e _ _ x ht).2 hx)
    exact ⟨i, by rw [hothers i (fun h => by cases h)]; exact hi⟩
  | step j =>
    obtain ⟨op, β, c, k, hj, hstore, -⟩ := System.next_step hnext
    have hdebts := hstep j op β c k rfl hj
    rw [hstore] at hx hdebts
    obtain ⟨hknown, hbefore, hunpaid⟩ := hD.exec j β c _ x hx
    rcases hbefore with hbefore | hnews
    · obtain ⟨i, hi⟩ := h.owed x hbefore
      rcases eq_or_ne i j with rfl | hne
      · refine ⟨i, ?_⟩
        rw [hdebts]
        exact ⟨hknown, .inl hi, hunpaid⟩
      · exact ⟨i, by rw [hothers i (fun h => hne (Action.step.inj h).symm)]; exact hi⟩
    · refine ⟨j, ?_⟩
      rw [hdebts]
      exact ⟨hknown, .inr hnews, hunpaid⟩

theorem Covers.run (hD : D.Sound outstanding) {ok : Pool C ε σ Op → Action Op Env → Prop} {as : List (Action Op Env)}
    {s : σ} {I : Pool C ε σ Op → Prop} (hI : I ⟨s, []⟩)
    (hallows : ∀ m c m', I m → ok m c → S.next m c = some m' → I m' ∧ D.Allows m c m')
    (hrun : S.Run ok ⟨s, []⟩ as q) (hs : ∀ x, ¬ outstanding s x) : ∃ debts, D.Covers outstanding q debts := by
  have hstart : ∃ debts, D.Covers outstanding (⟨s, []⟩ : Pool C ε σ Op) debts :=
    ⟨fun _ => ∅, holds_empty, fun x hx => absurd hx (hs x)⟩
  have hend : I q ∧ ∃ debts, D.Covers outstanding q debts := by
    refine hrun.invariant (I := fun q => I q ∧ ∃ debts, D.Covers outstanding q debts) ⟨hI, hstart⟩ ?_
    rintro m c m' ⟨hm, debts, hdebts⟩ hok hnext
    obtain ⟨hm', hallow⟩ := hallows m c m' hm hok hnext
    obtain ⟨debts', hdebts', -⟩ := hdebts.next hD hnext hallow
    exact ⟨hm', debts', hdebts'⟩
  exact hend.2

theorem Covers.running (h : D.Covers outstanding p debts) {x : ι} (hx : outstanding p.store x) :
    ∃ (i : ℕ) (op : Op) (β : Type) (c : C β) (k : β → Prog C ε Unit), p.threads[i]? = some (op, .cmd c k) := by
  obtain ⟨i, hi⟩ := h.owed x hx
  exact ⟨i, h.holds.running hi⟩

/-- What a thread owes, it pays before it ends. -/
theorem Holds.settles (hD : D.Sound outstanding) (hallows : ∀ m c m', D.Allows m c m')
    {ok : Pool C ε σ Op → Action Op Env → Prop} {as : List (Action Op Env)} (hrun : S.Run ok p as q) (h : D.Holds p debts)
    {i : ℕ} {x : ι} (hx : x ∈ debts i) (hknown : D.known p.store x)
    (hend : ∀ op (β : Type) (c : C β) k, q.threads[i]? ≠ some (op, .cmd c k)) :
    ∃ (bs cs : List (Action Op Env)) (m : Pool C ε σ Op) (op : Op) (β : Type) (c : C β) (k : β → Prog C ε Unit),
      as = bs ++ .step i :: cs ∧ S.Run ok p bs m ∧ m.threads[i]? = some (op, .cmd c k) ∧
        x ∈ D.pays c (S.exec i c m.store).2 := by
  induction hrun generalizing debts with
  | nil p =>
    obtain ⟨op, β, c, k, hthread⟩ := h.running hx
    exact absurd hthread (hend op β c k)
  | @cons p m q a as hok hnext rest ih =>
    obtain ⟨debts', hholds, hmoves⟩ := h.next hD.code hnext (fun _ => hD.stays hnext) (hallows _ _ _)
    -- as long as the debt stays, the rest of the run pays it
    have hlater : x ∈ debts' i → ∃ (bs cs : List (Action Op Env)) (m' : Pool C ε σ Op) (op : Op) (β : Type) (c : C β)
        (k : β → Prog C ε Unit), a :: as = bs ++ .step i :: cs ∧ S.Run ok p bs m' ∧
          m'.threads[i]? = some (op, .cmd c k) ∧ x ∈ D.pays c (S.exec i c m'.store).2 := by
      intro hx'
      obtain ⟨bs, cs, m', op, β, c, k, rfl, hbs, hrest⟩ := ih hholds hx' (hD.stays hnext hknown) hend
      exact ⟨a :: bs, cs, m', op, β, c, k, rfl, .cons hok hnext hbs, hrest⟩
    by_cases ha : a = .step i
    · subst ha
      obtain ⟨op, β, c, k, hi, hstore, -⟩ := System.next_step hnext
      by_cases hpaid : x ∈ D.pays c (S.exec i c p.store).2
      · exact ⟨[], as, p, op, β, c, k, rfl, .nil p, hi, hpaid⟩
      · refine hlater ?_
        rw [hmoves.stepped i op β c k rfl hi]
        exact ⟨hD.stays hnext hknown, .inl hx, by rw [hstore]; exact hpaid⟩
    · refine hlater ?_
      rw [hmoves.others i ha]
      exact hx

/-- Every debt has one debtor, and all that is owed is known. -/
structure Exclusive (D : Debts S ι) (p : Pool C ε σ Op) (debts : ℕ → Set ι) : Prop where
  known : ∀ i, ∀ x ∈ debts i, D.known p.store x
  apart : ∀ i j x, x ∈ debts i → x ∈ debts j → i = j

/-- Where all news are of what was not known before, debts stay apart. -/
theorem Exclusive.next (hD : D.Sound outstanding) (hnews : ∀ s t x, D.changed s t x → ¬ D.known s x)
    (h : D.Exclusive p debts) (hnext : S.next p a = some q) {debts' : ℕ → Set ι} (hmoves : D.Moves p a q debts debts') :
    D.Exclusive q debts' := by
  have horigin : ∀ i, ∀ x ∈ debts' i, D.known q.store x ∧ (x ∈ debts i ∨ a = .step i ∧ ¬ D.known p.store x) := by
    intro i x hx
    by_cases ha : a = .step i
    · subst ha
      obtain ⟨op, β, c, k, hi, -, -⟩ := System.next_step hnext
      rw [hmoves.stepped i op β c k rfl hi] at hx
      obtain ⟨hknown, hdue | hchanged, -⟩ := hx
      · exact ⟨hknown, .inl hdue⟩
      · exact ⟨hknown, .inr ⟨rfl, hnews _ _ x hchanged⟩⟩
    · rw [hmoves.others i ha] at hx
      exact ⟨hD.stays hnext (h.known i x hx), .inl hx⟩
  refine ⟨fun i x hx => (horigin i x hx).1, fun i j x hi hj => ?_⟩
  rcases (horigin i x hi).2 with hi | ⟨hstep, hunknown⟩
  · rcases (horigin j x hj).2 with hj | ⟨-, hunknown⟩
    · exact h.apart i j x hi hj
    · exact absurd (h.known i x hi) hunknown
  · rcases (horigin j x hj).2 with hj | ⟨hstep', -⟩
    · exact absurd (h.known j x hj) hunknown
    · exact Action.step.inj (hstep.symm.trans hstep')

end pool

end Debts
end Concurrent
