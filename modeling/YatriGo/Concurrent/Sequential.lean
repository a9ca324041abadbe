import YatriGo.Concurrent.Solo

/-! Operations that run one at a time, each to its end before the next. What can happen
to the store while an operation runs is a relation, so that time may pass meanwhile. -/

namespace Concurrent

variable {C : Type → Type} {ε σ α Op Env : Type}

/-- No thread has a command left. -/
def Pool.idle (p : Pool C ε σ Op) : Bool := p.threads.all fun thread => thread.2.ended

/-- All threads but `i` have ended. -/
def Pool.IdleBut (p : Pool C ε σ Op) (i : ℕ) : Prop :=
  ∀ (j : ℕ) op (rest : Prog C ε Unit), p.threads[j]? = some (op, rest) → j ≠ i → rest.ended = true

section idle

variable {p : Pool C ε σ Op} {i : ℕ} {op : Op} {rest : Prog C ε Unit}

theorem Pool.idle.ended (h : p.idle = true) (hi : p.threads[i]? = some (op, rest)) :
    rest.ended = true := by
  have hmem : (op, rest) ∈ p.threads := List.mem_of_getElem? hi
  exact List.all_eq_true.mp h _ hmem

theorem Pool.IdleBut.push (h : p.idle = true) (op : Op) (rest : Prog C ε Unit) (s : σ) :
    (⟨s, p.threads ++ [(op, rest)]⟩ : Pool C ε σ Op).IdleBut p.threads.length := by
  intro j op' rest' hj hne
  rcases Nat.lt_or_ge j p.threads.length with hlt | hge
  · rw [List.getElem?_append_left hlt] at hj
    exact Pool.idle.ended h hj
  · have hlen : (p.threads ++ [(op, rest)]).length ≤ j := by
      rw [List.length_append, List.length_singleton]
      omega
    rw [List.getElem?_eq_none hlen] at hj
    cases hj

theorem Pool.IdleBut.set (h : p.IdleBut i) (op : Op) (rest : Prog C ε Unit) (s : σ) :
    (⟨s, p.threads.set i (op, rest)⟩ : Pool C ε σ Op).IdleBut i := by
  intro j op' rest' hj hne
  rw [List.getElem?_set_ne hne.symm] at hj
  exact h j op' rest' hj hne

end idle

/-- `inv` is the invariant between operations. While one runs, the store moves by `drift`
between its commands, through the `calm` events only, and its commands meet `assume`. -/
structure Serial (S : System C ε σ Op Env) where
  inv : σ → Prop
  drift : σ → σ → Prop
  assume : ⦃β : Type⦄ → C β → σ → Prop
  okOp : Op → Prop
  calm : Env → Prop
  refl : ∀ s, drift s s
  trans : ∀ {s t u}, drift s t → drift t u → drift s u

namespace Serial

variable {S : System C ε σ Op Env} (K : Serial S)

def view (i : ℕ) : View C σ where
  exec := fun _ c s => S.exec i c s
  rely := K.drift
  assume := K.assume
  guar := fun _ _ _ => True
  refl := K.refl
  trans := K.trans

/-- The actions of a run in which the operations come one after the other. -/
def Ok (p : Pool C ε σ Op) : Action Op Env → Prop
  | .call op => p.idle = true ∧ K.okOp op
  | .step i => ∀ op (β : Type) (c : C β) k,
      p.threads[i]? = some (op, .cmd c k) → K.assume c p.store
  | .env e => K.calm e ∨ p.idle = true

/-- Each operation, run alone, leads from the invariant to the invariant. -/
structure Sound : Prop where
  alone : ∀ op i s, K.okOp op → K.inv s → (K.view i).Safe (fun _ => K.inv) (S.code op) s
  event : ∀ e s t, K.inv s → S.env e s = some t → K.inv t
  calm : ∀ e s t, K.calm e → S.env e s = some t → K.drift s t

/-- Between operations the invariant holds; the operation that runs is safe. -/
inductive Holds (p : Pool C ε σ Op) : Prop
  | between (hidle : p.idle = true) (hinv : K.inv p.store)
  | during (i : ℕ) (op : Op) (rest : Prog C ε Unit) (hi : p.threads[i]? = some (op, rest))
      (hrest : rest.ended = false) (others : p.IdleBut i)
      (safe : (K.view i).Safe (fun _ => K.inv) rest p.store)

variable {K} {p q : Pool C ε σ Op}

theorem not_idle {i : ℕ} {op : Op} {rest : Prog C ε Unit} (hi : p.threads[i]? = some (op, rest))
    (hrest : rest.ended = false) : p.idle = false := by
  rw [Bool.eq_false_iff]
  intro hidle
  rw [Pool.idle.ended hidle hi] at hrest
  cases hrest

theorem Holds.of_safe {i : ℕ} {op : Op} {rest : Prog C ε Unit} (hi : p.threads[i]? = some (op, rest))
    (others : p.IdleBut i) (safe : (K.view i).Safe (fun _ => K.inv) rest p.store) : K.Holds p := by
  cases hrest : rest.ended with
  | false => exact .during i op rest hi hrest others safe
  | true =>
    refine .between (List.all_eq_true.mpr ?_) ?_
    · rintro ⟨op', rest'⟩ hmem
      obtain ⟨j, hj⟩ := List.mem_iff_getElem?.mp hmem
      rcases eq_or_ne j i with rfl | hne
      · rw [hi] at hj
        cases hj
        exact hrest
      · exact others j op' rest' hj hne
    · cases rest with
      | ret a => exact safe p.store (K.refl _)
      | throw e => exact safe p.store (K.refl _)
      | cmd c k => cases hrest

theorem Holds.next (hK : K.Sound) (h : K.Holds p) {a : Action Op Env} (hok : K.Ok p a)
    (hnext : S.next p a = some q) : K.Holds q := by
  cases a with
  | call op =>
    obtain ⟨hidle, hop⟩ := hok
    have hinv : K.inv p.store := by
      cases h with
      | between _ hinv => exact hinv
      | during i op rest hi hrest =>
        rw [not_idle hi hrest] at hidle
        cases hidle
    simp only [System.next, Option.some.injEq] at hnext
    subst hnext
    exact Holds.of_safe List.getElem?_concat_length (Pool.IdleBut.push hidle _ _ _)
      (hK.alone op _ _ hop hinv)
  | step i =>
    obtain ⟨op, β, c, k, hi, hs, ht⟩ := System.next_step hnext
    cases h with
    | between hidle _ =>
      have hended : (Prog.cmd c k).ended = true := Pool.idle.ended hidle hi
      cases hended
    | during j op' rest hj hrest others safe =>
      rcases eq_or_ne i j with rfl | hne
      · rw [hi] at hj
        cases hj
        have hlt : i < p.threads.length := (List.getElem?_eq_some_iff.mp hi).1
        have hk : (K.view i).Safe (fun _ => K.inv) (k (S.exec i c p.store).1) (S.exec i c p.store).2 :=
          (safe p.store (K.refl _) (hok op β c k hi)).2
        obtain ⟨store, threads⟩ := q
        obtain rfl : store = _ := hs
        obtain rfl : threads = _ := ht
        exact Holds.of_safe (List.getElem?_set_self hlt) (others.set _ _ _) hk
      · have hended : (Prog.cmd c k).ended = true := others i op _ hi hne
        cases hended
  | env e =>
    simp only [System.next, Option.map_eq_some_iff] at hnext
    obtain ⟨t, hst, rfl⟩ := hnext
    cases h with
    | between hidle hinv => exact .between hidle (hK.event e _ _ hinv hst)
    | during i op rest hi hrest others safe =>
      rcases hok with hcalm | hidle
      · exact .during i op rest hi hrest others (safe.rely (hK.calm e _ _ hcalm hst))
      · rw [not_idle hi hrest] at hidle
        cases hidle

theorem Sound.run (hK : K.Sound) {ok : Pool C ε σ Op → Action Op Env → Prop}
    (hok : ∀ p a, ok p a → K.Ok p a) {as : List (Action Op Env)} (h : S.Run ok p as q)
    (hp : K.Holds p) (hidle : q.idle = true) : K.inv q.store := by
  have hq : K.Holds q := h.invariant hp fun _ _ _ hI ha hnext => hI.next hK (hok _ _ ha) hnext
  cases hq with
  | between _ hinv => exact hinv
  | during i op rest hi hrest =>
    rw [not_idle hi hrest] at hidle
    cases hidle

theorem holds_empty {s : σ} (h : K.inv s) : K.Holds (⟨s, []⟩ : Pool C ε σ Op) := .between rfl h

end Serial
end Concurrent
