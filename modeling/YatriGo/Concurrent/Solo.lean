import YatriGo.Concurrent.RelyGuarantee

/-! A program that runs alone: its end, the points at which it can be cut, and the run of
the pool in which only its thread takes steps. -/

namespace Concurrent

namespace Prog

variable {C : Type → Type} {ε σ α β γ : Type} (exec : ⦃β : Type⦄ → C β → σ → β × σ)

/-- How the program ends, and the store it leaves. -/
def finish : Prog C ε α → σ → Except ε α × σ
  | .ret a, s => (.ok a, s)
  | .throw e, s => (.error e, s)
  | .cmd c k, s => (k (exec c s).1).finish (exec c s).2

/-- What is left of the program after its first `n` commands, and the store there. -/
def advance : ℕ → Prog C ε α → σ → Prog C ε α × σ
  | n + 1, .cmd c k, s => advance n (k (exec c s).1) (exec c s).2
  | _, p, s => (p, s)

/-- Whether no command is left. -/
def ended : Prog C ε α → Bool
  | .cmd _ _ => false
  | _ => true

/-- Goes on with `f` after a program that has returned. -/
def resume (f : α → Prog C ε β) : Except ε α × σ → Except ε β × σ
  | (.ok a, s) => (f a).finish exec s
  | (.error e, s) => (.error e, s)

variable {exec}

@[simp] theorem finish_ret (a : α) (s : σ) :
    (Prog.ret a : Prog C ε α).finish exec s = (.ok a, s) := rfl

@[simp] theorem finish_throw (e : ε) (s : σ) :
    (Prog.throw e : Prog C ε α).finish exec s = (.error e, s) := rfl

@[simp] theorem finish_cmd (c : C γ) (k : γ → Prog C ε α) (s : σ) :
    (Prog.cmd c k).finish exec s = (k (exec c s).1).finish exec (exec c s).2 := rfl

@[simp] theorem resume_ok (f : α → Prog C ε β) (a : α) (s : σ) :
    resume exec f (.ok a, s) = (f a).finish exec s := rfl

@[simp] theorem resume_error (f : α → Prog C ε β) (e : ε) (s : σ) :
    resume exec f (.error e, s) = (.error e, s) := rfl

theorem finish_bind (p : Prog C ε α) (f : α → Prog C ε β) (s : σ) :
    (p.bind f).finish exec s = resume exec f (p.finish exec s) := by
  induction p generalizing s with
  | ret a => rfl
  | throw e => rfl
  | cmd c k ih =>
    simp only [cmd_bind, finish_cmd]
    exact ih _ _

theorem finish_forEach {f : β → Prog C ε Unit} {turn : σ → β → σ}
    (hf : ∀ x s, (f x).finish exec s = (.ok (), turn s x)) (xs : List β) (s : σ) :
    (forEach f xs).finish exec s = (.ok (), xs.foldl turn s) := by
  induction xs generalizing s with
  | nil => rfl
  | cons x xs ih =>
    simp only [forEach, finish_bind, hf, resume_ok, List.foldl_cons]
    exact ih _

/-- How far a loop gets that does not begin an element that fails to pass, and ends with one that breaks it off. -/
def loopDone (pass : β → Bool) (breaks : List β → β → Bool) (done : List β) : List β → List β
  | [] => done
  | x :: xs =>
    if pass x then if breaks done x then done ++ [x] else loopDone pass breaks (done ++ [x]) xs
    else done

/-- A loop keeps `I` as long as it goes on, and leaves `J` where it ends. -/
theorem finish_forEach_loopDone {f : β → Prog C ε Unit} {pass : β → Bool} {breaks : List β → β → Bool}
    {I J : List β → σ → Prop} (weaken : ∀ done s, I done s → J done s)
    (step : ∀ done x s, I done s → pass x = true → breaks done x = false →
      ∃ t, (f x).finish exec s = (.ok (), t) ∧ I (done ++ [x]) t)
    (breakOff : ∀ done x s, I done s → pass x = true → breaks done x = true →
      ∃ e t, (f x).finish exec s = (.error e, t) ∧ J (done ++ [x]) t)
    (stop : ∀ done x s, I done s → pass x = false → ∃ e t, (f x).finish exec s = (.error e, t) ∧ J done t)
    (xs done : List β) (s : σ) (h : I done s) :
    J (loopDone pass breaks done xs) ((forEach f xs).finish exec s).2 := by
  induction xs generalizing done s with
  | nil => exact weaken done s h
  | cons x xs ih =>
    rw [forEach, finish_bind, loopDone]
    cases hx : pass x with
    | true =>
      cases hbreaks : breaks done x with
      | false =>
        obtain ⟨t, hfinish, ht⟩ := step done x s h hx hbreaks
        rw [hfinish, resume_ok]
        exact ih (done ++ [x]) t ht
      | true =>
        obtain ⟨e, t, hfinish, ht⟩ := breakOff done x s h hx hbreaks
        rw [hfinish, resume_error]
        exact ht
    | false =>
      obtain ⟨e, t, hfinish, ht⟩ := stop done x s h hx
      rw [hfinish, resume_error]
      exact ht

theorem Uses.finish {q : ⦃β : Type⦄ → C β → Prop} {R : σ → σ → Prop} {p : Prog C ε α} (hp : p.Uses q)
    (refl : ∀ s, R s s) (trans : ∀ s t u, R s t → R t u → R s u)
    (step : ∀ (γ : Type) (c : C γ) s, q c → R s (exec c s).2) (s : σ) : R s (p.finish exec s).2 := by
  induction p generalizing s with
  | ret a => exact refl s
  | throw e => exact refl s
  | cmd c k ih => exact trans _ _ _ (step _ c s hp.1) (ih _ (hp.2 _) _)

theorem advance_zero (p : Prog C ε α) (s : σ) : p.advance exec 0 s = (p, s) := by
  cases p <;> rfl

theorem advance_succ (c : C γ) (k : γ → Prog C ε α) (n : ℕ) (s : σ) :
    (Prog.cmd c k).advance exec (n + 1) s = (k (exec c s).1).advance exec n (exec c s).2 := rfl

theorem finish_advance (p : Prog C ε α) (n : ℕ) (s : σ) :
    (p.advance exec n s).1.finish exec (p.advance exec n s).2 = p.finish exec s := by
  induction p generalizing n s with
  | ret a => cases n <;> rfl
  | throw e => cases n <;> rfl
  | cmd c k ih =>
    cases n with
    | zero => rfl
    | succ n =>
      rw [advance_succ, finish_cmd]
      exact ih _ _ _

theorem finish_of_ended {p : Prog C ε α} (h : p.ended = true) (s : σ) : (p.finish exec s).2 = s := by
  cases p with
  | ret a => rfl
  | throw e => rfl
  | cmd c k => cases h

theorem advance_of_ended {p : Prog C ε α} {n : ℕ} {s : σ} (h : (p.advance exec n s).1.ended = true) :
    (p.advance exec n s).2 = (p.finish exec s).2 := by
  rw [← finish_advance p n s]
  exact (finish_of_ended h _).symm

theorem exists_ended (p : Prog C ε α) (s : σ) : ∃ n, (p.advance exec n s).1.ended = true := by
  induction p generalizing s with
  | ret a => exact ⟨0, rfl⟩
  | throw e => exact ⟨0, rfl⟩
  | cmd c k ih =>
    obtain ⟨n, hn⟩ := ih (exec c s).1 (exec c s).2
    exact ⟨n + 1, hn⟩

/-- What `look` notes of the commands of the program that runs alone. -/
def visits {γ : Type} (exec : ⦃β : Type⦄ → C β → σ → β × σ) (look : ⦃β : Type⦄ → C β → σ → List γ) :
    Prog C ε α → σ → List γ
  | .cmd c k, s => look c s ++ (k (exec c s).1).visits exec look (exec c s).2
  | _, _ => []

/-- Run alone from `s`, the program ends in `r` and leaves `t`, with `notes` taken on the way. -/
structure Ends {γ : Type} (exec : ⦃β : Type⦄ → C β → σ → β × σ) (look : ⦃β : Type⦄ → C β → σ → List γ)
    (p : Prog C ε α) (s : σ) (r : Except ε α) (t : σ) (notes : List γ) : Prop where
  finish : p.finish exec s = (r, t)
  visits : p.visits exec look s = notes

section Ends

variable {δ : Type} {look : ⦃β : Type⦄ → C β → σ → List δ} {p : Prog C ε α} {f : α → Prog C ε β}
  {a : α} {e : ε} {r : Except ε β} {s t u : σ} {notes notes' : List δ}

theorem visits_bind (p : Prog C ε α) (f : α → Prog C ε β) (s : σ) :
    (p.bind f).visits exec look s = p.visits exec look s ++
      match p.finish exec s with
      | (.ok a, t) => (f a).visits exec look t
      | (.error _, _) => [] := by
  induction p generalizing s with
  | ret a => rfl
  | throw e => rfl
  | cmd c k ih =>
    simp only [cmd_bind, visits, finish_cmd, List.append_assoc]
    exact congrArg _ (ih _ _)

theorem Ends.ret : (Prog.ret a : Prog C ε α).Ends exec look s (.ok a) s [] := ⟨rfl, rfl⟩

theorem Ends.throw : (Prog.throw e : Prog C ε α).Ends exec look s (.error e) s [] := ⟨rfl, rfl⟩

theorem Ends.cmd {γ : Type} {c : C γ} {k : γ → Prog C ε β} (h : (k (exec c s).1).Ends exec look (exec c s).2 r t notes) :
    (Prog.cmd c k).Ends exec look s r t (look c s ++ notes) :=
  ⟨h.finish, congrArg (look c s ++ ·) h.visits⟩

theorem Ends.cmd_of_eq {γ : Type} {c : C γ} {k : γ → Prog C ε β} {b : γ} (hexec : exec c s = (b, t))
    (h : (k b).Ends exec look t r u notes) : (Prog.cmd c k).Ends exec look s r u (look c s ++ notes) := by
  apply Ends.cmd
  rw [hexec]
  exact h

theorem Ends.cmd_unseen {γ : Type} {c : C γ} {k : γ → Prog C ε β} {b : γ} (hlook : look c s = [])
    (hexec : exec c s = (b, t)) (h : (k b).Ends exec look t r u notes) : (Prog.cmd c k).Ends exec look s r u notes := by
  have hcmd := Ends.cmd_of_eq hexec h
  rw [hlook] at hcmd
  exact hcmd

theorem Ends.bind (hp : p.Ends exec look s (.ok a) t notes) (hf : (f a).Ends exec look t r u notes') :
    (p.bind f).Ends exec look s r u (notes ++ notes') := by
  constructor
  · rw [finish_bind, hp.finish, resume_ok, hf.finish]
  · rw [visits_bind, hp.finish, hp.visits]
    exact congrArg (notes ++ ·) hf.visits

theorem Ends.bind_error (hp : p.Ends exec look s (.error e) t notes) :
    (p.bind f).Ends exec look s (.error e) t notes := by
  constructor
  · rw [finish_bind, hp.finish, resume_error]
  · rw [visits_bind, hp.finish, hp.visits, List.append_nil]

/-- `fin` runs after `p`, however `p` ends. -/
theorem Ends.tryFinally {fin : Prog C ε Unit} {q : Except ε α} (hp : p.Ends exec look s q t notes)
    (hfin : fin.Ends exec look t (.ok ()) u notes') : (p.tryFinally fin).Ends exec look s q u (notes ++ notes') := by
  induction p generalizing s notes with
  | ret a =>
    obtain ⟨hfinish, rfl⟩ := hp
    cases hfinish
    have hall := Ends.bind (f := fun _ => (Prog.ret a : Prog C ε α)) hfin .ret
    rw [List.append_nil] at hall
    exact hall
  | throw e =>
    obtain ⟨hfinish, rfl⟩ := hp
    cases hfinish
    have hall := Ends.bind (f := fun _ => (Prog.throw e : Prog C ε α)) hfin .throw
    rw [List.append_nil] at hall
    exact hall
  | cmd c k ih =>
    obtain ⟨hfinish, rfl⟩ := hp
    have hrest := ih (exec c s).1 ⟨hfinish, rfl⟩
    have hcmd : (Prog.cmd c fun b => (k b).tryFinally fin).Ends exec look s q u _ := .cmd hrest
    rw [← List.append_assoc] at hcmd
    exact hcmd

theorem Uses.not_visited {q : ⦃β : Type⦄ → C β → Prop} {x : δ} (hp : p.Uses q)
    (hlook : ∀ (γ : Type) (c : C γ) (s : σ), q c → x ∉ look c s) (s : σ) : x ∉ p.visits exec look s := by
  induction p generalizing s with
  | ret a => exact List.not_mem_nil
  | throw e => exact List.not_mem_nil
  | cmd c k ih =>
    intro hx
    rcases List.mem_append.mp hx with hx | hx
    · exact hlook _ c s hp.1 hx
    · exact ih _ (hp.2 _) _ hx

theorem Uses.ends {q : ⦃β : Type⦄ → C β → Prop} {R : σ → σ → Prop} (hp : p.Uses q) (hreturns : p.NoThrow)
    (refl : ∀ s, R s s) (trans : ∀ s t u, R s t → R t u → R s u)
    (step : ∀ (γ : Type) (c : C γ) s, q c → R s (exec c s).2 ∧ look c s = []) (s : σ) :
    ∃ a t, p.Ends exec look s (.ok a) t [] ∧ R s t := by
  induction p generalizing s with
  | ret a => exact ⟨a, s, .ret, refl s⟩
  | throw e => exact hreturns.elim
  | cmd c k ih =>
    obtain ⟨hkeep, hlook⟩ := step _ c s hp.1
    obtain ⟨a, t, hends, hrest⟩ := ih (exec c s).1 (hp.2 _) (hreturns _) (exec c s).2
    have hcmd := Ends.cmd hends
    rw [hlook] at hcmd
    exact ⟨a, t, hcmd, trans _ _ _ hkeep hrest⟩

end Ends

end Prog

namespace System

variable {C : Type → Type} {ε σ Op Env : Type} {S : System C ε σ Op Env}
  {ok : Pool C ε σ Op → Action Op Env → Prop} {p q : Pool C ε σ Op}

/-- How thread `i` runs its commands. -/
abbrev client (S : System C ε σ Op Env) (i : ℕ) : ⦃β : Type⦄ → C β → σ → β × σ :=
  fun _ c s => S.exec i c s

/-- The store after a program that thread `i` runs alone. -/
abbrev after (S : System C ε σ Op Env) (i : ℕ) {α : Type} (p : Prog C ε α) (s : σ) : σ :=
  (p.finish (S.client i) s).2

/-- The run in which thread `i` alone takes `n` steps. -/
theorem Run.solo {i n : ℕ} {op : Op} {rest : Prog C ε Unit}
    (h : S.Run ok p (List.replicate n (.step i)) q) (hi : p.threads[i]? = some (op, rest)) :
    q.store = (rest.advance (S.client i) n p.store).2 ∧
      q.threads[i]? = some (op, (rest.advance (S.client i) n p.store).1) := by
  induction n generalizing p rest with
  | zero =>
    cases h
    rw [Prog.advance_zero]
    exact ⟨rfl, hi⟩
  | succ n ih =>
    cases h with
    | cons hok hnext hrest =>
      obtain ⟨op', β, c, k, hpeek, hstore, hthreads⟩ := next_step hnext
      rw [hi] at hpeek
      cases hpeek
      have hlt : i < p.threads.length := (List.getElem?_eq_some_iff.mp hi).1
      rw [Prog.advance_succ, ← hstore]
      refine ih hrest ?_
      rw [hthreads, List.getElem?_set_self hlt]

/-- Thread `i` can take its steps up to the end of its program. -/
theorem exists_solo {i : ℕ} {op : Op} {rest : Prog C ε Unit} (hi : p.threads[i]? = some (op, rest))
    {n : ℕ} (hn : (rest.advance (S.client i) n p.store).1.ended = true)
    (hok : ∀ p, ok p (.step i)) :
    ∃ m q, S.Run ok p (List.replicate m (.step i)) q ∧
      q.threads[i]? = some (op, (rest.advance (S.client i) n p.store).1) := by
  induction n generalizing p rest with
  | zero =>
    rw [Prog.advance_zero]
    exact ⟨0, p, .nil p, hi⟩
  | succ n ih =>
    cases rest with
    | ret a => exact ⟨0, p, .nil p, hi⟩
    | throw e => exact ⟨0, p, .nil p, hi⟩
    | cmd c k =>
      have hlt : i < p.threads.length := (List.getElem?_eq_some_iff.mp hi).1
      let m : Pool C ε σ Op :=
        ⟨(S.exec i c p.store).2, p.threads.set i (op, k (S.exec i c p.store).1)⟩
      have hnext : S.next p (.step i) = some m := by simp only [next, hi, m]
      have hm : m.threads[i]? = some (op, k (S.exec i c p.store).1) := List.getElem?_set_self hlt
      rw [Prog.advance_succ] at hn ⊢
      obtain ⟨l, q, hrun, hq⟩ := @ih m _ hm hn
      exact ⟨l + 1, q, .cons (hok p) hnext hrun, hq⟩

theorem Run.called {n : ℕ} {op : Op}
    (h : S.Run ok p (.call op :: List.replicate n (.step p.threads.length)) q) :
    q.store = ((S.code op).advance (S.client p.threads.length) n p.store).2 ∧
      q.threads[p.threads.length]? =
        some (op, ((S.code op).advance (S.client p.threads.length) n p.store).1) := by
  cases h with
  | cons hok hnext hrest =>
    simp only [next, Option.some.injEq] at hnext
    subst hnext
    exact hrest.solo List.getElem?_concat_length

theorem exists_called (op : Op) (hok : ∀ p a, ok p a) :
    ∃ n q rest, S.Run ok p (.call op :: List.replicate n (.step p.threads.length)) q ∧
      q.threads[p.threads.length]? = some (op, rest) ∧ rest.ended = true := by
  let m : Pool C ε σ Op := { p with threads := p.threads ++ [(op, S.code op)] }
  have hm : m.threads[p.threads.length]? = some (op, S.code op) := List.getElem?_concat_length
  obtain ⟨n, hn⟩ := Prog.exists_ended (S.code op) p.store
  obtain ⟨l, q, hrun, hq⟩ := exists_solo hm hn fun p => hok p _
  exact ⟨l, q, _, .cons (hok p _) rfl hrun, hq, hn⟩

end System

namespace View

variable {C : Type → Type} {ε σ α β γ : Type} (exec : ⦃β : Type⦄ → C β → σ → β × σ)
  (P : ℕ → σ → Prop)

/-- The view of a program that runs alone, over stores that count its commands: `P n` is
promised of the store at the cut after `n` commands. -/
def alone : View C (ℕ × σ) where
  exec := fun _ c s => ((exec c s.2).1, s.1 + 1, (exec c s.2).2)
  rely := Eq
  assume := fun _ _ _ => True
  guar := fun _ _ s => P s.1 s.2
  refl := fun _ => rfl
  trans := Eq.trans

variable {exec P} {Q : Except ε α → ℕ × σ → Prop} {n : ℕ} {s : σ}

theorem safe_alone_ret {a : α} :
    (alone exec P).Safe Q (.ret a : Prog C ε α) (n, s) ↔ Q (.ok a) (n, s) := by
  constructor
  · exact fun h => h _ rfl
  · rintro h t rfl
    exact h

theorem safe_alone_throw {e : ε} :
    (alone exec P).Safe Q (.throw e : Prog C ε α) (n, s) ↔ Q (.error e) (n, s) := by
  constructor
  · exact fun h => h _ rfl
  · rintro h t rfl
    exact h

theorem safe_alone_cmd {c : C β} {k : β → Prog C ε α} :
    (alone exec P).Safe Q (.cmd c k) (n, s) ↔
      P n s ∧ (alone exec P).Safe Q (k (exec c s).1) (n + 1, (exec c s).2) := by
  constructor
  · exact fun h => h _ rfl trivial
  · rintro h t rfl -
    exact h

theorem stable_alone (R : ℕ × σ → Prop) : (alone exec P).Stable R := by
  rintro s t rfl
  exact id

theorem Safe.finish {p : Prog C ε α} (h : (alone exec P).Safe Q p (n, s)) :
    ∃ m, Q (p.finish exec s).1 (m, (p.finish exec s).2) := by
  induction p generalizing n s with
  | ret a => exact ⟨n, safe_alone_ret.mp h⟩
  | throw e => exact ⟨n, safe_alone_throw.mp h⟩
  | cmd c k ih => exact ih _ (safe_alone_cmd.mp h).2

theorem Safe.cut {p : Prog C ε α} (h : (alone exec P).Safe Q p (n, s))
    (hend : ∀ r m t, Q r (m, t) → ∀ l, P (m + l) t) (l : ℕ) : P (n + l) (p.advance exec l s).2 := by
  induction p generalizing n s l with
  | ret a =>
    have hQ := safe_alone_ret.mp h
    cases l <;> exact hend _ _ _ hQ _
  | throw e =>
    have hQ := safe_alone_throw.mp h
    cases l <;> exact hend _ _ _ hQ _
  | cmd c k ih =>
    obtain ⟨hP, hk⟩ := safe_alone_cmd.mp h
    cases l with
    | zero => exact hP
    | succ l =>
      have hcut := ih _ hk l
      rw [Prog.advance_succ]
      rwa [show n + (l + 1) = n + 1 + l by omega]

end View
end Concurrent
