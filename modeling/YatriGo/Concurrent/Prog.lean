import Mathlib.Data.List.Basic
import Mathlib.Data.Nat.Notation
import Mathlib.Tactic.Common

/-! Programs that act on a shared store only through atomic commands. A program
is the tree of its commands, so a concurrent run can be cut between any two. -/

namespace Concurrent

/-- `C β` is the type of commands that answer with a `β`; `ε` is what can be thrown. -/
inductive Prog (C : Type → Type) (ε α : Type) : Type 1
  | ret (a : α)
  | throw (e : ε)
  | cmd {β : Type} (c : C β) (k : β → Prog C ε α)

namespace Prog

variable {C : Type → Type} {ε ε' α β γ : Type}

def bind : Prog C ε α → (α → Prog C ε β) → Prog C ε β
  | .ret a, f => f a
  | .throw e, _ => .throw e
  | .cmd c k, f => .cmd c fun b => (k b).bind f

instance : Monad (Prog C ε) where
  pure := .ret
  bind := .bind

def perform (c : C β) : Prog C ε β := .cmd c .ret

/-- `try p finally fin`: `fin` runs whether `p` returns or throws. -/
def tryFinally : Prog C ε α → Prog C ε Unit → Prog C ε α
  | .ret a, fin => fin.bind fun _ => .ret a
  | .throw e, fin => fin.bind fun _ => .throw e
  | .cmd c k, fin => .cmd c fun b => (k b).tryFinally fin

def tryCatch : Prog C ε α → (ε → Prog C ε' α) → Prog C ε' α
  | .ret a, _ => .ret a
  | .throw e, handle => handle e
  | .cmd c k, handle => .cmd c fun b => (k b).tryCatch handle

/-- `forM` over a list, one element after the other. -/
def forEach (f : β → Prog C ε Unit) : List β → Prog C ε Unit
  | [] => .ret ()
  | x :: xs => (f x).bind fun _ => forEach f xs

@[simp] theorem pure_eq (a : α) : (pure a : Prog C ε α) = .ret a := rfl

@[simp] theorem bind_eq (p : Prog C ε α) (f : α → Prog C ε β) : (p >>= f) = p.bind f := rfl

@[simp] theorem ret_bind (a : α) (f : α → Prog C ε β) : (Prog.ret a).bind f = f a := rfl

@[simp] theorem throw_bind (e : ε) (f : α → Prog C ε β) : (Prog.throw e).bind f = .throw e := rfl

@[simp] theorem cmd_bind (c : C γ) (k : γ → Prog C ε α) (f : α → Prog C ε β) :
    (Prog.cmd c k).bind f = .cmd c fun b => (k b).bind f := rfl

@[simp] theorem perform_bind (c : C γ) (f : γ → Prog C ε β) :
    (perform c).bind f = .cmd c f := rfl

theorem bind_assoc (p : Prog C ε α) (f : α → Prog C ε β) (g : β → Prog C ε γ) :
    (p.bind f).bind g = p.bind fun a => (f a).bind g := by
  induction p with
  | ret a => rfl
  | throw e => rfl
  | cmd c k ih => simp only [cmd_bind, ih]

theorem bind_ret (p : Prog C ε α) : p.bind .ret = p := by
  induction p with
  | ret a => rfl
  | throw e => rfl
  | cmd c k ih =>
    rw [cmd_bind]
    exact congrArg (Prog.cmd c) (funext ih)

theorem forEach_map (f : γ → Prog C ε Unit) (g : β → γ) (xs : List β) :
    forEach f (xs.map g) = forEach (fun x => f (g x)) xs := by
  induction xs with
  | nil => rfl
  | cons x xs ih =>
    rw [List.map_cons, forEach, ih]
    rfl

theorem forEach_append (f : β → Prog C ε Unit) (xs ys : List β) :
    forEach f (xs ++ ys) = (forEach f xs).bind fun _ => forEach f ys := by
  induction xs with
  | nil => rfl
  | cons x xs ih =>
    simp only [List.cons_append, forEach, ih]
    exact (bind_assoc _ _ _).symm

theorem forEach_flatMap (f : γ → Prog C ε Unit) (g : β → List γ) (xs : List β) :
    forEach f (xs.flatMap g) = forEach (fun x => forEach f (g x)) xs := by
  induction xs with
  | nil => rfl
  | cons x xs ih =>
    rw [List.flatMap_cons, forEach_append, ih]
    rfl

/-- Every command of the program satisfies `q`, whatever the store answers. -/
def Uses (q : ⦃β : Type⦄ → C β → Prop) : Prog C ε α → Prop
  | .ret _ => True
  | .throw _ => True
  | .cmd c k => q c ∧ ∀ b, (k b).Uses q

section Uses

variable {q : ⦃β : Type⦄ → C β → Prop}

@[simp] theorem uses_ret (a : α) : (Prog.ret a : Prog C ε α).Uses q := trivial

@[simp] theorem uses_throw (e : ε) : (Prog.throw e : Prog C ε α).Uses q := trivial

@[simp] theorem uses_cmd (c : C γ) (k : γ → Prog C ε α) :
    (Prog.cmd c k).Uses q ↔ q c ∧ ∀ b, (k b).Uses q := Iff.rfl

@[simp] theorem uses_perform (c : C γ) : (perform c : Prog C ε γ).Uses q ↔ q c :=
  ⟨fun h => h.1, fun h => ⟨h, fun _ => trivial⟩⟩

theorem Uses.bind {p : Prog C ε α} {f : α → Prog C ε β} (hp : p.Uses q)
    (hf : ∀ a, (f a).Uses q) : (p.bind f).Uses q := by
  induction p with
  | ret a => exact hf a
  | throw e => trivial
  | cmd c k ih => exact ⟨hp.1, fun b => ih b (hp.2 b)⟩

theorem Uses.tryFinally {p : Prog C ε α} {fin : Prog C ε Unit} (hp : p.Uses q)
    (hf : fin.Uses q) : (p.tryFinally fin).Uses q := by
  induction p with
  | ret a => exact hf.bind fun _ => trivial
  | throw e => exact hf.bind fun _ => trivial
  | cmd c k ih => exact ⟨hp.1, fun b => ih b (hp.2 b)⟩

theorem Uses.tryCatch {p : Prog C ε α} {handle : ε → Prog C ε' α} (hp : p.Uses q)
    (hh : ∀ e, (handle e).Uses q) : (p.tryCatch handle).Uses q := by
  induction p with
  | ret a => trivial
  | throw e => exact hh e
  | cmd c k ih => exact ⟨hp.1, fun b => ih b (hp.2 b)⟩

theorem Uses.forEach {f : β → Prog C ε Unit} {xs : List β} (hf : ∀ x ∈ xs, (f x).Uses q) :
    (forEach f xs).Uses q := by
  induction xs with
  | nil => trivial
  | cons x xs ih =>
    exact (hf x (List.mem_cons_self ..)).bind fun _ =>
      ih fun y hy => hf y (List.mem_cons_of_mem _ hy)

theorem Uses.mono {q' : ⦃β : Type⦄ → C β → Prop} {p : Prog C ε α} (hp : p.Uses q)
    (h : ∀ β (c : C β), q c → q' c) : p.Uses q' := by
  induction p with
  | ret a => trivial
  | throw e => trivial
  | cmd c k ih => exact ⟨h _ c hp.1, fun b => ih b (hp.2 b)⟩

end Uses

/-- The program returns, whatever the store answers. -/
def NoThrow : Prog C ε α → Prop
  | .ret _ => True
  | .throw _ => False
  | .cmd _ k => ∀ b, (k b).NoThrow

theorem NoThrow.bind {p : Prog C ε α} {f : α → Prog C ε β} (hp : p.NoThrow)
    (hf : ∀ a, (f a).NoThrow) : (p.bind f).NoThrow := by
  induction p with
  | ret a => exact hf a
  | throw e => exact hp.elim
  | cmd c k ih => exact fun b => ih b (hp b)

theorem NoThrow.forEach {f : β → Prog C ε Unit} {xs : List β} (hf : ∀ x, (f x).NoThrow) :
    (Prog.forEach f xs).NoThrow := by
  induction xs with
  | nil => trivial
  | cons x xs ih => exact (hf x).bind fun _ => ih

end Prog
end Concurrent
