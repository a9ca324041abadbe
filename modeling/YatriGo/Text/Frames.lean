import Mathlib.Data.List.Basic
import Mathlib.Data.List.Infix
import Mathlib.Data.List.Pairwise

/-! Texts with one field, between a beginning and an end that are fixed. A family of them is told apart, field
and all, when any two differ at the beginning or at the end. -/

namespace Text

variable {α ι : Type} {a b c d : List α}

structure Frame (α : Type) where
  before : List α
  after : List α

namespace Frame

def fill (f : Frame α) (field : List α) : List α := f.before ++ (field ++ f.after)

variable {f g : Frame α}

theorem fill_inj (h : f.fill a = f.fill b) : a = b :=
  List.append_cancel_right (List.append_cancel_left h)

/-- Neither list goes on where the other ends. -/
def Parted (a b : List α) : Prop := ¬ a <+: b ∧ ¬ b <+: a

instance [DecidableEq α] : Decidable (Parted a b) := inferInstanceAs (Decidable (_ ∧ _))

theorem Parted.append_ne (h : Parted a b) : a ++ c ≠ b ++ d := by
  intro heq
  have ha : a <+: b ++ d := heq ▸ List.prefix_append a c
  rcases List.prefix_or_prefix_of_prefix ha (List.prefix_append b d) with hab | hba
  · exact h.1 hab
  · exact h.2 hba

/-- The frames differ at the beginning, or at the end. -/
def Apart (f g : Frame α) : Prop := Parted f.before g.before ∨ Parted f.after.reverse g.after.reverse

instance [DecidableEq α] : Decidable (f.Apart g) := inferInstanceAs (Decidable (_ ∨ _))

theorem Apart.fill_ne (h : f.Apart g) : f.fill a ≠ g.fill b := by
  rcases h with hbefore | hafter
  · exact hbefore.append_ne
  · intro heq
    have hback : f.after.reverse ++ (f.before ++ a).reverse = g.after.reverse ++ (g.before ++ b).reverse := by
      rw [← List.reverse_append, ← List.reverse_append, List.append_assoc, List.append_assoc]
      exact congrArg List.reverse heq
    exact hafter.append_ne hback

theorem Apart.symm (h : f.Apart g) : g.Apart f := h.imp And.symm And.symm

theorem fill_inj_of_apart {frame : ι → Frame α} {names : List ι} (hapart : names.Pairwise fun i j => (frame i).Apart (frame j))
    {i j : ι} (hi : i ∈ names) (hj : j ∈ names) (h : (frame i).fill a = (frame j).fill b) : i = j ∧ a = b := by
  by_cases hij : i = j
  · subst hij
    exact ⟨rfl, fill_inj h⟩
  · have : Std.Symm fun i j => (frame i).Apart (frame j) := ⟨fun _ _ => Apart.symm⟩
    exact absurd h (hapart.forall hi hj hij).fill_ne

end Frame

end Text
