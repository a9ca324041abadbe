import Mathlib.Data.List.Basic
import Mathlib.Tactic.Common

/-! Reads that are to be written back. Somebody opens a thing to read it and closes it with the update that it has
computed from what was read; in between nobody else may disturb the thing. -/

namespace Concurrent

variable {I X : Type}

inductive Mark (I X : Type)
  | opens (i : I) (x : X)
  | closes (i : I) (x : X)
  | disturbs (x : X)
  deriving DecidableEq

/-- `x` was disturbed after the last time that `i` has opened it. -/
def Disturbed (ms : List (Mark I X)) (i : I) (x : X) : Prop :=
  ∃ before after, ms = before ++ .disturbs x :: after ∧ .opens i x ∉ after

/-- Whoever closes a thing has found it undisturbed. -/
def Undisturbed (ms : List (Mark I X)) : Prop :=
  ∀ before i x after, ms = before ++ .closes i x :: after → ¬ Disturbed before i x

variable {ms ns : List (Mark I X)} {i : I} {x : X}

/-- What comes later, but to open the thing, leaves it disturbed. -/
theorem Disturbed.append (h : Disturbed ms i x) (hns : .opens i x ∉ ns) : Disturbed (ms ++ ns) i x := by
  obtain ⟨before, after, rfl, hafter⟩ := h
  refine ⟨before, after ++ ns, List.append_assoc .., fun hmem => ?_⟩
  rcases List.mem_append.mp hmem with hmem | hmem
  · exact hafter hmem
  · exact hns hmem

theorem disturbed_of_mem (hmem : .disturbs x ∈ ns) (hns : .opens i x ∉ ns) : Disturbed (ms ++ ns) i x := by
  obtain ⟨before, after, rfl⟩ := List.append_of_mem hmem
  refine ⟨ms ++ before, after, (List.append_assoc ..).symm, fun h => hns ?_⟩
  exact List.mem_append_right _ (List.mem_cons_of_mem _ h)

theorem Undisturbed.left (h : Undisturbed (ms ++ ns)) : Undisturbed ms := by
  rintro before i x after rfl
  exact h before i x (after ++ ns) (by rw [List.append_assoc, List.cons_append])

/-- Who closes a thing next, without opening it again, has found it undisturbed. -/
theorem Undisturbed.closes (h : Undisturbed (ms ++ ns)) (hmem : .closes i x ∈ ns) (hns : .opens i x ∉ ns) :
    ¬ Disturbed ms i x := by
  intro hdisturbed
  obtain ⟨before, after, rfl⟩ := List.append_of_mem hmem
  have hbefore : .opens i x ∉ before := fun hb => hns (List.mem_append_left _ hb)
  exact h (ms ++ before) i x after (by rw [List.append_assoc]) (hdisturbed.append hbefore)

end Concurrent
