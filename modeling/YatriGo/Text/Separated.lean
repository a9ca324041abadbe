import Mathlib.Data.List.Basic
import Mathlib.Tactic.Common

/-! Texts of several fields with a separator between them, and when two of them agree. -/

namespace Text

variable {α : Type} {sep : α} {first : List α} {a n r a' n' r' w t : List α}

/-- The second text is cut one or two separators later, or further on in the last field. -/
def Shifted (sep : α) (a n r a' n' r' : List α) : Prop :=
  (a' = a ++ sep :: n ∧ r = n' ++ sep :: r') ∨
    ∃ v, a' = a ++ sep :: (n ++ sep :: v) ∧ r = v ++ sep :: (n' ++ sep :: r')

/-- A field without separators ends at the first one. -/
theorem append_separator (hfirst : sep ∉ first) :
    first ++ sep :: r = w ++ sep :: t ↔ (w = first ∧ r = t) ∨ ∃ v, w = first ++ sep :: v ∧ r = v ++ sep :: t := by
  induction first generalizing w with
  | nil =>
    cases w with
    | nil => simp
    | cons x w =>
      simp only [List.nil_append, List.cons_append, List.cons.injEq, reduceCtorEq, false_and, false_or]
      constructor
      · rintro ⟨rfl, hr⟩
        exact ⟨w, ⟨rfl, rfl⟩, hr⟩
      · rintro ⟨v, ⟨rfl, rfl⟩, hr⟩
        exact ⟨rfl, hr⟩
  | cons y first ih =>
    obtain ⟨hy, hrest⟩ := not_or.mp (mt List.mem_cons.mpr hfirst)
    cases w with
    | nil => simp [Ne.symm hy]
    | cons x w =>
      simp only [List.cons_append, List.cons.injEq, ih hrest]
      constructor
      · rintro ⟨rfl, ⟨rfl, hr⟩ | ⟨v, rfl, hr⟩⟩
        · exact Or.inl ⟨⟨rfl, rfl⟩, hr⟩
        · exact Or.inr ⟨v, ⟨rfl, rfl⟩, hr⟩
      · rintro (⟨⟨rfl, rfl⟩, hr⟩ | ⟨v, ⟨rfl, rfl⟩, hr⟩)
        · exact ⟨rfl, Or.inl ⟨rfl, hr⟩⟩
        · exact ⟨rfl, Or.inr ⟨v, rfl, hr⟩⟩

theorem pair_inj (ha : sep ∉ a) (ha' : sep ∉ a') (h : a ++ sep :: r = a' ++ sep :: r') : a = a' ∧ r = r' := by
  rcases (append_separator ha).mp h with ⟨hsame, hr⟩ | ⟨v, hlonger, -⟩
  · exact ⟨hsame.symm, hr⟩
  · exact absurd (hlonger ▸ List.mem_append_right a List.mem_cons_self) ha'

theorem shifted_of_longer (hn : sep ∉ n) (ha : a' = a ++ sep :: w)
    (h : n ++ sep :: r = w ++ sep :: (n' ++ sep :: r')) : Shifted sep a n r a' n' r' := by
  rcases (append_separator hn).mp h with ⟨rfl, hr⟩ | ⟨v, rfl, hr⟩
  · exact Or.inl ⟨ha, hr⟩
  · exact Or.inr ⟨v, ha, hr⟩

theorem Shifted.agree (h : Shifted sep a n r a' n' r') :
    a ++ sep :: (n ++ sep :: r) = a' ++ sep :: (n' ++ sep :: r') := by
  rcases h with ⟨rfl, rfl⟩ | ⟨v, rfl, rfl⟩
  · simp only [List.append_assoc, List.cons_append]
  · simp only [List.append_assoc, List.cons_append]

/-- Three fields, the middle ones without separators: the texts agree when their fields do, or
when one of them is shifted. -/
theorem fields_agree (hn : sep ∉ n) (hn' : sep ∉ n') :
    a ++ sep :: (n ++ sep :: r) = a' ++ sep :: (n' ++ sep :: r') ↔
      (a = a' ∧ n = n' ∧ r = r') ∨ Shifted sep a n r a' n' r' ∨ Shifted sep a' n' r' a n r := by
  constructor
  · intro h
    rcases List.append_eq_append_iff.mp h with ⟨w, ha, hrest⟩ | ⟨w, ha, hrest⟩
    · cases w with
      | nil =>
        -- both texts have the same first field
        have htail : n ++ sep :: r = n' ++ sep :: r' := (List.cons.inj hrest).2
        rcases (append_separator hn).mp htail with ⟨hname, hr⟩ | ⟨v, hname, hr⟩
        · exact Or.inl ⟨by rw [ha, List.append_nil], hname.symm, hr⟩
        · exact absurd (hname ▸ List.mem_append_right n List.mem_cons_self) hn'
      | cons x w =>
        obtain ⟨rfl, htail⟩ := List.cons.inj hrest
        exact Or.inr (Or.inl (shifted_of_longer hn ha htail))
    · cases w with
      | nil =>
        have htail : n' ++ sep :: r' = n ++ sep :: r := (List.cons.inj hrest).2
        rcases (append_separator hn').mp htail with ⟨hname, hr⟩ | ⟨v, hname, hr⟩
        · exact Or.inl ⟨by rw [ha, List.append_nil], hname, hr.symm⟩
        · exact absurd (hname ▸ List.mem_append_right n' List.mem_cons_self) hn
      | cons x w =>
        obtain ⟨rfl, htail⟩ := List.cons.inj hrest
        exact Or.inr (Or.inr (shifted_of_longer hn' ha htail))
  · rintro (⟨rfl, rfl, rfl⟩ | h | h)
    · rfl
    · exact h.agree
    · exact h.agree.symm

theorem Shifted.ne (h : Shifted sep a n r a' n' r') : a ≠ a' := by
  rintro rfl
  rcases h with ⟨ha, -⟩ | ⟨v, ha, -⟩
  · simp at ha
  · simp at ha

end Text
