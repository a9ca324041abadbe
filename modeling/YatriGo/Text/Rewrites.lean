import Mathlib.Data.List.Chain
import Mathlib.Data.List.DropRight
import Mathlib.Data.List.Infix
import Mathlib.Tactic.Common

/-! Rewrites of whole texts: characters replaced, runs of one character made one, both ends trimmed. And texts
joined with a doubled separator, which can be taken apart again when no part has the separator twice in a row or at
an end. -/

namespace Text

variable {α : Type} {c d x y : α} {p : α → Bool} {t u v w : List α} {ws ws' : List (List α)}

/-- Every character that satisfies `p` becomes `c`. -/
def replaceAll (p : α → Bool) (c : α) (t : List α) : List α := t.map fun x => if p x then c else x

/-- Every run of `c` becomes one `c`. -/
def collapse [DecidableEq α] (c : α) : List α → List α
  | [] => []
  | x :: t => if x = c ∧ t.head? = some c then collapse c t else x :: collapse c t

/-- What satisfies `p` is cut off at both ends. -/
def trim (p : α → Bool) (t : List α) : List α := (t.dropWhile p).rdropWhile p

/-- Nowhere stands a `c` next to a `c`. -/
def Single (c : α) (t : List α) : Prop := t.IsChain fun x y => ¬ (x = c ∧ y = c)

theorem Single.of_isInfix (h : Single c t) (hsub : u <:+: t) : Single c u := List.IsChain.infix h hsub

theorem single_iff : Single c t ↔ ¬ [c, c] <:+: t := by
  constructor
  · intro h hsub
    have hpair : Single c [c, c] := h.of_isInfix hsub
    exact List.isChain_pair.mp hpair ⟨rfl, rfl⟩
  · intro h
    apply (List.isChain_isInfix t).imp
    rintro x y hsub ⟨rfl, rfl⟩
    exact h hsub

theorem Single.append_cons (ht : Single x t) (hu : Single x u) (hlast : ∀ y ∈ t.getLast?, y ≠ x)
    (hhead : ∀ y ∈ u.head?, y ≠ x) : Single x (t ++ c :: u) := by
  apply List.isChain_append.mpr
  refine ⟨ht, List.isChain_cons.mpr ⟨fun y hy hboth => hhead y hy hboth.2, hu⟩, ?_⟩
  intro y hy z _ hboth
  exact hlast y hy hboth.1

theorem mem_replaceAll (h : x ∈ replaceAll p c t) : x = c ∨ (x ∈ t ∧ p x = false) := by
  obtain ⟨y, hy, rfl⟩ := List.mem_map.mp h
  cases hp : p y with
  | true => exact .inl (if_pos rfl)
  | false =>
    rw [if_neg Bool.false_ne_true]
    exact .inr ⟨hy, hp⟩

theorem replaceAll_eq_self (h : ∀ x ∈ t, p x = false) : replaceAll p c t = t := by
  have hsame : ∀ x ∈ t, (if p x then c else x) = id x := by
    intro x hx
    rw [h x hx]
    rfl
  exact (List.map_congr_left hsame).trans (List.map_id t)

theorem trim_isInfix : trim p t <:+: t := by
  have hleft : t.dropWhile p <:+: t := (List.dropWhile_suffix p).isInfix
  have hright := List.rdropWhile_prefix p (t.dropWhile p)
  exact hright.isInfix.trans hleft

theorem trim_head (h : (trim p t).head? = some x) : p x = false := by
  have hfirst : (t.dropWhile p).head? = some x := by
    obtain ⟨rest, hrest⟩ := List.rdropWhile_prefix p (t.dropWhile p)
    rw [← hrest, List.head?_append]
    show (trim p t).head?.or rest.head? = some x
    rw [h]
    rfl
  have hnot := List.head?_dropWhile_not p t
  rw [hfirst] at hnot
  exact hnot

theorem trim_last (h : (trim p t).getLast? = some x) : p x = false := by
  have hne : trim p t ≠ [] := by
    intro hnil
    rw [hnil] at h
    cases h
  have hnot := List.rdropWhile_last_not p (t.dropWhile p) hne
  rw [List.getLast?_eq_some_getLast hne] at h
  rw [← Option.some.inj h]
  exact Bool.not_eq_true _ ▸ hnot

theorem trim_eq_self (hhead : ∀ x ∈ t.head?, p x = false) (hlast : ∀ x ∈ t.getLast?, p x = false) : trim p t = t := by
  have hleft : t.dropWhile p = t := by
    cases t with
    | nil => rfl
    | cons x t => exact List.dropWhile_cons_of_neg (by rw [hhead x rfl]; exact Bool.false_ne_true)
  unfold trim
  rw [hleft, List.rdropWhile_eq_self_iff]
  intro hne
  rw [hlast _ (List.getLast_mem_getLast? hne)]
  exact Bool.false_ne_true

section collapse

variable [DecidableEq α]

theorem mem_collapse (h : x ∈ collapse c t) : x ∈ t := by
  induction t with
  | nil => exact h
  | cons y t ih =>
    unfold collapse at h
    split_ifs at h
    · exact List.mem_cons_of_mem y (ih h)
    · rcases List.mem_cons.mp h with rfl | h
      · exact List.mem_cons_self
      · exact List.mem_cons_of_mem y (ih h)

theorem head?_collapse : (collapse c t).head? = t.head? := by
  induction t with
  | nil => rfl
  | cons y t ih =>
    unfold collapse
    split_ifs with hrun
    · obtain ⟨rfl, hnext⟩ := hrun
      rw [ih, hnext]
      rfl
    · rfl

theorem collapse_cons_isChain {R : α → α → Prop} (h : (y :: t).IsChain R) (hrest : (collapse c t).IsChain R) :
    (y :: collapse c t).IsChain R := by
  rw [List.isChain_cons, head?_collapse]
  exact ⟨fun z hz => h.rel_head? hz, hrest⟩

theorem single_collapse : Single c (collapse c t) := by
  induction t with
  | nil => exact .nil
  | cons y t ih =>
    unfold collapse
    split_ifs with hrun
    · exact ih
    · apply List.isChain_cons.mpr
      rw [head?_collapse]
      refine ⟨fun z hz hboth => hrun ⟨hboth.1, ?_⟩, ih⟩
      rw [← hboth.2]
      exact hz

theorem Single.collapse (h : Single c t) : Single c (Text.collapse d t) := by
  induction t with
  | nil => exact .nil
  | cons y t ih =>
    have hrest : Single c (Text.collapse d t) := ih h.tail
    unfold Text.collapse
    split_ifs
    · exact hrest
    · exact collapse_cons_isChain h hrest

theorem collapse_eq_self (h : Single c t) : collapse c t = t := by
  induction t with
  | nil => rfl
  | cons y t ih =>
    have hrest : collapse c t = t := ih h.tail
    unfold collapse
    rw [hrest, if_neg]
    rintro ⟨rfl, hnext⟩
    exact h.rel_head? hnext ⟨rfl, rfl⟩

end collapse

/-- A part that a doubled `c` next to it can be told from. -/
structure Part (c : α) (t : List α) : Prop where
  nonempty : t ≠ []
  single : Single c t
  head : t.head? ≠ some c
  last : t.getLast? ≠ some c

/-- The first part of two equal texts is the same. -/
theorem Part.append_inj (ht : Part c t) (hu : Part c u) (h : t ++ [c, c] ++ v = u ++ [c, c] ++ w) : t = u ∧ v = w := by
  -- a part that goes on where the other one ends begins with one `c` or with two
  have hlonger : ∀ {t u v w x : List α}, Part c u → u = t ++ x → [c, c] ++ v = x ++ ([c, c] ++ w) → x = [] := by
    intro t u v w x hu hx hrest
    match x, hrest with
    | [], _ => rfl
    | [y], hrest =>
      obtain rfl : c = y := (List.cons.inj hrest).1
      exact absurd (by rw [hx, List.getLast?_concat]) hu.last
    | y :: z :: x, hrest =>
      obtain ⟨rfl, htail⟩ := List.cons.inj hrest
      obtain ⟨rfl, -⟩ := List.cons.inj htail
      exact absurd ⟨t, x, by rw [hx, List.append_assoc]; rfl⟩ (single_iff.mp hu.single)
  rw [List.append_assoc, List.append_assoc] at h
  rcases List.append_eq_append_iff.mp h with ⟨x, hx, hrest⟩ | ⟨x, hx, hrest⟩
  · obtain rfl := hlonger hu hx hrest
    exact ⟨by rw [hx, List.append_nil], by simpa using hrest⟩
  · obtain rfl := hlonger ht hx hrest
    exact ⟨by rw [hx, List.append_nil], by simpa using hrest.symm⟩

theorem Part.ne_append (ht : Part c t) : t ≠ u ++ [c, c] ++ v := by
  intro h
  exact single_iff.mp ht.single ⟨u, v, h.symm⟩

theorem intercalate_ne_nil (ht : Part c t) : [c, c].intercalate (t :: ws) ≠ [] := by
  cases ws with
  | nil =>
    rw [List.intercalate_singleton]
    exact ht.nonempty
  | cons u ws =>
    rw [List.intercalate_cons_cons]
    exact List.append_ne_nil_of_left_ne_nil (List.append_ne_nil_of_left_ne_nil ht.nonempty _) _

/-- Parts joined with a doubled `c` are known from the text. -/
theorem intercalate_inj (hws : ∀ t ∈ ws, Part c t) (hws' : ∀ t ∈ ws', Part c t)
    (h : [c, c].intercalate ws = [c, c].intercalate ws') : ws = ws' := by
  induction ws generalizing ws' with
  | nil =>
    cases ws' with
    | nil => rfl
    | cons u ws' => exact absurd h.symm (intercalate_ne_nil (hws' u List.mem_cons_self))
  | cons t ws ih =>
    have ht : Part c t := hws t List.mem_cons_self
    cases ws' with
    | nil => exact absurd h (intercalate_ne_nil ht)
    | cons u ws' =>
      have hu : Part c u := hws' u List.mem_cons_self
      cases ws with
      | nil =>
        rw [List.intercalate_singleton] at h
        cases ws' with
        | nil => rw [h, List.intercalate_singleton]
        | cons u' ws' =>
          rw [List.intercalate_cons_cons] at h
          exact absurd h ht.ne_append
      | cons t' ws =>
        rw [List.intercalate_cons_cons] at h
        cases ws' with
        | nil =>
          rw [List.intercalate_singleton] at h
          exact absurd h.symm hu.ne_append
        | cons u' ws' =>
          rw [List.intercalate_cons_cons] at h
          obtain ⟨rfl, hrest⟩ := ht.append_inj hu h
          have htails := ih (fun w hw => hws w (List.mem_cons_of_mem t hw))
            (fun w hw => hws' w (List.mem_cons_of_mem t hw)) hrest
          rw [htails]

end Text
