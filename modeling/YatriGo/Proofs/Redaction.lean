import Mathlib.Tactic.Common
import YatriGo.Socket.Debug

/-! What the debug log gives away: nothing that is stored under the name of a secret, and of the rest no more
than a few levels, items and characters. -/

namespace YatriGo
open Js

mutual

/-- The same value, up to what is stored under the name of a secret. -/
inductive Alike (toLowerCase : Units → Units) : Payload → Payload → Prop
  | null : Alike toLowerCase .null .null
  | bool (b : Bool) : Alike toLowerCase (.bool b) (.bool b)
  | number (n : Number) : Alike toLowerCase (.number n) (.number n)
  | string (text : Units) : Alike toLowerCase (.string text) (.string text)
  | array {items items' : List Payload} (h : AlikeItems toLowerCase items items') :
      Alike toLowerCase (.array items) (.array items')
  | object {fields fields' : List (Units × Payload)} (h : AlikeFields toLowerCase fields fields') :
      Alike toLowerCase (.object fields) (.object fields')

inductive AlikeItems (toLowerCase : Units → Units) : List Payload → List Payload → Prop
  | nil : AlikeItems toLowerCase [] []
  | cons {v w : Payload} {items items' : List Payload} (hv : Alike toLowerCase v w)
      (h : AlikeItems toLowerCase items items') : AlikeItems toLowerCase (v :: items) (w :: items')

inductive AlikeFields (toLowerCase : Units → Units) : List (Units × Payload) → List (Units × Payload) → Prop
  | nil : AlikeFields toLowerCase [] []
  | secret {key : Units} (v w : Payload) {fields fields' : List (Units × Payload)} (hkey : isSecret toLowerCase key = true)
      (h : AlikeFields toLowerCase fields fields') : AlikeFields toLowerCase ((key, v) :: fields) ((key, w) :: fields')
  | cons {key : Units} {v w : Payload} {fields fields' : List (Units × Payload)} (hv : Alike toLowerCase v w)
      (h : AlikeFields toLowerCase fields fields') : AlikeFields toLowerCase ((key, v) :: fields) ((key, w) :: fields')

end

/-- `y` stands in `v`, `n` levels below it. -/
inductive Occurs : ℕ → Payload → Payload → Prop
  | root {v : Payload} : Occurs 0 v v
  | item {n : ℕ} {x y : Payload} {items : List Payload} (h : x ∈ items) (hy : Occurs n x y) : Occurs (n + 1) (.array items) y
  | field {n : ℕ} {key : Units} {x y : Payload} {fields : List (Units × Payload)} (h : (key, x) ∈ fields) (hy : Occurs n x y) :
      Occurs (n + 1) (.object fields) y

/-- A short array or text, or anything else. -/
structure Brief (y : Payload) : Prop where
  items : ∀ items, y = .array items → items.length ≤ 5
  text : ∀ text, y = .string text → text.length ≤ 200 + (units "...[truncated]").length

variable {toLowerCase : Units → Units} {v w x y : Payload} {items items' : List Payload}
  {fields fields' accumulator : List (Units × Payload)} {text key : Units} {depth n : ℕ} {f : Payload → Payload}

/-- One step of the fold over the entries, with `f` for what goes further down. -/
def enter (toLowerCase : Units → Units) (f : Payload → Payload) (accumulator : List (Units × Payload))
    (field : Units × Payload) : List (Units × Payload) :=
  if isSecret toLowerCase field.1 then assign accumulator field.1 (.string (units "[redacted]"))
  else assign accumulator field.1 (f field.2)

theorem sanitizePayload_null : sanitizePayload toLowerCase .null depth = .null := by
  rw [sanitizePayload]

theorem sanitizePayload_deep (hv : v ≠ .null) (h : 2 < depth) :
    sanitizePayload toLowerCase v depth = .string (units "[truncated]") := by
  cases v with
  | null => exact absurd rfl hv
  | _ => simp only [sanitizePayload, h, dif_pos]

theorem sanitizePayload_array (h : ¬ 2 < depth) : sanitizePayload toLowerCase (.array items) depth =
    .array ((items.take 5).map fun item => sanitizePayload toLowerCase item (depth + 1)) := by
  rw [sanitizePayload, dif_neg h]

theorem sanitizePayload_object (h : ¬ 2 < depth) : sanitizePayload toLowerCase (.object fields) depth =
    .object (fields.foldl (enter toLowerCase fun value => sanitizePayload toLowerCase value (depth + 1)) []) := by
  rw [sanitizePayload, dif_neg h]
  rfl

theorem sanitizePayload_string (h : ¬ 2 < depth) : sanitizePayload toLowerCase (.string text) depth =
    if 200 < text.length then .string (text.take 200 ++ units "...[truncated]") else .string text := by
  rw [sanitizePayload, dif_neg h]

theorem sanitizePayload_bool {b : Bool} (h : ¬ 2 < depth) : sanitizePayload toLowerCase (.bool b) depth = .bool b := by
  simp only [sanitizePayload, h, dif_neg, not_false_eq_true]

theorem sanitizePayload_number {m : Number} (h : ¬ 2 < depth) : sanitizePayload toLowerCase (.number m) depth = .number m := by
  simp only [sanitizePayload, h, dif_neg, not_false_eq_true]

theorem AlikeItems.map_take (hf : ∀ v w, Alike toLowerCase v w → f v = f w) (h : AlikeItems toLowerCase items items') (n : ℕ) :
    (items.take n).map f = (items'.take n).map f := by
  induction items generalizing items' n with
  | nil =>
    cases h
    rfl
  | cons v items ih =>
    cases h with
    | cons hv hrest =>
      cases n with
      | zero => rfl
      | succ n =>
        rw [List.take_succ_cons, List.take_succ_cons, List.map_cons, List.map_cons, hf _ _ hv, ih hrest]

theorem AlikeFields.foldl_enter (hf : ∀ v w, Alike toLowerCase v w → f v = f w)
    (h : AlikeFields toLowerCase fields fields') (accumulator : List (Units × Payload)) :
    fields.foldl (enter toLowerCase f) accumulator = fields'.foldl (enter toLowerCase f) accumulator := by
  induction fields generalizing fields' accumulator with
  | nil =>
    cases h
    rfl
  | cons field fields ih =>
    cases h with
    | secret v w hkey hrest =>
      -- neither value is looked at
      have hsame : ∀ v, enter toLowerCase f accumulator (_, v) = _ := fun v => if_pos hkey
      rw [List.foldl_cons, List.foldl_cons, hsame, hsame]
      exact ih hrest _
    | cons hv hrest =>
      have hsame := hf _ _ hv
      rw [List.foldl_cons, List.foldl_cons]
      unfold enter
      dsimp only
      rw [hsame]
      exact ih hrest _

/-- What is alike is sanitised to the same. -/
theorem Alike.sanitizePayload_eq (h : Alike toLowerCase v w) (depth : ℕ) :
    sanitizePayload toLowerCase v depth = sanitizePayload toLowerCase w depth := by
  -- by induction on the levels that are left
  obtain ⟨left, hleft⟩ : ∃ left, left = 3 - depth := ⟨_, rfl⟩
  induction left generalizing v w depth with
  | zero =>
    have hdeep : 2 < depth := by omega
    have hcut : ∀ {v}, v ≠ .null → sanitizePayload toLowerCase v depth = .string (units "[truncated]") :=
      fun hv => sanitizePayload_deep hv hdeep
    cases h with
    | array hitems => rw [hcut (fun heq => by cases heq), hcut (fun heq => by cases heq)]
    | object hfields => rw [hcut (fun heq => by cases heq), hcut (fun heq => by cases heq)]
    | _ => rfl
  | succ left ih =>
    have hdepth : ¬ 2 < depth := by omega
    have hbelow : ∀ v w, Alike toLowerCase v w →
        sanitizePayload toLowerCase v (depth + 1) = sanitizePayload toLowerCase w (depth + 1) :=
      fun v w hvw => ih hvw (depth + 1) (by omega)
    cases h with
    | array hitems =>
      rw [sanitizePayload_array hdepth, sanitizePayload_array hdepth, hitems.map_take hbelow 5]
    | object hfields =>
      rw [sanitizePayload_object hdepth, sanitizePayload_object hdepth, hfields.foldl_enter hbelow []]
    | _ => rfl

theorem mem_assign {field : Units × Payload} (h : field ∈ assign accumulator key v) : field ∈ accumulator ∨ field.2 = v := by
  unfold assign at h
  split_ifs at h
  · exact .inl h
  · obtain ⟨old, hold, rfl⟩ := List.mem_map.mp h
    split_ifs
    · exact .inr rfl
    · exact .inl hold
  · rcases List.mem_append.mp h with h | h
    · exact .inl h
    · rw [List.mem_singleton.mp h]
      exact .inr rfl

theorem mem_foldl_enter {field : Units × Payload} (h : field ∈ fields.foldl (enter toLowerCase f) accumulator) :
    field ∈ accumulator ∨ field.2 = .string (units "[redacted]") ∨ ∃ v, field.2 = f v := by
  induction fields generalizing accumulator with
  | nil => exact .inl h
  | cons head fields ih =>
    rcases ih h with h | h
    · unfold enter at h
      split_ifs at h
      · rcases mem_assign h with h | h
        · exact .inl h
        · exact .inr (.inl h)
      · rcases mem_assign h with h | h
        · exact .inl h
        · exact .inr (.inr ⟨head.2, h⟩)
    · exact .inr h

/-- No level but its own, and nothing long on it. -/
def Flat (v : Payload) : Prop := ∀ n y, Occurs n v y → n = 0 ∧ Brief y

theorem flat_string (h : text.length ≤ 200 + (units "...[truncated]").length) : Flat (.string text) := by
  intro n y hy
  cases hy
  refine ⟨rfl, (fun items heq => by cases heq), ?_⟩
  rintro _ ⟨⟩
  exact h

theorem flat_null : Flat .null := by
  intro n y hy
  cases hy
  exact ⟨rfl, (fun items heq => by cases heq), fun text heq => by cases heq⟩

theorem flat_bool {b : Bool} : Flat (.bool b) := by
  intro n y hy
  cases hy
  exact ⟨rfl, (fun items heq => by cases heq), fun text heq => by cases heq⟩

theorem flat_number {m : Number} : Flat (.number m) := by
  intro n y hy
  cases hy
  exact ⟨rfl, (fun items heq => by cases heq), fun text heq => by cases heq⟩

theorem Flat.within {left : ℕ} (h : Flat v) (hy : Occurs n v y) : n ≤ left ∧ Brief y := by
  obtain ⟨rfl, hbrief⟩ := h n y hy
  exact ⟨Nat.zero_le left, hbrief⟩

theorem flat_truncated : Flat (.string (units "[truncated]")) := flat_string (by decide)

theorem flat_redacted : Flat (.string (units "[redacted]")) := flat_string (by decide)

theorem flat_sanitized_string (h : ¬ 2 < depth) : Flat (sanitizePayload toLowerCase (.string text) depth) := by
  rw [sanitizePayload_string h]
  split_ifs with hlong
  · apply flat_string
    rw [List.length_append]
    exact Nat.add_le_add_right (List.length_take_le 200 text) _
  · exact flat_string (by omega)

/-- Below a sanitised value there are no more levels than are left, and all on them is brief. -/
theorem occurs_sanitizePayload (h : Occurs n (sanitizePayload toLowerCase v depth) y) : n ≤ 3 - depth ∧ Brief y := by
  obtain ⟨left, hleft⟩ : ∃ left, left = 3 - depth := ⟨_, rfl⟩
  rw [← hleft]
  induction left generalizing v depth n y with
  | zero =>
    have hdeep : 2 < depth := by omega
    rcases eq_or_ne v .null with rfl | hv
    · rw [sanitizePayload_null] at h
      exact flat_null.within h
    · rw [sanitizePayload_deep hv hdeep] at h
      exact flat_truncated.within h
  | succ left ih =>
    have hdepth : ¬ 2 < depth := by omega
    have hbelow : ∀ {v n y}, Occurs n (sanitizePayload toLowerCase v (depth + 1)) y → n ≤ left ∧ Brief y :=
      fun hy => ih hy (by omega)
    cases v with
    | null =>
      rw [sanitizePayload_null] at h
      exact flat_null.within h
    | bool b =>
      rw [sanitizePayload_bool hdepth] at h
      exact flat_bool.within h
    | number m =>
      rw [sanitizePayload_number hdepth] at h
      exact flat_number.within h
    | string text => exact (flat_sanitized_string hdepth).within h
    | array items =>
      rw [sanitizePayload_array hdepth] at h
      cases h with
      | root =>
        refine ⟨Nat.zero_le _, ?_, fun text heq => by cases heq⟩
        rintro _ ⟨⟩
        rw [List.length_map]
        exact List.length_take_le 5 items
      | item hmem hy =>
        obtain ⟨x, -, rfl⟩ := List.mem_map.mp hmem
        obtain ⟨hlevels, hbrief⟩ := hbelow hy
        exact ⟨Nat.succ_le_succ hlevels, hbrief⟩
    | object fields =>
      rw [sanitizePayload_object hdepth] at h
      cases h with
      | root => exact ⟨Nat.zero_le _, (fun items heq => by cases heq), fun text heq => by cases heq⟩
      | field hmem hy =>
        rcases mem_foldl_enter hmem with hnil | hredacted | ⟨v, hv⟩
        · cases hnil
        · dsimp only at hredacted
          rw [hredacted] at hy
          obtain ⟨hlevels, hbrief⟩ := flat_redacted.within hy
          exact ⟨Nat.succ_le_succ hlevels, hbrief⟩
        · dsimp only at hv
          rw [hv] at hy
          obtain ⟨hlevels, hbrief⟩ := hbelow hy
          exact ⟨Nat.succ_le_succ hlevels, hbrief⟩

/-- Values that differ only under the names of secrets are shown alike, and what is shown is short: three levels below
the root, five items to an array, two hundred characters to a text and the mark that it was cut. -/
theorem log_hides_secrets (toLowerCase : Units → Units) :
    (∀ v w, Alike toLowerCase v w → sanitizePayload toLowerCase v 0 = sanitizePayload toLowerCase w 0) ∧
    ∀ v n y, Occurs n (sanitizePayload toLowerCase v 0) y → n ≤ 3 ∧ Brief y :=
  ⟨fun _ _ h => h.sanitizePayload_eq 0, fun _ _ _ h => occurs_sanitizePayload h⟩

end YatriGo
