import Mathlib.Data.List.Induction
import Mathlib.Tactic.Ring

/-! Requests that are counted in windows. A window opens with a request, counts the requests that come while
it lasts, and grants the first of them; windows open at least `width` apart. -/

namespace Concurrent

/-- The requests of the log, newest first, each with its time and its number in its window. The last window
opened at `start` and has counted `count` requests. -/
inductive Windowed (width : ℕ) : List (ℕ × ℕ) → ℕ → ℕ → Prop
  | first (t : ℕ) : Windowed width [(t, 1)] t 1
  | opened {log : List (ℕ × ℕ)} {start count t : ℕ} (h : Windowed width log start count) (apart : start + width ≤ t)
      (later : ∀ e ∈ log, e.1 ≤ t) : Windowed width ((t, 1) :: log) t 1
  | counted {log : List (ℕ × ℕ)} {start count t : ℕ} (h : Windowed width log start count)
      (later : ∀ e ∈ log, e.1 ≤ t) : Windowed width ((t, count + 1) :: log) start (count + 1)

/-- The requests of a stretch of time that were among the first `most` of their windows. -/
def granted (most since deadline : ℕ) (log : List (ℕ × ℕ)) : List (ℕ × ℕ) :=
  log.filter fun e => e.2 ≤ most ∧ since ≤ e.1 ∧ e.1 < deadline

variable {width most since deadline start count t n : ℕ} {log : List (ℕ × ℕ)}

theorem granted_cons {e : ℕ × ℕ} : (granted most since deadline (e :: log)).length =
    (granted most since deadline log).length + if e.2 ≤ most ∧ since ≤ e.1 ∧ e.1 < deadline then 1 else 0 := by
  unfold granted
  rw [List.filter_cons]
  by_cases he : e.2 ≤ most ∧ since ≤ e.1 ∧ e.1 < deadline
  · rw [if_pos (by simpa using he), if_pos he, List.length_cons]
  · rw [if_neg (by simpa using he), if_neg he, Nat.add_zero]

theorem granted_of_before (h : ∀ e ∈ log, e.1 < since) : granted most since deadline log = [] := by
  refine List.filter_eq_nil_iff.mpr fun e he => ?_
  have hbefore : e.1 < since := h e he
  simp only [decide_eq_true_eq]
  omega

theorem Windowed.start_mem (h : Windowed width log start count) : ∃ e ∈ log, e.1 = start := by
  induction h with
  | first t => exact ⟨_, List.mem_singleton_self _, rfl⟩
  | opened h apart later ih => exact ⟨_, List.mem_cons_self, rfl⟩
  | counted h later ih =>
    obtain ⟨e, he, hstart⟩ := ih
    exact ⟨e, List.mem_cons_of_mem _ he, hstart⟩

/-- Of the windows that reach into a stretch of time all but the first open in it, `width` apart. -/
theorem Windowed.windows (h : Windowed width log start count) (hlog : ∀ e ∈ log, e.1 < deadline) :
    ∃ k, (granted most since deadline log).length ≤ k * most + min count most ∧ (k ≠ 0 → since + (k - 1) * width ≤ start) := by
  induction h with
  | first t =>
    refine ⟨0, ?_, fun h => absurd rfl h⟩
    rw [granted_cons]
    have hnil : (granted most since deadline []).length = 0 := rfl
    split_ifs <;> omega
  | @opened log start count t h apart later ih =>
    obtain ⟨k, hgranted, hopened⟩ := ih fun e he => hlog e (List.mem_cons_of_mem _ he)
    by_cases hbefore : t < since
    · -- all that was counted lies before the stretch
      refine ⟨0, ?_, fun h => absurd rfl h⟩
      have hall : ∀ e ∈ (t, 1) :: log, e.1 < since := by
        rintro e he
        rcases List.mem_cons.mp he with rfl | he
        · exact hbefore
        · exact (later e he).trans_lt hbefore
      rw [granted_of_before hall]
      exact Nat.zero_le _
    · refine ⟨k + 1, ?_, fun _ => ?_⟩
      · rw [granted_cons, Nat.add_mul]
        split_ifs with hnew
        · have hone : 1 ≤ most := hnew.1
          omega
        · omega
      · rw [Nat.add_sub_cancel]
        rcases Nat.eq_zero_or_pos k with rfl | hpos
        · omega
        · have hk : k * width = (k - 1) * width + width := by
            obtain ⟨m, rfl⟩ := Nat.exists_eq_add_of_lt hpos
            simp only [Nat.zero_add, Nat.add_sub_cancel]
            ring
          have hstart := hopened (by omega)
          omega
  | @counted log start count t h later ih =>
    obtain ⟨k, hgranted, hopened⟩ := ih fun e he => hlog e (List.mem_cons_of_mem _ he)
    refine ⟨k, ?_, hopened⟩
    rw [granted_cons]
    split_ifs with hnew
    · have hcount : count + 1 ≤ most := hnew.1
      omega
    · omega

/-- In a stretch of time as long as `n` windows, as many requests are granted as `n + 1` windows grant. -/
theorem Windowed.granted_le (h : Windowed width log start count) :
    (granted most since (since + n * width) log).length ≤ (n + 1) * most := by
  -- what comes after the stretch adds nothing
  have hlate : ∀ {e : ℕ × ℕ} {log : List (ℕ × ℕ)}, since + n * width ≤ e.1 →
      (granted most since (since + n * width) log).length ≤ (n + 1) * most →
      (granted most since (since + n * width) (e :: log)).length ≤ (n + 1) * most := fun he hlog => by
    rw [granted_cons, if_neg (by omega)]
    exact hlog
  have hwithin : ∀ {log : List (ℕ × ℕ)} {start count : ℕ}, Windowed width log start count →
      (∀ e ∈ log, e.1 < since + n * width) → (granted most since (since + n * width) log).length ≤ (n + 1) * most :=
    fun {log start count} h hlog => by
      obtain ⟨k, hgranted, hopened⟩ := @Windowed.windows width most since _ start count log h hlog
      obtain ⟨e, he, hstart⟩ := h.start_mem
      have hbefore : start < since + n * width := hstart ▸ hlog e he
      have hk : k ≤ n := by
        by_contra hlt
        have hle : n * width ≤ (k - 1) * width := Nat.mul_le_mul_right _ (by omega)
        have hopen := hopened (by omega)
        omega
      have hle : k * most ≤ n * most := Nat.mul_le_mul_right _ hk
      rw [Nat.add_mul]
      omega
  have hlast : ∀ {e : ℕ × ℕ} {log : List (ℕ × ℕ)}, (∀ e' ∈ log, e'.1 ≤ e.1) → e.1 < since + n * width →
      ∀ e' ∈ e :: log, e'.1 < since + n * width := fun later hlt e' he' => by
    rcases List.mem_cons.mp he' with rfl | he'
    · exact hlt
    · exact (later e' he').trans_lt hlt
  induction h with
  | first t =>
    rcases Nat.lt_or_ge t (since + n * width) with hlt | hge
    · exact hwithin (.first t) (hlast (fun _ h => absurd h List.not_mem_nil) hlt)
    · exact hlate hge (Nat.zero_le _)
  | opened h apart later ih =>
    rename_i log start count t
    rcases Nat.lt_or_ge t (since + n * width) with hlt | hge
    · exact hwithin (h.opened apart later) (hlast later hlt)
    · exact hlate hge ih
  | counted h later ih =>
    rename_i log start count t
    rcases Nat.lt_or_ge t (since + n * width) with hlt | hge
    · exact hwithin (h.counted later) (hlast later hlt)
    · exact hlate hge ih

end Concurrent
