import Mathlib.Algebra.Order.Floor.Ring
import Mathlib.Data.Rat.Floor
import Mathlib.Tactic.FieldSimp
import Mathlib.Tactic.Linarith
import Mathlib.Tactic.Positivity

/-! Rounding of rationals to a fixed number of steps per unit, half away from zero. -/

namespace Arith

/-- The closest multiple of `1 / n`; of two, the one further from zero. -/
def roundTo (n : ℕ) (x : ℚ) : ℚ :=
  if 0 ≤ x then (⌊x * n + 1 / 2⌋ : ℚ) / n else -((⌊-x * n + 1 / 2⌋ : ℚ) / n)

def OnGrid (n : ℕ) (x : ℚ) : Prop := ∃ k : ℤ, x = k / n

variable {n : ℕ} {x y : ℚ}

theorem OnGrid.add (hx : OnGrid n x) (hy : OnGrid n y) : OnGrid n (x + y) := by
  obtain ⟨k, rfl⟩ := hx
  obtain ⟨l, rfl⟩ := hy
  refine ⟨k + l, ?_⟩
  rw [Int.cast_add, add_div]

theorem OnGrid.sub (hx : OnGrid n x) (hy : OnGrid n y) : OnGrid n (x - y) := by
  obtain ⟨k, rfl⟩ := hx
  obtain ⟨l, rfl⟩ := hy
  refine ⟨k - l, ?_⟩
  rw [Int.cast_sub, sub_div]

theorem OnGrid.max (hx : OnGrid n x) (hy : OnGrid n y) : OnGrid n (max x y) := by
  rcases max_choice x y with h | h
  · rw [h]
    exact hx
  · rw [h]
    exact hy

theorem onGrid_roundTo : OnGrid n (roundTo n x) := by
  unfold roundTo
  split_ifs
  · exact ⟨_, rfl⟩
  · refine ⟨-⌊-x * n + 1 / 2⌋, ?_⟩
    rw [Int.cast_neg, neg_div]

theorem floor_half (k : ℤ) : ⌊(k : ℚ) + 1 / 2⌋ = k := by
  rw [Int.floor_intCast_add]
  have hhalf : ⌊(1 / 2 : ℚ)⌋ = 0 := by norm_num
  rw [hhalf, add_zero]

theorem OnGrid.roundTo_eq (hn : 0 < n) (hx : OnGrid n x) : roundTo n x = x := by
  obtain ⟨k, rfl⟩ := hx
  have hne : (n : ℚ) ≠ 0 := by
    have : (0 : ℚ) < n := by exact_mod_cast hn
    exact this.ne'
  have hk : (k / n : ℚ) * n = k := div_mul_cancel₀ _ hne
  have hneg : -(k / n : ℚ) * n = ((-k : ℤ) : ℚ) := by
    rw [neg_mul, hk, Int.cast_neg]
  unfold roundTo
  split_ifs
  · rw [hk, floor_half]
  · rw [hneg, floor_half, Int.cast_neg, neg_div, neg_neg]

theorem roundTo_nonneg (hx : 0 ≤ x) : 0 ≤ roundTo n x := by
  unfold roundTo
  rw [if_pos hx]
  have hfloor : (0 : ℤ) ≤ ⌊x * n + 1 / 2⌋ := Int.floor_nonneg.mpr (by positivity)
  have hcast : (0 : ℚ) ≤ (⌊x * n + 1 / 2⌋ : ℚ) := by exact_mod_cast hfloor
  positivity

theorem roundTo_nonpos (hx : x < 0) : roundTo n x ≤ 0 := by
  unfold roundTo
  rw [if_neg (not_le.mpr hx)]
  have hscaled : 0 ≤ -x * n := mul_nonneg (neg_pos.mpr hx).le (Nat.cast_nonneg n)
  have hfloor : (0 : ℤ) ≤ ⌊-x * n + 1 / 2⌋ := Int.floor_nonneg.mpr (by linarith)
  have hcast : (0 : ℚ) ≤ (⌊-x * n + 1 / 2⌋ : ℚ) := by exact_mod_cast hfloor
  have hquotient : (0 : ℚ) ≤ (⌊-x * n + 1 / 2⌋ : ℚ) / n := div_nonneg hcast (Nat.cast_nonneg n)
  linarith

theorem roundTo_mono (h : x ≤ y) : roundTo n x ≤ roundTo n y := by
  have hn : (0 : ℚ) ≤ n := Nat.cast_nonneg n
  by_cases hx : 0 ≤ x
  · have hy : 0 ≤ y := hx.trans h
    unfold roundTo
    rw [if_pos hx, if_pos hy]
    have hscaled : x * n + 1 / 2 ≤ y * n + 1 / 2 := by
      have := mul_le_mul_of_nonneg_right h hn
      linarith
    have hfloor : (⌊x * n + 1 / 2⌋ : ℚ) ≤ (⌊y * n + 1 / 2⌋ : ℚ) := by exact_mod_cast Int.floor_le_floor hscaled
    exact div_le_div_of_nonneg_right hfloor hn
  · by_cases hy : 0 ≤ y
    · exact (roundTo_nonpos (not_le.mp hx)).trans (roundTo_nonneg hy)
    · unfold roundTo
      rw [if_neg hx, if_neg hy]
      have hscaled : -y * n + 1 / 2 ≤ -x * n + 1 / 2 := by
        have := mul_le_mul_of_nonneg_right (neg_le_neg h) hn
        linarith
      have hfloor : (⌊-y * n + 1 / 2⌋ : ℚ) ≤ (⌊-x * n + 1 / 2⌋ : ℚ) := by exact_mod_cast Int.floor_le_floor hscaled
      exact neg_le_neg (div_le_div_of_nonneg_right hfloor hn)

theorem roundTo_neg : roundTo n (-x) = -roundTo n x := by
  have hzero : roundTo n 0 = 0 := by
    have hhalf : ⌊(1 / 2 : ℚ)⌋ = 0 := by norm_num
    unfold roundTo
    rw [if_pos le_rfl, zero_mul, zero_add, hhalf, Int.cast_zero, zero_div]
  rcases lt_trichotomy x 0 with hx | rfl | hx
  · unfold roundTo
    rw [if_pos (neg_pos.mpr hx).le, if_neg (not_le.mpr hx), neg_neg]
  · rw [neg_zero, hzero, neg_zero]
  · unfold roundTo
    rw [if_neg (not_le.mpr (neg_neg_of_pos hx)), if_pos hx.le, neg_neg]

theorem roundTo_add (hn : 0 < n) (hx : 0 ≤ x) {k : ℤ} (hk : 0 ≤ k) : roundTo n (x + k / n) = roundTo n x + k / n := by
  have hpos : (0 : ℚ) < n := by exact_mod_cast hn
  have hstep : (0 : ℚ) ≤ k / n := div_nonneg (by exact_mod_cast hk) hpos.le
  have hscaled : (x + k / n) * n + 1 / 2 = x * n + 1 / 2 + k := by
    rw [add_mul, div_mul_cancel₀ _ hpos.ne']
    ring
  unfold roundTo
  rw [if_pos hx, if_pos (add_nonneg hx hstep), hscaled, Int.floor_add_intCast, Int.cast_add, add_div]

/-- A rounded share grows no faster than what it is a share of: amounts that are not negative. -/
theorem sub_roundTo_le {q : ℚ} (hn : 0 < n) (hq : 0 ≤ q ∧ q ≤ 1) (hx : OnGrid n x) (hy : OnGrid n y) (hnonneg : 0 ≤ x)
    (h : x ≤ y) : x - roundTo n (x * q) ≤ y - roundTo n (y * q) := by
  have hpos : (0 : ℚ) < n := by exact_mod_cast hn
  obtain ⟨k, hdiff⟩ : OnGrid n (y - x) := hy.sub hx
  have hk : 0 ≤ k := by
    have hscaled : (y - x) * n = k := by rw [hdiff, div_mul_cancel₀ _ hpos.ne']
    have hcast : (0 : ℚ) ≤ k := by
      rw [← hscaled]
      exact mul_nonneg (sub_nonneg.mpr h) hpos.le
    exact_mod_cast hcast
  have hshare : y * q ≤ x * q + k / n := by
    have hle : (y - x) * q ≤ (y - x) * 1 := mul_le_mul_of_nonneg_left hq.2 (sub_nonneg.mpr h)
    rw [← hdiff]
    linarith
  have hrounded : roundTo n (y * q) ≤ roundTo n (x * q) + k / n := by
    rw [← roundTo_add hn (mul_nonneg hnonneg hq.1) hk]
    exact roundTo_mono hshare
  rw [← hdiff] at hrounded
  linarith

theorem OnGrid.neg (hx : OnGrid n x) : OnGrid n (-x) := by
  obtain ⟨k, rfl⟩ := hx
  refine ⟨-k, ?_⟩
  rw [Int.cast_neg, neg_div]

/-- What is left of an amount after a rounded share of it grows with the amount. -/
theorem sub_roundTo_mono {q : ℚ} (hn : 0 < n) (hq : 0 ≤ q ∧ q ≤ 1) (hx : OnGrid n x) (hy : OnGrid n y) (h : x ≤ y) :
    x - roundTo n (x * q) ≤ y - roundTo n (y * q) := by
  -- around zero both sides are compared with zero
  have hzero : OnGrid n 0 := ⟨0, by rw [Int.cast_zero, zero_div]⟩
  have habove : ∀ {z : ℚ}, OnGrid n z → 0 ≤ z → 0 ≤ z - roundTo n (z * q) := by
    intro z hz hnonneg
    have hle := sub_roundTo_le hn hq hzero hz le_rfl hnonneg
    rw [zero_mul, hzero.roundTo_eq hn, sub_zero] at hle
    exact hle
  have hneg : ∀ z : ℚ, -z - roundTo n (-z * q) = -(z - roundTo n (z * q)) := by
    intro z
    rw [neg_mul, roundTo_neg]
    ring
  rcases le_total 0 x with hxpos | hxneg
  · exact sub_roundTo_le hn hq hx hy hxpos h
  · rcases le_total 0 y with hypos | hyneg
    · have hbelow := habove hx.neg (neg_nonneg.mpr hxneg)
      rw [hneg] at hbelow
      exact (neg_nonneg.mp hbelow).trans (habove hy hypos)
    · have hmirror := sub_roundTo_le hn hq hy.neg hx.neg (neg_nonneg.mpr hyneg) (neg_le_neg h)
      rw [hneg, hneg] at hmirror
      exact neg_le_neg_iff.mp hmirror

end Arith
