import YatriGo.Arith.Rounding
import YatriGo.System

/-! The fare and its split. Everything that is charged is a whole number of hundredths, so the driver's
share, rounded on its own, is what the commission leaves, and a longer trip costs no less for either side. -/

namespace YatriGo
open Arith

/-- Rates are not negative, the minimum fare is in whole hundredths, and the commission is a share. -/
structure PricingEnv.Sound (pricing : PricingEnv) : Prop where
  baseFare : 0 ≤ pricing.baseFare
  perKm : 0 ≤ pricing.perKm
  perMinute : 0 ≤ pricing.perMinute
  waitingPerMinute : 0 ≤ pricing.waitingPerMinute
  minimumFare : ∃ hundredths : ℤ, pricing.minimumFare = hundredths / 100
  commission : 0 ≤ pricing.commissionPercent ∧ pricing.commissionPercent ≤ 100

/-- The sum of the charges. -/
def Fare.charges (fare : Fare) : ℚ :=
  fare.baseFare + fare.distanceCharge + fare.durationCharge + fare.waitingCharge

/-- The fare is the charges or the minimum, and is split without a rest. -/
structure Fare.Splits (fare : Fare) (minimumFare : ℚ) : Prop where
  exact : fare.commissionAmount + fare.driverEarning = fare.totalFare
  commission : 0 ≤ fare.commissionAmount ∧ fare.commissionAmount ≤ fare.totalFare
  earning : 0 ≤ fare.driverEarning ∧ fare.driverEarning ≤ fare.totalFare
  minimum : minimumFare ≤ fare.totalFare
  charged : fare.minimumApplied = false → fare.totalFare = fare.charges
  applied : fare.minimumApplied = true ↔ fare.charges < minimumFare

/-- No side of the fare is higher. -/
structure Fare.AtMost (fare fare' : Fare) : Prop where
  total : fare.totalFare ≤ fare'.totalFare
  commission : fare.commissionAmount ≤ fare'.commissionAmount
  earning : fare.driverEarning ≤ fare'.driverEarning

theorem roundCurrency_eq (value : ℚ) : roundCurrency value = roundTo 100 value := by
  simp only [roundCurrency, roundTo, Nat.cast_ofNat]

theorem roundCurrency_onGrid {value : ℚ} : OnGrid 100 (roundCurrency value) := by
  rw [roundCurrency_eq]
  exact onGrid_roundTo

theorem roundCurrency_of_onGrid {value : ℚ} (h : OnGrid 100 value) : roundCurrency value = value := by
  rw [roundCurrency_eq]
  exact h.roundTo_eq (by decide)

theorem roundCurrency_nonneg {value : ℚ} (h : 0 ≤ value) : 0 ≤ roundCurrency value := by
  rw [roundCurrency_eq]
  exact roundTo_nonneg h

theorem roundCurrency_mono {value value' : ℚ} (h : value ≤ value') :
    roundCurrency value ≤ roundCurrency value' := by
  rw [roundCurrency_eq, roundCurrency_eq]
  exact roundTo_mono h

theorem sub_roundCurrency_mono {total total' percent : ℚ} (hpercent : 0 ≤ percent ∧ percent ≤ 100) (htotal : OnGrid 100 total)
    (htotal' : OnGrid 100 total') (h : total ≤ total') :
    total - roundCurrency (total * percent / 100) ≤ total' - roundCurrency (total' * percent / 100) := by
  have hshare : 0 ≤ percent / 100 ∧ percent / 100 ≤ 1 := by
    obtain ⟨hlow, hhigh⟩ := hpercent
    constructor <;> linarith
  have hrest := sub_roundTo_mono (by decide) hshare htotal htotal' h
  rw [roundCurrency_eq, roundCurrency_eq, mul_div_assoc, mul_div_assoc]
  exact hrest

theorem PricingEnv.Sound.onGrid {pricing : PricingEnv} (h : pricing.Sound) : OnGrid 100 pricing.minimumFare := by
  obtain ⟨hundredths, heq⟩ := h.minimumFare
  exact ⟨hundredths, by rw [heq, Nat.cast_ofNat]⟩

theorem rideTypeFareMultiplier_nonneg (rideType : String) : 0 ≤ rideTypeFareMultiplier rideType := by
  unfold rideTypeFareMultiplier
  split_ifs <;> norm_num

theorem split_total {total percent : ℚ} (htotal : OnGrid 100 total) (hnonneg : 0 ≤ total)
    (hpercent : 0 ≤ percent ∧ percent ≤ 100) :
    0 ≤ roundCurrency (total * percent / 100) ∧ roundCurrency (total * percent / 100) ≤ total ∧
      roundCurrency (total - roundCurrency (total * percent / 100)) =
        total - roundCurrency (total * percent / 100) := by
  obtain ⟨hlow, hhigh⟩ := hpercent
  have hshare : 0 ≤ total * percent / 100 := by positivity
  have hle : total * percent / 100 ≤ total := by
    have hmul : total * percent ≤ total * 100 := mul_le_mul_of_nonneg_left hhigh hnonneg
    linarith
  have hrounded : roundCurrency (total * percent / 100) ≤ roundCurrency total := roundCurrency_mono hle
  rw [roundCurrency_of_onGrid htotal] at hrounded
  exact ⟨roundCurrency_nonneg hshare, hrounded, roundCurrency_of_onGrid (htotal.sub roundCurrency_onGrid)⟩

section estimateFare

variable {env : Env} {distanceKm durationMin waitingMin : ℚ} {rideType : Option String}

theorem charges_onGrid : OnGrid 100 (estimateFare env distanceKm durationMin rideType waitingMin).charges :=
  ((roundCurrency_onGrid.add roundCurrency_onGrid).add roundCurrency_onGrid).add roundCurrency_onGrid

theorem charges_nonneg (hpricing : env.pricing.Sound) (hdistance : 0 ≤ distanceKm) (hduration : 0 ≤ durationMin)
    (hwaiting : 0 ≤ waitingMin) : 0 ≤ (estimateFare env distanceKm durationMin rideType waitingMin).charges := by
  have hmultiplier := rideTypeFareMultiplier_nonneg (normalizeRideType env rideType)
  have hbase := roundCurrency_nonneg (mul_nonneg hpricing.baseFare hmultiplier)
  have hkm := roundCurrency_nonneg (mul_nonneg (mul_nonneg hdistance hpricing.perKm) hmultiplier)
  have hminute := roundCurrency_nonneg (mul_nonneg (mul_nonneg hduration hpricing.perMinute) hmultiplier)
  have hwait := roundCurrency_nonneg (mul_nonneg (mul_nonneg hwaiting hpricing.waitingPerMinute) hmultiplier)
  exact add_nonneg (add_nonneg (add_nonneg hbase hkm) hminute) hwait

theorem estimateFare_total (hminimum : OnGrid 100 env.pricing.minimumFare) :
    (estimateFare env distanceKm durationMin rideType waitingMin).totalFare =
      max (estimateFare env distanceKm durationMin rideType waitingMin).charges env.pricing.minimumFare := by
  have hcharges := @charges_onGrid env distanceKm durationMin waitingMin rideType
  show roundCurrency (max (roundCurrency (estimateFare env distanceKm durationMin rideType waitingMin).charges)
    env.pricing.minimumFare) = _
  rw [roundCurrency_of_onGrid hcharges]
  exact roundCurrency_of_onGrid (hcharges.max hminimum)

theorem estimateFare_commission (hminimum : OnGrid 100 env.pricing.minimumFare) :
    (estimateFare env distanceKm durationMin rideType waitingMin).commissionAmount =
      roundCurrency ((estimateFare env distanceKm durationMin rideType waitingMin).totalFare *
        env.pricing.commissionPercent / 100) := by
  have hcharges := @charges_onGrid env distanceKm durationMin waitingMin rideType
  rw [estimateFare_total hminimum]
  show roundCurrency (max (roundCurrency (estimateFare env distanceKm durationMin rideType waitingMin).charges)
    env.pricing.minimumFare * env.pricing.commissionPercent / 100) = _
  rw [roundCurrency_of_onGrid hcharges]

theorem estimateFare_earning (hminimum : OnGrid 100 env.pricing.minimumFare) :
    (estimateFare env distanceKm durationMin rideType waitingMin).driverEarning =
      roundCurrency ((estimateFare env distanceKm durationMin rideType waitingMin).totalFare -
        (estimateFare env distanceKm durationMin rideType waitingMin).commissionAmount) := by
  have hcharges := @charges_onGrid env distanceKm durationMin waitingMin rideType
  rw [estimateFare_total hminimum]
  show roundCurrency (max (roundCurrency (estimateFare env distanceKm durationMin rideType waitingMin).charges)
    env.pricing.minimumFare - (estimateFare env distanceKm durationMin rideType waitingMin).commissionAmount) = _
  rw [roundCurrency_of_onGrid hcharges]

theorem estimateFare_applied : (estimateFare env distanceKm durationMin rideType waitingMin).minimumApplied = true ↔
    (estimateFare env distanceKm durationMin rideType waitingMin).charges < env.pricing.minimumFare := by
  have hcharges := @charges_onGrid env distanceKm durationMin waitingMin rideType
  show decide (roundCurrency (estimateFare env distanceKm durationMin rideType waitingMin).charges <
    max (roundCurrency (estimateFare env distanceKm durationMin rideType waitingMin).charges)
      env.pricing.minimumFare) = true ↔ _
  rw [roundCurrency_of_onGrid hcharges, decide_eq_true_iff, lt_max_iff]
  exact or_iff_right (lt_irrefl _)

theorem splits_estimateFare (hpricing : env.pricing.Sound) (hdistance : 0 ≤ distanceKm)
    (hduration : 0 ≤ durationMin) (hwaiting : 0 ≤ waitingMin) :
    (estimateFare env distanceKm durationMin rideType waitingMin).Splits env.pricing.minimumFare := by
  have hminimum := hpricing.onGrid
  have htotal := @estimateFare_total env distanceKm durationMin waitingMin rideType hminimum
  have hcharges := @charges_nonneg env distanceKm durationMin waitingMin rideType hpricing hdistance hduration hwaiting
  have hgrid : OnGrid 100 (estimateFare env distanceKm durationMin rideType waitingMin).totalFare :=
    roundCurrency_onGrid
  have hnonneg : 0 ≤ (estimateFare env distanceKm durationMin rideType waitingMin).totalFare := by
    rw [htotal]
    exact hcharges.trans (le_max_left _ _)
  obtain ⟨hlow, hhigh, hrest⟩ := split_total hgrid hnonneg hpricing.commission
  rw [← estimateFare_commission hminimum] at hlow hhigh hrest
  rw [← estimateFare_earning hminimum] at hrest
  refine ⟨?_, ⟨hlow, hhigh⟩, ⟨?_, ?_⟩, ?_, fun hnot => ?_, estimateFare_applied⟩
  · rw [hrest, add_sub_cancel]
  · rw [hrest]
    exact sub_nonneg.mpr hhigh
  · rw [hrest]
    exact sub_le_self _ hlow
  · rw [htotal]
    exact le_max_right _ _
  · have hle : env.pricing.minimumFare ≤ (estimateFare env distanceKm durationMin rideType waitingMin).charges := by
      rw [← not_lt, ← estimateFare_applied, hnot]
      exact Bool.false_ne_true
    rw [htotal, max_eq_left hle]

theorem charge_mono {amount amount' rate multiplier : ℚ} (hrate : 0 ≤ rate) (hmultiplier : 0 ≤ multiplier)
    (h : amount ≤ amount') : roundCurrency (amount * rate * multiplier) ≤ roundCurrency (amount' * rate * multiplier) :=
  roundCurrency_mono (mul_le_mul_of_nonneg_right (mul_le_mul_of_nonneg_right h hrate) hmultiplier)

theorem charges_mono {distanceKm' durationMin' waitingMin' : ℚ} (hpricing : env.pricing.Sound) (hdistance : distanceKm ≤ distanceKm')
    (hduration : durationMin ≤ durationMin') (hwaiting : waitingMin ≤ waitingMin') :
    (estimateFare env distanceKm durationMin rideType waitingMin).charges ≤
      (estimateFare env distanceKm' durationMin' rideType waitingMin').charges := by
  have hmultiplier := rideTypeFareMultiplier_nonneg (normalizeRideType env rideType)
  have hkm := charge_mono hpricing.perKm hmultiplier hdistance
  have hminute := charge_mono hpricing.perMinute hmultiplier hduration
  have hwait := charge_mono hpricing.waitingPerMinute hmultiplier hwaiting
  exact add_le_add (add_le_add (add_le_add le_rfl hkm) hminute) hwait

theorem estimateFare_atMost {distanceKm' durationMin' waitingMin' : ℚ} (hpricing : env.pricing.Sound)
    (hdistance : distanceKm ≤ distanceKm') (hduration : durationMin ≤ durationMin') (hwaiting : waitingMin ≤ waitingMin') :
    (estimateFare env distanceKm durationMin rideType waitingMin).AtMost
      (estimateFare env distanceKm' durationMin' rideType waitingMin') := by
  have hminimum := hpricing.onGrid
  have hgrid : ∀ {distanceKm durationMin waitingMin : ℚ},
      OnGrid 100 (estimateFare env distanceKm durationMin rideType waitingMin).totalFare := roundCurrency_onGrid
  have htotal : (estimateFare env distanceKm durationMin rideType waitingMin).totalFare ≤
      (estimateFare env distanceKm' durationMin' rideType waitingMin').totalFare := by
    rw [estimateFare_total hminimum, estimateFare_total hminimum]
    exact max_le_max_right _ (charges_mono hpricing hdistance hduration hwaiting)
  refine ⟨htotal, ?_, ?_⟩
  · rw [estimateFare_commission hminimum, estimateFare_commission hminimum]
    apply roundCurrency_mono
    have hscaled := mul_le_mul_of_nonneg_right htotal hpricing.commission.1
    linarith
  · rw [estimateFare_earning hminimum, estimateFare_earning hminimum]
    apply roundCurrency_mono
    rw [estimateFare_commission hminimum, estimateFare_commission hminimum]
    exact sub_roundCurrency_mono hpricing.commission hgrid hgrid htotal

end estimateFare

/-- The fares of an estimate and of a completed ride are split without losing or creating money. -/
theorem fare_splits (env : Env) (hpricing : env.pricing.Sound) (ride : RideHash) (rideType : Option String)
    (distanceKm durationMin waitingMin : ℚ) (hdistance : 0 ≤ distanceKm) (hduration : 0 ≤ durationMin)
    (hwaiting : 0 ≤ waitingMin) :
    (estimateFare env distanceKm durationMin rideType waitingMin).Splits env.pricing.minimumFare ∧
      (calculateFinalFare env ride distanceKm durationMin waitingMin).Splits env.pricing.minimumFare :=
  ⟨splits_estimateFare hpricing hdistance hduration hwaiting,
    splits_estimateFare hpricing hdistance hduration hwaiting⟩

theorem sound_town : townEnv.pricing.Sound where
  baseFare := by norm_num [townEnv, Env.defaults]
  perKm := by norm_num [townEnv, Env.defaults]
  perMinute := by norm_num [townEnv, Env.defaults]
  waitingPerMinute := by norm_num [townEnv, Env.defaults]
  minimumFare := ⟨6000, by norm_num [townEnv, Env.defaults]⟩
  commission := by norm_num [townEnv, Env.defaults]

theorem fare_splits_town :
    (estimateFare townEnv (33 / 8) 17 (some "AUTO") 3).Splits 60 ∧
      (calculateFinalFare townEnv {} (33 / 8) 17 3).Splits 60 :=
  fare_splits townEnv sound_town {} (some "AUTO") (33 / 8) 17 3 (by norm_num) (by norm_num) (by norm_num)

/-- A trip that is longer in no respect costs no more and pays no more, in an estimate and after the ride. -/
theorem fare_at_most (env : Env) (hpricing : env.pricing.Sound) (ride : RideHash) (rideType : Option String)
    (distanceKm distanceKm' durationMin durationMin' waitingMin waitingMin' : ℚ) (hdistance : distanceKm ≤ distanceKm')
    (hduration : durationMin ≤ durationMin') (hwaiting : waitingMin ≤ waitingMin') :
    (estimateFare env distanceKm durationMin rideType waitingMin).AtMost
        (estimateFare env distanceKm' durationMin' rideType waitingMin') ∧
      (calculateFinalFare env ride distanceKm durationMin waitingMin).AtMost
        (calculateFinalFare env ride distanceKm' durationMin' waitingMin') :=
  ⟨estimateFare_atMost hpricing hdistance hduration hwaiting, estimateFare_atMost hpricing hdistance hduration hwaiting⟩

theorem fare_at_most_town :
    (estimateFare townEnv (33 / 8) 17 (some "AUTO") 3).AtMost (estimateFare townEnv 12 17 (some "AUTO") 4) ∧
      (calculateFinalFare townEnv {} (33 / 8) 17 3).AtMost (calculateFinalFare townEnv {} 12 17 4) :=
  fare_at_most townEnv sound_town {} (some "AUTO") (33 / 8) 12 17 17 3 4 (by norm_num) le_rfl (by norm_num)

end YatriGo
