import YatriGo.Config.Env

/-! Trip estimates and fares, over exact rationals. -/

namespace YatriGo

/-- `Number(value.toFixed(2))`: two decimals, half away from zero. -/
def roundCurrency (value : ℚ) : ℚ :=
  if 0 ≤ value then (⌊value * 100 + 1 / 2⌋ : ℚ) / 100 else -((⌊-value * 100 + 1 / 2⌋ : ℚ) / 100)

def normalizeRideType (env : Env) (rideType : Option String) : String :=
  match rideType with
  | some t => if t = "" then normalizeDefault else env.toUpperCase t
  | none => normalizeDefault
where
  normalizeDefault : String :=
    if env.pricing.defaultRideType = "" then "STANDARD" else env.toUpperCase env.pricing.defaultRideType

def rideTypeSpeedMultiplier (rideType : String) : ℚ :=
  if rideType = "STANDARD" then 1
  else if rideType = "PREMIUM" then 95 / 100
  else if rideType = "AUTO" then 85 / 100
  else 1

def estimateEtaMinutes (env : Env) (distanceKm : ℚ) (rideType : Option String) : ℚ :=
  let multiplier := rideTypeSpeedMultiplier (normalizeRideType env rideType)
  let averageSpeedKmph := max (env.averageSpeedKmph * multiplier) 8
  max 1 (⌈distanceKm / averageSpeedKmph * 60⌉ : ℚ)

structure TripEstimate where
  rideType : String
  estimatedDistanceKm : ℚ
  estimatedDurationMin : ℚ
  estimatedEtaMinutes : ℚ

def estimateTrip (env : Env) (origin destination : Location) (rideType : Option String) :
    TripEstimate :=
  let normalizedRideType := normalizeRideType env rideType
  let distanceKm := env.haversineDistanceKm origin destination
  let estimatedDurationMin := estimateEtaMinutes env distanceKm (some normalizedRideType)
  { rideType := normalizedRideType
    estimatedDistanceKm := distanceKm
    estimatedDurationMin := estimatedDurationMin
    estimatedEtaMinutes := estimatedDurationMin }

def rideTypeFareMultiplier (rideType : String) : ℚ :=
  if rideType = "STANDARD" then 1
  else if rideType = "PREMIUM" then 3 / 2
  else if rideType = "AUTO" then 85 / 100
  else 1

structure Fare where
  currency : String
  rideType : String
  distanceKm : ℚ
  durationMin : ℚ
  waitingMin : ℚ
  baseFare : ℚ
  distanceCharge : ℚ
  durationCharge : ℚ
  waitingCharge : ℚ
  minimumFare : ℚ
  minimumApplied : Bool
  totalFare : ℚ
  commissionPercent : ℚ
  commissionAmount : ℚ
  driverEarning : ℚ
  deriving DecidableEq

structure Billing where
  currency : String
  totalFare : ℚ
  baseFare : ℚ
  distanceCharge : ℚ
  durationCharge : ℚ
  waitingCharge : ℚ
  deriving DecidableEq

def estimateFare (env : Env) (distanceKm durationMin : ℚ) (rideType : Option String)
    (waitingMin : ℚ) : Fare :=
  let normalizedRideType := normalizeRideType env rideType
  let multiplier := rideTypeFareMultiplier normalizedRideType
  let baseFare := roundCurrency (env.pricing.baseFare * multiplier)
  let distanceCharge := roundCurrency (distanceKm * env.pricing.perKm * multiplier)
  let durationCharge := roundCurrency (durationMin * env.pricing.perMinute * multiplier)
  let waitingCharge := roundCurrency (waitingMin * env.pricing.waitingPerMinute * multiplier)
  let subtotal := roundCurrency (baseFare + distanceCharge + durationCharge + waitingCharge)
  let totalFare := max subtotal env.pricing.minimumFare
  let commissionAmount := roundCurrency (totalFare * env.pricing.commissionPercent / 100)
  let driverEarning := roundCurrency (totalFare - commissionAmount)
  { currency := env.pricing.currency
    rideType := normalizedRideType
    distanceKm := roundCurrency distanceKm
    durationMin := roundCurrency durationMin
    waitingMin := roundCurrency waitingMin
    baseFare, distanceCharge, durationCharge, waitingCharge
    minimumFare := roundCurrency env.pricing.minimumFare
    minimumApplied := decide (totalFare > subtotal)
    totalFare := roundCurrency totalFare
    commissionPercent := roundCurrency env.pricing.commissionPercent
    commissionAmount, driverEarning }

end YatriGo
