import Mathlib.Data.Rat.Floor
import YatriGo.Utils.Constants

/-! The configuration read by the services. -/

namespace YatriGo

structure Location where
  lat : ℚ
  lng : ℚ
  deriving DecidableEq, Repr

structure DispatchEnv where
  initialSearchRadiusKm : ℚ
  maxSearchRadiusKm : ℚ
  batchSize : ℕ
  responseTtlMs : ℕ
  reservationTtlMs : ℕ
  retryDelayMs : ℕ
  maxRounds : ℕ
  candidateMultiplier : ℕ

structure DriverEnv where
  heartbeatTtlSeconds : ℕ
  rejectCooldownSeconds : ℕ

structure PricingEnv where
  currency : String
  defaultRideType : String
  baseFare : ℚ
  perKm : ℚ
  perMinute : ℚ
  minimumFare : ℚ
  waitingPerMinute : ℚ
  commissionPercent : ℚ

/-- `env`, with what is computed outside the services: the haversine formula in floating
point, the distance Redis uses for GEOSEARCH, and `toUpperCase` by the tables of Unicode. -/
structure Env where
  dispatch : DispatchEnv
  driver : DriverEnv
  pricing : PricingEnv
  averageSpeedKmph : ℚ
  lockTtlMs : ℕ
  haversineDistanceKm : Location → Location → ℚ
  geoDistanceKm : Location → Location → ℚ
  toUpperCase : String → String

/-- The fallbacks of `readNumber` and `readString`. -/
def Env.defaults (haversineDistanceKm geoDistanceKm : Location → Location → ℚ) : Env where
  dispatch :=
    { initialSearchRadiusKm := 2
      maxSearchRadiusKm := 8
      batchSize := 3
      responseTtlMs := 12000
      reservationTtlMs := 14000
      retryDelayMs := 1500
      maxRounds := 4
      candidateMultiplier := 6 }
  driver := { heartbeatTtlSeconds := 15, rejectCooldownSeconds := 10 }
  pricing :=
    { currency := "INR"
      defaultRideType := "STANDARD"
      baseFare := 40
      perKm := 12
      perMinute := 2
      minimumFare := 60
      waitingPerMinute := 3 / 2
      commissionPercent := 20 }
  averageSpeedKmph := 28
  lockTtlMs := 5000
  haversineDistanceKm
  geoDistanceKm
  toUpperCase := String.toUpper

end YatriGo
