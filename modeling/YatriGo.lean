import YatriGo.Concurrent.Prog
import YatriGo.Concurrent.Pool
import YatriGo.Concurrent.RelyGuarantee
import YatriGo.Concurrent.Solo
import YatriGo.Config.Env
import YatriGo.Services.Pricing
import YatriGo.Redis.Store
import YatriGo.Redis.Command
import YatriGo.Services.DriverState
import YatriGo.Services.RideState
import YatriGo.Services.Dispatch
import YatriGo.Services.Recovery
import YatriGo.System
import YatriGo.Redis.Frame
import YatriGo.Proofs.Footprint
import YatriGo.Proofs.Locking
import YatriGo.Proofs.RideContract
import YatriGo.Proofs.RideOperations
import YatriGo.Proofs.RideSteps
import YatriGo.Proofs.Acceptance
import YatriGo.Proofs.Versions
import YatriGo.Proofs.DispatchFootprint
import YatriGo.Proofs.AcceptanceStands
import YatriGo.Proofs.CustomerRides
import YatriGo.Proofs.DriverRides
import YatriGo.Proofs.DriverRefs
import YatriGo.Proofs.StuckDrivers
import YatriGo.Proofs.Orphans
import YatriGo.Proofs.RideRefs
import YatriGo.Proofs.RetrySafety
import YatriGo.Proofs.LifeCycle
import YatriGo.Proofs.Parties
import YatriGo.Concurrent.Sequential
import YatriGo.Proofs.Ledger
import YatriGo.Proofs.Walk
import YatriGo.Proofs.StandSteps
import YatriGo.Proofs.DriverSteps
import YatriGo.Proofs.SerialRides
import YatriGo.Proofs.SerialDispatch
import YatriGo.Proofs.SerialOffers
import YatriGo.Proofs.SerialTransitions
import YatriGo.Proofs.SerialDrivers
import YatriGo.Proofs.SerialSystem
import YatriGo.Proofs.KeysAgree
import YatriGo.Proofs.SingleOffer
import YatriGo.Socket.Helpers
import YatriGo.Proofs.InboundEvents
import YatriGo.Text.Separated
import YatriGo.Proofs.EventKeys
import YatriGo.Services.Rebuild
import YatriGo.Proofs.RebuildTurns
import YatriGo.Proofs.RebuildFrame
import YatriGo.Proofs.FirstVersion
import YatriGo.Proofs.SaveRestore
import YatriGo.Proofs.DriverFootprint
import YatriGo.Proofs.Offline
import YatriGo.Proofs.DriverSections
import YatriGo.Proofs.StaysOffline
import YatriGo.Arith.Rounding
import YatriGo.Proofs.FareSplit
import YatriGo.Text.Json
import YatriGo.Middleware.Auth
import YatriGo.Proofs.Tokens
import YatriGo.Proofs.LockDiscipline
import YatriGo.Proofs.ReleaseFrame
import YatriGo.Proofs.Alone
import YatriGo.Proofs.RideFootprint
import YatriGo.Proofs.Searches
import YatriGo.Proofs.FalseExhaustion
import YatriGo.Proofs.SearchRounds
import YatriGo.Proofs.Rejections
import YatriGo.Proofs.StaleJobs
import YatriGo.Proofs.StaleDrivers
import YatriGo.Queues.JobIds
import YatriGo.Proofs.JobIds
import YatriGo.Text.Frames
import YatriGo.Redis.Keys
import YatriGo.Proofs.KeyTexts
import YatriGo.Socket.Debug
import YatriGo.Proofs.Redaction
import YatriGo.Proofs.Locations
import YatriGo.Proofs.BatchOffers
import YatriGo.Proofs.DispatchEnds
import YatriGo.Concurrent.Debts
import YatriGo.Proofs.Records
import YatriGo.Proofs.Balanced
import YatriGo.Proofs.SyncDebts
import YatriGo.Proofs.Convergence
import YatriGo.Proofs.Settlement
import YatriGo.Proofs.Orderly
import YatriGo.Proofs.FreeLocks
import YatriGo.Concurrent.History
import YatriGo.Proofs.Publications
import YatriGo.Proofs.Messages
import YatriGo.Proofs.BackedMessages
import YatriGo.Proofs.StatusDebts
import YatriGo.Proofs.StatusMessages
import YatriGo.Proofs.SearchDebts
import YatriGo.Proofs.SearchesGoOn
import YatriGo.Concurrent.Windows
import YatriGo.Services.RateLimit
import YatriGo.Proofs.RateLimits
import YatriGo.Concurrent.Onlookers
import YatriGo.Socket.Displays
import YatriGo.Proofs.RideDrivers
import YatriGo.Proofs.DrivenRides
import YatriGo.Proofs.OwnDisplays
