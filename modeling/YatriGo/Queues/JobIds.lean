import YatriGo.Redis.Store
import YatriGo.Text.Json
import YatriGo.Text.Rewrites

/-! The ids under which jobs are added, as the text that BullMQ compares; a regular expression without the flag
`u` reads code units. The store knows a job by the arguments of `buildJobId`; here is what becomes of them. -/

namespace YatriGo
open Text Js

/-- `String(n)` of a natural number. -/
def numberText (n : ℕ) : Units := (Nat.toDigits 10 n).map codeUnit

def dash : CodeUnit := codeUnit '-'
def underscore : CodeUnit := codeUnit '_'

/-- `[:\s]`. -/
def colonOrSpace (u : CodeUnit) : Bool :=
  u.toNat ∈ [58, 9, 10, 11, 12, 13, 32, 160, 5760, 8232, 8233, 8239, 8287, 12288, 65279] ||
    (8192 ≤ u.toNat && u.toNat ≤ 8202)

def isUpper (u : CodeUnit) : Bool := 65 ≤ u.toNat && u.toNat ≤ 90

def isHexDigit (u : CodeUnit) : Bool :=
  (48 ≤ u.toNat && u.toNat ≤ 57) || (65 ≤ u.toNat && u.toNat ≤ 70) || (97 ≤ u.toNat && u.toNat ≤ 102)

/-- `[a-zA-Z0-9]`. -/
def letterOrDigit (u : CodeUnit) : Bool :=
  (97 ≤ u.toNat && u.toNat ≤ 122) || isUpper u || (48 ≤ u.toNat && u.toNat ≤ 57)

/-- `[-_]`. -/
def isMark (u : CodeUnit) : Bool := u = dash || u = underscore

/-- `[^a-zA-Z0-9-_]`. -/
def illegal (u : CodeUnit) : Bool := !(letterOrDigit u || isMark u)

def sanitizeJobIdPart (value : Units) : Units :=
  let text := trim isMark (collapse underscore (collapse dash
    (replaceAll illegal dash (replaceAll colonOrSpace underscore value))))
  if text = [] then units "part" else text

def buildJobId (parts : List Units) : Units :=
  [underscore, underscore].intercalate (parts.map sanitizeJobIdPart)

/-- Five groups of hexadecimal digits. -/
def IsUuid (text : Units) : Prop :=
  ∃ groups : List Units, groups.map List.length = [8, 4, 4, 4, 12] ∧ (∀ g ∈ groups, ∀ u ∈ g, isHexDigit u = true) ∧
    text = [dash].intercalate groups

/-- Words in upper case, joined by single underscores. -/
def IsReason (text : Units) : Prop :=
  ∃ words : List Units, words ≠ [] ∧ (∀ w ∈ words, w ≠ [] ∧ ∀ u ∈ w, isUpper u = true) ∧
    text = [underscore].intercalate words

abbrev UuidText := { text : Units // IsUuid text }
abbrev ReasonText := { text : Units // IsReason text }

/-- The jobs that are known by a ride. -/
inductive RideJob
  | startDispatch (rideId : UuidText) (version : ℕ) (reason : ReasonText)
  | batchTimeout (rideId batchId : UuidText)
  | persistRide (rideId : UuidText) (version : ℕ)

/-- The arguments of `buildJobId` in `enqueueDispatchStart`, `enqueueBatchTimeout` and `enqueueRideSync`. -/
def RideJob.parts : RideJob → List Units
  | .startDispatch rideId version reason => [units "dispatch-start", rideId.val, numberText version, reason.val]
  | .batchTimeout rideId batchId => [units "dispatch-timeout", rideId.val, batchId.val]
  | .persistRide rideId version => [units "persist-ride", rideId.val, numberText version]

def RideJob.jobId (job : RideJob) : Units := buildJobId job.parts

def StartReason.text : StartReason → String
  | .requested => "REQUESTED"
  | .expandRadius => "EXPAND_RADIUS"
  | .requeue => "REQUEUE"
  | .recoveryNoBatch => "RECOVERY_NO_BATCH"

theorem isReason_of_all {text : Units} {words : List Units} (hne : words ≠ [])
    (hall : words.all (fun w => w ≠ [] && w.all isUpper) = true) (htext : text = [underscore].intercalate words) :
    IsReason text := by
  refine ⟨words, hne, fun w hw => ?_, htext⟩
  have hword := List.all_eq_true.mp hall w hw
  simp only [ne_eq, decide_not, Bool.and_eq_true, Bool.not_eq_true', decide_eq_false_iff_not] at hword
  exact ⟨hword.1, List.all_eq_true.mp hword.2⟩

theorem isReason_text : ∀ reason : StartReason, IsReason (units reason.text)
  | .requested => isReason_of_all (List.cons_ne_nil (units "REQUESTED") []) (by decide) (by decide)
  | .expandRadius => isReason_of_all (List.cons_ne_nil (units "EXPAND") [units "RADIUS"]) (by decide) (by decide)
  | .requeue => isReason_of_all (List.cons_ne_nil (units "REQUEUE") []) (by decide) (by decide)
  | .recoveryNoBatch =>
    isReason_of_all (List.cons_ne_nil (units "RECOVERY") [units "NO", units "BATCH"]) (by decide) (by decide)

/-- The job of a ride that the store's job stands for, with the names that ids have as text. -/
def JobId.rideJob (names : Uuid → UuidText) : JobId → Option RideJob
  | .dispatchStart rideId version reason =>
    some (.startDispatch (names rideId) version ⟨units reason.text, isReason_text reason⟩)
  | .dispatchTimeout rideId batchId => some (.batchTimeout (names rideId) (names batchId))
  | .persistRide rideId version => some (.persistRide (names rideId) version)
  | .persistDriver .. => none

example : sanitizeJobIdPart (units " __a:: b--_.") = units "a_b" := by decide

end YatriGo
