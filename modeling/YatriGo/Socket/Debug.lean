import Mathlib.Data.List.Infix
import YatriGo.Text.Json

/-! What the debug log shows of a payload. -/

namespace YatriGo
open Js

/-- A JSON value with its strings as code units, which are what `length` counts and `slice` cuts. -/
inductive Payload
  | null
  | bool (b : Bool)
  | number (n : Number)
  | string (text : Units)
  | array (items : List Payload)
  | object (fields : List (Units × Payload))

/-- `key.toLowerCase().includes(..)`, with the lower case left to the tables of the language. -/
def isSecret (toLowerCase : Units → Units) (key : Units) : Bool :=
  units "token" <:+: toLowerCase key || units "password" <:+: toLowerCase key

/-- `accumulator[key] = value`. An assignment to `__proto__` makes no entry. -/
def assign (accumulator : List (Units × Payload)) (key : Units) (value : Payload) : List (Units × Payload) :=
  if key = units "__proto__" then accumulator
  else if key ∈ accumulator.map Prod.fst then accumulator.map fun field => if field.1 = key then (key, value) else field
  else accumulator ++ [(key, value)]

def sanitizePayload (toLowerCase : Units → Units) (value : Payload) (depth : ℕ) : Payload :=
  match value with
  | .null => .null
  | value =>
    if _ : 2 < depth then .string (units "[truncated]")
    else match value with
      | .array items => .array ((items.take 5).map fun item => sanitizePayload toLowerCase item (depth + 1))
      | .object fields => .object (fields.foldl (fun accumulator field =>
          if isSecret toLowerCase field.1 then assign accumulator field.1 (.string (units "[redacted]"))
          else assign accumulator field.1 (sanitizePayload toLowerCase field.2 (depth + 1))) [])
      | .string text =>
        if 200 < text.length then .string (text.take 200 ++ units "...[truncated]") else .string text
      | value => value
termination_by 3 - depth

end YatriGo
