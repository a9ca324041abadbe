import Mathlib.Data.Nat.Cast.Order.Ring
import Mathlib.Algebra.Order.Ring.Rat

/-! JSON values, and how JavaScript tests, compares and converts them. -/

namespace Js

inductive Number
  | nan
  | infinity (negative : Bool)
  | finite (q : ℚ)
  deriving DecidableEq

namespace Number

def truthy : Number → Bool
  | .nan => false
  | .infinity _ => true
  | .finite q => q ≠ 0

/-- `n > bound`. -/
def exceeds (n : Number) (bound : ℕ) : Bool :=
  match n with
  | .nan => false
  | .infinity negative => !negative
  | .finite q => (bound : ℚ) < q

/-- `n <= bound`; together with `exceeds` this misses `NaN`. -/
def atMost (n : Number) (bound : ℕ) : Bool :=
  match n with
  | .nan => false
  | .infinity negative => negative
  | .finite q => q ≤ bound

end Number

inductive Json
  | null
  | bool (b : Bool)
  | number (n : Number)
  | string (s : String)
  | array (items : List Json)
  | object (fields : List (String × Json))

/-- What a property access gives: a parsed value, nothing, or a method of the value's class. -/
inductive Value
  | undefined
  | json (j : Json)
  | method (name : String)

def Json.truthy : Json → Bool
  | .null => false
  | .bool b => b
  | .number n => n.truthy
  | .string s => s ≠ ""
  | .array _ => true
  | .object _ => true

def Value.truthy : Value → Bool
  | .undefined => false
  | .json j => j.truthy
  | .method _ => true

/-- `a || b`. -/
def Value.or (a b : Value) : Value := if a.truthy then a else b

/-- `value === text`. -/
def Value.isText (text : String) : Value → Bool
  | .json (.string s) => s = text
  | _ => false

/-- Property access on a value other than `null`. All strings have a method `sub`. -/
def Json.get (name : String) : Json → Value
  | .object fields =>
    match fields.lookup name with
    | some value => .json value
    | none => .undefined
  | .string _ => if name = "sub" then .method name else .undefined
  | _ => .undefined

/-- `text.split(separator)` for a separator of one character. -/
def split (separator : Char) (text : String) : List String :=
  (text.toList.splitOn separator).map String.ofList

/-- White space and line terminators, as `trim` knows them. -/
def isSpace (c : Char) : Bool :=
  c.toNat ∈ [9, 10, 11, 12, 13, 32, 160, 5760, 8232, 8233, 8239, 8287, 12288, 65279] ||
    (8192 ≤ c.toNat && c.toNat ≤ 8202)

def trim (text : String) : String :=
  String.ofList ((text.toList.dropWhile isSpace).reverse.dropWhile isSpace).reverse

/-- A string where the halves of a character count: the list of its UTF-16 code units. -/
abbrev CodeUnit := UInt16
abbrev Units := List CodeUnit

def codeUnit (c : Char) : CodeUnit := c.toNat.toUInt16

/-- A text of the source; they are all ASCII. -/
def units (text : String) : Units := text.toList.map codeUnit

/-- What the language leaves to its tables and to the methods of objects: `Number(value)` and
`String(value)` where they are not immediate (`none` when they throw), and the upper case of
the characters beyond ASCII. -/
structure Coercions where
  number : Json → Option Number
  text : Json → Option String
  upper : Char → List Char

def toUpperCase (C : Coercions) (text : String) : String :=
  String.ofList (text.toList.flatMap fun c => if c.toNat < 128 then [c.toUpper] else C.upper c)

/-- `Number(value)`. -/
def Value.toNumber (C : Coercions) : Value → Option Number
  | .undefined => some .nan
  | .json .null => some (.finite 0)
  | .json (.bool b) => some (.finite (if b then 1 else 0))
  | .json (.number n) => some n
  | .json j => C.number j
  | .method _ => some .nan

/-- `String(value)`. -/
def Value.toText (C : Coercions) : Value → Option String
  | .undefined => some "undefined"
  | .json .null => some "null"
  | .json (.bool b) => some (if b then "true" else "false")
  | .json (.string s) => some s
  | .json j => C.text j
  | .method name => some name

variable {a b : Value} {n : Number} {bound : ℕ}

theorem Value.or_of_truthy (h : a.truthy = true) : a.or b = a := if_pos h

theorem Value.or_of_falsy (h : a.truthy = false) : a.or b = b :=
  if_neg (by rw [h]; exact Bool.false_ne_true)

theorem Value.isText_iff {text : String} : a.isText text = true ↔ a = .json (.string text) := by
  constructor
  · intro h
    unfold Value.isText at h
    split at h
    · rw [of_decide_eq_true h]
    · cases h
  · rintro rfl
    exact decide_eq_true rfl

theorem Number.exceeds_of_falsy (h : n.truthy = false) : n.exceeds bound = false := by
  cases n with
  | nan => rfl
  | infinity negative => cases h
  | finite q =>
    have hq : q = 0 := not_not.mp (of_decide_eq_false h)
    have hbound : ¬ (bound : ℚ) < q := by
      rw [hq]
      exact not_lt.mpr (Nat.cast_nonneg bound)
    exact decide_eq_false hbound

theorem Number.exceeds_of_not_atMost (htruthy : n.truthy = true) (h : n.atMost bound = false) :
    n.exceeds bound = true := by
  cases n with
  | nan => cases htruthy
  | infinity negative =>
    have hnegative : negative = false := h
    rw [hnegative]
    rfl
  | finite q =>
    have hq : decide (q ≤ (bound : ℚ)) = false := h
    exact decide_eq_true (not_le.mp (of_decide_eq_false hq))

end Js
