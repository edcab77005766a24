import SqlPaging.Calendar.DateTime
import SqlPaging.Decimal.Layout
import SqlPaging.Fields

/-!
# SqlPaging — values

The values that callers bind to statements and that rows carry. Besides scalars
there are two kinds of collection, lists and maps in key order of insertion, and
*backed* values: a value of the caller's own domain that stands for another
value. A backed value is unwrapped before it is used, through a limited number
of wrappings.

Main results:

* `resolve_of_not_backed` — a value that is not backed resolves to itself.
* `not_backed_of_unwrap` — nothing resolves to a value that is backed.
* `not_collection_of_resolveScalar` — a scalar resolution never yields a
  collection.
-/

namespace SqlPaging

open Calendar

/-- A value. -/
inductive Value where
  | null
  | bool (b : Bool)
  | int (n : Int64)
  | float (x : Float)
  | string (s : String)
  | bytes (b : List UInt8)
  | dateTime (t : DateTime)
  | date (d : Date)
  | array (items : List Value)
  | map (fields : List (String × Value))
  /-- a domain value that stands for another value -/
  | backed (inner : Value)

instance : Inhabited Value := ⟨.null⟩

/-- The kinds of value. -/
inductive Kind where
  | null | bool | int | float | string | bytes | dateTime | date | array | map | backed
deriving DecidableEq, Repr

/-- The name of a kind, as messages show it. -/
def Kind.name : Kind → String
  | .null => "null"
  | .bool => "bool"
  | .int => "int"
  | .float => "float"
  | .string => "string"
  | .bytes => "bytes"
  | .dateTime => "datetime"
  | .date => "date"
  | .array => "array"
  | .map => "map"
  | .backed => "backed"

namespace Value

/-- The kind of a value. -/
def kind : Value → Kind
  | .null => .null
  | .bool _ => .bool
  | .int _ => .int
  | .float _ => .float
  | .string _ => .string
  | .bytes _ => .bytes
  | .dateTime _ => .dateTime
  | .date _ => .date
  | .array _ => .array
  | .map _ => .map
  | .backed _ => .backed

/-- The value is SQL's null. -/
def isNull : Value → Bool
  | .null => true
  | _ => false

/-- The value is a list or a map. -/
def isCollection : Value → Bool
  | .array _ => true
  | .map _ => true
  | _ => false

/-- The value is a domain value. -/
def isBacked : Value → Bool
  | .backed _ => true
  | _ => false

/-! ## Resolution -/

/-- Why a value does not resolve. -/
inductive Unresolved where
  /-- domain values are nested too deep -/
  | tooDeep
  /-- a scalar was asked for -/
  | notScalar (kind : Kind)
deriving DecidableEq, Repr

/-- The number of looks at a value before its resolution is given up. -/
def resolutionLimit : Nat := 8

/-- The message about a value that does not resolve. -/
def Unresolved.message : Unresolved → String
  | .tooDeep =>
    "domain value wrappers nested deeper than " ++ toString resolutionLimit ++ " levels"
  | .notScalar kind => "expected a scalar value, got " ++ kind.name

/-- Looks at a value at most the given number of times, and takes one wrapper
off each time there is one. -/
def unwrap : Nat → Value → Except Unresolved Value
  | 0, _ => .error .tooDeep
  -- A wrapper takes up a look, so the last look has to find the value itself.
  | looks + 1, .backed inner => unwrap looks inner
  | _ + 1, v => .ok v

/-- The value that a value stands for. -/
def resolve (v : Value) : Except Unresolved Value := unwrap resolutionLimit v

/-- The scalar that a value stands for. -/
def resolveScalar (v : Value) : Except Unresolved Value := do
  let resolved ← v.resolve
  if resolved.isCollection then .error (.notScalar resolved.kind) else .ok resolved

/-- A value without a wrapper is found at the first look. -/
theorem unwrap_of_not_backed {v : Value} (h : v.isBacked = false) (looks : Nat) :
    unwrap (looks + 1) v = .ok v := by
  cases v <;> first | rfl | simp [isBacked] at h

/-- A value without a wrapper resolves to itself. -/
theorem resolve_of_not_backed {v : Value} (h : v.isBacked = false) : v.resolve = .ok v :=
  unwrap_of_not_backed h 7

/-- What a value stands for is no domain value. -/
theorem not_backed_of_unwrap {looks : Nat} {v w : Value} (h : unwrap looks v = .ok w) :
    w.isBacked = false := by
  -- the induction is on the looks: each takes a wrapper off or ends at a value without one
  induction looks generalizing v with
  | zero => cases h
  | succ looks ih =>
    cases hbacked : v.isBacked with
    | false =>
      rw [unwrap_of_not_backed hbacked] at h
      cases h
      exact hbacked
    | true =>
      cases v with
      | backed inner => exact ih h
      | _ => cases hbacked

/-- What resolves to a scalar is neither an array nor a map. -/
theorem not_collection_of_resolveScalar {v r : Value} (h : v.resolveScalar = .ok r) :
    r.isCollection = false := by
  unfold resolveScalar at h
  cases hr : v.resolve with
  | error e => simp [hr, bind, Except.bind] at h
  | ok w =>
    simp only [hr, bind, Except.bind] at h
    split at h
    · simp at h
    · next hc => cases h; simpa using hc

/-! ## Equality -/

mutual

/-- Two values are equal: numbers by value, so that no value equals a NaN;
domain values by what they stand for; maps without regard to order. -/
def same : Value → Value → Bool
  | .null, .null => true
  | .bool a, .bool b => a == b
  | .int a, .int b => a == b
  | .float a, .float b => a == b
  | .string a, .string b => a == b
  | .bytes a, .bytes b => a == b
  | .dateTime a, .dateTime b => a == b
  | .date a, .date b => a == b
  | .array a, .array b => sameItems a b
  -- Names are distinct, so with equal lengths it is enough to look them up one way.
  | .map a, .map b => a.length == b.length && sameFields a b
  | .backed a, .backed b => same a b
  | _, _ => false

/-- Two lists have equal items. -/
def sameItems : List Value → List Value → Bool
  | [], [] => true
  | a :: as, b :: bs => same a b && sameItems as bs
  | _, _ => false

/-- Every field of the first list has an equal field in the second one. -/
def sameFields : List (String × Value) → List (String × Value) → Bool
  | [], _ => true
  | (k, a) :: as, bs =>
    (match Fields.get? bs k with
      | some b => same a b
      | none => false) && sameFields as bs

end

instance : BEq Value := ⟨same⟩

end Value

/-- A value of a double, as the texts of bound parameters show it: positional,
with the fewest digits, and a tie upward. -/
def Value.floatLayout : Decimal.Layout :=
  { plain := none
    pointZero := false
    tie := .upward
    nan := "NaN"
    infinity := "inf"
    negativeInfinity := "-inf" }

/-- The text of a double in a bound parameter. -/
def Value.floatText (x : Float) : String := Value.floatLayout.text x

end SqlPaging
