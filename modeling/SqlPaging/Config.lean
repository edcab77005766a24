import SqlPaging.Integer

/-!
# SqlPaging — pager configuration

The defaults that pagers start from. A configuration that is written in code is
taken as it is; one that is read from a file is checked.

Main results:

* `validate_eq_ok_iff` — what a checked configuration satisfies.
* `clampSize_le` — a requested size stays within the greatest size.
-/

namespace SqlPaging

open Integer (text)

/-- What is wrong with a configuration. -/
inductive ConfigFault where
  /-- the text is not one of a configuration -/
  | malformed
  | size (size : Int64)
  | eachSide (eachSide : Int64)
  | maxSize (maxSize size : Int64)
  /-- there is no file at the path -/
  | missingFile (path : String)
deriving DecidableEq, Repr

/-- The message about a configuration, where the fault has one of its own. -/
def ConfigFault.message? : ConfigFault → Option String
  | .malformed => none
  | .size n => some ("default_size must be >= 1, got " ++ text n)
  | .eachSide n => some ("default_each_side must be >= 0, got " ++ text n)
  | .maxSize m n =>
    some ("max_size (" ++ text m ++ ") is smaller than default_size (" ++ text n ++ ")")
  | .missingFile path =>
    some ("failed to read config file " ++ path ++ ": No such file or directory (os error 2)")

/-- The defaults of pagers. -/
structure PagerConfig where
  size : Int64 := 10
  eachSide : Int64 := 0
  needTotal : Bool := false
  /-- the greatest size that a request may ask for -/
  maxSize : Option Int64 := none
deriving DecidableEq, Repr

instance : Inhabited PagerConfig := ⟨{}⟩

namespace PagerConfig

/-- A requested size, cut to the greatest one. -/
def clampSize (c : PagerConfig) (size : Int64) : Int64 :=
  match c.maxSize with
  | some m => if m < size then m else size
  | none => size

/-- Checks that the defaults make sense together. -/
def validate (c : PagerConfig) : Except ConfigFault Unit :=
  if c.size < 1 then .error (.size c.size)
  else if c.eachSide < 0 then .error (.eachSide c.eachSide)
  else
    match c.maxSize with
    | some m => if m < c.size then .error (.maxSize m c.size) else .ok ()
    | none => .ok ()

/-- A size that was clamped does not exceed the greatest one. -/
theorem clampSize_le {c : PagerConfig} {m : Int64} (h : c.maxSize = some m) (size : Int64) :
    (c.clampSize size).toInt ≤ m.toInt := by
  simp only [clampSize, h, Int64.lt_iff_toInt_lt]
  split <;> omega

/-- A configuration is valid just if its size is positive and not above the
greatest one, and its width is not negative. -/
theorem validate_eq_ok_iff (c : PagerConfig) :
    c.validate = .ok () ↔
      1 ≤ c.size.toInt ∧ 0 ≤ c.eachSide.toInt ∧ ∀ m, c.maxSize = some m → c.size.toInt ≤ m.toInt := by
  simp only [validate, Int64.lt_iff_toInt_lt, Int64.toInt_one, Int64.toInt_zero]
  split
  · simp only [reduceCtorEq, false_iff]
    omega
  · split
    · simp only [reduceCtorEq, false_iff]
      omega
    · cases hm : c.maxSize with
      | none =>
        simp only [reduceCtorEq, false_implies, implies_true, and_true, true_iff]
        omega
      | some m =>
        simp only [Option.some.injEq, forall_eq']
        split
        · simp only [reduceCtorEq, false_iff]
          omega
        · simp only [true_iff]
          omega

end PagerConfig

end SqlPaging
