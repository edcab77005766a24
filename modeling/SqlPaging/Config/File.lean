import SqlPaging.Config
import SqlPaging.Integer
import SqlPaging.Toml.Reader

/-!
# SqlPaging — configuration files

A configuration file is a TOML document. Its table `pagination` holds the defaults
of pagers by their names, or lists them in their order; what is not there has the
library's own default. Other names are skipped, but their numbers must be ones that can
be held; only what a list has after the last default is not looked at. What was read is
checked.

Main results:

* `parse_validated` — a configuration that was read from a file is a valid one.
-/

namespace SqlPaging.PagerConfig

open Toml (Entries)

/-- The 64-bit integer that a value is. -/
def integerOf? : Toml → Option Int64
  | .integer n => Integer.fit? n
  | _ => none

/-- The truth value that a value is. -/
def boolOf? : Toml → Option Bool
  | .bool b => some b
  | _ => none

/-- The names of the defaults in their order. -/
def names : List String := ["default_size", "default_each_side", "default_need_total", "max_size"]

/-- The defaults that a value holds under their names. A time holds none. -/
def membersOf? : Toml → Option Entries
  | .table _ entries => some entries
  | .array items => some (names.zip items)
  -- The elements under the same header stand for the defaults in their order.
  | .tables last before => some (names.zip ((last :: before).reverse.map (.table .header)))
  | .time => some []
  | _ => none

/-- A value without what is not looked at. -/
def known : Toml → Toml
  | .array items => .array (items.take names.length)
  | v => v

/-- A member that may be left out. -/
def member {α : Type} (members : Entries) (name : String) (default : α) (read : Toml → Option α) :
    Option α :=
  match members.get? name with
  | some v => read v
  | none => some default

/-- The configuration that a value is. -/
def ofToml? (v : Toml) : Option PagerConfig := do
  -- Numbers are checked first, also those of names that are skipped.
  let members ← if (known v).isHeld then membersOf? v else none
  let base : PagerConfig := {}
  let size ← member members "default_size" base.size integerOf?
  let eachSide ← member members "default_each_side" base.eachSide integerOf?
  let needTotal ← member members "default_need_total" base.needTotal boolOf?
  let maxSize ← member members "max_size" base.maxSize fun v => (integerOf? v).map some
  some { size, eachSide, needTotal, maxSize }

/-- The name of the table with the defaults. -/
def tableName : String := "pagination"

/-- The configuration of a document. -/
def ofDocument? (document : Entries) : Option PagerConfig :=
  -- The rest of the document may hold anything but numbers that are too large.
  if Toml.entriesHeld (document.filter (·.1 != tableName)) then
    match document.get? tableName with
    | some v => ofToml? v
    | none => some {}
  else none

/-- The configuration of a file's text. -/
def parse (text : String) : Except ConfigFault PagerConfig :=
  match (Toml.parse? text).bind ofDocument? with
  | none => .error .malformed
  | some c => c.validate.map fun _ => c

/-- The configuration of the file at a path, given its text if it is there. -/
def load (path : String) (text : Option String) : Except ConfigFault PagerConfig :=
  match text with
  | some text => parse text
  | none => .error (.missingFile path)

/-- A configuration that was read from a file is a valid one. -/
theorem parse_validated {text : String} {c : PagerConfig} (h : parse text = .ok c) :
    c.validate = .ok () := by
  unfold parse at h
  split at h
  · cases h
  · next c' _ =>
    cases hv : c'.validate with
    | error e => simp [hv, Except.map] at h
    | ok u =>
      simp only [hv, Except.map, Except.ok.injEq] at h
      rw [← h, hv]

end SqlPaging.PagerConfig
