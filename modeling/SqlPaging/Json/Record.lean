import SqlPaging.Json.Basic

/-!
# SqlPaging — JSON records

How documents become structures of the library. A record is written as an object
with its fields in any order, or as a list of its fields in their order. Unknown
members of an object are skipped, whatever they hold; a field that occurs twice
is refused, and so is a list with too many items.

A field is *required*, *optional* or *defaulted*. An optional field may be null,
and may be left out of an object. A defaulted field may be left out of both
forms.
-/

namespace SqlPaging.Json

/-- The most brackets that may be open at once in what is read. -/
def levels : Nat := 127

/-- The text that a document is. -/
def text? : Json → Option String
  | .string text => text
  | _ => none

/-- The truth value that a document is. -/
def bool? : Json → Option Bool
  | .bool b => some b
  | _ => none

/-- The 64-bit integer that a document is. -/
def int? : Json → Option Int64
  | .number n => n.int?
  | _ => none

/-- The double that a document is; an integer is one too. -/
def float? : Json → Option Float
  | .number n => n.float?
  | _ => none

/-- The value that a document is, or none where it is null. -/
def nullable? {α : Type} (read : Json → Option α) : Json → Option (Option α)
  | .null => some none
  | json => (read json).map some

/-- One of a number of names: written as a text, or as an object with that one
name and null. -/
def choice? {α : Type} (ofName? : String → Option α) : Json → Option α
  | .string (some name) => ofName? name
  | .object [(some name, .null)] => ofName? name
  | _ => none

/-- A document as a record: the value of each of its fields that is there. -/
structure Record where
  /-- the record was written as a list -/
  positional : Bool
  values : List (String × Json)

namespace Record

/-- The members of an object that are fields with the given names. An unknown
name is skipped, a name that is no text or a repeated field is refused. -/
def members? (names : List String) : List (Option String × Json) → Option (List (String × Json))
  | [] => some []
  | (none, _) :: _ => none
  | (some name, value) :: rest => do
    let more ← members? names rest
    if names.contains name then
      -- What comes again is refused only if it is asked for.
      if more.any (·.1 == name) then none else some ((name, value) :: more)
    else some more

/-- The record with fields of the given names that a document is. -/
def ofJson? (names : List String) : Json → Option Record
  | .object members => (members? names members).map fun values => { positional := false, values }
  | .array items =>
    -- A list may end early, and what it lacks is missing.
    if items.length ≤ names.length then some { positional := true, values := names.zip items }
    else none
  | _ => none

/-- The value of a field. -/
def value? (r : Record) (name : String) : Option Json := Fields.get? r.values name

/-- A field that must be there. -/
def required {α : Type} (r : Record) (name : String) (read : Json → Option α) : Option α :=
  (r.value? name).bind read

/-- A field that may be null, and that an object may leave out. -/
def optional {α : Type} (r : Record) (name : String) (read : Json → Option α) :
    Option (Option α) :=
  match r.value? name with
  | some json => nullable? read json
  | none => if r.positional then none else some none

/-- A field that may be left out. -/
def defaulted {α : Type} (r : Record) (name : String) (default : α) (read : Json → Option α) :
    Option α :=
  match r.value? name with
  | some json => read json
  | none => some default

end Record

end SqlPaging.Json
