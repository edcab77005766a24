import SqlPaging.Calendar.Printer
import SqlPaging.Calendar.Reader
import SqlPaging.Json.Record
import SqlPaging.Json.Writer
import SqlPaging.Value

/-!
# SqlPaging — value tokens

A value token is a document that names the kind of the value, so that a value
comes back as it was: `"null"`, or an object with the kind as its one member.
Domain values have no token.

Other documents become values too, without kinds: integers of 64 bits are
integers, all other numbers doubles, and the members of an object are put in the
order of their names.
-/

namespace SqlPaging.Value

open Calendar

/-! ## Tokens -/

/-- The kind of a value with the document of its content. -/
def tagged (kind : String) (content : Json) : Json := .ofMembers [(kind, content)]

mutual

/-- The token of a value. -/
def toToken? : Value → Option Json
  | .null => some (.ofText "null")
  | .bool b => some (tagged "bool" (.bool b))
  | .int n => some (tagged "int" (.ofInt n))
  | .float x => some (tagged "float" (.ofFloat x))
  | .string s => some (tagged "string" (.ofText s))
  | .bytes b => some (tagged "bytes" (.array (b.map fun x => .number (.ofNat x.toNat))))
  | .dateTime t => some (tagged "date_time" (.ofText t.iso))
  | .date d => some (tagged "date" (.ofText d.text))
  | .array items => (itemTokens? items).map fun items => tagged "array" (.array items)
  | .map fields => (fieldTokens? fields).map fun fields => tagged "map" (.ofMembers fields)
  -- What stands for a domain value is known to the caller alone.
  | .backed _ => none

/-- The tokens of the items of a list. -/
def itemTokens? : List Value → Option (List Json)
  | [] => some []
  | v :: vs => do
    let json ← toToken? v
    let more ← itemTokens? vs
    some (json :: more)

/-- The tokens of the values of fields. -/
def fieldTokens? : List (String × Value) → Option (List (String × Json))
  | [] => some []
  | (name, v) :: fields => do
    let json ← toToken? v
    let more ← fieldTokens? fields
    some ((name, json) :: more)

end

/-- The byte that a document is. -/
def byte? (json : Json) : Option UInt8 := do
  let n ← json.int?
  if 0 ≤ n.toInt ∧ n.toInt < 256 then some (UInt8.ofNat n.toInt.toNat) else none

/-- The members of an object as fields; a repeated name keeps its first place and
takes its last value. -/
def memberValues? (read : Json → Option Value) (members : List (Option String × Json)) :
    Option (Fields Value) := do
  let pairs ← members.mapM fun m => do
    let name ← m.1
    let v ← read m.2
    some (name, v)
  some (Fields.ofPairs pairs)

/-- The value of a token in which at most `room` more brackets may be open. -/
def ofToken? : Nat → Json → Option Value
  | _, .string (some "null") => some .null
  -- The object of the kind takes one bracket.
  | room + 1, .object [(some kind, content)] =>
    match kind, content with
    | "null", .null => some .null
    | "bool", json => json.bool?.map .bool
    | "int", json => json.int?.map .int
    | "float", json => json.float?.map .float
    | "string", json => json.text?.map .string
    | "date_time", json => (json.text?.bind DateTime.parse?).map .dateTime
    | "date", json => (json.text?.bind Date.parse?).map .date
    | "bytes", .array items =>
      -- The list of the bytes takes a bracket of its own.
      if room = 0 then none else (items.mapM byte?).map .bytes
    | "array", .array items =>
      match room with
      | 0 => none
      | left + 1 => (items.mapM (ofToken? left)).map .array
    | "map", .object members =>
      match room with
      | 0 => none
      | left + 1 => (memberValues? (ofToken? left) members).map .map
    | _, _ => none
  | _, _ => none

/-- The value of a token that is a whole text. -/
def parseToken? (text : String) : Option Value := (Json.parse? text).bind (ofToken? Json.levels)

/-- The text of the token of a value. -/
def token? (v : Value) : Option String := v.toToken?.map Json.render

/-! ## Documents -/

/-- The number of a document as a value. -/
def ofNumber? (n : Json.Number) : Option Value :=
  match n.int? with
  | some i => some (.int i)
  -- Whole numbers beyond 64 bits become doubles too.
  | none => n.float?.map .float

/-- The value that a document is, where at most `room` more brackets may be open. -/
def ofDocument? : Nat → Json → Option Value
  | _, .null => some .null
  | _, .bool b => some (.bool b)
  | _, .number n => ofNumber? n
  | _, .string text => text.map .string
  | room + 1, .array items => (items.mapM (ofDocument? room)).map .array
  | room + 1, .object members =>
    (memberValues? (ofDocument? room) members).map fun fields => .map fields.sorted
  | 0, _ => none

/-- The value that a text is as a document. -/
def parseDocument? (text : String) : Option Value :=
  (Json.parse? text).bind (ofDocument? Json.levels)

end SqlPaging.Value
