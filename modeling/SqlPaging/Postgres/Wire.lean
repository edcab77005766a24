import SqlPaging.Calendar.Reader
import SqlPaging.Integer
import SqlPaging.Param
import SqlPaging.Postgres.BigEndian

/-!
# SqlPaging — cells on the wire

How a value travels to and from a PostgreSQL server in binary form. A bind is
encoded for the type that the server asks for: integers take its width, numbers
and times that are bound as text are read first. A cell that comes back is
decoded by the type of its column; types without a value of their own in the
library cannot be decoded, not even from null.

Times are counted in microseconds and dates in days, both from the first moment
of the year 2000.

Main results:

* `decode?_of_encode?_int` — an integer comes back as it was sent, in every width that
  it fits.
-/

namespace SqlPaging.Postgres

open Calendar

/-- The types of parameters and columns. -/
inductive WireType where
  | bool
  | int2 | int4 | int8
  | float4 | float8
  | text | varchar | bpchar | name
  | bytea
  | timestamp | timestamptz | date
  /-- types that are not decoded -/
  | numeric | uuid | json | oid
deriving DecidableEq, Repr

/-- All types with their names. -/
def WireType.named : List (String × WireType) :=
  [("bool", .bool), ("int2", .int2), ("int4", .int4), ("int8", .int8), ("float4", .float4),
   ("float8", .float8), ("text", .text), ("varchar", .varchar), ("bpchar", .bpchar),
   ("name", .name), ("bytea", .bytea), ("timestamp", .timestamp), ("timestamptz", .timestamptz),
   ("date", .date), ("numeric", .numeric), ("uuid", .uuid), ("json", .json), ("oid", .oid)]

/-- The type with a name. -/
def WireType.ofName? (name : String) : Option WireType := Fields.get? named name

/-- The bytes of a parameter or of a column of a row; null has none. -/
abbrev Cell := Option (List UInt8)

/-! ## Encoding -/

/-- The bytes of an integer, if it fits into a number of bytes. -/
def integerBytes? (width : Nat) (n : Int) : Option (List UInt8) :=
  let span : Int := BigEndian.span width
  if -span ≤ 2 * n ∧ 2 * n < span then some (BigEndian.encode width n) else none

/-- The bytes of a double. -/
def doubleBytes (bits : UInt64) : List UInt8 := BigEndian.encode 8 bits.toNat

/-- The bytes of a single-precision number. -/
def singleBytes (bits : UInt32) : List UInt8 := BigEndian.encode 4 bits.toNat

/-- The bytes of an integer for a type. Types that are not numeric take all 64
bits. -/
def encodeInt? (type : WireType) (n : Int64) : Option (List UInt8) :=
  match type with
  | .int2 => integerBytes? 2 n.toInt
  | .int4 => integerBytes? 4 n.toInt
  | .float4 => some (singleBytes n.toFloat32.toBits)
  | .float8 => some (doubleBytes n.toFloat.toBits)
  -- An integer for any other type has its natural width.
  | _ => integerBytes? 8 n.toInt

/-- The microseconds of a time. -/
def micros (t : DateTime) : Int := t.instant.seconds * 1000000 + (t.instant.nanos / 1000 : Nat)

/-- The bytes of a text for a type: of the time, the date or the number that it
stands for where the type asks for one, and else its own. -/
def encodeText? (type : WireType) (s : String) : Option (List UInt8) :=
  match type with
  | .timestamptz => (DateTime.parseSqlZoned? s).bind fun t => integerBytes? 8 (micros t)
  -- A time without a zone has nothing behind its seconds.
  | .timestamp => (DateTime.parseSql? s).bind fun t => integerBytes? 8 (micros t)
  | .date => (Date.parseSql? s).bind fun d => integerBytes? 4 d.dayNumber
  | .float4 => (Decimal.read? s).map fun r => singleBytes r.bits32
  | .float8 => (Decimal.read? s).map fun r => doubleBytes r.bits64
  | _ => some s.toByteArray.data.toList

/-- The cell of a bind value for a type, if the value has one. -/
def encode? (type : WireType) : BindValue → Option Cell
  | .null => some none
  | .bool b => some (some [if b then 1 else 0])
  | .int n => (encodeInt? type n).map some
  | .str s => (encodeText? type s).map some
  | .lob bytes => some (some bytes)

/-! ## Decoding -/

/-- Bytes that are as many as they have to be. -/
def exactly? (width : Nat) (bytes : List UInt8) : Option (List UInt8) :=
  if bytes.length = width then some bytes else none

/-- The integer in a number of bytes. -/
def integer? (width : Nat) (bytes : List UInt8) : Option Int :=
  (exactly? width bytes).map BigEndian.signed

/-- The integer in a number of bytes, as a value. -/
def integerValue? (width : Nat) (bytes : List UInt8) : Option Value :=
  ((integer? width bytes).bind Integer.fit?).map .int

/-- The time that lies a number of microseconds after the first moment of the
year 2000. -/
def ofMicros? (n : Int) : Option DateTime :=
  -- A moment before the year 2000 has its microseconds counted from the second below it.
  DateTime.ofSeconds? (Int.fdiv n 1000000) ((Int.fmod n 1000000).toNat * 1000)

/-- The value of bytes of a type. -/
def decodeBytes? (type : WireType) (bytes : List UInt8) : Option Value :=
  match type with
  -- Any byte but zero is true.
  | .bool => (exactly? 1 bytes).map fun b => .bool (b != [0])
  | .int2 => integerValue? 2 bytes
  | .int4 => integerValue? 4 bytes
  | .int8 => integerValue? 8 bytes
  | .float4 => (exactly? 4 bytes).map fun b =>
      .float (Float32.ofBits (.ofNat (BigEndian.unsigned b))).toFloat
  | .float8 => (exactly? 8 bytes).map fun b => .float (Float.ofBits (.ofNat (BigEndian.unsigned b)))
  | .timestamp => ((integer? 8 bytes).bind ofMicros?).map .dateTime
  | .timestamptz => ((integer? 8 bytes).bind ofMicros?).map .dateTime
  | .date => ((integer? 4 bytes).bind Date.ofDayNumber?).map .date
  | .bytea => some (.bytes bytes)
  | .text => text? bytes
  | .varchar => text? bytes
  | .bpchar => text? bytes
  | .name => text? bytes
  | _ => none
where
  /-- The text in UTF-8. -/
  text? (bytes : List UInt8) : Option Value := (String.fromUTF8? ⟨bytes.toArray⟩).map .string

/-- The type has values in the library. -/
def WireType.isDecoded : WireType → Bool
  | .numeric => false
  | .uuid => false
  | .json => false
  | .oid => false
  | _ => true

/-- The value of a cell of a type. -/
def decode? (type : WireType) : Cell → Option Value
  | some bytes => decodeBytes? type bytes
  -- A null of a type that is not decoded is missing.
  | none => if type.isDecoded then some .null else none

/-! ## Lemmas -/

/-- An integer that fits into its bytes is found in them again. -/
theorem integer?_encode {width : Nat} {n : Int} (hl : -(BigEndian.span width : Int) ≤ 2 * n)
    (hu : 2 * n < BigEndian.span width) : integer? width (BigEndian.encode width n) = some n := by
  simp [integer?, exactly?, BigEndian.length_encode, BigEndian.signed_encode hl hu]

/-- The bytes of an integer are those of its value, whatever their number is. -/
theorem integerValue?_of_integerBytes? {width : Nat} {n : Int64} {bytes : List UInt8}
    (h : integerBytes? width n.toInt = some bytes) : integerValue? width bytes = some (.int n) := by
  have hfit : Integer.fit? n.toInt = some n := Integer.fit?_eq_some_iff.mpr rfl
  simp only [integerBytes?] at h
  split at h
  · next hrange =>
    cases h
    rw [integerValue?, integer?_encode hrange.1 hrange.2, Option.bind_some, hfit, Option.map_some]
  · cases h

/-- An integer that can be sent for an integer type comes back from a column of the type
as it was. -/
theorem decode?_of_encode?_int {type : WireType}
    (htype : type = .int2 ∨ type = .int4 ∨ type = .int8) {n : Int64} {cell : Cell}
    (h : encode? type (.int n) = some cell) : decode? type cell = some (.int n) := by
  obtain ⟨bytes, hbytes, rfl⟩ := Option.map_eq_some_iff.mp h
  -- the three types differ in their width only
  rcases htype with rfl | rfl | rfl
  · exact integerValue?_of_integerBytes? hbytes
  · exact integerValue?_of_integerBytes? hbytes
  · exact integerValue?_of_integerBytes? hbytes

end SqlPaging.Postgres
