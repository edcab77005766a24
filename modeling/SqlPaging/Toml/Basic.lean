import SqlPaging.Decimal.Reader
import SqlPaging.Fields

/-!
# SqlPaging — TOML documents

A document is a table: names with values, some of which are tables themselves.
A table remembers how it came to be, because that decides what may still be added
to it: a table that only other headers lead through can get a header of its own,
once; a table that keys with dots made gets its entries from such keys, and no header;
a table in braces is complete. Headers and keys may lead through the tables of the
others to new ones, but a key with dots adds its value only to a table that such keys
made.

A list of tables that headers made is told apart from a list in brackets: only the
former grows, and it stands for its last element where a header or key leads
through it.

The size of a number is not limited by how it is written. A number that is used has to
be one that can be *held*: an integer of 128 bits, or a double that is not too large.

Main results:

* `assign_self` — a key cannot be given a second value.
* `get?_assign` — a new key has the value that it was given.
* `assignKey_implied` — a key with dots adds nothing to a table that headers imply.
-/

namespace SqlPaging

/-- How a table came to be. -/
inductive TableForm where
  /-- a header leads through it -/
  | implied
  /-- a key with dots leads through it -/
  | dotted
  /-- it has a header of its own -/
  | header
  /-- it was written in braces -/
  | inline
deriving DecidableEq, Repr

/-- A value of a document. -/
inductive Toml where
  | text (s : String)
  | integer (n : Int)
  | float (r : Decimal.Reading)
  | bool (b : Bool)
  | time
  | array (items : List Toml)
  | table (form : TableForm) (entries : List (String × Toml))
  /-- the tables under the same header, the last one first -/
  | tables (last : List (String × Toml)) (before : List (List (String × Toml)))

namespace Toml

/-- The entries of a table. -/
abbrev Entries := Fields Toml

/-- A key: the names that lead to a table, and the name in that table. -/
structure Key where
  path : List String
  name : String
deriving DecidableEq, Repr

/-- All names of a key. -/
def Key.names (k : Key) : List String := k.path ++ [k.name]

/-- What leads through tables: a header or a key with dots. -/
inductive Way where
  | header
  | key
deriving DecidableEq, Repr

/-- The form of a table that something leads through for the first time. -/
def Way.form : Way → TableForm
  | .header => .implied
  | .key => .dotted

/-- A table of a form may be entered, to add to it if the way `ends` there, and else to
go on to a table in it. -/
def Way.enters (way : Way) (ends : Bool) (form : TableForm) : Bool :=
  match way, form with
  | _, .inline => false
  | .header, _ => true
  | .key, .header => false
  | .key, .implied => !ends
  | .key, .dotted => true

/-- Changes the table that a path leads to. Tables on the path that are not there
yet are made. -/
def changeAt (way : Way) (change : Entries → Option Entries) :
    List String → Entries → Option Entries
  | [], t => change t
  | name :: path, t =>
    match t.get? name with
    -- A table that is made on the way remembers what led through it.
    | none => (changeAt way change path []).map fun sub => t.set name (.table way.form sub)
    | some (.table form sub) =>
      if way.enters path.isEmpty form then
        (changeAt way change path sub).map fun sub => t.set name (.table form sub)
      else none
    | some (.tables last before) =>
      -- The last element is entered like a table that only headers lead through.
      if way.enters path.isEmpty .implied then
        (changeAt way change path last).map fun last => t.set name (.tables last before)
      else none
    | some _ => none

/-- Gives a value to a name. -/
def assign (name : String) (v : Toml) (t : Entries) : Option Entries :=
  match t.get? name with
  | none => some (t.set name v)
  | some _ => none

/-- Gives a value to a key. -/
def assignKey (k : Key) (v : Toml) (t : Entries) : Option Entries :=
  changeAt .key (assign k.name v) k.path t

/-- Gives a header to the table with a name. -/
def openTable (name : String) (t : Entries) : Option Entries :=
  match t.get? name with
  | none => some (t.set name (.table .header []))
  -- Once it has its header, the table gets no second one.
  | some (.table .implied sub) => some (t.set name (.table .header sub))
  | some _ => none

/-- Adds an element to the list of tables with a name. -/
def openElement (name : String) (t : Entries) : Option Entries :=
  match t.get? name with
  | none => some (t.set name (.tables [] []))
  -- The new element is the one that keys and headers lead into from now on.
  | some (.tables last before) => some (t.set name (.tables [] (last :: before)))
  | some _ => none

/-! ## Numbers that can be held -/

mutual

/-- All numbers in a value can be held. -/
def isHeld : Toml → Bool
  -- Signed or unsigned, an integer of 128 bits.
  | .integer n => -(2 ^ 127 : Int) ≤ n && n < 2 ^ 128
  | .float r => !r.overflows
  | .array items => areHeld items
  | .table _ entries => entriesHeld entries
  | .tables last before => entriesHeld last && tablesHeld before
  | .text _ => true
  | .bool _ => true
  | .time => true

/-- All numbers in the items can be held. -/
def areHeld : List Toml → Bool
  | [] => true
  | v :: vs => isHeld v && areHeld vs

/-- All numbers in the entries can be held. -/
def entriesHeld : List (String × Toml) → Bool
  | [] => true
  | (_, v) :: t => isHeld v && entriesHeld t

/-- All numbers in the tables can be held. -/
def tablesHeld : List (List (String × Toml)) → Bool
  | [] => true
  | t :: ts => entriesHeld t && tablesHeld ts

end

/-! ## Lemmas -/

/-- A key cannot be given a second value. -/
theorem assign_self (name : String) (v w : Toml) (t : Entries) :
    (assign name v t).bind (assign name w) = none := by
  unfold assign
  split
  · simp
  · rfl

/-- A key that was free has the value that it was given. -/
theorem get?_assign {name : String} {v : Toml} {t t' : Entries} (h : assign name v t = some t') :
    t'.get? name = some v := by
  unfold assign at h
  split at h
  · cases h
    simp
  · cases h

/-- A key with dots adds nothing to a table that headers imply. -/
theorem assignKey_implied {t sub : Entries} {table : String}
    (h : t.get? table = some (.table .implied sub)) (name : String) (v : Toml) :
    assignKey { path := [table], name } v t = none := by
  simp [assignKey, changeAt, h, Way.enters]

end Toml

end SqlPaging
