import SqlPaging.Argument
import SqlPaging.Calendar.Printer
import SqlPaging.Text.Blank

/-!
# SqlPaging — dialects

The three dialects of SQL. They differ in how a statement is split into lexemes
(`SqlPaging.Sql.Lexeme`) and in how a time is written as a bound parameter: a
dialect that knows zones gets the offset of UTC after the time.

Main results:

* `ofName?_name` — the name of a dialect is read back.
-/

namespace SqlPaging

open Calendar

/-- A dialect of SQL. -/
inductive Dialect where
  | mySql
  | sqlite
  | postgres
deriving DecidableEq, Repr, Inhabited

namespace Dialect

/-- All dialects. -/
def all : List Dialect := [.mySql, .sqlite, .postgres]

/-- The name of a dialect. -/
def name : Dialect → String
  | .mySql => "mysql"
  | .sqlite => "sqlite"
  | .postgres => "postgres"

/-- The names that a token may use. -/
def tokenNames : Dialect → List String
  | .mySql => ["mysql", "mariadb"]
  | .sqlite => ["sqlite"]
  | .postgres => ["postgres", "postgresql", "pgsql"]

/-- The names that a user may type. -/
def typedNames : Dialect → List String
  | .sqlite => ["sqlite", "sqlite3"]
  | d => d.tokenNames

/-- A name as a user typed it, without blanks at its ends and in lower case. -/
def cleanName (typed : String) : String := (Text.trim typed).toLower

/-- The dialect with a cleaned name. -/
def ofName? (name : String) : Option Dialect := all.find? fun d => d.typedNames.contains name

/-- The dialect with a name from a token. -/
def ofTokenName? (name : String) : Option Dialect := all.find? fun d => d.tokenNames.contains name

/-- A dialect is found by its name. -/
theorem ofName?_name (d : Dialect) : ofName? d.name = some d := by cases d <;> decide

/-- The dialect with a name as a user typed it. -/
def parse (typed : String) : Except ArgumentFault Dialect :=
  match ofName? (cleanName typed) with
  | some d => .ok d
  | none => .error (.unknownDialect (cleanName typed))

/-- The dialect has times with a zone. -/
def timezoneAware : Dialect → Bool
  | .postgres => true
  | _ => false

/-- The text of a date as a parameter. -/
def dateText (_ : Dialect) (d : Date) : String := d.text

/-- The text of a time as a parameter: to the second, with the offset of UTC
where the dialect knows zones. -/
def dateTimeText (dialect : Dialect) (t : DateTime) : String :=
  -- The fraction of the second is not shown.
  String.ofList (t.chars ' ' ++ if dialect.timezoneAware then "+0000".toList else [])

end Dialect

end SqlPaging
