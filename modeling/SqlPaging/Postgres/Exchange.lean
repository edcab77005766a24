import SqlPaging.Fetch
import SqlPaging.Postgres.Wire
import SqlPaging.Sql.Positional

/-!
# SqlPaging — exchanges with a PostgreSQL server

A query is sent with numbered placeholders and encoded parameters, after the
server has said which types they have; then its rows come back as cells. An
exchange records how far it went: the statement that was sent, the parameters,
and the result.

Main results:

* `execute_of_ne` — no other dialect is sent anything.
* `cells_prepare_eq_none` — nothing is sent with a parameter that cannot be encoded.
-/

namespace SqlPaging.Postgres

open Sql (Positional)

/-- A column of the rows of a statement. -/
structure Column where
  name : String
  type : WireType
deriving DecidableEq, Repr

/-- What a server says about a statement, and its rows. -/
structure Peer where
  /-- the types of the statement's parameters -/
  parameters : List WireType
  columns : List Column
  rows : List (List Cell)
deriving Repr

/-- How far an exchange went. -/
structure Exchange (α : Type) where
  /-- the statement that was sent -/
  statement : Option String
  /-- the parameters that were sent -/
  cells : Option (List Cell)
  result : Except PageError α

namespace Exchange

variable {α : Type}

/-- The exchange that is refused before anything is sent. -/
def refused (e : PageError) : Exchange α := { statement := none, cells := none, result := .error e }

/-- The error of a dialect that the server does not speak. -/
def foreign (d : Dialect) : PageError :=
  .driver ("PgDriver cannot execute " ++ d.name ++ " statements")

/-- The cells of binds for the types of parameters. The first bind, counted from
the given index, that cannot be encoded is the fault. -/
def encodeFrom (index : Nat) : List (WireType × Bind) → Except QueryFault (List Cell)
  | [] => .ok []
  | (type, b) :: rest =>
    match encode? type b.value with
    | none => .error (.serializing index)
    | some cell => (encodeFrom (index + 1) rest).map (cell :: ·)

/-- The cells of binds for the types of parameters, of which there are as many. -/
def encodeAll (types : List WireType) (bs : Binds) : Except QueryFault (List Cell) :=
  -- The number is compared before anything is encoded.
  if types.length = bs.length then encodeFrom 0 (types.zip bs)
  else .error (.parameterCount types.length bs.length)

/-- The exchange of a statement with numbered placeholders, up to its rows. -/
def prepare (peer : Peer) (p : Positional) (read : Peer → Except QueryFault α) : Exchange α :=
  match encodeAll peer.parameters p.binds with
  -- The server has already seen the statement when a parameter turns out wrong.
  | .error fault => { statement := some p.sql, cells := none, result := .error (.query fault) }
  | .ok cells =>
    { statement := some p.sql, cells := some cells, result := (read peer).mapError .query }

/-- The exchange of a query in a dialect. -/
def run (server : String → Peer) (d : Dialect) (sql : String) (bs : Binds)
    (read : Peer → Except QueryFault α) : Exchange α :=
  if d = .postgres then
    -- The text is scanned anew, since placeholders were put into it.
    match Sql.scan .postgres sql.toList with
    | .error fault => refused (.insertionPoint fault)
    | .ok scanned =>
      match Positional.ofScan scanned bs with
      | .error fault => refused (.invalidArgument fault)
      | .ok p => prepare (server p.sql) p read
  else refused (foreign d)

end Exchange

/-! ## Rows -/

/-- A row that came back, with what is known about its columns. -/
structure TableRow where
  columns : List Column
  cells : List Cell
deriving Repr

/-- The value of a column: the first one with the name, if it can be decoded. -/
def TableRow.value (r : TableRow) : Row := fun name => do
  -- Of columns with one name the first one counts.
  let i ← r.columns.findIdx? (·.name == name)
  let column ← r.columns[i]?
  let cell ← r.cells[i]?
  decode? column.type cell

/-- The rows of a peer. -/
def tableRows (peer : Peer) : Except QueryFault (List TableRow) :=
  .ok (peer.rows.map fun cells => { columns := peer.columns, cells })

/-- The number in the first column of the only row. -/
def onlyNumber (peer : Peer) : Except QueryFault Int64 :=
  match peer.rows with
  | [cells] =>
    match peer.columns, cells with
    | column :: _, some bytes :: _ =>
      -- A count has 64 bits; no other type is read as one.
      if column.type = .int8 then
        match (integer? 8 bytes).bind Integer.fit? with
        | some n => .ok n
        | none => .error (.deserializing 0)
      else .error (.deserializing 0)
    | [], _ => .error (.noColumn 0)
    | _, _ => .error (.deserializing 0)
  | _ => .error .rowCount

/-- Asks a server for rows. -/
def execute (server : String → Peer) (d : Dialect) (sql : String) (bs : Binds) :
    Exchange (List TableRow) :=
  Exchange.run server d sql bs tableRows

/-- Asks a server for a number. -/
def count (server : String → Peer) (d : Dialect) (sql : String) (bs : Binds) : Exchange Int64 :=
  Exchange.run server d sql bs onlyNumber

/-- A server as a database that pages are fetched from. -/
def database (server : String → Peer) : Database TableRow :=
  { execute := fun d sql bs => (execute server d sql bs).result
    count := fun d sql bs => (count server d sql bs).result
    column := TableRow.value }

/-- A query for another dialect is refused, and the server is sent nothing. -/
theorem execute_of_ne {d : Dialect} (h : d ≠ .postgres) (server : String → Peer) (sql : String)
    (bs : Binds) : execute server d sql bs = Exchange.refused (Exchange.foreign d) := by
  simp [execute, Exchange.run, h]

/-- Nothing is sent where one of the parameters cannot be encoded. -/
theorem Exchange.cells_prepare_eq_none {α : Type} {peer : Peer} {p : Positional}
    {read : Peer → Except QueryFault α} {fault : QueryFault}
    (h : encodeAll peer.parameters p.binds = .error fault) :
    (prepare peer p read).cells = none := by
  simp [prepare, h]

end SqlPaging.Postgres
