import SqlPaging.Config
import SqlPaging.Keyset
import SqlPaging.Sql.Token

/-!
# SqlPaging — errors

Every operation that can fail says what failed: a parameter, the place for an
insertion, a cursor, an argument, a reserved name, a token, a configuration, or
the database behind it.
-/

namespace SqlPaging

/-- What a database connection reports. -/
inductive QueryFault where
  /-- the statement has another number of parameters than were given -/
  | parameterCount (expected given : Nat)
  /-- a parameter cannot be encoded -/
  | serializing (index : Nat)
  /-- not exactly one row came back -/
  | rowCount
  /-- a column cannot be decoded -/
  | deserializing (index : Nat)
  | noColumn (index : Nat)
deriving DecidableEq, Repr

/-- The message about a connection. -/
def QueryFault.message : QueryFault → String
  | .parameterCount expected given =>
    "expected " ++ toString expected ++ " parameters but got " ++ toString given
  | .serializing index => "error serializing parameter " ++ toString index
  | .rowCount => "query returned an unexpected number of rows"
  | .deserializing index => "error deserializing column " ++ toString index
  | .noColumn index => "invalid column \x60" ++ toString index ++ "\x60"

/-- An error of the library. -/
inductive PageError where
  | normalize (e : ParamError)
  | insertionPoint (fault : Sql.Fault)
  | invalidCursor (fault : CursorFault)
  | invalidArgument (fault : ArgumentFault)
  /-- a name that belongs to the values of a cursor -/
  | paramCollision (name : String)
  /-- a token that cannot be read or written -/
  | serialization
  | config (fault : ConfigFault)
  | driver (text : String)
  | query (fault : QueryFault)

/-- The message of an error, where it has one of its own. -/
def PageError.message? : PageError → Option String
  | .normalize e => some e.message
  | .insertionPoint fault => some ("Insertion point error: " ++ fault.message)
  | .invalidCursor fault => some ("Invalid cursor: " ++ fault.message)
  | .invalidArgument fault => some ("Invalid argument: " ++ fault.message)
  | .paramCollision name =>
    some ("Parameter collision: ':" ++ name ++ "' is reserved for cursor values")
  | .serialization => none
  | .config fault => fault.message?.map ("Config error: " ++ ·)
  | .driver text => some ("Driver error: " ++ text)
  | .query fault => some ("Query error: " ++ fault.message)

end SqlPaging
