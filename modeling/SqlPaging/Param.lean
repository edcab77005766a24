import SqlPaging.Decimal.Reader
import SqlPaging.Dialect
import SqlPaging.Value

/-!
# SqlPaging — parameters

Callers give parameters as named values. A statement is executed with *binds*:
named scalars in the form a driver takes. A scalar gives one bind of its own
name; the elements of a list or a map give one bind each, numbered in order, and
the name is remembered with the names of its elements.

Main results:

* `type_eq_null_iff` — only null binds as null.
* `expandedName_injective` — different elements of one collection have different
  names.
-/

namespace SqlPaging

/-! ## Binds -/

/-- The types of binds. -/
inductive BindType where
  | str | int | bool | null | lob
deriving DecidableEq, Repr

/-- A scalar in the form a driver takes. -/
inductive BindValue where
  | null
  | bool (b : Bool)
  | int (n : Int64)
  | str (s : String)
  | lob (bytes : List UInt8)
deriving DecidableEq, Repr

/-- The type of a bind value. -/
def BindValue.type : BindValue → BindType
  | .null => .null
  | .bool _ => .bool
  | .int _ => .int
  | .str _ => .str
  | .lob _ => .lob

/-- Only null has the type of null. -/
theorem BindValue.type_eq_null_iff (v : BindValue) : v.type = .null ↔ v = .null := by
  cases v <;> simp [type]

/-- A named bind value. -/
structure Bind where
  name : String
  value : BindValue
deriving DecidableEq, Repr

/-- The type of a bind. -/
def Bind.type (b : Bind) : BindType := b.value.type

/-- The binds of a statement, in order, under distinct names. -/
abbrev Binds := List Bind

namespace Binds

/-- The names in order. -/
def names (bs : Binds) : List String := bs.map (·.name)

/-- The bind with a name. -/
def get? (bs : Binds) (name : String) : Option Bind := bs.find? (·.name == name)

end Binds

/-! ## Faults -/

/-- What is wrong with a parameter. -/
inductive ParamFault where
  | invalidName
  | unresolved (why : Value.Unresolved)
  | nonFinite (x : Float)
  | nested (kind : Kind)
  | unsupported (kind : Kind)
  | producedTwice
  | emptyInNotIn

/-- The message about a parameter. -/
def ParamFault.message : ParamFault → String
  | .invalidName => "invalid parameter name"
  | .unresolved why => why.message
  | .nonFinite x => "non-finite float " ++ Value.floatText x
  | .nested kind => "nested " ++ kind.name ++ " values are not supported"
  | .unsupported kind => "unsupported value kind '" ++ kind.name ++ "'"
  | .producedTwice => "parameter name produced twice after array expansion"
  | .emptyInNotIn => "empty collection in NOT IN (...) would match no rows"

/-- A parameter with what is wrong with it. -/
structure ParamError where
  param : String
  fault : ParamFault

/-- The message that names the parameter. -/
def ParamError.message (e : ParamError) : String :=
  "Normalization error on parameter '" ++ e.param ++ "': " ++ e.fault.message

/-! ## Names -/

/-- The parameters of a statement, in order. -/
abbrev Params := Fields Value

/-- Binds a value to a name, which may be written with its colon. -/
def Params.bind (ps : Params) (name : String) (v : Value) : Params :=
  -- One colon is taken off, and only at the front.
  ps.set (match name.toList with
    | ':' :: rest => String.ofList rest
    | _ => name) v

/-- The parameters that binding the pairs one after the other gives. -/
def Params.ofPairs (pairs : List (String × Value)) : Params :=
  pairs.foldl (fun ps p => Params.bind ps p.1 p.2) []

/-- What stands between the name of a collection and the number of an element. -/
def expansionMark : String := "__"

/-- The name of an element of a collection. -/
def expandedName (name : String) (index : Nat) : String :=
  name ++ expansionMark ++ toString index

/-- A name starts with an ASCII letter or an underscore; digits may follow. -/
def isParamName (name : String) : Bool :=
  match name.toList with
  | [] => false
  | c :: cs => (c = '_' || c.isAlpha) && cs.all fun c => c = '_' || c.isAlphanum

/-- The elements of one collection have different names. -/
theorem expandedName_injective (name : String) {i j : Nat}
    (h : expandedName name i = expandedName name j) : i = j := by
  have hc := congrArg String.toList h
  simp only [expandedName, String.toList_append, List.append_assoc, List.append_cancel_left_eq]
    at hc
  -- what follows the common front are the digits of the numbers
  have hr : Nat.repr i = Nat.repr j := String.toList_inj.mp hc
  simp only [Nat.repr, String.ofList_inj] at hr
  rw [← Decimal.ofDigits_toDigits i, ← Decimal.ofDigits_toDigits j, hr]

/-! ## Normalization -/

/-- The bind value of a resolved value. -/
def bindScalar (d : Dialect) : Value → Except ParamFault BindValue
  | .null => .ok .null
  | .bool b => .ok (.bool b)
  | .int n => .ok (.int n)
  -- No database reads the text of an infinity or a NaN as a number.
  | .float x => if x.isFinite then .ok (.str (Value.floatText x)) else .error (.nonFinite x)
  | .string s => .ok (.str s)
  | .bytes b => .ok (.lob b)
  | .dateTime t => .ok (.str (d.dateTimeText t))
  | .date t => .ok (.str (d.dateText t))
  -- What is left are collections and domain values.
  | v => .error (.unsupported v.kind)

/-- The bind value of a scalar. -/
def normalizeScalar (d : Dialect) (v : Value) : Except ParamFault BindValue := do
  let resolved ← v.resolveScalar.mapError .unresolved
  bindScalar d resolved

/-- What parameters become: the binds, and the names of the elements of every
collection. -/
structure Normalized where
  binds : Binds
  expansions : Fields (List String)
deriving Repr

namespace Normalized

/-- Nothing is bound. -/
def empty : Normalized := ⟨[], []⟩

/-- Adds a bind of a new name. -/
def push (n : Normalized) (name : String) (v : BindValue) : Except ParamError Normalized :=
  -- A parameter `a__0` and the first element of a parameter `a` have one name.
  if n.binds.names.contains name then .error ⟨name, .producedTwice⟩
  else .ok { n with binds := n.binds ++ [⟨name, v⟩] }

/-- Adds the bind of an element of a collection. -/
def pushElement (d : Dialect) (n : Normalized) (name : String) (v : Value) :
    Except ParamError Normalized := do
  let element ← (v.resolve.mapError .unresolved).mapError (⟨name, ·⟩)
  -- Elements may be domain values, but stand for scalars.
  if element.isCollection then .error ⟨name, .nested element.kind⟩
  else
    let bound ← (bindScalar d element).mapError (⟨name, ·⟩)
    n.push name bound

/-- Adds the binds of the elements of a collection, of which the first one has
the given number. -/
def pushElements (d : Dialect) (name : String) (index : Nat) (n : Normalized) :
    List Value → Except ParamError Normalized
  | [] => .ok n
  | v :: vs => do
    let n ← n.pushElement d (expandedName name index) v
    pushElements d name (index + 1) n vs

/-- Adds the binds of a collection, and its name with the names of its elements. -/
def pushCollection (d : Dialect) (n : Normalized) (name : String) (vs : List Value) :
    Except ParamError Normalized := do
  let n ← n.pushElements d name 0 vs
  -- An empty collection is remembered too: it has no names, and its placeholder becomes null.
  let names := (List.range vs.length).map (expandedName name)
  .ok { n with expansions := n.expansions.set name names }

/-- Adds what a parameter becomes. -/
def pushParam (d : Dialect) (n : Normalized) (name : String) (v : Value) :
    Except ParamError Normalized :=
  if !isParamName name then .error ⟨name, .invalidName⟩
  else do
    let resolved ← (v.resolve.mapError .unresolved).mapError (⟨name, ·⟩)
    match resolved with
    | .array items => n.pushCollection d name items
    -- The keys of a map are not sent.
    | .map fields => n.pushCollection d name (fields.map (·.2))
    | scalar =>
      let bound ← (bindScalar d scalar).mapError (⟨name, ·⟩)
      n.push name bound

end Normalized

/-- What parameters become in a dialect, one after the other. -/
def normalize (d : Dialect) (ps : Params) : Except ParamError Normalized :=
  ps.foldlM (fun n p => n.pushParam d p.1 p.2) .empty

end SqlPaging
