import SqlPaging.Toml.Scalar
import SqlPaging.Toml.Text

/-!
# SqlPaging — TOML reader

Reads a whole text as one document, line after line: headers of tables, headers of
elements of lists of tables, and keys with values. A value ends where its line
ends; within brackets and braces line ends and comments may stand between items, and
around an equals sign in braces.

The reader descends by a bound that every bracket, item and line uses up; the
length of the text is enough for any document in it.

Main results:

* `parse?_empty` — the empty text is the empty document.
-/

namespace SqlPaging.Toml

/-! ## Gaps -/

/-- The characters after blanks, line ends and comments. -/
def skipGaps? (inComment : Bool) : List Char → Option (List Char)
  | [] => some []
  | '\n' :: s => skipGaps? false s
  | '\r' :: '\n' :: s => skipGaps? false s
  | c :: s =>
    -- A comment goes on to the end of its line.
    if inComment then if isPlain c then skipGaps? true s else none
    else if c = '#' then skipGaps? true s
    else if isSpace c then skipGaps? false s
    else some (c :: s)

/-- The characters after a comment, if there is one. -/
def skipComment : List Char → List Char
  | '#' :: s => s.dropWhile isPlain
  | s => s

/-- The characters after the end of the line, where only blanks and a comment may be
left. -/
def endLine? (s : List Char) : Option (List Char) :=
  match skipComment (skipSpaces s) with
  | [] => some []
  | '\n' :: s => some s
  | '\r' :: '\n' :: s => some s
  | _ => none

/-! ## Keys -/

/-- A character of a name that is not quoted. -/
def isNameChar (c : Char) : Bool := c.isAlphanum || c = '_' || c = '-'

/-- A name, quoted or not. -/
def readName? (s : List Char) : Option (String × List Char) :=
  match s with
  | '"' :: s => (readBasic? s).map fun (t, rest) => (String.ofList t, rest)
  | '\'' :: s => (readLiteral? s).map fun (t, rest) => (String.ofList t, rest)
  | s =>
    let name := s.takeWhile isNameChar
    if name.isEmpty then none else some (String.ofList name, s.dropWhile isNameChar)

/-- Names with dots between them, after the names of a path. -/
def readKeyAfter? (path : List String) : Nat → List Char → Option (Key × List Char)
  | 0, _ => none
  | bound + 1, s => do
    let (name, s) ← readName? (skipSpaces s)
    match skipSpaces s with
    | '.' :: s => readKeyAfter? (path ++ [name]) bound s
    -- Without a point behind it, the name is the last one of the key.
    | s => some ({ path, name }, s)

/-- Names with dots between them, and the blanks after them. -/
def readKey? (s : List Char) : Option (Key × List Char) := readKeyAfter? [] (s.length + 1) s

/-- A key with its equals sign, and the gaps around that. -/
def readAssigned? (skip : List Char → Option (List Char)) (s : List Char) :
    Option (Key × List Char) := do
  let (key, s) ← readKey? s
  match ← skip s with
  | '=' :: s => (skip s).map (key, ·)
  | _ => none

/-! ## Values -/

mutual

/-- A value in which at most `room` more brackets and braces may be open. -/
def readValue? (room : Nat) : Nat → List Char → Option (Toml × List Char)
  | 0, _ => none
  | bound + 1, s =>
    match room, s with
    | _, '"' :: s => (readText? ('"' :: s)).map fun (t, rest) => (.text (String.ofList t), rest)
    | _, '\'' :: s => (readText? ('\'' :: s)).map fun (t, rest) => (.text (String.ofList t), rest)
    | room + 1, '[' :: s => (readItems? room bound s).map fun (items, rest) => (.array items, rest)
    | room + 1, '\x7b' :: s =>
      (readEntries? room [] bound s).map fun (t, rest) => (.table .inline t, rest)
    | _, s => readScalar? s

/-- The items of a list, and its closing bracket. -/
def readItems? (room : Nat) : Nat → List Char → Option (List Toml × List Char)
  | 0, _ => none
  | bound + 1, s => do
    match ← skipGaps? false s with
    | ']' :: rest => some ([], rest)
    | s =>
      let (item, s) ← readValue? room bound s
      match ← skipGaps? false s with
      | ']' :: rest => some ([item], rest)
      | ',' :: s =>
        let (items, rest) ← readItems? room bound s
        some (item :: items, rest)
      | _ => none

/-- The entries of a table in braces, added to the ones before, and its closing
brace. -/
def readEntries? (room : Nat) (t : Entries) : Nat → List Char → Option (Entries × List Char)
  | 0, _ => none
  | bound + 1, s => do
    match ← skipGaps? false s with
    | '\x7d' :: rest => some (t, rest)
    | s =>
      let (key, s) ← readAssigned? (skipGaps? false) s
      let (value, s) ← readValue? room bound s
      -- A name that is there already is refused here.
      let t ← assignKey key value t
      match ← skipGaps? false s with
      | '\x7d' :: rest => some (t, rest)
      | ',' :: s => readEntries? room t bound s
      | _ => none

end

/-! ## Documents -/

/-- The most brackets and braces that may be open at once. -/
def depth : Nat := 80

/-- A document that is being read: its table, and the path of the last header. -/
structure Progress where
  root : Entries
  section_ : List String

/-- A header after its opening brackets, which opens something at a key. -/
def readHeader? (p : Progress) (close : List Char) (open_ : String → Entries → Option Entries)
    (s : List Char) : Option (Progress × List Char) := do
  let (key, s) ← readKey? s
  -- Both brackets of an element have to stand together.
  if close.isPrefixOf s then
    let rest ← endLine? (s.drop close.length)
    let root ← changeAt .header (open_ key.name) key.path p.root
    some ({ root, section_ := key.names }, rest)
  else none

/-- A line with a header, or with a key and a value. -/
def readLine? (p : Progress) : List Char → Option (Progress × List Char)
  | '[' :: '[' :: s => readHeader? p "]]".toList openElement s
  | '[' :: s => readHeader? p "]".toList openTable s
  | s => do
    let (key, s) ← readAssigned? (fun s => some (skipSpaces s)) s
    -- Each character of the text uses up at most two of the bound.
    let (value, s) ← readValue? depth (2 * s.length + 1) s
    let rest ← endLine? s
    -- The last header made all tables on its path, so the way to them is open.
    let root ← changeAt .header (assignKey key value) p.section_ p.root
    some ({ p with root }, rest)

/-- The lines up to the end of the text. -/
def readLines? (p : Progress) : Nat → List Char → Option Entries
  | 0, _ => none
  | bound + 1, s => do
    match ← skipGaps? false s with
    | [] => some p.root
    | s =>
      let (p, s) ← readLine? p s
      readLines? p bound s

/-- The characters after the mark of the byte order, if there is one. -/
def skipMark : List Char → List Char
  | '\uFEFF' :: s => s
  | s => s

/-- The table that the whole text is. -/
def parse? (text : String) : Option Entries :=
  let s := skipMark text.toList
  readLines? { root := [], section_ := [] } (s.length + 1) s

/-- The empty text is a document: a table without keys. -/
theorem parse?_empty : (parse? "").isSome = true := by decide

end SqlPaging.Toml
