import Mathlib.Data.List.Basic
import SqlPaging.Proofs.Keyset.Meaning

/-!
# SqlPaging — the text of keyset predicates

A database sees the text of a predicate. The text is read as clauses in parentheses
with `OR` between them, a clause as comparisons with `AND` between them, and a
comparison as an expression, an operator and a parameter `:cursor__i`. An expression
may be any text, so the reader is told the expressions: a clause compares the first
ones of the order, one after the other.

Main results:

* `read?_sql` — the text of the predicate of a walk is read back.
* `readGroup?_grouped_after` — so it is within the text of a statement.
* `ofCursor_text_holds_iff` — a cursor gives a predicate whose text holds of exactly
  the rows that come after its boundary.
-/

namespace SqlPaging

namespace Keyset

/-! ## Reading -/

/-- The comparison at the front of a text. -/
def readComparison? : List Char → Option (Comparison × List Char)
  | '=' :: s => some (.equal, s)
  | '<' :: '=' :: s => some (.lessOrEqual, s)
  | '<' :: s => some (.less, s)
  | '>' :: '=' :: s => some (.greaterOrEqual, s)
  | '>' :: s => some (.greater, s)
  | _ => none

/-- A term of the given expression at the front of a text. -/
def readTerm? (expression : String) (s : List Char) : Option (Term × List Char) := do
  let s ← (expression.toList ++ [' ']).isPrefixOf? s
  let (comparison, s) ← readComparison? s
  let s ← " :cursor__".toList.isPrefixOf? s
  some ({ expression, comparison, index := Decimal.ofDigits (s.takeWhile Char.isDigit) },
    s.dropWhile Char.isDigit)

/-- Terms of the given expressions at the front of a text, as many as there are. -/
def readTerms? : List String → List Char → Option (Clause × List Char)
  | [], _ => none
  | e :: es, s => do
    let (t, s) ← readTerm? e s
    match " AND ".toList.isPrefixOf? s with
    | some s => (readTerms? es s).map fun (ts, s) => (t :: ts, s)
    | none => some ([t], s)

/-- A clause in parentheses at the front of a text. -/
def readClause? (expressions : List String) (s : List Char) : Option (Clause × List Char) := do
  let s ← ['('].isPrefixOf? s
  let (c, s) ← readTerms? expressions s
  let s ← [')'].isPrefixOf? s
  some (c, s)

/-- At most the given number of clauses at the front of a text, as many as there are. -/
def readClauses? (expressions : List String) : Nat → List Char → Option (Predicate × List Char)
  | 0, _ => none
  | n + 1, s => do
    let (c, s) ← readClause? expressions s
    match " OR ".toList.isPrefixOf? s with
    | some s => (readClauses? expressions n s).map fun (cs, s) => (c :: cs, s)
    | none => some ([c], s)

/-- A predicate at the front of a text, in parentheses if there are several expressions. Every
clause takes at least one character. -/
def readGroup? (expressions : List String) (s : List Char) : Option (Predicate × List Char) :=
  if 1 < expressions.length then do
    let s ← ['('].isPrefixOf? s
    let (p, s) ← readClauses? expressions s.length s
    let s ← [')'].isPrefixOf? s
    some (p, s)
  else readClauses? expressions s.length s

/-- The predicate that a text over the given expressions says. -/
def read? (expressions : List String) (text : String) : Option Predicate :=
  (readClauses? expressions text.length text.toList).bind fun (p, s) =>
    if s.isEmpty then some p else none

/-- A text that says a predicate, and the predicate holds of a row. -/
def textHolds {α : Type} [DecidableEq α] (coll : Collation α) (row : String → α)
    (param : String → Option α) (expressions : List String) (text : String) : Bool :=
  (read? expressions text).any (Predicate.holds coll row param)

/-! ## Reading what was written -/

theorem isPrefixOf?_append (mark s : List Char) : mark.isPrefixOf? (mark ++ s) = some s := by
  rw [List.isPrefixOf?_eq_some_iff_append_eq]

/-- No operator is taken for a shorter one, since a blank follows. -/
theorem readComparison?_sql (c : Comparison) (s : List Char) :
    readComparison? (c.sql.toList ++ ' ' :: s) = some (c, ' ' :: s) := by
  cases c <;> rfl

theorem toList_sql (t : Term) :
    t.sql.toList = (t.expression.toList ++ [' ']) ++ (t.comparison.sql.toList ++
      (" :cursor__".toList ++ Nat.toDigits 10 t.index)) := by
  have hmark : " :cursor__".toList = " :".toList ++ namePart.toList ++ expansionMark.toList := rfl
  have hdigits : (toString t.index).toList = Nat.toDigits 10 t.index := by
    rw [Nat.toString_eq_repr, Nat.toList_repr]
  rw [hmark, ← hdigits]
  simp [Term.sql, paramName, expandedName]

/-- The number of a parameter ends where no digit follows. -/
theorem takeWhile_digits (n : Nat) {c : Char} (hc : c.isDigit = false) (s : List Char) :
    (Nat.toDigits 10 n ++ c :: s).takeWhile Char.isDigit = Nat.toDigits 10 n ∧
      (Nat.toDigits 10 n ++ c :: s).dropWhile Char.isDigit = c :: s := by
  have hall : ∀ d ∈ Nat.toDigits 10 n, d.isDigit = true := fun d hd =>
    Nat.isDigit_of_mem_toDigits (b := 10) (n := n) (by decide) (by decide) hd
  constructor
  · rw [List.takeWhile_append_of_pos hall, List.takeWhile_cons, hc]
    simp
  · rw [List.dropWhile_append_of_pos hall, List.dropWhile_cons, hc]
    simp

/-- A term is read back up to the digits of its number. -/
theorem readTerm?_sql (t : Term) {c : Char} (hc : c.isDigit = false) (s : List Char) :
    readTerm? t.expression (t.sql.toList ++ c :: s) = some (t, c :: s) := by
  obtain ⟨hdigits, hrest⟩ := takeWhile_digits t.index hc s
  have hcomparison := readComparison?_sql t.comparison
    (":cursor__".toList ++ (Nat.toDigits 10 t.index ++ c :: s))
  -- the space before the mark ends the comparison, so it is split off first
  have hmark : " :cursor__".toList = ' ' :: ":cursor__".toList := rfl
  rw [readTerm?, toList_sql, List.append_assoc, isPrefixOf?_append]
  simp only [Option.bind_eq_bind, Option.bind_some, List.append_assoc]
  rw [hmark, List.cons_append, hcomparison]
  simp only [Option.bind_some]
  rw [← List.cons_append, isPrefixOf?_append]
  simp only [Option.bind_some, hdigits, hrest, Decimal.ofDigits_toDigits]

def termsText (c : Clause) : List Char := (" AND ".intercalate (c.map Term.sql)).toList

/-- The terms of a clause are read back up to the parenthesis that closes it. -/
theorem readTerms?_termsText {c : Clause} (hne : c ≠ []) {expressions more : List String}
    (he : expressions = c.map (·.expression) ++ more) (s : List Char) :
    readTerms? expressions (termsText c ++ ')' :: s) = some (c, ')' :: s) := by
  -- the induction follows the reader, which looks for `AND` behind each term
  subst he
  induction c with
  | nil => exact absurd rfl hne
  | cons t ts ih =>
    cases ts with
    | nil =>
      simp only [termsText, List.map_cons, List.map_nil, String.intercalate_singleton,
        List.cons_append, readTerms?, readTerm?_sql t (by decide : ')'.isDigit = false),
        Option.bind_eq_bind, Option.bind_some]
      rfl
    | cons u us =>
      have hnext : termsText (t :: u :: us) ++ ')' :: s =
          t.sql.toList ++ (" AND ".toList ++ (termsText (u :: us) ++ ')' :: s)) := by
        simp [termsText, String.intercalate_cons_cons]
      -- the space in front of `AND` ends the number of the placeholder
      have hterm : readTerm? t.expression
          (t.sql.toList ++ (" AND ".toList ++ (termsText (u :: us) ++ ')' :: s))) =
            some (t, " AND ".toList ++ (termsText (u :: us) ++ ')' :: s)) :=
        readTerm?_sql t (c := ' ') (by decide) _
      rw [List.map_cons, List.cons_append, readTerms?, hnext, hterm]
      simp only [Option.bind_eq_bind, Option.bind_some, isPrefixOf?_append, ih (by simp),
        Option.map_some]

/-- A clause is read back with its parentheses. -/
theorem readClause?_clauseSql {c : Clause} (hne : c ≠ []) {expressions more : List String}
    (he : expressions = c.map (·.expression) ++ more) (s : List Char) :
    readClause? expressions ((clauseSql c).toList ++ s) = some (c, s) := by
  have htext : (clauseSql c).toList ++ s = ['('] ++ (termsText c ++ ')' :: s) := by
    simp [clauseSql, termsText]
  have hclose : ')' :: s = [')'] ++ s := rfl
  rw [readClause?, htext, isPrefixOf?_append]
  simp only [Option.bind_eq_bind, Option.bind_some, readTerms?_termsText hne he s]
  rw [hclose, isPrefixOf?_append, Option.bind_some]

/-- A clause has terms, and they compare the first ones of the expressions. -/
def Compares (expressions : List String) (c : Clause) : Prop :=
  c ≠ [] ∧ ∃ more, expressions = c.map (·.expression) ++ more

/-- Clauses are read back up to where no other one follows. -/
theorem readClauses?_sql {expressions : List String} {p : Predicate} (hne : p ≠ []) {n : Nat}
    (hn : p.length ≤ n) (hc : ∀ c ∈ p, Compares expressions c) {s : List Char}
    (hs : " OR ".toList.isPrefixOf? s = none) :
    readClauses? expressions n ((sql p).toList ++ s) = some (p, s) := by
  -- so does this one, with `OR` and one step less to go for each clause
  induction p generalizing n with
  | nil => exact absurd rfl hne
  | cons c cs ih =>
    obtain ⟨m, rfl⟩ : ∃ m, n = m + 1 := by
      cases n with
      | zero => simp at hn
      | succ m => exact ⟨m, rfl⟩
    obtain ⟨hterms, more, he⟩ := hc c List.mem_cons_self
    cases cs with
    | nil =>
      have htext : (sql [c]).toList ++ s = (clauseSql c).toList ++ s := by
        simp [sql, String.intercalate_singleton]
      rw [readClauses?, htext, readClause?_clauseSql hterms he s]
      simp only [Option.bind_eq_bind, Option.bind_some, hs]
    | cons d ds =>
      have htext : (sql (c :: d :: ds)).toList ++ s =
          (clauseSql c).toList ++ (" OR ".toList ++ ((sql (d :: ds)).toList ++ s)) := by
        simp [sql, String.intercalate_cons_cons]
      -- the expressions are the same for each clause, unlike the number of steps
      have hrest := ih (by simp) (n := m) (by simpa using hn)
        (fun c hmem => hc c (List.mem_cons_of_mem _ hmem))
      rw [readClauses?, htext, readClause?_clauseSql hterms he]
      simp only [Option.bind_eq_bind, Option.bind_some, isPrefixOf?_append, hrest,
        Option.map_some]

/-- A predicate has no more clauses than its text has characters. -/
theorem length_le_length_sql (p : Predicate) : p.length ≤ (sql p).length := by
  -- each clause has its parenthesis
  have hclause : ∀ c : Clause, 1 ≤ (clauseSql c).length := by
    intro c
    simp only [clauseSql, String.length_append]
    have : "(".length = 1 := rfl
    omega
  induction p with
  | nil => simp
  | cons c cs ih =>
    have hone := hclause c
    cases cs with
    | nil => simpa [sql, String.intercalate_singleton] using hone
    | cons d ds =>
      -- between two clauses stands a word
      have htext : sql (c :: d :: ds) = clauseSql c ++ " OR " ++ sql (d :: ds) := by
        simp [sql, String.intercalate_cons_cons]
      rw [htext, String.length_append, String.length_append, List.length_cons]
      omega

/-- A predicate whose clauses compare the expressions of an order is read back from its
text. -/
theorem read?_sql {expressions : List String} {p : Predicate} (hne : p ≠ [])
    (hc : ∀ c ∈ p, Compares expressions c) : read? expressions (sql p) = some p := by
  have hread := readClauses?_sql hne (length_le_length_sql p) hc (s := []) rfl
  rw [List.append_nil] at hread
  rw [read?, hread]
  rfl

/-- A clause compares the expressions of its items, in order. -/
theorem clause_expressions (index : Nat) (last : Comparison) (items : List OrderItem) :
    (clause index last items).map (·.expression) = items.map (·.expression) := by
  fun_induction clause index last items with
  | case1 => rfl
  | case2 => rfl
  | case3 index i is hne ih => simp [ih]

/-- Every clause compares the first expressions of the order. -/
theorem compares_of_mem_clausesUpTo {items : List OrderItem} {walk : Direction}
    {inclusive : Bool} {n : Nat} (hn : n ≤ items.length) {c : Clause}
    (hc : c ∈ clausesUpTo items walk inclusive n) : Compares (items.map (·.expression)) c := by
  induction n with
  | zero => simp [clausesUpTo] at hc
  | succ n ih =>
    rw [clausesUpTo, List.mem_cons] at hc
    rcases hc with rfl | hc
    · constructor
      · intro hnil
        have hlen := congrArg List.length
          (clause_expressions 0 (lastComparison walk (inclusive && n + 1 == items.length)
            (items.take (n + 1))) (items.take (n + 1)))
        rw [hnil] at hlen
        simp at hlen
        omega
      · -- the expressions that a clause leaves out are the last ones
        refine ⟨(items.drop (n + 1)).map (·.expression), ?_⟩
        rw [clause_expressions, ← List.map_append, List.take_append_drop]
    · exact ih (by omega) hc

theorem after_ne_nil {order : Order} (hne : order.items ≠ []) (walk : Direction)
    (inclusive : Bool) : after order walk inclusive ≠ [] := by
  intro hnil
  have hlen := length_after order walk inclusive
  rw [hnil, Order.size, List.length_nil] at hlen
  exact hne (List.length_eq_zero_iff.mp hlen.symm)

/-- The predicate of a walk is read back from its text. -/
theorem read?_sql_after {order : Order} (hne : order.items ≠ []) (walk : Direction)
    (inclusive : Bool) :
    read? order.expressions (sql (after order walk inclusive)) =
      some (after order walk inclusive) :=
  read?_sql (after_ne_nil hne walk inclusive)
    fun _ hc => compares_of_mem_clausesUpTo (Nat.le_refl _) hc

/-- The predicate of a walk is read back where it stands in a longer text. -/
theorem readGroup?_grouped_after {order : Order} (hne : order.items ≠ []) (walk : Direction)
    (inclusive : Bool) {s : List Char} (hs : " OR ".toList.isPrefixOf? s = none) :
    readGroup? order.expressions ((grouped (after order walk inclusive)).toList ++ s) =
      some (after order walk inclusive, s) := by
  have hafter := after_ne_nil hne walk inclusive
  have hc : ∀ c ∈ after order walk inclusive, Compares order.expressions c :=
    fun _ hc => compares_of_mem_clausesUpTo (Nat.le_refl _) hc
  -- a clause has at least one character, so that the reader has as many steps as it needs
  have hlen := length_le_length_sql (after order walk inclusive)
  rw [← String.length_toList] at hlen
  -- there is a clause for each expression, so both sides agree on the parentheses
  have hsize : order.expressions.length = (after order walk inclusive).length := by
    rw [length_after, Order.size, Order.expressions, List.length_map]
  rw [readGroup?, grouped, hsize]
  split
  · have htext : ("(" ++ sql (after order walk inclusive) ++ ")").toList ++ s =
        ['('] ++ ((sql (after order walk inclusive)).toList ++ ([')'] ++ s)) := by simp
    rw [htext, isPrefixOf?_append]
    simp only [Option.bind_eq_bind, Option.bind_some]
    rw [readClauses?_sql hafter (by rw [List.length_append]; omega) hc rfl]
    simp only [Option.bind_some, isPrefixOf?_append]
  · exact readClauses?_sql hafter (by rw [List.length_append]; omega) hc hs

end Keyset

/-- A cursor that has a value for each expression of an order, all of which can be
bound and are not null, gives a keyset predicate. Its text holds of exactly the rows
that come after the boundary in the order, or before it on a walk back, and of the
rows with the boundary's values if the boundary belongs to the page. -/
theorem ofCursor_text_holds_iff {d : Dialect} {order : Order} {c : Cursor}
    {bounds : List BindValue} (hne : order.items ≠ []) (hfits : c.fits order = true)
    (hbounds : c.values.map (fun v => normalizeScalar d v.2) = bounds.map .ok)
    (hnull : BindValue.null ∉ bounds) :
    ∃ k, Keyset.ofCursor d order c = .ok k ∧
      ∀ {α : Type} [DecidableEq α] (coll : Collation α) (denote : BindValue → α)
        (row : String → α),
        Keyset.textHolds coll row (k.binds.param denote) order.expressions
            (Keyset.sql k.predicate) = true ↔
          coll.follows c.direction order.items (bounds.map denote)
              (order.expressions.map row) = true ∨
            (c.inclusive = true ∧ order.expressions.map row = bounds.map denote) := by
  refine ⟨_, Keyset.ofCursor_eq hfits hbounds hnull, ?_⟩
  intro α _ coll denote row
  -- the keys of the cursor are the expressions, so that there is a value for each
  have hlen : (bounds.map denote).length = order.items.length := by
    have hkeys : c.values.keys = order.expressions := by simpa [Cursor.fits] using hfits
    have hvalues := congrArg List.length hbounds
    have hnames := congrArg List.length hkeys
    simp only [List.length_map, Fields.keys, Order.expressions] at hvalues hnames
    rw [List.length_map, ← hvalues, hnames]
  -- the binds give the placeholders the values in the order of the items
  have hparam := Keyset.supplies_bindsFrom denote [] bounds (by simp)
  rw [List.nil_append] at hparam
  rw [Keyset.textHolds, Keyset.read?_sql_after hne, Option.any_some]
  exact Keyset.holds_after coll row c.direction c.inclusive hne hlen hparam

/-- A walk back from a row of two columns that belongs to the page, where the first
column is sorted downwards. -/
theorem ofCursor_text_holds_iff_of_two_columns :
    ∃ k, Keyset.ofCursor .mySql ⟨[⟨"gender", .descending⟩, ⟨"user_id", .ascending⟩]⟩
        { pager := .ofPage 2 10, values := [("gender", .int 2), ("user_id", .int 21)],
          eachSideSnapshot := none, direction := .prev, inclusive := true,
          createdAt := default } = .ok k ∧
      ∀ {α : Type} [DecidableEq α] (coll : Collation α) (denote : BindValue → α)
        (row : String → α),
        Keyset.textHolds coll row (k.binds.param denote) ["gender", "user_id"]
            (Keyset.sql k.predicate) = true ↔
          coll.follows .prev [⟨"gender", .descending⟩, ⟨"user_id", .ascending⟩]
              [denote (.int 2), denote (.int 21)] [row "gender", row "user_id"] = true ∨
            (true = true ∧ [row "gender", row "user_id"] = [denote (.int 2), denote (.int 21)]) :=
  ofCursor_text_holds_iff (by decide) (by decide) rfl
    (show BindValue.null ∉ [.int 2, .int 21] by decide)

end SqlPaging
