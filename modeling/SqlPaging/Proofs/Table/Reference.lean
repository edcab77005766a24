import SqlPaging.Proofs.Sql.Places
import SqlPaging.Proofs.Sql.Put
import SqlPaging.Proofs.Table.Answer

/-!
# SqlPaging — a database that reads its queries

Whether a database can serve a table depends on what a query says of its window, its
order and its condition. For a plain statement, which has no clause of its own that
paging looks for, the text of a query says all of it: a reader that knows the
statement and its order takes the query apart again.

Main results:

* `toList_sql_of_compile` — the text of a query of a plain statement.
* `readPaged?_of_compile` — such a query is read back.
* `serves_database` — a database that reads its queries serves its table.
-/

namespace SqlPaging

open Sql (Draft Statement)

/-- A statement without clauses that paging looks for. -/
structure Plain (d : Dialect) (sql : String) (s : Statement) : Prop where
  parsed : Query.parse d sql = .ok s
  unmarked : s.markers = []

/-! ## The text of a query -/

/-- The condition that a cursor adds. -/
def conditionOf (d : Dialect) (order : Order) : Option Cursor → Option Keyset.Predicate
  | none => none
  | some c => (Keyset.ofCursor d order c).toOption.map (·.predicate)

/-- What a condition puts into a plain statement. -/
def conditionText (condition : Option Keyset.Predicate) : List Char :=
  condition.elim [] fun p => " WHERE ".toList ++ (Keyset.grouped p).toList

/-- Without collections, the draft of a statement is the statement. -/
theorem expandFrom_nil (previous tokens : List Sql.Token) :
    Draft.expandFrom [] previous tokens = .ok (Draft.ofTokens tokens) := by
  induction tokens generalizing previous with
  | nil => rfl
  | cons t ts ih =>
    have hmore : (Draft.expandFrom [] (t :: previous) ts).map (.ofToken t t.text :: ·) =
        .ok (Draft.ofTokens (t :: ts)) := by
      rw [ih]
      rfl
    rw [Draft.expandFrom]
    dsimp only
    -- no token is expanded, whether it is a placeholder or not
    split
    · exact hmore
    · exact hmore

namespace Plain

variable {d : Dialect} {sql : String} {s : Statement}

theorem tokens_ne_nil (h : Plain d sql s) : s.tokens ≠ [] :=
  (Statement.parse_eq_ok (mapError_eq_ok.mp h.parsed)).1

/-- A plain statement has no clause behind its tables. -/
theorem marker?_eq_none (h : Plain d sql s) (clause : Sql.Clause) : s.marker? clause = none := by
  rw [Statement.marker?, h.unmarked]
  rfl

/-- The tail of a plain statement goes behind its last token. -/
theorem tailIndex_eq (h : Plain d sql s) : s.tailIndex = .ok s.lastIndex := by
  rw [Statement.tailIndex, h.marker?_eq_none]

theorem addCondition_eq (h : Plain d sql s) (condition : List Char) (draft : Draft) :
    Draft.addCondition s condition draft =
      .ok (draft.putAfter s.lastIndex (" WHERE ".toList ++ condition)) := by
  rw [Draft.addCondition, h.marker?_eq_none, h.marker?_eq_none, Option.or_none]
  dsimp only
  rw [Statement.filterIndex, h.unmarked]
  rfl

/-- Text put after the last token of a plain statement ends it, and so does text that
is put there after that. -/
theorem text_putAfter (h : Plain d sql s) (t : List Char) :
    Draft.text ((Draft.ofTokens s.tokens).putAfter s.lastIndex t) = s.body ++ t := by
  have hlen : s.lastIndex = (Draft.ofTokens s.tokens).length - 1 := by
    rw [Statement.lastIndex, Draft.ofTokens, List.length_map]
  rw [hlen, Draft.text_putAfter_last, Draft.text_ofTokens, Statement.body]
  simpa [Draft.ofTokens] using h.tokens_ne_nil

/-- What is put in second stands behind what was put in first. -/
theorem text_putAfter_putAfter (h : Plain d sql s) (t u : List Char) :
    Draft.text (((Draft.ofTokens s.tokens).putAfter s.lastIndex t).putAfter s.lastIndex u) =
      s.body ++ t ++ u := by
  -- putting text in leaves the last place the last one
  have hlen : s.lastIndex =
      ((Draft.ofTokens s.tokens).putAfter s.lastIndex t).length - 1 := by
    rw [Draft.length_putAfter, Statement.lastIndex, Draft.ofTokens, List.length_map]
  have hne : (Draft.ofTokens s.tokens).putAfter s.lastIndex t ≠ [] := by
    rw [← List.length_pos_iff, Draft.length_putAfter, List.length_pos_iff]
    simpa [Draft.ofTokens] using h.tokens_ne_nil
  have hput := Draft.text_putAfter_last hne u
  rw [← hlen] at hput
  rw [hput, h.text_putAfter]

end Plain

theorem normalize_nil (d : Dialect) : normalize d [] = .ok .empty := rfl

/-- The text of a query of a plain statement: the statement, the condition, the order
and the limit. -/
theorem toList_sql_of_compile {d : Dialect} {sql : String} {s : Statement} {order : Order}
    {pager : Pager} {cursor : Option Cursor} {q : Query} (h : Plain d sql s)
    (hq : Query.compile d sql order [] pager cursor = .ok q) :
    q.sql.toList =
      s.body ++ conditionText (conditionOf d order cursor) ++
        Query.tail (emitted order cursor) q.window := by
  obtain ⟨n, s', draft, seek, i, hn, hs, -, hdraft, hseek, hi, rfl⟩ :=
    Query.compile_eq_ok_iff.mp hq
  obtain rfl := Except.ok.inj (hs.symm.trans h.parsed)
  obtain rfl := Except.ok.inj (hi.symm.trans h.tailIndex_eq)
  rw [normalize_nil] at hn
  obtain rfl := Except.ok.inj hn
  -- without parameters nothing is expanded
  rw [Query.expand, mapError_eq_ok, Draft.expanded] at hdraft
  obtain rfl := Except.ok.inj ((expandFrom_nil _ _).symm.trans hdraft)
  rw [String.toList_ofList]
  cases cursor with
  | none =>
    obtain ⟨w, -, rfl⟩ := Query.skipping_eq_ok_iff.mp hseek
    rw [conditionOf, conditionText, Option.elim_none, emitted, List.append_nil]
    exact h.text_putAfter _
  | some c =>
    obtain ⟨-, k, draft', w, hk, hcondition, -, rfl⟩ := Query.seeking_eq_ok_iff.mp hseek
    -- the condition goes to the end, and the tail behind it
    rw [h.addCondition_eq] at hcondition
    obtain rfl := Except.ok.inj hcondition
    have hpredicate : conditionOf d order (some c) = some k.predicate := by
      rw [conditionOf, hk]
      rfl
    rw [hpredicate, conditionText, Option.elim_some, emitted]
    exact h.text_putAfter_putAfter _ _

/-! ## Reading a query -/

/-- What the text of a query says. -/
structure Paged where
  condition : Option Keyset.Predicate
  order : Order
  limit : Nat
  offset : Nat

/-- The condition at the front of a text, if there is one. -/
def readCondition? (order : Order) (s : List Char) :
    Option (Option Keyset.Predicate × List Char) :=
  match " WHERE ".toList.isPrefixOf? s with
  | some s => (Keyset.readGroup? order.expressions s).map fun (p, s) => (some p, s)
  | none => some (none, s)

/-- The text of an order and what comes after it in every query. -/
def orderText (order : Order) : List Char := (order.suffix ++ " LIMIT ").toList

/-- The given order or its reverse at the front of a text. -/
def readOrder? (order : Order) (s : List Char) : Option (Order × List Char) :=
  match (orderText order).isPrefixOf? s with
  | some s => some (order, s)
  | none => ((orderText order.reversed).isPrefixOf? s).map fun s => (order.reversed, s)

/-- What a query says that starts with the given text. -/
def readPaged? (body : List Char) (order : Order) (s : List Char) : Option Paged := do
  let s ← body.isPrefixOf? s
  let (condition, s) ← readCondition? order s
  let (order, s) ← readOrder? order s
  let limit := Decimal.ofDigits (s.takeWhile Char.isDigit)
  let s ← " OFFSET ".toList.isPrefixOf? (s.dropWhile Char.isDigit)
  some { condition, order, limit, offset := Decimal.ofDigits (s.takeWhile Char.isDigit) }

/-- An order starts with its first item. -/
theorem orderText_cons (i : OrderItem) (is : List OrderItem) :
    ∃ s, orderText ⟨i :: is⟩ =
      " ORDER BY ".toList ++ i.expression.toList ++ ' ' :: i.direction.sql.toList ++ s := by
  have hmark : " ORDER BY ".toList = " ".toList ++ "ORDER BY ".toList := rfl
  -- behind the last direction comes the limit, behind all others a comma
  cases is with
  | nil =>
    refine ⟨" LIMIT ".toList, ?_⟩
    rw [hmark]
    simp [orderText, Order.suffix, Order.isEmpty, Order.sql, Order.itemSql]
  | cons j js =>
    refine ⟨", ".toList ++ (", ".intercalate ((j :: js).map Order.itemSql)).toList ++
      " LIMIT ".toList, ?_⟩
    rw [hmark]
    simp [orderText, Order.suffix, Order.isEmpty, Order.sql, Order.itemSql,
      String.intercalate_cons_cons]

/-- An order and its reverse are told apart by their first directions. -/
theorem isPrefixOf?_orderText_reversed {order : Order} (hne : order.items ≠ []) (s : List Char) :
    (orderText order).isPrefixOf? (orderText order.reversed ++ s) = none := by
  obtain ⟨items⟩ := order
  obtain ⟨i, is, rfl⟩ := List.exists_cons_of_ne_nil hne
  obtain ⟨t, ht⟩ := orderText_cons i is
  obtain ⟨u, hu⟩ := orderText_cons { i with direction := i.direction.reverse }
    (is.map fun i => { i with direction := i.direction.reverse })
  -- one text at the front of the other would have the same first direction
  rw [Option.eq_none_iff_forall_ne_some]
  intro rest hrest
  rw [List.isPrefixOf?_eq_some_iff_append_eq, ht, Order.reversed, List.map_cons, hu] at hrest
  simp only [List.append_assoc, List.cons_append, List.append_cancel_left_eq, List.cons.injEq,
    true_and] at hrest
  cases hd : i.direction <;> rw [hd] at hrest <;>
    simp [SortDirection.sql, SortDirection.reverse] at hrest

/-- The order of a query is read back, whether or not it was reversed. -/
theorem readOrder?_orderText {order : Order} (hne : order.items ≠ []) (cursor : Option Cursor)
    (s : List Char) :
    readOrder? order (orderText (emitted order cursor) ++ s) =
      some (emitted order cursor, s) := by
  -- an order is emitted as it is or turned round
  have hor : emitted order cursor = order ∨ emitted order cursor = order.reversed := by
    cases cursor with
    | none => exact .inl rfl
    | some c =>
      rw [emitted]
      split
      · exact .inr rfl
      · exact .inl rfl
  rcases hor with h | h
  · rw [h, readOrder?, Keyset.isPrefixOf?_append]
  · rw [h, readOrder?, isPrefixOf?_orderText_reversed hne, Keyset.isPrefixOf?_append]
    rfl

theorem toList_text {n : Int64} (h : 0 ≤ n.toInt) :
    (Integer.text n).toList = Nat.toDigits 10 n.toInt.toNat := by
  obtain ⟨k, hk⟩ := Int.eq_ofNat_of_zero_le h
  rw [Integer.text, hk, Int.toNat_natCast]
  show (toString k).toList = _
  rw [Nat.toString_eq_repr, Nat.toList_repr]

theorem predicate_of_ofCursor {d : Dialect} {order : Order} {c : Cursor} {k : Keyset}
    (h : Keyset.ofCursor d order c = .ok k) :
    k.predicate = Keyset.after order c.direction c.inclusive := by
  unfold Keyset.ofCursor at h
  split at h
  · rw [bind_eq_ok] at h
    obtain ⟨binds, -, h⟩ := h
    cases h
    rfl
  · cases h

/-- A condition is the predicate of some walk through the order. -/
theorem conditionOf_eq_some {d : Dialect} {order : Order} {cursor : Option Cursor}
    {p : Keyset.Predicate} (h : conditionOf d order cursor = some p) :
    ∃ walk inclusive, p = Keyset.after order walk inclusive := by
  cases cursor with
  | none => cases h
  | some c =>
    rw [conditionOf, Option.map_eq_some_iff] at h
    obtain ⟨k, hk, rfl⟩ := h
    -- a cursor that gives no predicate gives no condition
    cases hkeyset : Keyset.ofCursor d order c with
    | error fault =>
      rw [hkeyset] at hk
      cases hk
    | ok k' =>
      rw [hkeyset] at hk
      cases hk
      exact ⟨_, _, predicate_of_ofCursor hkeyset⟩

/-- The condition of a query is read back: it ends where the order starts. -/
theorem readCondition?_conditionText (d : Dialect) {order : Order} (hne : order.items ≠ [])
    (cursor : Option Cursor) (s : List Char) :
    readCondition? order (conditionText (conditionOf d order cursor) ++
        (orderText (emitted order cursor) ++ s)) =
      some (conditionOf d order cursor, orderText (emitted order cursor) ++ s) := by
  -- neither a condition nor a further clause of one starts like an order
  obtain ⟨rest, hrest⟩ : ∃ rest, orderText (emitted order cursor) ++ s =
      ' ' :: 'O' :: 'R' :: 'D' :: rest := by
    have hitems : (emitted order cursor).items ≠ [] := by
      cases cursor with
      | none => exact hne
      | some c =>
        rw [emitted]
        split
        · simpa [Order.reversed] using hne
        · exact hne
    obtain ⟨i, is, hcons⟩ := List.exists_cons_of_ne_nil hitems
    obtain ⟨t, ht⟩ := orderText_cons i is
    have hmark : " ORDER BY ".toList = ' ' :: 'O' :: 'R' :: 'D' :: "ER BY ".toList := rfl
    rw [show emitted order cursor = ⟨i :: is⟩ from congrArg Order.mk hcons, ht, hmark]
    exact ⟨_, rfl⟩
  rw [hrest]
  -- without a condition the order is next; one that is there is read up to where it ends
  cases hcondition : conditionOf d order cursor with
  | none => rfl
  | some p =>
    have hor : " OR ".toList.isPrefixOf? (' ' :: 'O' :: 'R' :: 'D' :: rest) = none := rfl
    obtain ⟨walk, inclusive, rfl⟩ := conditionOf_eq_some hcondition
    rw [conditionText, Option.elim_some, readCondition?, List.append_assoc,
      Keyset.isPrefixOf?_append]
    dsimp only
    rw [Keyset.readGroup?_grouped_after hne walk inclusive hor]
    rfl

theorem takeWhile_toDigits (n : Nat) :
    (Nat.toDigits 10 n).takeWhile Char.isDigit = Nat.toDigits 10 n := by
  have hall : ∀ c ∈ Nat.toDigits 10 n, c.isDigit = true := by
    intro c hc
    exact Nat.isDigit_of_mem_toDigits (b := 10) (n := n) (by decide) (by decide) hc
  rw [← List.append_nil (Nat.toDigits 10 n), List.takeWhile_append_of_pos hall]
  rfl

/-- The window of a query fetches and skips no negative number of rows. -/
theorem window_nonneg_of_compile {d : Dialect} {sql : String} {order : Order} {params : Params}
    {pager : Pager} {cursor : Option Cursor} {q : Query}
    (hq : Query.compile d sql order params pager cursor = .ok q) :
    0 ≤ q.window.limit.toInt ∧ 0 ≤ q.window.offset.toInt := by
  have hsize := pager.size_pos
  -- a limit is one more than a product of numbers that are not negative
  have hpages : ∀ page eachSide, 0 ≤ (effectivePages page eachSide).toInt := by
    intro page eachSide
    rw [toInt_effectivePages]
    omega
  cases cursor with
  | none =>
    have hskips := Window.skips_of_offsetMode (Query.compile_window hq) pager.page_pos
    constructor
    · rw [hskips.limit_eq, hskips.pages_eq]
      have := Int.mul_nonneg (hpages pager.page pager.eachSide) (by omega : 0 ≤ pager.size.toInt)
      omega
    · rw [hskips.offset_eq]
      have hpage := pager.page_pos
      exact Int.mul_nonneg (by omega) (by omega)
  | some c =>
    obtain ⟨k, own, -, hw, -, -⟩ := Query.compile_seeking hq
    obtain ⟨limit, hwindow, hlim⟩ := Window.keysetMode_eq_ok_iff.mp hw
    -- towards the front there is at least one page to seek
    have hseek : 0 ≤ (Window.seekPages pager.page c.eachSide c.direction).toInt := by
      cases c.direction with
      | next => exact hpages _ _
      | prev =>
        rw [Window.seekPages, toInt_atLeast, Int64.toInt_one]
        omega
    rw [hwindow]
    constructor
    · dsimp only
      rw [(Window.probeLimit?_eq_some_iff.mp hlim).2]
      have := Int.mul_nonneg hseek (by omega : 0 ≤ pager.size.toInt)
      omega
    · exact Int.le_of_eq Int64.toInt_zero.symm

/-- A query over a plain statement is read back: its condition, its order, its limit and its
offset. -/
theorem readPaged?_of_compile {d : Dialect} {sql : String} {s : Statement} {order : Order}
    {pager : Pager} {cursor : Option Cursor} {q : Query} (h : Plain d sql s)
    (hne : order.items ≠ []) (hq : Query.compile d sql order [] pager cursor = .ok q) :
    readPaged? s.body order q.sql.toList =
      some { condition := conditionOf d order cursor
             order := emitted order cursor
             limit := q.window.limit.toInt.toNat
             offset := q.window.offset.toInt.toNat } := by
  obtain ⟨hlimit, hoffset⟩ := window_nonneg_of_compile hq
  -- both numbers are printed without a sign, as neither of them is negative
  have htail : Query.tail (emitted order cursor) q.window =
      orderText (emitted order cursor) ++ (Nat.toDigits 10 q.window.limit.toInt.toNat ++
        (" OFFSET ".toList ++ Nat.toDigits 10 q.window.offset.toInt.toNat)) := by
    rw [← toList_text hlimit, ← toList_text hoffset]
    simp [Query.tail, orderText]
  have hmark : " OFFSET ".toList = ' ' :: "OFFSET ".toList := rfl
  -- the parts are read in the order in which they were written
  rw [toList_sql_of_compile h hq, htail, readPaged?, List.append_assoc,
    Keyset.isPrefixOf?_append]
  simp only [Option.bind_eq_bind, Option.bind_some]
  rw [readCondition?_conditionText d hne cursor]
  simp only [Option.bind_some]
  rw [readOrder?_orderText hne cursor]
  simp only [Option.bind_some]
  obtain ⟨hdigits, hrest⟩ := Keyset.takeWhile_digits q.window.limit.toInt.toNat
    (by decide : ' '.isDigit = false) ("OFFSET ".toList ++
      Nat.toDigits 10 q.window.offset.toInt.toNat)
  rw [hmark, List.cons_append, hdigits, hrest, ← List.cons_append, ← hmark,
    Keyset.isPrefixOf?_append]
  simp only [Option.bind_some, takeWhile_toDigits, Decimal.ofDigits_toDigits]

namespace Table

variable {ρ α : Type} [DecidableEq α]

/-- A database of one table, which reads queries that start with the given text. -/
def database (t : Table ρ α) (column : ρ → Row) (body : List Char) (order : Order) :
    Database ρ where
  execute _ sql binds :=
    match readPaged? body order sql.toList with
    | some p =>
      .ok (((t.sorted p.order (t.rows.filter fun r =>
        p.condition.all (Keyset.Predicate.holds t.collation (t.value r) (binds.param t.denote)))).drop
          p.offset).take p.limit)
    | none => .error (.driver "unreadable query")
  count _ _ _ := .ok (Integer.ofLength t.rows.length)
  column := column

/-- The condition holds of the rows that the cursor admits. -/
theorem conditionOf_holds (t : Table ρ α) (d : Dialect) {order : Order} (hne : order.items ≠ [])
    {pager : Pager} {params : Params} {sql : String} {cursor : Option Cursor} {q : Query}
    (hq : Query.compile d sql order params pager cursor = .ok q) (r : ρ) :
    (conditionOf d order cursor).all
        (Keyset.Predicate.holds t.collation (t.value r) (q.binds.param t.denote)) =
      t.admits d order q.binds cursor r := by
  cases cursor with
  | none => rfl
  | some c =>
    -- both sides ask for the predicate of the walk
    obtain ⟨k, own, hk, -⟩ := Query.compile_seeking hq
    rw [conditionOf, admits, hk]
    dsimp only
    rw [predicate_of_ofCursor hk, Keyset.groupHolds_grouped_after _ _ _ hne]
    show Option.all _ (some k.predicate) = _
    rw [predicate_of_ofCursor hk, Option.all_some]

/-- A database that reads its queries serves its table. -/
theorem serves_database (t : Table ρ α) (column : ρ → Row) {d : Dialect} {sql : String}
    {s : Statement} {order : Order} (h : Plain d sql s) (hne : order.items ≠ []) :
    t.Serves (t.database column s.body order) d { sql, order, params := [] } where
  execute pager cursor q hq := by
    simp only [database, readPaged?_of_compile h hne hq, conditionOf_holds t d hne hq]
    rfl
  count q _ := rfl

end Table

end SqlPaging
