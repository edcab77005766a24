import SqlPaging.Fetch
import SqlPaging.Proofs.Keyset.Boundary
import SqlPaging.Proofs.Keyset.Reading
import SqlPaging.Proofs.Query.Parts
import SqlPaging.Proofs.Table.Sorted

/-!
# SqlPaging — the answers of a table

A database *serves* a table if it answers a paged query with the rows of the table
that satisfy the added condition, sorted by the emitted order and cut by limit and
offset, and a count with the number of rows. The condition is read off the text that
is put into the statement, with the parameters that are bound to the query.

A cursor *marks* a row of the sorted table if it walks on from that row, has its
values and is of the page that the row starts. A query with such a cursor is answered
with the rows that skipping would give.

Main results:

* `answer_none` — the rows of a query that skips.
* `answer_of_marks` — the rows of a query from a marked row on.
* `marks_of_create` — the cursor made of a boundary row marks it.
-/

namespace SqlPaging

/-- What requests for different pages of one statement share. -/
structure Base where
  sql : String
  order : Order
  params : Params

def Base.request (b : Base) (pager : Pager) : Request :=
  { sql := b.sql, order := b.order, params := b.params, pager }

/-- A condition holds of a row, as its text within a statement says. -/
def Keyset.groupHolds {α : Type} [DecidableEq α] (coll : Collation α) (row : String → α)
    (param : String → Option α) (expressions : List String) (text : String) : Bool :=
  (readGroup? expressions text.toList).any fun (p, rest) =>
    rest.isEmpty && Predicate.holds coll row param p

/-- The text of a walk's predicate holds of the rows that its clauses hold of. -/
theorem Keyset.groupHolds_grouped_after {α : Type} [DecidableEq α] (coll : Collation α)
    (row : String → α) (param : String → Option α) {order : Order} (hne : order.items ≠ [])
    (walk : Direction) (inclusive : Bool) :
    groupHolds coll row param order.expressions (grouped (after order walk inclusive)) =
      Predicate.holds coll row param (after order walk inclusive) := by
  have hread := readGroup?_grouped_after hne walk inclusive (s := []) rfl
  rw [List.append_nil] at hread
  rw [groupHolds, hread]
  rfl

/-- The order that a query with a cursor is given. -/
def emitted (order : Order) : Option Cursor → Order
  | none => order
  | some c => if c.direction = .prev then order.reversed else order

namespace Table

variable {ρ α : Type} [DecidableEq α] (t : Table ρ α)

/-- A row satisfies the condition that a cursor adds to a query. -/
def admits (d : Dialect) (order : Order) (binds : Binds) : Option Cursor → ρ → Bool
  | none, _ => true
  | some c, r =>
    match Keyset.ofCursor d order c with
    | .ok k =>
      Keyset.groupHolds t.collation (t.value r) (binds.param t.denote) order.expressions
        (Keyset.grouped k.predicate)
    | .error _ => false

/-- The rows that satisfy the condition of a query, sorted and cut. -/
def answer (d : Dialect) (order : Order) (q : Query) (cursor : Option Cursor) : List ρ :=
  ((t.sorted (emitted order cursor) (t.rows.filter (t.admits d order q.binds cursor))).drop
    q.window.offset.toInt.toNat).take q.window.limit.toInt.toNat

/-- A database answers the queries of a statement from a table. -/
structure Serves (db : Database ρ) (d : Dialect) (b : Base) : Prop where
  execute : ∀ pager cursor q, Query.compile d b.sql b.order b.params pager cursor = .ok q →
    db.execute d q.sql q.binds = .ok (t.answer d b.order q cursor)
  count : ∀ q, Query.count d b.sql b.params = .ok q →
    db.count d q.sql q.binds = .ok (Integer.ofLength t.rows.length)

/-- The bind of a plain value: a number, a truth value or a text. -/
def plainBind? : Value → Option BindValue
  | .int n => some (.int n)
  | .bool b => some (.bool b)
  | .string s => some (.str s)
  | _ => none

/-- A plain value is bound alike in every dialect, and not to null. -/
theorem plainBind?_eq_some {v : Value} {b : BindValue} (h : plainBind? v = some b) (d : Dialect) :
    v.resolveScalar = .ok v ∧ normalizeScalar d v = .ok b ∧ b ≠ .null := by
  cases v <;> simp only [plainBind?, Option.some.injEq, reduceCtorEq] at h <;> subst h <;>
    exact ⟨rfl, rfl, by simp⟩

/-- The rows have different keys, which are plain values of their columns, and no
more rows than a 64-bit integer counts. -/
structure Stored (db : Database ρ) (order : Order) : Prop where
  keyed : t.Keyed order t.rows
  length_le : (t.rows.length : Int) ≤ Integer.greatest
  plain : ∀ r ∈ t.rows, ∀ e ∈ order.expressions, ∃ v b, (db.column r).lookup e = some v ∧
    plainBind? v = some b ∧ t.value r e = t.denote b

/-! ## Skipping -/

/-- Without a cursor the answer is a stretch of the sorted table. -/
theorem answer_none (d : Dialect) (order : Order) (q : Query) :
    t.answer d order q none =
      ((t.sorted order t.rows).drop q.window.offset.toInt.toNat).take
        q.window.limit.toInt.toNat := by
  have hall : t.rows.filter (t.admits d order q.binds none) = t.rows :=
    List.filter_eq_self.mpr fun _ _ => rfl
  rw [answer, emitted, hall]

/-! ## Boundaries -/

omit [DecidableEq α] in
/-- A stored row has a boundary value for every expression. -/
theorem boundaries_of_stored {t : Table ρ α} {db : Database ρ} {order : Order}
    (h : t.Stored db order) {r : ρ} (hr : r ∈ t.rows) (d : Dialect) :
    ∃ (pairs : Fields Value) (bounds : List BindValue),
      Cursor.boundaries (db.column r) order.expressions = .ok pairs ∧ pairs.keys = order.expressions ∧
      pairs.map (fun v => normalizeScalar d v.2) = bounds.map .ok ∧
      BindValue.null ∉ bounds ∧ bounds.map t.denote = t.key order r := by
  have hplain := h.plain r hr
  unfold key
  -- the order does not matter, but for its expressions
  generalize order.expressions = expressions at *
  induction expressions with
  | nil => exact ⟨[], [], rfl, rfl, rfl, by simp, rfl⟩
  | cons e es ih =>
    obtain ⟨v, b, hv, hb, hvalue⟩ := hplain e List.mem_cons_self
    obtain ⟨hscalar, hbind, hnull⟩ := plainBind?_eq_some hb d
    obtain ⟨pairs, bounds, hpairs, hkeys, hbounds, hnulls, hdenote⟩ :=
      ih fun e he => hplain e (List.mem_cons_of_mem _ he)
    -- a value that is stored is a scalar, which is all that a boundary asks for
    have hboundary : Cursor.boundary (db.column r) e = .ok v :=
      Cursor.boundary_eq_ok_iff.mpr ⟨v, hv, hscalar⟩
    refine ⟨(e, v) :: pairs, b :: bounds, ?_, ?_, ?_, ?_, ?_⟩
    · rw [Cursor.boundaries] at hpairs ⊢
      rw [List.mapM_cons, hboundary, hpairs]
      rfl
    · rw [← hkeys]
      rfl
    · rw [List.map_cons, List.map_cons, hbounds, hbind]
    · simp only [List.mem_cons, not_or]
      exact ⟨Ne.symm hnull, hnulls⟩
    · rw [List.map_cons, List.map_cons, hdenote, hvalue]

/-- The condition of a cursor that has the values of a stored row admits the rows that
follow that row on the walk, and those with its key if it belongs to the page. -/
theorem admits_iff_follows {t : Table ρ α} {db : Database ρ} {d : Dialect} {b : Base} {pager : Pager}
    {c : Cursor} {q : Query} {r : ρ} {pairs : Fields Value} (ht : t.Stored db b.order)
    (hne : b.order.items ≠ []) (hr : r ∈ t.rows)
    (hpairs : Cursor.boundaries (db.column r) b.order.expressions = .ok pairs)
    (hvalues : c.values = Fields.ofPairs pairs)
    (hq : Query.compile d b.sql b.order b.params pager (some c) = .ok q) (s : ρ) :
    t.admits d b.order q.binds (some c) s = true ↔
      t.collation.follows c.direction b.order.items (t.key b.order r) (t.key b.order s) = true ∨
        (c.inclusive = true ∧ t.key b.order s = t.key b.order r) := by
  obtain ⟨pairs', bounds, hpairs', hkeys, hbounds, hnull, hdenote⟩ := boundaries_of_stored ht hr d
  obtain rfl : pairs = pairs' := Except.ok.inj (hpairs.symm.trans hpairs')
  obtain ⟨k, own, hk, -, hbinds, hown⟩ := Query.compile_seeking hq
  have hfits := Keyset.fits_of_ofCursor hk
  -- a cursor that fits has each expression once, so that its fields are the pairs
  have hfields : c.values = pairs := by
    rw [hvalues]
    apply Fields.ofPairs_eq_self
    rw [Cursor.fits, beq_iff_eq] at hfits
    rw [hkeys, ← hfits, hvalues]
    exact Fields.distinct_ofPairs pairs
  rw [← hfields] at hbounds
  have hcursor := Keyset.ofCursor_eq hfits hbounds hnull
  obtain rfl := Except.ok.inj (hk.symm.trans hcursor)
  have hlen : (bounds.map t.denote).length = b.order.items.length := by
    rw [hdenote, length_key]
  -- the binds of the cursor carry the key of the row that it was made from
  have hparam := Keyset.supplies_bindsFrom t.denote _ bounds hown
  rw [← hbinds] at hparam
  rw [admits, hcursor]
  dsimp only
  rw [Keyset.groupHolds_grouped_after _ _ _ hne,
    Keyset.holds_after t.collation _ _ _ hne hlen hparam, hdenote]
  rfl

/-- A cursor marks the row that its page starts with. -/
structure Marks (db : Database ρ) (order : Order) (c : Cursor) : Prop where
  ordered : order.items ≠ []
  direction : c.direction = .next
  inclusive : c.inclusive = true
  width : c.eachSideSnapshot = none
  boundary : ∃ r pairs, (t.sorted order t.rows)[c.pager.offset.toNat]? = some r ∧
    Cursor.boundaries (db.column r) order.expressions = .ok pairs ∧
    c.values = Fields.ofPairs pairs

/-- A query with a cursor that marks a row is answered with the rows from there on. -/
theorem answer_of_marks {t : Table ρ α} {db : Database ρ} {d : Dialect} {b : Base} {pager : Pager}
    {c : Cursor} {q : Query} (ht : t.Stored db b.order) (hm : t.Marks db b.order c)
    (hq : Query.compile d b.sql b.order b.params pager (some c) = .ok q) :
    t.answer d b.order q (some c) =
      ((t.sorted b.order t.rows).drop c.pager.offset.toNat).take q.window.limit.toInt.toNat := by
  obtain ⟨r, pairs, hr, hpairs, hvalues⟩ := hm.boundary
  have hmem : r ∈ t.rows := (t.perm_sorted b.order t.rows).mem_iff.mp (List.mem_of_getElem? hr)
  obtain ⟨k, own, -, hw, -, -⟩ := Query.compile_seeking hq
  obtain ⟨limit, hwindow, -⟩ := Window.keysetMode_eq_ok_iff.mp hw
  -- nothing is skipped: the condition leaves out what comes before the row
  have hoffset : q.window.offset = 0 := by rw [hwindow]
  -- the walk includes the row itself, so it admits all but the rows in front
  have hadmits : ∀ s, t.admits d b.order q.binds (some c) s = !t.comesBefore b.order s r := by
    intro s
    rw [Bool.eq_iff_iff, admits_iff_follows ht hm.ordered hmem hpairs hvalues hq, hm.direction,
      hm.inclusive, Bool.not_eq_true', t.comesBefore_eq_false_iff]
    exact or_congr Iff.rfl ⟨fun h => h.2.symm, fun h => ⟨rfl, h.symm⟩⟩
  have hemitted : emitted b.order (some c) = b.order := by
    rw [emitted, hm.direction, if_neg (by decide)]
  have hzero : (0 : Int64).toInt.toNat = 0 := by decide
  rw [answer, hemitted, funext hadmits, t.sorted_filter_from ht.keyed hr, hoffset, hzero,
    List.drop_zero]

/-- The cursor that is made of the row which a page starts with marks that row. -/
theorem marks_of_create {db : Database ρ} {order : Order} {pager : Pager} {r : ρ}
    {now : Calendar.DateTime} {c : Cursor}
    (hr : (t.sorted order t.rows)[pager.offset.toNat]? = some r)
    (hc : Cursor.create order pager (db.column r) none now = .ok c) :
    t.Marks db order c ∧ c.pager = pager := by
  obtain ⟨hne, pairs, hpairs, rfl⟩ := Cursor.create_eq_ok_iff.mp hc
  refine ⟨⟨?_, rfl, rfl, rfl, r, pairs, hr, hpairs, rfl⟩, rfl⟩
  simpa [Order.isEmpty] using hne

end Table

end SqlPaging
