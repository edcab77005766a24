import Mathlib.Data.List.Nodup
import Mathlib.Data.List.TakeWhile
import SqlPaging.Proofs.Keyset.Boundary

/-!
# SqlPaging — the columns of a cursor

A row is asked for an expression by its whole text, and then by what follows its last point. So a
column `id` gives a value to `id`, to `a.id` and to `b.id` alike, and two expressions of an order
can take their values from one column. They do just if both end in its name and the row has
neither of them as another column. Then it has no column for each of them, and gives a cursor
nevertheless.

Whatever the row, this does not happen just if no two expressions of the order end in the same
name.

Main results:

* `Row.lookup_eq_source` — the column that a value is taken from.
* `Row.apart_iff_separates` — when each expression has a column of its own.
* `Cursor.captures_of_create`, `Cursor.refusal_of_create` — what a cursor takes from a row, and
  why a row is refused.
* `create_from_columns` — which orders keep their expressions apart.
* `column_shared`, `sum_read_as_column` — orders that do not.
-/

namespace SqlPaging

/-! ## Names -/

/-- The name that an expression ends in: what follows its last point, if it has one. -/
def bareName (e : String) : String := (unqualified? e).getD e

/-- Behind its last point an expression has its bare name. -/
theorem bareName_of_unqualified {e name : String} (h : unqualified? e = some name) :
    bareName e = name := by
  rw [bareName, h, Option.getD_some]

/-- An expression without a point is its own bare name. -/
theorem bareName_eq_self {e : String} (h : unqualified? e = none) : bareName e = e := by
  rw [bareName, h, Option.getD_none]

/-- The name that an expression ends in has no point. -/
theorem unqualified?_bareName (e : String) : unqualified? (bareName e) = none := by
  cases h : unqualified? e with
  | none => rw [bareName_eq_self h, h]
  | some name =>
    rw [bareName_of_unqualified h]
    unfold unqualified? at h
    dsimp only at h
    split at h
    · obtain rfl := Option.some.inj h
      unfold unqualified?
      dsimp only
      -- what stands behind the last point has no point, so it is all of itself
      rw [String.toList_ofList, List.reverse_reverse, List.takeWhile_idem, if_neg (by simp)]
    · cases h

@[simp] theorem bareName_bareName (e : String) : bareName (bareName e) = bareName e :=
  bareName_eq_self (unqualified?_bareName e)

/-! ## Columns -/

namespace Row

variable {row : Row} {e e' column : String} {es : List String}

/-- The row has a column for an expression: one with its whole text, or with the name that it
ends in. -/
structure Supplies (row : Row) (e column : String) : Prop where
  named : column = e ∨ column = bareName e
  present : (row column).isSome = true

/-- The row has a column for each expression, which is the column of no other. -/
def Separates (row : Row) (es : List String) : Prop :=
  ∃ column : String → String, (∀ e ∈ es, row.Supplies e (column e)) ∧
    ∀ e ∈ es, ∀ e' ∈ es, column e = column e' → e = e'

/-- The column that an expression takes its value from. -/
def source? (row : Row) (e : String) : Option String :=
  [e, bareName e].find? fun column => (row column).isSome

/-- No two expressions take their values from one column. -/
def Apart (row : Row) (es : List String) : Prop :=
  ∀ e ∈ es, ∀ e' ∈ es, row.source? e = row.source? e' → e = e'

/-- A column of the expression's own name is the one that serves it. -/
theorem source?_of_column (h : (row e).isSome = true) : row.source? e = some e :=
  List.find?_cons_of_pos h

/-- Where there is none, a column of the bare name does. -/
theorem source?_of_bareName (h : row e = none) (hbare : (row (bareName e)).isSome = true) :
    row.source? e = some (bareName e) := by
  rw [source?, List.find?_cons_of_neg (by simp [h])]
  exact List.find?_cons_of_pos hbare

/-- The column that serves an expression is one that may. -/
theorem supplies_of_source (h : row.source? e = some column) : row.Supplies e column where
  named := by simpa using List.mem_of_find?_eq_some h
  present := by simpa using List.find?_eq_some_iff_append.mp h |>.1

/-- The value of an expression is that of its column. -/
theorem lookup_eq_source (row : Row) (e : String) : row.lookup e = (row.source? e).bind row := by
  cases hown : row e with
  | some v =>
    rw [lookup_of_column hown, source?_of_column (by rw [hown]; rfl), Option.bind_some, hown]
  | none =>
    rw [lookup, hown, Option.none_or]
    -- without a column of its own name, the bare name is looked up
    cases hname : unqualified? e with
    | none => simp [source?, bareName_eq_self hname, hown]
    | some name =>
      cases hcolumn : row name <;>
        simp [source?, bareName_of_unqualified hname, hown, hcolumn]

/-- What is looked up is the value of the column that serves the expression. -/
theorem lookup_eq_some_iff {v : Value} :
    row.lookup e = some v ↔ ∃ column, row.source? e = some column ∧ row column = some v := by
  rw [lookup_eq_source, Option.bind_eq_some_iff]

/-- Nothing is looked up just if no column serves the expression. -/
theorem lookup_eq_none_iff : row.lookup e = none ↔ row.source? e = none := by
  rw [lookup_eq_source, Option.bind_eq_none_iff]
  constructor
  · intro h
    cases hcolumn : row.source? e with
    | none => rfl
    | some column =>
      have hpresent := (supplies_of_source hcolumn).present
      rw [h column hcolumn] at hpresent
      cases hpresent
  · rintro h column hcolumn
    rw [h] at hcolumn
    cases hcolumn

/-- A column that may serve an expression has the same bare name. -/
theorem Supplies.bareName_eq (h : row.Supplies e column) : bareName column = bareName e := by
  rcases h.named with rfl | rfl
  · rfl
  · exact bareName_bareName e

/-- A column that two expressions take their values from is the name that both end in. -/
theorem bareName_of_shared (h : row.source? e = some column) (h' : row.source? e' = some column)
    (hne : e ≠ e') : column = bareName e ∧ column = bareName e' := by
  have hs := supplies_of_source h
  have hs' := supplies_of_source h'
  -- it cannot be the whole text of both
  have hbare : bareName column = column := by
    rcases hs.named with rfl | rfl
    · rw [hs'.named.resolve_left hne, bareName_bareName]
    · exact bareName_bareName e
  exact ⟨hbare.symm.trans hs.bareName_eq, hbare.symm.trans hs'.bareName_eq⟩

/-- An expression that takes its value from the name that it ends in has no other column. -/
theorem Supplies.eq_bareName (h : row.Supplies e column)
    (hbare : row.source? e = some (bareName e)) : column = bareName e := by
  rcases h.named with rfl | rfl
  · exact Option.some.inj ((source?_of_column h.present).symm.trans hbare)
  · rfl

/-- Where two expressions take their values from one column, the row has no column for each. -/
theorem not_separates_of_shared (he : e ∈ es) (he' : e' ∈ es) (hne : e ≠ e')
    (h : row.source? e = some column) (h' : row.source? e' = some column) :
    ¬ row.Separates es := by
  rintro ⟨own, hown, hinj⟩
  obtain ⟨hbare, hbare'⟩ := bareName_of_shared h h' hne
  -- both have the shared column only
  have heq : own e = column := hbare ▸ (hown e he).eq_bareName (hbare ▸ h)
  have heq' : own e' = column := hbare' ▸ (hown e' he').eq_bareName (hbare' ▸ h')
  exact hne (hinj e he e' he' (heq.trans heq'.symm))

/-- Where each expression has a column, each has one of its own just if no two take their values
from the same. -/
theorem apart_iff_separates (h : ∀ e ∈ es, ∃ column, row.source? e = some column) :
    row.Apart es ↔ row.Separates es := by
  constructor
  · intro hapart
    -- the columns that serve the expressions are the ones that separate them
    choose! column hcolumn using h
    refine ⟨column, fun e he => supplies_of_source (hcolumn e he), fun e he e' he' hsame => ?_⟩
    exact hapart e he e' he' (by rw [hcolumn e he, hcolumn e' he', hsame])
  · intro hseparates e he e' he' hsame
    by_contra hne
    obtain ⟨column, hcolumn⟩ := h e he
    exact not_separates_of_shared he he' hne hcolumn (hsame.symm.trans hcolumn) hseparates

/-- Expressions that end in different names take their values from different columns. -/
theorem apart_of_nodup (h : ∀ e ∈ es, ∃ column, row.source? e = some column)
    (hnodup : (es.map bareName).Nodup) : row.Apart es := by
  intro e he e' he' hsame
  obtain ⟨column, hcolumn⟩ := h e he
  have hs := supplies_of_source hcolumn
  have hs' := supplies_of_source (hsame ▸ hcolumn)
  exact List.inj_on_of_nodup_map hnodup he he' (hs.bareName_eq.symm.trans hs'.bareName_eq)

/-- The row that has the names that expressions end in, and nothing else. -/
def ofBareNames (es : List String) : Row := fun name =>
  if name ∈ es.map bareName then some (.int 0) else none

theorem ofBareNames_eq_some {v : Value} (h : ofBareNames es e = some v) : v = .int 0 := by
  rw [ofBareNames] at h
  split at h
  · exact (Option.some.inj h).symm
  · cases h

/-- In a row of bare names each expression is served by its own. -/
theorem source?_ofBareNames (he : e ∈ es) : (ofBareNames es).source? e = some (bareName e) := by
  have hbare : ((ofBareNames es) (bareName e)).isSome = true := by
    rw [ofBareNames, if_pos (List.mem_map_of_mem he)]
    rfl
  cases hown : ofBareNames es e with
  | none => exact source?_of_bareName hown hbare
  | some v =>
    -- a column of this row is a name that an expression ends in
    rw [ofBareNames] at hown
    split at hown
    · next hmem =>
      obtain ⟨e', -, rfl⟩ := List.mem_map.mp hmem
      rw [bareName_bareName] at hbare ⊢
      exact source?_of_column hbare
    · cases hown

end Row

/-! ## Cursors -/

/-- No two expressions of an order that was pushed are the same. -/
theorem Order.nodup_of_ofPairs {pairs : List (String × SortDirection)} {o : Order}
    (h : Order.ofPairs pairs = .ok o) : o.expressions.Nodup := by
  refine foldlM_induction (P := fun o => o.expressions.Nodup) h List.nodup_nil
    fun p _ o o' hnodup hpush => ?_
  obtain ⟨-, -, hnew, rfl⟩ := Order.push_eq_ok_iff.mp hpush
  rw [Order.expressions, List.map_append]
  exact hnodup.append (List.nodup_singleton _) (List.disjoint_singleton.mpr hnew)

namespace Cursor

variable {order : Order} {pager : Pager} {row : Row} {eachSide : Option Int64}
  {now : Calendar.DateTime} {c : Cursor}

/-- A cursor fits the order that it was made for, and has for each expression the scalar of one
column of the row. -/
structure Captures (c : Cursor) (order : Order) (row : Row) : Prop where
  fits : c.fits order = true
  values : ∀ e ∈ order.expressions, ∃ column raw v, row.source? e = some column ∧
    row column = some raw ∧ raw.resolveScalar = .ok v ∧ c.values.get? e = some v

/-- Why a row gives no cursor: nothing is sorted by, or it has no column for an expression, or one
with a value that is no scalar. -/
inductive Refusal (order : Order) (row : Row) : CursorFault → Prop where
  | emptyOrder : order.isEmpty = true → Refusal order row .emptyOrder
  | missingColumn {e : String} : e ∈ order.expressions → row.source? e = none →
      Refusal order row (.missingColumn e)
  | notScalar {e column : String} {raw : Value} {why : Value.Unresolved} :
      e ∈ order.expressions → row.source? e = some column → row column = some raw →
      raw.resolveScalar = .error why → Refusal order row (.notScalar e why)

/-- A cursor that is made has captured the row. -/
theorem captures_of_create (hnodup : order.expressions.Nodup)
    (h : create order pager row eachSide now = .ok c) : c.Captures order row := by
  refine ⟨?_, fun e he => ?_⟩
  · -- different expressions all stay in their places
    obtain ⟨-, pairs, hpairs, rfl⟩ := create_eq_ok_iff.mp h
    have hkeys := (boundaries_eq_ok hpairs).1
    rw [fits, Fields.ofPairs_eq_self (hkeys ▸ hnodup), hkeys, beq_self_eq_true]
  · obtain ⟨v, hv, hget⟩ := boundary_of_create h he
    obtain ⟨raw, hraw, hscalar⟩ := boundary_eq_ok_iff.mp hv
    obtain ⟨column, hcolumn, hvalue⟩ := Row.lookup_eq_some_iff.mp hraw
    exact ⟨column, raw, v, hcolumn, hvalue, hscalar, hget⟩

/-- A cursor that is refused says which expression has no value, or none that is a
scalar. -/
theorem refusal_of_create {fault : CursorFault}
    (h : create order pager row eachSide now = .error fault) : Refusal order row fault := by
  unfold create at h
  split at h
  · next hempty =>
    cases h
    exact .emptyOrder hempty
  · rcases bind_eq_error.mp h with hpairs | ⟨pairs, -, h⟩
    · -- the first expression without a boundary is the one that is complained about
      obtain ⟨e, he, hvalue⟩ := exists_of_mapM_eq_error hpairs
      have hfault := map_eq_error.mp hvalue
      unfold boundary at hfault
      split at hfault
      · next hmissing =>
        cases hfault
        exact .missingColumn he (Row.lookup_eq_none_iff.mp hmissing)
      · next raw hraw =>
        -- there is a value, but it resolves to no scalar
        obtain ⟨why, hwhy, rfl⟩ := mapError_eq_error.mp hfault
        obtain ⟨column, hcolumn, hvalue⟩ := Row.lookup_eq_some_iff.mp hraw
        exact .notScalar he hcolumn hvalue hwhy
    · cases h

/-- The row of the names that its expressions end in gives an order a cursor. -/
theorem exists_create_ofBareNames (pager : Pager) (eachSide : Option Int64)
    (now : Calendar.DateTime) {e : String} (he : e ∈ order.expressions) :
    ∃ c, create order pager (.ofBareNames order.expressions) eachSide now = .ok c := by
  cases h : create order pager (.ofBareNames order.expressions) eachSide now with
  | ok c => exact ⟨c, rfl⟩
  | error fault =>
    -- none of the three reasons for a refusal can hold of such a row
    cases refusal_of_create h with
    | emptyOrder hempty =>
      rw [Order.expressions, List.isEmpty_iff.mp hempty] at he
      cases he
    | missingColumn he hnone =>
      rw [Row.source?_ofBareNames he] at hnone
      cases hnone
    | notScalar he hcolumn hraw hwhy =>
      rw [Row.ofBareNames_eq_some hraw] at hwhy
      cases hwhy

/-- Every expression of a captured row is served by a column. -/
theorem Captures.exists_source (h : c.Captures order row) :
    ∀ e ∈ order.expressions, ∃ column, row.source? e = some column := by
  intro e he
  obtain ⟨column, -, -, hcolumn, -⟩ := h.values e he
  exact ⟨column, hcolumn⟩

/-- Of a column that two expressions take their values from, a cursor has the scalar for both. -/
theorem Captures.get?_eq_of_shared {e e' column : String} (h : c.Captures order row)
    (he : e ∈ order.expressions) (he' : e' ∈ order.expressions)
    (hs : row.source? e = some column) (hs' : row.source? e' = some column) :
    c.values.get? e = c.values.get? e' := by
  obtain ⟨_, raw, v, hcolumn, hraw, hscalar, hget⟩ := h.values e he
  obtain ⟨_, raw', v', hcolumn', hraw', hscalar', hget'⟩ := h.values e' he'
  -- both values are resolved from that of the one column
  cases hs.symm.trans hcolumn
  cases hs'.symm.trans hcolumn'
  cases hraw.symm.trans hraw'
  cases hscalar.symm.trans hscalar'
  rw [hget, hget']

end Cursor

/-! ## Orders -/

open Cursor

/-- Whatever the row, a cursor for the order takes no two values from one column, and a row
without a column for each expression is refused. -/
def Order.KeepsApart (order : Order) : Prop :=
  ∀ (pager : Pager) (row : Row) (eachSide : Option Int64) (now : Calendar.DateTime),
    (∀ c, create order pager row eachSide now = .ok c → row.Apart order.expressions) ∧
    (¬ row.Separates order.expressions →
      ∃ fault, create order pager row eachSide now = .error fault ∧ Refusal order row fault)

/-- Columns are kept apart in every row just if the bare names of the order are distinct. -/
theorem Order.keepsApart_iff {order : Order} (hnodup : order.expressions.Nodup) :
    order.KeepsApart ↔ (order.expressions.map bareName).Nodup := by
  constructor
  · intro hkeeps
    -- two expressions that end in the same name share a column of the row of such names
    refine hnodup.map_on fun e he e' he' hname => ?_
    obtain ⟨c, h⟩ := exists_create_ofBareNames default none default he
    refine (hkeeps default (.ofBareNames order.expressions) none default).1 c h e he e' he' ?_
    rw [Row.source?_ofBareNames he, Row.source?_ofBareNames he', hname]
  · intro hnames pager row eachSide now
    -- distinct names have distinct columns, which keeps every row apart
    have hapart : ∀ c, create order pager row eachSide now = .ok c → row.Apart order.expressions :=
      fun c h => Row.apart_of_nodup (captures_of_create hnodup h).exists_source hnames
    refine ⟨hapart, fun hseparates => ?_⟩
    cases h : create order pager row eachSide now with
    | error fault => exact ⟨fault, rfl, refusal_of_create h⟩
    | ok c =>
      have hsources := (captures_of_create hnodup h).exists_source
      exact absurd ((Row.apart_iff_separates hsources).mp (hapart c h)) hseparates

/-- A cursor for an order that was pushed fits it, and has the scalar of a column for each
expression; no two of these columns are the same just if the row has a column for each expression.
Every row that gives a cursor has one, and every other row is refused, just if no two expressions
of the order end in the same name. -/
theorem create_from_columns {pairs : List (String × SortDirection)} {order : Order}
    (horder : Order.ofPairs pairs = .ok order) :
    (∀ pager row eachSide now c, create order pager row eachSide now = .ok c →
      c.Captures order row ∧
        (row.Apart order.expressions ↔ row.Separates order.expressions)) ∧
    (order.KeepsApart ↔ (order.expressions.map bareName).Nodup) := by
  have hnodup := Order.nodup_of_ofPairs horder
  refine ⟨fun pager row eachSide now c h => ?_, Order.keepsApart_iff hnodup⟩
  have hcaptures := captures_of_create hnodup h
  exact ⟨hcaptures, Row.apart_iff_separates hcaptures.exists_source⟩

/-- Expressions of two tables that end in different names. A row with both names gives a cursor,
and a row with one of them does not. -/
theorem create_from_columns_of_join :
    ∃ order c fault, Order.ofPairs [("u.name", .ascending), (" p.id ", .descending)] = .ok order ∧
      order.expressions = ["u.name", "p.id"] ∧ order.KeepsApart ∧
      create order (.ofPage 2 10) (Fields.get? [("id", .int 7), ("name", .string "x")]) none
        default = .ok c ∧
      c.Captures order (Fields.get? [("id", .int 7), ("name", .string "x")]) ∧
      create order (.ofPage 2 10) (Fields.get? [("id", .int 7)]) none default = .error fault := by
  obtain ⟨order, horder, rfl⟩ : ∃ order, Order.ofPairs
        [("u.name", .ascending), (" p.id ", .descending)] = .ok order ∧
      order = ⟨[⟨"u.name", .ascending⟩, ⟨"p.id", .descending⟩]⟩ :=
    exists_eq_ok_of_any (by decide +kernel)
  obtain ⟨hcaptures, hkeeps⟩ := create_from_columns horder
  -- the bare names `name` and `id` are distinct
  have hapart := hkeeps.mpr (by decide +kernel)
  obtain ⟨c, hc, -⟩ : ∃ c, create ⟨[⟨"u.name", .ascending⟩, ⟨"p.id", .descending⟩]⟩ (.ofPage 2 10)
        (Fields.get? [("id", .int 7), ("name", .string "x")]) none default = .ok c ∧ True :=
    exists_eq_ok_of_any (by decide +kernel)
  -- the second row has no column for `u.name`, under neither of its names
  obtain ⟨fault, hfault, -⟩ := (hapart (.ofPage 2 10) (Fields.get? [("id", .int 7)]) none
      default).2 <| by
    rintro ⟨own, hown, -⟩
    obtain ⟨hnamed, hpresent⟩ := hown "u.name" List.mem_cons_self
    rcases hnamed with h | h
    · rw [h] at hpresent
      exact absurd hpresent (by decide +kernel)
    · rw [h] at hpresent
      exact absurd hpresent (by decide +kernel)
  exact ⟨_, c, fault, horder, rfl, hapart, hc, (hcaptures _ _ _ _ c hc).1, hfault⟩

/-- Expressions of two tables that end in the same name take their values from the one column of
a row, which has no column for each of them. -/
theorem column_shared :
    ∃ order c, Order.ofPairs [("u.id", .ascending), ("p.id", .ascending)] = .ok order ∧
      create order (.ofPage 2 10) (Fields.get? [("id", .int 7)]) none default = .ok c ∧
      Row.source? (Fields.get? [("id", .int 7)]) "u.id" = some "id" ∧
      Row.source? (Fields.get? [("id", .int 7)]) "p.id" = some "id" ∧
      c.values.get? "u.id" = c.values.get? "p.id" ∧
      ¬ Row.Separates (Fields.get? [("id", .int 7)]) order.expressions := by
  obtain ⟨order, horder, rfl⟩ : ∃ order, Order.ofPairs
        [("u.id", .ascending), ("p.id", .ascending)] = .ok order ∧
      order = ⟨[⟨"u.id", .ascending⟩, ⟨"p.id", .ascending⟩]⟩ :=
    exists_eq_ok_of_any (by decide +kernel)
  obtain ⟨c, hc, -⟩ : ∃ c, create ⟨[⟨"u.id", .ascending⟩, ⟨"p.id", .ascending⟩]⟩
        (.ofPage 2 10) (Fields.get? [("id", .int 7)]) none default = .ok c ∧ True :=
    exists_eq_ok_of_any (by decide +kernel)
  -- both expressions are served by the one column
  have hcaptures := captures_of_create (Order.nodup_of_ofPairs horder) hc
  have hs : Row.source? (Fields.get? [("id", .int 7)]) "u.id" = some "id" := by decide +kernel
  have hs' : Row.source? (Fields.get? [("id", .int 7)]) "p.id" = some "id" := by
    decide +kernel
  have he : "u.id" ∈ ["u.id", "p.id"] := List.mem_cons_self
  have he' : "p.id" ∈ ["u.id", "p.id"] := List.mem_cons_of_mem _ List.mem_cons_self
  exact ⟨_, c, horder, hc, hs, hs', hcaptures.get?_eq_of_shared he he' hs hs',
    Row.not_separates_of_shared he he' (by decide) hs hs'⟩

/-- A sum is no name of a table and a column, and yet takes its value from the column that its text
ends in, which is that of another expression. -/
theorem sum_read_as_column :
    ∃ order c, Order.ofPairs [("id", .ascending), ("a.x + b.id", .ascending)] = .ok order ∧
      create order (.ofPage 2 10) (Fields.get? [("id", .int 7)]) none default = .ok c ∧
      Row.source? (Fields.get? [("id", .int 7)]) "id" = some "id" ∧
      Row.source? (Fields.get? [("id", .int 7)]) "a.x + b.id" = some "id" ∧
      c.values.get? "id" = c.values.get? "a.x + b.id" ∧
      ¬ Row.Separates (Fields.get? [("id", .int 7)]) order.expressions := by
  obtain ⟨order, horder, rfl⟩ : ∃ order, Order.ofPairs
        [("id", .ascending), ("a.x + b.id", .ascending)] = .ok order ∧
      order = ⟨[⟨"id", .ascending⟩, ⟨"a.x + b.id", .ascending⟩]⟩ :=
    exists_eq_ok_of_any (by decide +kernel)
  obtain ⟨c, hc, -⟩ : ∃ c, create ⟨[⟨"id", .ascending⟩, ⟨"a.x + b.id", .ascending⟩]⟩
        (.ofPage 2 10) (Fields.get? [("id", .int 7)]) none default = .ok c ∧ True :=
    exists_eq_ok_of_any (by decide +kernel)
  have hcaptures := captures_of_create (Order.nodup_of_ofPairs horder) hc
  -- behind its last point the sum has the name of the column
  have hs : Row.source? (Fields.get? [("id", .int 7)]) "id" = some "id" := by decide +kernel
  have hs' : Row.source? (Fields.get? [("id", .int 7)]) "a.x + b.id" = some "id" := by
    decide +kernel
  have he : "id" ∈ ["id", "a.x + b.id"] := List.mem_cons_self
  have he' : "a.x + b.id" ∈ ["id", "a.x + b.id"] := List.mem_cons_of_mem _ List.mem_cons_self
  exact ⟨_, c, horder, hc, hs, hs', hcaptures.get?_eq_of_shared he he' hs hs',
    Row.not_separates_of_shared he he' (by decide) hs hs'⟩

end SqlPaging
