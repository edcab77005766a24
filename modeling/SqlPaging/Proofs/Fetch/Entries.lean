import SqlPaging.Proofs.Fetch.History

/-!
# SqlPaging — what a fetch writes

A fetch can fail at every step, and it may save a cursor between two of them. What it leaves in the
store does not depend on where it ends: it writes one entry, under its own name, if it comes by the
first row of the following page and that row has a scalar for every expression of the order. All
other entries, and the store of every other fetch, stay as they are.

Main results:

* `saving?_eq_some_iff_nextRow` — when a fetch saves a cursor, and which one.
* `opens_of_create` — what the cursor of the first row of the following page has.
* `fetch_entries` — the entries of the store after a fetch.
-/

namespace SqlPaging

open Sql (firsts)

namespace Fetch

variable {ρ : Type} {db : Database ρ} {d : Dialect} {r : Request} {store : Store} {clock : Clock}

/-- A fetch comes by the first row of the following page: the query compiles with the cursor that
the fetch starts at, the database answers it with more rows than the page has, and the rows come
in the order that was asked for, if any was. -/
def NextRow (db : Database ρ) (d : Dialect) (r : Request) (store : Store) (clock : Clock)
    (row : ρ) : Prop :=
  ∃ q rows, Query.compile d r.sql r.order r.params r.pager (cursor? r store clock) = .ok q ∧
    db.execute d q.sql q.binds = .ok rows ∧ r.order.isEmpty = false ∧
    q.window.reversed = false ∧ rows[r.pager.size.toInt.toNat]? = some row

/-- The cursor of the first row of the following page, as a fetch makes it. -/
def nextCursor (db : Database ρ) (r : Request) (clock : Clock) (row : ρ) :
    Except CursorFault Cursor :=
  Cursor.create r.order (r.pager.next 1) (db.column row) none clock.atSave

/-- A cursor opens the page after that of a request with a row: it has the scalars of the row in
the order of the expressions, the pager of that page, and goes on from the row, which belongs to
the page. -/
structure Opens (c : Cursor) (r : Request) (row : Row) : Prop where
  keys : c.values.keys = firsts r.order.expressions
  values : ∀ e ∈ r.order.expressions, ∃ raw v, row.lookup e = some raw ∧
    raw.resolveScalar = .ok v ∧ c.values.get? e = some v
  pager : c.pager = r.pager.next 1
  direction : c.direction = .next
  inclusive : c.inclusive = true
  width : c.eachSideSnapshot = none

/-- The next cursor that is made opens the following page at its row. -/
theorem opens_of_create {row : ρ} {c : Cursor} (h : nextCursor db r clock row = .ok c) :
    Opens c r (db.column row) := by
  obtain ⟨-, pairs, -, hc⟩ := Cursor.create_eq_ok_iff.mp h
  refine ⟨Cursor.keys_of_create h, fun e he => ?_, ?_, ?_, ?_, ?_⟩
  · obtain ⟨v, hv, hget⟩ := Cursor.boundary_of_create h he
    obtain ⟨raw, hraw, hscalar⟩ := Cursor.boundary_eq_ok_iff.mp hv
    exact ⟨raw, v, hraw, hscalar, hget⟩
  · rw [hc]
  · rw [hc]
  · rw [hc]
  · rw [hc]
    rfl

/-- What a fetch saves is the cursor of the first row of the following page. -/
theorem saving?_eq_some_iff_nextRow {name : String} {c : Cursor} :
    saving? db d r store clock = some (name, c) ↔
      r.pager.cursorName = some name ∧
        ∃ row, NextRow db d r store clock row ∧ nextCursor db r clock row = .ok c := by
  rw [saving?_eq_some]
  refine and_congr_right fun _ => ?_
  constructor
  · rintro ⟨v, hv, hnext⟩
    obtain ⟨hq, hrows, hkept⟩ := visit_eq_ok_iff.mp hv
    rw [hnext] at hkept
    obtain ⟨row, hrow, hcreate⟩ := kept_eq_some_iff.mp hkept
    obtain ⟨hforward, hsorted, hplace⟩ := boundary?_eq_some_iff.mp hrow
    -- the place of the boundary row is counted by the size of the request
    rw [Query.size_of_compile hq] at hplace
    exact ⟨row, ⟨v.query, v.rows, hq, hrows, hsorted, hforward, hplace⟩, hcreate⟩
  · rintro ⟨row, ⟨q, rows, hq, hrows, hsorted, hforward, hplace⟩, hcreate⟩
    rw [← Query.size_of_compile hq] at hplace
    have hkept : kept db r q.window rows clock.atSave = .ok (some c) :=
      kept_eq_some_iff.mpr ⟨row, boundary?_eq_some_iff.mpr ⟨hforward, hsorted, hplace⟩, hcreate⟩
    exact ⟨⟨q, rows, some c⟩, visit_eq_ok_iff.mpr ⟨hq, hrows, hkept⟩, rfl⟩

end Fetch

open Fetch

/-- Whatever the store holds and the database answers, a fetch writes the entry under its own
cursor name and no other. It writes it just if it comes by the first row of the following page and
that row gives a cursor, which the entry then is. Otherwise, and wherever the fetch fails before,
the store stays as it was; a failure that comes later changes nothing. -/
theorem fetch_entries {ρ : Type} (db : Database ρ) (d : Dialect) (r : Request) (store : Store)
    (clock : Clock) :
    let after := (fetch db d r store clock).store
    (∀ other, r.pager.cursorName ≠ some other →
      after.entries.get? other = store.entries.get? other) ∧
    (r.pager.cursorName = none → after = store) ∧
    (∀ name row c, r.pager.cursorName = some name → NextRow db d r store clock row →
      nextCursor db r clock row = .ok c →
        after = store.save name c ∧ after.entries.get? name = some c ∧
          Opens c r (db.column row)) ∧
    ((¬ ∃ row c, NextRow db d r store clock row ∧ nextCursor db r clock row = .ok c) →
      after = store) := by
  intro after
  have hafter : after = _ := fetch_store db d r store clock
  refine ⟨fun other hother => ?_, fetch_store_of_unnamed db d r store clock, ?_, fun hnone => ?_⟩
  · rw [hafter]
    cases hsaving : saving? db d r store clock with
    | none => rfl
    | some saved =>
      -- what is saved has the name of the request, which is another one
      obtain ⟨name, c⟩ := saved
      obtain ⟨hname, -⟩ := saving?_eq_some_iff_nextRow.mp hsaving
      have hne : other ≠ name := fun heq => hother (heq ▸ hname)
      exact Fields.get?_set_of_ne _ _ hne
  · intro name row c hname hrow hcreate
    -- the row and its cursor are what is saved, as there is only one of each
    have hsaving := saving?_eq_some_iff_nextRow.mpr ⟨hname, row, hrow, hcreate⟩
    rw [hsaving, Option.elim_some] at hafter
    refine ⟨hafter, ?_, opens_of_create hcreate⟩
    rw [hafter]
    exact Fields.get?_set_self _ _ _
  · rw [hafter]
    cases hsaving : saving? db d r store clock with
    | none => rfl
    | some saved =>
      obtain ⟨name, c⟩ := saved
      obtain ⟨-, row, hrow, hcreate⟩ := saving?_eq_some_iff_nextRow.mp hsaving
      exact absurd ⟨row, c, hrow, hcreate⟩ hnone

/-- A database that refuses every query. -/
def deadDatabase : Database (Int64 × Int64) where
  execute _ _ _ := .error (.driver "gone")
  count _ _ _ := .error (.driver "gone")
  column := peopleColumn

/-- The first of the people comes with the cursor of the second one, under the name of the request
and under no other. A database that refuses the query leaves the store as it was. -/
theorem fetch_entries_of_people :
    (∃ row c, firstPerson.pager.cursorName = some "people" ∧
      NextRow peopleDatabase .sqlite firstPerson (.empty 60000) atOnce row ∧
      nextCursor peopleDatabase firstPerson atOnce row = .ok c ∧
      firstPersonStore = (Store.empty 60000).save "people" c ∧
      firstPersonStore.entries.get? "people" = some c ∧
      Opens c firstPerson (peopleDatabase.column row)) ∧
    (firstPerson.pager.cursorName ≠ some "posts" ∧
      firstPersonStore.entries.get? "posts" = (Store.empty 60000).entries.get? "posts") ∧
    (¬ ∃ row c, NextRow deadDatabase .sqlite firstPerson firstPersonStore atOnce row ∧
      nextCursor deadDatabase firstPerson atOnce row = .ok c) ∧
    (fetch deadDatabase .sqlite firstPerson firstPersonStore atOnce).store = firstPersonStore := by
  -- a database that answers nothing has no row behind the page
  have hdead : ¬ ∃ row c, NextRow deadDatabase .sqlite firstPerson firstPersonStore atOnce row ∧
      nextCursor deadDatabase firstPerson atOnce row = .ok c := by
    rintro ⟨row, c, ⟨q, rows, -, hrows, -⟩, -⟩
    cases hrows
  obtain ⟨⟨name, c⟩, hsaving⟩ : ∃ x,
      saving? peopleDatabase .sqlite firstPerson (.empty 60000) atOnce = some x :=
    Option.isSome_iff_exists.mp (by decide +kernel)
  -- the first page has a row behind it, which makes a cursor
  obtain ⟨hname, row, hrow, hcreate⟩ := saving?_eq_some_iff_nextRow.mp hsaving
  obtain rfl : "people" = name := Option.some.inj hname
  obtain ⟨hother, -, hwritten, -⟩ :=
    fetch_entries peopleDatabase .sqlite firstPerson (.empty 60000) atOnce
  obtain ⟨hstore, hentry, hopens⟩ := hwritten "people" row c rfl hrow hcreate
  have hposts : firstPerson.pager.cursorName ≠ some "posts" := by decide
  exact ⟨⟨row, c, rfl, hrow, hcreate, hstore, hentry, hopens⟩, ⟨hposts, hother "posts" hposts⟩,
    hdead, (fetch_entries deadDatabase .sqlite firstPerson firstPersonStore atOnce).2.2.2 hdead⟩

end SqlPaging
