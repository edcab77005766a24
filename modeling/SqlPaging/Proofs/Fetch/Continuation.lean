import SqlPaging.Proofs.Fetch.History

/-!
# SqlPaging — the page after a page

A fetch that has shown a page may save a cursor, and a request for the following page
finds it. A query with that cursor is harder to compile than one that skips rows: it
adds names that must be free, compares with the values of the boundary row, and needs a
place for its condition. Nothing else stands between a page that can be reached by
skipping and the same page from its cursor.

Main results:

* `compile_seeking_isOk_iff` — what a cursor asks of a statement that can be paged.
* `cursor?_of_saved` — the following page starts at the cursor that was saved for it.
* `next_page_compiles_iff` — when the following page compiles.
-/

namespace SqlPaging

open Sql (Draft Statement)

/-! ## The place of a condition -/

namespace Sql.Statement

/-- There is a place for a condition: the statement's own one is not empty, or what
would come after a `WHERE` does not come first. -/
def TakesCondition (s : Statement) : Prop :=
  match (s.marker? .filter).or (s.marker? .having) with
  | some m => m.last + 1 < s.placeOf (s.markers.find? fun n => m.last < n.first)
  | none => 0 < s.placeOf (s.markers.find? fun m => afterFilter.contains m.clause)

/-- There is something in a condition just if the next clause does not follow at once. -/
theorem conditionSpan_isOk_iff {s : Statement} {m : Marker} :
    (∃ span, s.conditionSpan m = .ok span) ↔
      m.last + 1 < s.placeOf (s.markers.find? fun n => m.last < n.first) := by
  simp only [conditionSpan]
  show (∃ span, (if m.last + 1 < s.placeOf (s.markers.find? fun n => m.last < n.first) then _
    else _) = _) ↔ _
  -- the span is refused just if it would be empty
  split
  · next h => exact ⟨fun _ => h, fun _ => ⟨_, rfl⟩⟩
  · next h =>
    refine ⟨?_, fun hlt => absurd hlt h⟩
    rintro ⟨span, hspan⟩
    cases hspan

/-- There is a place for a new condition just if something stands in front of the clauses
that come after it. -/
theorem filterIndex_isOk_iff {s : Statement} (hne : s.tokens ≠ []) :
    (∃ i, s.filterIndex = .ok i) ↔
      0 < s.placeOf (s.markers.find? fun m => afterFilter.contains m.clause) := by
  constructor
  · rintro ⟨i, hi⟩
    have hplace := filterIndex_eq_ok hne hi
    omega
  · intro h
    unfold filterIndex
    cases hfind : s.markers.find? fun m => afterFilter.contains m.clause with
    | none => exact ⟨_, rfl⟩
    | some m =>
      rw [hfind] at h
      -- the token before the first clause is there, since the clause is not the first token
      have hfirst : 0 < m.first := h
      obtain ⟨i, hi⟩ := Nat.exists_eq_add_of_lt hfirst
      rw [Nat.zero_add] at hi
      dsimp only
      rw [indexBefore, hi]
      exact ⟨_, rfl⟩

/-- A condition is added just if there is a place for it, whatever it says. -/
theorem addCondition_isOk_iff {s : Statement} (hne : s.tokens ≠ []) (condition : List Char)
    (draft : Draft) : (∃ draft', Draft.addCondition s condition draft = .ok draft') ↔
      s.TakesCondition := by
  unfold Draft.addCondition TakesCondition
  -- with a condition to go on with there must be something in it, and without one a place
  cases (s.marker? .filter).or (s.marker? .having) with
  | some m =>
    dsimp only
    rw [← conditionSpan_isOk_iff]
    simp only [bind_eq_ok, Except.ok.injEq]
    constructor
    · rintro ⟨-, span, hspan, -⟩
      exact ⟨span, hspan⟩
    · rintro ⟨span, hspan⟩
      exact ⟨_, span, hspan, rfl⟩
  | none =>
    dsimp only
    rw [← filterIndex_isOk_iff hne]
    simp only [bind_eq_ok, Except.ok.injEq]
    constructor
    · rintro ⟨-, i, hi, -⟩
      exact ⟨i, hi⟩
    · rintro ⟨i, hi⟩
      exact ⟨_, i, hi, rfl⟩

end Sql.Statement

/-! ## Queries with a cursor -/

namespace Query

/-- Names are free just if none of them belongs to a cursor. -/
theorem checkReserved_eq_ok_iff {s : Statement} {own : Binds} :
    checkReserved s own = .ok () ↔
      ∀ name ∈ own.names ++ s.tokens.filterMap (·.placeholder?),
        Keyset.isReserved name = false := by
  unfold checkReserved
  cases h : (own.names ++ s.tokens.filterMap (·.placeholder?)).find? Keyset.isReserved with
  | none => simpa using List.find?_eq_none.mp h
  | some name =>
    constructor
    · intro hok
      cases hok
    · intro hfree
      -- the name that was found is a reserved one
      have hreserved := List.find?_some h
      rw [hfree name (List.mem_of_find?_eq_some h)] at hreserved
      cases hreserved

/-- What a cursor asks for: names that are free, values that can be compared with, and a
place for the condition. -/
structure Seekable (d : Dialect) (sql : String) (params : Params) (c : Cursor) : Prop where
  free : ∀ n s, normalize d params = .ok n → parse d sql = .ok s →
    ∀ name ∈ n.binds.names ++ s.tokens.filterMap (·.placeholder?), Keyset.isReserved name = false
  bounds : ∀ p ∈ c.values, p.2.Bounds
  place : ∀ s, parse d sql = .ok s → s.TakesCondition

/-- Where skipping gives a window, so does walking on. -/
theorem keysetMode_of_offsetMode {page size eachSide : Int64} {w : Window}
    (h : Window.offsetMode page size eachSide = .ok w) :
    ∃ w', Window.keysetMode page size eachSide .next = .ok w' := by
  unfold Window.offsetMode at h
  dsimp only at h
  split at h
  · next offset limit _ hlimit =>
    exact ⟨_, Window.keysetMode_eq_ok_iff.mpr ⟨limit, rfl, hlimit⟩⟩
  · cases h

/-- Where skipping gives a query, a cursor of a row gives one just if the statement has
what the cursor asks for. -/
theorem compile_seeking_isOk_iff {d : Dialect} {sql : String} {order : Order} {params : Params}
    {pager : Pager} {c : Cursor} {q₀ : Query} (hfits : c.fits order = true)
    (hscalar : ∀ p ∈ c.values, p.2.IsScalar) (hnext : c.direction = .next)
    (hwidth : c.eachSide = pager.eachSide)
    (hskip : compile d sql order params pager none = .ok q₀) :
    (∃ q, compile d sql order params pager (some c) = .ok q) ↔ Seekable d sql params c := by
  obtain ⟨n, s, draft, seek₀, i, hn, hs, hpage, hdraft, hseek₀, hi, -⟩ :=
    compile_eq_ok_iff.mp hskip
  obtain ⟨hne, -⟩ := Statement.parse_eq_ok (mapError_eq_ok.mp hs)
  constructor
  · rintro ⟨q, hq⟩
    obtain ⟨n', s', draft', seek, -, hn', hs', -, -, hseek, -, -⟩ := compile_eq_ok_iff.mp hq
    obtain rfl := Except.ok.inj (hn.symm.trans hn')
    obtain rfl := Except.ok.inj (hs.symm.trans hs')
    -- each clause is what one step of the seek asked for
    obtain ⟨hfree, k, draft'', -, hk, hcondition, -, -⟩ := seeking_eq_ok_iff.mp hseek
    refine ⟨fun m t hm ht => ?_, (Keyset.ofCursor_isOk_iff hfits hscalar).mp ⟨k, hk⟩, fun t ht => ?_⟩
    · obtain rfl := Except.ok.inj (hn.symm.trans hm)
      obtain rfl := Except.ok.inj (hs.symm.trans ht)
      exact checkReserved_eq_ok_iff.mp hfree
    · obtain rfl := Except.ok.inj (hs.symm.trans ht)
      exact (Statement.addCondition_isOk_iff hne _ _).mp ⟨draft'', hcondition⟩
  · intro h
    -- each step of the seek succeeds; the others are those of skipping
    obtain ⟨w₀, hw₀, -⟩ := skipping_eq_ok_iff.mp hseek₀
    obtain ⟨k, hk⟩ := (Keyset.ofCursor_isOk_iff (d := d) hfits hscalar).mpr h.bounds
    obtain ⟨draft', hcondition⟩ :=
      (Statement.addCondition_isOk_iff hne (Keyset.grouped k.predicate).toList draft).mpr
        (h.place s hs)
    obtain ⟨w, hw⟩ := keysetMode_of_offsetMode hw₀
    rw [← hwidth, ← hnext] at hw
    have hfree := checkReserved_eq_ok_iff.mpr (h.free n s hn hs)
    have hseek : seekFor d s order n.binds pager draft (some c) = .ok _ :=
      seeking_eq_ok_iff.mpr ⟨hfree, k, draft', w, hk, hcondition, hw, rfl⟩
    exact ⟨_, compile_eq_ok_iff.mpr ⟨n, s, draft, _, i, hn, hs, hpage, hdraft, hseek, hi, rfl⟩⟩

end Query

/-! ## The following page -/

namespace Fetch

variable {ρ : Type} {db : Database ρ} {d : Dialect}

/-- The request for the page after that of a request. -/
def following (r : Request) : Request := { r with pager := r.pager.next 1 }

/-- What was saved is found again by the request for the following page, as long as it
has not expired and the order has no expression twice. -/
theorem cursor?_of_saved {r : Request} {store : Store} {clock later : Clock} {name : String}
    {c : Cursor} (h : saving? db d r store clock = some (name, c)) :
    cursor? (following r) (fetch db d r store clock).store later =
      if c.expiredAt later.atLoad store.lifetime = false ∧ c.fits r.order = true then some c
      else none := by
  obtain ⟨hname, row, hcreate⟩ := create_of_saving h
  obtain ⟨-, pairs, -, hc⟩ := Cursor.create_eq_ok_iff.mp hcreate
  -- the next page was saved with its own pager, so that only the keys are left to compare
  have husable : isUsable c (following r) = c.fits r.order := by
    have hagrees : c.pager.agrees (following r).pager = true := by
      rw [hc]
      simp [following, Pager.agrees]
    have hpage : (c.pager.page == (following r).pager.page) = true := by
      rw [hc]
      exact beq_self_eq_true _
    rw [isUsable, hagrees, hpage]
    rfl
  -- what was saved is loaded, unless it has expired in the meantime
  have hload : (store.save name c).load? name later.atLoad =
      if c.expiredAt later.atLoad store.lifetime = true then none else some c :=
    Store.load_save_self store name c later.atLoad
  rw [fetch_store, h, Option.elim_some, cursor?_of_named (r := following r) hname, usable?, hload]
  cases c.expiredAt later.atLoad store.lifetime with
  | true => simp
  | false => simp [Option.filter, husable]

end Fetch

open Fetch

/-- A fetch saved a cursor, and the following page can be compiled by skipping. Then the
request for that page, whenever it comes, either does not use the cursor or starts at
it, and it executes a query just if it does not use the cursor or the statement has what
the cursor asks for: no name of its own that belongs to a cursor, values of the boundary
row that can be compared with, and a place for a condition. Else compiling fails, the
fetch fails with the same error, and the database is asked nothing. -/
theorem next_page_compiles_iff {ρ : Type} {db : Database ρ} {d : Dialect} {r : Request}
    {store : Store} {clock later : Clock} {name : String} {c : Cursor} {q₀ : Query}
    (hsaved : saving? db d r store clock = some (name, c))
    (hskip : Query.compile d r.sql r.order r.params (r.pager.next 1) none = .ok q₀) :
    let cursor := cursor? (following r) (fetch db d r store clock).store later
    (cursor = none ∨ cursor = some c) ∧
    ((∃ q, Query.compile d r.sql r.order r.params (r.pager.next 1) cursor = .ok q ∧
        ∃ more, (fetch db d (following r) (fetch db d r store clock).store later).calls =
          .execute d q.sql q.binds :: more) ↔
      (cursor = none ∨ Query.Seekable d r.sql r.params c)) ∧
    (¬(cursor = none ∨ Query.Seekable d r.sql r.params c) →
      ∃ e, Query.compile d r.sql r.order r.params (r.pager.next 1) cursor = .error e ∧
        (fetch db d (following r) (fetch db d r store clock).store later).page = .error e ∧
        (fetch db d (following r) (fetch db d r store clock).store later).calls = []) := by
  intro cursor
  -- a query that compiles is executed, so that compiling is all there is to show
  have hexecuted : (∃ q, Query.compile d r.sql r.order r.params (r.pager.next 1) cursor = .ok q ∧
        ∃ more, (fetch db d (following r) (fetch db d r store clock).store later).calls =
          .execute d q.sql q.binds :: more) ↔
      ∃ q, Query.compile d r.sql r.order r.params (r.pager.next 1) cursor = .ok q :=
    ⟨fun ⟨q, hq, _⟩ => ⟨q, hq⟩, fun ⟨q, hq⟩ => ⟨q, hq, fetch_calls (r := following r) hq⟩⟩
  have hcursor : cursor = _ := cursor?_of_saved hsaved
  have hcompiled : (cursor = none ∨ cursor = some c) ∧
      ((∃ q, Query.compile d r.sql r.order r.params (r.pager.next 1) cursor = .ok q) ↔
        (cursor = none ∨ Query.Seekable d r.sql r.params c)) := by
    split at hcursor
    · next hused =>
      obtain ⟨-, row, hcreate⟩ := create_of_saving hsaved
      obtain ⟨-, pairs, -, hc⟩ := Cursor.create_eq_ok_iff.mp hcreate
      -- the cursor is as wide as the pager that it was saved for, which the next one keeps
      have hwidth : c.eachSide = (r.pager.next 1).eachSide := by
        rw [hc]
        rfl
      rw [hcursor]
      refine ⟨.inr rfl, ?_⟩
      rw [Query.compile_seeking_isOk_iff hused.2 (Cursor.scalar_of_create hcreate) (by rw [hc])
        hwidth hskip]
      simp
    · rw [hcursor]
      exact ⟨.inl rfl, fun _ => .inl rfl, fun _ => ⟨q₀, hskip⟩⟩
  obtain ⟨hstart, hiff⟩ := hcompiled
  refine ⟨hstart, hexecuted.trans hiff, fun hnot => ?_⟩
  -- what gives no query gives an error, and the fetch goes no further
  cases hq : Query.compile d r.sql r.order r.params (r.pager.next 1) cursor with
  | ok q => exact absurd (hiff.mp ⟨q, hq⟩) hnot
  | error e => exact ⟨e, rfl, fetch_of_error (r := following r) hq⟩

/-- After the first person, the request for the second one executes a query. -/
theorem next_page_compiles_iff_of_people :
    ∃ c q₀, saving? peopleDatabase .sqlite firstPerson (.empty 60000) atOnce = some ("people", c) ∧
      Query.compile .sqlite firstPerson.sql firstPerson.order firstPerson.params
        (firstPerson.pager.next 1) none = .ok q₀ ∧
      let cursor := cursor? (following firstPerson)
        (fetch peopleDatabase .sqlite firstPerson (.empty 60000) atOnce).store atOnce
      (cursor = none ∨ cursor = some c) ∧
      ((∃ q, Query.compile .sqlite firstPerson.sql firstPerson.order firstPerson.params
            (firstPerson.pager.next 1) cursor = .ok q ∧
          ∃ more, (fetch peopleDatabase .sqlite (following firstPerson)
            (fetch peopleDatabase .sqlite firstPerson (.empty 60000) atOnce).store atOnce).calls =
            .execute .sqlite q.sql q.binds :: more) ↔
        (cursor = none ∨ Query.Seekable .sqlite firstPerson.sql firstPerson.params c)) ∧
      (¬(cursor = none ∨ Query.Seekable .sqlite firstPerson.sql firstPerson.params c) →
        ∃ e, Query.compile .sqlite firstPerson.sql firstPerson.order firstPerson.params
            (firstPerson.pager.next 1) cursor = .error e ∧
          (fetch peopleDatabase .sqlite (following firstPerson)
            (fetch peopleDatabase .sqlite firstPerson (.empty 60000) atOnce).store atOnce).page =
            .error e ∧
          (fetch peopleDatabase .sqlite (following firstPerson)
            (fetch peopleDatabase .sqlite firstPerson (.empty 60000) atOnce).store atOnce).calls =
            []) := by
  obtain ⟨⟨name, c⟩, hsaved⟩ : ∃ x,
      saving? peopleDatabase .sqlite firstPerson (.empty 60000) atOnce = some x :=
    Option.isSome_iff_exists.mp (by decide +kernel)
  obtain ⟨q₀, hskip, -⟩ : ∃ q₀, Query.compile .sqlite firstPerson.sql firstPerson.order
      firstPerson.params (firstPerson.pager.next 1) none = .ok q₀ ∧ q₀.window.page = 2 :=
    exists_eq_ok_of_any (by decide +kernel)
  -- the cursor goes under the name of the pager
  obtain rfl : "people" = name := Option.some.inj (create_of_saving hsaved).1
  exact ⟨c, q₀, hsaved, hskip, next_page_compiles_iff hsaved hskip⟩

/-- A fetch saves a cursor, and the following page can be compiled by skipping but not
from that cursor. -/
def Stranded {ρ : Type} (db : Database ρ) (d : Dialect) (r : Request) (store : Store)
    (clock : Clock) : Prop :=
  (saving? db d r store clock).isSome = true ∧
  (Query.compile d r.sql r.order r.params (r.pager.next 1) none).toOption.isSome = true ∧
  (Query.compile d r.sql r.order r.params (r.pager.next 1)
    (cursor? (following r) (fetch db d r store clock).store clock)).toOption.isNone = true

/-- A database that answers every query with two rows of one column. -/
def twoPosts (first second : Value) : Database Value where
  execute _ _ _ := .ok [first, second]
  count _ _ _ := .ok 2
  column v := fun name => if name = "id" then some v else none

/-- A request for the first post of a statement. -/
def firstPost (sql : String) (params : Params) : Request where
  sql
  order := ⟨[⟨"id", .ascending⟩]⟩
  params
  pager := Pager.make 1 1 0 false (some "posts")

/-- A parameter with a name that belongs to a cursor, a boundary row without a value, and
a condition that says nothing: each makes the following page fail from its cursor. -/
theorem next_page_stranded :
    Stranded (twoPosts (.int 1) (.int 2)) .sqlite
      (firstPost "SELECT id FROM posts WHERE topic = :cursor__0" [("cursor__0", .int 7)])
      (.empty 60000) atOnce ∧
    Stranded (twoPosts (.int 1) .null) .sqlite (firstPost "SELECT id FROM posts" [])
      (.empty 60000) atOnce ∧
    Stranded (twoPosts (.int 1) (.int 2)) .sqlite (firstPost "SELECT id FROM posts WHERE" [])
      (.empty 60000) atOnce := by
  unfold Stranded
  decide +kernel

end SqlPaging
