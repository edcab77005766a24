import SqlPaging.Proofs.Fetch.Outcome
import SqlPaging.Proofs.Table.Reference

/-!
# SqlPaging — cursors against skipping

Requests for pages of one statement share a store. Whatever pages they ask for and
whenever they come, a fetch that gives a page gives the one that skipping rows would
give.

The invariant is that every cursor of the store marks the row that its page starts
with (`Marked`), expired or not. Fetching keeps it: the row after a page is the first
one of the following page, and a cursor of it is all that a fetch saves.

Main results:

* `marked_fetch` — a fetch keeps the invariant.
* `fetch_page_eq_skipping` — under the invariant, a fetch gives the page of skipping.
* `fetchInTurn_page_eq_skipping` — so do all fetches from an empty store on.
-/

namespace SqlPaging

/-! ## Windows of one page -/

/-- Windows of one page and width make one page of the same rows. -/
theorem Page.ofWindow_of_shows {ρ : Type} {page size eachSide : Int64} {w w' : Window}
    (h : w.Shows page size eachSide) (h' : w'.Shows page size eachSide) (rows : List ρ)
    (total : Option Int64) : Page.ofWindow rows w total = Page.ofWindow rows w' total := by
  simp only [Page.ofWindow, h.page_eq, h'.page_eq, h.size_eq, h'.size_eq, h.eachSide_eq,
    h'.eachSide_eq, h.pages_eq, h'.pages_eq, h.forward, h'.forward]

/-- Windows that show the same page fetch equally many rows. -/
theorem Window.Shows.limit_unique {page size eachSide : Int64} {w w' : Window}
    (h : w.Shows page size eachSide) (h' : w'.Shows page size eachSide) : w.limit = w'.limit := by
  apply Int64.toInt_inj.mp
  rw [h.limit_eq, h'.limit_eq, h.pages_eq, h'.pages_eq]

namespace Pager

theorem offset_nonneg (p : Pager) : 0 ≤ p.offset := by
  have := p.page_pos
  have := p.size_pos
  exact Int.mul_nonneg (by omega) (by omega)

/-- The following page starts after the rows of the page, unless pages cannot be
counted that far. -/
theorem offset_next {p : Pager} (h : p.offset + p.size.toInt < Integer.greatest) :
    (p.next 1).offset = p.offset + p.size.toInt := by
  have hpage := p.page_pos
  have hsize := p.size_pos
  have hprod : p.offset + p.size.toInt = p.page.toInt * p.size.toInt := by
    rw [offset, Int.sub_mul, Int.one_mul]
    omega
  -- the number of the following page is at most that of its first row, which fits
  have hle : p.page.toInt ≤ p.page.toInt * p.size.toInt := by
    have := Int.mul_le_mul_of_nonneg_left hsize (show 0 ≤ p.page.toInt by omega)
    omega
  have hnext : (p.next 1).page.toInt = p.page.toInt + 1 := by
    rw [toInt_next_page p 1 (by decide), Int64.toInt_one]
    omega
  rw [hprod, offset, hnext]
  show (p.page.toInt + 1 - 1) * p.size.toInt = _
  rw [Int.add_sub_cancel]

end Pager

namespace Fetch

variable {ρ α : Type} [DecidableEq α]

/-! ## The invariant -/

/-- Every cursor of a store marks the row that its page starts with. -/
def Marked (t : Table ρ α) (db : Database ρ) (order : Order) (store : Store) : Prop :=
  ∀ name c, store.entries.get? name = some c → t.Marks db order c

variable {t : Table ρ α} {db : Database ρ} {d : Dialect} {b : Base} {store : Store}

/-- An empty store has no cursor that could mark another row. -/
theorem marked_empty (t : Table ρ α) (db : Database ρ) (order : Order) (lifetime : Nat) :
    Marked t db order (.empty lifetime) := by
  intro name c h
  simp [Store.empty, Fields.get?] at h

theorem Marked.save {order : Order} {name : String} {c : Cursor} (h : Marked t db order store)
    (hc : t.Marks db order c) : Marked t db order (store.save name c) := by
  intro other c' hother
  by_cases heq : other = name
  · subst heq
    rw [Store.save, Fields.get?_set_self] at hother
    cases hother
    exact hc
  · rw [Store.save, Fields.get?_set_of_ne _ _ heq] at hother
    exact h other c' hother

/-- A cursor that a fetch uses is one of the store and of the page that is asked for. -/
theorem usable?_eq_some {r : Request} {name : String} {now : Calendar.DateTime} {c : Cursor}
    (h : usable? r name store now = some c) :
    store.entries.get? name = some c ∧ isUsable c r = true := by
  rw [usable?, Option.filter_eq_some_iff, Store.load?, Option.filter_eq_some_iff] at h
  exact ⟨h.1.1, h.2⟩

/-- A cursor that can be used for a page marks the row that the page starts with. -/
structure Leads (t : Table ρ α) (db : Database ρ) (r : Request) (c : Cursor) : Prop where
  marks : t.Marks db r.order c
  fits : c.fits r.order = true
  size : c.pager.size = r.pager.size
  eachSide : c.eachSide = r.pager.eachSide
  offset : c.pager.offset = r.pager.offset

/-- A stored cursor that can be used leads to the page that is asked for. -/
theorem leads_of_usable {r : Request} {name : String} {now : Calendar.DateTime} {c : Cursor}
    (hm : Marked t db r.order store) (h : usable? r name store now = some c) :
    Leads t db r c := by
  obtain ⟨hget, husable⟩ := usable?_eq_some h
  have hmarks := hm name c hget
  simp only [isUsable, Pager.agrees, Bool.and_eq_true, beq_iff_eq] at husable
  obtain ⟨⟨⟨⟨⟨hsize, heach⟩, -⟩, -⟩, hpage⟩, hfits⟩ := husable
  refine ⟨hmarks, hfits, hsize, ?_, ?_⟩
  · rw [Cursor.eachSide, hmarks.width, Option.getD_none, heach]
  · rw [Pager.offset, Pager.offset, hpage, hsize]

/-! ## Queries -/

/-- A query with a cursor that leads to its page, or without one, has a window of the
page and is answered with the rows from the start of the page on. -/
theorem answer_of_compile (ht : t.Stored db b.order) {pager : Pager} {cursor : Option Cursor}
    {q : Query} (hc : ∀ c, cursor = some c → Leads t db (b.request pager) c)
    (hq : Query.compile d b.sql b.order b.params pager cursor = .ok q) :
    q.window.Shows pager.page pager.size pager.eachSide ∧
      t.answer d b.order q cursor =
        ((t.sorted b.order t.rows).drop pager.offset.toNat).take q.window.limit.toInt.toNat := by
  cases cursor with
  | none =>
    have hskips := Window.skips_of_offsetMode (Query.compile_window hq) pager.page_pos
    refine ⟨hskips.toShows, ?_⟩
    rw [Table.answer_none, hskips.offset_eq]
    rfl
  | some c =>
    obtain ⟨hmarks, -, hsize, heach, hoffset⟩ := hc c rfl
    obtain ⟨k, own, -, hw, -, -⟩ := Query.compile_seeking hq
    -- the cursor leads to the page, so its window shows that page too
    rw [heach, hmarks.direction] at hw
    refine ⟨Window.shows_of_keysetMode hw, ?_⟩
    rw [Table.answer_of_marks ht hmarks hq, hoffset]
    rfl

/-- The rows before a page that a cursor leads to are no more than the table has. -/
theorem offset_inRange (ht : t.Stored db b.order) {pager : Pager} {c : Cursor}
    (hc : Leads t db (b.request pager) c) : Integer.InRange pager.offset := by
  obtain ⟨r, -, hr, -⟩ := hc.marks.boundary
  have hlt := (List.getElem?_eq_some_iff.mp hr).1
  have hle := ht.length_le
  have hnonneg := pager.offset_nonneg
  have hoffset : c.pager.offset = pager.offset := hc.offset
  rw [Table.length_sorted, hoffset] at hlt
  unfold Integer.InRange Integer.least
  omega

/-! ## One fetch -/

/-- Where a cursor that leads to a page gives the page, so does skipping. -/
theorem skipping_of_leads (hs : t.Serves db d b) (ht : t.Stored db b.order) {pager : Pager}
    {cursor : Option Cursor} {q : Query} {rows : List ρ} {p : Page ρ}
    (hc : ∀ c, cursor = some c → Leads t db (b.request pager) c)
    (hq : Query.compile d b.sql b.order b.params pager cursor = .ok q)
    (hrows : db.execute d q.sql q.binds = .ok rows)
    (hp : pageOf db d (b.request pager) q rows = .ok p) (other : Store) :
    (fetchSkipping db d (b.request pager) other).page = .ok p := by
  rw [fetchSkipping_page_eq_ok_iff]
  cases cursor with
  | none => exact ⟨q, rows, hq, hrows, hp⟩
  | some c =>
    obtain ⟨hshows, hanswer⟩ := answer_of_compile ht hc hq
    -- the limit of a seek is that of skipping, and the row of the cursor bounds the offset
    obtain ⟨limit, hlim⟩ : ∃ limit,
        Window.probeLimit? (effectivePages pager.page pager.eachSide) pager.size = some limit := by
      obtain ⟨k, own, -, hw, -, -⟩ := Query.compile_seeking hq
      obtain ⟨limit, -, hlim⟩ := Window.keysetMode_eq_ok_iff.mp hw
      rw [(hc c rfl).eachSide, (hc c rfl).marks.direction] at hlim
      exact ⟨limit, hlim⟩
    have hoffset := Window.offsetMode_of_inRange pager.page_pos
      (offset_inRange ht (hc c rfl)) hlim
    obtain ⟨q', hq', -⟩ := Query.compile_skipping_of_compile hq hoffset
    have hnone : ∀ c', (none : Option Cursor) = some c' → Leads t db (b.request pager) c' := by
      simp
    obtain ⟨hshows', hanswer'⟩ := answer_of_compile ht hnone hq'
    -- both queries are answered with the same rows, of which the same page is made
    have hsame : t.answer d b.order q' none = rows := by
      rw [hs.execute pager (some c) q hq] at hrows
      rw [hanswer', ← Except.ok.inj hrows, hanswer, hshows.limit_unique hshows']
    refine ⟨q', rows, hq', ?_, ?_⟩
    · rw [hs.execute pager none q' hq', hsame]
    · rw [pageOf] at hp ⊢
      rw [← hp]
      congr 1
      funext total
      rw [Page.ofWindow_of_shows hshows' hshows]

/-- Under the invariant, a fetch that gives a page gives that of skipping. -/
theorem fetch_page_eq_skipping (hs : t.Serves db d b) (ht : t.Stored db b.order)
    (hm : Marked t db b.order store) {pager : Pager} {clock : Clock} {p : Page ρ}
    (h : (fetch db d (b.request pager) store clock).page = .ok p) (other : Store) :
    (fetchSkipping db d (b.request pager) other).page = .ok p := by
  cases hname : pager.cursorName with
  | none =>
    -- without a name nothing is loaded or saved
    have hskip : fetch db d (b.request pager) store clock =
        fetchSkipping db d (b.request pager) store := by
      simp only [fetch, Base.request, hname]
    rw [hskip, fetchSkipping_page_eq_ok_iff] at h
    exact fetchSkipping_page_eq_ok_iff.mpr h
  | some name =>
    obtain ⟨v, hv, hp⟩ := (fetch_page_eq_ok_iff hname).mp h
    obtain ⟨hq, hrows, -⟩ := visit_eq_ok_iff.mp hv
    exact skipping_of_leads hs ht (fun c hc => leads_of_usable hm hc) hq hrows hp other

/-- The boundary row of a visit is the first row of the following page. -/
theorem getElem?_of_boundary {r : Request} {w : Window} {pager : Pager} {rows sorted : List ρ}
    {row : ρ} (hw : w.Shows pager.page pager.size pager.eachSide)
    (hrows : rows = (sorted.drop pager.offset.toNat).take w.limit.toInt.toNat)
    (hlen : (sorted.length : Int) ≤ Integer.greatest) (h : boundary? r w rows = some row) :
    sorted[(pager.next 1).offset.toNat]? = some row := by
  have hnonneg := pager.offset_nonneg
  have hsize := pager.size_pos
  obtain ⟨-, -, h⟩ := boundary?_eq_some_iff.mp h
  rw [hw.size_eq, hrows, List.getElem?_take] at h
  split at h
  · rw [List.getElem?_drop] at h
    -- the boundary row comes as many rows behind the offset as a page has
    have hplace : pager.offset.toNat + pager.size.toInt.toNat =
        (pager.offset + pager.size.toInt).toNat := by omega
    rw [hplace] at h
    have hlt := (List.getElem?_eq_some_iff.mp h).1
    rw [Pager.offset_next (by omega)]
    exact h
  · cases h

/-- A fetch keeps the invariant, also if it fails. -/
theorem marked_fetch (hs : t.Serves db d b) (ht : t.Stored db b.order)
    (hm : Marked t db b.order store) (pager : Pager) (clock : Clock) :
    Marked t db b.order (fetch db d (b.request pager) store clock).store := by
  cases hname : pager.cursorName with
  | none =>
    rw [fetch_store_of_unnamed db d (b.request pager) store clock hname]
    exact hm
  | some name =>
    rcases fetch_store_of_named (r := b.request pager) hname store clock with
      hsame | ⟨v, c, hv, hnext, hsaved⟩
    · rw [hsame]
      exact hm
    · -- what is saved was made of the row after the page
      obtain ⟨hq, hrows, hkept⟩ := visit_eq_ok_iff.mp hv
      obtain ⟨hshows, hanswer⟩ :=
        answer_of_compile ht (fun c hc => leads_of_usable hm hc) hq
      have hrows' := Except.ok.inj (hrows.symm.trans (hs.execute pager _ v.query hq))
      rw [hsaved]
      apply hm.save
      rw [hnext] at hkept
      obtain ⟨row, hrow, hcreate⟩ := kept_eq_some_iff.mp hkept
      -- that row is the first one of the next page
      have hplace := getElem?_of_boundary hshows (hrows'.trans hanswer)
        (by rw [Table.length_sorted]; exact ht.length_le) hrow
      exact (t.marks_of_create hplace hcreate).1

/-! ## Fetches in turn -/

/-- Fetches of pages, one after the other, each with the store that the one before it
left. -/
def inTurn (db : Database ρ) (d : Dialect) (b : Base) :
    Store → List (Pager × Clock) → List (Pager × Fetched ρ)
  | _, [] => []
  | store, (pager, clock) :: rest =>
    let fetched := fetch db d (b.request pager) store clock
    (pager, fetched) :: inTurn db d b fetched.store rest

/-- From a store of cursors that mark their rows, each request in turn gives the page that
skipping gives. -/
theorem inTurn_page_eq_skipping (hs : t.Serves db d b) (ht : t.Stored db b.order)
    (hm : Marked t db b.order store) (visits : List (Pager × Clock)) :
    ∀ x ∈ inTurn db d b store visits, ∀ p, x.2.page = .ok p →
      ∀ other, (fetchSkipping db d (b.request x.1) other).page = .ok p := by
  -- the induction is on the requests: each leaves a store that is marked to the others
  induction visits generalizing store with
  | nil => simp [inTurn]
  | cons visit rest ih =>
    obtain ⟨pager, clock⟩ := visit
    intro x hx p hp other
    rw [inTurn, List.mem_cons] at hx
    rcases hx with rfl | hx
    · exact fetch_page_eq_skipping hs ht hm hp other
    · exact ih (marked_fetch hs ht hm pager clock) x hx p hp other

end Fetch

/-! ## People -/

/-- A table of two columns, of which the first one has values more than once. -/
def people : Table (Int64 × Int64) Int where
  rows := [(2, 30), (1, 10), (2, 21), (1, 12), (2, 25)]
  value r expression := if expression = "gender" then r.1.toInt else r.2.toInt
  collation :=
    { before := fun _ a b => decide (a < b)
      irrefl := by simp
      trans := by simp; omega
      total := by simp; omega }
  denote
    | .int n => n.toInt
    | _ => 0

/-- The columns of a row. -/
def peopleColumn (r : Int64 × Int64) : Row := fun name =>
  if name = "gender" then some (.int r.1) else if name = "id" then some (.int r.2) else none

/-- The statement of the table, sorted by both columns. -/
def peopleBase : Base where
  sql := "SELECT id FROM people"
  order := ⟨[⟨"gender", .descending⟩, ⟨"id", .ascending⟩]⟩
  params := []

/-- The tokens of the statement. -/
def peopleStatement : Sql.Statement where
  tokens :=
    [⟨.word, "SELECT".toList, [], 0, 0⟩, ⟨.word, "id".toList, [' '], 7, 0⟩,
      ⟨.word, "FROM".toList, [' '], 10, 0⟩, ⟨.word, "people".toList, [' '], 15, 0⟩]
  rest := []

/-- The database of the table. -/
def peopleDatabase : Database (Int64 × Int64) :=
  people.database peopleColumn peopleStatement.body peopleBase.order

/-- The pages that are asked for, under one cursor name. -/
def peopleVisits : List (Pager × Clock) :=
  [1, 2].map fun page => (Pager.make page 2 1 true (some "people"), ⟨default, default⟩)

/-- The database of people answers as its table does. -/
theorem people_serves : people.Serves peopleDatabase .sqlite peopleBase :=
  people.serves_database peopleColumn ⟨rfl, rfl⟩ (by simp [peopleBase])

theorem people_stored : people.Stored peopleDatabase peopleBase.order where
  keyed := by
    show (people.rows.map (people.key peopleBase.order)).Nodup
    decide
  length_le := by decide
  plain := by
    intro r _ e he
    simp only [peopleBase, Order.expressions, List.map_cons, List.map_nil, List.mem_cons,
      List.not_mem_nil, or_false] at he
    rcases he with rfl | rfl
    · exact ⟨.int r.1, .int r.1, rfl, rfl, rfl⟩
    · exact ⟨.int r.2, .int r.2, rfl, rfl, rfl⟩

/-- Requests for pages of one statement, in any order, with any sizes, widths and
cursor names and at any times, share a store that is empty at first. Each of them
that gives a page gives the page of skipping the rows before it. -/
theorem fetchInTurn_page_eq_skipping {ρ α : Type} [DecidableEq α] {t : Table ρ α}
    {db : Database ρ} {d : Dialect} {b : Base} (hs : t.Serves db d b) (ht : t.Stored db b.order)
    (lifetime : Nat) (visits : List (Pager × Clock)) :
    ∀ x ∈ Fetch.inTurn db d b (.empty lifetime) visits, ∀ p, x.2.page = .ok p →
      ∀ other, (fetchSkipping db d (b.request x.1) other).page = .ok p :=
  Fetch.inTurn_page_eq_skipping hs ht (Fetch.marked_empty t db b.order lifetime) visits

/-- Two pages in turn, of which the second one starts at a cursor. -/
theorem fetchInTurn_page_eq_skipping_of_people :
    (Fetch.inTurn peopleDatabase .sqlite peopleBase (.empty 60000) peopleVisits).map
        (fun x => x.2.page.toOption.map (·.items)) =
      [some [(2, 21), (2, 25)], some [(2, 30), (1, 10)]] ∧
    ∀ x ∈ Fetch.inTurn peopleDatabase .sqlite peopleBase (.empty 60000) peopleVisits,
      ∀ p, x.2.page = .ok p → ∀ other,
        (fetchSkipping peopleDatabase .sqlite (peopleBase.request x.1) other).page = .ok p :=
  ⟨by decide +kernel, fetchInTurn_page_eq_skipping people_serves people_stored 60000 _⟩

end SqlPaging
