import SqlPaging.Cursor.Store
import SqlPaging.Page
import SqlPaging.Query

/-!
# SqlPaging — fetched pages

A page is fetched from a database in up to two queries: one for its rows, and one
for the total if the pager asks for it. Where the pager has a cursor name, the
store is asked for a cursor first, which is used only if it was made for the same
pager, page and order; and the first row after the page is kept as the cursor of
the following page.

A fetch is a function of the database's answers, the store and the clock. What it
gives is the page or an error, the store as it is afterwards, the calls that were
made and the events that were reported, in order.

Main results:

* `fetchSkipping_store` — a fetch that skips rows leaves the store alone.
* `fetch_store_of_unnamed` — so does a fetch without a cursor name.
-/

namespace SqlPaging

open Calendar

/-! ## Databases -/

/-- What a database is asked to do. -/
inductive Call where
  | execute (dialect : Dialect) (sql : String) (binds : Binds)
  | count (dialect : Dialect) (sql : String) (binds : Binds)
deriving Repr

/-- A database, as its answers to queries for rows and for numbers. -/
structure Database (ρ : Type) where
  execute : Dialect → String → Binds → Except PageError (List ρ)
  count : Dialect → String → Binds → Except PageError Int64
  /-- the value of a column of a row -/
  column : ρ → Row

/-- A request for a page. -/
structure Request where
  sql : String
  order : Order
  params : Params
  pager : Pager

/-- The clock during a fetch: when the store is asked, and when a cursor is made. -/
structure Clock where
  atLoad : DateTime
  atSave : DateTime

/-- What a fetch gives. -/
structure Fetched (ρ : Type) where
  page : Except PageError (Page ρ)
  store : Store
  calls : List Call
  events : List Event

namespace Fetch

variable {ρ : Type}

/-- A fetch as it goes on: what it has changed and reported so far. -/
structure Progress where
  store : Store
  calls : List Call := []
  events : List Event := []

/-- A step of a fetch. It can fail; what was changed before it stays. -/
abbrev Step (α : Type) := Progress → Except PageError α × Progress

/-- A step that changes nothing. -/
def Step.pure {α : Type} (result : Except PageError α) : Step α := fun p => (result, p)

/-- A step and, if it does not fail, the one after it. -/
def Step.andThen {α β : Type} (step : Step α) (next : α → Step β) : Step β := fun p =>
  match step p with
  | (.ok a, p) => next a p
  -- What the step that failed has changed is not taken back.
  | (.error e, p) => (.error e, p)

instance : Monad Step where
  pure a := Step.pure (.ok a)
  bind := Step.andThen

/-- Reports events. -/
def report (events : List Event) : Step Unit := fun p =>
  (.ok (), { p with events := p.events ++ events })

/-- Asks the database. -/
def ask {α : Type} (call : Call) (answer : Except PageError α) : Step α := fun p =>
  (answer, { p with calls := p.calls ++ [call] })

/-- A stored cursor was made for the page that is asked for. -/
def isUsable (c : Cursor) (r : Request) : Bool :=
  -- Pagers agree whatever their pages are, so the page is compared on its own.
  c.pager.agrees r.pager && c.pager.page == r.pager.page && c.fits r.order

/-- The stored cursor under a name, if it is there and usable. -/
def loadUsable (r : Request) (name : String) (now : DateTime) : Step (Option Cursor) := fun p =>
  let p := { p with events := p.events ++ p.store.loadEvents name now }
  match p.store.load? name now with
  | none => (.ok none, p)
  | some c =>
    let usable := isUsable c r
    -- A cursor that does not fit stays in the store.
    (.ok (if usable then some c else none),
      { p with events := p.events ++ [.checked name usable r.pager.page] })

/-- The query of a request, reported. -/
def compile (dialect : Dialect) (r : Request) (cursor : Option Cursor) : Step Query := do
  let q ← Step.pure (Query.compile dialect r.sql r.order r.params r.pager cursor)
  report [Query.event dialect q]
  pure q

/-- The rows of a query. -/
def execute (db : Database ρ) (dialect : Dialect) (q : Query) : Step (List ρ) :=
  ask (.execute dialect q.sql q.binds) (db.execute dialect q.sql q.binds)

/-- The first row after the page, if walking on brought one. -/
def boundary? (r : Request) (w : Window) (rows : List ρ) : Option ρ :=
  -- The page that a walk back leads to is known, and no order means no place to go on from.
  if w.reversed || r.order.isEmpty then none else rows[w.size.toInt.toNat]?

/-- Keeps the cursor of the following page under the pager's cursor name. -/
def saveNext (db : Database ρ) (r : Request) (name : String) (w : Window) (rows : List ρ)
    (now : DateTime) : Step Unit := fun p =>
  match boundary? r w rows with
  | none => (.ok (), p)
  | some row =>
    -- The cursor is that of the page that starts at the row.
    match Cursor.create r.order (r.pager.next 1) (db.column row) none now with
    | .error fault => (.error (.invalidCursor fault), p)
    | .ok c =>
      (.ok (), { p with store := p.store.save name c, events := p.events ++ [.saved name] })

/-- The total number of rows, if the pager asks for it. -/
def total (db : Database ρ) (dialect : Dialect) (r : Request) : Step (Option Int64) :=
  if r.pager.needTotal then do
    let q ← Step.pure (Query.count dialect r.sql r.params)
    -- A statement that cannot be counted has failed before the database is asked.
    let n ← ask (.count dialect q.sql q.binds) (db.count dialect q.sql q.binds)
    pure (some n)
  else pure none

/-- The page of the rows of a window. -/
def page (rows : List ρ) (w : Window) (total : Option Int64) : Step (Page ρ) :=
  Step.pure ((Page.ofWindow rows w total).mapError .invalidArgument)

/-- All steps of a fetch that skips the rows before the page. -/
def skipping (db : Database ρ) (dialect : Dialect) (r : Request) : Step (Page ρ) := do
  let q ← compile dialect r none
  let rows ← execute db dialect q
  let n ← total db dialect r
  page rows q.window n

/-- All steps of a fetch that uses and keeps cursors. -/
def seeking (db : Database ρ) (dialect : Dialect) (r : Request) (clock : Clock) (name : String) :
    Step (Page ρ) := do
  let cursor ← loadUsable r name clock.atLoad
  let q ← compile dialect r cursor
  let rows ← execute db dialect q
  -- The cursor is kept before the rows are counted, and stays if counting fails.
  saveNext db r name q.window rows clock.atSave
  let n ← total db dialect r
  page rows q.window n

/-- What a step gives when it starts with a store. -/
def run (step : Step (Page ρ)) (store : Store) : Fetched ρ :=
  let (page, p) := step { store }
  { page, store := p.store, calls := p.calls, events := p.events }

end Fetch

variable {ρ : Type}

/-- Fetches a page without any cursor. -/
def fetchSkipping (db : Database ρ) (dialect : Dialect) (r : Request) (store : Store) : Fetched ρ :=
  Fetch.run (Fetch.skipping db dialect r) store

/-- Fetches a page, with the cursor that the pager asks for. -/
def fetch (db : Database ρ) (dialect : Dialect) (r : Request) (store : Store) (clock : Clock) :
    Fetched ρ :=
  match r.pager.cursorName with
  | none => fetchSkipping db dialect r store
  | some name => Fetch.run (Fetch.seeking db dialect r clock name) store

/-! ## The store -/

namespace Fetch

/-- A step that leaves the store alone. -/
def Keeps {α : Type} (step : Step α) : Prop := ∀ p, (step p).2.store = p.store

/-- A result alone changes nothing. -/
theorem Keeps.pure {α : Type} (result : Except PageError α) : Keeps (Step.pure result) :=
  fun _ => rfl

/-- Two steps that leave the store alone leave it alone one after the other. -/
theorem Keeps.andThen {α β : Type} {step : Step α} {next : α → Step β} (h : Keeps step)
    (hn : ∀ a, Keeps (next a)) : Keeps (step >>= next) := by
  intro p
  show (Step.andThen step next p).2.store = p.store
  have := h p
  unfold Step.andThen
  split
  · -- the second step starts with the store that the first one left
    next a p' hs => rw [hn, ← this, hs]
  · -- the second step is not reached
    next e p' hs => rw [← this, hs]

/-- To report is not to store. -/
theorem keeps_report (events : List Event) : Keeps (report events) := fun _ => rfl

/-- To ask the database is not to store. -/
theorem keeps_ask {α : Type} (call : Call) (answer : Except PageError α) :
    Keeps (ask call answer) := fun _ => rfl

/-- Compiling leaves the store alone. -/
theorem keeps_compile (dialect : Dialect) (r : Request) (cursor : Option Cursor) :
    Keeps (compile dialect r cursor) :=
  (Keeps.pure _).andThen fun _ => (keeps_report _).andThen fun _ => Keeps.pure _

/-- Counting leaves the store alone, whether it is asked for or not. -/
theorem keeps_total (db : Database ρ) (dialect : Dialect) (r : Request) :
    Keeps (total db dialect r) := by
  unfold total
  split
  · exact (Keeps.pure _).andThen fun _ => (keeps_ask _ _).andThen fun _ => Keeps.pure _
  · exact Keeps.pure _

/-- All steps of a fetch that skips rows leave the store alone. -/
theorem keeps_skipping (db : Database ρ) (dialect : Dialect) (r : Request) :
    Keeps (skipping db dialect r) :=
  (keeps_compile _ _ _).andThen fun _ => (keeps_ask _ _).andThen fun _ =>
    (keeps_total _ _ _).andThen fun _ => Keeps.pure _

end Fetch

/-- A fetch that skips rows leaves the store alone. -/
theorem fetchSkipping_store (db : Database ρ) (dialect : Dialect) (r : Request) (store : Store) :
    (fetchSkipping db dialect r store).store = store :=
  Fetch.keeps_skipping db dialect r _

/-- A fetch without a cursor name leaves the store alone. -/
theorem fetch_store_of_unnamed (db : Database ρ) (dialect : Dialect) (r : Request) (store : Store)
    (clock : Clock) (h : r.pager.cursorName = none) :
    (fetch db dialect r store clock).store = store := by
  simp only [fetch, h]
  exact fetchSkipping_store db dialect r store

end SqlPaging
