import SqlPaging.Fetch
import SqlPaging.Proofs.Query.Parts

/-!
# SqlPaging — what a fetch comes to

A fetch is a chain of steps, each of which may report, ask or save. What is left of
it when calls and events are put aside is a *visit*: the query, its rows, and the
cursor that is kept of them. The page is made of the visit and the total; the store
changes by the cursor alone.

Main results:

* `fetchSkipping_page_eq_ok_iff` — the page of a fetch without a cursor.
* `fetch_page_eq_ok_iff`, `fetch_store_of_named` — the page and the store of a fetch
  with a cursor name.
* `fetch_store`, `fetch_calls` — what a fetch saves and what it asks for first.
* `fetch_of_error` — a fetch whose query does not compile asks for nothing.
-/

namespace SqlPaging

namespace Fetch

variable {ρ : Type} {α β : Type}

/-! ## Steps -/

/-- What a chain gives is what its second step gives after its first one. -/
theorem fst_andThen (step : Step α) (next : α → Step β) (p : Progress) :
    ((step >>= next) p).1 = (step p).1 >>= fun a => (next a (step p).2).1 := by
  show (Step.andThen step next p).1 = _
  unfold Step.andThen
  split
  · next a p' hs => rw [hs]; rfl
  · next e p' hs => rw [hs]; rfl

/-- A chain leaves the store of its second step, or that of its first one if it stops
there. -/
theorem store_andThen (step : Step α) (next : α → Step β) (p : Progress) :
    ((step >>= next) p).2.store =
      match (step p).1 with
      | .ok a => (next a (step p).2).2.store
      | .error _ => (step p).2.store := by
  show (Step.andThen step next p).2.store = _
  unfold Step.andThen
  split
  · next a p' hs => rw [hs]
  · next e p' hs => rw [hs]

theorem fst_pure (result : Except PageError α) (p : Progress) : (Step.pure result p).1 = result :=
  rfl

theorem fst_ask (call : Call) (answer : Except PageError α) (p : Progress) :
    (ask call answer p).1 = answer := rfl

/-- What a fetch compiles is the query of its request. -/
theorem fst_compile (d : Dialect) (r : Request) (cursor : Option Cursor) (p : Progress) :
    (compile d r cursor p).1 = Query.compile d r.sql r.order r.params r.pager cursor := by
  simp only [compile, fst_andThen, fst_pure]
  show (Query.compile d r.sql r.order r.params r.pager cursor >>= fun q => .ok q) = _
  cases Query.compile d r.sql r.order r.params r.pager cursor <;> rfl

/-- The total of a request: a number only if the pager asks for it. -/
def counted (db : Database ρ) (d : Dialect) (r : Request) : Except PageError (Option Int64) :=
  if r.pager.needTotal then do
    let q ← Query.count d r.sql r.params
    let n ← db.count d q.sql q.binds
    .ok (some n)
  else .ok none

/-- What a fetch counts is the total of its request. -/
theorem fst_total (db : Database ρ) (d : Dialect) (r : Request) (p : Progress) :
    (total db d r p).1 = counted db d r := by
  unfold total counted
  split
  · simp only [fst_andThen, fst_pure, fst_ask]
    rfl
  · rfl

/-! ## Visits -/

/-- The cursor of the following page, if there is a boundary row to make it of. -/
def kept (db : Database ρ) (r : Request) (w : Window) (rows : List ρ) (now : Calendar.DateTime) :
    Except PageError (Option Cursor) :=
  match boundary? r w rows with
  | none => .ok none
  | some row =>
    ((Cursor.create r.order (r.pager.next 1) (db.column row) none now).mapError
      .invalidCursor).map some

/-- A page has a boundary row just if it was walked on to, in some order, and there is a row
after it. -/
theorem boundary?_eq_some_iff {r : Request} {w : Window} {rows : List ρ} {row : ρ} :
    boundary? r w rows = some row ↔
      w.reversed = false ∧ r.order.isEmpty = false ∧ rows[w.size.toInt.toNat]? = some row := by
  unfold boundary?
  cases w.reversed <;> cases r.order.isEmpty <;> simp

/-- A cursor is kept just if it can be made of the boundary row. -/
theorem kept_eq_some_iff {db : Database ρ} {r : Request} {w : Window} {rows : List ρ}
    {now : Calendar.DateTime} {c : Cursor} :
    kept db r w rows now = .ok (some c) ↔
      ∃ row, boundary? r w rows = some row ∧
        Cursor.create r.order (r.pager.next 1) (db.column row) none now = .ok c := by
  unfold kept
  cases boundary? r w rows with
  | none => simp
  | some row => simp

/-- Saving fails just if there is a boundary row that makes no cursor. -/
theorem fst_saveNext (db : Database ρ) (r : Request) (name : String) (w : Window) (rows : List ρ)
    (now : Calendar.DateTime) (p : Progress) :
    (saveNext db r name w rows now p).1 = (kept db r w rows now).map fun _ => () := by
  unfold saveNext kept
  cases boundary? r w rows with
  | none => rfl
  | some row =>
    dsimp only
    cases Cursor.create r.order (r.pager.next 1) (db.column row) none now <;> rfl

/-- Saving changes the store by the cursor that is kept. -/
theorem store_saveNext (db : Database ρ) (r : Request) (name : String) (w : Window)
    (rows : List ρ) (now : Calendar.DateTime) (p : Progress) :
    (saveNext db r name w rows now p).2.store =
      match kept db r w rows now with
      | .ok (some c) => p.store.save name c
      | _ => p.store := by
  unfold saveNext kept
  cases boundary? r w rows with
  | none => rfl
  | some row =>
    dsimp only
    cases Cursor.create r.order (r.pager.next 1) (db.column row) none now <;> rfl

/-- A query with its rows, and the cursor that is kept of them. -/
structure Visit (ρ : Type) where
  query : Query
  rows : List ρ
  next : Option Cursor

/-- The visit of a request with a cursor. -/
def visit (db : Database ρ) (d : Dialect) (r : Request) (cursor : Option Cursor)
    (now : Calendar.DateTime) : Except PageError (Visit ρ) := do
  let query ← Query.compile d r.sql r.order r.params r.pager cursor
  let rows ← db.execute d query.sql query.binds
  let next ← kept db r query.window rows now
  .ok { query, rows, next }

/-- A visit is a query that compiles, the rows it gives and the cursor kept of them. -/
theorem visit_eq_ok_iff {db : Database ρ} {d : Dialect} {r : Request} {cursor : Option Cursor}
    {now : Calendar.DateTime} {v : Visit ρ} :
    visit db d r cursor now = .ok v ↔
      Query.compile d r.sql r.order r.params r.pager cursor = .ok v.query ∧
        db.execute d v.query.sql v.query.binds = .ok v.rows ∧
        kept db r v.query.window v.rows now = .ok v.next := by
  simp only [visit, bind_eq_ok, Except.ok.injEq]
  constructor
  · rintro ⟨q, hq, rows, hrows, next, hnext, rfl⟩
    exact ⟨hq, hrows, hnext⟩
  · rintro ⟨hq, hrows, hnext⟩
    exact ⟨v.query, hq, v.rows, hrows, v.next, hnext, rfl⟩

/-- The page of the rows of a query. -/
def pageOf (db : Database ρ) (d : Dialect) (r : Request) (q : Query) (rows : List ρ) :
    Except PageError (Page ρ) := do
  let n ← counted db d r
  (Page.ofWindow rows q.window n).mapError .invalidArgument

/-- The cursor that a fetch uses: the stored one, if it has not expired and was made
for the same page. -/
def usable? (r : Request) (name : String) (store : Store) (now : Calendar.DateTime) :
    Option Cursor :=
  (store.load? name now).filter (isUsable · r)

/-- Loading gives the stored cursor that can be used, and does not fail. -/
theorem fst_loadUsable (r : Request) (name : String) (now : Calendar.DateTime) (p : Progress) :
    (loadUsable r name now p).1 = .ok (usable? r name p.store now) := by
  unfold loadUsable usable?
  cases h : p.store.load? name now with
  | none =>
    dsimp only
    rw [h]
    rfl
  | some c =>
    dsimp only
    rw [h]
    rfl

theorem store_loadUsable (r : Request) (name : String) (now : Calendar.DateTime) (p : Progress) :
    (loadUsable r name now p).2.store = p.store := by
  unfold loadUsable
  dsimp only
  split <;> rfl

/-- What comes after saving leaves the store alone. -/
theorem keeps_finish (db : Database ρ) (d : Dialect) (r : Request) (q : Query) (rows : List ρ) :
    Keeps (total db d r >>= fun n => page rows q.window n) :=
  (keeps_total _ _ _).andThen fun _ => Keeps.pure _

end Fetch

open Fetch

variable {ρ : Type}

/-- The page of a fetch that skips rows. -/
theorem fetchSkipping_page_eq_ok_iff {db : Database ρ} {d : Dialect} {r : Request} {store : Store}
    {p : Page ρ} :
    (fetchSkipping db d r store).page = .ok p ↔
      ∃ q rows, Query.compile d r.sql r.order r.params r.pager none = .ok q ∧
        db.execute d q.sql q.binds = .ok rows ∧ pageOf db d r q rows = .ok p := by
  show (skipping db d r _).1 = _ ↔ _
  simp only [skipping, execute, page, pageOf, fst_andThen, fst_compile, fst_ask, fst_total,
    fst_pure, bind_eq_ok]
  grind

/-- The page of a fetch with a cursor name. -/
theorem fetch_page_eq_ok_iff {db : Database ρ} {d : Dialect} {r : Request} {name : String}
    (hname : r.pager.cursorName = some name) {store : Store} {clock : Clock} {p : Page ρ} :
    (fetch db d r store clock).page = .ok p ↔
      ∃ v, visit db d r (usable? r name store clock.atLoad) clock.atSave = .ok v ∧
        pageOf db d r v.query v.rows = .ok p := by
  -- what the cursor is saved as does not matter for the page, only that it can be made
  simp only [fetch, hname]
  show (seeking db d r clock name _).1 = _ ↔ _
  simp only [seeking, visit, execute, page, pageOf, fst_andThen, fst_compile, fst_ask, fst_total,
    fst_pure, fst_loadUsable, fst_saveNext, bind_eq_ok, map_eq_ok, Except.ok.injEq]
  constructor
  · rintro ⟨_, rfl, q, hq, rows, hrows, ⟨⟩, ⟨next, hnext, -⟩, n, hn, hp⟩
    exact ⟨{ query := q, rows, next }, ⟨q, hq, rows, hrows, next, hnext, rfl⟩, n, hn, hp⟩
  · rintro ⟨_, ⟨q, hq, rows, hrows, next, hnext, rfl⟩, n, hn, hp⟩
    exact ⟨_, rfl, q, hq, rows, hrows, (), ⟨next, hnext, trivial⟩, n, hn, hp⟩

namespace Fetch

/-- The cursor that a fetch starts at, if it uses one. -/
def cursor? (r : Request) (store : Store) (clock : Clock) : Option Cursor :=
  r.pager.cursorName.bind fun name => usable? r name store clock.atLoad

theorem cursor?_of_named {r : Request} {name : String} (h : r.pager.cursorName = some name)
    (store : Store) (clock : Clock) : cursor? r store clock = usable? r name store clock.atLoad := by
  rw [cursor?, h, Option.bind_some]

/-- What a fetch saves: the cursor of its visit, under the name that the pager gives. -/
def saving? (db : Database ρ) (d : Dialect) (r : Request) (store : Store) (clock : Clock) :
    Option (String × Cursor) :=
  r.pager.cursorName.bind fun name =>
    (visit db d r (cursor? r store clock) clock.atSave).toOption.bind fun v =>
      v.next.map fun c => (name, c)

/-- A fetch saves what its visit keeps, under the name of its pager. -/
theorem saving?_eq_some {db : Database ρ} {d : Dialect} {r : Request} {store : Store}
    {clock : Clock} {name : String} {c : Cursor} :
    saving? db d r store clock = some (name, c) ↔
      r.pager.cursorName = some name ∧
        ∃ v, visit db d r (cursor? r store clock) clock.atSave = .ok v ∧ v.next = some c := by
  simp only [saving?, Option.bind_eq_some_iff, Option.map_eq_some_iff, Prod.mk.injEq]
  constructor
  · rintro ⟨name', hname, v, hv, c', hc, rfl, rfl⟩
    refine ⟨hname, v, ?_, hc⟩
    -- only a visit that succeeds keeps a cursor
    cases hvisit : visit db d r (cursor? r store clock) clock.atSave with
    | error e => simp [hvisit, Except.toOption] at hv
    | ok v' =>
      rw [hvisit] at hv
      cases hv
      rfl
  · rintro ⟨hname, v, hv, hc⟩
    exact ⟨name, hname, v, by rw [hv]; rfl, c, hc, rfl, rfl⟩

end Fetch

/-- A fetch changes the store by what it saves and by nothing else. -/
theorem fetch_store (db : Database ρ) (d : Dialect) (r : Request) (store : Store) (clock : Clock) :
    (fetch db d r store clock).store =
      (saving? db d r store clock).elim store fun (name, c) => store.save name c := by
  cases hname : r.pager.cursorName with
  | none =>
    rw [fetch_store_of_unnamed db d r store clock hname, saving?, hname]
    rfl
  | some name =>
    rw [saving?, cursor?_of_named hname, hname, Option.bind_some]
    simp only [fetch, hname]
    show (seeking db d r clock name _).2.store = _
    -- only the step that saves touches the store, and what comes after it keeps that
    unfold seeking visit
    rw [store_andThen, fst_loadUsable]
    dsimp only
    rw [store_andThen, fst_compile]
    cases hq : Query.compile d r.sql r.order r.params r.pager
        (usable? r name store clock.atLoad) with
    | error e => exact (keeps_compile _ _ _ _).trans (store_loadUsable _ _ _ _)
    | ok q =>
      dsimp only
      rw [store_andThen]
      cases hrows : db.execute d q.sql q.binds with
      | error e =>
        simp only [execute, fst_ask, hrows, bind, Except.bind]
        exact (keeps_ask _ _ _).trans ((keeps_compile _ _ _ _).trans (store_loadUsable _ _ _ _))
      | ok rows =>
        simp only [execute, fst_ask, hrows]
        -- here it is written to, if there is a cursor to keep
        rw [store_andThen, fst_saveNext, store_saveNext]
        cases hkept : kept db r q.window rows clock.atSave with
        | error e =>
          simp only [bind, Except.bind, hrows, hkept, Except.map]
          exact (keeps_ask _ _ _).trans ((keeps_compile _ _ _ _).trans (store_loadUsable _ _ _ _))
        | ok next =>
          simp only [Except.map]
          rw [keeps_finish, store_saveNext, hkept, keeps_ask, keeps_compile, store_loadUsable]
          simp only [bind, Except.bind, hrows, hkept, Except.toOption, Option.bind_some]
          cases next <;> rfl

/-- A fetch with a cursor name changes the store, if at all, by the cursor of its
visit. -/
theorem fetch_store_of_named {db : Database ρ} {d : Dialect} {r : Request} {name : String}
    (hname : r.pager.cursorName = some name) (store : Store) (clock : Clock) :
    (fetch db d r store clock).store = store ∨
      ∃ v c, visit db d r (usable? r name store clock.atLoad) clock.atSave = .ok v ∧
        v.next = some c ∧ (fetch db d r store clock).store = store.save name c := by
  rw [fetch_store]
  cases hsaving : saving? db d r store clock with
  | none => exact .inl rfl
  | some x =>
    obtain ⟨name', c⟩ := x
    obtain ⟨hname', v, hv, hc⟩ := saving?_eq_some.mp hsaving
    -- what is saved goes under the name of the pager
    obtain rfl := Option.some.inj (hname.symm.trans hname')
    rw [cursor?_of_named hname] at hv
    exact .inr ⟨v, c, hv, hc, rfl⟩

/-! ## Calls -/

namespace Fetch

variable {α β : Type}

/-- A step that takes no call back. -/
def Grows (step : Step α) : Prop := ∀ p, p.calls <+: (step p).2.calls

theorem Grows.pure (result : Except PageError α) : Grows (Step.pure result) :=
  fun _ => List.prefix_rfl

/-- Two steps that take no call back take none back one after the other. -/
theorem Grows.andThen {step : Step α} {next : α → Step β} (h : Grows step)
    (hn : ∀ a, Grows (next a)) : Grows (step >>= next) := by
  intro p
  show p.calls <+: (Step.andThen step next p).2.calls
  have hfirst := h p
  unfold Step.andThen
  -- a second step only adds to the calls, and after a failure there is none
  split
  · next a p' hs =>
    rw [hs] at hfirst
    exact hfirst.trans (hn a p')
  · next e p' hs =>
    rw [hs] at hfirst
    exact hfirst

theorem grows_ask (call : Call) (answer : Except PageError α) : Grows (ask call answer) :=
  fun _ => List.prefix_append _ _

theorem grows_saveNext (db : Database ρ) (r : Request) (name : String) (w : Window)
    (rows : List ρ) (now : Calendar.DateTime) : Grows (saveNext db r name w rows now) := by
  intro p
  unfold saveNext
  cases boundary? r w rows with
  | none => exact List.prefix_rfl
  | some row =>
    dsimp only
    cases Cursor.create r.order (r.pager.next 1) (db.column row) none now <;>
      exact List.prefix_rfl

theorem grows_finish (db : Database ρ) (d : Dialect) (r : Request) (q : Query) (rows : List ρ) :
    Grows (total db d r >>= fun n => page rows q.window n) := by
  refine Grows.andThen ?_ fun _ => Grows.pure _
  unfold total
  split
  · exact (Grows.pure _).andThen fun _ => (grows_ask _ _).andThen fun _ => Grows.pure _
  · exact Grows.pure _

/-- A query that compiles is the first thing the database is asked for, whatever comes
of it. -/
theorem calls_of_compile {db : Database ρ} {d : Dialect} {r : Request} {cursor : Option Cursor}
    {q : Query} (hq : Query.compile d r.sql r.order r.params r.pager cursor = .ok q)
    {next : Query → List ρ → Step (Page ρ)} (hnext : ∀ q rows, Grows (next q rows)) {p : Progress}
    (hp : p.calls = []) :
    ∃ more, ((compile d r cursor >>= fun q => execute db d q >>= next q) p).2.calls =
      .execute d q.sql q.binds :: more := by
  have hcompiled : (compile d r cursor p).1 = .ok q := by rw [fst_compile, hq]
  have hcalls : (compile d r cursor p).2.calls = [] := by
    rw [← hp]
    simp only [compile, hq]
    rfl
  -- compiling does not fail, so that the step behind it is taken
  have hasked : (compile d r cursor >>= fun q => execute db d q >>= next q) p =
      (execute db d q >>= next q) (compile d r cursor p).2 := by
    show Step.andThen _ _ p = _
    unfold Step.andThen
    split
    · next a p' hs =>
      rw [hs] at hcompiled
      cases hcompiled
      rw [hs]
    · next e p' hs =>
      rw [hs] at hcompiled
      cases hcompiled
  rw [hasked]
  generalize (compile d r cursor p).2 = p' at hcalls
  -- after the query has been executed the calls only grow
  have hprefix : [.execute d q.sql q.binds] <+: ((execute db d q >>= next q) p').2.calls := by
    show _ <+: (Step.andThen (execute db d q) (next q) p').2.calls
    unfold Step.andThen execute ask
    rw [hcalls, List.nil_append]
    split
    · next rows p'' hs =>
      obtain ⟨-, rfl⟩ := Prod.mk.inj hs
      exact hnext q rows ⟨p'.store, [.execute d q.sql q.binds], p'.events⟩
    · next e p'' hs =>
      obtain ⟨-, rfl⟩ := Prod.mk.inj hs
      exact List.prefix_rfl
  obtain ⟨more, hmore⟩ := hprefix
  exact ⟨more, hmore.symm⟩

/-- Where a query does not compile, its error is all that comes of the step, and of the
steps behind it. -/
theorem andThen_of_compile_error {d : Dialect} {r : Request} {cursor : Option Cursor}
    {e : PageError} (he : Query.compile d r.sql r.order r.params r.pager cursor = .error e)
    (next : Query → Step α) (p : Progress) :
    (compile d r cursor >>= next) p = (.error e, p) := by
  have hcompile : compile d r cursor p = (.error e, p) := by
    simp only [compile, he]
    rfl
  show Step.andThen (compile d r cursor) next p = _
  unfold Step.andThen
  rw [hcompile]

/-- Loading a cursor does not fail and asks the database nothing. -/
theorem exists_loadUsable (r : Request) (name : String) (now : Calendar.DateTime) (p : Progress) :
    ∃ p', loadUsable r name now p = (.ok (usable? r name p.store now), p') ∧
      p'.calls = p.calls := by
  refine ⟨(loadUsable r name now p).2, Prod.ext (fst_loadUsable r name now p) rfl, ?_⟩
  unfold loadUsable
  dsimp only
  split <;> rfl

end Fetch

/-- Where the query of a request compiles with the cursor that a fetch starts at, that
is the query which the fetch executes. -/
theorem fetch_calls {db : Database ρ} {d : Dialect} {r : Request} {store : Store} {clock : Clock}
    {q : Query}
    (hq : Query.compile d r.sql r.order r.params r.pager (cursor? r store clock) = .ok q) :
    ∃ more, (fetch db d r store clock).calls = .execute d q.sql q.binds :: more := by
  cases hname : r.pager.cursorName with
  | none =>
    rw [cursor?, hname, Option.bind_none] at hq
    simp only [fetch, hname]
    exact calls_of_compile hq (fun q rows => grows_finish db d r q rows) rfl
  | some name =>
    rw [cursor?_of_named hname] at hq
    simp only [fetch, hname]
    show ∃ more, (seeking db d r clock name _).2.calls = _
    unfold seeking
    -- loading asks the database nothing
    obtain ⟨p, hload, hcalls⟩ := exists_loadUsable r name clock.atLoad { store }
    show ∃ more, (Step.andThen _ _ _).2.calls = _
    unfold Step.andThen
    rw [hload]
    exact calls_of_compile hq
      (fun q rows => (grows_saveNext _ _ _ _ _ _).andThen fun _ => grows_finish db d r q rows)
      hcalls

/-- Where it does not compile, the fetch fails with the same error and asks the database
nothing. -/
theorem fetch_of_error {db : Database ρ} {d : Dialect} {r : Request} {store : Store}
    {clock : Clock} {e : PageError}
    (he : Query.compile d r.sql r.order r.params r.pager (cursor? r store clock) = .error e) :
    (fetch db d r store clock).page = .error e ∧ (fetch db d r store clock).calls = [] := by
  cases hname : r.pager.cursorName with
  | none =>
    rw [cursor?, hname, Option.bind_none] at he
    -- compiling is the first step, so the fetch stops before it has asked anything
    have hstop : skipping db d r { store } = (.error e, { store }) :=
      andThen_of_compile_error he _ _
    simp only [fetch, hname, fetchSkipping, run, hstop, and_self]
  | some name =>
    rw [cursor?_of_named hname] at he
    -- the cursor is loaded first, and the fetch stops behind that
    obtain ⟨p, hload, hcalls⟩ := exists_loadUsable r name clock.atLoad { store }
    have hstop : seeking db d r clock name { store } = (.error e, p) := by
      show Step.andThen _ _ _ = _
      unfold Step.andThen
      rw [hload]
      exact andThen_of_compile_error he _ _
    simp only [fetch, hname, run, hstop, hcalls, and_self]

end SqlPaging
