import SqlPaging.Proofs.Except
import SqlPaging.Proofs.Window.Extent
import SqlPaging.Query

/-!
# SqlPaging — the parts of a query

A query is compiled step by step, and each step can fail. What a compiled query
consists of is read off the steps once, here. The only step that knows of a cursor
is the one in the middle: it gives the draft with the condition, the window and the
order, and a query that skips rows takes all other steps alike.

Main results:

* `compile_eq_ok_iff` — the steps of a query that was compiled.
* `seeking_eq_ok_iff` — what a cursor adds.
* `compile_skipping_of_compile` — where a cursor gives a query, so does skipping.
-/

namespace SqlPaging

namespace Query

open Sql (Draft Statement)

/-- The part of a query that is about its cursor. -/
def seekFor (d : Dialect) (s : Statement) (order : Order) (own : Binds) (pager : Pager)
    (draft : Draft) : Option Cursor → Except PageError Seek
  | none => skipping order pager draft
  | some c => seeking d s order own pager c draft

/-- Skipping needs a window, and puts nothing into the draft. -/
theorem skipping_eq_ok_iff {order : Order} {pager : Pager} {draft : Draft} {seek : Seek} :
    skipping order pager draft = .ok seek ↔
      ∃ w, Window.offsetMode pager.page pager.size pager.eachSide = .ok w ∧
        seek = { draft, binds := [], window := w, order } := by
  rw [skipping, bind_eq_ok]
  simp only [mapError_eq_ok, Except.ok.injEq]
  grind

/-- A cursor adds its predicate to the condition, and its binds and its window. -/
theorem seeking_eq_ok_iff {d : Dialect} {s : Statement} {order : Order} {own : Binds}
    {pager : Pager} {c : Cursor} {draft : Draft} {seek : Seek} :
    seeking d s order own pager c draft = .ok seek ↔
      checkReserved s own = .ok () ∧
        ∃ k draft' w, Keyset.ofCursor d order c = .ok k ∧
          Draft.addCondition s (Keyset.grouped k.predicate).toList draft = .ok draft' ∧
          Window.keysetMode pager.page pager.size c.eachSide c.direction = .ok w ∧
          seek = { draft := draft', binds := k.binds, window := w,
                   order := if c.direction = .prev then order.reversed else order } := by
  rw [seeking]
  -- each step gives a result, and the next one starts from it
  simp only [bind_eq_ok, mapError_eq_ok, Except.ok.injEq]
  constructor
  · rintro ⟨⟨⟩, hfree, k, hk, draft', hdraft, w, hw, rfl⟩
    exact ⟨hfree, k, draft', w, hk, hdraft, hw, rfl⟩
  · rintro ⟨hfree, k, draft', w, hk, hdraft, hw, rfl⟩
    exact ⟨(), hfree, k, hk, draft', hdraft, w, hw, rfl⟩

/-- A tail is added just if it has a place, and behind the token there. -/
theorem addTail_eq_ok_iff {s : Statement} {order : Order} {w : Window} {draft draft' : Draft} :
    addTail s order w draft = .ok draft' ↔
      ∃ i, s.tailIndex = .ok i ∧ draft' = draft.putAfter i (tail order w) := by
  unfold addTail
  cases s.tailIndex with
  | error fault => simp
  | ok i => simp [eq_comm]

/-- The steps of compiling a query, of which one is about the cursor. -/
theorem compile_eq_steps (d : Dialect) (sql : String) (order : Order) (params : Params)
    (pager : Pager) (cursor : Option Cursor) :
    compile d sql order params pager cursor = (do
      let n ← (normalize d params).mapError .normalize
      let s ← parse d sql
      (s.ensurePageable !order.isEmpty).mapError .insertionPoint
      let draft ← expand s n
      let seek ← seekFor d s order n.binds pager draft cursor
      let draft ← addTail s seek.order seek.window seek.draft
      .ok { sql := String.ofList draft.text, binds := n.binds ++ seek.binds,
            window := seek.window }) := by
  cases cursor <;> rfl

/-- The steps of a query that was compiled. -/
theorem compile_eq_ok_iff {d : Dialect} {sql : String} {order : Order} {params : Params}
    {pager : Pager} {cursor : Option Cursor} {q : Query} :
    compile d sql order params pager cursor = .ok q ↔
      ∃ n s draft seek i, normalize d params = .ok n ∧ parse d sql = .ok s ∧
        s.ensurePageable (!order.isEmpty) = .ok () ∧ expand s n = .ok draft ∧
        seekFor d s order n.binds pager draft cursor = .ok seek ∧ s.tailIndex = .ok i ∧
        q = { sql := String.ofList (seek.draft.putAfter i (tail seek.order seek.window)).text
              binds := n.binds ++ seek.binds
              window := seek.window } := by
  rw [compile_eq_steps]
  -- each step gives a result, and the next one starts from it
  simp only [bind_eq_ok, mapError_eq_ok, addTail_eq_ok_iff, Except.ok.injEq]
  constructor
  · rintro ⟨n, hn, s, hs, ⟨⟩, hpage, draft, hdraft, seek, hseek, -, ⟨i, hi, rfl⟩, rfl⟩
    exact ⟨n, s, draft, seek, i, hn, hs, hpage, hdraft, hseek, hi, rfl⟩
  · rintro ⟨n, s, draft, seek, i, hn, hs, hpage, hdraft, hseek, hi, rfl⟩
    exact ⟨n, hn, s, hs, (), hpage, draft, hdraft, seek, hseek, _, ⟨i, hi, rfl⟩, rfl⟩

/-- Where a cursor gives a query and the rows before the page can be counted with 64
bits, skipping those rows gives a query too. -/
theorem compile_skipping_of_compile {d : Dialect} {sql : String} {order : Order}
    {params : Params} {pager : Pager} {cursor : Option Cursor} {q : Query} {w : Window}
    (h : compile d sql order params pager cursor = .ok q)
    (hw : Window.offsetMode pager.page pager.size pager.eachSide = .ok w) :
    ∃ q', compile d sql order params pager none = .ok q' ∧ q'.window = w := by
  obtain ⟨n, s, draft, -, i, hn, hs, hpage, hdraft, -, hi, -⟩ := compile_eq_ok_iff.mp h
  have hseek : seekFor d s order n.binds pager draft none =
      .ok { draft, binds := [], window := w, order } :=
    skipping_eq_ok_iff.mpr ⟨w, hw, rfl⟩
  exact ⟨_, compile_eq_ok_iff.mpr ⟨n, s, draft, _, i, hn, hs, hpage, hdraft, hseek, hi, rfl⟩, rfl⟩

/-- What passes the check leaves the names of cursor parameters free. -/
theorem not_reserved_of_checkReserved {s : Statement} {own : Binds}
    (h : checkReserved s own = .ok ()) :
    ∀ name ∈ own.names ++ s.tokens.filterMap (·.placeholder?),
      Keyset.isReserved name = false := by
  unfold checkReserved at h
  split at h
  · cases h
  · next hnone =>
    rw [List.find?_eq_none] at hnone
    exact fun name hname => by simpa using hnone name hname

/-- Binds that pass the check have names that are free. -/
theorem free_of_checkReserved {s : Statement} {own : Binds} (h : checkReserved s own = .ok ()) :
    ∀ b ∈ own, Keyset.isReserved b.name = false := by
  intro b hb
  exact not_reserved_of_checkReserved h b.name
    (List.mem_append_left _ (List.mem_map_of_mem hb))

/-- A query with a cursor has the window of a seek, and the cursor's binds come after
binds that leave their names free. -/
theorem compile_seeking {d : Dialect} {sql : String} {order : Order} {params : Params}
    {pager : Pager} {c : Cursor} {q : Query}
    (h : compile d sql order params pager (some c) = .ok q) :
    ∃ k own, Keyset.ofCursor d order c = .ok k ∧
      Window.keysetMode pager.page pager.size c.eachSide c.direction = .ok q.window ∧
      q.binds = own ++ k.binds ∧ ∀ b ∈ own, Keyset.isReserved b.name = false := by
  obtain ⟨n, s, draft, seek, i, -, -, -, -, hseek, -, rfl⟩ := compile_eq_ok_iff.mp h
  obtain ⟨hfree, k, draft', w, hk, -, hw, rfl⟩ := seeking_eq_ok_iff.mp hseek
  exact ⟨k, n.binds, hk, hw, rfl, free_of_checkReserved hfree⟩

/-- The window of a query has the rows of a page as the pager has them, with a cursor or without. -/
theorem size_of_compile {d : Dialect} {sql : String} {order : Order} {params : Params}
    {pager : Pager} {cursor : Option Cursor} {q : Query}
    (h : compile d sql order params pager cursor = .ok q) : q.window.size = pager.size := by
  cases cursor with
  | none => exact (Window.skips_of_offsetMode (compile_window h) pager.page_pos).size_eq
  | some c =>
    obtain ⟨k, own, -, hw, -, -⟩ := compile_seeking h
    obtain ⟨limit, hwindow, -⟩ := Window.keysetMode_eq_ok_iff.mp hw
    rw [hwindow]

end Query

end SqlPaging
