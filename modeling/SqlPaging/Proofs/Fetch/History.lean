import SqlPaging.Proofs.Fetch.Refinement
import SqlPaging.Proofs.Keyset.Boundary

/-!
# SqlPaging — where a stored cursor comes from

Requests in turn share a store that is empty at first. Each may have a statement, an
order and a pager of its own. What the store holds under a name is then the last
cursor that was saved under it (`get?_storeAfter`), and a cursor carries the pager of
the page it starts and the expressions of the order it was made in. It does not carry
their directions, and whether it is used does not depend on them.

Main results:

* `get?_storeAfter` — the store holds what was saved last.
* `cursor_iff_saved_last` — when a fetch starts at a stored cursor, and at which one.
* `seeks_against_direction` — a page that is asked for in the reverse order starts at
  the cursor of the order.
-/

namespace SqlPaging

open Sql (firsts)

namespace Fetch

variable {ρ : Type}

/-! ## Histories -/

/-- The store that requests leave, fetched one after the other. -/
def storeAfter (db : Database ρ) (d : Dialect) : Store → List (Request × Clock) → Store
  | store, [] => store
  | store, (r, clock) :: rest => storeAfter db d (fetch db d r store clock).store rest

/-- A cursor that was saved, with its name and the request it was saved for. -/
structure Saving where
  request : Request
  name : String
  cursor : Cursor

/-- What is saved for requests, fetched one after the other. -/
def savings (db : Database ρ) (d : Dialect) : Store → List (Request × Clock) → List Saving
  | _, [] => []
  | store, (r, clock) :: rest =>
    ((saving? db d r store clock).map fun (name, c) => ⟨r, name, c⟩).toList ++
      savings db d (fetch db d r store clock).store rest

/-- The last one that was saved under a name. -/
def savedLast? (ss : List Saving) (name : String) : Option Saving :=
  ss.reverse.find? (·.name == name)

/-- What was saved later under a name comes first. -/
theorem savedLast?_append (ss more : List Saving) (name : String) :
    savedLast? (ss ++ more) name = (savedLast? more name).or (savedLast? ss name) := by
  rw [savedLast?, List.reverse_append, List.find?_append]
  rfl

variable {db : Database ρ} {d : Dialect}

/-- One fetch: under a name there is what was saved under it, or what was there. -/
theorem get?_fetch (r : Request) (store : Store) (clock : Clock) (name : String) :
    (fetch db d r store clock).store.entries.get? name =
      ((savedLast? ((saving? db d r store clock).map fun (name, c) => Saving.mk r name c).toList
        name).map (·.cursor)).or (store.entries.get? name) := by
  rw [fetch_store]
  cases saving? db d r store clock with
  | none => rfl
  | some x =>
    obtain ⟨name', c⟩ := x
    -- what is saved now hides what was there under the name
    by_cases hname : name' = name
    · subst hname
      simp [savedLast?, Store.save]
    · simp [savedLast?, Store.save, hname, Fields.get?_set_of_ne _ _ (Ne.symm hname)]

/-- After requests in turn, under a name there is what was saved last under it. -/
theorem get?_storeAfter (store : Store) (requests : List (Request × Clock)) (name : String) :
    (storeAfter db d store requests).entries.get? name =
      ((savedLast? (savings db d store requests) name).map (·.cursor)).or
        (store.entries.get? name) := by
  -- the induction is on the requests: what a later one saves comes before what it found
  induction requests generalizing store with
  | nil => rfl
  | cons request rest ih =>
    obtain ⟨r, clock⟩ := request
    rw [storeAfter, ih, savings, savedLast?_append, get?_fetch]
    cases savedLast? (savings db d (fetch db d r store clock).store rest) name <;> rfl

/-- Requests do not change how long cursors live. -/
theorem lifetime_storeAfter (store : Store) (requests : List (Request × Clock)) :
    (storeAfter db d store requests).lifetime = store.lifetime := by
  induction requests generalizing store with
  | nil => rfl
  | cons request rest ih =>
    obtain ⟨r, clock⟩ := request
    rw [storeAfter, ih, fetch_store]
    cases saving? db d r store clock <;> rfl

/-- What is saved was made of a row, for the page after that of its request and in its
order. -/
theorem create_of_saving {r : Request} {store : Store} {clock : Clock} {name : String} {c : Cursor}
    (h : saving? db d r store clock = some (name, c)) :
    r.pager.cursorName = some name ∧
      ∃ row, Cursor.create r.order (r.pager.next 1) row none clock.atSave = .ok c := by
  obtain ⟨hname, v, hv, hnext⟩ := saving?_eq_some.mp h
  obtain ⟨-, -, hkept⟩ := visit_eq_ok_iff.mp hv
  rw [hnext] at hkept
  obtain ⟨row, -, hcreate⟩ := kept_eq_some_iff.mp hkept
  exact ⟨hname, _, hcreate⟩

/-- What was saved belongs to one of the requests, for the page after its own and for its
order. -/
theorem saving_of_mem {store : Store} {requests : List (Request × Clock)} {s : Saving}
    (h : s ∈ savings db d store requests) :
    (∃ clock, (s.request, clock) ∈ requests) ∧ s.cursor.pager = s.request.pager.next 1 ∧
      s.cursor.values.keys = firsts s.request.order.expressions := by
  induction requests generalizing store with
  | nil => cases h
  | cons request rest ih =>
    obtain ⟨r, clock⟩ := request
    rw [savings, List.mem_append] at h
    rcases h with h | h
    · -- the cursor was saved by the first request
      simp only [Option.mem_toList, Option.map_eq_some_iff] at h
      obtain ⟨⟨name, c⟩, hsaving, rfl⟩ := h
      obtain ⟨-, row, hcreate⟩ := create_of_saving hsaving
      obtain ⟨-, pairs, -, hc⟩ := Cursor.create_eq_ok_iff.mp hcreate
      exact ⟨⟨clock, List.mem_cons_self⟩, congrArg Cursor.pager hc, Cursor.keys_of_create hcreate⟩
    · obtain ⟨⟨clock', hmem⟩, hs⟩ := ih h
      exact ⟨⟨clock', List.mem_cons_of_mem _ hmem⟩, hs⟩

/-- The last saving under a name is one of the savings, under that name. -/
theorem mem_of_savedLast? {ss : List Saving} {name : String} {s : Saving}
    (h : savedLast? ss name = some s) : s ∈ ss ∧ s.name = name := by
  have hname := List.find?_some h
  exact ⟨List.mem_reverse.mp (List.mem_of_find?_eq_some h), by simpa using hname⟩

/-! ## The use of a cursor -/

/-- A fetch starts at a cursor just if one is stored under its name that has not expired and
was made for the page. -/
theorem cursor?_eq_some {r : Request} {store : Store} {clock : Clock} {c : Cursor} :
    cursor? r store clock = some c ↔
      ∃ name, r.pager.cursorName = some name ∧ store.entries.get? name = some c ∧
        c.expiredAt clock.atLoad store.lifetime = false ∧ isUsable c r = true := by
  simp only [cursor?, usable?, Store.load?, Store.isExpired, Option.bind_eq_some_iff,
    Option.filter_eq_some_iff, Bool.not_eq_true', and_assoc]

/-- Whether a cursor is used depends on the expressions of an order and not on their
directions. -/
theorem cursor?_congr {r : Request} {order : Order} (h : order.expressions = r.order.expressions)
    (store : Store) (clock : Clock) :
    cursor? { r with order } store clock = cursor? r store clock := by
  simp only [cursor?, usable?, isUsable, Cursor.fits, h]

/-- A fetch that starts at no cursor skips the rows before its page. -/
theorem skipping_of_cursor?_none {r : Request} {store : Store} {clock : Clock}
    (h : cursor? r store clock = none) {p : Page ρ}
    (hp : (fetch db d r store clock).page = .ok p) : (fetchSkipping db d r store).page = .ok p := by
  cases hname : r.pager.cursorName with
  | none =>
    simp only [fetch, hname] at hp
    exact hp
  | some name =>
    obtain ⟨v, hv, hpage⟩ := (fetch_page_eq_ok_iff hname).mp hp
    -- nothing that could be used was loaded, so the visit skips rows
    rw [← cursor?_of_named hname, h] at hv
    obtain ⟨hq, hrows, -⟩ := visit_eq_ok_iff.mp hv
    exact fetchSkipping_page_eq_ok_iff.mpr ⟨v.query, v.rows, hq, hrows, hpage⟩

end Fetch

open Fetch

/-- After requests in turn, a fetch starts at a stored cursor just if the last request
that saved one under its name did so for the page before, with a pager and the
expressions of an order that agree, and the cursor has not expired. That is the cursor
which its query is compiled with. The directions of the order play no part. -/
theorem cursor_iff_saved_last {ρ : Type} (db : Database ρ) (d : Dialect) (lifetime : Nat)
    (earlier : List (Request × Clock)) (r : Request) (clock : Clock) :
    let store := storeAfter db d (.empty lifetime) earlier
    (∀ c, cursor? r store clock = some c ↔
      ∃ name s, r.pager.cursorName = some name ∧
        savedLast? (savings db d (.empty lifetime) earlier) name = some s ∧ s.cursor = c ∧
        (∃ before, (s.request, before) ∈ earlier) ∧
        s.request.pager.agrees r.pager = true ∧ (s.request.pager.next 1).page = r.pager.page ∧
        firsts s.request.order.expressions = r.order.expressions ∧
        c.expiredAt clock.atLoad lifetime = false) ∧
    (∀ q, Query.compile d r.sql r.order r.params r.pager (cursor? r store clock) = .ok q →
      ∃ more, (fetch db d r store clock).calls = .execute d q.sql q.binds :: more) ∧
    (cursor? r store clock = none →
      ∀ p, (fetch db d r store clock).page = .ok p → (fetchSkipping db d r store).page = .ok p) ∧
    ∀ order : Order, order.expressions = r.order.expressions →
      cursor? { r with order } store clock = cursor? r store clock := by
  intro store
  refine ⟨fun c => ?_, fun q => fetch_calls, fun h p => skipping_of_cursor?_none h,
    fun order h => cursor?_congr h store clock⟩
  -- what the store holds is what was saved last, and what that carries is compared
  have hget : ∀ name, store.entries.get? name =
      (savedLast? (savings db d (.empty lifetime) earlier) name).map (·.cursor) := by
    intro name
    rw [get?_storeAfter]
    exact Option.or_none
  have husable : ∀ {name s}, savedLast? (savings db d (.empty lifetime) earlier) name = some s →
      (isUsable s.cursor r = true ↔ s.request.pager.agrees r.pager = true ∧
        (s.request.pager.next 1).page = r.pager.page ∧
        firsts s.request.order.expressions = r.order.expressions) := by
    intro name s hs
    -- what was saved is the cursor of the request that saved it, with its pager and its keys
    obtain ⟨-, hpager, hkeys⟩ := saving_of_mem (mem_of_savedLast? hs).1
    rw [isUsable, Cursor.fits, hpager, hkeys, Bool.and_eq_true, Bool.and_eq_true, beq_iff_eq,
      beq_iff_eq, and_assoc]
    rfl
  rw [cursor?_eq_some, lifetime_storeAfter]
  constructor
  · rintro ⟨name, hname, hc, hfresh, hc'⟩
    rw [hget, Option.map_eq_some_iff] at hc
    obtain ⟨s, hs, rfl⟩ := hc
    obtain ⟨hagrees, hpage, hfits⟩ := (husable hs).mp hc'
    exact ⟨name, s, hname, hs, rfl, (saving_of_mem (mem_of_savedLast? hs).1).1, hagrees, hpage,
      hfits, hfresh⟩
  · rintro ⟨name, s, hname, hs, rfl, -, hagrees, hpage, hfits, hfresh⟩
    refine ⟨name, hname, ?_, hfresh, (husable hs).mpr ⟨hagrees, hpage, hfits⟩⟩
    rw [hget, hs, Option.map_some]

/-- A fetch that takes no time. -/
def atOnce : Clock := ⟨default, default⟩

/-- A request for the first person. -/
def firstPerson : Request := peopleBase.request (Pager.make 1 1 0 false (some "people"))

/-- A request for the second person in the reverse order. -/
def secondPersonTurned : Request :=
  { firstPerson with
    order := firstPerson.order.reversed
    pager := Pager.make 2 1 0 false (some "people") }

/-- The store after the first person was fetched. -/
def firstPersonStore : Store :=
  storeAfter peopleDatabase .sqlite (.empty 60000) [(firstPerson, atOnce)]

/-- The cursor that was saved with the first person is used in the reverse order. -/
theorem cursor_iff_saved_last_of_people :
    ∃ c, cursor? secondPersonTurned firstPersonStore atOnce = some c ∧
      ∃ name s, secondPersonTurned.pager.cursorName = some name ∧
        savedLast? (savings peopleDatabase .sqlite (.empty 60000) [(firstPerson, atOnce)]) name =
          some s ∧ s.cursor = c ∧ (∃ before, (s.request, before) ∈ [(firstPerson, atOnce)]) ∧
        s.request.pager.agrees secondPersonTurned.pager = true ∧
        (s.request.pager.next 1).page = secondPersonTurned.pager.page ∧
        firsts s.request.order.expressions = secondPersonTurned.order.expressions ∧
        c.expiredAt atOnce.atLoad 60000 = false := by
  -- the first request has left a cursor that the second one can use
  obtain ⟨c, hc⟩ : ∃ c, cursor? secondPersonTurned firstPersonStore atOnce = some c :=
    Option.isSome_iff_exists.mp (by decide +kernel)
  exact ⟨c, hc, ((cursor_iff_saved_last peopleDatabase .sqlite 60000 [(firstPerson, atOnce)]
    secondPersonTurned atOnce).1 c).mp hc⟩

/-- The texts that a database is asked to execute. -/
def executed (calls : List Call) : List String :=
  calls.filterMap fun
    | .execute _ sql _ => some sql
    | .count .. => none

/-- Where the directions of the order are turned round between two pages, the second
one starts at the cursor of the first one, which was saved in no order of its own. It
then shows another row than skipping does. -/
theorem seeks_against_direction :
    (∀ x ∈ [(firstPerson, atOnce)], x.1.order ≠ secondPersonTurned.order) ∧
    (cursor? secondPersonTurned firstPersonStore atOnce).isSome = true ∧
    executed (fetch peopleDatabase .sqlite secondPersonTurned firstPersonStore atOnce).calls =
      ["SELECT id FROM people WHERE ((gender = :cursor__0 AND id <= :cursor__1) OR " ++
        "(gender > :cursor__0)) ORDER BY gender ASC, id DESC LIMIT 2 OFFSET 0"] ∧
    (fetch peopleDatabase .sqlite secondPersonTurned firstPersonStore atOnce).page.toOption.map
      (·.items) = some [(2, 25)] ∧
    (fetchSkipping peopleDatabase .sqlite secondPersonTurned firstPersonStore).page.toOption.map
      (·.items) = some [(1, 10)] := by
  -- in one evaluation, so that all parts share the store and the page
  decide +kernel

end SqlPaging
