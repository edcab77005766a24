import SqlPaging.Proofs.Page.Positions

/-!
# SqlPaging — the page before

A cursor that was made of the first row of a page leads back to the page before it, if
it is turned round. Its condition asks for the rows in front of the boundary row, and
the emitted order lists them backwards, so that the nearest ones come first. They are
cut at the size of a page and then turned, which gives the rows of the page before in
their own order.

Main results:

* `sorted_reversed` — the reversed order sorts the rows backwards.
* `answer_of_back` — the rows of a query that walks back from a row.
* `ofWindow_reversed` — the page of the rows of such a query.
* `previous_page_exact` — the page before is that of skipping.
-/

namespace SqlPaging

namespace Table

variable {ρ α : Type} [DecidableEq α] (t : Table ρ α)

/-! ## Sorting backwards -/

omit [DecidableEq α] in
/-- A row has the same key in an order that is turned round. -/
theorem key_reversed (order : Order) (r : ρ) : t.key order.reversed r = t.key order r := by
  rw [key, key, Order.expressions_reversed]

/-- Turning an order round swaps which row comes first. -/
theorem comesBefore_reversed (order : Order) (r s : ρ) :
    t.comesBefore order.reversed r s = t.comesBefore order s r := by
  rw [comesBefore, comesBefore, key_reversed, key_reversed, Collation.precedes_reversed]

/-- Rows with distinct keys are sorted the other way round by an order that is turned
round. -/
theorem sorted_reversed {order : Order} {rows : List ρ} (h : t.Keyed order rows) :
    t.sorted order.reversed rows = (t.sorted order rows).reverse := by
  have hkeyed : t.Keyed order.reversed rows := by
    have hkey : t.key order.reversed = t.key order := funext (t.key_reversed order)
    rw [Keyed, hkey]
    exact h
  -- strictly sorted rows are unique, and the rows turned round are sorted strictly
  symm
  apply t.eq_sorted hkeyed
  · rw [List.pairwise_reverse]
    refine (t.pairwise_sorted h).imp ?_
    intro r s hrs
    rw [comesBefore_reversed]
    exact hrs
  · exact (List.reverse_perm _).trans (t.perm_sorted order rows)

/-- In a strictly sorted list, the rows before a row are the first ones. -/
theorem filter_before {order : Order} {rows : List ρ} {k : Nat} {r : ρ}
    (hs : rows.Pairwise fun r s => t.comesBefore order r s = true) (hk : rows[k]? = some r) :
    rows.filter (fun s => t.comesBefore order s r) = rows.take k := by
  have hfrom := t.filter_from hs hk
  have hall := List.take_append_drop k rows
  -- what is not kept is what comes from the row on
  have hsplit : rows.filter (fun s => t.comesBefore order s r) =
      (rows.take k).filter (fun s => t.comesBefore order s r) := by
    conv_lhs => rw [← hall, List.filter_append]
    have hnone : (rows.drop k).filter (fun s => t.comesBefore order s r) = [] := by
      rw [← hfrom, List.filter_filter, List.filter_eq_nil_iff]
      intro s _
      simp
    rw [hnone, List.append_nil]
  rw [hsplit, List.filter_eq_self]
  intro s hmem
  obtain ⟨hlt, rfl⟩ := List.getElem?_eq_some_iff.mp hk
  obtain ⟨j, hj, rfl⟩ := List.mem_take_iff_getElem.mp hmem
  exact List.pairwise_iff_getElem.mp hs j k (by omega) hlt (by omega)

/-! ## Walking back -/

/-- A cursor that stands at the row at a place and walks back, without that row. -/
structure Back (db : Database ρ) (order : Order) (c : Cursor) (k : Nat) : Prop where
  ordered : order.items ≠ []
  direction : c.direction = .prev
  exclusive : c.inclusive = false
  width : 0 ≤ c.eachSide.toInt
  boundary : ∃ r pairs, (t.sorted order t.rows)[k]? = some r ∧
    Cursor.boundaries (db.column r) order.expressions = .ok pairs ∧
    c.values = Fields.ofPairs pairs

/-- A walk back is answered by the rows in front of the cursor, the nearest ones first. -/
theorem answer_of_back {t : Table ρ α} {db : Database ρ} {d : Dialect} {b : Base} {pager : Pager}
    {c : Cursor} {k : Nat} {q : Query} (ht : t.Stored db b.order) (hb : t.Back db b.order c k)
    (hq : Query.compile d b.sql b.order b.params pager (some c) = .ok q) :
    t.answer d b.order q (some c) =
      ((t.sorted b.order t.rows).take k).reverse.take q.window.limit.toInt.toNat := by
  obtain ⟨r, pairs, hr, hpairs, hvalues⟩ := hb.boundary
  have hmem : r ∈ t.rows := (t.perm_sorted b.order t.rows).mem_iff.mp (List.mem_of_getElem? hr)
  obtain ⟨_, _, -, hw, -, -⟩ := Query.compile_seeking hq
  obtain ⟨limit, hwindow, -⟩ := Window.keysetMode_eq_ok_iff.mp hw
  have hoffset : q.window.offset = 0 := by rw [hwindow]
  -- the condition is the strict one, as the cursor leaves its own row out
  have hadmits : ∀ s, t.admits d b.order q.binds (some c) s = t.comesBefore b.order s r := by
    intro s
    rw [Bool.eq_iff_iff, admits_iff_follows ht hb.ordered hmem hpairs hvalues hq, hb.direction,
      hb.exclusive]
    simp [Collation.follows, comesBefore]
  -- the rows come in the order turned round
  have hemitted : emitted b.order (some c) = b.order.reversed := by
    rw [emitted, if_pos hb.direction]
  have hzero : (0 : Int64).toInt.toNat = 0 := by decide
  rw [answer, hemitted, funext hadmits, t.sorted_reversed (ht.keyed.filter _),
    t.sorted_filter ht.keyed, t.filter_before (t.pairwise_sorted ht.keyed) hr, hoffset, hzero,
    List.drop_zero]

/-- The window of a query that walks back holds at least the rows of its page. -/
theorem window_of_back {t : Table ρ α} {db : Database ρ} {d : Dialect} {b : Base} {pager : Pager}
    {c : Cursor} {k : Nat} {q : Query} (hb : t.Back db b.order c k)
    (hq : Query.compile d b.sql b.order b.params pager (some c) = .ok q) :
    q.window.reversed = true ∧ q.window.page = pager.page ∧ q.window.size = pager.size ∧
      0 ≤ q.window.eachSide.toInt ∧ pager.size.toInt ≤ q.window.limit.toInt := by
  obtain ⟨_, _, -, hw, -, -⟩ := Query.compile_seeking hq
  rw [hb.direction] at hw
  obtain ⟨limit, hwindow, hlimit⟩ := Window.keysetMode_eq_ok_iff.mp hw
  have hsize := pager.size_pos
  have hpages : 1 ≤ (Window.seekPages pager.page c.eachSide .prev).toInt :=
    Pager.one_le_atLeast c.eachSide
  -- at least one page is fetched, and it fits into the limit
  have hmul := Int.mul_le_mul_of_nonneg_right hpages (show 0 ≤ pager.size.toInt by omega)
  rw [Int.one_mul] at hmul
  have hlim := (Window.probeLimit?_eq_some_iff.mp hlimit).2
  rw [hwindow]
  refine ⟨rfl, rfl, rfl, hb.width, ?_⟩
  show pager.size.toInt ≤ limit.toInt
  omega

/-- The cursor that is made of a stored row and turned round walks back from that row. -/
theorem exists_back_of_stored {t : Table ρ α} {db : Database ρ} {order : Order} {k : Nat} {r : ρ}
    (ht : t.Stored db order) (hne : order.items ≠ []) (hr : (t.sorted order t.rows)[k]? = some r)
    (pager : Pager) (eachSide : Option Int64) (now : Calendar.DateTime) :
    ∃ c, Cursor.create order pager (db.column r) eachSide now = .ok c ∧
      t.Back db order (c.withDirection .prev) k := by
  have hmem : r ∈ t.rows := (t.perm_sorted order t.rows).mem_iff.mp (List.mem_of_getElem? hr)
  obtain ⟨pairs, -, hpairs, -⟩ := boundaries_of_stored ht hmem .mySql
  have hsome : order.isEmpty = false := by
    rw [Order.isEmpty, List.isEmpty_eq_false_iff]
    exact hne
  have hcreate : Cursor.create order pager (db.column r) eachSide now = .ok _ :=
    Cursor.create_eq_ok_iff.mpr ⟨hsome, pairs, hpairs, rfl⟩
  refine ⟨_, hcreate, hne, rfl, rfl, ?_, r, pairs, hr, hpairs, rfl⟩
  -- a width of its own is lifted to zero, and that of a pager is not negative
  cases eachSide with
  | none => exact pager.eachSide_nonneg
  | some n => exact Pager.zero_le_atLeast n

end Table

/-! ## The page of a walk back -/

namespace Page

variable {ρ : Type}

/-- The page of a window that was walked back to: the page it was walked from follows. -/
def walkedTo (rows : List ρ) (w : Window) : Page ρ :=
  { items := (rows.take w.size.toInt.toNat).reverse, eachSide := w.eachSide, pageSize := w.size,
    page := w.page, total := none, lastPage := none, nextPageCount := 1 }

/-- The page of a walk back is that of the rows turned round. -/
theorem ofWindow_reversed {w : Window} (hr : w.reversed = true) (hs : 1 ≤ w.size.toInt)
    (hp : 1 ≤ w.page.toInt) (he : 0 ≤ w.eachSide.toInt) (rows : List ρ) :
    ofWindow rows w none = .ok (walkedTo rows w) := by
  have hone : atLeast 0 (1 : Int64) = 1 := by decide
  simp [ofWindow, make, walkedTo, hr, not_lt_one hs, atLeast_one_eq hs, atLeast_one_eq hp,
    atLeast_zero_eq he, hone]

/-- The positions of the rows of a full page, if they can be counted with 64 bits. -/
theorem toInt_first_last {p : Page ρ} (hp : 1 ≤ p.page.toInt) (hs : 1 ≤ p.pageSize.toInt)
    (hlen : (p.items.length : Int) = p.pageSize.toInt)
    (hfit : p.page.toInt * p.pageSize.toInt ≤ Integer.greatest) :
    p.first.toInt = (p.page.toInt - 1) * p.pageSize.toInt + 1 ∧
      p.last.toInt = p.page.toInt * p.pageSize.toInt := by
  -- a full page ends where the following one begins
  have hprod : p.page.toInt * p.pageSize.toInt =
      (p.page.toInt - 1) * p.pageSize.toInt + p.items.length := by
    rw [hlen]
    ring
  have hne : p.items ≠ [] := by
    rw [← List.length_pos_iff]
    omega
  rw [hprod] at hfit ⊢
  exact toInt_positions hp hs hne hfit

end Page

/-- Of the rows before a place, the nearest ones in their own order. -/
theorem reverse_take_nearest {ρ : Type} {rows : List ρ} {k size limit : Nat}
    (hk : k ≤ rows.length) (hlimit : size ≤ limit) (hsize : size ≤ k) :
    (((rows.take k).reverse.take limit).take size).reverse = (rows.drop (k - size)).take size := by
  have hlen : (rows.take k).length = k := by
    rw [List.length_take]
    omega
  rw [List.take_take, Nat.min_eq_left hlimit, List.take_reverse, List.reverse_reverse, hlen,
    List.drop_take, Nat.sub_sub_self hsize]

/-- A cursor is made of the first row of page `p`, with any pager and width and at any
time, and turned round. A query from it for the page before, if there is one, is
answered with rows that make that page: the rows at the positions of the page in
their own order, with the page that was left as the one that follows. -/
theorem previous_page_exact {ρ α : Type} [DecidableEq α] {t : Table ρ α} {db : Database ρ}
    {d : Dialect} {b : Base} (hs : t.Serves db d b) (ht : t.Stored db b.order)
    (hne : b.order.items ≠ []) {pager : Pager} {p : Int} (hp : 2 ≤ p)
    (hpage : pager.page.toInt = p - 1)
    (hlen : (p - 1) * pager.size.toInt < t.rows.length) (own : Pager) (eachSide : Option Int64)
    (now : Calendar.DateTime) :
    ∃ r c, (t.sorted b.order t.rows)[((p - 1) * pager.size.toInt).toNat]? = some r ∧
      Cursor.create b.order own (db.column r) eachSide now = .ok c ∧
      ∀ q, Query.compile d b.sql b.order b.params pager (some (c.withDirection .prev)) = .ok q →
        ∃ rows page, db.execute d q.sql q.binds = .ok rows ∧
          Page.ofWindow rows q.window none = .ok page ∧
          page.items = ((t.sorted b.order t.rows).drop ((p - 2) * pager.size.toInt).toNat).take
            pager.size.toInt.toNat ∧
          (page.items.length : Int) = pager.size.toInt ∧
          page.page.toInt = p - 1 ∧ page.first.toInt = (p - 2) * pager.size.toInt + 1 ∧
          page.last.toInt = (p - 1) * pager.size.toInt ∧ page.hasNext = true ∧
          (page.hasPrevious = true ↔ 2 < p) := by
  have hsize := pager.size_pos
  have hlength := t.length_sorted b.order t.rows
  -- the rows before the boundary are those of whole pages, of which there is at least one
  have hprod : (p - 2) * pager.size.toInt = (p - 1) * pager.size.toInt - pager.size.toInt := by
    ring
  have hwhole : 0 ≤ (p - 2) * pager.size.toInt := Int.mul_nonneg (by omega) (by omega)
  generalize hk : ((p - 1) * pager.size.toInt).toNat = k
  have hlt : k < (t.sorted b.order t.rows).length := by omega
  have hr := List.getElem?_eq_getElem hlt
  obtain ⟨c, hc, hback⟩ := Table.exists_back_of_stored ht hne hr own eachSide now
  refine ⟨_, c, hr, hc, ?_⟩
  intro q hq
  obtain ⟨hreversed, hwpage, hwsize, hwidth, hlimit⟩ := Table.window_of_back hback hq
  generalize hrows : t.answer d b.order q (some (c.withDirection .prev)) = rows
  have hitems : (rows.take q.window.size.toInt.toNat).reverse =
      ((t.sorted b.order t.rows).drop ((p - 2) * pager.size.toInt).toNat).take
        pager.size.toInt.toNat := by
    rw [← hrows, Table.answer_of_back ht hback hq, hwsize,
      reverse_take_nearest (by omega) (by omega) (by omega)]
    congr 2
    omega
  have hmade := Page.ofWindow_reversed hreversed (by rw [hwsize]; exact hsize)
    (by rw [hwpage]; exact pager.page_pos) hwidth rows
  have hnumber : (Page.walkedTo rows q.window).page.toInt = p - 1 := by
    rw [Page.walkedTo, hwpage, hpage]
  have hper : (Page.walkedTo rows q.window).pageSize = pager.size := hwsize
  have hfull : ((Page.walkedTo rows q.window).items.length : Int) = pager.size.toInt := by
    rw [Page.walkedTo, hitems, List.length_take, List.length_drop]
    omega
  -- the page ends before the boundary, whose place a 64-bit integer counts
  have hcount := ht.length_le
  obtain ⟨hfirst, hlast⟩ := Page.toInt_first_last (p := Page.walkedTo rows q.window)
    (by omega) (by rw [hper]; exact hsize) (by rw [hper]; exact hfull)
    (by rw [hnumber, hper]; omega)
  rw [hnumber, hper] at hfirst hlast
  refine ⟨rows, Page.walkedTo rows q.window, ?_, hmade, hitems, hfull, hnumber, ?_, hlast, rfl, ?_⟩
  · rw [← hrows]
    exact hs.execute pager _ q hq
  · rw [hfirst]
    ring
  · rw [Page.hasPrevious, decide_eq_true_eq, Int64.lt_iff_toInt_lt, hnumber, Int64.toInt_one]
    omega

/-- From the last of three pages of people back to the second one. -/
theorem previous_page_exact_of_people :
    ∃ c q rows page,
      Cursor.create peopleBase.order (.ofPage 3 2) (peopleColumn (1, 12)) (some 1) default =
        .ok c ∧
      Query.compile .sqlite peopleBase.sql peopleBase.order [] (.ofPage 2 2)
        (some (c.withDirection .prev)) = .ok q ∧
      peopleDatabase.execute .sqlite q.sql q.binds = .ok rows ∧
      Page.ofWindow rows q.window none = .ok page ∧ page.items = [(2, 30), (1, 10)] ∧
      page.page.toInt = 2 ∧ page.first.toInt = 3 ∧ page.last.toInt = 4 ∧ page.hasNext = true ∧
      (page.hasPrevious = true ↔ 2 < (3 : Int)) := by
  have hpage : (Pager.ofPage 2 2).page.toInt = 3 - 1 := by decide
  have hlater : (2 : Int) ≤ 3 := by decide
  obtain ⟨r, c, hr, hc, hback⟩ := previous_page_exact people_serves people_stored (by decide)
    hlater hpage (by decide) (.ofPage 3 2) (some 1) default
  -- the fifth row in order is the first one of the third page
  have hrow : (people.sorted peopleBase.order people.rows)[4]? = some (1, 12) := by
    decide +kernel
  obtain rfl : (1, 12) = r := Option.some.inj (hrow.symm.trans hr)
  obtain rfl := Except.ok.inj hc
  obtain ⟨rows, page, hrows, hmade, hitems, -, hrest⟩ := hback _ rfl
  exact ⟨_, _, rows, page, rfl, rfl, hrows, hmade, hitems, hrest⟩

end SqlPaging
