import SqlPaging.Proofs.Keyset.Boundary
import SqlPaging.Proofs.Param.Binds
import SqlPaging.Proofs.Query.Predicate
import SqlPaging.Proofs.Query.Tail
import SqlPaging.Proofs.Sql.Cells
import SqlPaging.Proofs.Sql.Positional

/-!
# SqlPaging — the values of placeholders

A query is executed with the binds that come with it, and each placeholder that a scan finds in
its text must have one. The text was edited in three places: collections were expanded, a
predicate was added, and a tail. So what a scan finds has to be what was meant: the slots of the
statement's own placeholders, for which the parameters have binds, and those of the predicate,
for which the cursor has them. The names of a cursor are reserved, so that neither takes a
value of the other.

A word that stands for an empty collection has no gap around it. Where it directly follows a
placeholder, it goes on with the name, and nothing is bound to the longer one.

Main results:

* `exists_sought` — what a cursor adds to a statement, and to its binds.
* `scan_compile` — what a scan finds in a query.
* `compile_supplied` — each placeholder of a query has a value of its own.
* `null_joins_placeholder`, `null_joins_number` — empty collections that join their neighbours.
-/

namespace SqlPaging

open Sql

/-! ## Collections that are asked for -/

/-- The collections with the given names. -/
def asked (x : Fields (List String)) (names : List String) : Fields (List String) :=
  x.filter fun e => names.contains e.1

/-- What is asked for has its expansion, and nothing else has one. -/
theorem get?_asked (x : Fields (List String)) (names : List String) (name : String) :
    (asked x names).get? name = if name ∈ names then x.get? name else none := by
  induction x with
  | nil => simp [asked, Fields.get?]
  | cons e x ih =>
    simp only [asked, Fields.get?, List.filter_cons, List.contains_iff_mem] at ih ⊢
    -- the first entry is the one that is looked for, or it is passed over
    by_cases hname : e.1 = name
    · subst hname
      by_cases hmem : e.1 ∈ names
      · simp [hmem]
      · simpa [hmem] using ih
    · by_cases hmem : e.1 ∈ names
      · simpa [hmem, hname] using ih
      · simpa [hmem, hname] using ih

/-- A placeholder of the statement is expanded by what is asked for as by all there is. -/
theorem names?_asked {s : Statement} (x : Fields (List String)) {t : Token} (ht : t ∈ s.tokens) :
    t.lexeme.names? (asked x (s.tokens.filterMap (·.placeholder?))) = t.lexeme.names? x := by
  rw [← Token.placeholder?_bind, ← Token.placeholder?_bind]
  cases hname : t.placeholder? with
  | none => rfl
  | some name =>
    have hmem : name ∈ s.tokens.filterMap (·.placeholder?) := List.mem_filterMap.mpr ⟨t, ht, hname⟩
    rw [Option.bind_some, Option.bind_some, get?_asked, if_pos hmem]

theorem namesFor_asked {names : List String} (x : Fields (List String)) {name : String}
    (h : name ∈ names) : namesFor (asked x names) name = namesFor x name := by
  rw [namesFor, get?_asked, if_pos h, namesFor]

/-- Names that are not asked for stay between those that are. -/
theorem flatMap_namesFor_asked (x : Fields (List String)) {front added back : List String}
    (h : ∀ name ∈ added, name ∉ front ++ back) :
    (front ++ (added ++ back)).flatMap (namesFor (asked x (front ++ back))) =
      front.flatMap (namesFor x) ++ (added ++ back.flatMap (namesFor x)) := by
  have hpart : ∀ part : List String, (∀ name ∈ part, name ∈ front ++ back) →
      part.flatMap (namesFor (asked x (front ++ back))) = part.flatMap (namesFor x) :=
    fun part hpart => List.flatMap_congr fun name hname => namesFor_asked x (hpart name hname)
  -- a name that was not asked for stands for itself
  have hadded : added.flatMap (namesFor (asked x (front ++ back))) =
      added.flatMap fun name => [name] := by
    refine List.flatMap_congr fun name hname => ?_
    rw [namesFor, get?_asked, if_neg (h name hname)]
    rfl
  rw [List.flatMap_append, List.flatMap_append, hadded, List.flatMap_singleton',
    hpart front fun name => List.mem_append_left _, hpart back fun name => List.mem_append_right _]

/-- Only the collections that are asked for are expanded. -/
theorem ofExpanded_asked (s : Statement) (x : Fields (List String)) :
    Draft.ofExpanded (asked x (s.tokens.filterMap (·.placeholder?))) s.tokens =
      Draft.ofExpanded x s.tokens := by
  refine List.map_congr_left fun t ht => ?_
  rw [Lexeme.expanded, names?_asked x ht, ← Lexeme.expanded]

/-- Normalizing expands collections to the names of their elements. -/
theorem expands_of_normalize {d : Dialect} {params : Params} {n : Normalized}
    (hn : normalize d params = .ok n) : Expands n.expansions := by
  intro name found hget
  obtain ⟨p, -, -, vs, rfl, -, -, rfl⟩ := expansions_of_normalize hn hget
  by_cases hnil : elementNames p.1 vs.length = []
  · exact .inl hnil
  · refine .inr ⟨hnil, fun element helement => ?_⟩
    obtain ⟨i, -, rfl⟩ := List.mem_map.mp helement
    exact ⟨i, rfl⟩

/-- Leaving out what no placeholder asks for keeps that. -/
theorem expands_asked {d : Dialect} {params : Params} {n : Normalized}
    (hn : normalize d params = .ok n) (names : List String) :
    Expands (asked n.expansions names) := by
  intro name found hget
  rw [get?_asked] at hget
  split at hget
  · exact expands_of_normalize hn name found hget
  · cases hget

/-! ## The binds of a cursor -/

namespace Keyset

/-- Boundary values are numbered as elements of a collection are. -/
theorem bindsFrom_eq_numberedBinds (index : Nat) (bounds : List BindValue) :
    bindsFrom index bounds = numberedBinds namePart index bounds := by
  induction bounds generalizing index with
  | nil => rfl
  | cons b bs ih =>
    rw [bindsFrom, ih]
    rfl

/-- The binds of a cursor are named by their numbers, from zero on. -/
theorem names_bindsFrom (bounds : List BindValue) :
    (bindsFrom 0 bounds).names = (List.range bounds.length).map paramName := by
  rw [bindsFrom_eq_numberedBinds, names_numberedBinds, List.range_eq_range']
  rfl

end Keyset

/-- The binds of a cursor: its values in order, under the parameters with their numbers. -/
def CursorBinds (d : Dialect) : Option Cursor → Binds → Prop
  | none, bs => bs = []
  | some c, bs => ∃ bounds, c.values.map (fun v => normalizeScalar d v.2) = bounds.map .ok ∧
      bs = Keyset.bindsFrom 0 bounds

namespace CursorBinds

variable {d : Dialect} {cursor : Option Cursor} {bs : Binds}

theorem nodup (h : CursorBinds d cursor bs) : bs.names.Nodup := by
  cases cursor with
  | none =>
    rw [show bs = [] from h]
    exact .nil
  | some c =>
    obtain ⟨bounds, -, rfl⟩ := h
    rw [Keyset.bindsFrom_eq_numberedBinds]
    exact nodup_numberedBinds _ _ _

/-- The names of a cursor's binds belong to cursors. -/
theorem isReserved (h : CursorBinds d cursor bs) :
    ∀ name ∈ bs.names, Keyset.isReserved name = true := by
  cases cursor with
  | none =>
    rw [show bs = [] from h]
    exact fun name hname => (List.not_mem_nil hname).elim
  | some c =>
    obtain ⟨bounds, -, rfl⟩ := h
    rw [Keyset.names_bindsFrom]
    intro name hname
    obtain ⟨i, -, rfl⟩ := List.mem_map.mp hname
    exact Keyset.isReserved_paramName i

end CursorBinds

namespace Keyset

/-- A cursor has a value for each parameter that its predicate asks for. -/
theorem names_of_ofCursor {d : Dialect} {order : Order} {c : Cursor} {k : Keyset}
    (h : ofCursor d order c = .ok k) :
    CursorBinds d (some c) k.binds ∧ ∀ name ∈ names k.predicate, name ∈ k.binds.names := by
  have hfits := fits_of_ofCursor h
  have hpredicate := predicate_of_ofCursor h
  rw [ofCursor, if_pos hfits, bind_eq_ok] at h
  obtain ⟨bs, hbs, h⟩ := h
  obtain ⟨bounds, hbounds, rfl⟩ := bindBoundaries_eq_ok hbs
  cases h
  refine ⟨⟨bounds, hbounds, rfl⟩, fun name hname => ?_⟩
  rw [hpredicate, names] at hname
  obtain ⟨clause, hclause, hname⟩ := List.mem_flatMap.mp hname
  obtain ⟨t, ht, rfl⟩ := List.mem_map.mp hname
  -- the cursor has as many values as the order has expressions
  have hlength : c.values.length = bounds.length := by
    simpa using congrArg List.length hbounds
  have hkeys : c.values.length = order.size := by
    simpa [Fields.keys, Order.expressions, Order.size] using congrArg List.length (eq_of_beq hfits)
  -- a term is numbered by the place of its expression
  obtain ⟨i, hi, -⟩ := mem_after hclause ht
  rw [names_bindsFrom, ← hlength, hkeys]
  exact List.mem_map_of_mem (List.mem_range.mpr (List.getElem?_eq_some_iff.mp hi).1)

end Keyset

namespace Query

variable {d : Dialect} {order : Order} {s : Statement}

/-! ## The lexemes of a query -/

/-- The cells of an expanded statement with what a cursor adds to it, if there is one: what is put
between its lexemes asks for values of the cursor, and for nothing that the statement asks for. -/
structure Sought (d : Dialect) (s : Statement) (x : Fields (List String)) (ps : List Piece)
    (own : Binds) (cursor : Option Cursor) (seek : Seek) (cs : List Cell) (added : List String) :
    Prop where
  draft : seek.draft = cs.map (Cell.slot x)
  weaves : Weaves (.ofDialect d) x ps added cs
  boundary : CursorBinds d cursor seek.binds
  bound : ∀ name ∈ added, name ∈ seek.binds.names
  fresh : ∀ name ∈ added, name ∉ s.tokens.filterMap (·.placeholder?)
  free : ∀ b ∈ own, b.name ∉ seek.binds.names
  ground : ∀ i ∈ seek.order.items, Ground d i.expression

section

variable {ps : List Piece} {x : Fields (List String)} {own : Binds} {pager : Pager} {seek : Seek}

/-- A cursor adds its predicate. -/
theorem exists_sought_of_seeking (hps : Pieces d s ps) (hne : s.tokens ≠ [])
    (hwoven : Woven (.ofDialect d) (asked x (s.tokens.filterMap (·.placeholder?)))
      (pieceLexemes ps))
    (horder : ∀ i ∈ order.items, Ground d i.expression) {c : Cursor}
    (h : seeking d s order own pager c
      (Draft.ofExpanded (asked x (s.tokens.filterMap (·.placeholder?))) s.tokens) = .ok seek) :
    ∃ cs added, Sought d s (asked x (s.tokens.filterMap (·.placeholder?))) ps own (some c) seek
      cs added := by
  obtain ⟨hfree, k, draft, w, hk, hcondition, -, rfl⟩ := seeking_eq_ok_iff.mp h
  obtain ⟨hbinds, hnames⟩ := Keyset.names_of_ofCursor hk
  have hground : ∀ clause ∈ k.predicate, ∀ t ∈ clause, Ground d t.expression := by
    intro clause hclause t ht
    rw [predicate_of_ofCursor hk] at hclause
    obtain ⟨i, hi, heq⟩ := Keyset.mem_after hclause ht
    rw [heq]
    exact horder i (List.mem_of_getElem? hi)
  obtain ⟨os, hos, hosnames⟩ := Keyset.asks_grouped hground
  -- the parameters of the predicate are reserved, and the statement asks for no such name
  have hreserved : ∀ name ∈ own.names ++ s.tokens.filterMap (·.placeholder?),
      name ∉ k.binds.names := by
    intro name hname hmem
    have hyes := hbinds.isReserved name hmem
    rw [not_reserved_of_checkReserved hfree name hname] at hyes
    cases hyes
  have hfresh : ∀ name ∈ Keyset.names k.predicate,
      name ∉ s.tokens.filterMap (·.placeholder?) :=
    fun name hname hmem => hreserved name (List.mem_append_right _ hmem) (hnames name hname)
  have hsilent : ∀ name ∈ outlineNames os,
      (asked x (s.tokens.filterMap (·.placeholder?))).get? name = none := by
    intro name hname
    rw [hosnames] at hname
    rw [get?_asked, if_neg (hfresh name hname)]
  obtain ⟨cs, hdraft, hweaves⟩ := exists_conditioned hps.tokens hne hwoven hos hsilent hcondition
  rw [hosnames] at hweaves
  refine ⟨cs, _, hdraft, hweaves, hbinds, hnames, hfresh, fun b hb => ?_, fun i hi => ?_⟩
  · exact hreserved b.name (List.mem_append_left _ (List.mem_map_of_mem hb))
  · -- walking back, the expressions are the same
    dsimp only at hi
    split at hi
    · obtain ⟨j, hj, rfl⟩ := List.mem_map.mp hi
      exact horder j hj
    · exact horder i hi

/-- With a cursor or without, no collection is expanded in what is put into the statement. -/
theorem exists_sought (hps : Pieces d s ps) (hne : s.tokens ≠ [])
    (hapart : s.NullsApart (.ofDialect d) x)
    (horder : ∀ i ∈ order.items, Ground d i.expression) {cursor : Option Cursor}
    (h : seekFor d s order own pager (Draft.ofExpanded x s.tokens) cursor = .ok seek) :
    ∃ cs added, Sought d s (asked x (s.tokens.filterMap (·.placeholder?))) ps own cursor seek
      cs added := by
  have hwoven := hps.woven hapart fun t ht => names?_asked x ht
  -- the draft is expanded by the asked names alone
  rw [← ofExpanded_asked] at h
  cases cursor with
  | none =>
    obtain ⟨w, -, rfl⟩ := skipping_eq_ok_iff.mp h
    refine ⟨_, [], ?_, weaves_ofPiece hwoven, rfl, by simp, by simp, by simp [Binds.names], horder⟩
    rw [slots_ofPiece, hps.tokens]
  | some c => exact exists_sought_of_seeking hps hne hwoven horder h

end

/-- An order without placeholders asks for no binds. -/
theorem outlineNames_outlines (h : ∀ i ∈ order.items, Ground d i.expression) :
    outlineNames (order.outlines d) = [] := by
  -- an expression has no placeholder of its own
  have hitem : ∀ i ∈ order.items, outlineNames (i.outlines d) = [] := by
    intro i hi
    obtain ⟨found, hfound, -, hkind⟩ := h i hi
    rw [OrderItem.outlines, scanned, hfound, outlineNames_append]
    exact List.append_eq_nil_iff.mpr ⟨outlineNames_of_kind hkind, rfl⟩
  -- neither has the comma between two items
  have hitems : ∀ is : List OrderItem, (∀ i ∈ is, outlineNames (i.outlines d) = []) →
      outlineNames (itemOutlines d is) = [] := by
    intro is his
    fun_induction itemOutlines d is with
    | case1 => rfl
    | case2 i => exact his i List.mem_cons_self
    | case3 i is hne ih =>
      obtain ⟨hi, his⟩ := List.forall_mem_cons.mp his
      rw [outlineNames_append, hi]
      exact ih his
  rw [Order.outlines]
  split
  · rfl
  · exact hitems order.items hitem

/-- A tail asks for nothing, and ends with a number. -/
theorem exists_tail (h : ∀ i ∈ order.items, Ground d i.expression) {w : Window}
    (hlimit : 0 ≤ w.limit.toInt) (hoffset : 0 ≤ w.offset.toInt) :
    ∃ text digits os, tail order w = ' ' :: (text ++ ' ' :: digits) ∧
      Prints (.ofDialect d) endsWord text os ∧ outlineNames os = [] ∧ digits ≠ [] ∧
      ∀ c ∈ digits, c.isDigit = true := by
  obtain ⟨text, htail, hprints⟩ := prints_tail_front (fun i hi => (h i hi).scans) hlimit
  rw [toList_text hoffset] at htail
  refine ⟨text, _, _, htail, hprints, ?_, Nat.toDigits_ne_nil, fun c hc => ?_⟩
  · rw [outlineNames_append, outlineNames_outlines h]
    rfl
  · -- the offset is not negative, so it has no sign
    exact Nat.isDigit_of_mem_toDigits (b := 10) (by decide) (by decide) hc

/-- What a scan finds in a query asks for what the statement asks for, with collections expanded,
and between that for values of the cursor. -/
theorem scan_compile {sql : String} {params : Params} {pager : Pager} {cursor : Option Cursor}
    {q : Query} {n : Normalized} (hn : normalize d params = .ok n) (hs : parse d sql = .ok s)
    (horder : ∀ i ∈ order.items, Ground d i.expression)
    (hapart : s.NullsApart (.ofDialect d) n.expansions)
    (hq : compile d sql order params pager cursor = .ok q) :
    ∃ extra found front added back, CursorBinds d cursor extra ∧ q.binds = n.binds ++ extra ∧
      (∀ b ∈ n.binds, b.name ∉ extra.names) ∧ scan d q.sql.toList = .ok found ∧
      s.tokens.filterMap (·.placeholder?) = front ++ back ∧
      found.tokens.filterMap (·.placeholder?) =
        front.flatMap (namesFor n.expansions) ++ (added ++ back.flatMap (namesFor n.expansions)) ∧
      ∀ name ∈ added, name ∈ extra.names := by
  have hwindow := window_nonneg_of_compile hq
  obtain ⟨n', s', draft, seek, i, hn', hs', -, hdraft, hseek, hi, rfl⟩ := compile_eq_ok_iff.mp hq
  obtain rfl := Except.ok.inj (hn.symm.trans hn')
  obtain rfl := Except.ok.inj (hs.symm.trans hs')
  rw [expand, mapError_eq_ok, Draft.expanded] at hdraft
  obtain rfl := Draft.expandFrom_eq_ok hdraft
  have hbase := mapError_eq_ok.mp hs
  have hne := (Statement.parse_eq_ok hbase).1
  obtain ⟨ps, hpieces⟩ := Pieces.of_parse hbase
  obtain ⟨cs, added, hsought⟩ := exists_sought hpieces hne hapart horder hseek
  -- the tail goes behind a token, in front of the locking clause or at the end
  obtain ⟨text, digits, os, htail, hprints, hnothing, hsome, hdigits⟩ :=
    exists_tail hsought.ground hwindow.1 hwindow.2
  have hplace := Statement.tailIndex_eq_ok hne hi
  have hle := Statement.placeOf_le s (s.marker? .locking) fun m hm =>
    (Statement.marker?_eq_some hm).1
  rw [← hplace, hpieces.length] at hle
  obtain ⟨ls, hwoven, hnames, htext⟩ :=
    hsought.weaves.exists_tailed hpieces.tokens hplace hle hprints hnothing hsome hdigits
  obtain ⟨found, hscan, hfound⟩ := hwoven.exists_scan (expands_asked hn _)
  rw [htext, ← hsought.draft, ← htail] at hscan
  -- between the names of the statement there are those that were added
  obtain ⟨front, back, hown, hwith⟩ := hsought.weaves.names
  have htokens : s.tokens.filterMap (·.placeholder?) = front ++ back := by
    rw [← hown, ← outlineNames_of_outlineFrom hpieces.balanced, ← hpieces.tokens, outlineNames_map]
  have hfresh := hsought.fresh
  rw [htokens] at hfresh
  rw [hnames, hwith, htokens, flatMap_namesFor_asked _ hfresh] at hfound
  refine ⟨seek.binds, found, front, added, back, hsought.boundary, rfl, hsought.free, ?_, htokens,
    hfound, hsought.bound⟩
  rw [String.toList_ofList]
  exact hscan

/-! ## The values of placeholders -/

/-- What a scan finds in a query, and the binds that the query comes with. -/
structure Supplied (d : Dialect) (s : Statement) (params : Params) (cursor : Option Cursor)
    (n : Normalized) (extra : Binds) (q : Query) (found : Scan) : Prop where
  scanned : scan d q.sql.toList = .ok found
  /-- the binds of the parameters, one after the other -/
  own : ∃ bss : List Binds, List.Forall₂ (fun p bs => ParamBinds d p.1 p.2 bs) params bss ∧
    n.binds = bss.flatten
  boundary : CursorBinds d cursor extra
  binds : q.binds = n.binds ++ extra
  distinct : q.binds.names.Nodup
  /-- as many slots as there are binds of the parameter, in their order -/
  slots : ∀ name ∈ s.tokens.filterMap (·.placeholder?), ∃ v bs, (name, v) ∈ params ∧
    ParamBinds d name v bs ∧ bs <:+: n.binds ∧ namesFor n.expansions name = bs.names
  /-- the slots of the statement, with placeholders for values of the cursor between them -/
  placeholders : ∃ front added back, s.tokens.filterMap (·.placeholder?) = front ++ back ∧
    found.tokens.filterMap (·.placeholder?) =
      front.flatMap (namesFor n.expansions) ++ (added ++ back.flatMap (namesFor n.expansions)) ∧
    ∀ name ∈ added, name ∈ extra.names
  bound : ∀ name ∈ found.tokens.filterMap (·.placeholder?), name ∈ q.binds.names
  positional : ∃ p, Positional.ofScan found q.binds = .ok p

/-- Each placeholder of a query has a value of its own. The binds are those of the parameters
and those of the cursor, under distinct names; a placeholder of the statement stands for the
binds of its parameter, in order; and all others are bound to values of the cursor. -/
theorem compile_supplied {sql : String} {params : Params} {pager : Pager} {cursor : Option Cursor}
    {q : Query} {n : Normalized} (hn : normalize d params = .ok n) (hs : parse d sql = .ok s)
    (hbound : ∀ name ∈ s.tokens.filterMap (·.placeholder?), name ∈ params.keys)
    (horder : ∀ i ∈ order.items, Ground d i.expression)
    (hapart : s.NullsApart (.ofDialect d) n.expansions)
    (hq : compile d sql order params pager cursor = .ok q) :
    ∃ extra found, Supplied d s params cursor n extra q found := by
  obtain ⟨extra, found, front, added, back, hcursor, hbinds, hfree, hscan, htokens, hfound, hadded⟩ :=
    scan_compile hn hs horder hapart hq
  obtain ⟨bss, hbss, hown, hnodup⟩ := binds_of_normalize hn
  -- a placeholder of the statement stands for a parameter, and that has made binds
  have hslots : ∀ name ∈ s.tokens.filterMap (·.placeholder?), ∃ v bs, (name, v) ∈ params ∧
      ParamBinds d name v bs ∧ bs <:+: n.binds ∧ namesFor n.expansions name = bs.names :=
    fun name hname => slots_of_normalize hn (hbound name hname)
  -- what takes the place of a placeholder is bound, whether it is one name or many
  have hpart : ∀ part : List String, (∀ name ∈ part, name ∈ front ++ back) →
      ∀ slot ∈ part.flatMap (namesFor n.expansions), slot ∈ n.binds.names := by
    intro part hpart slot hslot
    obtain ⟨name, hname, hmem⟩ := List.mem_flatMap.mp hslot
    obtain ⟨v, bs, -, -, hwithin, heq⟩ := hslots name (by rw [htokens]; exact hpart name hname)
    rw [heq] at hmem
    obtain ⟨b, hb, rfl⟩ := List.mem_map.mp hmem
    exact List.mem_map_of_mem (hwithin.subset hb)
  have hall : ∀ name ∈ found.tokens.filterMap (·.placeholder?), name ∈ q.binds.names := by
    intro name hname
    rw [hbinds, Binds.names_append]
    rw [hfound] at hname
    -- the placeholders of the condition are those of the cursor, which stand in the middle
    rcases List.mem_append.mp hname with hname | hname
    · exact List.mem_append_left _ (hpart front (fun name => List.mem_append_left _) name hname)
    · rcases List.mem_append.mp hname with hname | hname
      · exact List.mem_append_right _ (hadded name hname)
      · exact List.mem_append_left _ (hpart back (fun name => List.mem_append_right _) name hname)
  refine ⟨extra, found, hscan, ⟨bss, hbss, hown⟩, hcursor, hbinds, ?_, hslots,
    ⟨front, added, back, htokens, hfound, hadded⟩, hall, Positional.exists_ofScan hall⟩
  -- no name is bound twice, and those of the cursor are none of the parameters' names
  rw [hbinds, Binds.names_append]
  refine List.nodup_append.mpr ⟨hnodup, hcursor.nodup, ?_⟩
  rintro name hname other hother rfl
  obtain ⟨b, hb, rfl⟩ := List.mem_map.mp hname
  exact hfree b hb hother

/-- Collections with and without elements, a scalar, and the value of a cursor. -/
theorem compile_supplied_of_cursor :
    ∃ q n s extra found, compile .postgres
        "SELECT a FROM t WHERE b IN (:ids) AND c IN (:none) AND d = :d FOR UPDATE"
        ⟨[⟨"f(a, b)", .ascending⟩]⟩
        [("ids", .array [.int 7, .int 8]), ("none", .array []), ("d", .int 1)] (.ofPage 2 10)
        (some ⟨.ofPage 2 10, [("f(a, b)", .int 5)], none, .next, true, default⟩) = .ok q ∧
      q.sql = "SELECT a FROM t WHERE (b IN (:ids__0, :ids__1) AND c IN (NULL) AND d = :d)" ++
        " AND (f(a, b) >= :cursor__0) ORDER BY f(a, b) ASC LIMIT 11 OFFSET 0 FOR UPDATE" ∧
      q.binds = [⟨"ids__0", .int 7⟩, ⟨"ids__1", .int 8⟩, ⟨"d", .int 1⟩, ⟨"cursor__0", .int 5⟩] ∧
      Supplied .postgres s
        [("ids", .array [.int 7, .int 8]), ("none", .array []), ("d", .int 1)]
        (some ⟨.ofPage 2 10, [("f(a, b)", .int 5)], none, .next, true, default⟩)
        n extra q found := by
  obtain ⟨n, hn, hx⟩ : ∃ n, normalize .postgres
        [("ids", .array [.int 7, .int 8]), ("none", .array []), ("d", .int 1)] = .ok n ∧
      n.expansions = [("ids", ["ids__0", "ids__1"]), ("none", [])] :=
    exists_eq_ok_of_any (by decide +kernel)
  -- a list of two values, an empty one and a scalar, with a clause behind the tail
  obtain ⟨s, hs, hnames, hapart⟩ : ∃ s, parse .postgres
        "SELECT a FROM t WHERE b IN (:ids) AND c IN (:none) AND d = :d FOR UPDATE" = .ok s ∧
      s.tokens.filterMap (·.placeholder?) = ["ids", "none", "d"] ∧
      s.NullsApart (.ofDialect .postgres) [("ids", ["ids__0", "ids__1"]), ("none", [])] :=
    exists_eq_ok_of_any (by decide +kernel)
  obtain ⟨q, hq, hsql, hbinds⟩ : ∃ q, compile .postgres
        "SELECT a FROM t WHERE b IN (:ids) AND c IN (:none) AND d = :d FOR UPDATE"
        ⟨[⟨"f(a, b)", .ascending⟩]⟩
        [("ids", .array [.int 7, .int 8]), ("none", .array []), ("d", .int 1)] (.ofPage 2 10)
        (some ⟨.ofPage 2 10, [("f(a, b)", .int 5)], none, .next, true, default⟩) = .ok q ∧
      q.sql = "SELECT a FROM t WHERE (b IN (:ids__0, :ids__1) AND c IN (NULL) AND d = :d)" ++
        " AND (f(a, b) >= :cursor__0) ORDER BY f(a, b) ASC LIMIT 11 OFFSET 0 FOR UPDATE" ∧
      q.binds = [⟨"ids__0", .int 7⟩, ⟨"ids__1", .int 8⟩, ⟨"d", .int 1⟩, ⟨"cursor__0", .int 5⟩] :=
    exists_eq_ok_of_any (by decide +kernel)
  have horder : ∀ i ∈ [OrderItem.mk "f(a, b)" .ascending], Ground .postgres i.expression := by
    intro i hi
    rw [List.mem_singleton.mp hi]
    exact ground_of_any (by decide +kernel)
  -- each placeholder has its parameter
  have hbound : ∀ name ∈ s.tokens.filterMap (·.placeholder?), name ∈ Fields.keys
      [("ids", Value.array [.int 7, .int 8]), ("none", .array []), ("d", .int 1)] := by
    rw [hnames]
    exact fun name hname => hname
  rw [← hx] at hapart
  obtain ⟨extra, found, hsupplied⟩ := compile_supplied hn hs hbound horder hapart hq
  exact ⟨q, n, s, extra, found, hq, hsql, hbinds, hsupplied⟩

/-- Directly behind another placeholder, an empty collection becomes a part of its name, for
which nothing is bound. -/
theorem null_joins_placeholder :
    ∃ s n q found, parse .postgres "SELECT :a:e FROM t" = .ok s ∧
      normalize .postgres [("a", .int 1), ("e", .array [])] = .ok n ∧
      s.tokens.filterMap (·.placeholder?) = ["a", "e"] ∧ Ground .postgres "id" ∧
      (s.tokens.IsChain fun t u => u.gap = [] → t.lexeme.names? n.expansions = some [] →
        u.text.head? ≠ some '$') ∧
      compile .postgres "SELECT :a:e FROM t" ⟨[⟨"id", .ascending⟩]⟩
        [("a", .int 1), ("e", .array [])] (.ofPage 1 10) none = .ok q ∧
      q.sql = "SELECT :aNULL FROM t ORDER BY id ASC LIMIT 11 OFFSET 0" ∧
      scan .postgres q.sql.toList = .ok found ∧
      found.tokens.filterMap (·.placeholder?) = ["aNULL"] ∧ "aNULL" ∉ q.binds.names ∧
      ¬ ∃ p, Positional.ofScan found q.binds = .ok p := by
  obtain ⟨n, hn, hx⟩ : ∃ n, normalize .postgres [("a", .int 1), ("e", .array [])] = .ok n ∧
      n.expansions = [("e", [])] := exists_eq_ok_of_any (by decide +kernel)
  obtain ⟨s, hs, hnames, hdollar⟩ : ∃ s, parse .postgres "SELECT :a:e FROM t" = .ok s ∧
      s.tokens.filterMap (·.placeholder?) = ["a", "e"] ∧
      s.tokens.IsChain fun t u => u.gap = [] → t.lexeme.names? [("e", [])] = some [] →
        u.text.head? ≠ some '$' := exists_eq_ok_of_any (by decide +kernel)
  -- the empty list leaves no bind
  obtain ⟨q, hq, hsql, hbinds⟩ : ∃ q, compile .postgres "SELECT :a:e FROM t"
        ⟨[⟨"id", .ascending⟩]⟩ [("a", .int 1), ("e", .array [])] (.ofPage 1 10) none = .ok q ∧
      q.sql = "SELECT :aNULL FROM t ORDER BY id ASC LIMIT 11 OFFSET 0" ∧
      q.binds = [⟨"a", .int 1⟩] := exists_eq_ok_of_any (by decide +kernel)
  -- the two placeholders have become one, whose name has no bind
  obtain ⟨found, hscan, hfound, hnone⟩ : ∃ found, scan .postgres
        "SELECT :aNULL FROM t ORDER BY id ASC LIMIT 11 OFFSET 0".toList = .ok found ∧
      found.tokens.filterMap (·.placeholder?) = ["aNULL"] ∧
      (Positional.ofScan found [⟨"a", .int 1⟩]).toOption = none :=
    exists_eq_ok_of_any (by decide +kernel)
  refine ⟨s, n, q, found, hs, hn, hnames, ground_of_any (by decide +kernel), ?_, hq, hsql, ?_,
    hfound, ?_, ?_⟩
  · rwa [hx]
  · rw [hsql]
    exact hscan
  · rw [hbinds]
    decide
  · rintro ⟨p, hp⟩
    rw [hbinds] at hp
    rw [hp] at hnone
    cases hnone

/-- Directly behind a number, where a dollar sign quotes, an empty collection becomes a part of it,
and so does the letter of a string behind a dot. The string ends early, and what was a part of it
is a placeholder. -/
theorem null_joins_number :
    ∃ s q found, parse .postgres "SELECT 5:e.E'\\' :x \\''" = .ok s ∧
      s.tokens.filterMap (·.placeholder?) = ["e"] ∧
      compile .postgres "SELECT 5:e.E'\\' :x \\''" .empty [("e", .array [])] (.ofPage 1 10) none =
        .ok q ∧
      q.sql = "SELECT 5NULL.E'\\' :x \\'' LIMIT 11 OFFSET 0" ∧
      scan .postgres q.sql.toList = .ok found ∧
      found.tokens.filterMap (·.placeholder?) = ["x"] ∧ q.binds = [] := by
  obtain ⟨s, hs, hnames⟩ : ∃ s, parse .postgres "SELECT 5:e.E'\\' :x \\''" = .ok s ∧
      s.tokens.filterMap (·.placeholder?) = ["e"] := exists_eq_ok_of_any (by decide +kernel)
  obtain ⟨q, hq, hsql, hbinds⟩ : ∃ q, compile .postgres "SELECT 5:e.E'\\' :x \\''" .empty
        [("e", .array [])] (.ofPage 1 10) none = .ok q ∧
      q.sql = "SELECT 5NULL.E'\\' :x \\'' LIMIT 11 OFFSET 0" ∧ q.binds = [] :=
    exists_eq_ok_of_any (by decide +kernel)
  -- the number takes the letter of the escape string, so that the quotes pair up otherwise
  obtain ⟨found, hscan, hfound⟩ : ∃ found,
      scan .postgres "SELECT 5NULL.E'\\' :x \\'' LIMIT 11 OFFSET 0".toList = .ok found ∧
        found.tokens.filterMap (·.placeholder?) = ["x"] := exists_eq_ok_of_any (by decide +kernel)
  refine ⟨s, q, found, hs, hnames, hq, hsql, ?_, hfound, hbinds⟩
  rw [hsql]
  exact hscan

end Query

end SqlPaging
