import SqlPaging.Proofs.Param.Collections
import SqlPaging.Proofs.Sql.Clauses
import SqlPaging.Proofs.Sql.Prints
import SqlPaging.Proofs.Table.Reference

/-!
# SqlPaging — the tail of a query

The tail of a query, its order and its limit, is put right behind a token: the last one, or
the one in front of the locking clause. What a scan of the query finds are the tokens of
the statement, with collections expanded, and those of the tail between them, outside of
all parentheses. The tail ends with a number, so this needs a gap in front of the locking
clause: a number goes on with the letters of a word that follows it directly, and the
clause is lost.

Main results:

* `prints_tail_front`, `prints_tail` — a tail prints its tokens.
* `scan_compile_skipping` — what a scan finds in a query, and what becomes of it.
* `locking_lost` — a locking clause that directly follows a string.
-/

namespace SqlPaging

open Sql

/-! ## The outlines of a tail -/

namespace Sql

def Outline.word (w : String) : Outline := ⟨.word, w.toList, 0⟩

def Outline.number (n : Int64) : Outline := ⟨.number, (Integer.text n).toList, 0⟩

def Outline.comma : Outline := ⟨.symbol, [','], 0⟩

/-- The outlines of a text that is scanned on its own. -/
def scanned (d : Dialect) (s : String) : List Outline :=
  ((scan d s.toList).toOption.elim [] (·.tokens)).map Token.outline

/-- A text to sort by: no comment at its end hides what follows, and it has no clause and no
semicolon. -/
structure Scan.Sortable (p : Scan) : Prop where
  rest : ∀ c ∈ p.rest, isSpace c = true
  clauses : clauses (p.tokens.map Token.outline) = []
  semicolon : ∀ t ∈ p.tokens, t.kind ≠ .semicolon

instance (p : Scan) : Decidable p.Sortable :=
  decidable_of_iff
    (p.rest.all isSpace = true ∧ Sql.clauses (p.tokens.map Token.outline) = [] ∧
      ∀ t ∈ p.tokens, t.kind ≠ .semicolon)
    ⟨fun ⟨hrest, hclauses, hs⟩ => ⟨List.all_eq_true.mp hrest, hclauses, hs⟩,
      fun h => ⟨List.all_eq_true.mpr h.rest, h.clauses, h.semicolon⟩⟩

/-- A text that is scanned on its own, and can be sorted by. -/
def Sortable (d : Dialect) (s : String) : Prop := ∃ p, scan d s.toList = .ok p ∧ p.Sortable

/-- An expression that can be sorted by can be scanned. -/
theorem Sortable.scans {d : Dialect} {s : String} (h : Sortable d s) : Scans d s := by
  obtain ⟨p, hp, hsortable⟩ := h
  exact ⟨p, hp, hsortable.rest⟩

end Sql

def OrderItem.outlines (d : Dialect) (i : OrderItem) : List Outline :=
  scanned d i.expression ++ [.word i.direction.sql]

/-- The outlines of items, with commas between them. -/
def itemOutlines (d : Dialect) : List OrderItem → List Outline
  | [] => []
  | [i] => i.outlines d
  | i :: is => i.outlines d ++ .comma :: itemOutlines d is

def Order.outlines (d : Dialect) (o : Order) : List Outline :=
  if o.isEmpty then [] else .word "ORDER" :: .word "BY" :: itemOutlines d o.items

/-- The outlines of the order and the limit of a window. -/
def tailOutlines (d : Dialect) (o : Order) (w : Window) : List Outline :=
  o.outlines d ++ [.word "LIMIT", .number w.limit, .word "OFFSET", .number w.offset]

/-! ## A tail prints its tokens -/

section

variable {d : Dialect}

/-- A number is printed as one token, if no character of a number follows. -/
theorem prints_text {n : Int64} (h : 0 ≤ n.toInt) :
    Prints (.ofDialect d) endsNumber (Integer.text n).toList [.number n] := by
  have hdigits := toList_text h
  have hne : (Integer.text n).toList ≠ [] := by
    rw [hdigits]
    exact Nat.toDigits_ne_nil
  refine Prints.number hne ?_
  intro c hc
  rw [hdigits] at hc
  exact Nat.isDigit_of_mem_toDigits (b := 10) (by decide) (by decide) hc

/-- An item is printed as its expression and its direction. -/
theorem prints_item {i : OrderItem} (h : Scans d i.expression) :
    Prints (.ofDialect d) endsWord (Order.itemSql i).toList (i.outlines d) := by
  obtain ⟨p, hp, hrest⟩ := h
  have hexpression := Prints.scanned hp hrest
  -- the direction is a word of letters
  have hdirection : Prints (.ofDialect d) endsWord i.direction.sql.toList
      [.word i.direction.sql] := by
    cases i.direction with
    | ascending => exact Prints.word (by decide) (by decide)
    | descending => exact Prints.word (by decide) (by decide)
  have hboth := hexpression.spaced hdirection (by decide)
  rw [OrderItem.outlines, scanned, hp]
  rw [Order.itemSql, String.toList_append, String.toList_append, List.append_assoc]
  exact hboth

/-- Items are printed with a comma between any two. -/
theorem prints_items {items : List OrderItem} (hne : items ≠ [])
    (h : ∀ i ∈ items, Scans d i.expression) :
    Prints (.ofDialect d) endsWord (", ".intercalate (items.map Order.itemSql)).toList
      (itemOutlines d items) := by
  induction items with
  | nil => exact absurd rfl hne
  | cons i items ih =>
    have hi := prints_item (h i List.mem_cons_self)
    cases items with
    | nil =>
      rw [List.map_singleton, String.intercalate_singleton]
      exact hi
    | cons j items =>
      -- a comma and a space stand between two items
      have hrest := ih (by simp) fun k hk => h k (List.mem_cons_of_mem i hk)
      rw [List.map_cons, List.map_cons, String.intercalate_cons_cons, String.toList_append,
        String.toList_append, List.append_assoc]
      exact hi.append hrest.spaceBefore.commaBefore (by decide)

/-- A tail prints its tokens, behind a space. The last one is the number of rows to skip. -/
theorem prints_tail_front {o : Order} (h : ∀ i ∈ o.items, Scans d i.expression) {w : Window}
    (hlimit : 0 ≤ w.limit.toInt) :
    ∃ s, Query.tail o w = ' ' :: (s ++ ' ' :: (Integer.text w.offset).toList) ∧
      Prints (.ofDialect d) endsWord s
        (o.outlines d ++ [.word "LIMIT", .number w.limit, .word "OFFSET"]) := by
  have hword : ∀ w : String, w.toList ≠ [] → w.toList.all Char.isAlpha = true →
      Prints (.ofDialect d) endsWord w.toList [.word w] := fun w => Prints.word
  have hskip := hword "OFFSET" (by decide) (by decide)
  have hcount := (prints_text hlimit).spaced hskip (by decide)
  -- the offset stands behind the limit, and the order in front of both
  have hpage := (hword "LIMIT" (by decide) (by decide)).spaced hcount (by decide)
  rw [Query.tail, Order.outlines, Order.suffix, Order.sql]
  cases hempty : o.isEmpty with
  | true =>
    refine ⟨_, ?_, hpage⟩
    simp
  | false =>
    -- `ORDER BY` is printed only with an item behind it
    have hne : o.items ≠ [] := by
      intro hnil
      rw [Order.isEmpty, hnil] at hempty
      cases hempty
    have hby := (hword "BY" (by decide) (by decide)).spaced (prints_items hne h) (by decide)
    have horder := (hword "ORDER" (by decide) (by decide)).spaced hby (by decide)
    refine ⟨_, ?_, horder.spaced hpage (by decide)⟩
    simp

/-- A tail is printed as the order, the limit and the offset. -/
theorem prints_tail {o : Order} (h : ∀ i ∈ o.items, Sortable d i.expression) {w : Window}
    (hlimit : 0 ≤ w.limit.toInt) (hoffset : 0 ≤ w.offset.toInt) :
    ∃ s, Query.tail o w = ' ' :: s ∧
      Prints (.ofDialect d) endsNumber s (tailOutlines d o w) := by
  obtain ⟨s, hs, hprints⟩ := prints_tail_front (fun i hi => (h i hi).scans) hlimit
  have hall := hprints.spaced (prints_text hoffset) (by decide)
  rw [List.append_assoc] at hall
  exact ⟨_, hs, hall⟩

/-- The comma inside of an item is one of its tokens. -/
example :
    let order : Order := ⟨[⟨"f(a, b)", .ascending⟩, ⟨"c", .descending⟩]⟩
    let w : Window := { (default : Window) with limit := 11, offset := 20 }
    scanned .sqlite (String.ofList (Query.tail order w)) = tailOutlines .sqlite order w := by
  decide +kernel

end

/-! ## Scanning a query -/

namespace Sql

/-- What a scan finds in pieces with a printed text between them, behind a space. -/
theorem exists_scan_put {d : Dialect} {x : Fields (List String)} (hx : AllNumbered x)
    {before after : List Piece}
    (hs : Stable (.ofDialect d) (pieceLexemes (before ++ after)))
    (hb : Balanced before) (ha : Balanced after) {s : List Char} {os : List Outline}
    (hp : Prints (.ofDialect d) endsNumber s os) (hgap : ∀ q ∈ after.head?, q.token.gap ≠ []) :
    ∃ found, scan d ((Draft.ofExpanded x (pieceTokens before)).text ++ (' ' :: s ++
        (Draft.ofExpanded x (pieceTokens after)).text)) = .ok found ∧
      found.tokens.map Token.outline =
        ((pieceTokens before).map Token.outline).flatMap (Outline.expanded x) ++ (os ++
          ((pieceTokens after).map Token.outline).flatMap (Outline.expanded x)) := by
  obtain ⟨ls, htext, hout, hstable⟩ := hp.spaceBefore
  have hall := (hs.expanded hx).1
  rw [pieceLexemes_append, List.flatMap_append] at hall
  -- the number at the end of the text stands in front of a space or a comment
  have hbehind := hstable _ hall.right (by
    intro c hc
    cases after with
    | nil => cases hc
    | cons q after =>
      have hne : q.gap ≠ [] := by
        intro hnil
        exact hgap q rfl (by rw [q.gap_eq, hnil]; rfl)
      obtain ⟨g, gap, hg⟩ := List.exists_cons_of_ne_nil hne
      have hblank : g.isGap = true := q.blank g (by rw [hg]; exact List.mem_cons_self)
      have hkind : g.kind = .space ∨ g.kind = .comment := by
        simpa [Lexeme.isGap] using hblank
      have hright := hall.right
      rw [pieceLexemes_cons, hg, List.cons_append, List.flatMap_cons,
        Lexeme.expanded_of_isGap x hblank, List.singleton_append] at hright hc
      rw [endsNumber, hright.not_number hkind c hc]
      rfl)
  have hsep : Separated (lexemeText (ls ++ (pieceLexemes after).flatMap (Lexeme.expanded x))) := by
    rw [lexemeText_append, htext]
    exact separated_cons (by decide) _
  -- the text stands between whole lexemes, and it joins neither of them
  have hedited := hall.cut hbehind hsep fun _ => (ended_pieceLexemes before).expanded
  have houtlines := outlineFrom_append_of (outlineFrom_expanded x hb)
    (outlineFrom_append_of hout (outlineFrom_expanded x ha))
  obtain ⟨found, hfound, htokens⟩ := exists_scan_of_outline hedited houtlines
  refine ⟨found, ?_, htokens⟩
  rw [← hfound, lexemeText_append, lexemeText_append, htext, Draft.text_ofExpanded,
    Draft.text_ofExpanded]

/-- The outlines of a statement with collections expanded and a tail in front of the locking
clause, or at the end. -/
def Statement.tailed (s : Statement) (x : Fields (List String)) (tail : List Outline) :
    List Outline :=
  let place := s.placeOf (s.marker? .locking)
  ((s.tokens.map Token.outline).take place).flatMap (Outline.expanded x) ++ (tail ++
    ((s.tokens.map Token.outline).drop place).flatMap (Outline.expanded x))

/-- In front of the locking clause there is a gap. -/
def Statement.LockingApart (s : Statement) : Prop :=
  ∀ m ∈ s.marker? .locking, ∀ t ∈ s.tokens[m.first]?, t.gap ≠ []

instance (s : Statement) : Decidable s.LockingApart :=
  inferInstanceAs (Decidable (∀ m ∈ s.marker? .locking, ∀ t ∈ s.tokens[m.first]?, t.gap ≠ []))

/-- What a scan finds in an expanded statement with a printed text as its tail. -/
theorem Pieces.scan_tailed {d : Dialect} {s : Statement} {ps : List Piece} (h : Pieces d s ps)
    {x : Fields (List String)} (hx : AllNumbered x) (hapart : s.LockingApart) {i : Nat}
    (hi : s.tailIndex = .ok i) (hne : s.tokens ≠ []) {t : List Char} {os : List Outline}
    (hp : Prints (.ofDialect d) endsNumber t os) :
    ∃ found, scan d ((Draft.ofExpanded x s.tokens).putAfter i (' ' :: t)).text = .ok found ∧
      found.tokens.map Token.outline = s.tailed x os := by
  have hplace := Statement.tailIndex_eq_ok hne hi
  have hfound : ∀ m ∈ s.marker? .locking, m ∈ s.markers :=
    fun m hm => (Statement.marker?_eq_some hm).1
  have hle := Statement.placeOf_le _ _ hfound
  obtain ⟨hbefore, hafter⟩ := h.balanced.cut (Statement.cuts_placeOf h.tokens hfound)
  have hstable := h.stable
  rw [← List.take_append_drop (i + 1) ps] at hstable
  rw [Statement.tailed]
  rw [← hplace] at hle hbefore hafter ⊢
  have hgap : ∀ q ∈ (ps.drop (i + 1)).head?, q.token.gap ≠ [] := by
    intro q hq
    cases hm : s.marker? .locking with
    | none =>
      -- without a locking clause, the place is the end
      rw [hm] at hplace
      have hend : ps.length ≤ i + 1 := by
        rw [← h.length, hplace]
        exact Nat.le_refl _
      rw [List.drop_of_length_le hend] at hq
      cases hq
    | some m =>
      rw [hm] at hplace
      have hfirst : i + 1 = m.first := hplace
      -- the token behind the place is the first one of the locking clause
      refine hapart m hm q.token ?_
      rw [List.head?_drop] at hq
      rw [← hfirst, h.tokens, pieceTokens, List.getElem?_map, hq]
      rfl
  obtain ⟨found, hscan, htokens⟩ := exists_scan_put hx hstable hbefore hafter hp hgap
  refine ⟨found, ?_, by rw [htokens, h.take, h.drop]⟩
  have hlen : i < (Draft.ofExpanded x s.tokens).length := by
    rw [Draft.ofExpanded, List.length_map]
    omega
  rw [← hscan, Draft.text_putAfter hlen, List.append_assoc]
  simp only [Draft.ofExpanded, h.tokens, pieceTokens, List.map_take, List.map_drop]

end Sql

namespace Query

variable {d : Dialect} {order : Order}

theorem clauses_itemOutlines {items : List OrderItem}
    (h : ∀ i ∈ items, Sortable d i.expression) : clauses (itemOutlines d items) = [] := by
  -- neither the expression of an item nor its direction opens a clause
  have hitem : ∀ i ∈ items, ∀ us, clauses (i.outlines d ++ us) = clauses us := by
    intro i hi us
    obtain ⟨p, hp, hsortable⟩ := h i hi
    have hsilent : ∀ o ∈ [Outline.word i.direction.sql], o.Silent := by
      intro o ho next
      rw [List.mem_singleton.mp ho]
      cases i.direction <;> simp [Statement.clauseAt, Outline.word, Outline.token, Token.isWord,
        Token.word?, SortDirection.sql]
    have hfresh : FreshOutlines ([Outline.word i.direction.sql] ++ us) := by
      intro t ht
      obtain rfl := Option.some.inj ht
      cases i.direction <;> rfl
    rw [OrderItem.outlines, scanned, hp, List.append_assoc, clauses_append hfresh,
      clauses_append_of_silent hsilent]
    show clauses (p.tokens.map Token.outline) ++ clauses us = clauses us
    rw [hsortable.clauses, List.nil_append]
  fun_induction itemOutlines d items with
  | case1 => rfl
  | case2 i =>
    rw [← List.append_nil (i.outlines d), hitem i List.mem_cons_self]
    rfl
  | case3 i is hne ih =>
    -- a comma goes on with no clause either
    have hcomma : ∀ o ∈ [Outline.comma], o.Silent := by
      intro o ho
      rw [List.mem_singleton.mp ho]
      exact Outline.silent_of_kind (by decide)
    rw [hitem i List.mem_cons_self, ← List.singleton_append, clauses_append_of_silent hcomma]
    exact ih (fun j hj => h j (List.mem_cons_of_mem i hj))
      (fun j hj => hitem j (List.mem_cons_of_mem i hj))

/-- The clauses of a tail are those that its keywords name. -/
theorem clauses_tailOutlines (h : ∀ i ∈ order.items, Sortable d i.expression) (w : Window) :
    clauses (tailOutlines d order w) =
      (if order.isEmpty then [] else [.orderBy]) ++ [.limit, .offset] := by
  -- the limit and the offset are clauses of one word
  have hlimit : clauses [Outline.word "LIMIT", .number w.limit, .word "OFFSET",
      .number w.offset] = [.limit, .offset] := by
    simp [clauses, Statement.markersFrom, Statement.clauseAt, Outline.word, Outline.number,
      Outline.token, Token.isWord, Token.word?, Token.topLevel]
  have hfresh : FreshOutlines [Outline.word "LIMIT", .number w.limit, .word "OFFSET",
      .number w.offset] := by
    intro t ht
    obtain rfl := Option.some.inj ht
    rfl
  rw [tailOutlines, clauses_append hfresh, hlimit, Order.outlines]
  congr 1
  split
  · rfl
  · -- `ORDER` opens the clause, and `BY` belongs to it
    have hby : ∀ o ∈ [Outline.word "BY"], o.Silent := by
      intro o ho next
      rw [List.mem_singleton.mp ho]
      simp [Statement.clauseAt, Outline.word, Outline.token, Token.isWord, Token.word?]
    have hrest : clauses (Outline.word "BY" :: itemOutlines d order.items) = [] := by
      rw [← List.singleton_append, clauses_append_of_silent hby, clauses_itemOutlines h]
    rw [clauses_cons, hrest]
    rfl

/-- No keyword goes on in a tail. -/
theorem fresh_tailOutlines (w : Window) (os : List Outline) :
    FreshOutlines (tailOutlines d order w ++ os) := by
  intro t ht
  rw [tailOutlines, Order.outlines] at ht
  split at ht
  · obtain rfl := Option.some.inj ht
    rfl
  · obtain rfl := Option.some.inj ht
    rfl

theorem kind_itemOutlines {items : List OrderItem} (h : ∀ i ∈ items, Sortable d i.expression) :
    ∀ o ∈ itemOutlines d items, o.kind ≠ .semicolon := by
  -- an expression that can be sorted by has no semicolon, and no direction is one
  have hitem : ∀ i ∈ items, ∀ o ∈ i.outlines d, o.kind ≠ .semicolon := by
    intro i hi o ho
    obtain ⟨p, hp, hsortable⟩ := h i hi
    rw [OrderItem.outlines, scanned, hp] at ho
    rcases List.mem_append.mp ho with ho | ho
    · obtain ⟨t, ht, rfl⟩ := List.mem_map.mp ho
      exact hsortable.semicolon t ht
    · rw [List.mem_singleton.mp ho]
      exact nofun
  intro o ho
  -- the items and the commas between them
  fun_induction itemOutlines d items with
  | case1 => cases ho
  | case2 i => exact hitem i List.mem_cons_self o ho
  | case3 i is hne ih =>
    rcases List.mem_append.mp ho with ho | ho
    · exact hitem i List.mem_cons_self o ho
    · rcases List.mem_cons.mp ho with rfl | ho
      · exact nofun
      · exact ih (fun j hj => h j (List.mem_cons_of_mem i hj))
          (fun j hj => hitem j (List.mem_cons_of_mem i hj)) ho

theorem kind_tailOutlines (h : ∀ i ∈ order.items, Sortable d i.expression) (w : Window) :
    ∀ o ∈ tailOutlines d order w, o.kind ≠ .semicolon := by
  intro o ho
  rw [tailOutlines, Order.outlines] at ho
  rcases List.mem_append.mp ho with ho | ho
  · -- the clause of the order is there unless the order is empty
    split at ho
    · cases ho
    · rcases List.mem_cons.mp ho with rfl | ho
      · exact nofun
      · rcases List.mem_cons.mp ho with rfl | ho
        · exact nofun
        · exact kind_itemOutlines h o ho
  · simp only [List.mem_cons, List.not_mem_nil, or_false] at ho
    rcases ho with rfl | rfl | rfl | rfl
    all_goals exact nofun

/-- The clauses of a statement with a tail are its own and those of the tail. -/
theorem clauses_tailed (s : Statement) (x : Fields (List String)) (w : Window) :
    clauses (s.tailed x (tailOutlines d order w)) =
      clauses ((s.tokens.map Token.outline).take (s.placeOf (s.marker? .locking))) ++
        (clauses (tailOutlines d order w) ++
          clauses ((s.tokens.map Token.outline).drop (s.placeOf (s.marker? .locking)))) := by
  have hfresh : FreshOutlines (((s.tokens.map Token.outline).drop
      (s.placeOf (s.marker? .locking))).flatMap (Outline.expanded x)) := by
    cases hm : s.marker? .locking with
    | none =>
      -- without a locking clause nothing stands behind the tail
      have hnil : (s.tokens.map Token.outline).drop (s.placeOf none) = [] :=
        List.drop_of_length_le (by rw [List.length_map]; exact Nat.le_refl _)
      rw [hnil]
      exact nofun
    | some m => exact ((Statement.cut_of_marker? hm).1.expanded x).fresh
  rw [Statement.tailed, clauses_append (fresh_tailOutlines w _), clauses_append hfresh,
    clauses_expanded, clauses_expanded]

theorem kind_tailed {s : Statement} (hs : ∀ t ∈ s.tokens, t.kind ≠ .semicolon)
    (h : ∀ i ∈ order.items, Sortable d i.expression) (x : Fields (List String)) (w : Window) :
    ∀ o ∈ s.tailed x (tailOutlines d order w), o.kind ≠ .semicolon := by
  have hown : ∀ os : List Outline, (∀ o ∈ os, o ∈ s.tokens.map Token.outline) →
      ∀ u ∈ os.flatMap (Outline.expanded x), u.kind ≠ .semicolon := by
    intro os hos u hu
    obtain ⟨o, ho, hu⟩ := List.mem_flatMap.mp hu
    obtain ⟨t, ht, rfl⟩ := List.mem_map.mp (hos o ho)
    exact Outline.kind_expanded_ne (hs t ht) u hu
  intro o ho
  -- an outline lies in front of the tail, in it, or behind it
  rcases List.mem_append.mp ho with ho | ho
  · exact hown _ (fun o => List.mem_of_mem_take) _ ho
  · rcases List.mem_append.mp ho with ho | ho
    · exact kind_tailOutlines h _ _ ho
    · exact hown _ (fun o => List.mem_of_mem_drop) _ ho

/-- Normalized parameters of which none is an empty collection have numbered elements. -/
theorem allNumbered_of_normalize {params : Params} {n : Normalized}
    (hn : normalize d params = .ok n)
    (hfull : ∀ p ∈ params, ∀ v, p.2.resolve = .ok v → v.elements? ≠ some []) :
    AllNumbered n.expansions := by
  intro name names hget
  obtain ⟨p, hp, v, vs, rfl, hv, hvs, rfl⟩ := expansions_of_normalize hn hget
  constructor
  · intro hnil
    -- a collection without names would have no elements
    rw [elementNames, List.map_eq_nil_iff, List.range_eq_nil, List.length_eq_zero_iff] at hnil
    rw [hnil] at hvs
    exact hfull p hp v hv hvs
  · intro element helement
    obtain ⟨i, -, rfl⟩ := List.mem_map.mp helement
    exact ⟨i, rfl⟩

/-- A text whose statement has a clause that paging adds is not compiled, whatever else is
asked for. -/
theorem compile_of_refused {sql : String} {s : Statement} {params : Params} {n : Normalized}
    (hn : normalize d params = .ok n) (hs : parse d sql = .ok s)
    (hlimit : .limit ∈ clauses (s.tokens.map Token.outline)) (pager : Pager)
    (cursor : Option Cursor) :
    ∃ fault, compile d sql order params pager cursor = .error (.insertionPoint fault) := by
  have hrefused : Clause.limit ∈ Statement.refused !order.isEmpty := by
    simp [Statement.refused]
  obtain ⟨fault, hfault⟩ := Statement.ensurePageable_of_clause hlimit hrefused
  refine ⟨fault, ?_⟩
  simp only [compile, hn, hs, hfault, bind, Except.bind, Except.mapError]

/-- In a query without a cursor, a scan finds the tokens of the statement, with collections
expanded, and those of the tail in front of the locking clause, or at the end. A locking
clause is still one, with the tokens that it had, and the query is not compiled again.

The gap in front of the locking clause is what keeps it apart from the number at the end of
the tail. -/
theorem scan_compile_skipping {sql : String} {params : Params} {pager : Pager} {q : Query}
    {n : Normalized} {s : Statement} (hn : normalize d params = .ok n) (hs : parse d sql = .ok s)
    (hfull : ∀ p ∈ params, ∀ v, p.2.resolve = .ok v → v.elements? ≠ some [])
    (horder : ∀ i ∈ order.items, Sortable d i.expression) (hapart : s.LockingApart)
    (hq : compile d sql order params pager none = .ok q) :
    ∃ found s', scan d q.sql.toList = .ok found ∧ parse d q.sql = .ok s' ∧
      s'.tokens = found.tokens ∧
      found.tokens.map Token.outline =
        s.tailed n.expansions (tailOutlines d order q.window) ∧
      (∀ m ∈ s.marker? .locking, ∃ m' ∈ s'.marker? .locking,
        (s'.tokens.map Token.outline).drop m'.first =
          ((s.tokens.map Token.outline).drop m.first).flatMap (Outline.expanded n.expansions)) ∧
      ∀ order' params' n' pager' cursor', normalize d params' = .ok n' →
        ∃ fault, compile d q.sql order' params' pager' cursor' =
          .error (.insertionPoint fault) := by
  have hx := allNumbered_of_normalize hn hfull
  obtain ⟨hfetched, hskipped⟩ := window_nonneg_of_compile hq
  obtain ⟨tail, htail, hprints⟩ := prints_tail horder hfetched hskipped
  have hbase := mapError_eq_ok.mp hs
  have hne := (Statement.parse_eq_ok hbase).1
  obtain ⟨ps, hpieces⟩ := Pieces.of_parse hbase
  -- the text of the query is that of the expanded draft with the tail in it
  have htext : ∃ i, s.tailIndex = .ok i ∧
      q.sql.toList = ((Draft.ofExpanded n.expansions s.tokens).putAfter i (' ' :: tail)).text := by
    obtain ⟨n', s', draft, seek, i, hn', hs', -, hdraft, hseek, hi, hsql⟩ :=
      compile_eq_ok_iff.mp hq
    obtain rfl := Except.ok.inj (hn.symm.trans hn')
    obtain rfl := Except.ok.inj (hs.symm.trans hs')
    obtain ⟨w, -, rfl⟩ := skipping_eq_ok_iff.mp hseek
    rw [expand, mapError_eq_ok, Draft.expanded] at hdraft
    obtain rfl := Draft.expandFrom_eq_ok hdraft
    refine ⟨i, hi, ?_⟩
    rw [hsql] at htail ⊢
    rw [String.toList_ofList, ← htail]
  obtain ⟨i, hi, hsql⟩ := htext
  obtain ⟨found, hscan, htokens⟩ := hpieces.scan_tailed hx hapart hi hne hprints
  rw [← hsql] at hscan
  -- the limit that was put is found again, which is why no query can be paged twice
  have hlimit : .limit ∈ clauses (found.tokens.map Token.outline) := by
    rw [htokens, clauses_tailed, clauses_tailOutlines horder]
    simp
  have hsome : found.tokens ≠ [] := by
    intro hnil
    rw [hnil] at hlimit
    cases hlimit
  have hsemicolon : ∀ t ∈ found.tokens, t.kind ≠ .semicolon := by
    intro t ht
    have hmem : t.outline ∈ s.tailed n.expansions (tailOutlines d order q.window) := by
      rw [← htokens]
      exact List.mem_map_of_mem ht
    exact kind_tailed (Statement.noSemicolon_of_parse hbase) horder _ _ _ hmem
  have hparse : parse d q.sql = .ok { tokens := found.tokens, rest := found.rest } := by
    rw [parse, Statement.parse_of_scan hscan hsome hsemicolon]
    rfl
  refine ⟨found, _, hscan, hparse, rfl, htokens, ?_, ?_⟩
  · intro m hm
    obtain ⟨hstart, hbefore⟩ := Statement.cut_of_marker? hm
    have hsplit : found.tokens.map Token.outline =
        (((s.tokens.map Token.outline).take m.first).flatMap (Outline.expanded n.expansions) ++
          tailOutlines d order q.window) ++
        ((s.tokens.map Token.outline).drop m.first).flatMap (Outline.expanded n.expansions) := by
      rw [htokens, Statement.tailed, hm, List.append_assoc]
      rfl
    -- there is no locking clause in front, so that the first one found is the one that was there
    have hnone : Clause.locking ∉ clauses
        (((s.tokens.map Token.outline).take m.first).flatMap (Outline.expanded n.expansions) ++
          tailOutlines d order q.window) := by
      have hfresh : FreshOutlines (tailOutlines d order q.window ++ []) :=
        fresh_tailOutlines q.window []
      rw [List.append_nil] at hfresh
      rw [clauses_append hfresh, clauses_expanded, clauses_tailOutlines horder, List.mem_append]
      rintro (hmem | hmem)
      · exact hbefore hmem
      · split at hmem <;> simp at hmem
    obtain ⟨m', hm', hfirst⟩ :=
      Statement.marker?_of_clauses (s := ⟨found.tokens, found.rest⟩) hsplit hnone
        (hstart.expanded n.expansions)
    refine ⟨m', hm', ?_⟩
    rw [hfirst, hsplit, List.drop_left]
  · intro order' params' n' pager' cursor' hn'
    exact compile_of_refused hn' hparse hlimit pager' cursor'

/-- What evaluation finds about an expression that can be sorted by. -/
theorem sortable_of_any {s : String}
    (h : (scan d s.toList).toOption.any (fun p => decide p.Sortable) = true) : Sortable d s :=
  exists_eq_ok_of_any h

/-- A collection, an order with commas of its own, and a locking clause behind a space. -/
theorem scan_compile_skipping_of_locking :
    ∃ q s' m', compile .postgres "SELECT a FROM t WHERE b IN (:ids) FOR UPDATE"
        ⟨[⟨"f(a, b)", .ascending⟩, ⟨"c", .descending⟩]⟩ [("ids", .array [.int 7, .int 8])]
        (.ofPage 3 10) none = .ok q ∧
      q.sql = "SELECT a FROM t WHERE b IN (:ids__0, :ids__1)" ++
        " ORDER BY f(a, b) ASC, c DESC LIMIT 11 OFFSET 20 FOR UPDATE" ∧
      parse .postgres q.sql = .ok s' ∧ s'.marker? .locking = some m' ∧
      (s'.tokens.map Token.outline).drop m'.first = [.word "FOR", .word "UPDATE"] ∧
      ∀ order' pager' cursor', ∃ fault,
        compile .postgres q.sql order' [] pager' cursor' = .error (.insertionPoint fault) := by
  obtain ⟨n, hn, -⟩ : ∃ n, normalize .postgres [("ids", .array [.int 7, .int 8])] = .ok n ∧
      True := exists_eq_ok_of_any (by decide +kernel)
  obtain ⟨s, hs, hapart, hlocking⟩ :
      ∃ s, parse .postgres "SELECT a FROM t WHERE b IN (:ids) FOR UPDATE" = .ok s ∧
        s.LockingApart ∧ (s.marker? .locking).map (fun m =>
          (s.tokens.map Token.outline).drop m.first) = some [.word "FOR", .word "UPDATE"] :=
    exists_eq_ok_of_any (by decide +kernel)
  obtain ⟨q, hq, hsql⟩ :
      ∃ q, compile .postgres "SELECT a FROM t WHERE b IN (:ids) FOR UPDATE"
          ⟨[⟨"f(a, b)", .ascending⟩, ⟨"c", .descending⟩]⟩ [("ids", .array [.int 7, .int 8])]
          (.ofPage 3 10) none = .ok q ∧
        q.sql = "SELECT a FROM t WHERE b IN (:ids__0, :ids__1)" ++
          " ORDER BY f(a, b) ASC, c DESC LIMIT 11 OFFSET 20 FOR UPDATE" :=
    exists_eq_ok_of_any (by decide +kernel)
  -- no list is empty, and each expression can be sorted by
  have hfull : ∀ p ∈ [("ids", Value.array [.int 7, .int 8])], ∀ v, p.2.resolve = .ok v →
      v.elements? ≠ some [] := by
    intro p hp v hv
    rw [List.mem_singleton.mp hp] at hv
    cases hv
    exact nofun
  have horder : ∀ i ∈ [OrderItem.mk "f(a, b)" .ascending, ⟨"c", .descending⟩],
      Sortable .postgres i.expression := by
    intro i hi
    rcases List.mem_cons.mp hi with rfl | hi
    · exact sortable_of_any (by decide +kernel)
    · rw [List.mem_singleton.mp hi]
      exact sortable_of_any (by decide +kernel)
  -- the locking clause of the query is the one of the statement, moved behind the tail
  obtain ⟨-, s', -, hparse, -, -, hkept, hagain⟩ :=
    scan_compile_skipping hn hs hfull horder hapart hq
  obtain ⟨m, hm, hdrop⟩ := Option.map_eq_some_iff.mp hlocking
  obtain ⟨m', hm', hdrop'⟩ := hkept m hm
  rw [hdrop] at hdrop'
  refine ⟨q, s', m', hq, hsql, hparse, hm', hdrop', ?_⟩
  intro order' pager' cursor'
  exact hagain order' [] .empty pager' cursor' rfl

/-- Without a gap, the first letters of the locking clause go on with the number at the end
of the tail: the tokens are others, and no locking clause is left. -/
theorem locking_lost :
    ∃ s q s', parse .mySql "SELECT a FROM t WHERE b = 'x'FOR UPDATE" = .ok s ∧
      (s.marker? .locking).isSome ∧ Sortable .mySql "a" ∧
      compile .mySql "SELECT a FROM t WHERE b = 'x'FOR UPDATE" ⟨[⟨"a", .ascending⟩]⟩ []
        (.ofPage 1 10) none = .ok q ∧
      q.sql = "SELECT a FROM t WHERE b = 'x' ORDER BY a ASC LIMIT 11 OFFSET 0FOR UPDATE" ∧
      parse .mySql q.sql = .ok s' ∧
      s'.tokens.map Token.outline ≠
        s.tailed [] (tailOutlines .mySql ⟨[⟨"a", .ascending⟩]⟩ q.window) ∧
      s'.marker? .locking = none := by
  obtain ⟨s, hs, hlocking⟩ :
      ∃ s, parse .mySql "SELECT a FROM t WHERE b = 'x'FOR UPDATE" = .ok s ∧
        (s.marker? .locking).isSome = true ∧
          Outline.word "FOR" ∈ s.tailed [] [] := exists_eq_ok_of_any (by decide +kernel)
  obtain ⟨q, hq, hsql⟩ :
      ∃ q, compile .mySql "SELECT a FROM t WHERE b = 'x'FOR UPDATE" ⟨[⟨"a", .ascending⟩]⟩ []
          (.ofPage 1 10) none = .ok q ∧
        q.sql = "SELECT a FROM t WHERE b = 'x' ORDER BY a ASC LIMIT 11 OFFSET 0FOR UPDATE" :=
    exists_eq_ok_of_any (by decide +kernel)
  -- the number of the offset and the word behind it are one lexeme of the query
  obtain ⟨s', hs', hword, hnone⟩ :
      ∃ s', parse .mySql
          "SELECT a FROM t WHERE b = 'x' ORDER BY a ASC LIMIT 11 OFFSET 0FOR UPDATE" = .ok s' ∧
        Outline.word "FOR" ∉ s'.tokens.map Token.outline ∧ s'.marker? .locking = none :=
    exists_eq_ok_of_any (by decide +kernel)
  refine ⟨s, q, s', hs, hlocking.1, sortable_of_any (by decide +kernel), hq, hsql, ?_, ?_, hnone⟩
  · rw [hsql, hs']
  · -- the word is among the tokens that were meant, and not among those that are found
    intro heq
    rw [heq] at hword
    apply hword
    rcases List.mem_append.mp hlocking.2 with hmem | hmem
    · exact List.mem_append_left _ hmem
    · exact List.mem_append_right _ (List.mem_append_right _ hmem)

end Query

end SqlPaging
