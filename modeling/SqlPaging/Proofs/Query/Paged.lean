import SqlPaging.Proofs.Query.Count

/-!
# SqlPaging — the end of a paged query

The order and the limit of a page stand at the end of a query, behind the expanded statement. The
expressions of the order are put there as they are, so that what a scan finds at the end depends
on them: a comment, a quote or a parenthesis that an expression leaves open takes what follows
with it, the limit included. An order whose clause is scanned on its own has none, and the query
ends with its limit. A semicolon cannot end the query in front of it, because an order does not
accept an expression with a semicolon.

Main results:

* `Order.semicolonFree_of_ofPairs` — an order that was pushed has no semicolon.
* `Sql.Whole.exists_scan` — the lexemes of a statement with printed text behind them.
* `scan_compile_paged` — a query ends with its limit.
* `limit_commented_out` — a query that does not.
-/

namespace SqlPaging

open Sql

/-! ## Texts without semicolons -/

namespace Order

/-- The characters of texts with a separator between them. -/
theorem mem_intercalate {sep : String} {c : Char} {ss : List String}
    (h : c ∈ (sep.intercalate ss).toList) : c ∈ sep.toList ∨ ∃ s ∈ ss, c ∈ s.toList := by
  rw [String.toList_intercalate, List.intercalate] at h
  obtain ⟨part, hpart, hc⟩ := List.exists_of_mem_flatten h
  obtain ⟨i, hi⟩ := List.mem_iff_getElem?.mp hpart
  rw [List.getElem?_intersperse] at hi
  -- texts and separators take turns
  split at hi
  · obtain ⟨s, hs, rfl⟩ := List.mem_map.mp (List.mem_of_getElem? hi)
    exact .inr ⟨s, hs, hc⟩
  · split at hi
    · rw [← Option.some.inj hi] at hc
      exact .inl hc
    · cases hi

/-- No expression has a semicolon. -/
def SemicolonFree (o : Order) : Prop := ∀ i ∈ o.items, ';' ∉ i.expression.toList

/-- An expression that is taken has no semicolon. -/
theorem SemicolonFree.push {o o' : Order} (h : o.SemicolonFree) {e : String} {d : SortDirection}
    (hpush : o.push e d = .ok o') : o'.SemicolonFree := by
  obtain ⟨-, hfree, -, rfl⟩ := push_eq_ok_iff.mp hpush
  intro i hi
  rcases List.mem_append.mp hi with hi | hi
  · exact h i hi
  · rw [List.mem_singleton.mp hi]
    exact hfree

/-- An order that is made of expressions one by one has no semicolon. -/
theorem semicolonFree_of_ofPairs {pairs : List (String × SortDirection)} {o : Order}
    (h : ofPairs pairs = .ok o) : o.SemicolonFree :=
  foldlM_induction h nofun fun _ _ _ _ hfree hpush => hfree.push hpush

theorem SemicolonFree.sql {o : Order} (h : o.SemicolonFree) : ';' ∉ o.sql.toList := by
  rw [Order.sql]
  split
  · exact List.not_mem_nil
  · rw [String.toList_append, List.mem_append]
    rintro (hc | hc)
    · exact absurd hc (by decide)
    · -- a semicolon would be in an item or between two of them
      rcases mem_intercalate hc with hc | ⟨s, hs, hc⟩
      · exact absurd hc (by decide)
      · obtain ⟨i, hi, rfl⟩ := List.mem_map.mp hs
        rw [itemSql, String.toList_append, String.toList_append, List.mem_append,
          List.mem_append] at hc
        rcases hc with (hc | hc) | hc
        · exact h i hi hc
        · exact absurd hc (by decide)
        · cases hdir : i.direction with
          | ascending =>
            rw [hdir] at hc
            exact absurd hc (by decide)
          | descending =>
            rw [hdir] at hc
            exact absurd hc (by decide)

end Order

namespace Sql

variable {d : Dialect}

/-- A scan finds a semicolon only where there is one. -/
theorem kind_ne_semicolon_of_scan {s : List Char} {found : Scan} (h : scan d s = .ok found)
    (hs : ';' ∉ s) : ∀ t ∈ found.tokens, t.kind ≠ .semicolon := by
  obtain ⟨ls, hstable, rfl, hnest⟩ := lexemes_of_scan h
  intro t ht hkind
  obtain ⟨l, hl, hsame, -⟩ := exists_of_mem_outline (outlineFrom_of_nestFrom hnest) t.outline
    (List.mem_map_of_mem ht)
  obtain ⟨before, after, rfl⟩ := List.append_of_mem hl
  obtain ⟨c, u, htext, hlexeme, -⟩ := stable_cons_iff.mp hstable.right
  rw [lexeme_eq_apply, ← hsame] at hlexeme
  -- only a semicolon starts a token of that kind
  have hkinds := Rule.mem_kinds hlexeme
  rw [show t.outline.kind = .semicolon from hkind] at hkinds
  obtain rfl := start_of_semicolon hkinds
  rw [lexemeText_append, lexemeText_cons, htext] at hs
  simp at hs

/-- What a scan finds in the text of a statement and a printed text behind it. -/
theorem Whole.exists_scan {ls : List Lexeme} (h : Whole (.ofDialect d) ls) {p : Char → Bool}
    {s : List Char} {os : List Outline} (hs : Prints (.ofDialect d) p s os)
    (hos : ∀ o ∈ os, o.kind ≠ .semicolon) :
    ∃ base found, scan d (lexemeText ls) = .ok base ∧
      scan d (lexemeText ls ++ ' ' :: s) = .ok found ∧
      found.tokens.map Token.outline = base.tokens.map Token.outline ++ os ∧
      ∀ t ∈ found.tokens, t.kind ≠ .semicolon := by
  obtain ⟨ks, rfl, hks, hstable⟩ := hs
  obtain ⟨us, hus⟩ := levelFrom_eq_some.mp h.closed
  obtain ⟨base, hbase, hown⟩ := exists_scan_of_outline h.apart.stable hus
  -- nothing stands behind the printed text
  have hend := hstable [] stable_nil nofun
  rw [List.append_nil] at hend
  -- the space keeps the printed text apart from the lexemes in front of it
  have hall := h.apart _ hend.space (separated_cons (by decide) _)
  obtain ⟨found, hfound, htokens⟩ :=
    exists_scan_of_outline hall (outlineFrom_append_of hus (outlineFrom_space hks))
  rw [lexemeText_append] at hfound
  refine ⟨base, found, hbase, hfound, by rw [hown, htokens], fun t ht => ?_⟩
  -- a token comes from one of the two parts
  have hmem : t.outline ∈ us ++ os := by
    rw [← htokens]
    exact List.mem_map_of_mem ht
  rcases List.mem_append.mp hmem with hmem | hmem
  · obtain ⟨l, hl, hkind, -⟩ := exists_of_mem_outline hus _ hmem
    rw [show t.kind = l.kind from hkind]
    exact h.semicolon l hl
  · exact hos t.outline hmem

end Sql

/-! ## The limit -/

/-- The outlines of the limit of a window. -/
def windowOutlines (w : Window) : List Outline :=
  [.word "LIMIT", .number w.limit, .word "OFFSET", .number w.offset]

/-- The limit and the offset are written without a semicolon. -/
theorem kind_windowOutlines (w : Window) : ∀ o ∈ windowOutlines w, o.kind ≠ .semicolon := by
  simp [windowOutlines, Outline.word, Outline.number]

namespace Query

variable {d : Dialect} {sql : String} {order : Order} {params : Params} {pager : Pager} {q : Query}
  {n : Normalized} {s : Statement}

/-- A tail prints the tokens of an order that is scanned on its own, and those of a limit. -/
theorem prints_tail_of_scans (horder : Scans d order.sql) {w : Window}
    (hlimit : 0 ≤ w.limit.toInt) (hoffset : 0 ≤ w.offset.toInt) :
    ∃ text, tail order w = ' ' :: text ∧
      Prints (.ofDialect d) endsNumber text (scanned d order.sql ++ windowOutlines w) := by
  have hword : ∀ w : String, w.toList ≠ [] → w.toList.all Char.isAlpha = true →
      Prints (.ofDialect d) endsWord w.toList [.word w] := fun w => Prints.word
  -- from the end on, as each word needs to know what stands behind it
  have hskip := (hword "OFFSET" (by decide) (by decide)).spaced (prints_text hoffset) (by decide)
  have hcount := (prints_text hlimit).spaced hskip (by decide)
  have hpage := (hword "LIMIT" (by decide) (by decide)).spaced hcount (by decide)
  cases hempty : order.isEmpty with
  | true =>
    have hnone : scanned d order.sql = [] := by
      rw [Order.sql, if_pos hempty]
      rfl
    refine ⟨_, ?_, by rw [hnone]; exact hpage⟩
    simp [tail, Order.suffix, hempty]
  | false =>
    obtain ⟨found, hfound, hrest⟩ := horder
    -- an order stands in front, with its own words
    have hclause := (Prints.scanned hfound hrest).spaced hpage (by decide)
    have hown : scanned d order.sql = found.tokens.map Token.outline := by
      rw [scanned, hfound]
      rfl
    refine ⟨_, ?_, by rw [hown]; exact hclause⟩
    simp [tail, Order.suffix, hempty]

/-- A query without a cursor, for a statement without a locking clause, ends with the limit of its
window, if the clause of its order is scanned on its own: a scan finds the tokens of the expanded
statement, those of the order, and then the limit and the offset, outside of all parentheses. If
the expressions of the order were pushed, there is no semicolon. -/
theorem scan_compile_paged {pairs : List (String × SortDirection)}
    (horder : Order.ofPairs pairs = .ok order) (hn : normalize d params = .ok n)
    (hs : parse d sql = .ok s) (hlocking : s.marker? .locking = none)
    (hfits : s.NullsFit (.ofDialect d) n.expansions) (hscans : Scans d order.sql)
    (hq : compile d sql order params pager none = .ok q) :
    ∃ draft base found, expand s n = .ok draft ∧ scan d draft.text = .ok base ∧
      scan d q.sql.toList = .ok found ∧
      found.tokens.map Token.outline =
        base.tokens.map Token.outline ++ (scanned d order.sql ++ windowOutlines q.window) ∧
      ∀ t ∈ found.tokens, t.kind ≠ .semicolon := by
  obtain ⟨n', s', draft, -, -, hn', hs', -, hdraft, -⟩ := compile_eq_ok_iff.mp hq
  obtain rfl := Except.ok.inj (hn.symm.trans hn')
  obtain rfl := Except.ok.inj (hs.symm.trans hs')
  obtain ⟨ls, hwhole, htext⟩ := exists_whole_of_expand hn hs hfits hdraft
  obtain ⟨hfetched, hskipped⟩ := window_nonneg_of_compile hq
  obtain ⟨text, htail, hprints⟩ := prints_tail_of_scans hscans hfetched hskipped
  -- without a locking clause, the tail stands behind the last token
  obtain ⟨-, i, hi, hlt, hsql⟩ := compile_skipping_text hn hs hdraft hq
  have hlast : i = draft.length - 1 := by
    have hne := (Statement.parse_eq_ok (mapError_eq_ok.mp hs)).1
    have hplace : i + 1 = draft.length := by
      rw [length_of_expand hdraft, Statement.tailIndex_eq_ok hne hi, hlocking]
      rfl
    omega
  rw [hlast, Draft.text_putAfter_last (List.ne_nil_of_length_pos (by omega)), htail] at hsql
  -- neither the order, which was pushed, nor the limit has a semicolon
  have hfree : ∀ o ∈ scanned d order.sql ++ windowOutlines q.window, o.kind ≠ .semicolon := by
    intro o ho
    rcases List.mem_append.mp ho with ho | ho
    · obtain ⟨found, hfound, -⟩ := hscans
      rw [scanned, hfound] at ho
      obtain ⟨t, ht, rfl⟩ := List.mem_map.mp ho
      exact kind_ne_semicolon_of_scan hfound (Order.semicolonFree_of_ofPairs horder).sql t ht
    · exact kind_windowOutlines _ o ho
  obtain ⟨base, found, hbase, hfound, houtlines, hsemicolon⟩ := hwhole.exists_scan hprints hfree
  rw [htext] at hbase hfound
  exact ⟨draft, base, found, hdraft, hbase, by rw [hsql]; exact hfound, houtlines, hsemicolon⟩

/-- Expressions with dashes in a string and a space in a name, for a statement behind which a
semicolon and a comment are dropped. -/
theorem scan_compile_paged_of_quotes :
    ∃ (order : Order) (q : Query) (front : List Outline) (found : Scan),
      Order.ofPairs [(" f(a, '--') ", .ascending), ("\"x y\"", .descending)] = .ok order ∧
      compile .postgres "SELECT a FROM t WHERE b IN (:none); -- all" order
        [("none", .array [])] (.ofPage 3 10) none = .ok q ∧
      q.sql = "SELECT a FROM t WHERE b IN (NULL) " ++
        "ORDER BY f(a, '--') ASC, \"x y\" DESC LIMIT 11 OFFSET 20" ∧
      scan .postgres q.sql.toList = .ok found ∧
      found.tokens.map Token.outline = front ++ windowOutlines q.window ∧
      ∀ t ∈ found.tokens, t.kind ≠ .semicolon := by
  obtain ⟨order, horder, rfl⟩ : ∃ order, Order.ofPairs
        [(" f(a, '--') ", .ascending), ("\"x y\"", .descending)] = .ok order ∧
      order = ⟨[⟨"f(a, '--')", .ascending⟩, ⟨"\"x y\"", .descending⟩]⟩ :=
    exists_eq_ok_of_any (by decide +kernel)
  obtain ⟨n, hn, hx⟩ : ∃ n, normalize .postgres [("none", .array [])] = .ok n ∧
      n.expansions = [("none", [])] := exists_eq_ok_of_any (by decide +kernel)
  obtain ⟨s, hs, hlocking, hfits⟩ : ∃ s, parse .postgres
        "SELECT a FROM t WHERE b IN (:none); -- all" = .ok s ∧ s.marker? .locking = none ∧
      s.NullsFit (.ofDialect .postgres) [("none", [])] := exists_eq_ok_of_any (by decide +kernel)
  obtain ⟨q, hq, hsql⟩ : ∃ q, compile .postgres "SELECT a FROM t WHERE b IN (:none); -- all"
        ⟨[⟨"f(a, '--')", .ascending⟩, ⟨"\"x y\"", .descending⟩]⟩ [("none", .array [])]
        (.ofPage 3 10) none = .ok q ∧
      q.sql = "SELECT a FROM t WHERE b IN (NULL) " ++
        "ORDER BY f(a, '--') ASC, \"x y\" DESC LIMIT 11 OFFSET 20" :=
    exists_eq_ok_of_any (by decide +kernel)
  have hscans : Scans .postgres
      (Order.sql ⟨[⟨"f(a, '--')", .ascending⟩, ⟨"\"x y\"", .descending⟩]⟩) :=
    (ground_of_any (by decide +kernel)).scans
  rw [← hx] at hfits
  obtain ⟨draft, base, found, -, -, hfound, houtlines, hsemicolon⟩ :=
    scan_compile_paged horder hn hs hlocking hfits hscans hq
  rw [← List.append_assoc] at houtlines
  exact ⟨_, q, _, found, horder, hq, hsql, hfound, houtlines, hsemicolon⟩

/-- A comment at the end of an expression takes the limit with it. -/
theorem limit_commented_out :
    ∃ order s n q found, Order.ofPairs [("id --", .ascending)] = .ok order ∧
      parse .sqlite "SELECT id FROM t" = .ok s ∧ s.marker? .locking = none ∧
      normalize .sqlite [] = .ok n ∧ s.NullsFit (.ofDialect .sqlite) n.expansions ∧
      compile .sqlite "SELECT id FROM t" order [] (.ofPage 1 10) none = .ok q ∧
      q.sql = "SELECT id FROM t ORDER BY id -- ASC LIMIT 11 OFFSET 0" ∧
      scan .sqlite q.sql.toList = .ok found ∧
      found.tokens.map Token.outline =
        [.word "SELECT", .word "id", .word "FROM", .word "t", .word "ORDER", .word "BY",
          .word "id"] := by
  obtain ⟨order, horder, rfl⟩ : ∃ order, Order.ofPairs [("id --", .ascending)] = .ok order ∧
      order = ⟨[⟨"id --", .ascending⟩]⟩ := exists_eq_ok_of_any (by decide +kernel)
  obtain ⟨s, hs, hlocking⟩ : ∃ s, parse .sqlite "SELECT id FROM t" = .ok s ∧
      s.marker? .locking = none := exists_eq_ok_of_any (by decide +kernel)
  obtain ⟨q, hq, hsql⟩ : ∃ q, compile .sqlite "SELECT id FROM t" ⟨[⟨"id --", .ascending⟩]⟩ []
        (.ofPage 1 10) none = .ok q ∧
      q.sql = "SELECT id FROM t ORDER BY id -- ASC LIMIT 11 OFFSET 0" :=
    exists_eq_ok_of_any (by decide +kernel)
  obtain ⟨found, hfound, houtlines⟩ : ∃ found, scan .sqlite
        "SELECT id FROM t ORDER BY id -- ASC LIMIT 11 OFFSET 0".toList = .ok found ∧
      found.tokens.map Token.outline =
        [.word "SELECT", .word "id", .word "FROM", .word "t", .word "ORDER", .word "BY",
          .word "id"] := exists_eq_ok_of_any (by decide +kernel)
  exact ⟨_, s, _, q, found, horder, hs, hlocking, normalize_nil _,
    Statement.nullsFit_of_not_dollarQuotes rfl s, hq, hsql, by rwa [hsql], houtlines⟩

end Query

end SqlPaging
