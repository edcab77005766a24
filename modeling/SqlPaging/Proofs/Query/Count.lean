import SqlPaging.Proofs.Param.Binds
import SqlPaging.Proofs.Query.Bound
import SqlPaging.Proofs.Sql.Rigid

/-!
# SqlPaging — counting the rows of a query

A count query puts a statement with its collections expanded into parentheses, with a few words
around them. The tokens of the statement are found again there, one parenthesis deeper, whatever
clauses it has, because nothing of it reaches behind the closing parenthesis: semicolons and
comments at its end are dropped, and regions and parentheses are closed. Only a word for an empty
collection could open a region anew, by taking the letter of an escape string away from it.

The paged query without a cursor has the same text, with the order and the limit put into it.

Main results:

* `scan_count` — what a scan finds in a count query, and how it goes with the paged one.
* `count_unclosed` — an empty collection that makes a number take the letter of a string.
-/

namespace SqlPaging

open Sql

namespace Sql

/-! ## Outlines in a count query -/

/-- The outlines in front of a counted statement. -/
def countFront : List Outline :=
  [.word "SELECT", .word "COUNT", ⟨.openParen, ['('], 0⟩, ⟨.symbol, ['*'], 1⟩,
    ⟨.closeParen, [')'], 0⟩, .word "FROM", ⟨.openParen, ['('], 0⟩]

/-- The outlines behind a counted statement. -/
def countBack : List Outline :=
  [⟨.closeParen, [')'], 0⟩, .word "AS", .word Query.countAlias]

/-- The outlines of a query that counts the rows of a statement with the given outlines. -/
def counted (os : List Outline) : List Outline :=
  countFront ++ (os.map Outline.deeper ++ countBack)

/-- Inside of a parenthesis, no clause starts. -/
theorem Outline.silent_deeper (o : Outline) : o.deeper.Silent := by
  intro next
  have htop : o.deeper.token.topLevel = false := rfl
  rw [Statement.clauseAt, htop]
  rfl

/-- A statement in parentheses has no clause outside of them. -/
theorem clauses_counted (os : List Outline) : clauses (counted os) = [] := by
  have hfront : ∀ o ∈ countFront, o.Silent := by
    intro o ho next
    simp only [countFront, List.mem_cons, List.not_mem_nil, or_false] at ho
    rcases ho with rfl | rfl | rfl | rfl | rfl | rfl | rfl
    all_goals simp [Statement.clauseAt, Outline.word, Outline.token, Token.isWord, Token.word?]
  have hinner : ∀ o ∈ os.map Outline.deeper, o.Silent := by
    intro o ho
    obtain ⟨u, -, rfl⟩ := List.mem_map.mp ho
    exact u.silent_deeper
  rw [counted, clauses_append_of_silent hfront, clauses_append_of_silent hinner]
  -- the words of the wrapper are known
  decide +kernel

/-- The order of a statement is not one of the query that counts its rows. -/
example : clauses (counted [.word "ORDER", .word "BY", .word "a"]) = [] := by decide +kernel

/-- A statement in which no clause starts can be paged. -/
theorem Statement.pageable_of_clauses {s : Statement}
    (h : clauses (s.tokens.map Token.outline) = []) :
    s.markers = [] ∧ ∀ ordered, s.ensurePageable ordered = .ok () := by
  have hmarkers : s.markers = [] := by
    rw [← map_clause_markersFrom 0, List.map_eq_nil_iff] at h
    exact h
  refine ⟨hmarkers, fun ordered => ?_⟩
  rw [ensurePageable, hmarkers]
  rfl

/-! ## Lexemes in a count query -/

def countFrontLexemes : List Lexeme :=
  [⟨.word, "SELECT".toList⟩, space, ⟨.word, "COUNT".toList⟩, openParen, ⟨.symbol, ['*']⟩,
    closeParen, space, ⟨.word, "FROM".toList⟩, space, openParen]

def countBackLexemes : List Lexeme :=
  [closeParen, space, ⟨.word, "AS".toList⟩, space, ⟨.word, Query.countAlias.toList⟩]

variable {d : Dialect}

/-- What stands in front of a counted statement is scanned by itself. -/
theorem stable_countFront {ls : List Lexeme} (h : Stable (.ofDialect d) ls) :
    Stable (.ofDialect d) (countFrontLexemes ++ ls) := by
  have hstar := (h.openParen.space.wordBefore (w := "FROM".toList) (by decide) (by decide)
    (separated_cons (by decide) _)).space.closeParen.symbol (c := '*') (by decide) (by decide)
    (by decide)
  have hcount := hstar.openParen.wordBefore (w := "COUNT".toList) (by decide) (by decide)
    (separated_cons (by decide) _)
  exact hcount.space.wordBefore (w := "SELECT".toList) (by decide) (by decide)
    (separated_cons (by decide) _)

theorem stable_countBack : Stable (.ofDialect d) countBackLexemes := by
  cases d <;> rfl

/-- What a scan finds in whole lexemes, and in a query that counts the rows of their text. -/
theorem Whole.exists_counted {ls : List Lexeme} (h : Whole (.ofDialect d) ls) :
    ∃ found outer, scan d (lexemeText ls) = .ok found ∧
      scan d (lexemeText countFrontLexemes ++ (lexemeText ls ++ lexemeText countBackLexemes)) =
        .ok outer ∧
      outer.tokens.map Token.outline = counted (found.tokens.map Token.outline) ∧
      ∀ t ∈ outer.tokens, t.kind ≠ .semicolon := by
  obtain ⟨os, hos⟩ := levelFrom_eq_some.mp h.closed
  obtain ⟨found, hfound, rfl⟩ := exists_scan_of_outline h.apart.stable hos
  -- a parenthesis separates what stands behind
  have hbehind := h.apart _ stable_countBack (separated_cons (by decide) _)
  have hback : outlineFrom 1 countBackLexemes = some (countBack, 0) := rfl
  have hfront : outlineFrom 0 countFrontLexemes = some (countFront, 1) := rfl
  have hall := outlineFrom_append_of hfront
    (outlineFrom_append_of (outlineFrom_deeper hos) hback)
  obtain ⟨outer, houter, htokens⟩ := exists_scan_of_outline (stable_countFront hbehind) hall
  rw [lexemeText_append, lexemeText_append] at houter
  refine ⟨found, outer, hfound, houter, htokens, fun t ht hkind => ?_⟩
  -- what stands around the lexemes is no semicolon either
  obtain ⟨l, hl, hsame, -⟩ := exists_of_mem_outline hall t.outline
    (by rw [← htokens]; exact List.mem_map_of_mem ht)
  have hsemicolon : l.kind = .semicolon := hsame.symm.trans hkind
  have haround : ∀ k ∈ countFrontLexemes ++ countBackLexemes, k.kind ≠ .semicolon := by decide
  rcases List.mem_append.mp hl with hl | hl
  · exact haround l (List.mem_append_left _ hl) hsemicolon
  · rcases List.mem_append.mp hl with hl | hl
    · exact h.semicolon l hl hsemicolon
    · exact haround l (List.mem_append_right _ hl) hsemicolon

end Sql

namespace Query

variable {d : Dialect} {sql : String} {params : Params} {n : Normalized} {s : Statement}

/-- The steps of a query that counts. -/
theorem count_eq_ok_iff {c : CountQuery} :
    count d sql params = .ok c ↔
      ∃ n s draft, normalize d params = .ok n ∧ parse d sql = .ok s ∧ expand s n = .ok draft ∧
        c = { sql := "SELECT COUNT(*) FROM (" ++ String.ofList draft.text ++ ") AS " ++ countAlias,
              binds := n.binds } := by
  rw [count]
  simp only [bind_eq_ok, mapError_eq_ok, Except.ok.injEq]
  constructor
  · rintro ⟨n, hn, s, hs, draft, hdraft, rfl⟩
    exact ⟨n, s, draft, hn, hs, hdraft, rfl⟩
  · rintro ⟨n, s, draft, hn, hs, hdraft, rfl⟩
    exact ⟨n, hn, s, hs, draft, hdraft, rfl⟩

/-- A statement that can be expanded is expanded token by token. -/
theorem expand_eq_ok {draft : Draft} (h : expand s n = .ok draft) :
    draft = Draft.ofExpanded n.expansions s.tokens := by
  rw [expand, mapError_eq_ok, Draft.expanded] at h
  exact Draft.expandFrom_eq_ok h

theorem length_of_expand {draft : Draft} (h : expand s n = .ok draft) :
    draft.length = s.tokens.length := by
  rw [expand_eq_ok h, Draft.ofExpanded, List.length_map]

/-- The whole lexemes of the text that a query is made from. -/
theorem exists_whole_of_expand (hn : normalize d params = .ok n) (hs : parse d sql = .ok s)
    (hfits : s.NullsFit (.ofDialect d) n.expansions) {draft : Draft}
    (hdraft : expand s n = .ok draft) :
    ∃ ls, Whole (.ofDialect d) ls ∧ lexemeText ls = draft.text := by
  have hbase := mapError_eq_ok.mp hs
  obtain ⟨ps, hpieces⟩ := Pieces.of_parse hbase
  rw [expand_eq_ok hdraft]
  exact hpieces.exists_whole (expands_of_normalize hn) (Statement.noSemicolon_of_parse hbase) hfits

/-- The text of a query without a cursor is that of the expanded statement with the tail put into
it, and its binds are those of the parameters. -/
theorem compile_skipping_text {order : Order} {pager : Pager} {q : Query}
    (hn : normalize d params = .ok n) (hs : parse d sql = .ok s) {draft : Draft}
    (hdraft : expand s n = .ok draft)
    (hq : compile d sql order params pager none = .ok q) :
    q.binds = n.binds ∧ ∃ i, s.tailIndex = .ok i ∧ i < draft.length ∧
      q.sql.toList = (draft.putAfter i (tail order q.window)).text := by
  obtain ⟨n', s', draft', seek, i, hn', hs', -, hdraft', hseek, hi, rfl⟩ :=
    compile_eq_ok_iff.mp hq
  -- both compilations have the same parameters, statement and draft
  obtain rfl := Except.ok.inj (hn.symm.trans hn')
  obtain rfl := Except.ok.inj (hs.symm.trans hs')
  obtain rfl := Except.ok.inj (hdraft.symm.trans hdraft')
  obtain ⟨w, -, rfl⟩ := skipping_eq_ok_iff.mp hseek
  refine ⟨List.append_nil _, i, hi, ?_, String.toList_ofList⟩
  -- the tail goes behind some token
  have hne := (Statement.parse_eq_ok (mapError_eq_ok.mp hs)).1
  have hplace := Statement.tailIndex_eq_ok hne hi
  have hle := Statement.placeOf_le s (s.marker? .locking)
    fun m hm => (Statement.marker?_eq_some hm).1
  rw [length_of_expand hdraft]
  omega

/-- In a count query a scan finds the tokens of the expanded statement, as they are found in its
own text, one parenthesis deeper and between those of the wrapper. No clause starts outside of
parentheses, so that the count query could be paged itself, whatever clauses the statement has.
A query without a cursor for the same statement has the same binds, and its text is the counted
one with the tail put into it. -/
theorem scan_count {c : CountQuery} (hn : normalize d params = .ok n) (hs : parse d sql = .ok s)
    (hfits : s.NullsFit (.ofDialect d) n.expansions) (hc : count d sql params = .ok c) :
    ∃ draft found outer, expand s n = .ok draft ∧
      c.sql = "SELECT COUNT(*) FROM (" ++ String.ofList draft.text ++ ") AS " ++ countAlias ∧
      scan d draft.text = .ok found ∧ parse d c.sql = .ok outer ∧
      outer.tokens.map Token.outline = counted (found.tokens.map Token.outline) ∧
      outer.markers = [] ∧ outer.ensurePageable true = .ok () ∧
      ∀ order pager q, compile d sql order params pager none = .ok q →
        q.binds = c.binds ∧ ∃ front back, draft.text = front ++ back ∧
          q.sql.toList = front ++ (tail order q.window ++ back) := by
  obtain ⟨n', s', draft, hn', hs', hdraft, rfl⟩ := count_eq_ok_iff.mp hc
  obtain rfl := Except.ok.inj (hn.symm.trans hn')
  obtain rfl := Except.ok.inj (hs.symm.trans hs')
  obtain ⟨ls, hwhole, htext⟩ := exists_whole_of_expand hn hs hfits hdraft
  obtain ⟨found, scanned, hfound, hscanned, htokens, hsemicolon⟩ := hwhole.exists_counted
  rw [htext] at hfound hscanned
  have hsql : ("SELECT COUNT(*) FROM (" ++ String.ofList draft.text ++ ") AS " ++
      countAlias).toList =
        lexemeText countFrontLexemes ++ (draft.text ++ lexemeText countBackLexemes) := by
    simp only [String.toList_append, String.toList_ofList, List.append_assoc]
    rfl
  -- the query is one statement: it is not empty, and has no semicolon
  have hne : scanned.tokens ≠ [] := by
    intro hnil
    rw [hnil] at htokens
    cases htokens
  have hparse : parse d ("SELECT COUNT(*) FROM (" ++ String.ofList draft.text ++ ") AS " ++
      countAlias) = .ok { tokens := scanned.tokens, rest := scanned.rest } := by
    rw [parse, hsql, Statement.parse_of_scan hscanned hne hsemicolon]
    rfl
  obtain ⟨hmarkers, hpageable⟩ := Statement.pageable_of_clauses
    (s := { tokens := scanned.tokens, rest := scanned.rest }) (by rw [htokens, clauses_counted])
  refine ⟨draft, found, _, hdraft, rfl, hfound, hparse, htokens, hmarkers, hpageable true, ?_⟩
  intro order pager q hq
  -- the tail divides the counted text behind the token that it is put to
  obtain ⟨hbinds, i, -, hlt, htext⟩ := compile_skipping_text hn hs hdraft hq
  refine ⟨hbinds, Draft.text (draft.take (i + 1)), Draft.text (draft.drop (i + 1)), ?_, ?_⟩
  · rw [← Draft.text_append, List.take_append_drop]
  · rw [htext, Draft.text_putAfter hlt, List.append_assoc]

/-- A statement with a locking clause, behind which a semicolon and a comment are dropped. -/
theorem scan_count_of_locking :
    ∃ (c : CountQuery) (found : Scan) (outer : Statement) (q : Query),
      count .postgres "SELECT a FROM t WHERE b IN (:none) OR c IN (:ids) FOR UPDATE; -- all"
        [("ids", .array [.int 7, .int 8]), ("none", .array [])] = .ok c ∧
      c.sql = "SELECT COUNT(*) FROM (SELECT a FROM t WHERE b IN (NULL) OR c IN " ++
        "(:ids__0, :ids__1) FOR UPDATE) AS seekpage_count" ∧
      parse .postgres c.sql = .ok outer ∧
      outer.tokens.map Token.outline = counted (found.tokens.map Token.outline) ∧
      outer.ensurePageable true = .ok () ∧
      compile .postgres "SELECT a FROM t WHERE b IN (:none) OR c IN (:ids) FOR UPDATE; -- all"
        .empty [("ids", .array [.int 7, .int 8]), ("none", .array [])] (.ofPage 1 10) none = .ok q ∧
      q.binds = c.binds := by
  obtain ⟨n, hn, hx⟩ : ∃ n, normalize .postgres
        [("ids", .array [.int 7, .int 8]), ("none", .array [])] = .ok n ∧
      n.expansions = [("ids", ["ids__0", "ids__1"]), ("none", [])] :=
    exists_eq_ok_of_any (by decide +kernel)
  obtain ⟨s, hs, hfits⟩ : ∃ s, parse .postgres
        "SELECT a FROM t WHERE b IN (:none) OR c IN (:ids) FOR UPDATE; -- all" = .ok s ∧
      s.NullsFit (.ofDialect .postgres) [("ids", ["ids__0", "ids__1"]), ("none", [])] :=
    exists_eq_ok_of_any (by decide +kernel)
  obtain ⟨c, hc, hsql⟩ : ∃ c, count .postgres
        "SELECT a FROM t WHERE b IN (:none) OR c IN (:ids) FOR UPDATE; -- all"
        [("ids", .array [.int 7, .int 8]), ("none", .array [])] = .ok c ∧
      c.sql = "SELECT COUNT(*) FROM (SELECT a FROM t WHERE b IN (NULL) OR c IN " ++
        "(:ids__0, :ids__1) FOR UPDATE) AS seekpage_count" :=
    exists_eq_ok_of_any (by decide +kernel)
  obtain ⟨q, hq, -⟩ : ∃ q, compile .postgres
        "SELECT a FROM t WHERE b IN (:none) OR c IN (:ids) FOR UPDATE; -- all" .empty
        [("ids", .array [.int 7, .int 8]), ("none", .array [])] (.ofPage 1 10) none = .ok q ∧
      True := exists_eq_ok_of_any (by decide +kernel)
  rw [← hx] at hfits
  obtain ⟨_, found, outer, -, -, -, houter, htokens, -, hpageable, hpaged⟩ :=
    scan_count hn hs hfits hc
  exact ⟨c, found, outer, q, hc, hsql, houter, htokens, hpageable, hq,
    (hpaged .empty (.ofPage 1 10) q hq).1⟩

/-- Directly behind a number, where a dollar sign quotes, an empty collection becomes a part of it,
and so does the letter of a string behind a dot. The quotes in the string are no longer closed, and
the closing parenthesis of the count query is a part of it. -/
theorem count_unclosed :
    ∃ s n c, parse .postgres "SELECT 5:e.E'\\''" = .ok s ∧
      normalize .postgres [("e", .array [])] = .ok n ∧
      (s.tokens.IsChain fun t u => u.gap = [] → t.lexeme.names? n.expansions = some [] →
        u.text.head? ≠ some '$') ∧
      count .postgres "SELECT 5:e.E'\\''" [("e", .array [])] = .ok c ∧
      c.sql = "SELECT COUNT(*) FROM (SELECT 5NULL.E'\\'') AS seekpage_count" ∧
      ¬ ∃ outer, parse .postgres c.sql = .ok outer := by
  obtain ⟨n, hn, hx⟩ : ∃ n, normalize .postgres [("e", .array [])] = .ok n ∧
      n.expansions = [("e", [])] := exists_eq_ok_of_any (by decide +kernel)
  obtain ⟨s, hs, hdollar⟩ : ∃ s, parse .postgres "SELECT 5:e.E'\\''" = .ok s ∧
      s.tokens.IsChain fun t u => u.gap = [] → t.lexeme.names? [("e", [])] = some [] →
        u.text.head? ≠ some '$' := exists_eq_ok_of_any (by decide +kernel)
  -- the letter of the escape string becomes part of the number in front of it
  obtain ⟨c, hc, hsql⟩ : ∃ c, count .postgres "SELECT 5:e.E'\\''" [("e", .array [])] = .ok c ∧
      c.sql = "SELECT COUNT(*) FROM (SELECT 5NULL.E'\\'') AS seekpage_count" :=
    exists_eq_ok_of_any (by decide +kernel)
  refine ⟨s, n, c, hs, hn, by rwa [hx], hc, hsql, ?_⟩
  rintro ⟨outer, houter⟩
  -- a quote is left over, behind the one that was escaped before
  have hnone : (parse .postgres
      "SELECT COUNT(*) FROM (SELECT 5NULL.E'\\'') AS seekpage_count").toOption = none := by
    decide +kernel
  rw [hsql] at houter
  rw [houter] at hnone
  cases hnone

end Query

end SqlPaging
