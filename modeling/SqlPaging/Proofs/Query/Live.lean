import SqlPaging.Proofs.Postgres.Statement
import SqlPaging.Proofs.Query.Frame
import SqlPaging.Proofs.Sql.Dashes
import SqlPaging.Proofs.Sql.Woven

/-!
# SqlPaging — what MySQL reads of a statement

A query has all of its statement that MySQL would have read, if the two agree on the comments:
text is put in, collections are expanded, and what is dropped is behind the last token. Every
name behind a colon is then asked for.

They disagree on dashes without a space behind them. What stands behind such dashes is
neither carried over, if it is at the end of the statement, nor asked for.

Main results:

* `LiveIn` — the live text of a statement within a query.
* `compile_live` — queries of statements that are read in one way have it.
* `compile_drops_live` — a query that has it not.
-/

namespace SqlPaging

open Sql

namespace Sql

theorem lexemeNames_pieceLexemes (ps : List Piece) :
    lexemeNames (pieceLexemes ps) = (pieceTokens ps).filterMap (·.placeholder?) := by
  induction ps with
  | nil => rfl
  | cons p ps ih =>
    -- only the token of a piece may have a name
    have hgap : lexemeNames p.gap = [] :=
      List.filterMap_eq_nil_iff.mpr fun l hl => Lexeme.placeholder?_of_isGap (p.blank l hl)
    have hown : p.token.lexeme.placeholder? = p.token.placeholder? := rfl
    rw [pieceLexemes_cons, lexemeNames_append, hgap, List.nil_append, lexemeNames_cons, ih, hown]
    show _ = (p.token :: pieceTokens ps).filterMap (·.placeholder?)
    rw [List.filterMap_cons]
    cases p.token.placeholder? <;> rfl

/-- An edit of a query puts text in or expands a collection. -/
theorem Statement.change_of_mem_edits {s : Statement} {x : Fields (List String)}
    {condition : Option (List Char)} {tail : List Char} {es : List Edit}
    (h : s.edits x condition tail = .ok es) {e : Edit} (he : e ∈ es) :
    e.old = [] ∨ ∃ t ∈ s.tokens, ∃ name names, t.placeholder? = some name ∧
      x.get? name = some names ∧ e.old = t.text ∧ e.new = expansion names := by
  obtain ⟨own, hown, hrest⟩ := bind_eq_ok.mp h
  obtain ⟨i, -, hes⟩ := bind_eq_ok.mp hrest
  obtain rfl := Except.ok.inj hes
  rw [List.mem_append, List.mem_append] at he
  -- an edit expands a placeholder, adds the condition or adds the end; the last two replace nothing
  rcases he with (he | he) | he
  · obtain ⟨t, ht, hedit⟩ := List.mem_filterMap.mp he
    obtain ⟨names, hnames, rfl⟩ := Option.map_eq_some_iff.mp hedit
    obtain ⟨name, hname, hget⟩ := Option.bind_eq_some_iff.mp hnames
    exact .inr ⟨t, ht, name, names, hname, hget, rfl, rfl⟩
  · cases condition with
    | none =>
      obtain rfl := Except.ok.inj hown
      cases he
    | some c =>
      rw [Option.elim_some, Statement.conditionEdits] at hown
      split at hown
      · obtain ⟨⟨first, last⟩, -, hput⟩ := bind_eq_ok.mp hown
        obtain rfl := Except.ok.inj hput
        -- parentheses are put around a condition that is there
        simp only [List.mem_cons, List.not_mem_nil, or_false] at he
        rcases he with rfl | rfl
        · exact .inl rfl
        · exact .inl rfl
      · obtain ⟨k, -, hput⟩ := bind_eq_ok.mp hown
        obtain rfl := Except.ok.inj hput
        rw [List.mem_singleton.mp he]
        exact .inl rfl
  · rw [List.mem_singleton.mp he]
    exact .inl rfl

end Sql

namespace Query

/-- What MySQL reads of a statement is in a query: the lexemes are in the query, with text put
in and collections expanded, but for those at the end, which are spaces, comments and
semicolons; and the names that are asked for are all that stand behind a colon, outside of
quoted regions and comments. -/
structure LiveIn (sql : String) (s : Statement) (x : Fields (List String)) (q : Query)
    (parts : List Part) (ls ms : List Lexeme) : Prop where
  live : live sql.toList = (ls ++ ms, none)
  dropped : ∀ l ∈ ms, l.isGap = true ∨ l.kind = .semicolon
  old : parts.flatMap Part.old = lexemeText ls
  new : parts.flatMap Part.new = q.sql.toList
  changes : ∀ change ∈ parts.filterMap Part.change?,
    change.1 = [] ∨ ∃ name names, x.get? name = some names ∧
      change = (':' :: name.toList, expansion names)
  asked : lexemeNames (ls ++ ms) = s.tokens.filterMap (·.placeholder?)
  colons : ∀ first l others, ls ++ ms = first ++ l :: others → l.kind ≠ .quoted →
    l.kind ≠ .comment → ':' ∈ l.text → l.kind = .placeholder ∨ l.text = [':', ':'] ∨
      l.text = [':'] ∧ (lexemeText others).head?.any isWordStart = false

variable {sql : String} {order : Order} {params : Params} {pager : Pager}
  {cursor : Option Cursor} {q : Query}

/-- MySQL reads the lexemes that a statement is split into just if it takes all dashes that
open a comment for that; and then what it reads of the statement is in the query. -/
theorem compile_live (hq : compile .mySql sql order params pager cursor = .ok q) :
    ∃ n s, normalize .mySql params = .ok n ∧ parse .mySql sql = .ok s ∧
      (Sql.live sql.toList = lex .mySql sql.toList ↔
        ∀ l ∈ (lex .mySql sql.toList).1, l.isSpaced = true) ∧
      ((∀ l ∈ (lex .mySql sql.toList).1, l.isSpaced = true) →
        ∃ parts ls ms, LiveIn sql s n.expansions q parts ls ms) := by
  obtain ⟨n, s, es, draft, sites, hn, hs, hes, htelling, hsql⟩ := exists_telling_of_compile hq
  have hbase := mapError_eq_ok.mp hs
  obtain ⟨ps, ms, hlexed⟩ := exists_lexed_of_parse hbase
  have hlex : lex .mySql sql.toList = (pieceLexemes ps ++ ms, none) := by
    have hstable := hlexed.stable
    rwa [Stable, hlexed.text] at hstable
  obtain ⟨-, -, parts, hold, hnew, hchanges⟩ := htelling.edited []
  -- the live lexemes are then those of the pieces, of which the query is made
  refine ⟨n, s, hn, hs, live_eq_lex_iff _, fun hspaced => ⟨parts, pieceLexemes ps, ms, ?_⟩⟩
  have hnames : lexemeNames ms = [] := by
    refine List.filterMap_eq_nil_iff.mpr fun l hl => ?_
    rcases hlexed.dropped l hl with hgap | hsemicolon
    · exact Lexeme.placeholder?_of_isGap hgap
    · rw [Lexeme.placeholder?, hsemicolon]
      rfl
  constructor
  · rw [(live_eq_lex_iff _).mpr hspaced, hlex]
  · exact hlexed.dropped
  · rw [hold, Statement.body, hlexed.tokens, tokenText_pieceTokens]
  · rw [hnew, hsql]
  · intro change hmem
    rw [hchanges] at hmem
    obtain ⟨e, he, rfl⟩ := List.mem_map.mp hmem
    have hedit := Statement.change_of_mem_edits hes ((List.mergeSort_perm es Edit.le).mem_iff.mp he)
    rcases hedit with hput | ⟨t, ht, name, names, hname, hget, htext, hexpanded⟩
    · exact .inl hput
    · -- what was expanded stood in the text, where its name is read off
      obtain ⟨-, found, hscan, hsplit⟩ := Statement.parse_eq_ok hbase
      have hfound : t ∈ found.tokens := by
        rw [← (splitSemicolons_append found.tokens).1, ← hsplit]
        exact List.mem_append_left _ ht
      refine .inr ⟨name, names, hget, ?_⟩
      rw [htext, hexpanded, text_of_placeholder hscan hfound hname]
  · rw [lexemeNames_append, hnames, List.append_nil, lexemeNames_pieceLexemes, hlexed.tokens]
  · intro first l others hsplit hquoted hcomment hcolon
    have hstable := hlexed.stable
    rw [hsplit] at hstable
    exact hstable.right.colon hquoted hcomment hcolon

/-- A comment of two dashes, one of a single mark, and a difference of two numbers. -/
theorem compile_live_of_comments :
    ∃ q s parts ls ms,
      compile .mySql "SELECT 5- -1 -- :x\nIN (:ids); # :y" ⟨[]⟩ [("ids", .array [.int 7, .int 8])]
        (.ofPage 1 10) none = .ok q ∧
      q.sql = "SELECT 5- -1 -- :x\nIN (:ids__0, :ids__1) LIMIT 11 OFFSET 0" ∧
      LiveIn "SELECT 5- -1 -- :x\nIN (:ids); # :y" s [("ids", ["ids__0", "ids__1"])] q
        parts ls ms := by
  obtain ⟨q, hq, hsql⟩ : ∃ q, compile .mySql "SELECT 5- -1 -- :x\nIN (:ids); # :y" ⟨[]⟩
      [("ids", .array [.int 7, .int 8])] (.ofPage 1 10) none = .ok q ∧
        q.sql = "SELECT 5- -1 -- :x\nIN (:ids__0, :ids__1) LIMIT 11 OFFSET 0" :=
    exists_eq_ok_of_any (by decide +kernel)
  obtain ⟨n, hn, hx⟩ : ∃ n, normalize .mySql [("ids", .array [.int 7, .int 8])] = .ok n ∧
      n.expansions = [("ids", ["ids__0", "ids__1"])] := exists_eq_ok_of_any (by decide +kernel)
  obtain ⟨n', s, hn', -, -, hlive⟩ := compile_live hq
  obtain rfl := Except.ok.inj (hn.symm.trans hn')
  obtain ⟨parts, ls, ms, h⟩ := hlive (by decide +kernel)
  rw [hx] at h
  exact ⟨q, s, parts, ls, ms, hq, hsql, h⟩

/-- The difference of a number and a bind is cut off behind the number, and the bind is not
asked for. -/
theorem compile_drops_live :
    ∃ q s, compile .mySql "SELECT 5--:x" ⟨[]⟩ [("x", .int 1)] (.ofPage 1 10) none = .ok q ∧
      parse .mySql "SELECT 5--:x" = .ok s ∧
      q.sql = "SELECT 5 LIMIT 11 OFFSET 0" ∧ s.tokens.filterMap (·.placeholder?) = [] ∧
      Sql.live "SELECT 5--:x".toList =
        ([⟨.word, "SELECT".toList⟩, ⟨.space, [' ']⟩, ⟨.number, ['5']⟩, ⟨.symbol, ['-']⟩,
          ⟨.symbol, ['-']⟩, ⟨.placeholder, [':', 'x']⟩], none) ∧
      ∀ x parts ls ms, ¬ LiveIn "SELECT 5--:x" s x q parts ls ms := by
  obtain ⟨q, hq, hsql⟩ : ∃ q, compile .mySql "SELECT 5--:x" ⟨[]⟩ [("x", .int 1)] (.ofPage 1 10)
      none = .ok q ∧ q.sql = "SELECT 5 LIMIT 11 OFFSET 0" :=
    exists_eq_ok_of_any (by decide +kernel)
  obtain ⟨s, hs, hasked⟩ : ∃ s, parse .mySql "SELECT 5--:x" = .ok s ∧
      s.tokens.filterMap (·.placeholder?) = [] := exists_eq_ok_of_any (by decide +kernel)
  refine ⟨q, s, hq, hs, hsql, hasked, by decide +kernel, ?_⟩
  intro x parts ls ms h
  -- the name is in the live text, and no token of the statement has it
  have hnames : lexemeNames (Sql.live "SELECT 5--:x".toList).1 = ["x"] := by decide +kernel
  have hnone := h.asked
  rw [hasked] at hnone
  rw [h.live, hnone] at hnames
  cases hnames

end Query

end SqlPaging
