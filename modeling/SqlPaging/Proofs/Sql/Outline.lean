import SqlPaging.Proofs.Sql.Places
import SqlPaging.Proofs.Sql.Stable

/-!
# SqlPaging — outlines

The outline of a token is what it is without its surroundings: its kind, its text and
its depth. The outlines of lexemes depend on the depth in which they start and on
nothing else, so that lexemes can be outlined part by part.

Lexemes other than spaces and comments make a token each, with the spaces and comments
before it as its gap. Such a *piece* keeps the lexemes of the gap, of which the token
only has the text.

Main results:

* `outlineFrom_append`, `outlineFrom_deeper` — outlines of parts, and in a group.
* `exists_scan_of_outline`, `lexemes_of_scan` — outlines are what a scan gives.
* `exists_lexed_of_parse`, `exists_pieces_of_parse` — a statement is the tokens of stable
  pieces, behind which only gaps and semicolons are dropped.
-/

namespace SqlPaging.Sql

/-- A token without its surroundings. -/
structure Outline where
  kind : LexemeKind
  text : List Char
  depth : Nat
deriving DecidableEq, Repr

def Token.outline (t : Token) : Outline := { kind := t.kind, text := t.text, depth := t.depth }

/-- The outline with one more parenthesis around it. -/
def Outline.deeper (o : Outline) : Outline := { o with depth := o.depth + 1 }

/-- What a lexeme adds to the outlines inside a number of parentheses, and the number of
those that are open behind it. -/
def Lexeme.outline (l : Lexeme) (depth : Nat) : Option (List Outline × Nat) :=
  let at_ (d : Nat) : Outline := { kind := l.kind, text := l.text, depth := d }
  match l.kind with
  | .space => some ([], depth)
  | .comment => some ([], depth)
  | .openParen => some ([at_ depth], depth + 1)
  | .closeParen => if 0 < depth then some ([at_ (depth - 1)], depth - 1) else none
  | _ => some ([at_ depth], depth)

/-- The outlines of lexemes inside a number of parentheses, and the number of those that
are open at the end. -/
def outlineFrom (depth : Nat) : List Lexeme → Option (List Outline × Nat)
  | [] => some ([], depth)
  | l :: ls => do
    let (first, d) ← l.outline depth
    let (rest, e) ← outlineFrom d ls
    some (first ++ rest, e)

/-- Outlines are those of the first lexeme and then those of the rest, from the depth that
it leaves. -/
theorem outlineFrom_cons_eq_some {depth e : Nat} {l : Lexeme} {ls : List Lexeme}
    {os : List Outline} :
    outlineFrom depth (l :: ls) = some (os, e) ↔
      ∃ first d rest, l.outline depth = some (first, d) ∧ outlineFrom d ls = some (rest, e) ∧
        os = first ++ rest := by
  rw [outlineFrom]
  cases l.outline depth with
  | none => simp
  | some found =>
    obtain ⟨first, d⟩ := found
    cases hrest : outlineFrom d ls with
    | none => simp [hrest]
    | some found => simp [hrest]; grind

theorem outlineFrom_append_eq_some {depth e : Nat} {ls ms : List Lexeme} {os : List Outline} :
    outlineFrom depth (ls ++ ms) = some (os, e) ↔
      ∃ first d rest, outlineFrom depth ls = some (first, d) ∧
        outlineFrom d ms = some (rest, e) ∧ os = first ++ rest := by
  induction ls generalizing depth os with
  | nil =>
    rw [List.nil_append]
    constructor
    · exact fun h => ⟨[], depth, os, rfl, h, rfl⟩
    · rintro ⟨first, d, rest, hnil, h, rfl⟩
      cases hnil
      exact h
  | cons l ls ih =>
    rw [List.cons_append, outlineFrom_cons_eq_some]
    constructor
    · rintro ⟨o, d, rest, hl, hrest, rfl⟩
      -- the first lexeme is outlined at the depth where both parts begin
      obtain ⟨o', d', rest', hls, hms, rfl⟩ := ih.mp hrest
      exact ⟨o ++ o', d', rest', outlineFrom_cons_eq_some.mpr ⟨o, d, o', hl, hls, rfl⟩, hms,
        (List.append_assoc _ _ _).symm⟩
    · rintro ⟨first, d, rest, hls, hms, rfl⟩
      obtain ⟨o, d', o', hl, htail, rfl⟩ := outlineFrom_cons_eq_some.mp hls
      exact ⟨o, d', o' ++ rest, hl, ih.mpr ⟨o', d, rest, htail, hms, rfl⟩,
        List.append_assoc _ _ _⟩

/-- Inside one more parenthesis, all outlines are deeper by one. -/
theorem outlineFrom_deeper {depth e : Nat} {ls : List Lexeme} {os : List Outline}
    (h : outlineFrom depth ls = some (os, e)) :
    outlineFrom (depth + 1) ls = some (os.map Outline.deeper, e + 1) := by
  -- a closing parenthesis needs an open one, of which there is one more
  have hone : ∀ {l : Lexeme} {depth d : Nat} {first : List Outline},
      l.outline depth = some (first, d) →
        l.outline (depth + 1) = some (first.map Outline.deeper, d + 1) := by
    intro l depth d first hl
    unfold Lexeme.outline at hl ⊢
    cases hk : l.kind <;> simp only [hk, Option.some.injEq, Prod.mk.injEq] at hl ⊢
    case closeParen =>
      split at hl
      · next hpos =>
        cases hl
        rw [if_pos (by omega), Nat.add_sub_cancel]
        simp only [List.map_cons, List.map_nil, Outline.deeper]
        rw [Nat.sub_add_cancel hpos]
      · cases hl
    all_goals
      obtain ⟨rfl, rfl⟩ := hl
      exact ⟨rfl, rfl⟩
  -- the depth in front of the next lexeme is one more as well
  induction ls generalizing depth os with
  | nil =>
    cases h
    rfl
  | cons l ls ih =>
    obtain ⟨first, d, rest, hl, hrest, rfl⟩ := outlineFrom_cons_eq_some.mp h
    exact outlineFrom_cons_eq_some.mpr ⟨_, _, _, hone hl, ih hrest, List.map_append⟩

/-! ## Tokens -/

/-- A lexeme that makes no token. -/
def Lexeme.isGap (l : Lexeme) : Bool := l.kind = .space || l.kind = .comment

theorem Lexeme.isGap_iff {l : Lexeme} :
    l.isGap = true ↔ l.kind = .space ∨ l.kind = .comment := by
  rw [isGap, Bool.or_eq_true, decide_eq_true_eq, decide_eq_true_eq]

/-- A lexeme goes on with the gap or makes a token, at the same depth wherever it stands, or
closes nothing. -/
theorem nestFrom_cons (l : Lexeme) (depth : Nat) :
    (∀ at_ gap ls, nestFrom at_ depth gap (l :: ls) =
      nestFrom (at_ + byteLength l.text) depth (gap ++ l.text) ls) ∧ l.isGap = true ∨
    (∃ d e, ∀ at_ gap ls, nestFrom at_ depth gap (l :: ls) =
      (nestFrom (at_ + byteLength l.text) d [] ls).map fun n =>
        { n with tokens := ⟨l.kind, l.text, gap, at_, e⟩ :: n.tokens }) ∧ l.isGap = false ∨
    ∀ at_ gap ls, nestFrom at_ depth gap (l :: ls) = .error (.unexpectedClose at_) := by
  have hgap : l.isGap = (l.kind = .space || l.kind = .comment) := rfl
  -- which of the three it is depends on the kind, and for one of them on the depth
  cases hk : l.kind <;> rw [hk] at hgap
  case space => exact .inl ⟨fun at_ gap ls => by simp only [nestFrom, hk], hgap⟩
  case comment => exact .inl ⟨fun at_ gap ls => by simp only [nestFrom, hk], hgap⟩
  case openParen =>
    exact .inr (.inl ⟨⟨depth + 1, depth, fun at_ gap ls => by simp only [nestFrom, hk]⟩, hgap⟩)
  case closeParen =>
    cases depth with
    | zero => exact .inr (.inr fun at_ gap ls => by simp only [nestFrom, hk])
    | succ d =>
      exact .inr (.inl ⟨⟨d, d, fun at_ gap ls => by simp only [nestFrom, hk]⟩, hgap⟩)
  all_goals
    exact .inr (.inl ⟨⟨depth, depth, fun at_ gap ls => by simp only [nestFrom, hk]⟩, hgap⟩)

/-! ## Scans -/

/-- The outlines of lexemes are those of their tokens, wherever they start. -/
theorem nestFrom_outline (at_ depth : Nat) (gap : List Char) (ls : List Lexeme) :
    outlineFrom depth ls =
      (nestFrom at_ depth gap ls).toOption.map fun n => (n.tokens.map Token.outline, n.depth) := by
  induction ls generalizing at_ depth gap with
  | nil => rfl
  | cons l ls ih =>
    -- a lexeme goes on with the gap or makes a token; which one and how deep is for its kind to say
    have hgap : (outlineFrom depth ls).bind (fun found => some ([] ++ found.1, found.2)) =
        (nestFrom (at_ + byteLength l.text) depth (gap ++ l.text) ls).toOption.map
          fun n => (n.tokens.map Token.outline, n.depth) := by
      rw [ih (at_ + byteLength l.text) depth (gap ++ l.text)]
      cases nestFrom (at_ + byteLength l.text) depth (gap ++ l.text) ls <;> rfl
    have htoken : ∀ (d : Nat) (t : Token),
        (outlineFrom d ls).bind (fun found => some ([t.outline] ++ found.1, found.2)) =
          ((nestFrom (at_ + byteLength l.text) d [] ls).map
            fun n => { n with tokens := t :: n.tokens }).toOption.map
              fun n => (n.tokens.map Token.outline, n.depth) := by
      intro d t
      rw [ih (at_ + byteLength l.text) d []]
      cases nestFrom (at_ + byteLength l.text) d [] ls <;> rfl
    rw [outlineFrom]
    unfold nestFrom Lexeme.outline
    cases hk : l.kind
    case space => exact hgap
    case comment => exact hgap
    case openParen => exact htoken (depth + 1) ⟨.openParen, l.text, gap, at_, depth⟩
    -- a parenthesis that closes nothing ends both
    case closeParen =>
      cases depth with
      | zero => rfl
      | succ d => exact htoken d ⟨.closeParen, l.text, gap, at_, d⟩
    all_goals exact htoken depth ⟨_, l.text, gap, at_, depth⟩

/-- What can be nested has the outlines of its tokens. -/
theorem outlineFrom_of_nestFrom {at_ depth : Nat} {gap : List Char} {ls : List Lexeme} {n : Nested}
    (h : nestFrom at_ depth gap ls = .ok n) :
    outlineFrom depth ls = some (n.tokens.map Token.outline, n.depth) := by
  rw [nestFrom_outline at_ depth gap, h]
  rfl

/-- Stable lexemes whose parentheses are closed are scanned, and their tokens have their
outlines. -/
theorem exists_scan_of_outline {d : Dialect} {ls : List Lexeme} {os : List Outline}
    (hs : Stable (.ofDialect d) ls) (ho : outlineFrom 0 ls = some (os, 0)) :
    ∃ found, scan d (lexemeText ls) = .ok found ∧ found.tokens.map Token.outline = os := by
  rw [nestFrom_outline 0 0 []] at ho
  obtain ⟨n, hn, heq⟩ := Option.map_eq_some_iff.mp ho
  -- what can be outlined can be nested
  have hnest : nestFrom 0 0 [] ls = .ok n := by
    cases h : nestFrom 0 0 [] ls with
    | error fault =>
      rw [h] at hn
      cases hn
    | ok m =>
      rw [h] at hn
      exact congrArg Except.ok (Option.some.inj hn)
  obtain ⟨htokens, hdepth⟩ := Prod.mk.inj heq
  refine ⟨{ tokens := n.tokens, rest := n.rest }, ?_, htokens⟩
  have hlex : lex d (lexemeText ls) = (ls, none) := hs
  simp only [scan, hlex, hnest, bind, Except.bind, hdepth, if_true]

/-- What is scanned are stable lexemes whose parentheses are closed. -/
theorem lexemes_of_scan {d : Dialect} {s : List Char} {found : Scan} (h : scan d s = .ok found) :
    ∃ ls, Stable (.ofDialect d) ls ∧ lexemeText ls = s ∧
      nestFrom 0 0 [] ls = .ok { tokens := found.tokens, rest := found.rest, depth := 0 } := by
  unfold scan at h
  -- a scan that is given has met no error in the splitting, in the nesting or at the end
  cases hlex : lex d s with
  | mk ls open_ =>
    simp only [hlex, bind, Except.bind] at h
    cases hn : nestFrom 0 0 [] ls with
    | error fault =>
      rw [hn] at h
      cases h
    | ok n =>
      rw [hn] at h
      cases open_ with
      | some region => cases h
      | none =>
        -- nothing is left open, so the lexemes are stable
        obtain ⟨hs, htext⟩ := stable_of_lexFrom hlex
        dsimp only at h
        split at h
        · next hdepth =>
          cases h
          refine ⟨ls, hs, htext, ?_⟩
          rw [hn, ← hdepth]
        · cases h

/-- A scanned text is that of its tokens and what comes behind them. -/
theorem text_of_scan {d : Dialect} {s : List Char} {found : Scan} (h : scan d s = .ok found) :
    tokenText found.tokens ++ found.rest = s := by
  obtain ⟨ls, -, htext, hnest⟩ := lexemes_of_scan h
  have hall := nestFrom_text hnest
  rwa [List.nil_append, htext] at hall

/-! ## Pieces -/

def Token.lexeme (t : Token) : Lexeme := { kind := t.kind, text := t.text }

/-- A token with the lexemes of the gap before it. -/
structure Piece where
  gap : List Lexeme
  token : Token
  blank : ∀ l ∈ gap, l.isGap = true
  gap_eq : token.gap = lexemeText gap
  solid : token.lexeme.isGap = false

def Piece.lexemes (p : Piece) : List Lexeme := p.gap ++ [p.token.lexeme]

def pieceLexemes (ps : List Piece) : List Lexeme := ps.flatMap Piece.lexemes

def pieceTokens (ps : List Piece) : List Token := ps.map (·.token)

theorem pieceLexemes_append (ps qs : List Piece) :
    pieceLexemes (ps ++ qs) = pieceLexemes ps ++ pieceLexemes qs := by
  simp only [pieceLexemes, List.flatMap_append]

theorem pieceLexemes_cons (p : Piece) (ps : List Piece) :
    pieceLexemes (p :: ps) = p.gap ++ p.token.lexeme :: pieceLexemes ps := by
  simp [pieceLexemes, Piece.lexemes]

/-- The tokens of pieces have the text of their lexemes. -/
theorem tokenText_pieceTokens (ps : List Piece) :
    tokenText (pieceTokens ps) = lexemeText (pieceLexemes ps) := by
  induction ps with
  | nil => rfl
  | cons p ps ih =>
    rw [pieceLexemes_cons, lexemeText_append, lexemeText_cons, ← ih, ← p.gap_eq]
    simp [tokenText, pieceTokens, Token.lexeme]

/-- The last lexeme of pieces is that of a token. -/
theorem ended_pieceLexemes (ps : List Piece) : Ended (pieceLexemes ps) := by
  intro l hl
  rcases List.eq_nil_or_concat ps with rfl | ⟨ps, p, rfl⟩
  · cases hl
  · rw [List.concat_eq_append, pieceLexemes_append, pieceLexemes_cons] at hl
    have hlast : l = p.token.lexeme := by
      simpa [pieceLexemes, eq_comm] using hl
    rw [hlast]
    -- the last lexeme is a token, so it is no comment
    have hsolid := p.solid
    intro hcomment
    simp [Lexeme.isGap, hcomment] at hsolid

theorem blank_nil : ∀ l ∈ ([] : List Lexeme), l.isGap = true := by simp

/-- Tokens are nested as pieces, each with the gap in front of it. -/
theorem exists_pieces {at_ depth : Nat} {gap ls : List Lexeme} {n : Nested}
    (hgap : ∀ l ∈ gap, l.isGap = true) (h : nestFrom at_ depth (lexemeText gap) ls = .ok n) :
    ∃ ps tail, gap ++ ls = pieceLexemes ps ++ tail ∧ (∀ l ∈ tail, l.isGap = true) ∧
      lexemeText tail = n.rest ∧ n.tokens = pieceTokens ps := by
  induction ls generalizing at_ depth gap n with
  | nil =>
    cases h
    exact ⟨[], gap, by simp [pieceLexemes], hgap, rfl, rfl⟩
  | cons l ls ih =>
    rcases nestFrom_cons l depth with ⟨hcons, hl⟩ | ⟨⟨d, e, hcons⟩, hl⟩ | hcons
    · -- the lexeme goes on with the gap
      have hgap' : ∀ k ∈ gap ++ [l], k.isGap = true := by
        intro k hk
        rcases List.mem_append.mp hk with hk | hk
        · exact hgap k hk
        · rw [List.mem_singleton.mp hk]
          exact hl
      have htext : lexemeText gap ++ l.text = lexemeText (gap ++ [l]) := by
        simp [lexemeText]
      rw [hcons, htext] at h
      simpa using ih hgap' h
    · rw [hcons] at h
      obtain ⟨m, hm, rfl⟩ := map_eq_ok.mp h
      obtain ⟨ps, tail, hls, htail, hrest, htokens⟩ := ih blank_nil hm
      rw [List.nil_append] at hls
      -- the gap so far and the token make a piece, behind which a new gap starts
      refine ⟨⟨gap, ⟨l.kind, l.text, lexemeText gap, at_, e⟩, hgap, rfl, hl⟩ :: ps, tail, ?_,
        htail, hrest, ?_⟩
      · rw [pieceLexemes_cons, List.append_assoc, List.cons_append, ← hls]
        rfl
      · simp only [pieceTokens, List.map_cons, htokens]
    · rw [hcons] at h
      cases h

/-! ## Outlines of pieces -/

theorem outlineFrom_blank {gap : List Lexeme} (h : ∀ l ∈ gap, l.isGap = true) (depth : Nat) :
    outlineFrom depth gap = some ([], depth) := by
  induction gap with
  | nil => rfl
  | cons l gap ih =>
    have hl := h l List.mem_cons_self
    have hone : l.outline depth = some ([], depth) := by
      rcases Lexeme.isGap_iff.mp hl with hl | hl <;> simp only [Lexeme.outline, hl]
    exact outlineFrom_cons_eq_some.mpr
      ⟨_, _, _, hone, ih fun k hk => h k (List.mem_cons_of_mem _ hk), rfl⟩

theorem length_outline_of_solid {l : Lexeme} (h : l.isGap = false) {depth d : Nat}
    {os : List Outline} (ho : l.outline depth = some (os, d)) : os.length = 1 := by
  unfold Lexeme.outline at ho
  cases hk : l.kind <;> simp only [hk] at ho
  case space => simp [Lexeme.isGap, hk] at h
  case comment => simp [Lexeme.isGap, hk] at h
  -- a parenthesis that closes nothing has no outline at all
  case closeParen =>
    split at ho
    · cases ho
      rfl
    · cases ho
  all_goals
    cases ho
    rfl

theorem length_outlineFrom_pieces {ps : List Piece} {depth d : Nat} {os : List Outline}
    (h : outlineFrom depth (pieceLexemes ps) = some (os, d)) : os.length = ps.length := by
  induction ps generalizing depth os with
  | nil =>
    cases h
    rfl
  | cons p ps ih =>
    rw [pieceLexemes_cons] at h
    obtain ⟨first, e, rest, hgap, hrest, rfl⟩ := outlineFrom_append_eq_some.mp h
    -- only the token of a piece has an outline
    rw [outlineFrom_blank p.blank] at hgap
    cases hgap
    obtain ⟨own, e', others, hown, hothers, rfl⟩ := outlineFrom_cons_eq_some.mp hrest
    rw [List.nil_append, List.length_append, length_outline_of_solid p.solid hown, ih hothers,
      List.length_cons, Nat.add_comm]

/-- As many outlines as there are pieces in front are those of the pieces. -/
theorem outlineFrom_pieces_append {ps : List Piece} {tail : List Lexeme} {depth e : Nat}
    {os us : List Outline} (hlen : os.length = ps.length)
    (h : outlineFrom depth (pieceLexemes ps ++ tail) = some (os ++ us, e)) :
    ∃ d, outlineFrom depth (pieceLexemes ps) = some (os, d) ∧
      outlineFrom d tail = some (us, e) := by
  obtain ⟨first, d, rest, hfirst, hrest, heq⟩ := outlineFrom_append_eq_some.mp h
  have hsame := length_outlineFrom_pieces hfirst
  obtain ⟨rfl, rfl⟩ := List.append_inj heq (hlen.trans hsame.symm)
  exact ⟨d, hfirst, hrest⟩

/-- Lexemes that are no parentheses leave the depth as it is. -/
theorem outlineFrom_depth {ls : List Lexeme} {depth e : Nat} {os : List Outline}
    (hopen : ∀ l ∈ ls, l.kind ≠ .openParen) (hclose : ∀ l ∈ ls, l.kind ≠ .closeParen)
    (h : outlineFrom depth ls = some (os, e)) : e = depth := by
  induction ls generalizing depth os with
  | nil =>
    cases h
    rfl
  | cons l ls ih =>
    obtain ⟨first, d, rest, hl, hrest, rfl⟩ := outlineFrom_cons_eq_some.mp h
    -- nothing but parentheses changes the depth
    have hd : d = depth := by
      have ho := hopen l List.mem_cons_self
      have hc := hclose l List.mem_cons_self
      unfold Lexeme.outline at hl
      cases hk : l.kind <;> simp only [hk, Option.some.injEq, Prod.mk.injEq] at hl
      case openParen => exact absurd hk ho
      case closeParen => exact absurd hk hc
      all_goals exact hl.2.symm
    rw [ih (fun k hk => hopen k (List.mem_cons_of_mem _ hk))
      (fun k hk => hclose k (List.mem_cons_of_mem _ hk)) hrest, hd]

/-! ## Statements -/

theorem splitSemicolons_append (ts : List Token) :
    (splitSemicolons ts).1 ++ (splitSemicolons ts).2 = ts ∧
      ∀ t ∈ (splitSemicolons ts).2, t.kind = .semicolon := by
  induction ts with
  | nil => exact ⟨rfl, by simp [splitSemicolons]⟩
  | cons t ts ih =>
    obtain ⟨happend, hdropped⟩ := ih
    simp only [splitSemicolons]
    split
    · -- a semicolon goes with those behind it if nothing else is left there
      next h =>
      simp only [Bool.and_eq_true, List.isEmpty_iff, decide_eq_true_eq] at h
      rw [h.1, List.nil_append] at happend
      refine ⟨by simp [happend], ?_⟩
      intro u hu
      rcases List.mem_cons.mp hu with rfl | hu
      · exact h.2
      · exact hdropped u hu
    · exact ⟨by simp [happend], hdropped⟩

/-- Semicolons are dropped at the end only. -/
theorem splitSemicolons_fst_append (ts us : List Token) :
    (splitSemicolons (ts ++ us)).1 =
      if (splitSemicolons us).1 = [] then (splitSemicolons ts).1
      else ts ++ (splitSemicolons us).1 := by
  induction ts with
  | nil =>
    rw [List.nil_append]
    split
    · assumption
    · rfl
  | cons t ts ih =>
    rw [List.cons_append, splitSemicolons]
    dsimp only
    rw [ih]
    split
    · rw [splitSemicolons, apply_ite Prod.fst, apply_ite Prod.fst]
    · next hne =>
      -- something other than semicolons follows, so the token stays
      have hnonempty : (ts ++ (splitSemicolons us).1).isEmpty = false := by
        rw [Bool.eq_false_iff]
        simp [hne]
      rw [hnonempty]
      rfl

/-- The lexemes of the text of a statement: those of its pieces, and behind them nothing but
gaps and semicolons. -/
structure Statement.Lexed (d : Dialect) (text : List Char) (s : Statement) (ps : List Piece)
    (ms : List Lexeme) : Prop where
  stable : Stable (.ofDialect d) (pieceLexemes ps ++ ms)
  text : lexemeText (pieceLexemes ps ++ ms) = text
  tokens : s.tokens = pieceTokens ps
  nested : ∃ n dropped, nestFrom 0 0 [] (pieceLexemes ps ++ ms) = .ok n ∧ n.depth = 0 ∧
    n.tokens = s.tokens ++ dropped
  dropped : ∀ l ∈ ms, l.isGap = true ∨ l.kind = .semicolon

/-- A statement that parses is made of the lexemes of its text. -/
theorem exists_lexed_of_parse {d : Dialect} {text : List Char} {s : Statement}
    (h : Statement.parse d text = .ok s) : ∃ ps ms, s.Lexed d text ps ms := by
  obtain ⟨-, found, hscan, hsplit⟩ := Statement.parse_eq_ok h
  obtain ⟨ls, hstable, htext, hnest⟩ := lexemes_of_scan hscan
  obtain ⟨all, tail, hls, htail, -, htokens⟩ := exists_pieces blank_nil hnest
  obtain ⟨happend, hdropped⟩ := splitSemicolons_append found.tokens
  rw [← hsplit] at happend
  generalize (splitSemicolons found.tokens).2 = dropped at happend hdropped
  -- the pieces are split where the tokens are
  obtain ⟨ps, qs, rfl, hps, hqs⟩ := List.map_eq_append_iff.mp (htokens.symm.trans happend.symm)
  rw [List.nil_append, pieceLexemes_append, List.append_assoc] at hls
  subst hls
  refine ⟨ps, pieceLexemes qs ++ tail, hstable, htext, hps.symm,
    ⟨_, dropped, hnest, rfl, happend.symm⟩, ?_⟩
  intro l hl
  rcases List.mem_append.mp hl with hl | hl
  · obtain ⟨q, hq, hl⟩ := List.mem_flatMap.mp hl
    rcases List.mem_append.mp hl with hl | hl
    · exact .inl (q.blank l hl)
    · rw [List.mem_singleton.mp hl]
      exact .inr (hdropped q.token (hqs ▸ List.mem_map_of_mem hq))
  · exact .inl (htail l hl)

/-- A statement is the tokens of stable pieces whose parentheses are closed. -/
theorem exists_pieces_of_parse {d : Dialect} {text : List Char} {s : Statement}
    (h : Statement.parse d text = .ok s) :
    ∃ ps, s.tokens = pieceTokens ps ∧ Stable (.ofDialect d) (pieceLexemes ps) ∧
      outlineFrom 0 (pieceLexemes ps) = some (s.tokens.map Token.outline, 0) := by
  obtain ⟨ps, ms, hlexed⟩ := exists_lexed_of_parse h
  refine ⟨ps, hlexed.tokens, ?_, ?_⟩
  · -- the pieces are stable without what was split off
    have hcut := hlexed.stable.cut stable_nil separated_nil fun _ => ended_pieceLexemes ps
    rwa [List.append_nil] at hcut
  · obtain ⟨n, dropped, hnest, hdepth, htokens⟩ := hlexed.nested
    have hout := outlineFrom_of_nestFrom hnest
    rw [htokens, hdepth, List.map_append] at hout
    have hlen : (s.tokens.map Token.outline).length = ps.length := by
      rw [hlexed.tokens, pieceTokens, List.length_map, List.length_map]
    obtain ⟨e, hbody, hrest⟩ := outlineFrom_pieces_append hlen hout
    -- what was split off has no parentheses, so that none is open before it
    have hzero : 0 = e := by
      apply outlineFrom_depth _ _ hrest
      all_goals
        intro l hl hk
        rcases hlexed.dropped l hl with h | h
        · simp [Lexeme.isGap, hk] at h
        · rw [hk] at h
          cases h
    rw [hbody, ← hzero]

end SqlPaging.Sql
