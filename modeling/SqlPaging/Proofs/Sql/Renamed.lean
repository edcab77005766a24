import SqlPaging.Proofs.Sql.Twin

/-!
# SqlPaging — another name behind a dot

What stands behind a dot is the name of a column. With another name in its place, the text
splits into the same lexemes but for that one: what is in front of the dot does not see
what is behind it, and a name ends where its run ends. So the tokens are the same as well,
at places that have moved behind the name.

A name may still be taken for the start of a clause, as any word outside of all
parentheses. A plain name is not, and the statement with the plain name has all the other
clauses.

Main results:

* `Stable.renamed` — the lexemes with another name.
* `renamed_of_parse` — the statement with another name.
* `Statement.Renamed.markers` — its clauses.
-/

namespace SqlPaging.Sql

/-! ## Names -/

/-- The words that start a clause, and the one that refuses an empty collection. -/
def leadingWords : List String :=
  ["WHERE", "HAVING", "WINDOW", "LIMIT", "OFFSET", "FETCH", "GROUP", "ORDER", "FOR", "LOCK",
    "UNION", "INTERSECT", "EXCEPT", "MINUS", "NOT"]

/-- A text that is a word in front of a character, and none of the leading ones. -/
structure PlainName (r : LexicalRules) (w : List Char) (next : Option Char) : Prop where
  start : w.head?.any isWordStart = true
  chars : ∀ c ∈ w, isWordChar c = true
  plain : ∀ k ∈ leadingWords, k.toList ≠ w.map Char.toUpper
  apart : ¬ Escapes r w next

/-! ## Lexemes -/

section

variable {r : LexicalRules}

def dot : Lexeme := ⟨.symbol, ['.']⟩

theorem Stable.dot {ls : List Lexeme} (h : Stable r ls) : Stable r (dot :: ls) :=
  h.symbol (by decide) (by decide) (by decide)

/-- What is in front of a dot does not see what is behind it. -/
theorem Stable.behindDot {front ls ms : List Lexeme} (h : Stable r (front ++ Sql.dot :: ls))
    (hms : Stable r ms) : Stable r (front ++ Sql.dot :: ms) := by
  induction front with
  | nil => exact hms.dot
  | cons l front ih =>
    rw [List.cons_append] at h ⊢
    obtain ⟨c, t, htext, hl, hrest⟩ := stable_cons_iff.mp h
    refine stable_cons_iff.mpr ⟨c, t, htext, lexeme_resume hl ?_, ih hrest⟩
    rw [lexemeText_append, lexemeText_append, lexemeText_cons, lexemeText_cons]
    exact (Resumes.dot _ _).append _

/-- What is between tokens does not see the next one. -/
theorem Stable.behindGap {gap ls ms : List Lexeme} (h : Stable r (gap ++ ls))
    (hgap : ∀ l ∈ gap, l.isGap = true) (hne : ls ≠ []) (hms : Stable r ms) :
    Stable r (gap ++ ms) := by
  induction gap with
  | nil => exact hms
  | cons l gap ih =>
    obtain ⟨c, t, htext, hl, hrest⟩ := stable_cons_iff.mp h
    have hkind : l.kind = .space ∨ l.kind = .comment := by
      simpa [Lexeme.isGap] using hgap l List.mem_cons_self
    -- something follows the first gap, so it does not end with the text
    have hmore : lexemeText (gap ++ ls) ≠ [] :=
      (show Stable r (gap ++ ls ++ []) by rwa [List.append_nil]).text_ne_nil (by simp [hne])
    exact stable_cons_iff.mpr ⟨c, t, htext, lexeme_of_gap hkind hl hmore _,
      ih hrest fun k hk => hgap k (List.mem_cons_of_mem l hk)⟩

/-- A word behind a dot may be any other one. -/
theorem Stable.renamed {front gap back : List Lexeme} {w v : List Char}
    (h : Stable r (front ++ Sql.dot :: (gap ++ ⟨.word, w⟩ :: back)))
    (hgap : ∀ l ∈ gap, l.isGap = true) (hv : PlainName r v (lexemeText back).head?) :
    Stable r (front ++ Sql.dot :: (gap ++ ⟨.word, v⟩ :: back)) := by
  obtain ⟨-, -, -, -, hbehind⟩ := stable_cons_iff.mp h.right
  obtain ⟨-, -, hnext, -, hback⟩ := stable_word_iff.mp hbehind.right
  have hword := stable_word_iff.mpr ⟨hv.start, hv.chars, hnext, hv.apart, hback⟩
  exact h.behindDot (hbehind.behindGap hgap (List.cons_ne_nil _ _) hword)

end

/-! ## Tokens -/

namespace Token

def renamed (t : Token) (v : List Char) : Token := { t with text := v }

/-- The token behind a part of the text that has another length. -/
def moved (old new : Nat) (t : Token) : Token := { t with start := t.start - old + new }

end Token

/-- The same lexemes at another place make the same tokens there. -/
theorem nestFrom_elsewhere {old new z depth : Nat} {gap : List Char} {ls : List Lexeme} {n : Nested}
    (h : nestFrom (old + z) depth gap ls = .ok n) :
    nestFrom (new + z) depth gap ls =
      .ok { n with tokens := n.tokens.map (Token.moved old new) } := by
  induction ls generalizing z depth gap n with
  | nil =>
    cases h
    rfl
  | cons l ls ih =>
    -- the nesting looks at kinds and depths, and not at where the lexemes are
    rcases nestFrom_cons l depth with ⟨hcons, -⟩ | ⟨⟨d, e, hcons⟩, -⟩ | hcons
    · rw [hcons, Nat.add_assoc] at h ⊢
      exact ih h
    · rw [hcons, Nat.add_assoc] at h ⊢
      obtain ⟨m, hm, rfl⟩ := map_eq_ok.mp h
      -- a token is as far behind the new place as it was behind the old one
      have hstart : old + z - old + new = new + z := by omega
      rw [ih hm]
      show Except.ok _ = Except.ok _
      rw [List.map_cons, Token.moved, hstart]
    · rw [hcons] at h
      cases h

/-- With another word, there is another token in its place, and those behind it have moved. -/
theorem nestFrom_renamed {at_ depth : Nat} {gap w : List Char} {front back : List Lexeme}
    {n : Nested} (h : nestFrom at_ depth gap (front ++ ⟨.word, w⟩ :: back) = .ok n)
    (v : List Char) :
    ∃ ts t us, n.tokens = ts ++ t :: us ∧ ts.length = front.countP (fun l => !l.isGap) ∧
      nestFrom at_ depth gap (front ++ ⟨.word, v⟩ :: back) =
        .ok { n with
          tokens := ts ++ t.renamed v ::
            us.map (Token.moved (t.start + byteLength w) (t.start + byteLength v)) } := by
  induction front generalizing at_ depth gap n with
  | nil =>
    obtain ⟨m, hm, rfl⟩ := map_eq_ok.mp h
    refine ⟨[], ⟨.word, w, gap, at_, depth⟩, m.tokens, rfl, rfl, ?_⟩
    -- behind the word, the lexemes are the same and stand elsewhere
    have hmoved : nestFrom (at_ + byteLength v + 0) depth [] back = .ok _ :=
      nestFrom_elsewhere (z := 0) hm
    exact map_eq_ok.mpr ⟨_, hmoved, rfl⟩
  | cons l front ih =>
    rw [List.cons_append] at h ⊢
    rcases nestFrom_cons l depth with ⟨hcons, hl⟩ | ⟨⟨d, e, hcons⟩, hl⟩ | hcons
    · rw [hcons] at h
      obtain ⟨ts, t, us, htokens, hlen, hnew⟩ := ih h
      refine ⟨ts, t, us, htokens, ?_, ?_⟩
      · -- a gap counts for no token
        rw [hlen, List.countP_cons_of_neg (by simp [hl])]
      · rw [hcons]
        exact hnew
    · rw [hcons] at h
      obtain ⟨m, hm, rfl⟩ := map_eq_ok.mp h
      obtain ⟨ts, t, us, htokens, hlen, hnew⟩ := ih hm
      refine ⟨⟨l.kind, l.text, gap, at_, e⟩ :: ts, t, us, ?_, ?_, ?_⟩
      · rw [htokens, List.cons_append]
      · rw [List.length_cons, hlen, List.countP_cons_of_pos (by simp [hl])]
      · rw [hcons]
        exact map_eq_ok.mpr ⟨_, hnew, rfl⟩
    · rw [hcons] at h
      cases h

/-! ## Statements -/

/-- Two statements that differ in a name behind a dot: the tokens in front of the dot, the
dot, the word and the other name, and what is behind them. -/
structure Statement.Renamed (ts : List Token) (dot w : Token) (us : List Token) (v : List Char)
    (s s' : Statement) : Prop where
  tokens : s.tokens = ts ++ dot :: w :: us
  tokens' : ∃ old new, s'.tokens = ts ++ dot :: w.renamed v :: us.map (Token.moved old new)
  dot : dot.lexeme = Sql.dot
  word : w.kind = .word
  plain : ∀ k ∈ leadingWords, k.toList ≠ v.map Char.toUpper

/-- Of the lexemes of a piece all but one are gaps. -/
theorem countP_pieceLexemes (ps : List Piece) :
    (pieceLexemes ps).countP (fun l => !l.isGap) = ps.length := by
  induction ps with
  | nil => rfl
  | cons p ps ih =>
    have hgap : p.gap.countP (fun l => !l.isGap) = 0 :=
      List.countP_eq_zero.mpr fun l hl => by simp [p.blank l hl]
    rw [pieceLexemes_cons, List.countP_append, hgap, List.countP_cons_of_pos (by simp [p.solid]),
      ih, List.length_cons, Nat.zero_add]

/-- Texts that are the fronts of one text and have as many bytes are the same. -/
theorem append_inj_of_byteLength {s t s' t' : List Char} (h : s ++ t = s' ++ t')
    (hlen : byteLength s = byteLength s') : s = s' ∧ t = t' := by
  have htake := takeBytes?_append s t
  rw [h, hlen, takeBytes?_append] at htake
  obtain rfl := Option.some.inj htake
  exact ⟨rfl, List.append_cancel_left h⟩

/-- Stable lexemes that are nested, with every parenthesis closed, are scanned so. -/
theorem scan_of_nestFrom {d : Dialect} {ls : List Lexeme} {n : Nested}
    (hs : Stable (.ofDialect d) ls) (h : nestFrom 0 0 [] ls = .ok n) (hdepth : n.depth = 0) :
    scan d (lexemeText ls) = .ok { tokens := n.tokens, rest := n.rest } := by
  have hlex : lex d (lexemeText ls) = (ls, none) := hs
  simp only [scan, hlex, h, bind, Except.bind, hdepth, if_true]

/-- The lexemes of a text around a word behind a dot, as the tokens tell them. -/
theorem lexemes_around {ps : List Piece} {tail : List Lexeme} {ts us : List Token} {dot w : Token}
    {before word after : List Char}
    (htext : lexemeText (pieceLexemes ps ++ tail) = before ++ word ++ after)
    (htokens : pieceTokens ps = ts ++ dot :: w :: us) (hplaced : Placed 0 (pieceTokens ps))
    (hword : w.text = word) (hat : w.start = byteLength before) :
    ∃ front gap back, pieceLexemes ps ++ tail =
        front ++ dot.lexeme :: (gap ++ w.lexeme :: back) ∧
      (∀ l ∈ gap, l.isGap = true) ∧
      (front ++ dot.lexeme :: gap).countP (fun l => !l.isGap) = ts.length + 1 ∧
      lexemeText (front ++ dot.lexeme :: gap) = before ∧ lexemeText back = after := by
  obtain ⟨ps, rest, rfl, rfl, hrest⟩ := List.map_eq_append_iff.mp htokens
  obtain ⟨p, others, rfl, rfl, hothers⟩ := List.map_eq_cons_iff.mp hrest
  obtain ⟨q, qs, rfl, rfl, rfl⟩ := List.map_eq_cons_iff.mp hothers
  have hlexemes : pieceLexemes (ps ++ p :: q :: qs) ++ tail =
      (pieceLexemes ps ++ p.gap) ++ p.token.lexeme ::
        (q.gap ++ q.token.lexeme :: (pieceLexemes qs ++ tail)) := by
    simp only [pieceLexemes_append, pieceLexemes_cons, List.append_assoc, List.cons_append]
  have hfront : lexemeText ((pieceLexemes ps ++ p.gap) ++ p.token.lexeme :: q.gap) =
      tokenText (pieceTokens (ps ++ [p])) ++ q.token.gap := by
    rw [tokenText_pieceTokens, pieceLexemes_append, pieceLexemes_cons, q.gap_eq,
      ← lexemeText_append]
    simp [pieceLexemes]
  -- the word starts behind as many bytes as the text in front of it has
  have hstart : byteLength before =
      byteLength (lexemeText ((pieceLexemes ps ++ p.gap) ++ p.token.lexeme :: q.gap)) := by
    have hsplit : pieceTokens (ps ++ p :: q :: qs) =
        pieceTokens (ps ++ [p]) ++ q.token :: pieceTokens qs := by
      simp [pieceTokens]
    rw [hsplit, placed_append] at hplaced
    rw [hfront, byteLength_append, ← hat, hplaced.2.1, Nat.zero_add]
  have hwhole : lexemeText ((pieceLexemes ps ++ p.gap) ++ p.token.lexeme :: q.gap) ++
      (q.token.text ++ lexemeText (pieceLexemes qs ++ tail)) = before ++ (word ++ after) := by
    rw [← List.append_assoc before, ← htext, hlexemes]
    simp [lexemeText, Token.lexeme]
  -- both cut the same text behind as many bytes
  obtain ⟨hbefore, hrest⟩ := append_inj_of_byteLength hwhole hstart.symm
  rw [hword] at hrest
  refine ⟨_, _, _, hlexemes, q.blank, ?_, hbefore, List.append_cancel_left hrest⟩
  have hblank : ∀ {gap : List Lexeme}, (∀ l ∈ gap, l.isGap = true) →
      gap.countP (fun l => !l.isGap) = 0 := fun hgap =>
    List.countP_eq_zero.mpr fun l hl => by simp [hgap l hl]
  rw [List.countP_append, List.countP_append, countP_pieceLexemes, hblank p.blank,
    List.countP_cons_of_pos (by simp [p.solid]), hblank q.blank, List.length_map]

/-- With a plain name in the place of a word behind a dot, a statement is a statement. -/
theorem renamed_of_parse {d : Dialect} {before word v after : List Char} {s : Statement}
    {ts us : List Token} {dot w : Token}
    (h : Statement.parse d (before ++ word ++ after) = .ok s)
    (htokens : s.tokens = ts ++ dot :: w :: us) (hdot : dot.lexeme = Sql.dot)
    (hw : w.lexeme = ⟨.word, word⟩) (hat : w.start = byteLength before)
    (hv : PlainName (.ofDialect d) v after.head?) :
    ∃ s', Statement.parse d (before ++ v ++ after) = .ok s' ∧
      Statement.Renamed ts dot w us v s s' := by
  have hkind : w.kind = .word := congrArg Lexeme.kind hw
  have hword : w.text = word := congrArg Lexeme.text hw
  obtain ⟨-, found, hscan, hsplit⟩ := Statement.parse_eq_ok h
  obtain ⟨ls, hstable, htext, hnest⟩ := lexemes_of_scan hscan
  obtain ⟨ps, tail, hls, -, -, hps⟩ := exists_pieces blank_nil hnest
  obtain ⟨happend, hdropped⟩ := splitSemicolons_append found.tokens
  rw [← hsplit] at happend
  generalize (splitSemicolons found.tokens).2 = dropped at happend hdropped
  rw [List.nil_append] at hls
  subst hls
  -- the word is where it is in the text, and may be another one there
  have hfound : found.tokens = ts ++ dot :: w :: (us ++ dropped) := by
    rw [← happend, htokens]
    simp
  have hplaced : Placed 0 found.tokens :=
    placed_of_nestFrom (fun l hl => hstable.text_ne_nil_of_mem hl) hnest rfl
  dsimp only at hps
  rw [hps] at hfound hplaced
  obtain ⟨front, gap, back, hlexemes, hgap, hcount, rfl, rfl⟩ :=
    lexemes_around htext hfound hplaced hword hat
  rw [hlexemes, hdot, hw] at hstable hnest
  have hstable' := hstable.renamed hgap hv
  -- the tokens around it are the same
  have hsplit' : ∀ u : List Char, front ++ Sql.dot :: (gap ++ ⟨.word, u⟩ :: back) =
      (front ++ Sql.dot :: gap) ++ ⟨.word, u⟩ :: back := by simp
  rw [hsplit'] at hnest
  obtain ⟨ts', t, us', hall, hlen, hnest'⟩ := nestFrom_renamed hnest v
  have hsame : ts' ++ t :: us' = (ts ++ [dot]) ++ w :: (us ++ dropped) := by
    rw [← hall, List.append_assoc]
    exact hps.trans hfound
  rw [hdot] at hcount
  obtain ⟨rfl, hrest⟩ := List.append_inj hsame (by rw [hlen, hcount]; simp)
  obtain ⟨rfl, rfl⟩ := List.cons.inj hrest
  have hscan' := scan_of_nestFrom (hsplit' v ▸ hstable') hnest' rfl
  have htext' : lexemeText ((front ++ Sql.dot :: gap) ++ ⟨.word, v⟩ :: back) =
      lexemeText (front ++ dot.lexeme :: gap) ++ v ++ lexemeText back := by
    rw [lexemeText_append, lexemeText_cons, hdot, List.append_assoc]
  rw [htext'] at hscan'
  have hno := Statement.noSemicolon_of_parse h
  rw [htokens] at hno
  generalize t.start + byteLength word = old, t.start + byteLength v = new at hscan'
  have htokens' : (ts ++ [dot]) ++ t.renamed v :: (us ++ dropped).map (Token.moved old new) =
      (ts ++ dot :: t.renamed v :: us.map (Token.moved old new)) ++
        dropped.map (Token.moved old new) := by
    simp
  have hparse := Statement.parse_of_scan_append hscan' htokens' (by simp) ?_ ?_
  · exact ⟨_, hparse, htokens, ⟨old, new, rfl⟩, hdot, hkind, hv.plain⟩
  · simp only [List.forall_mem_append, List.forall_mem_cons, List.forall_mem_map] at hno ⊢
    exact hno
  · exact List.forall_mem_map.mpr hdropped

/-! ## Clauses -/

/-- A token is none of the words whose letters it does not have. -/
theorem Token.isWord_eq_false {t : Token} {words : List String}
    (h : ∀ k ∈ words, k.toList ≠ t.text.map Char.toUpper) : t.isWord words = false := by
  rw [Bool.eq_false_iff]
  intro hword
  obtain ⟨w, hw, hany⟩ := (Option.any_eq_true _ _).mp hword
  obtain ⟨k, hk, heq⟩ := List.any_eq_true.mp hany
  rw [word?] at hw
  split at hw
  · cases hw
    exact h k hk (eq_of_beq heq)
  · cases hw

/-- The first element that passes a test is the first one among those that are kept, if it
is kept. -/
theorem find?_filter_of_kept {α : Type} {p q : α → Bool} {l : List α}
    (h : ∀ a ∈ l.find? q, p a = true) : (l.filter p).find? q = l.find? q := by
  rw [List.find?_filter]
  cases hfind : l.find? q with
  | none =>
    rw [List.find?_eq_none] at hfind ⊢
    intro a ha
    simp [hfind a ha]
  | some a =>
    obtain ⟨hq, before, after, rfl, hbefore⟩ := List.find?_eq_some_iff_append.mp hfind
    have hp := h a hfind
    -- what is in front of it fails the test, filtered or not
    refine List.find?_eq_some_iff_append.mpr ⟨by simp [hp, hq], before, after, rfl, ?_⟩
    intro b hb
    have hnot := hbefore b hb
    simp only [Bool.not_eq_true'] at hnot
    simp [hnot]

namespace Statement

/-- The clauses that decide where text is put into a statement: the locking clause, which
the tail goes in front of, and with a cursor those that the condition goes behind or in
front of. -/
def deciding (s : Statement) (seeks : Bool) : List Marker :=
  (s.marker? .locking).toList ++
    if seeks then
      match (s.marker? .filter).or (s.marker? .having) with
      | some m => m :: (s.markers.find? fun n => m.last < n.first).toList
      | none => (s.markers.find? fun m => afterFilter.contains m.clause).toList
    else []

namespace Renamed

variable {ts us : List Token} {dot w : Token} {v : List Char} {s s' : Statement}

theorem length (h : Renamed ts dot w us v s s') : s'.tokens.length = s.tokens.length := by
  obtain ⟨old, new, htokens'⟩ := h.tokens'
  rw [h.tokens, htokens']
  simp

/-- With a plain name, all other clauses are left. -/
theorem markers (h : Renamed ts dot w us v s s') :
    s'.markers = s.markers.filter fun m => m.first ≠ ts.length + 1 := by
  obtain ⟨old, new, htokens'⟩ := h.tokens'
  have hdot : dot.kind ≠ .word := by
    rw [show dot.kind = .symbol from congrArg Lexeme.kind h.dot]
    decide
  -- no keyword goes on behind the dot, and none starts with it
  have hparts : ∀ rest : List Token, markersFrom 0 (ts ++ dot :: rest) =
      markersFrom 0 ts ++ markersFrom (ts.length + 1) rest := by
    intro rest
    have hfresh : Fresh (dot :: rest) := by
      intro t ht
      obtain rfl := Option.some.inj ht
      exact Token.isWord_of_kind hdot _
    rw [markersFrom_append ts hfresh, Nat.zero_add, markersFrom,
      clauseAt_eq_none fun hword => absurd hword hdot]
  -- a plain name is none of the words that a clause starts with
  have hname : ∀ next, clauseAt (w.renamed v) next = none := by
    intro next
    have hword : ∀ words, (∀ k ∈ words, k ∈ leadingWords) →
        (w.renamed v).isWord words = false := fun words hwords =>
      Token.isWord_eq_false fun k hk => h.plain k (hwords k hk)
    have hone : ∀ k ∈ leadingWords, (w.renamed v).isWord [k] = false := fun k hk =>
      hword [k] (by simp [hk])
    simp only [clauseAt, hone "WHERE" (by decide), hone "HAVING" (by decide),
      hone "WINDOW" (by decide), hone "LIMIT" (by decide), hone "OFFSET" (by decide),
      hone "FETCH" (by decide), hone "GROUP" (by decide), hone "ORDER" (by decide),
      hone "FOR" (by decide), hone "LOCK" (by decide),
      hword ["UNION", "INTERSECT", "EXCEPT", "MINUS"] (by decide), Bool.false_and,
      Bool.false_eq_true, if_false, ite_self]
  have hback : markersFrom (ts.length + 2) (us.map (Token.moved old new)) =
      markersFrom (ts.length + 2) us := by
    refine markersFrom_congr ?_ _
    rw [List.map_map]
    rfl
  -- the other markers are in front of the word or behind it
  have hkept : ∀ m ∈ markersFrom 0 ts ++ markersFrom (ts.length + 2) us,
      decide (m.first ≠ ts.length + 1) = true := by
    intro m hm
    rw [decide_eq_true_eq]
    rcases List.mem_append.mp hm with hm | hm
    · have hlt := (last_lt_of_mem hm).1
      omega
    · obtain ⟨i, t, two, hfirst, -⟩ := mem_markersFrom hm
      omega
  rw [Statement.markers, Statement.markers, h.tokens, htokens', hparts, hparts, markersFrom, hname]
  dsimp only
  rw [hback, markersFrom]
  split
  · rw [List.filter_append, List.filter_cons_of_neg (by simp), ← List.filter_append,
      List.filter_eq_self.mpr hkept]
  · rw [List.filter_eq_self.mpr hkept]

/-- A marker that is not at the renamed word is found in both statements. -/
theorem find? (h : Renamed ts dot w us v s s') {p : Marker → Bool}
    (hp : ∀ m ∈ s.markers.find? p, m.first ≠ ts.length + 1) :
    s'.markers.find? p = s.markers.find? p := by
  rw [h.markers]
  exact find?_filter_of_kept fun m hm => decide_eq_true (hp m hm)

/-- Where the word does not decide it, the tail has its place. -/
theorem tailIndex (h : Renamed ts dot w us v s s') {seeks : Bool}
    (hfree : ∀ m ∈ s.deciding seeks, m.first ≠ ts.length + 1) : s'.tailIndex = s.tailIndex := by
  have hlocking : s'.marker? .locking = s.marker? .locking :=
    h.find? fun m hm => hfree m (List.mem_append_left _ (Option.mem_toList.mpr hm))
  rw [Statement.tailIndex, Statement.tailIndex, hlocking, lastIndex, lastIndex, h.length]

/-- A statement that can be paged can still be paged. -/
theorem ensurePageable (h : Renamed ts dot w us v s s') {ordered : Bool}
    (hs : s.ensurePageable ordered = .ok ()) : s'.ensurePageable ordered = .ok () := by
  rw [Statement.ensurePageable] at hs ⊢
  split at hs
  · cases hs
  · next hnone =>
    -- no marker is found, so none at the renamed word
    have hother : ∀ m ∈ s.markers.find? fun m => (refused ordered).contains m.clause,
        m.first ≠ ts.length + 1 := by
      rw [hnone]
      simp
    rw [h.find? hother, hnone]

end Renamed

end Statement

end SqlPaging.Sql
