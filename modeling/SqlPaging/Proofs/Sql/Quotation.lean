import Mathlib.Logic.ExistsUnique
import SqlPaging.Proofs.Sql.Outline

/-!
# SqlPaging — quotations

A *quotation* is what stands between two quotes. Its body is made of *glyphs*: ordinary
characters, doubled quotes and, where backslashes count, a backslash with the character
behind it. No glyph is a lone quote, and the first character of a glyph tells which one it
is, so that a body is made of glyphs in one way at most.

A quotation ends behind glyphs and a quote that is not doubled, and nowhere else. So text
that is escaped becomes one lexeme, whatever its quotes and backslashes are, and the body
of each quoted lexeme can be told apart again.

Main results:

* `quotedLength?_eq_some_iff` — where the quote scanner stops.
* `lexFrom_quotation_iff` — the first lexeme of a text that starts with an opening quote.
* `quotations_read_back` — escaped text is one token, and quoted lexemes are glyphs.
-/

namespace SqlPaging.Sql

/-- A way to quote text. -/
structure Quotation where
  /-- the letter in front of the opening quote, if there is one -/
  lead : List Char
  quote : Char
  /-- a backslash takes the next character with it -/
  escapes : Bool
  quote_ne : quote ≠ '\\'

namespace Quotation

variable {q : Quotation}

/-- What stands in front of the body. -/
def opener (q : Quotation) : List Char := q.lead ++ [q.quote]

/-- The lexeme with a text between the quotes. -/
def around (q : Quotation) (e : List Char) : Lexeme := ⟨.quoted, q.opener ++ (e ++ [q.quote])⟩

/-- The quotations of a dialect. -/
def ofRules (r : LexicalRules) : List Quotation :=
  [⟨[], '\'', r.backslashEscapes, by decide⟩, ⟨[], '"', r.backslashEscapes, by decide⟩,
    ⟨[], '\x60', false, by decide⟩] ++
  if r.dollarQuotes then [⟨['E'], '\'', true, by decide⟩, ⟨['e'], '\'', true, by decide⟩] else []

/-! ## Bodies -/

/-- What a body is made of. -/
inductive Glyph (q : Quotation) where
  | plain (c : Char) (hquote : c ≠ q.quote) (hescape : q.escapes = true → c ≠ '\\')
  | doubled
  | pair (h : q.escapes = true) (c : Char)

def Glyph.text : Glyph q → List Char
  | plain c _ _ => [c]
  | doubled => [q.quote, q.quote]
  | pair _ c => ['\\', c]

/-- The character that a glyph shows: behind a backslash, the one that it takes with it. -/
def Glyph.char : Glyph q → Char
  | plain c _ _ => c
  | doubled => q.quote
  | pair _ c => c

/-- The text of glyphs. -/
def body (gs : List (Glyph q)) : List Char := gs.flatMap Glyph.text

theorem body_cons (g : Glyph q) (gs : List (Glyph q)) : body (g :: gs) = g.text ++ body gs := rfl

/-- A body is made of glyphs in one way. -/
theorem body_injective : Function.Injective (body (q := q)) := by
  intro gs
  induction gs with
  | nil =>
    intro hs h
    cases hs with
    | nil => rfl
    | cons k hs => cases k <;> cases h
  | cons g gs ih =>
    intro hs h
    cases hs with
    | nil => cases g <;> cases h
    | cons k hs =>
      rw [body_cons, body_cons] at h
      -- the first character tells which glyph it is
      cases g with
      | plain c hquote hescape =>
        cases k with
        | plain d =>
          obtain ⟨rfl, htail⟩ := List.cons.inj h
          rw [ih htail]
        | doubled => exact absurd (List.cons.inj h).1 hquote
        | pair hq => exact absurd (List.cons.inj h).1 (hescape hq)
      | doubled =>
        cases k with
        | plain d hquote => exact absurd (List.cons.inj h).1.symm hquote
        | doubled => rw [ih (List.cons.inj (List.cons.inj h).2).2]
        | pair => exact absurd (List.cons.inj h).1 q.quote_ne
      | pair hq c =>
        cases k with
        | plain d _ hescape => exact absurd (List.cons.inj h).1.symm (hescape hq)
        | doubled => exact absurd (List.cons.inj h).1.symm q.quote_ne
        | pair _ d =>
          -- the second character of a pair is any one, and the first is always the backslash
          obtain ⟨rfl, htail⟩ := List.cons.inj (List.cons.inj h).2
          rw [ih htail]

/-! ## Escaping -/

/-- The ways to write a text between the quotes: a quote is doubled, and where backslashes
count they are doubled too, and one may stand in front of a quote instead. -/
inductive Escaped (q : Quotation) : List Char → List Char → Prop
  | nil : Escaped q [] []
  | plain {c : Char} {s e : List Char} (hquote : c ≠ q.quote)
    (hescape : q.escapes = true → c ≠ '\\') (h : Escaped q s e) : Escaped q (c :: s) (c :: e)
  | doubled {s e : List Char} (h : Escaped q s e) :
    Escaped q (q.quote :: s) (q.quote :: q.quote :: e)
  | backslash {s e : List Char} (hq : q.escapes = true) (h : Escaped q s e) :
    Escaped q ('\\' :: s) ('\\' :: '\\' :: e)
  | quoted {s e : List Char} (hq : q.escapes = true) (h : Escaped q s e) :
    Escaped q (q.quote :: s) ('\\' :: q.quote :: e)

/-- Escaped text is made of glyphs that show it. -/
theorem Escaped.exists_glyphs {s e : List Char} (h : q.Escaped s e) :
    ∃ gs : List (Glyph q), body gs = e ∧ gs.map Glyph.char = s := by
  -- each step of escaping gives one glyph
  induction h with
  | nil => exact ⟨[], rfl, rfl⟩
  | plain hquote hescape _ ih =>
    obtain ⟨gs, rfl, rfl⟩ := ih
    exact ⟨.plain _ hquote hescape :: gs, rfl, rfl⟩
  | doubled _ ih =>
    obtain ⟨gs, rfl, rfl⟩ := ih
    exact ⟨.doubled :: gs, rfl, rfl⟩
  | backslash hq _ ih =>
    obtain ⟨gs, rfl, rfl⟩ := ih
    exact ⟨.pair hq '\\' :: gs, rfl, rfl⟩
  | quoted hq _ ih =>
    obtain ⟨gs, rfl, rfl⟩ := ih
    exact ⟨.pair hq q.quote :: gs, rfl, rfl⟩

end Quotation

open Quotation

variable {q : Quotation} {r : LexicalRules}

/-! ## The end of a quotation -/

/-- The scanner passes a glyph and goes on behind it. -/
theorem quotedLength?_glyph (g : Glyph q) (s : List Char) :
    quotedLength? q.quote q.escapes (g.text ++ s) =
      (quotedLength? q.quote q.escapes s).map (· + g.text.length) := by
  cases g with
  | plain c hquote hescape =>
    -- the quote itself is no backslash
    have hc : ¬ (q.escapes && decide (c = '\\')) = true := by simpa using hescape
    simp only [Glyph.text, List.cons_append, List.nil_append, List.length_singleton]
    rw [quotedLength?.eq_def]
    simp only [hc, hquote, if_false, Bool.false_eq_true]
  | doubled =>
    have hc : ¬ (q.escapes && decide (q.quote = '\\')) = true := by simp [q.quote_ne]
    simp only [Glyph.text, List.cons_append, List.nil_append, List.length_cons, List.length_nil,
      quotedLength?, hc, if_true, if_false, Bool.false_eq_true]
  | pair hq c =>
    simp only [Glyph.text, List.cons_append, List.nil_append, List.length_cons, List.length_nil,
      quotedLength?, hq, Bool.true_and, decide_true, if_true]

/-- The scanner stops behind glyphs and a quote that is not doubled. -/
theorem quotedLength?_body (gs : List (Glyph q)) {rest : List Char}
    (h : rest.head? ≠ some q.quote) :
    quotedLength? q.quote q.escapes (body gs ++ q.quote :: rest) = some ((body gs).length + 1) := by
  induction gs with
  | nil =>
    -- the closing quote is not doubled, whatever follows
    have hclose : quotedLength? q.quote q.escapes ([q.quote] ++ []) = some 1 := by
      simp [quotedLength?, q.quote_ne]
    refine quotedLength?_cut (s := [q.quote]) (u := rest) hclose (Nat.le_refl 1) ?_
    refine fun c hc heq => h ?_
    rw [hc, heq]
  | cons g gs ih =>
    rw [body_cons, List.append_assoc, quotedLength?_glyph, ih, Option.map_some, List.length_append]
    congr 1
    omega

/-- A quotation ends behind glyphs, at a quote that is not doubled, and nowhere else. -/
theorem quotedLength?_eq_some_iff {s : List Char} {n : Nat} :
    quotedLength? q.quote q.escapes s = some n ↔
      ∃ (gs : List (Glyph q)) (rest : List Char), s = body gs ++ q.quote :: rest ∧
        rest.head? ≠ some q.quote ∧ n = (body gs).length + 1 := by
  constructor
  · -- each step of the scanner but the last one is a glyph
    have hstep : ∀ (g : Glyph q) {s : List Char} {m : Nat},
        (∃ (gs : List (Glyph q)) (rest : List Char), s = body gs ++ q.quote :: rest ∧
          rest.head? ≠ some q.quote ∧ m = (body gs).length + 1) →
        ∃ (gs : List (Glyph q)) (rest : List Char), g.text ++ s = body gs ++ q.quote :: rest ∧
          rest.head? ≠ some q.quote ∧ m + g.text.length = (body gs).length + 1 := by
      rintro g _ _ ⟨gs, rest, rfl, hrest, rfl⟩
      refine ⟨g :: gs, rest, by rw [body_cons, List.append_assoc], hrest, ?_⟩
      rw [body_cons, List.length_append]
      omega
    intro h
    -- in the scanner's cases, of which two end the region
    fun_induction quotedLength? q.quote q.escapes s generalizing n with
    | case1 => cases h
    | case2 => cases h
    | case3 c hc d s ih =>
      obtain ⟨m, hm, rfl⟩ := Option.map_eq_some_iff.mp h
      obtain ⟨hq, rfl⟩ : q.escapes = true ∧ c = '\\' := by simpa using hc
      exact hstep (.pair hq d) (ih hm)
    | case4 hq =>
      cases h
      exact ⟨[], [], rfl, by simp, rfl⟩
    | case5 s hq ih =>
      obtain ⟨m, hm, rfl⟩ := Option.map_eq_some_iff.mp h
      exact hstep .doubled (ih hm)
    | case6 d s hc hq =>
      cases h
      exact ⟨[], d :: s, rfl, by simpa using hc, rfl⟩
    | case7 c s hc hquote ih =>
      obtain ⟨m, hm, rfl⟩ := Option.map_eq_some_iff.mp h
      exact hstep (.plain c hquote (by simpa using hc)) (ih hm)
  · rintro ⟨gs, rest, rfl, hrest, rfl⟩
    exact quotedLength?_body gs hrest

/-! ## Quoted lexemes -/

/-- An opening quote starts a quotation, which the quote scanner ends. -/
theorem lexeme_opener (hq : q ∈ ofRules r) :
    ∃ c t region, q.opener = c :: t ∧ ∀ s, lexeme r c (t ++ s) =
      match quotedLength? q.quote q.escapes s with
      | some n => .ok (.quoted, n + t.length)
      | none => .error region := by
  rw [ofRules, List.mem_append] at hq
  rcases hq with hq | hq
  · simp only [List.mem_cons, List.not_mem_nil, or_false] at hq
    rcases hq with rfl | rfl | rfl
    · -- these three start with the quote itself
      exact ⟨'\'', [], .stringLiteral, rfl, fun s => lexeme_eq_apply r _ s⟩
    · exact ⟨'"', [], .doubleQuoted, rfl, fun s => lexeme_eq_apply r _ s⟩
    · exact ⟨'\x60', [], .quotedIdentifier, rfl, fun s => lexeme_eq_apply r _ s⟩
  · split at hq
    · next hr =>
      -- the letter is the first character, and the quote shows that it starts no word
      have hrule : ∀ c, c = 'E' ∨ c = 'e' →
          rule r c (some '\'') = .quoted .stringLiteral '\'' (by decide) true 1 := by
        rintro c (rfl | rfl)
        all_goals
          rw [rule_of_not_mark r _ (by decide), if_pos (by decide), if_pos (by simp [hr])]
      simp only [List.mem_cons, List.not_mem_nil, or_false] at hq
      rcases hq with rfl | rfl
      · refine ⟨'E', ['\''], .stringLiteral, rfl, fun s => ?_⟩
        rw [lexeme_eq_apply]
        exact congrArg (Rule.apply r ('\'' :: s)) (hrule 'E' (.inl rfl))
      · refine ⟨'e', ['\''], .stringLiteral, rfl, fun s => ?_⟩
        rw [lexeme_eq_apply]
        exact congrArg (Rule.apply r ('\'' :: s)) (hrule 'e' (.inr rfl))
    · cases hq

/-- An opening quote starts a lexeme if glyphs and a quote that is not doubled follow, and the
lexemes go on behind that quote. -/
theorem lexFrom_quotation_iff (hq : q ∈ ofRules r) {s : List Char} {l : Lexeme}
    {ls : List Lexeme} {end_ : Option Region} :
    lexFrom r 0 (q.opener ++ s) = (l :: ls, end_) ↔
      ∃ (gs : List (Glyph q)) (rest : List Char), s = body gs ++ q.quote :: rest ∧
        rest.head? ≠ some q.quote ∧ l = q.around (body gs) ∧
        lexFrom r 0 rest = (ls, end_) := by
  obtain ⟨c, t, region, hopener, hlexeme⟩ := lexeme_opener hq
  -- behind a closing quote, the text is cut into the region and the rest
  have hclosed : ∀ (gs : List (Glyph q)) {rest : List Char}, rest.head? ≠ some q.quote →
      lexFrom r 0 (q.opener ++ (body gs ++ q.quote :: rest)) =
        (q.around (body gs) :: (lexFrom r 0 rest).1, (lexFrom r 0 rest).2) := by
    intro gs rest hrest
    have hcut : t ++ (body gs ++ q.quote :: rest) = t ++ (body gs ++ [q.quote]) ++ rest := by simp
    have hlen : (body gs).length + 1 + t.length = (t ++ (body gs ++ [q.quote])).length := by
      simp only [List.length_append, List.length_singleton]
      omega
    rw [hopener, List.cons_append, lexFrom_zero_cons, hlexeme, quotedLength?_body gs hrest]
    dsimp only
    rw [lexFrom_eq_drop, hcut, hlen, List.take_left, List.drop_left, around, hopener,
      List.cons_append]
  constructor
  · intro h
    -- a region that is left open gives no lexeme
    cases hn : quotedLength? q.quote q.escapes s with
    | none =>
      rw [hopener, List.cons_append, lexFrom_zero_cons, hlexeme, hn] at h
      cases h
    | some n =>
      obtain ⟨gs, rest, rfl, hrest, -⟩ := quotedLength?_eq_some_iff.mp hn
      rw [hclosed gs hrest] at h
      cases h
      exact ⟨gs, rest, rfl, hrest, rfl, rfl⟩
  · rintro ⟨gs, rest, rfl, hrest, rfl, hls⟩
    rw [hclosed gs hrest, hls]

/-- A quoted lexeme starts with an opening quote, if not with a dollar sign. -/
theorem exists_opener_of_quoted {c : Char} {s : List Char} {n : Nat}
    (h : lexeme r c s = .ok (.quoted, n)) (hc : c ≠ '$') :
    ∃ q ∈ ofRules r, ∃ t, c :: s = q.opener ++ t := by
  have hrow := row_rule r c s.head?
  rw [lexeme_eq_apply] at h
  have hkind := Rule.mem_kinds h
  generalize rule r c s.head? = x at hrow hkind
  -- the rows that give a quoted lexeme are those of the quotations, and the dollar sign's
  cases hrow with
  | string hstart =>
    subst hstart
    exact ⟨_, List.mem_append_left _ (.head _), s, rfl⟩
  | doubleQuoted hstart =>
    subst hstart
    exact ⟨_, List.mem_append_left _ (.tail _ (.head _)), s, rfl⟩
  | quotedIdentifier hstart =>
    subst hstart
    exact ⟨_, List.mem_append_left _ (.tail _ (.tail _ (.head _))), s, rfl⟩
  | escapeString hescape =>
    obtain ⟨hr, hletter, hquote⟩ := hescape
    obtain ⟨t, rfl⟩ := List.head?_eq_some_iff.mp hquote
    rw [ofRules, if_pos hr]
    -- the letter of an escape string is of either case
    rcases hletter with hletter | hletter
    · cases hletter
      exact ⟨_, List.mem_append_right _ (.head _), t, rfl⟩
    · cases hletter
      exact ⟨_, List.mem_append_right _ (.tail _ (.head _)), t, rfl⟩
  | dollar hstart => exact absurd hstart hc
  | _ => simp [Rule.kinds] at hkind

/-- A quoted lexeme that is no dollar-quoted string is a quotation. -/
theorem exists_glyphs_of_mem {n : Nat} {s : List Char} {l : Lexeme} (hl : l ∈ (lexFrom r n s).1)
    (hk : l.kind = .quoted) (hdollar : l.text.head? ≠ some '$') :
    ∃ q ∈ ofRules r, ∃ gs : List (Glyph q), l = q.around (body gs) := by
  -- the lexeme is the first one of the text from its place on
  obtain ⟨c, t, m, -, hlexeme, htext⟩ := exists_lexeme_of_mem hl
  have hl' : l = ⟨.quoted, c :: t.take m⟩ := by rw [← hk, ← htext]
  rw [hk] at hlexeme
  have hc : c ≠ '$' := by
    rintro rfl
    exact hdollar (by rw [htext, List.head?_cons])
  obtain ⟨q, hq, u, hopener⟩ := exists_opener_of_quoted hlexeme hc
  have hfirst : lexFrom r 0 (q.opener ++ u) = (l :: (lexFrom r m t).1, (lexFrom r m t).2) := by
    rw [← hopener, lexFrom_zero_cons, hlexeme, hl']
  obtain ⟨gs, -, -, -, hgs, -⟩ := (lexFrom_quotation_iff hq).mp hfirst
  exact ⟨q, hq, gs, hgs⟩

/-- A quoted lexeme has one body, and that one way to be made of glyphs. -/
theorem around_body_injective {gs hs : List (Glyph q)}
    (h : q.around (body gs) = q.around (body hs)) : gs = hs := by
  simp only [around, Lexeme.mk.injEq, true_and, List.append_cancel_left_eq,
    List.append_cancel_right_eq] at h
  exact body_injective h

/-- Escaped text between two quotes is one lexeme and one token, in front of any text that
does not double the closing quote, and its glyphs show the text. What an opening quote
starts, if it is accepted, ends with that quote, and its body splits into glyphs in one
way; and there are no other quoted lexemes but those between dollar tags. -/
theorem quotations_read_back (d : Dialect) :
    (∀ q ∈ ofRules (.ofDialect d),
      (∀ s e rest, q.Escaped s e → rest.head? ≠ some q.quote →
        lex d ((q.around e).text ++ rest) = (q.around e :: (lex d rest).1, (lex d rest).2) ∧
        (∀ at_ depth gap, nestFrom at_ depth gap (lex d ((q.around e).text ++ rest)).1 =
          (nestFrom (at_ + byteLength (q.around e).text) depth [] (lex d rest).1).map fun n =>
            { n with tokens := ⟨.quoted, (q.around e).text, gap, at_, depth⟩ :: n.tokens }) ∧
        ∃ gs : List (Glyph q), body gs = e ∧ gs.map Glyph.char = s) ∧
      ∀ s l ls end_, lex d (q.opener ++ s) = (l :: ls, end_) →
        (∃ rest, q.opener ++ s = l.text ++ rest ∧ rest.head? ≠ some q.quote ∧
          lex d rest = (ls, end_)) ∧
        ∃! gs : List (Glyph q), l = q.around (body gs)) ∧
    ∀ s, ∀ l ∈ (lex d s).1, l.kind = .quoted → l.text.head? ≠ some '$' →
      ∃ q ∈ ofRules (.ofDialect d), ∃! gs : List (Glyph q), l = q.around (body gs) := by
  refine ⟨fun q hq => ⟨?_, ?_⟩, ?_⟩
  · intro s e rest he hrest
    -- a text that is escaped is the body of its glyphs, which the scanner reads back
    obtain ⟨gs, rfl, hs⟩ := he.exists_glyphs
    have hlex : lex d ((q.around (body gs)).text ++ rest) =
        (q.around (body gs) :: (lex d rest).1, (lex d rest).2) := by
      have htext : (q.around (body gs)).text ++ rest =
          q.opener ++ (body gs ++ q.quote :: rest) := by
        simp [around]
      rw [htext]
      exact (lexFrom_quotation_iff hq).mpr ⟨gs, rest, rfl, hrest, rfl, rfl⟩
    refine ⟨hlex, fun at_ depth gap => ?_, gs, rfl, hs⟩
    rw [hlex]
    rfl
  · intro s l ls end_ h
    -- what is read behind an opener is a quotation of glyphs, and of no others
    obtain ⟨gs, rest, rfl, hrest, rfl, hls⟩ := (lexFrom_quotation_iff hq).mp h
    refine ⟨⟨rest, by simp [around], hrest, hls⟩, gs, rfl, fun hs h => ?_⟩
    exact (around_body_injective h).symm
  · intro s l hl hk hdollar
    obtain ⟨q, hq, gs, rfl⟩ := exists_glyphs_of_mem hl hk hdollar
    exact ⟨q, hq, gs, rfl, fun hs h => (around_body_injective h).symm⟩

/-- A backslash in front of a quote, a quote that is doubled, and a backslash that is doubled
right before the closing quote. -/
theorem quotations_read_back_of_mixed :
    (⟨[], '\'', true, by decide⟩ : Quotation) ∈ ofRules (.ofDialect .mySql) ∧
    Escaped ⟨[], '\'', true, by decide⟩ ['\'', '\'', '\\'] ['\\', '\'', '\'', '\'', '\\', '\\'] ∧
    lex .mySql ['\'', '\\', '\'', '\'', '\'', '\\', '\\', '\'', 'O', 'R'] =
      ([⟨.quoted, ['\'', '\\', '\'', '\'', '\'', '\\', '\\', '\'']⟩,
        ⟨.word, ['O', 'R']⟩], none) := by
  have hmem : (⟨[], '\'', true, by decide⟩ : Quotation) ∈ ofRules (.ofDialect .mySql) := .head _
  -- a quote behind a backslash, a doubled one, and a backslash
  have hescaped : Escaped ⟨[], '\'', true, by decide⟩ ['\'', '\'', '\\']
      ['\\', '\'', '\'', '\'', '\\', '\\'] :=
    .quoted rfl (.doubled (.backslash rfl .nil))
  refine ⟨hmem, hescaped, ?_⟩
  exact (((quotations_read_back .mySql).1 _ hmem).1 _ _ ['O', 'R'] hescaped (by decide)).1

end SqlPaging.Sql
