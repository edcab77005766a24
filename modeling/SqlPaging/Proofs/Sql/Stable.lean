import SqlPaging.Proofs.Sql.Local
import SqlPaging.Sql.Token

/-!
# SqlPaging — lexemes that are read back

A list of lexemes is *stable* if its text splits into just these lexemes. Splitting a
text gives a stable list, and the end of a stable list is stable. A stable list can be
cut, and another stable list whose text is separated put behind the cut.

Stability says all there is to say about text that is put between lexemes: the edited
text splits into the old lexemes with the new ones between them.

Main results:

* `stable_cons_iff` — what stability asks of one lexeme.
* `stable_word_iff`, `stable_number_iff` — what a word and a number ask of their text and of
  what follows.
* `Stable.cut` — another end for a stable list.
* `Stable.detached` — lexemes that stand in front of any others.
* `stable_wrapped`, `stable_added` — the lexemes of a condition and of what is added to
  it.
-/

namespace SqlPaging.Sql

/-- A list of lexemes is what its text splits into. -/
def Stable (r : LexicalRules) (ls : List Lexeme) : Prop :=
  lexFrom r 0 (lexemeText ls) = (ls, none)

variable {r : LexicalRules}

/-- The texts of two parts stand one behind the other. -/
theorem lexemeText_append (ls ms : List Lexeme) :
    lexemeText (ls ++ ms) = lexemeText ls ++ lexemeText ms := by
  simp only [lexemeText, List.flatMap_append]

theorem lexemeText_cons (l : Lexeme) (ls : List Lexeme) :
    lexemeText (l :: ls) = l.text ++ lexemeText ls := rfl

theorem stable_nil : Stable r [] := rfl

/-- The lexemes of a text that leaves nothing open are stable. -/
theorem stable_of_lexFrom {s : List Char} {ls : List Lexeme} (h : lexFrom r 0 s = (ls, none)) :
    Stable r ls ∧ lexemeText ls = s := by
  have htext := text_lexFrom_of_complete r 0 s (by rw [h])
  rw [h, List.drop_zero] at htext
  rw [Stable, htext]
  exact ⟨h, rfl⟩

theorem lexFrom_nil (r : LexicalRules) (n : Nat) : lexFrom r n [] = ([], none) := by
  cases n <;> rfl

/-- The first lexeme of a text is taken, and as many characters are skipped. -/
theorem lexFrom_zero_cons (r : LexicalRules) (c : Char) (s : List Char) :
    lexFrom r 0 (c :: s) = match lexeme r c s with
      | .error region => ([], some region)
      | .ok (kind, n) =>
        ({ kind, text := c :: s.take n } :: (lexFrom r n s).1, (lexFrom r n s).2) := rfl

theorem lexFrom_eq_drop (r : LexicalRules) (n : Nat) (s : List Char) :
    lexFrom r n s = lexFrom r 0 (s.drop n) := by
  induction n generalizing s with
  | zero => rfl
  | succ n ih =>
    cases s with
    | nil => rw [List.drop_nil, lexFrom_nil, lexFrom_nil]
    | cons c s => rw [List.drop_succ_cons, ← ih s]; rfl

/-- The lexemes of a text are its first one and those of what is left behind it. -/
theorem lexFrom_cons_eq_iff {c : Char} {s : List Char} {l : Lexeme} {ls : List Lexeme} :
    lexFrom r 0 (c :: s) = (l :: ls, none) ↔
      ∃ kind n, lexeme r c s = .ok (kind, n) ∧ l = { kind, text := c :: s.take n } ∧
        lexFrom r 0 (s.drop n) = (ls, none) := by
  rw [lexFrom_zero_cons]
  -- a lexeme that is left open ends the lexing
  cases hl : lexeme r c s with
  | error region => simp
  | ok found =>
    obtain ⟨kind, n⟩ := found
    simp only [Prod.mk.injEq, List.cons.injEq, Except.ok.injEq, lexFrom_eq_drop r n]
    constructor
    · rintro ⟨⟨rfl, hls⟩, hend⟩
      exact ⟨kind, n, ⟨rfl, rfl⟩, rfl, Prod.ext hls hend⟩
    · rintro ⟨_, _, ⟨rfl, rfl⟩, rfl, hrest⟩
      rw [hrest]
      exact ⟨⟨rfl, rfl⟩, rfl⟩

/-- A lexeme is what its first character gives at some place of the text. -/
theorem exists_lexeme_of_mem {n : Nat} {s : List Char} {l : Lexeme} (hl : l ∈ (lexFrom r n s).1) :
    ∃ c t m, (c :: t) <:+ s ∧ lexeme r c t = .ok (l.kind, m) ∧ l.text = c :: t.take m := by
  fun_induction lexFrom r n s with
  | case1 => cases hl
  | case2 n c s ih =>
    obtain ⟨x, t, m, hsuffix, hx⟩ := ih hl
    exact ⟨x, t, m, hsuffix.trans (List.suffix_cons c s), hx⟩
  | case3 => cases hl
  | case4 c s kind n hlexeme rest ih =>
    rcases List.mem_cons.mp hl with rfl | hl
    · exact ⟨c, s, n, List.suffix_rfl, hlexeme, rfl⟩
    · obtain ⟨x, t, m, hsuffix, hx⟩ := ih hl
      exact ⟨x, t, m, hsuffix.trans (List.suffix_cons c s), hx⟩

/-- Behind the first lexemes of a text, the others are those of the rest of it. -/
theorem exists_rest_of_lexFrom {s : List Char} {ls ms : List Lexeme}
    (h : (lexFrom r 0 s).1 = ls ++ ms) :
    ∃ rest, s = lexemeText ls ++ rest ∧ lexFrom r 0 rest = (ms, (lexFrom r 0 s).2) := by
  induction ls generalizing s with
  | nil => exact ⟨s, rfl, Prod.ext h rfl⟩
  | cons l ls ih =>
    cases s with
    | nil => cases h
    | cons c s =>
      rw [lexFrom_zero_cons] at h ⊢
      cases hl : lexeme r c s with
      | error region =>
        rw [hl] at h
        cases h
      | ok found =>
        obtain ⟨kind, n⟩ := found
        -- the first lexeme is the one that is asked for
        simp only [hl, List.cons_append, List.cons.injEq] at h
        obtain ⟨rfl, htail⟩ := h
        -- what is left to split is the text behind the first lexeme
        rw [lexFrom_eq_drop] at htail
        obtain ⟨rest, hrest, hlex⟩ := ih htail
        refine ⟨rest, ?_, ?_⟩
        · rw [lexemeText_cons, List.append_assoc, ← hrest, List.cons_append, List.take_append_drop]
        · dsimp only
          rw [hlex, ← lexFrom_eq_drop]

/-- A lexeme in front of stable ones makes a stable list if its first character gives
it, in front of their text. -/
theorem stable_cons_iff {l : Lexeme} {ls : List Lexeme} :
    Stable r (l :: ls) ↔
      ∃ c t, l.text = c :: t ∧ lexeme r c (t ++ lexemeText ls) = .ok (l.kind, t.length) ∧
        Stable r ls := by
  constructor
  · intro h
    rw [Stable, lexemeText_cons] at h
    cases htext : l.text with
    | nil =>
      -- no lexeme is empty: the first one would have to start with the next one's text
      exfalso
      rw [htext, List.nil_append] at h
      cases hrest : lexemeText ls with
      | nil =>
        rw [hrest] at h
        cases h
      | cons c s =>
        rw [hrest, lexFrom_cons_eq_iff] at h
        obtain ⟨kind, n, -, rfl, -⟩ := h
        cases htext
    | cons c t =>
      rw [htext, List.cons_append, lexFrom_cons_eq_iff] at h
      obtain ⟨kind, n, hl, rfl, hrest⟩ := h
      simp only [List.cons.injEq, true_and] at htext
      -- the lexeme takes as many characters as its text has
      have hlen : n = t.length := by
        have hle := lexeme_le hl
        have hcut := congrArg List.length htext
        rw [List.length_take] at hcut
        omega
      subst hlen
      rw [List.drop_left] at hrest
      exact ⟨c, t, rfl, hl, hrest⟩
  · rintro ⟨c, t, htext, hl, hls⟩
    rw [Stable, lexemeText_cons, htext, List.cons_append, lexFrom_cons_eq_iff]
    refine ⟨l.kind, t.length, hl, ?_, ?_⟩
    · rw [List.take_left, ← htext]
    · rw [List.drop_left]
      exact hls

/-- The last lexemes of stable ones are stable. -/
theorem Stable.right {ls ms : List Lexeme} (h : Stable r (ls ++ ms)) : Stable r ms := by
  induction ls with
  | nil => exact h
  | cons l ls ih =>
    obtain ⟨-, -, -, -, hls⟩ := stable_cons_iff.mp h
    exact ih hls

/-- Stable lexemes are not empty, not even a part of them. -/
theorem Stable.text_ne_nil {ls ms : List Lexeme} (h : Stable r (ls ++ ms)) (hne : ls ≠ []) :
    lexemeText ls ≠ [] := by
  obtain ⟨l, ls, rfl⟩ := List.exists_cons_of_ne_nil hne
  obtain ⟨c, t, htext, -, -⟩ := stable_cons_iff.mp h
  rw [lexemeText_cons, htext]
  simp

theorem Stable.text_ne_nil_of_mem {ls : List Lexeme} (h : Stable r ls) {l : Lexeme}
    (hl : l ∈ ls) : l.text ≠ [] := by
  obtain ⟨before, after, rfl⟩ := List.append_of_mem hl
  obtain ⟨c, t, htext, -, -⟩ := stable_cons_iff.mp h.right
  rw [htext]
  exact List.cons_ne_nil c t

/-- The last lexeme is no comment, which the end of a text might have closed. -/
def Ended (ls : List Lexeme) : Prop := ∀ l ∈ ls.getLast?, l.kind ≠ .comment

/-- A stable list goes on as well with another end, if the end is separated from it. -/
theorem Stable.cut {ls ms end_ : List Lexeme} (h : Stable r (ls ++ ms)) (he : Stable r end_)
    (hsep : Separated (lexemeText end_)) (hlast : ms = [] → Ended ls) : Stable r (ls ++ end_) := by
  -- each lexeme is what it was: its own text has not changed, and it looks no further
  induction ls with
  | nil => exact he
  | cons l ls ih =>
    rw [List.cons_append] at h ⊢
    obtain ⟨c, t, htext, hl, hls⟩ := stable_cons_iff.mp h
    have hrest : Stable r (ls ++ end_) := by
      apply ih hls
      intro hms k hk
      cases ls with
      | nil => cases hk
      | cons m ls => exact hlast hms k (by rw [List.getLast?_cons_cons]; exact hk)
    refine stable_cons_iff.mpr ⟨c, t, htext, ?_, hrest⟩
    rw [lexemeText_append, ← List.append_assoc] at hl ⊢
    apply lexeme_cut hl (by simp) (hsep.follows _)
    intro hcomment hnil
    -- the comment is not the last lexeme, so that the text goes on behind it
    have hms : ms = [] := by
      cases ms with
      | nil => rfl
      | cons m ms =>
        have hright : Stable r (m :: ms ++ []) := by
          rw [List.append_nil]
          exact hls.right
        exact absurd hnil (hright.text_ne_nil (by simp))
    have hne : ls ≠ [] := by
      rintro rfl
      exact hlast hms l rfl hcomment
    have hpos := List.length_pos_iff.mpr (hls.text_ne_nil hne)
    rw [List.length_append]
    omega

/-! ## Lexemes that are put into a text -/

def space : Lexeme := ⟨.space, [' ']⟩

def openParen : Lexeme := ⟨.openParen, ['(']⟩

def closeParen : Lexeme := ⟨.closeParen, [')']⟩

/-- A space does not touch what follows it, other spaces apart. -/
theorem Stable.space {ls : List Lexeme} (h : Stable r ls) : Stable r (space :: ls) :=
  stable_cons_iff.mpr ⟨' ', [], rfl, rfl, h⟩

/-- An opening parenthesis does not touch what follows it. -/
theorem Stable.openParen {ls : List Lexeme} (h : Stable r ls) : Stable r (openParen :: ls) :=
  stable_cons_iff.mpr ⟨'(', [], rfl, rfl, h⟩

theorem Stable.closeParen {ls : List Lexeme} (h : Stable r ls) : Stable r (closeParen :: ls) :=
  stable_cons_iff.mpr ⟨')', [], rfl, rfl, h⟩

/-- A word is a whole run of its characters, and no part of an escape string. -/
theorem stable_word_iff {w : List Char} {ls : List Lexeme} :
    Stable r (⟨.word, w⟩ :: ls) ↔
      w.head?.any isWordStart = true ∧ (∀ c ∈ w, isWordChar c = true) ∧
        (∀ c ∈ (lexemeText ls).head?, isWordChar c = false) ∧
        ¬ Escapes r w (lexemeText ls).head? ∧ Stable r ls := by
  -- the first character is asked to start a word, which is more
  have hfirst : ∀ {c : Char}, isWordStart c = true → isWordChar c = true := by
    intro c hc
    rw [isWordChar, isNameChar, hc, Bool.true_or, Bool.true_or]
  -- only a word of one letter is decided by what comes behind it
  have hescapes : ∀ {c : Char} {t : List Char}, (∀ x ∈ t, isWordChar x = true) →
      (Escapes r [c] (t ++ lexemeText ls).head? ↔
        Escapes r (c :: t) (lexemeText ls).head?) := by
    intro c t ht
    cases t with
    | nil => rfl
    | cons x t =>
      have hx : x ≠ '\'' := by
        rintro rfl
        exact absurd (ht '\'' List.mem_cons_self) (by decide)
      simp [Escapes, hx]
  rw [stable_cons_iff]
  constructor
  · rintro ⟨c, t, rfl, hl, hls⟩
    rw [lexeme_eq_apply] at hl
    obtain ⟨hstart, hescape⟩ := start_of_word (Rule.mem_kinds hl)
    rw [rule_word r hstart hescape, Rule.apply, Except.ok.injEq, Prod.mk.injEq] at hl
    obtain ⟨hall, hnext⟩ := runLength_append_eq_length_iff.mp hl.2
    refine ⟨hstart, ?_, hnext, fun h => hescape ((hescapes hall).mpr h), hls⟩
    intro x hx
    rcases List.mem_cons.mp hx with rfl | hx
    · exact hfirst hstart
    · exact hall x hx
  · rintro ⟨hstart, hall, hnext, hescape, hls⟩
    cases w with
    | nil => cases hstart
    | cons c t =>
      have ht : ∀ x ∈ t, isWordChar x = true := fun x hx => hall x (List.mem_cons_of_mem c hx)
      refine ⟨c, t, rfl, ?_, hls⟩
      rw [lexeme_eq_apply, rule_word r hstart fun h => hescape ((hescapes ht).mp h), Rule.apply]
      congr 2
      exact runLength_append_eq_length_iff.mpr ⟨ht, hnext⟩

/-- A word of letters, in front of what does not go on with it. -/
theorem Stable.word {w : List Char} (hne : w ≠ []) (hw : ∀ c ∈ w, c.isAlpha = true)
    {ls : List Lexeme} (h : Stable r ls)
    (hnext : ∀ c ∈ (lexemeText ls).head?, isWordChar c = false ∧ c ≠ '\'') :
    Stable r (⟨.word, w⟩ :: ls) := by
  -- letters may start a word, and so go on with it
  have hstart : ∀ c ∈ w, isWordStart c = true := by
    intro c hc
    simp [isWordStart, hw c hc]
  refine stable_word_iff.mpr ⟨?_, ?_, fun c hc => (hnext c hc).1, ?_, h⟩
  · obtain ⟨c, t, rfl⟩ := List.exists_cons_of_ne_nil hne
    exact hstart c List.mem_cons_self
  · intro c hc
    rw [isWordChar, isNameChar, hstart c hc, Bool.true_or, Bool.true_or]
  · rintro ⟨-, -, hquote⟩
    exact (hnext '\'' hquote).2 rfl

/-- A number is a digit and a whole run of what may follow one. -/
theorem stable_number_iff {w : List Char} {ls : List Lexeme} :
    Stable r (⟨.number, w⟩ :: ls) ↔
      w.head?.any Char.isDigit = true ∧ (∀ c ∈ w, isNumberChar c = true) ∧
        (∀ c ∈ (lexemeText ls).head?, isNumberChar c = false) ∧ Stable r ls := by
  -- the first character is a digit, which is more
  have hfirst : ∀ {c : Char}, c.isDigit = true → isNumberChar c = true := by
    intro c hc
    rw [isNumberChar, Char.isAlphanum, hc, Bool.or_true, Bool.true_or]
  rw [stable_cons_iff]
  constructor
  · rintro ⟨c, t, rfl, hl, hls⟩
    rw [lexeme_eq_apply] at hl
    have hdigit := start_of_number (Rule.mem_kinds hl)
    rw [rule_digit r _ hdigit, Rule.apply, Except.ok.injEq, Prod.mk.injEq] at hl
    -- the run of the number ends at the end of the lexeme
    obtain ⟨hall, hnext⟩ := runLength_append_eq_length_iff.mp hl.2
    refine ⟨hdigit, ?_, hnext, hls⟩
    intro x hx
    rcases List.mem_cons.mp hx with rfl | hx
    · exact hfirst hdigit
    · exact hall x hx
  · rintro ⟨hdigit, hall, hnext, hls⟩
    cases w with
    | nil => cases hdigit
    | cons c t =>
      refine ⟨c, t, rfl, ?_, hls⟩
      rw [lexeme_eq_apply, rule_digit r _ hdigit, Rule.apply]
      congr 2
      exact runLength_append_eq_length_iff.mpr
        ⟨fun x hx => hall x (List.mem_cons_of_mem c hx), hnext⟩

/-- A number of digits, in front of what does not go on with it. -/
theorem Stable.number {w : List Char} (hne : w ≠ []) (hw : ∀ c ∈ w, c.isDigit = true)
    {ls : List Lexeme} (h : Stable r ls)
    (hnext : ∀ c ∈ (lexemeText ls).head?, isNumberChar c = false) :
    Stable r (⟨.number, w⟩ :: ls) := by
  refine stable_number_iff.mpr ⟨?_, ?_, hnext, h⟩
  · obtain ⟨c, t, rfl⟩ := List.exists_cons_of_ne_nil hne
    exact hw c List.mem_cons_self
  · intro c hc
    rw [isNumberChar, Char.isAlphanum, hw c hc, Bool.or_true, Bool.true_or]

/-- What is between tokens does not go on with a number. -/
theorem Stable.not_number {l : Lexeme} {ls : List Lexeme} (h : Stable r (l :: ls))
    (hgap : l.kind = .space ∨ l.kind = .comment) :
    ∀ c ∈ (lexemeText (l :: ls)).head?, isNumberChar c = false := by
  obtain ⟨c, t, htext, hl, -⟩ := stable_cons_iff.mp h
  rw [lexeme_eq_apply] at hl
  have hstart := start_of_gap hgap (Rule.mem_kinds hl)
  intro x hx
  rw [lexemeText_cons, htext] at hx
  obtain rfl : c = x := Option.some.inj hx
  -- blanks, and the marks of comments
  rcases hstart with hspace | rfl | rfl | rfl
  · simp only [isSpace, Bool.or_eq_true, decide_eq_true_eq] at hspace
    rcases hspace with (((rfl | rfl) | rfl) | rfl) | rfl
    all_goals decide
  all_goals decide

/-- A word of letters does not touch what follows it, if that is separated. -/
theorem Stable.wordBefore {w : List Char} (hne : w ≠ []) (hw : w.all Char.isAlpha = true)
    {ls : List Lexeme} (h : Stable r ls) (hs : Separated (lexemeText ls)) :
    Stable r (⟨.word, w⟩ :: ls) :=
  h.word hne (List.all_eq_true.mp hw) (hs.head (by decide) (by decide) (by decide))

end SqlPaging.Sql
