import Mathlib.Data.List.Chain
import SqlPaging.Proofs.Sql.Expansion

/-!
# SqlPaging — words that join their neighbours

A placeholder of an empty collection becomes the word `NULL`, without a gap on either side.
A placeholder ends before any character that its name does not go on with, but a word may go
on with it, and what stands in front may go on with the word. So lexemes are joined, and
those behind may be split at other places.

What a query asks for is not touched by this, within limits. Runs of letters, digits and dots
may be joined and split in any way, as long as no dollar sign quotes: what comes behind is read
as before (`Reads.drop`). Where a dollar sign quotes, a `NULL` must not join what is no word.
And nowhere must it join a placeholder, if the placeholders are asked for.

Main results:

* `Reads.word`, `Reads.number`, `Reads.placeholder` — a run takes what it can of the text
  behind it.
* `lexeme_nulled` — a lexeme does not see that a placeholder becomes a word.
* `reads_expanded` — what is read of a text with collections expanded, empty ones included.
-/

namespace SqlPaging.Sql

variable {r : LexicalRules} {p : Lexeme → Bool}

/-! ## Lexemes that matter -/

/-- A lexeme that asks for a value, or opens or closes a group. -/
def Lexeme.matters (l : Lexeme) : Bool :=
  l.kind = .placeholder || l.kind = .openParen || l.kind = .closeParen

/-- A test that no word, no number and no symbol passes. -/
def SkipsRuns (p : Lexeme → Bool) : Prop :=
  ∀ l : Lexeme, l.kind = .word ∨ l.kind = .number ∨ l.kind = .symbol → p l = false

/-- What matters is neither a word nor a number nor a symbol. -/
theorem skipsRuns_matters : SkipsRuns Lexeme.matters := by
  intro l h
  rcases h with h | h | h <;> simp [Lexeme.matters, h]

/-- A lexeme that does not pass may be left out. -/
theorem filter_cons_of_skipped {l : Lexeme} (hl : p l = false) (ls : List Lexeme) :
    (l :: ls).filter p = ls.filter p := by
  rw [List.filter_cons, hl]
  rfl

/-- A text splits into lexemes of which those that pass a test are those of the given ones. -/
def Reads (p : Lexeme → Bool) (r : LexicalRules) (s : List Char) (ls : List Lexeme) : Prop :=
  ∃ ms, Stable r ms ∧ lexemeText ms = s ∧ ms.filter p = ls.filter p

theorem Stable.reads {ls : List Lexeme} (h : Stable r ls) : Reads p r (lexemeText ls) ls :=
  ⟨ls, h, rfl, rfl⟩

/-- A reading tells nothing but the lexemes that pass. -/
theorem Reads.congr {s : List Char} {ls ms : List Lexeme} (h : Reads p r s ls)
    (hsame : ls.filter p = ms.filter p) : Reads p r s ms := by
  obtain ⟨ns, hns, htext, hpass⟩ := h
  exact ⟨ns, hns, htext, hpass.trans hsame⟩

/-- A lexeme in front of a text. -/
theorem Reads.cons {l : Lexeme} {c : Char} {t s : List Char} {ls : List Lexeme}
    (htext : l.text = c :: t) (hl : lexeme r c (t ++ s) = .ok (l.kind, t.length))
    (h : Reads p r s ls) : Reads p r (l.text ++ s) (l :: ls) := by
  obtain ⟨ms, hms, rfl, hpass⟩ := h
  refine ⟨l :: ms, stable_cons_iff.mpr ⟨c, t, htext, hl, hms⟩, rfl, ?_⟩
  rw [List.filter_cons, List.filter_cons, hpass]

/-- Behind a run stands what does not belong to it. -/
theorem head?_dropWhile_eq_false {p : Char → Bool} (s : List Char) :
    ∀ c ∈ (s.dropWhile p).head?, p c = false := by
  intro c hc
  have hnot := List.head?_dropWhile_not p s
  rw [hc] at hnot
  simpa using hnot

theorem all_takeWhile {p : Char → Bool} (s : List Char) : ∀ c ∈ s.takeWhile p, p c = true :=
  fun c hc => List.all_eq_true.mp (List.all_takeWhile) c hc

theorem any_head?_append {p : Char → Bool} {w : List Char} (h : w.head?.any p = true)
    (s : List Char) : (w ++ s).head?.any p = true := by
  cases w with
  | nil => cases h
  | cons c w => exact h

theorem all_append_takeWhile {p : Char → Bool} {w : List Char} (h : ∀ c ∈ w, p c = true)
    (s : List Char) : ∀ c ∈ w ++ s.takeWhile p, p c = true := by
  intro c hc
  rcases List.mem_append.mp hc with hc | hc
  · exact h c hc
  · exact all_takeWhile s c hc

/-- A word takes what it can of the text behind it. -/
theorem Reads.word (hp : SkipsRuns p) {w s : List Char} {ls : List Lexeme}
    (hstart : w.head?.any isWordStart = true) (hall : ∀ c ∈ w, isWordChar c = true)
    (hescape : ¬ Escapes r w s.head?) (h : Reads p r (s.dropWhile isWordChar) ls) :
    Reads p r (w ++ s) ls := by
  obtain ⟨ms, hms, htext, hpass⟩ := h
  -- the word takes the run in front of `s` into it, and the rest is read as it was
  have hstable : Stable r (⟨.word, w ++ s.takeWhile isWordChar⟩ :: ms) := by
    refine stable_word_iff.mpr ⟨?_, ?_, ?_, ?_, hms⟩
    · exact any_head?_append hstart _
    · exact all_append_takeWhile hall s
    · rw [htext]
      exact head?_dropWhile_eq_false s
    · rw [htext]
      rintro ⟨hdollar, hletter, hquote⟩
      -- a single letter has taken nothing
      cases hrun : s.takeWhile isWordChar with
      | nil =>
        have hsame : s.dropWhile isWordChar = s := by
          have hsplit := List.takeWhile_append_dropWhile (p := isWordChar) (l := s)
          rwa [hrun] at hsplit
        rw [hrun, List.append_nil] at hletter
        rw [hsame] at hquote
        exact hescape ⟨hdollar, hletter, hquote⟩
      | cons y run =>
        rw [hrun] at hletter
        cases w with
        | nil => cases hstart
        | cons x w => cases w <;> simp at hletter
  refine ⟨_, hstable, ?_, ?_⟩
  · rw [lexemeText_cons, htext, List.append_assoc, List.takeWhile_append_dropWhile]
  · rw [filter_cons_of_skipped (hp _ (.inl rfl)), hpass]

/-- A number takes what it can of the text behind it. -/
theorem Reads.number (hp : SkipsRuns p) {w s : List Char} {ls : List Lexeme}
    (hstart : w.head?.any Char.isDigit = true) (hall : ∀ c ∈ w, isNumberChar c = true)
    (h : Reads p r (s.dropWhile isNumberChar) ls) : Reads p r (w ++ s) ls := by
  obtain ⟨ms, hms, htext, hpass⟩ := h
  have hstable : Stable r (⟨.number, w ++ s.takeWhile isNumberChar⟩ :: ms) := by
    refine stable_number_iff.mpr ⟨?_, ?_, ?_, hms⟩
    · exact any_head?_append hstart _
    · exact all_append_takeWhile hall s
    · rw [htext]
      exact head?_dropWhile_eq_false s
  refine ⟨_, hstable, ?_, ?_⟩
  · rw [lexemeText_cons, htext, List.append_assoc, List.takeWhile_append_dropWhile]
  · rw [filter_cons_of_skipped (hp _ (.inr (.inl rfl))), hpass]

/-- A placeholder takes what it can of the text behind it, if placeholders are not asked for. -/
theorem Reads.placeholder (hp : ∀ l : Lexeme, l.kind = .placeholder → p l = false)
    {w s : List Char} {ls : List Lexeme} (hstart : w.head?.any isWordStart = true)
    (hall : ∀ c ∈ w, isNameChar c = true) (h : Reads p r (s.dropWhile isNameChar) ls) :
    Reads p r (':' :: w ++ s) ls := by
  obtain ⟨ms, hms, htext, hpass⟩ := h
  -- the name takes in what follows of it
  have hstable : Stable r (⟨.placeholder, ':' :: (w ++ s.takeWhile isNameChar)⟩ :: ms) := by
    refine stable_placeholder_iff.mpr ⟨_, rfl, ?_, ?_, ?_, hms⟩
    · exact any_head?_append hstart _
    · exact all_append_takeWhile hall s
    · rw [htext]
      exact head?_dropWhile_eq_false s
  refine ⟨_, hstable, ?_, ?_⟩
  · rw [lexemeText_cons, htext, List.cons_append, List.append_assoc,
      List.takeWhile_append_dropWhile, List.cons_append]
  · rw [filter_cons_of_skipped (hp _ rfl), hpass]

/-! ## Runs that are split anywhere -/

/-- A character of a word or of a number. -/
def isRunChar (c : Char) : Bool := isWordChar c || c = '.'

theorem isRunChar_of_isNumberChar {c : Char} (h : isNumberChar c = true) : isRunChar c = true := by
  simp only [isNumberChar, Char.isAlphanum, Bool.or_eq_true, decide_eq_true_eq] at h
  simp only [isRunChar, isWordChar, isNameChar, isWordStart, Bool.or_eq_true, decide_eq_true_eq]
  grind

/-- What starts with a character of a run is a word, a number or a symbol of one character,
where no dollar sign quotes. -/
theorem lexeme_of_isRunChar (hr : r.dollarQuotes = false) {c : Char} (hc : isRunChar c = true)
    (s : List Char) :
    lexeme r c s = .ok (.word, runLength isWordChar s) ∨
      lexeme r c s = .ok (.number, runLength isNumberChar s) ∨
        lexeme r c s = .ok (.symbol, 0) := by
  rw [lexeme_eq_apply]
  by_cases hword : isWordStart c = true
  · -- without dollar quotes there are no escape strings
    have hescape : ¬ Escapes r [c] s.head? := by
      rintro ⟨hdollar, -⟩
      rw [hr] at hdollar
      cases hdollar
    rw [rule_word r hword hescape]
    exact .inl rfl
  by_cases hdigit : c.isDigit = true
  · rw [rule_digit r _ hdigit]
    exact .inr (.inl rfl)
  -- only a dollar sign and a dot are left
  have hrest : c = '$' ∨ c = '.' := by
    simpa [isRunChar, isWordChar, isNameChar, hword, hdigit] using hc
  have hrule : rule r c s.head? = .fixed .symbol 0 := by
    rcases hrest with rfl | rfl
    · simp [rule, hr, isSpace, isWordStart]
    · rw [rule_of_not_mark r _ (by decide)]
      rfl
  rw [hrule]
  exact .inr (.inr rfl)

/-- The first characters, as many as the run is long, are the run. -/
theorem take_runLength (p : Char → Bool) (s : List Char) : s.take (runLength p s) = s.takeWhile p :=
  List.prefix_iff_eq_take.mp (List.takeWhile_prefix p) |>.symm

/-- All further characters of such a lexeme are characters of a run, and it is no placeholder and
no parenthesis. -/
theorem run_of_isRunChar (hr : r.dollarQuotes = false) {c : Char} (hc : isRunChar c = true)
    {s : List Char} {kind : LexemeKind} {n : Nat} (h : lexeme r c s = .ok (kind, n)) :
    (∀ x ∈ s.take n, isRunChar x = true) ∧
      (kind = .word ∨ kind = .number ∨ kind = .symbol) := by
  -- a word, a number, or a dollar sign by itself
  rcases lexeme_of_isRunChar hr hc s with hl | hl | hl
  all_goals
    rw [hl, Except.ok.injEq, Prod.mk.injEq] at h
    obtain ⟨rfl, rfl⟩ := h
  · refine ⟨fun x hx => ?_, .inl rfl⟩
    rw [take_runLength] at hx
    rw [isRunChar, all_takeWhile s x hx, Bool.true_or]
  · refine ⟨fun x hx => ?_, .inr (.inl rfl)⟩
    rw [take_runLength] at hx
    exact isRunChar_of_isNumberChar (all_takeWhile s x hx)
  · exact ⟨by simp, .inr (.inr rfl)⟩

/-- Taking away characters of runs leaves a part of a run in front of the other lexemes. -/
theorem Stable.drop_run (hp : SkipsRuns p) (hr : r.dollarQuotes = false) {ls : List Lexeme}
    (h : Stable r ls) {k : Nat} (hk : ∀ c ∈ (lexemeText ls).take k, isRunChar c = true) :
    ∃ t ms, (lexemeText ls).drop k = t ++ lexemeText ms ∧ (∀ c ∈ t, isRunChar c = true) ∧
      Stable r ms ∧ ms.filter p = ls.filter p := by
  induction ls generalizing k with
  | nil => exact ⟨[], [], by simp [lexemeText], nofun, h, rfl⟩
  | cons l ls ih =>
    obtain ⟨c, t, htext, hl, hls⟩ := stable_cons_iff.mp h
    cases k with
    | zero => exact ⟨[], l :: ls, rfl, nofun, h, rfl⟩
    | succ k =>
      rw [lexemeText_cons, htext, List.cons_append, List.take_succ_cons] at hk
      -- a lexeme that begins in the run is all run, and none that passes
      obtain ⟨hrun, hkind⟩ := run_of_isRunChar hr (hk c List.mem_cons_self) hl
      rw [List.take_left] at hrun
      rw [filter_cons_of_skipped (hp l hkind), lexemeText_cons, htext, List.cons_append,
        List.drop_succ_cons]
      -- the cut is inside this lexeme, or one of the next ones
      rcases Nat.le_total k t.length with hle | hle
      · refine ⟨t.drop k, ls, List.drop_append_of_le_length hle, ?_, hls, rfl⟩
        exact fun x hx => hrun x (List.mem_of_mem_drop hx)
      · obtain ⟨j, rfl⟩ := Nat.exists_eq_add_of_le hle
        rw [List.drop_append, List.drop_of_length_le (Nat.le_add_right _ _), List.nil_append,
          Nat.add_sub_cancel_left]
        refine ih hls fun x hx => hk x (List.mem_cons_of_mem c ?_)
        rw [List.take_append, List.take_of_length_le (Nat.le_add_right _ _),
          Nat.add_sub_cancel_left]
        exact List.mem_append_right t hx

/-- A part of a run in front of other lexemes is split anew. -/
theorem reads_run (hp : SkipsRuns p) (hr : r.dollarQuotes = false) {ls : List Lexeme}
    (h : Stable r ls) {t : List Char} (ht : ∀ c ∈ t, isRunChar c = true) :
    Reads p r (t ++ lexemeText ls) ls := by
  -- on the length of the text: the first lexeme may take more than the part of the run
  induction hlen : (t ++ lexemeText ls).length using Nat.strongRecOn
    generalizing t ls with
  | ind len ih =>
    cases t with
    | nil => exact h.reads
    | cons c t =>
      obtain ⟨kind, n, hl⟩ : ∃ kind n, lexeme r c (t ++ lexemeText ls) = .ok (kind, n) := by
        rcases lexeme_of_isRunChar hr (ht c List.mem_cons_self) (t ++ lexemeText ls) with
          hl | hl | hl
        all_goals exact ⟨_, _, hl⟩
      obtain ⟨hrun, hkind⟩ := run_of_isRunChar hr (ht c List.mem_cons_self) hl
      have hle := lexeme_le hl
      -- what is left is a part of a run again
      obtain ⟨u, ms, hdrop, hu, hms, hpass⟩ : ∃ u ms,
          (t ++ lexemeText ls).drop n = u ++ lexemeText ms ∧ (∀ x ∈ u, isRunChar x = true) ∧
            Stable r ms ∧ ms.filter p = ls.filter p := by
        rcases Nat.le_total n t.length with hn | hn
        · exact ⟨t.drop n, ls, List.drop_append_of_le_length hn,
            fun x hx => ht x (List.mem_cons_of_mem c (List.mem_of_mem_drop hx)), h, rfl⟩
        · obtain ⟨j, rfl⟩ := Nat.exists_eq_add_of_le hn
          rw [List.drop_append, List.drop_of_length_le hn, List.nil_append, Nat.add_sub_cancel_left]
          refine h.drop_run hp hr fun x hx => hrun x ?_
          rw [List.take_append, List.take_of_length_le hn, Nat.add_sub_cancel_left]
          exact List.mem_append_right t hx
      have hshort : (u ++ lexemeText ms).length < len := by
        rw [← hdrop, ← hlen, List.length_drop, List.cons_append, List.length_cons]
        omega
      have hrest := ih _ hshort hms hu rfl
      rw [← hdrop] at hrest
      have hfirst : lexeme r c ((t ++ lexemeText ls).take n ++ (t ++ lexemeText ls).drop n) =
          .ok (kind, ((t ++ lexemeText ls).take n).length) := by
        rw [List.take_append_drop, List.length_take, Nat.min_eq_left hle]
        exact hl
      have hall := Reads.cons (l := ⟨kind, c :: (t ++ lexemeText ls).take n⟩) rfl hfirst hrest
      rw [List.cons_append, List.take_append_drop] at hall
      refine hall.congr ?_
      rw [filter_cons_of_skipped (hp _ hkind), hpass]

/-- Where no dollar sign quotes, the characters of a run can be taken away. -/
theorem Reads.drop (hp : SkipsRuns p) (hr : r.dollarQuotes = false) {s : List Char}
    {ls : List Lexeme} (h : Reads p r s ls) {q : Char → Bool}
    (hq : ∀ c, q c = true → isRunChar c = true) : Reads p r (s.dropWhile q) ls := by
  obtain ⟨ms, hms, rfl, hpass⟩ := h
  have htake : ∀ c ∈ (lexemeText ms).take (runLength q (lexemeText ms)), isRunChar c = true := by
    intro c hc
    rw [take_runLength] at hc
    exact hq c (all_takeWhile _ c hc)
  -- what is dropped is part of a run, and the lexemes behind the run are left
  obtain ⟨t, ns, hdrop, ht, hns, hsame⟩ := hms.drop_run hp hr htake
  have hrest : (lexemeText ms).dropWhile q = t ++ lexemeText ns := by
    rw [← hdrop]
    have hsplit := List.takeWhile_append_dropWhile (p := q) (l := lexemeText ms)
    exact (List.append_inj (hsplit.trans (List.take_append_drop _ _).symm)
      (by rw [take_runLength])).2
  rw [hrest]
  exact (reads_run hp hr hns ht).congr (hsame.trans hpass)

/-- Where no run begins there is nothing to drop. -/
theorem dropWhile_of_head {p : Char → Bool} {s : List Char} (h : ∀ c ∈ s.head?, p c = false) :
    s.dropWhile p = s := by
  cases s with
  | nil => rfl
  | cons c s => rw [List.dropWhile_cons, h c rfl, if_neg (by decide)]

/-- Where a dollar sign quotes, a word can be taken away that starts with a letter of `NULL`. -/
theorem Reads.dropWord (hp : SkipsRuns p) {s : List Char} {ls : List Lexeme} (h : Reads p r s ls)
    (hs : r.dollarQuotes = true → ∀ c ∈ s.head?, isWordChar c = true → c = 'N') :
    Reads p r (s.dropWhile isWordChar) ls := by
  cases hr : r.dollarQuotes with
  | false =>
    -- without dollar quotes any part of a run can be left out
    refine h.drop hp hr fun c hc => ?_
    rw [isRunChar, hc, Bool.true_or]
  | true =>
    by_cases hstop : ∀ c ∈ s.head?, isWordChar c = false
    · rwa [dropWhile_of_head hstop]
    -- the first lexeme is a word, and the whole of the run
    obtain ⟨ms, hms, rfl, hpass⟩ := h
    cases ms with
    | nil => exact absurd nofun hstop
    | cons l ms =>
      obtain ⟨c, t, htext, hl, -⟩ := stable_cons_iff.mp hms
      have hhead : (lexemeText (l :: ms)).head? = some c := by rw [lexemeText_cons, htext]; rfl
      rw [hhead] at hs hstop
      obtain rfl : c = 'N' := by
        refine hs hr c rfl ?_
        simpa using hstop
      have hescape : ¬ Escapes r ['N'] (t ++ lexemeText ms).head? := by simp [Escapes]
      rw [lexeme_eq_apply, rule_word r (by decide) hescape, Rule.apply, Except.ok.injEq,
        Prod.mk.injEq] at hl
      obtain ⟨kind, text⟩ := l
      obtain rfl : LexemeKind.word = kind := hl.1
      obtain ⟨-, hall, hnext, -, hrest⟩ := stable_word_iff.mp hms
      refine ⟨ms, hrest, ?_, by rw [← hpass, filter_cons_of_skipped (hp _ (.inl rfl))]⟩
      rw [lexemeText_cons, List.dropWhile_append_of_pos hall, dropWhile_of_head hnext]

/-- A name in front of which no dollar sign comes is the whole of a word. -/
theorem dropWhile_name_eq {s : List Char}
    (h : ∀ c ∈ (s.dropWhile isNameChar).head?, c ≠ '$') :
    s.dropWhile isNameChar = s.dropWhile isWordChar := by
  induction s with
  | nil => rfl
  | cons c s ih =>
    cases hname : isNameChar c with
    | true =>
      rw [List.dropWhile_cons, if_pos hname] at h ⊢
      rw [List.dropWhile_cons, if_pos (by rw [isWordChar, hname, Bool.true_or]), ih h]
    | false =>
      rw [List.dropWhile_cons, if_neg (by rw [hname]; decide)] at h ⊢
      -- a word goes on where a name ends only at a dollar sign
      have hmark : c ≠ '$' := h c rfl
      rw [List.dropWhile_cons, if_neg (by simp [isWordChar, hname, hmark])]

/-! ## Words in the place of placeholders -/

/-- A name stands for itself, or for the elements of a collection, of which there may be none. -/
def Expands (x : Fields (List String)) : Prop :=
  ∀ name names, x.get? name = some names → names = [] ∨ Numbered name names

/-- A word that stands for one of two neighbours does not join the other in a way that matters:
it joins no placeholder, and where a dollar sign quotes, neither a number nor a dollar sign. -/
structure Clear (r : LexicalRules) (x : Fields (List String)) (l m : Lexeme) : Prop where
  placeholder : m.names? x = some [] → l.kind = .placeholder → l.names? x = some []
  number : m.names? x = some [] → r.dollarQuotes = true → l.kind ≠ .number
  dollar : l.names? x = some [] → r.dollarQuotes = true → m.text.head? ≠ some '$'

/-- A word that stands for one of two neighbours joins nothing that could hide what follows:
where a dollar sign quotes, neither a number nor a dollar sign. -/
structure Fits (r : LexicalRules) (x : Fields (List String)) (l m : Lexeme) : Prop where
  number : m.names? x = some [] → r.dollarQuotes = true → l.kind ≠ .number
  dollar : l.names? x = some [] → r.dollarQuotes = true → m.text.head? ≠ some '$'

/-- What is clear of the next lexeme fits in front of it. -/
theorem Clear.fits {x : Fields (List String)} {l m : Lexeme} (h : Clear r x l m) :
    Fits r x l m :=
  ⟨h.number, h.dollar⟩

/-- Two texts are the same up to a colon, where one of them has a word that no dollar sign
ends. -/
def Nulled (r : LexicalRules) (t u : List Char) : Prop :=
  ∃ w t' u', t = w ++ ':' :: t' ∧ u = w ++ 'N' :: u' ∧
    (r.dollarQuotes = true → ∀ c ∈ (u'.dropWhile isNameChar).head?, c ≠ '$')

/-- What becomes null behind a text becomes null with it. -/
theorem Nulled.append (w : List Char) {t u : List Char} (h : Nulled r t u) :
    Nulled r (w ++ t) (w ++ u) := by
  obtain ⟨v, t', u', rfl, rfl, hname⟩ := h
  exact ⟨w ++ v, t', u', by simp, by simp, hname⟩

/-- A character that no other one is joined to where a colon is not. -/
def isPlain (x : Char) : Bool := x ≠ '-' && x ≠ '*' && !isQuote x && !x.isDigit

/-- A lexeme other than a run does not see that another character takes the place of a colon
behind it, if it opens no string where the colon did not. -/
theorem lexeme_replaced {x : Char} (hx : isPlain x = true) {c : Char} {s t u : List Char}
    {kind : LexemeKind} {n : Nat} (h : lexeme r c (s ++ ':' :: t) = .ok (kind, n))
    (hn : n ≤ s.length) (hkind : kind ∉ [LexemeKind.placeholder, .word, .number])
    (htag : rule r c (s ++ ':' :: t).head? = .dollar → dollarTag? (s ++ ':' :: t) = none →
      dollarTag? (s ++ x :: u) = none) :
    lexeme r c (s ++ x :: u) = .ok (kind, n) := by
  simp only [isPlain, Bool.and_eq_true, decide_eq_true_eq, Bool.not_eq_true'] at hx
  obtain ⟨⟨⟨hdash, hstar⟩, hquote⟩, hdigit⟩ := hx
  rw [lexeme_eq_apply] at h ⊢
  -- the rule looks at one more character, which is replaced only if `s` is empty
  have hrule : rule r c (s ++ x :: u).head? = rule r c (s ++ ':' :: t).head? := by
    cases s with
    | cons y v => rfl
    | nil =>
      obtain rfl := Nat.le_zero.mp hn
      have hnone := rule_of_apply_zero h
      show rule r c (some x) = rule r c (some ':')
      refine Eq.trans ?_ hnone.symm
      rcases rule_some r c x with hsame | ⟨-, hx⟩ | ⟨-, hx⟩ | ⟨rfl, -⟩ | ⟨-, rfl⟩
      · exact hsame
      · exact absurd hx hdash
      · exact absurd hx hstar
      · -- two colons make one lexeme
        cases h
      · exact absurd hquote (by decide)
  rw [hrule]
  -- nor does the rule read on into the character that is replaced
  refine Rule.apply_cut h hn ?_ (by simp)
  have hlisted := listed_rule r c (s ++ ':' :: t).head?
  cases hown : rule r c (s ++ ':' :: t).head? with
  | quoted region quote hmark escapes skip =>
    intro y hy heq
    obtain rfl : x = y := Option.some.inj hy
    rw [heq, hmark] at hquote
    cases hquote
  | dollar =>
    refine ⟨htag hown, fun y hy => ?_⟩
    rwa [← Option.some.inj hy]
  | run kind' chars =>
    rw [hown] at hlisted h
    rw [List.mem_singleton.mp (Rule.mem_kinds h)] at hkind
    exact absurd hlisted hkind
  | _ => trivial

/-- A lexeme other than a run does not see that a placeholder behind it becomes a word. -/
theorem lexeme_nulled {c : Char} {s t u : List Char} {kind : LexemeKind}
    (h : lexeme r c (s ++ t) = .ok (kind, s.length)) (htu : Nulled r t u)
    (hkind : kind ∉ [LexemeKind.placeholder, .word, .number]) :
    lexeme r c (s ++ u) = .ok (kind, s.length) := by
  obtain ⟨w, t', u', rfl, rfl, hname⟩ := htu
  rw [← List.append_assoc] at h ⊢
  refine lexeme_replaced (by decide) h (by simp) hkind fun hrule htag => ?_
  have hlisted := listed_rule r c ((s ++ w) ++ ':' :: t').head?
  rw [hrule] at hlisted
  exact dollarTag?_cut_none htag (hname hlisted)

/-! ## Texts with collections expanded -/

/-- A placeholder without elements becomes the word for null. -/
theorem Lexeme.expanded_of_null {x : Fields (List String)} {l : Lexeme}
    (h : l.names? x = some []) : l.expanded x = [nullWord] := by
  rw [expanded, h]

/-- The expanded text starts as the text does, unless a word comes first. -/
theorem head?_expanded {x : Fields (List String)} {ls : List Lexeme} (h : Stable r ls)
    (hm : ∀ m ∈ ls.head?, m.names? x ≠ some []) :
    (lexemeText (ls.flatMap (Lexeme.expanded x))).head? = (lexemeText ls).head? := by
  cases ls with
  | nil => rfl
  | cons m ls =>
    rw [List.flatMap_cons, lexemeText_append, lexemeText_cons]
    -- a placeholder that is replaced by names starts with a colon as before
    cases hnames : m.names? x with
    | none =>
      obtain ⟨c, t, htext, -, -⟩ := stable_cons_iff.mp h
      rw [Lexeme.expanded_of_none hnames, lexemeText_cons, htext]
      rfl
    | some names =>
      have hne : names ≠ [] := by
        rintro rfl
        exact hm m rfl hnames
      obtain ⟨kind, text⟩ := m
      obtain rfl : kind = .placeholder := (Lexeme.names?_eq_some hnames).1
      -- the placeholder has its colon, and so has the first of its slots
      obtain ⟨w, rfl, -, -, -, -⟩ := stable_placeholder_iff.mp h
      rw [Lexeme.expanded_of_some hnames hne, lexemeText_slotLexemes, List.head?_append,
        head?_slots hne]
      rfl

theorem head?_expanded_of_null {x : Fields (List String)} {m : Lexeme} {ls : List Lexeme}
    (h : m.names? x = some []) :
    (lexemeText ((m :: ls).flatMap (Lexeme.expanded x))).head? = some 'N' := by
  rw [List.flatMap_cons, Lexeme.expanded_of_null h]
  rfl

/-- What is read of the text of lexemes with collections expanded are the expanded lexemes, as
far as they pass a test, and the text looks the same from its start up to the first collection. -/
structure Expanded (p : Lexeme → Bool) (r : LexicalRules) (x : Fields (List String))
    (ls : List Lexeme) : Prop where
  stable : Stable r ls
  reads : Reads p r (lexemeText (ls.flatMap (Lexeme.expanded x))) (ls.flatMap (Lexeme.expanded x))
  near : Resumes (lexemeText ls) (lexemeText (ls.flatMap (Lexeme.expanded x))) ∨
    Nulled r (lexemeText ls) (lexemeText (ls.flatMap (Lexeme.expanded x)))

/-- No word joins a placeholder that stays, or placeholders are not asked for. -/
def Unasked (p : Lexeme → Bool) (x : Fields (List String)) (l m : Lexeme) : Prop :=
  m.names? x = some [] → l.kind = .placeholder →
    l.names? x = some [] ∨ ∀ k : Lexeme, k.kind = .placeholder → p k = false

namespace Expanded

variable {x : Fields (List String)} {l : Lexeme} {ls : List Lexeme}

/-- In front of the text there is its old first character, or the word. -/
theorem head (h : Expanded p r x ls) :
    (lexemeText (ls.flatMap (Lexeme.expanded x))).head? = (lexemeText ls).head? ∨
      (lexemeText (ls.flatMap (Lexeme.expanded x))).head? = some 'N' ∧
        ∃ m ∈ ls.head?, m.names? x = some [] := by
  cases ls with
  | nil => exact .inl rfl
  | cons m ls =>
    by_cases hm : m.names? x = some []
    · exact .inr ⟨head?_expanded_of_null hm, m, rfl, hm⟩
    · refine .inl (head?_expanded h.stable fun k hk => ?_)
      rwa [← Option.some.inj hk]

/-- What no word comes behind has its old neighbour. -/
theorem head_of_not_null (h : Expanded p r x ls) (hm : ∀ m ∈ ls.head?, m.names? x ≠ some []) :
    (lexemeText (ls.flatMap (Lexeme.expanded x))).head? = (lexemeText ls).head? := by
  rcases h.head with hsame | ⟨-, m, hmem, hnull⟩
  · exact hsame
  · exact absurd hnull (hm m hmem)

/-- The name that goes on behind the word ends with no dollar sign. -/
theorem not_dollar_behind_null (h : Expanded p r x ls)
    (hstop : ∀ c ∈ (lexemeText ls).head?, isWordChar c = false) (hdollar : r.dollarQuotes = true) :
    ∀ c ∈ ((lexemeText (ls.flatMap (Lexeme.expanded x))).dropWhile isNameChar).head?, c ≠ '$' := by
  have hnear := h.near
  generalize lexemeText (ls.flatMap (Lexeme.expanded x)) = after at hnear ⊢
  -- if the text starts as before, it starts with no name character, and with no dollar sign
  have hsame : after.head? = (lexemeText ls).head? →
      ∀ c ∈ (after.dropWhile isNameChar).head?, c ≠ '$' := by
    intro hsame
    have hname : ∀ c ∈ after.head?, isNameChar c = false := by
      intro c hc
      have hword := hstop c (hsame ▸ hc)
      rw [isWordChar, Bool.or_eq_false_iff] at hword
      exact hword.1
    rw [dropWhile_of_head hname, hsame]
    rintro c hc rfl
    exact absurd (hstop '$' hc) (by decide)
  -- the text resumes as it was, or it becomes null further on
  rcases hnear with hresumes | ⟨w, t, u, htext, rfl, hname⟩
  · exact hsame hresumes.head
  · cases w with
    | nil => exact hname hdollar
    | cons y w => exact hsame (by rw [htext]; rfl)

/-- A placeholder in front of expanded lexemes. It takes the name of a word that comes right
behind it, which is the whole word where a dollar sign quotes. -/
theorem reads_placeholder (hp : SkipsRuns p) (h : Expanded p r x ls) {w : List Char}
    (hstart : w.head?.any isWordStart = true) (hall : ∀ c ∈ w, isNameChar c = true)
    (hnext : ∀ c ∈ (lexemeText ls).head?, isNameChar c = false)
    (hasked : (∃ m ∈ ls.head?, m.names? x = some []) →
      ∀ k : Lexeme, k.kind = .placeholder → p k = false) :
    Reads p r (':' :: w ++ lexemeText (ls.flatMap (Lexeme.expanded x)))
      (⟨.placeholder, ':' :: w⟩ :: ls.flatMap (Lexeme.expanded x)) := by
  rcases h.head with hsame | ⟨hword, m, hm, hnull⟩
  · obtain ⟨ms, hms, htext, hpass⟩ := h.reads
    rw [← hsame, ← htext] at hnext
    refine ⟨_ :: ms, stable_placeholder_iff.mpr ⟨w, rfl, hstart, hall, hnext, hms⟩, ?_, ?_⟩
    · rw [lexemeText_cons, htext]
    · rw [List.filter_cons, List.filter_cons, hpass]
  · -- the name goes on with the word behind it, so that no reader may look at it
    have hskip := hasked ⟨m, hm, hnull⟩
    refine (Reads.placeholder hskip hstart hall ?_).congr
      (filter_cons_of_skipped (hskip _ rfl) _).symm
    cases hdollar : r.dollarQuotes with
    | false =>
      refine h.reads.drop hp hdollar fun c hc => ?_
      rw [isRunChar, isWordChar, hc, Bool.true_or, Bool.true_or]
    | true =>
      -- the text behind starts with a colon, where the word stands now
      have hcolon : ∀ c ∈ (lexemeText ls).head?, isWordChar c = false := by
        obtain ⟨ms, rfl⟩ := List.head?_eq_some_iff.mp hm
        obtain ⟨kind, text⟩ := m
        obtain rfl : kind = .placeholder := (Lexeme.names?_eq_some hnull).1
        obtain ⟨v, rfl, -, -, -, -⟩ := stable_placeholder_iff.mp h.stable
        intro c hc
        obtain rfl : ':' = c := Option.some.inj hc
        decide
      rw [dropWhile_name_eq (h.not_dollar_behind_null hcolon hdollar)]
      refine h.reads.dropWord hp fun _ c hc _ => ?_
      rw [hword] at hc
      exact (Option.some.inj hc).symm

/-- A word takes a word that comes right behind it. -/
theorem reads_word (hp : SkipsRuns p) {t : List Char} (h : Expanded p r x ls)
    (hstable : Stable r (⟨.word, t⟩ :: ls)) :
    Reads p r (t ++ lexemeText (ls.flatMap (Lexeme.expanded x)))
      (ls.flatMap (Lexeme.expanded x)) := by
  obtain ⟨hstart, hall, hnext, hescape, -⟩ := stable_word_iff.mp hstable
  refine Reads.word hp hstart hall ?_ (h.reads.dropWord hp ?_)
  · -- the letter in front of a quote still is, and no quote is new
    rintro ⟨hdollar, hletter, hquote⟩
    rcases h.head with hsame | ⟨hword, -⟩
    · exact hescape ⟨hdollar, hletter, hsame ▸ hquote⟩
    · rw [hword] at hquote
      exact absurd hquote (by decide)
  · -- a word goes on only with the first letter of the word for null
    intro _ c hc hword
    rcases h.head with hsame | ⟨hnull, -⟩
    · rw [hnext c (hsame ▸ hc)] at hword
      cases hword
    · rw [hnull] at hc
      exact (Option.some.inj hc).symm

/-- A number takes what it can of a word that comes right behind it, where no dollar sign
quotes. -/
theorem reads_number (hp : SkipsRuns p) {t : List Char} (h : Expanded p r x ls)
    (hstable : Stable r (⟨.number, t⟩ :: ls)) (hfits : ∀ m ∈ ls.head?, Fits r x ⟨.number, t⟩ m) :
    Reads p r (t ++ lexemeText (ls.flatMap (Lexeme.expanded x)))
      (ls.flatMap (Lexeme.expanded x)) := by
  obtain ⟨hstart, hall, hnext, -⟩ := stable_number_iff.mp hstable
  refine Reads.number hp hstart hall ?_
  cases hdollar : r.dollarQuotes with
  | false => exact h.reads.drop hp hdollar fun c => isRunChar_of_isNumberChar
  | true =>
    -- where dollar quotes count, the word for null fits behind no number
    have hsame := h.head_of_not_null fun m hm hnull => (hfits m hm).number hnull hdollar rfl
    rw [dropWhile_of_head (by rwa [hsame])]
    exact h.reads

/-- The text of a lexeme that stays in front of expanded ones. -/
theorem reads_stays (hp : SkipsRuns p) (h : Expanded p r x ls) (hstable : Stable r (l :: ls))
    (hfits : ∀ m ∈ ls.head?, Fits r x l m) (hasked : ∀ m ∈ ls.head?, Unasked p x l m)
    (hl : l.names? x = none) :
    Reads p r (l.text ++ lexemeText (ls.flatMap (Lexeme.expanded x)))
      (l :: ls.flatMap (Lexeme.expanded x)) := by
  obtain ⟨kind, text⟩ := l
  cases hkind : kind with
  | placeholder =>
    subst hkind
    obtain ⟨w, rfl, hstart, hall, hnext, -⟩ := stable_placeholder_iff.mp hstable
    refine h.reads_placeholder hp hstart hall hnext ?_
    rintro ⟨m, hm, hnull⟩
    exact (hasked m hm hnull rfl).resolve_left (by rw [hl]; exact nofun)
  | word =>
    subst hkind
    exact (h.reads_word hp hstable).congr (filter_cons_of_skipped (hp _ (.inl rfl)) _).symm
  | number =>
    subst hkind
    exact (h.reads_number hp hstable hfits).congr
      (filter_cons_of_skipped (hp _ (.inr (.inl rfl))) _).symm
  | _ =>
    -- all others end by themselves
    subst hkind
    obtain ⟨c, t, htext, hlexeme, -⟩ := stable_cons_iff.mp hstable
    refine h.reads.cons htext ?_
    -- the text behind goes on as before, or with a word in place of a colon
    rcases h.near with hresumes | hnulled
    · exact lexeme_resume hlexeme hresumes
    · exact lexeme_nulled hlexeme hnulled (by simp)

/-- A lexeme that stays in front of others. -/
theorem stays (hp : SkipsRuns p) (h : Expanded p r x ls) (hstable : Stable r (l :: ls))
    (hfits : ∀ m ∈ ls.head?, Fits r x l m) (hasked : ∀ m ∈ ls.head?, Unasked p x l m)
    (hl : l.names? x = none) : Expanded p r x (l :: ls) := by
  have hexpanded : (l :: ls).flatMap (Lexeme.expanded x) =
      l :: ls.flatMap (Lexeme.expanded x) := by
    rw [List.flatMap_cons, Lexeme.expanded_of_none hl]
    rfl
  refine ⟨hstable, ?_, ?_⟩
  · rw [hexpanded, lexemeText_cons]
    exact h.reads_stays hp hstable hfits hasked hl
  · rw [hexpanded, lexemeText_cons, lexemeText_cons]
    -- what follows resumes or becomes null behind the lexeme as before
    exact h.near.imp (Resumes.append l.text) (Nulled.append l.text)

/-- The placeholders of the elements of a collection in front of others. Only the last one sees
what comes behind. -/
theorem reads_slots {names : List String} {s : List Char} {ms : List Lexeme} (hne : names ≠ [])
    (hnames : ∀ n ∈ names, n.toList.head?.any isWordStart = true ∧
      ∀ c ∈ n.toList, isNameChar c = true)
    (hlast : ∀ n ∈ names,
      Reads p r (':' :: n.toList ++ s) (⟨.placeholder, ':' :: n.toList⟩ :: ms)) :
    Reads p r (lexemeText (slotLexemes names) ++ s) (slotLexemes names ++ ms) := by
  fun_induction slotLexemes names with
  | case1 => exact absurd rfl hne
  | case2 n =>
    rw [lexemeText_cons, List.append_assoc]
    exact hlast n List.mem_cons_self
  | case3 n ns hmore ih =>
    obtain ⟨hstart, hall⟩ := hnames n List.mem_cons_self
    -- a comma ends the name in front of it
    obtain ⟨ks, hks, htext, hpass⟩ := ih hmore (fun m hm => hnames m (List.mem_cons_of_mem n hm))
      fun m hm => hlast m (List.mem_cons_of_mem n hm)
    refine ⟨⟨.placeholder, ':' :: n.toList⟩ :: comma :: space :: ks, ?_, ?_, ?_⟩
    · refine stable_placeholder_iff.mpr ⟨_, rfl, hstart, hall, ?_, hks.space.comma⟩
      intro c hc
      obtain rfl : ',' = c := Option.some.inj hc
      decide
    · simp only [lexemeText_cons, htext, List.append_assoc]
    · simp only [List.cons_append, List.filter_cons, hpass]

/-- The placeholders of the elements of a collection in front of others. -/
theorem slots (hp : SkipsRuns p) (hx : Expands x) (h : Expanded p r x ls)
    (hstable : Stable r (l :: ls)) (hasked : ∀ m ∈ ls.head?, Unasked p x l m)
    {names : List String} (hl : l.names? x = some names) (hne : names ≠ []) :
    Expanded p r x (l :: ls) := by
  obtain ⟨hkind, hget⟩ := Lexeme.names?_eq_some hl
  have hexpanded : (l :: ls).flatMap (Lexeme.expanded x) =
      slotLexemes names ++ ls.flatMap (Lexeme.expanded x) := by
    rw [List.flatMap_cons, Lexeme.expanded_of_some hl hne]
  -- where null follows, no placeholder is asked for
  have hskip : (∃ m ∈ ls.head?, m.names? x = some []) →
      ∀ k : Lexeme, k.kind = .placeholder → p k = false := by
    rintro ⟨m, hm, hnull⟩
    refine (hasked m hm hnull hkind).resolve_left fun hown => hne ?_
    exact Option.some.inj (hl.symm.trans hown)
  obtain ⟨kind, text⟩ := l
  obtain rfl : kind = .placeholder := hkind
  obtain ⟨w, rfl, hstart, hall, hnext, -⟩ := stable_placeholder_iff.mp hstable
  refine ⟨hstable, ?_, .inl ?_⟩
  · rw [hexpanded, lexemeText_append]
    have hnumbered := (hx _ _ hget).resolve_left hne
    have hnames := hnumbered.isName hstart hall
    -- the last of the names stands in front of what the placeholder stood in front of
    refine reads_slots hne hnames fun n hn => ?_
    exact h.reads_placeholder hp (hnames n hn).1 (hnames n hn).2 hnext hskip
  · obtain ⟨u, hu⟩ := List.head?_eq_some_iff.mp (head?_slots hne)
    rw [hexpanded, lexemeText_cons, lexemeText_append, lexemeText_slotLexemes, hu]
    exact Resumes.colon _ _

/-- Behind an empty collection, where a dollar sign quotes, no character goes on with a word. -/
theorem not_wordChar_behind_null (hstable : Stable r (l :: ls))
    (hfits : ∀ m ∈ ls.head?, Fits r x l m) (hl : l.names? x = some [])
    (hdollar : r.dollarQuotes = true) : ∀ c ∈ (lexemeText ls).head?, isWordChar c = false := by
  obtain ⟨kind, text⟩ := l
  obtain rfl : kind = .placeholder := (Lexeme.names?_eq_some hl).1
  obtain ⟨w, rfl, -, -, hnext, hls⟩ := stable_placeholder_iff.mp hstable
  intro c hc
  have hname := hnext c hc
  cases ls with
  | nil => cases hc
  | cons m ls =>
    -- the word for null fits, so no dollar sign follows
    have hmark : m.text.head? ≠ some '$' := (hfits m rfl).dollar hl hdollar
    obtain ⟨y, t, htext, -, -⟩ := stable_cons_iff.mp hls
    rw [lexemeText_cons, htext] at hc
    obtain rfl : y = c := Option.some.inj hc
    rw [htext] at hmark
    have hne : y ≠ '$' := fun heq => hmark (congrArg some heq)
    simp [isWordChar, hname, hne]

/-- The word for an empty collection in front of others. -/
theorem null (hp : SkipsRuns p) (h : Expanded p r x ls) (hstable : Stable r (l :: ls))
    (hfits : ∀ m ∈ ls.head?, Fits r x l m) (hl : l.names? x = some []) :
    Expanded p r x (l :: ls) := by
  have hexpanded : (l :: ls).flatMap (Lexeme.expanded x) =
      nullWord :: ls.flatMap (Lexeme.expanded x) := by
    rw [List.flatMap_cons, Lexeme.expanded_of_null hl]
    rfl
  have hstop := not_wordChar_behind_null hstable hfits hl
  refine ⟨hstable, ?_, .inr ?_⟩
  · rw [hexpanded, lexemeText_cons]
    -- the word takes with it what runs on behind it
    have hword := Reads.word (r := r) hp (w := nullWord.text) (by decide)
      (List.all_eq_true.mp (by decide)) (by simp [Escapes, nullWord])
      (h.reads.dropWord hp fun hdollar c hc hword => ?_)
    · exact hword.congr (filter_cons_of_skipped (hp _ (.inl rfl)) _).symm
    · -- only another word for an empty list can follow, where words are told from dollar quotes
      rcases h.head with hsame | ⟨hnull, -⟩
      · rw [hstop hdollar c (hsame ▸ hc)] at hword
        cases hword
      · rw [hnull] at hc
        exact (Option.some.inj hc).symm
  · obtain ⟨kind, text⟩ := l
    obtain rfl : kind = .placeholder := (Lexeme.names?_eq_some hl).1
    obtain ⟨w, rfl, -, -, -, -⟩ := stable_placeholder_iff.mp hstable
    refine ⟨[], w ++ lexemeText ls, ['U', 'L', 'L'] ++ lexemeText (ls.flatMap (Lexeme.expanded x)),
      rfl, by rw [hexpanded]; rfl, fun hdollar => ?_⟩
    rw [List.dropWhile_append_of_pos (List.all_eq_true.mp (by decide))]
    exact h.not_dollar_behind_null (hstop hdollar) hdollar

end Expanded

/-- A text with collections expanded has the lexemes that it should have, as far as they pass a
test, if no word joins a neighbour in a way that matters. -/
theorem reads_expanded (hp : SkipsRuns p) {x : Fields (List String)} (hx : Expands x)
    {ls : List Lexeme} (h : Stable r ls) (hfits : ls.IsChain (Fits r x))
    (hasked : ls.IsChain (Unasked p x)) :
    Reads p r (lexemeText (ls.flatMap (Lexeme.expanded x))) (ls.flatMap (Lexeme.expanded x)) := by
  -- from the end to the front, so that what is behind a lexeme is read already
  have hall : Expanded p r x ls := by
    induction ls with
    | nil => exact ⟨h, h.reads, .inl (Resumes.refl _)⟩
    | cons l ls ih =>
      obtain ⟨-, -, -, -, hls⟩ := stable_cons_iff.mp h
      obtain ⟨hfirst, hrest⟩ := List.isChain_cons.mp hfits
      obtain ⟨hown, hothers⟩ := List.isChain_cons.mp hasked
      have hbehind := ih hls hrest hothers
      -- a lexeme stays, becomes null, or becomes slots
      cases hnames : l.names? x with
      | none => exact hbehind.stays hp h hfirst hown hnames
      | some names =>
        by_cases hne : names = []
        · subst hne
          exact hbehind.null hp h hfirst hnames
        · exact hbehind.slots hp hx h hown hnames hne
  exact hall.reads

end SqlPaging.Sql
