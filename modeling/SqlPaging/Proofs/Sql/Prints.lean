import SqlPaging.Proofs.Sql.Expansion

/-!
# SqlPaging — texts that print tokens

Text that is put into a statement is meant as certain tokens. It *prints* them if they are
what a scan finds of it, with closed parentheses and outside of all others, in front of
whatever may follow: what may, a test on the next character tells.

Texts that print tokens are put together piece by piece, each in front of a character that
its end allows.

Main results:

* `Prints.append`, `Prints.spaced` — texts put together.
* `Prints.word`, `Prints.number`, `Prints.scanned` — texts to put together.
-/

namespace SqlPaging.Sql

/-- A text is the tokens with the given outlines, in front of any stable lexemes whose first
character passes a test. -/
def Prints (r : LexicalRules) (stops : Char → Bool) (text : List Char) (os : List Outline) : Prop :=
  ∃ ls, lexemeText ls = text ∧ outlineFrom 0 ls = some (os, 0) ∧
    ∀ ms, Stable r ms → (∀ c ∈ (lexemeText ms).head?, stops c = true) → Stable r (ls ++ ms)

/-- A text that is scanned on its own, and has no comment at its end that hides what follows. -/
def Scans (d : Dialect) (s : String) : Prop :=
  ∃ found, scan d s.toList = .ok found ∧ ∀ c ∈ found.rest, isSpace c = true

/-- A character that does not go on with a word, or make a string of it. -/
def endsWord (c : Char) : Bool := !isWordChar c && c ≠ '\''

/-- A character that does not go on with a number. -/
def endsNumber (c : Char) : Bool := !isNumberChar c

namespace Prints

variable {r : LexicalRules} {p q : Char → Bool} {s t : List Char} {os us : List Outline}

/-- A word of letters is printed as one token, if no character of a word follows. -/
theorem word {w : List Char} (hne : w ≠ []) (hw : w.all Char.isAlpha = true) :
    Prints r endsWord w [⟨.word, w, 0⟩] := by
  refine ⟨[⟨.word, w⟩], by simp [lexemeText], rfl, ?_⟩
  intro ms hms hstops
  refine hms.word hne (List.all_eq_true.mp hw) ?_
  intro c hc
  simpa [endsWord] using hstops c hc

/-- Digits are printed as one token, if no character of a number follows. -/
theorem number {w : List Char} (hne : w ≠ []) (hw : ∀ c ∈ w, c.isDigit = true) :
    Prints r endsNumber w [⟨.number, w, 0⟩] := by
  refine ⟨[⟨.number, w⟩], by simp [lexemeText], rfl, ?_⟩
  intro ms hms hstops
  refine hms.number hne hw ?_
  intro c hc
  simpa [endsNumber] using hstops c hc

/-- A text that is scanned on its own prints what is found, if no comment at its end hides
what follows. -/
theorem scanned {d : Dialect} {found : Scan} (h : scan d s = .ok found)
    (hrest : ∀ c ∈ found.rest, isSpace c = true) :
    Prints (.ofDialect d) isSeparator s (found.tokens.map Token.outline) := by
  obtain ⟨ls, hs, htext, hnest⟩ := lexemes_of_scan h
  refine ⟨ls, htext, outlineFrom_of_nestFrom hnest, ?_⟩
  intro ms hms hstops
  -- the last lexeme is no comment that the end of the text has closed
  have hended : Ended ls := by
    obtain ⟨ps, tail, hls, -, htail, -⟩ := exists_pieces blank_nil hnest
    rw [List.nil_append] at hls
    intro l hl hcomment
    rcases List.eq_nil_or_concat tail with rfl | ⟨tail, k, rfl⟩
    · rw [List.append_nil] at hls
      rw [hls] at hl
      exact ended_pieceLexemes ps l hl hcomment
    · -- a comment does not start with a space, as all of the rest would have to
      rw [List.concat_eq_append] at hls htail
      dsimp only at htail
      rw [hls, ← List.append_assoc, List.getLast?_concat] at hl
      obtain rfl := Option.some.inj hl
      rw [hls, ← List.append_assoc] at hs
      obtain ⟨c, u, htext, hlexeme, -⟩ := stable_cons_iff.mp hs.right
      have hspace : isSpace c = true := by
        apply hrest
        rw [← htail, lexemeText_append, lexemeText_cons, htext]
        simp
      rw [hcomment, lexeme, if_pos hspace] at hlexeme
      cases hlexeme
  rw [← List.append_nil ls] at hs
  exact hs.cut hms hstops fun _ => hended

theorem spaceBefore (h : Prints r p s os) : Prints r p (' ' :: s) os := by
  obtain ⟨ls, rfl, hos, hstable⟩ := h
  exact ⟨space :: ls, rfl, outlineFrom_space hos,
    fun ms hms hstops => (hstable ms hms hstops).space⟩

theorem commaBefore (h : Prints r p s os) : Prints r p (',' :: s) (⟨.symbol, [','], 0⟩ :: os) := by
  obtain ⟨ls, rfl, hos, hstable⟩ := h
  exact ⟨comma :: ls, rfl, outlineFrom_cons_of [⟨.symbol, [','], 0⟩] rfl hos,
    fun ms hms hstops => (hstable ms hms hstops).comma⟩

/-- A text in front of one that starts with a character that it allows. -/
theorem append {c : Char} (hs : Prints r p s os) (ht : Prints r q (c :: t) us) (hc : p c = true) :
    Prints r q (s ++ c :: t) (os ++ us) := by
  obtain ⟨ls, rfl, hos, hls⟩ := hs
  obtain ⟨ms, htext, hus, hms⟩ := ht
  refine ⟨ls ++ ms, by rw [lexemeText_append, htext], outlineFrom_append_of hos hus, ?_⟩
  intro ns hns hstops
  rw [List.append_assoc]
  refine hls _ (hms ns hns hstops) ?_
  intro x hx
  rw [lexemeText_append, htext] at hx
  obtain rfl : c = x := Option.some.inj hx
  exact hc

/-- Two texts with a space between them are printed one after the other. -/
theorem spaced (hs : Prints r p s os) (ht : Prints r q t us) (hc : p ' ' = true) :
    Prints r q (s ++ ' ' :: t) (os ++ us) :=
  hs.append ht.spaceBefore hc

end Prints

end SqlPaging.Sql
