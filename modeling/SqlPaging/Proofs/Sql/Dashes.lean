import SqlPaging.Proofs.Sql.Stable

/-!
# SqlPaging — two dashes

Two dashes open a comment. MySQL takes them for one only in front of a space, a control
character or the end of the text, so that `5--1` is a difference to it. Statements are split
without this condition. `live` splits a text with it, and is otherwise the same.

The two part ways at the first comment whose dashes stand right in front of something else,
and only there: a text without such a comment is split in one way, and what is no comment
to the one is none to the other.

Main results:

* `live_eq_lex_iff` — the texts that are split in one way.
* `Stable.colon` — what a colon is, outside of quoted regions and comments.
-/

namespace SqlPaging.Sql

/-- Two dashes open a comment in front of this, to MySQL. -/
def opensComment (next : Option Char) : Bool := next.all fun c => c.toNat ≤ 32 || c.toNat = 127

/-- What a first character gives, to MySQL. -/
def mySqlLexeme (c : Char) (s : List Char) : Except Region (LexemeKind × Nat) :=
  if c = '-' && s.head? = some '-' && !opensComment (s.drop 1).head? then .ok (.symbol, 0)
  else lexeme (.ofDialect .mySql) c s

/-- The lexemes of a text as MySQL reads it, after as many characters as belong to the lexeme
before it, and the region in which the text ends if it ends in one. -/
def liveFrom : Nat → List Char → List Lexeme × Option Region
  | _, [] => ([], none)
  | skip + 1, _ :: s => liveFrom skip s
  | 0, c :: s =>
    match mySqlLexeme c s with
    | .error region => ([], some region)
    | .ok (kind, n) =>
      let rest := liveFrom n s
      ({ kind, text := c :: s.take n } :: rest.1, rest.2)

/-- The lexemes of a text as MySQL reads it, and the region in which it ends if it ends in
one. -/
def live (s : List Char) : List Lexeme × Option Region := liveFrom 0 s

/-- If the lexeme is a comment of two dashes, MySQL takes them for one. -/
def Lexeme.isSpaced (l : Lexeme) : Bool :=
  match l.text with
  | '-' :: '-' :: t => l.kind ≠ .comment || opensComment t.head?
  | _ => true

/-- Two dashes open a comment up to the end of the line. -/
theorem lexeme_dashes (r : LexicalRules) (t : List Char) :
    lexeme r '-' ('-' :: t) = .ok (.comment, lineLength t + 1) := by
  simp [lexeme, isSpace, lineLength]

/-- A lexeme that MySQL reads as well does not start with dashes that it reads otherwise. -/
theorem isSpaced_of_opensComment {c : Char} {s : List Char} {kind : LexemeKind} {n : Nat}
    (h : c = '-' → s.head? = some '-' → opensComment (s.drop 1).head? = true) :
    Lexeme.isSpaced ⟨kind, c :: s.take n⟩ = true := by
  unfold Lexeme.isSpaced
  split
  · next t htext =>
    obtain ⟨rfl, htake⟩ := List.cons.inj htext
    cases s with
    | nil => simp at htake
    | cons d s =>
      cases n with
      | zero => cases htake
      | succ n =>
        rw [List.take_succ_cons] at htake
        obtain ⟨rfl, rfl⟩ := List.cons.inj htake
        -- the lexeme begins with two dashes, and so does the text
        have hopens := h rfl rfl
        rw [List.drop_one, List.tail_cons] at hopens
        rw [List.head?_take]
        -- a comment that ends right behind its dashes ends with the text
        split
        · simp [opensComment]
        · simp [hopens]
  · rfl

/-- Elsewhere than at dashes that open no comment to it, MySQL reads the same lexeme. -/
theorem mySqlLexeme_eq {c : Char} {s : List Char}
    (h : c = '-' → s.head? = some '-' → opensComment (s.drop 1).head? = true) :
    mySqlLexeme c s = lexeme (.ofDialect .mySql) c s := by
  refine if_neg fun hdashes => ?_
  simp only [Bool.and_eq_true, decide_eq_true_eq, Bool.not_eq_true'] at hdashes
  obtain ⟨⟨hc, hnext⟩, hopens⟩ := hdashes
  rw [h hc hnext] at hopens
  cases hopens

/-- Both readings agree just if white space stands behind all dashes that open a comment. -/
theorem liveFrom_eq_lexFrom_iff (n : Nat) (s : List Char) :
    liveFrom n s = lexFrom (.ofDialect .mySql) n s ↔
      ∀ l ∈ (lexFrom (.ofDialect .mySql) n s).1, l.isSpaced = true := by
  fun_induction lexFrom (.ofDialect .mySql) n s with
  | case1 => simp [liveFrom]
  | case2 n c s ih =>
    rw [liveFrom]
    exact ih
  | case3 c s region hl =>
    -- no comment to the end of the line is left open
    have hsame : mySqlLexeme c s = lexeme (.ofDialect .mySql) c s := by
      refine mySqlLexeme_eq ?_
      rintro rfl hnext
      obtain ⟨t, rfl⟩ := List.head?_eq_some_iff.mp hnext
      rw [lexeme_dashes] at hl
      cases hl
    rw [liveFrom, hsame, hl]
    simp
  | case4 c s kind n hl rest ih =>
    by_cases hsame : c = '-' → s.head? = some '-' → opensComment (s.drop 1).head? = true
    · have hspaced : Lexeme.isSpaced ⟨kind, c :: s.take n⟩ = true :=
        isSpaced_of_opensComment hsame
      rw [liveFrom, mySqlLexeme_eq hsame, hl, List.forall_mem_cons, ← ih]
      simp only [rest, hspaced, true_and, List.cons.injEq, Prod.ext_iff]
    · -- one dash is a lexeme of its own, where the other reading has a comment
      simp only [Classical.not_imp, Bool.not_eq_true] at hsame
      obtain ⟨rfl, hnext, hopens⟩ := hsame
      obtain ⟨t, rfl⟩ := List.head?_eq_some_iff.mp hnext
      rw [lexeme_dashes] at hl
      obtain ⟨rfl, rfl⟩ := Prod.mk.inj (Except.ok.inj hl)
      have hdash : mySqlLexeme '-' ('-' :: t) = .ok (.symbol, 0) :=
        if_pos (by simpa using hopens)
      have hnot : Lexeme.isSpaced
          ⟨.comment, '-' :: ('-' :: t).take (lineLength t + 1)⟩ = false := by
        cases t with
        | nil => cases hopens
        | cons x t =>
          obtain ⟨m, hm⟩ := Nat.exists_eq_add_one.mpr (lineLength_pos x t)
          rw [hm, List.take_succ_cons, List.take_succ_cons]
          simpa [Lexeme.isSpaced] using hopens
      rw [liveFrom, hdash]
      constructor
      · intro h
        cases (List.cons.inj (Prod.mk.inj h).1).1
      · intro h
        rw [h _ (.head _)] at hnot
        cases hnot

/-- MySQL reads the lexemes that a text splits into, if none of them is a comment whose dashes
stand right in front of something else than a space. -/
theorem live_eq_lex_iff (s : List Char) :
    live s = lex .mySql s ↔ ∀ l ∈ (lex .mySql s).1, l.isSpaced = true :=
  liveFrom_eq_lexFrom_iff 0 s

/-! ## Colons -/

variable {r : LexicalRules}

/-- Outside of quoted regions and comments, a colon starts a placeholder, is one of the two of
a cast, or stands in front of no name. -/
theorem Stable.colon {l : Lexeme} {ls : List Lexeme} (h : Stable r (l :: ls))
    (hquoted : l.kind ≠ .quoted) (hcomment : l.kind ≠ .comment) (hcolon : ':' ∈ l.text) :
    l.kind = .placeholder ∨ l.text = [':', ':'] ∨
      l.text = [':'] ∧ (lexemeText ls).head?.any isWordStart = false := by
  obtain ⟨c, t, htext, hl, -⟩ := stable_cons_iff.mp h
  rw [lexeme_eq_apply] at hl
  have hkind := Rule.mem_kinds hl
  have hrow := row_rule r c (t ++ lexemeText ls).head?
  rw [htext] at hcolon ⊢
  -- a lexeme of one character is a colon only if it is that character
  have hlone : t.length = 0 → c ≠ ':' → False := by
    intro hlen hc
    rw [List.length_eq_zero_iff.mp hlen, List.mem_singleton] at hcolon
    exact hc hcolon.symm
  -- a run has no colon in it, unless it starts with one
  have hrun : ∀ {p : Char → Bool}, runLength p (t ++ lexemeText ls) = t.length →
      p ':' = false → c ≠ ':' → False := by
    intro p hlen hp hc
    have hall := (runLength_append_eq_length_iff.mp hlen).1
    rcases List.mem_cons.mp hcolon with heq | hmem
    · exact hc heq.symm
    · rw [hall ':' hmem] at hp
      cases hp
  generalize hrule : rule r c (t ++ lexemeText ls).head? = x at hl hkind hrow
  cases hrow with
  | placeholder => exact .inl (List.mem_singleton.mp hkind)
  | cast hc hnext =>
    rw [Rule.apply, Except.ok.injEq, Prod.mk.injEq] at hl
    obtain ⟨d, rfl⟩ := List.length_eq_one_iff.mp hl.2.symm
    obtain rfl : d = ':' := by simpa using hnext
    rw [hc]
    exact .inr (.inl rfl)
  | symbol =>
    rw [Rule.apply, Except.ok.injEq, Prod.mk.injEq] at hl
    obtain rfl := List.length_eq_zero_iff.mp hl.2.symm
    obtain rfl : ':' = c := List.mem_singleton.mp hcolon
    refine .inr (.inr ⟨rfl, ?_⟩)
    -- in front of a name, the colon would have started a placeholder
    cases hnext : (lexemeText ls).head? with
    | none => rfl
    | some x =>
      rw [List.nil_append, hnext] at hrule
      rw [Option.any_some, Bool.eq_false_iff]
      intro hstart
      rw [rule_colon r hstart] at hrule
      cases hrule
  | space hc =>
    rw [Rule.apply, Except.ok.injEq, Prod.mk.injEq] at hl
    exact (hlone hl.2.symm fun h => absurd hc (by rw [h]; decide)).elim
  | openParen hc | closeParen hc | semicolon hc =>
    rw [Rule.apply, Except.ok.injEq, Prod.mk.injEq] at hl
    exact (hlone hl.2.symm (by rw [hc]; decide)).elim
  | word hc =>
    rw [Rule.apply, Except.ok.injEq, Prod.mk.injEq] at hl
    exact (hrun hl.2 (by decide) fun h => absurd hc (by rw [h]; decide)).elim
  | number hc =>
    rw [Rule.apply, Except.ok.injEq, Prod.mk.injEq] at hl
    exact (hrun hl.2 (by decide) fun h => absurd hc (by rw [h]; decide)).elim
  | dollar hc =>
    rw [Rule.apply] at hl
    split at hl
    · split at hl
      · exact absurd (Prod.mk.inj (Except.ok.inj hl)).1.symm hquoted
      · cases hl
    · have hlen := (Prod.mk.inj (Except.ok.inj hl)).2
      exact (hrun hlen (by decide) (by rw [hc]; decide)).elim
  | dashes | hash | block => exact absurd (List.mem_singleton.mp hkind) hcomment
  | _ => exact absurd (List.mem_singleton.mp hkind) hquoted

end SqlPaging.Sql
