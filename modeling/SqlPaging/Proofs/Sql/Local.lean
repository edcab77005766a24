import SqlPaging.Proofs.Sql.Region

/-!
# SqlPaging — how far a lexeme looks

A lexeme is decided by its own characters and at most one after them. So where a text
is cut behind a lexeme, what followed can be taken away and a separated text put there.

The rules for one lexeme are first put into the form of a table (`Rule`), in which the
next character only chooses the rule (`lexeme_eq_apply`); each rule is then local for
a reason of its own.

Main results:

* `lexeme_eq_apply` — the rules for one lexeme as a table.
* `row_rule` — what a row of the table says of the characters that choose it.
* `lexeme_cut` — a lexeme ends where it ended.
-/

namespace SqlPaging.Sql

/-! ## The rules as a table -/

/-- Characters of a run, none of which is a separator. -/
structure Run where
  test : Char → Bool
  stops : ∀ c, isSeparator c = true → test c = false

/-- A character that opens and closes a quoted region. -/
def isQuote (c : Char) : Bool := c = '\'' || c = '"' || c = '\x60'

/-- How a lexeme goes on after its first character. -/
inductive Rule where
  /-- so many characters more -/
  | fixed (kind : LexemeKind) (n : Nat)
  /-- a comment to the end of the line -/
  | line
  /-- a comment between marks -/
  | block
  /-- a quoted region whose opening quote is so many characters on -/
  | quoted (region : Region) (quote : Char) (h : isQuote quote = true) (escapes : Bool)
      (skip : Nat)
  /-- a dollar-quoted string, or a dollar sign and digits -/
  | dollar
  | run (kind : LexemeKind) (chars : Run)

private theorem not_separator {p : Char → Bool} (hspace : p ' ' = false) (hopen : p '(' = false)
    (hclose : p ')' = false) : ∀ c, isSeparator c = true → p c = false := by
  intro c hc
  simp only [isSeparator, Bool.or_eq_true, decide_eq_true_eq] at hc
  rcases hc with (rfl | rfl) | rfl
  · exact hspace
  · exact hopen
  · exact hclose

namespace Run

def name : Run := ⟨isNameChar, not_separator (by decide) (by decide) (by decide)⟩

def word : Run := ⟨isWordChar, not_separator (by decide) (by decide) (by decide)⟩

def number : Run := ⟨isNumberChar, not_separator (by decide) (by decide) (by decide)⟩

end Run

/-- The rule for a first character and the one after it. -/
def rule (r : LexicalRules) (c : Char) (next : Option Char) : Rule :=
  if isSpace c then .fixed .space 0
  else if c = '-' && next = some '-' then .line
  else if c = '#' && r.hashComments then .line
  else if c = '/' && next = some '*' then .block
  else if c = '\'' then .quoted .stringLiteral '\'' (by decide) r.backslashEscapes 0
  else if c = '"' then .quoted .doubleQuoted '"' (by decide) r.backslashEscapes 0
  else if c = '\x60' then .quoted .quotedIdentifier '\x60' (by decide) false 0
  else if c = '$' && r.dollarQuotes then .dollar
  else if c = '(' then .fixed .openParen 0
  else if c = ')' then .fixed .closeParen 0
  else if c = ';' then .fixed .semicolon 0
  else if c = ':' && next = some ':' then .fixed .symbol 1
  else if c = ':' && next.any isWordStart then .run .placeholder .name
  else if isWordStart c then
    if r.dollarQuotes && (c = 'E' || c = 'e') && next = some '\'' then
      .quoted .stringLiteral '\'' (by decide) true 1
    else .run .word .word
  else if c.isDigit then .run .number .number
  else .fixed .symbol 0

/-- The kind and the further characters that a rule gives a lexeme in front of a text. -/
def Rule.apply (r : LexicalRules) (s : List Char) : Rule → Except Region (LexemeKind × Nat)
  | .fixed kind n => .ok (kind, n)
  | .line => .ok (.comment, lineLength s)
  | .block =>
    match commentLength? r.nestedComments 1 (s.drop 1) with
    | some n => .ok (.comment, n + 1)
    | none => .error .blockComment
  | .quoted region quote _ escapes skip =>
    match quotedLength? quote escapes (s.drop skip) with
    | some n => .ok (.quoted, n + skip)
    | none => .error region
  | .dollar =>
    match dollarTag? s with
    | some tag =>
      match throughMark? ('$' :: tag) (s.drop tag.length) with
      | some n => .ok (.quoted, n + tag.length)
      | none => .error .dollarQuoted
    | none => .ok (.symbol, runLength Char.isDigit s)
  | .run kind chars => .ok (kind, runLength chars.test s)

/-- One row of the table: what a condition gives is what its rule gives. -/
private theorem ite_eq_apply {r : LexicalRules} {s : List Char} {p : Prop} [Decidable p]
    {a b : Except Region (LexemeKind × Nat)} {x y : Rule} (ha : a = x.apply r s)
    (hb : b = y.apply r s) : (if p then a else b) = (if p then x else y).apply r s := by
  split
  · exact ha
  · exact hb

theorem lexeme_eq_apply (r : LexicalRules) (c : Char) (s : List Char) :
    lexeme r c s = (rule r c s.head?).apply r s := by
  -- two rows write their sums in another order than the rule does
  have hdollar : (match dollarTag? s with
      | some tag =>
        match (throughMark? ('$' :: tag) (s.drop tag.length)).map (· + tag.length) with
        | some n => .ok (.quoted, n)
        | none => .error .dollarQuoted
      | none => .ok (.symbol, runLength Char.isDigit s)) = Rule.dollar.apply r s := by
    rw [Rule.apply]
    cases dollarTag? s with
    | none => rfl
    | some tag =>
      dsimp only
      cases throughMark? ('$' :: tag) (s.drop tag.length) <;> rfl
  have hescape : (match (quotedLength? '\'' true (s.drop 1)).map (· + 1) with
      | some n => .ok (.quoted, n)
      | none => .error .stringLiteral) =
      (Rule.quoted .stringLiteral '\'' (by decide) true 1).apply r s := by
    rw [Rule.apply]
    cases quotedLength? '\'' true (s.drop 1) <;> rfl
  -- the rows agree one by one; splitting all conditions at once would not end
  unfold lexeme rule
  refine ite_eq_apply rfl (ite_eq_apply rfl (ite_eq_apply rfl (ite_eq_apply rfl ?_)))
  refine ite_eq_apply rfl (ite_eq_apply rfl (ite_eq_apply rfl (ite_eq_apply hdollar ?_)))
  refine ite_eq_apply rfl (ite_eq_apply rfl (ite_eq_apply rfl (ite_eq_apply rfl ?_)))
  exact ite_eq_apply rfl (ite_eq_apply (ite_eq_apply hescape rfl) (ite_eq_apply rfl rfl))

/-! ## One lexeme -/

/-- The next character matters only where it belongs to the lexeme. -/
theorem rule_some (r : LexicalRules) (c x : Char) :
    rule r c (some x) = rule r c none ∨ (c = '-' ∧ x = '-') ∨ (c = '/' ∧ x = '*') ∨
      (c = ':' ∧ (x = ':' ∨ isWordStart x = true)) ∨ ((c = 'E' ∨ c = 'e') ∧ x = '\'') := by
  by_cases hline : c = '-' ∧ x = '-'
  · exact .inr (.inl hline)
  by_cases hblock : c = '/' ∧ x = '*'
  · exact .inr (.inr (.inl hblock))
  by_cases hcolon : c = ':' ∧ (x = ':' ∨ isWordStart x = true)
  · exact .inr (.inr (.inr (.inl hcolon)))
  by_cases hescape : (c = 'E' ∨ c = 'e') ∧ x = '\''
  · exact .inr (.inr (.inr (.inr hescape)))
  -- every other row asks for the first character alone
  left
  have h₁ : (decide (c = '-') && decide (some x = some '-')) = false := by simpa using hline
  have h₂ : (decide (c = '/') && decide (some x = some '*')) = false := by simpa using hblock
  have h₃ : (decide (c = ':') && decide (some x = some ':')) = false := by grind
  have h₄ : (decide (c = ':') && (some x).any isWordStart) = false := by grind
  have h₅ : (r.dollarQuotes && (decide (c = 'E') || decide (c = 'e')) &&
      decide (some x = some '\'')) = false := by grind
  unfold rule
  rw [h₁, h₂, h₃, h₄, h₅]
  simp only [reduceCtorEq, decide_false, Bool.and_false, Option.any_none]

/-- In front of a separator the rule is that of the end of the text. -/
theorem rule_of_separated (r : LexicalRules) (c : Char) {s : List Char} (h : Separated s) :
    rule r c s.head? = rule r c none := by
  have hall : ∀ x ∈ s.head?, rule r c (some x) = rule r c none := by
    refine h.head (p := fun x => rule r c (some x) = rule r c none) ?_ ?_ ?_
    all_goals
      -- no separator is the second character of a mark
      rcases rule_some r c _ with hsame | ⟨-, hx⟩ | ⟨-, hx⟩ | ⟨-, hx | hx⟩ | ⟨-, hx⟩
      · exact hsame
      all_goals exact absurd hx (by decide)
  cases s with
  | nil => rfl
  | cons x s => exact hall x rfl

/-- A colon in front of a name starts a placeholder. -/
theorem rule_colon (r : LexicalRules) {x : Char} (h : isWordStart x = true) :
    rule r ':' (some x) = .run .placeholder .name := by
  have hne : decide (some x = some ':') = false := by
    rw [decide_eq_false_iff_not]
    rintro ⟨⟩
    exact absurd h (by decide)
  unfold rule
  rw [hne, Option.any_some, h]
  rfl

/-- A lexeme of one character that other text follows has the rule that it has at the
end of a text. -/
theorem rule_of_apply_zero {r : LexicalRules} {c : Char} {s : List Char} {kind : LexemeKind}
    (h : (rule r c s.head?).apply r s = .ok (kind, 0)) : rule r c s.head? = rule r c none := by
  cases s with
  | nil => rfl
  | cons x s =>
    rw [List.head?_cons] at h ⊢
    rcases rule_some r c x with hsame | ⟨rfl, rfl⟩ | ⟨rfl, rfl⟩ | ⟨rfl, hx⟩ | ⟨hc, rfl⟩
    · exact hsame
    -- where the next character chooses the rule, the lexeme takes it
    · have hrule : rule r '-' (some '-') = .line := rfl
      have := lineLength_pos '-' s
      rw [hrule, Rule.apply, Except.ok.injEq, Prod.mk.injEq] at h
      omega
    · have hrule : rule r '/' (some '*') = .block := rfl
      rw [hrule, Rule.apply] at h
      split at h <;> simp at h
    · have hstart : isWordStart x = true := by
        rcases hx with rfl | hx
        · rw [show rule r ':' (some ':') = .fixed .symbol 1 from rfl, Rule.apply,
            Except.ok.injEq, Prod.mk.injEq] at h
          exact absurd h.2 (by decide)
        · exact hx
      rw [rule_colon r hstart, Rule.apply, Except.ok.injEq, Prod.mk.injEq] at h
      have hname : Run.name.test x = true := by
        show (isWordStart x || x.isDigit) = true
        rw [hstart, Bool.true_or]
      simp [runLength, hname] at h
    · cases hd : r.dollarQuotes with
      | false =>
        rcases hc with rfl | rfl
        · simp [rule, hd, isSpace, isWordStart]
        · simp [rule, hd, isSpace, isWordStart]
      | true =>
        -- an escape string takes its quote, whether it ends or not
        have hrule : rule r c (some '\'') =
            .quoted .stringLiteral '\'' (by decide) true 1 := by
          rcases hc with rfl | rfl
          · simp [rule, hd, isSpace, isWordStart]
          · simp [rule, hd, isSpace, isWordStart]
        rw [hrule, Rule.apply] at h
        split at h <;> simp at h

/-- The characters that have rows of their own in the table. -/
def marks : List Char :=
  [' ', '\t', '\n', '\x0c', '\r', '-', '#', '/', '\'', '"', '\x60', '$', '(', ')', ';', ':']

/-- For the other characters, only the last rows of the table are left. -/
theorem rule_of_not_mark (r : LexicalRules) {c : Char} (next : Option Char) (hc : c ∉ marks) :
    rule r c next =
      if isWordStart c then
        if r.dollarQuotes && (c = 'E' || c = 'e') && next = some '\'' then
          .quoted .stringLiteral '\'' (by decide) true 1
        else .run .word .word
      else if c.isDigit then .run .number .number
      else .fixed .symbol 0 := by
  simp only [marks, List.mem_cons, List.not_mem_nil, or_false, not_or] at hc
  simp [rule, isSpace, hc]

/-- The letter `E` in front of a quote starts an escape string. -/
def Escapes (r : LexicalRules) (w : List Char) (next : Option Char) : Prop :=
  r.dollarQuotes = true ∧ (w = ['E'] ∨ w = ['e']) ∧ next = some '\''

/-- What may start a word does so, unless a quote shows that it belongs to an escape
string. -/
theorem rule_word (r : LexicalRules) {c : Char} {next : Option Char} (hc : isWordStart c = true)
    (hnext : ¬ Escapes r [c] next) : rule r c next = .run .word .word := by
  have hmarks : marks.all (fun x => !isWordStart x) = true := by decide
  -- a letter is none of the marks, and not the one of an escape string here
  have hplain : c ∉ marks := by
    intro hmem
    have hmark := List.all_eq_true.mp hmarks c hmem
    rw [hc] at hmark
    cases hmark
  have hescape : (r.dollarQuotes && (decide (c = 'E') || decide (c = 'e')) &&
      decide (next = some '\'')) = false := by
    simpa [Escapes, and_assoc] using hnext
  rw [rule_of_not_mark r next hplain, hc, hescape]
  rfl

theorem isWordStart_of_isDigit {c : Char} (hc : c.isDigit = true) : isWordStart c = false := by
  -- the digits by their codes
  have hbounds : 48 ≤ c.toNat ∧ c.toNat ≤ 57 := by
    simpa [Char.isDigit, UInt32.le_iff_toNat_le] using hc
  have hunderscore : c ≠ '_' := by
    rintro rfl
    cases hc
  -- the ranges of the letters and of the digits do not meet
  have hletter : c.isAlpha = false := by
    rw [Bool.eq_false_iff]
    intro h
    have hcase : (c.isUpper || c.isLower) = true := h
    have hranges : (decide (c.val ≥ 'A'.val ∧ c.val ≤ 'Z'.val) ||
        (decide (c.val ≥ 'a'.val) && decide (c.val ≤ 'z'.val))) = true := hcase
    simp only [UInt32.le_iff_toNat_le, Bool.or_eq_true, decide_eq_true_eq,
      Bool.and_eq_true] at hranges
    have hval : c.val.toNat = c.toNat := rfl
    have hupper : 'A'.val.toNat = 65 := rfl
    have hlower : 'a'.val.toNat = 97 := rfl
    omega
  simp only [isWordStart, hletter, hunderscore, decide_false, Bool.or_false, Bool.false_or,
    decide_eq_false_iff_not]
  omega

/-- A digit starts a number. -/
theorem rule_digit (r : LexicalRules) {c : Char} (next : Option Char) (hc : c.isDigit = true) :
    rule r c next = .run .number .number := by
  have hmarks : marks.all (fun x => !x.isDigit) = true := by decide
  have hplain : c ∉ marks := by
    intro hmem
    have hmark := List.all_eq_true.mp hmarks c hmem
    rw [hc] at hmark
    cases hmark
  rw [rule_of_not_mark r next hplain, isWordStart_of_isDigit hc, hc]
  rfl

/-- The rows of the table: a rule, and what holds of the characters that it is chosen by. -/
inductive Rule.Row (r : LexicalRules) (c : Char) (next : Option Char) : Rule → Prop where
  | space (hc : isSpace c = true) : Row r c next (.fixed .space 0)
  | dashes (hc : c = '-') (hnext : next = some '-') : Row r c next .line
  | hash (hc : c = '#') (hr : r.hashComments = true) : Row r c next .line
  | block (hc : c = '/') (hnext : next = some '*') : Row r c next .block
  | string (hc : c = '\'') :
    Row r c next (.quoted .stringLiteral '\'' (by decide) r.backslashEscapes 0)
  | doubleQuoted (hc : c = '"') :
    Row r c next (.quoted .doubleQuoted '"' (by decide) r.backslashEscapes 0)
  | quotedIdentifier (hc : c = '\x60') :
    Row r c next (.quoted .quotedIdentifier '\x60' (by decide) false 0)
  | dollar (hc : c = '$') (hr : r.dollarQuotes = true) : Row r c next .dollar
  | openParen (hc : c = '(') : Row r c next (.fixed .openParen 0)
  | closeParen (hc : c = ')') : Row r c next (.fixed .closeParen 0)
  | semicolon (hc : c = ';') : Row r c next (.fixed .semicolon 0)
  | cast (hc : c = ':') (hnext : next = some ':') : Row r c next (.fixed .symbol 1)
  | placeholder (hc : c = ':') (hnext : next.any isWordStart = true) :
    Row r c next (.run .placeholder .name)
  | escapeString (h : Escapes r [c] next) :
    Row r c next (.quoted .stringLiteral '\'' (by decide) true 1)
  | word (hc : isWordStart c = true) (hnext : ¬ Escapes r [c] next) :
    Row r c next (.run .word .word)
  | number (hc : c.isDigit = true) : Row r c next (.run .number .number)
  | symbol : Row r c next (.fixed .symbol 0)

private theorem ite_row {r : LexicalRules} {c : Char} {next : Option Char} {p : Prop} [Decidable p]
    {x y : Rule} (hx : p → Rule.Row r c next x) (hy : Rule.Row r c next y) :
    Rule.Row r c next (if p then x else y) := by
  split
  · next hp => exact hx hp
  · exact hy

/-- What a rule says of the characters that it is chosen by. -/
theorem row_rule (r : LexicalRules) (c : Char) (next : Option Char) :
    Rule.Row r c next (rule r c next) := by
  -- the conditions are Booleans in the rule and propositions in the rows
  have hboth : ∀ {p q : Prop} [Decidable p] [Decidable q],
      (decide p && decide q) = true → p ∧ q := by
    intro p q _ _ h
    rwa [Bool.and_eq_true, decide_eq_true_eq, decide_eq_true_eq] at h
  have hwith : ∀ {p : Prop} [Decidable p] {b : Bool}, (decide p && b) = true → p ∧ b = true := by
    intro p _ b h
    rwa [Bool.and_eq_true, decide_eq_true_eq] at h
  -- a word that an escape string could start with asks one question more
  have hword : isWordStart c = true → Rule.Row r c next
      (if r.dollarQuotes && (c = 'E' || c = 'e') && next = some '\'' then
        .quoted .stringLiteral '\'' (by decide) true 1
      else .run .word .word) := by
    intro hc
    split
    · next hescape =>
      refine .escapeString ?_
      simpa [Escapes, and_assoc] using hescape
    · next hescape =>
      refine .word hc fun hnext => hescape ?_
      simpa [Escapes, and_assoc] using hnext
  unfold rule
  refine ite_row .space (ite_row (fun h => .dashes (hboth h).1 (hboth h).2) ?_)
  refine ite_row (fun h => .hash (hwith h).1 (hwith h).2) ?_
  refine ite_row (fun h => .block (hboth h).1 (hboth h).2) ?_
  refine ite_row .string (ite_row .doubleQuoted (ite_row .quotedIdentifier ?_))
  refine ite_row (fun h => .dollar (hwith h).1 (hwith h).2) ?_
  refine ite_row .openParen (ite_row .closeParen (ite_row .semicolon ?_))
  refine ite_row (fun h => .cast (hboth h).1 (hboth h).2) ?_
  refine ite_row (fun h => .placeholder (hwith h).1 (hwith h).2) ?_
  exact ite_row hword (ite_row .number .symbol)

/-- The characters that a rule takes without a look at the text. -/
def Rule.taken : Rule → Nat
  | .fixed _ n => n
  | _ => 0

/-- No rule takes a character but the one that was looked at. -/
theorem taken_rule_le (r : LexicalRules) (c : Char) (next : Option Char) :
    (rule r c next).taken ≤ next.toList.length := by
  have hrow := row_rule r c next
  generalize rule r c next = x at hrow ⊢
  cases hrow with
  | cast _ hnext =>
    rw [hnext]
    exact Nat.le_refl _
  | _ => exact Nat.zero_le _

/-- A rule gives no more characters than there are. -/
theorem apply_le {r : LexicalRules} {c : Char} {s : List Char} {kind : LexemeKind} {n : Nat}
    (h : (rule r c s.head?).apply r s = .ok (kind, n)) : n ≤ s.length := by
  cases hrule : rule r c s.head? with
  | fixed kind' m =>
    -- a fixed rule takes what it has looked at, which is one character at most
    have hm := taken_rule_le r c s.head?
    have hhead : s.head?.toList.length ≤ s.length := by cases s <;> simp
    rw [hrule, Rule.apply, Except.ok.injEq, Prod.mk.injEq] at h
    rw [hrule, Rule.taken] at hm
    omega
  | line =>
    rw [hrule, Rule.apply, Except.ok.injEq, Prod.mk.injEq] at h
    have := lineLength_le s
    omega
  | block =>
    rw [hrule, Rule.apply] at h
    split at h
    · next m hm =>
      cases h
      have hbounds := commentLength?_bounds hm
      rw [List.length_drop] at hbounds
      omega
    · cases h
  | quoted region quote hquote escapes skip =>
    rw [hrule, Rule.apply] at h
    split at h
    · next m hm =>
      cases h
      have hbounds := quotedLength?_bounds hm
      rw [List.length_drop] at hbounds
      omega
    · cases h
  | dollar =>
    rw [hrule, Rule.apply] at h
    split at h
    · split at h
      · next m hm =>
        cases h
        -- the mark is found in what is left behind the tag
        have hbounds := throughMark?_bounds hm
        rw [List.length_drop, List.length_cons] at hbounds
        omega
      · cases h
    · cases h
      exact runLength_le _ _
  | run kind' chars =>
    rw [hrule, Rule.apply, Except.ok.injEq, Prod.mk.injEq] at h
    rw [← h.2]
    exact runLength_le _ _

/-! ## What a kind says of the first character -/

/-- Dollar signs have a rule of their own where they quote, and there are three kinds of runs. -/
def Rule.Listed (r : LexicalRules) : Rule → Prop
  | .dollar => r.dollarQuotes = true
  | .run kind _ => kind ∈ [LexemeKind.placeholder, .word, .number]
  | _ => True

theorem listed_rule (r : LexicalRules) (c : Char) (next : Option Char) :
    (rule r c next).Listed r := by
  have hrow := row_rule r c next
  generalize rule r c next = x at hrow ⊢
  cases hrow with
  | dollar _ hr => exact hr
  | placeholder | word | number => simp [Rule.Listed]
  | _ => trivial

/-- Only a dollar sign has the rule of dollar signs. -/
theorem start_of_dollar {r : LexicalRules} {c : Char} {next : Option Char}
    (h : rule r c next = .dollar) : c = '$' := by
  have hrow := row_rule r c next
  rw [h] at hrow
  cases hrow with
  | dollar hc => exact hc

/-- The kinds of lexeme that a rule gives. -/
def Rule.kinds : Rule → List LexemeKind
  | .fixed kind _ => [kind]
  | .line => [.comment]
  | .block => [.comment]
  | .quoted .. => [.quoted]
  | .dollar => [.quoted, .symbol]
  | .run kind _ => [kind]

theorem Rule.mem_kinds {r : LexicalRules} {x : Rule} {s : List Char} {kind : LexemeKind} {n : Nat}
    (h : x.apply r s = .ok (kind, n)) : kind ∈ x.kinds := by
  cases x with
  | fixed kind' n =>
    cases h
    exact List.mem_singleton_self _
  | line =>
    cases h
    exact List.mem_singleton_self _
  | block =>
    -- what is not closed is no lexeme
    rw [apply] at h
    split at h
    · cases h
      exact List.mem_singleton_self _
    · cases h
  | quoted region quote hquote escapes skip =>
    rw [apply] at h
    split at h
    · cases h
      exact List.mem_singleton_self _
    · cases h
  | dollar =>
    rw [apply] at h
    split at h
    · split at h
      · cases h
        simp [kinds]
      · cases h
    · cases h
      simp [kinds]
  | run kind' chars =>
    cases h
    exact List.mem_singleton_self _

/-- Only a colon in front of a name starts a placeholder. -/
theorem start_of_placeholder {r : LexicalRules} {c : Char} {next : Option Char}
    (h : .placeholder ∈ (rule r c next).kinds) : c = ':' ∧ next.any isWordStart = true := by
  have hrow := row_rule r c next
  generalize rule r c next = x at h hrow
  cases hrow with
  | placeholder hc hnext => exact ⟨hc, hnext⟩
  | _ => simp [Rule.kinds] at h

/-- A word starts with what may start one, and not in front of a quote that belongs to it. -/
theorem start_of_word {r : LexicalRules} {c : Char} {next : Option Char}
    (h : .word ∈ (rule r c next).kinds) : isWordStart c = true ∧ ¬ Escapes r [c] next := by
  have hrow := row_rule r c next
  generalize rule r c next = x at h hrow
  cases hrow with
  | word hc hnext => exact ⟨hc, hnext⟩
  | _ => simp [Rule.kinds] at h

/-- A number starts with a digit. -/
theorem start_of_number {r : LexicalRules} {c : Char} {next : Option Char}
    (h : .number ∈ (rule r c next).kinds) : c.isDigit = true := by
  have hrow := row_rule r c next
  generalize rule r c next = x at h hrow
  cases hrow with
  | number hc => exact hc
  | _ => simp [Rule.kinds] at h

/-- A semicolon starts with one. -/
theorem start_of_semicolon {r : LexicalRules} {c : Char} {next : Option Char}
    (h : .semicolon ∈ (rule r c next).kinds) : c = ';' := by
  have hrow := row_rule r c next
  generalize rule r c next = x at h hrow
  cases hrow with
  | semicolon hc => exact hc
  | _ => simp [Rule.kinds] at h

/-- Spaces and comments start with characters that only they and symbols start with. -/
theorem start_of_gap {r : LexicalRules} {c : Char} {next : Option Char} {kind : LexemeKind}
    (hk : kind = .space ∨ kind = .comment) (h : kind ∈ (rule r c next).kinds) :
    isSpace c = true ∨ c = '-' ∨ c = '#' ∨ c = '/' := by
  have hrow := row_rule r c next
  generalize rule r c next = x at h hrow
  -- the rows that give white space or a comment
  cases hrow with
  | space hc => exact .inl hc
  | dashes hc => exact .inr (.inl hc)
  | hash hc => exact .inr (.inr (.inl hc))
  | block hc => exact .inr (.inr (.inr hc))
  | _ => rcases hk with rfl | rfl <;> simp [Rule.kinds] at h

/-- Spaces and comments have rules of their own. -/
theorem rule_of_gap {r : LexicalRules} {c : Char} {next : Option Char} {kind : LexemeKind}
    (hk : kind = .space ∨ kind = .comment) (h : kind ∈ (rule r c next).kinds) :
    isSpace c = true ∨ rule r c next = .line ∨ rule r c next = .block := by
  have hrow := row_rule r c next
  generalize rule r c next = x at h hrow ⊢
  cases hrow with
  | space hc => exact .inl hc
  | dashes | hash => exact .inr (.inl rfl)
  | block => exact .inr (.inr rfl)
  | _ => rcases hk with rfl | rfl <;> simp [Rule.kinds] at h

/-- A text may follow where another one did: it starts with a separator, or with a colon
or a dot if the other one does so too. -/
def Follows (t u : List Char) : Prop :=
  ∀ c ∈ u.head?, isSeparator c = true ∨ (c = ':' ∨ c = '.') ∧ t.head? = some c

theorem Separated.follows {u : List Char} (h : Separated u) (t : List Char) : Follows t u :=
  fun c hc => .inl (h c hc)

/-- A run that ends in front of a text ends in front of one that follows as well. -/
theorem Follows.stops {p : Char → Bool} {t u : List Char} (h : Follows t u)
    (hp : ∀ c, isSeparator c = true → p c = false) (ht : ∀ c ∈ t.head?, p c = false) :
    ∀ c ∈ u.head?, p c = false := by
  intro c hc
  rcases h c hc with hsep | ⟨-, hsame⟩
  · exact hp c hsep
  · exact ht c hsame

/-- What a rule asks of the text `u` that takes the place of `t`, for a lexeme whose further
characters are the first `n` of `s`. -/
def Rule.Admits (s t u : List Char) (n : Nat) : Rule → Prop
  | .quoted _ quote _ _ _ => ∀ c ∈ u.head?, c ≠ quote
  | .dollar => (dollarTag? (s ++ t) = none → dollarTag? (s ++ u) = none) ∧
      ∀ c ∈ u.head?, c.isDigit = false
  | .run _ chars => n = s.length → ∀ c ∈ u.head?, chars.test c = false
  | _ => True

/-- A rule gives the same lexeme whatever comes behind its end, if it admits it. -/
theorem Rule.apply_cut {r : LexicalRules} {x : Rule} {s t u : List Char} {kind : LexemeKind}
    {n : Nat} (h : x.apply r (s ++ t) = .ok (kind, n)) (hn : n ≤ s.length) (hu : x.Admits s t u n)
    (ht : kind = .comment → t = [] → n < s.length) : x.apply r (s ++ u) = .ok (kind, n) := by
  -- each rule takes the same from the text that is kept, whatever follows it
  cases x with
  | fixed kind n => exact h
  | line =>
    rw [apply, Except.ok.injEq, Prod.mk.injEq] at h ⊢
    obtain ⟨rfl, rfl⟩ := h
    exact ⟨rfl, lineLength_cut hn (ht rfl) u⟩
  | block =>
    rw [apply] at h ⊢
    split at h
    · next m hm =>
      cases h
      rw [List.drop_append_of_le_length (by omega)] at hm ⊢
      rw [commentLength?_cut hm (by rw [List.length_drop]; omega) u]
    · cases h
  | quoted region quote hquote escapes skip =>
    rw [apply] at h ⊢
    split at h
    · next m hm =>
      cases h
      rw [List.drop_append_of_le_length (by omega)] at hm ⊢
      rw [quotedLength?_cut hm (by rw [List.length_drop]; omega) hu]
    · cases h
  | dollar =>
    rw [apply] at h ⊢
    split at h
    · next tag htag =>
      split at h
      · next m hm =>
        cases h
        -- the tag is not longer than the lexeme, so that it is found in the part that is kept
        rw [dollarTag?_cut htag (by omega) u]
        dsimp only
        rw [List.drop_append_of_le_length (by omega)] at hm ⊢
        rw [throughMark?_cut (by simp) hm (by rw [List.length_drop]; omega) u]
      · cases h
    · next htag =>
      cases h
      rw [hu.1 htag]
      dsimp only
      rw [runLength_cut hn fun _ => hu.2]
  | run kind chars =>
    rw [apply, Except.ok.injEq, Prod.mk.injEq] at h ⊢
    obtain ⟨rfl, rfl⟩ := h
    exact ⟨rfl, runLength_cut hn hu⟩

/-- A text that may follow where another one did is admitted by every rule. -/
theorem Follows.admits {r : LexicalRules} {x : Rule} {s t u : List Char} {kind : LexemeKind}
    {n : Nat} (hu : Follows t u) (h : x.apply r (s ++ t) = .ok (kind, n)) : x.Admits s t u n := by
  -- what may follow is a separator, a colon or a dot
  have hhead : ∀ {p : Char → Prop}, p ' ' → p '(' → p ')' → p ':' → p '.' → ∀ c ∈ u.head?, p c := by
    intro p hspace hopen hclose hcolon hdot c hc
    rcases hu c hc with hsep | ⟨rfl | rfl, -⟩
    · exact (separated_cons hsep []).head hspace hopen hclose c rfl
    · exact hcolon
    · exact hdot
  cases x with
  | quoted region quote hquote escapes skip =>
    -- neither a separator nor a colon nor a dot is a quote, so that it doubles none
    intro c hc heq
    subst heq
    have hnone := hhead (p := fun c => isQuote c = false) rfl rfl rfl rfl rfl c hc
    rw [hquote] at hnone
    cases hnone
  | dollar =>
    refine ⟨fun htag => dollarTag?_cut_none htag ?_,
      hhead (p := fun c => c.isDigit = false) rfl rfl rfl rfl rfl⟩
    cases u with
    | nil => exact nofun
    | cons y u =>
      have hstop : isNameChar y = false ∧ y ≠ '$' :=
        hhead (p := fun c => isNameChar c = false ∧ c ≠ '$') (by decide) (by decide) (by decide)
          (by decide) (by decide) y rfl
      rw [List.dropWhile_cons, if_neg (by rw [hstop.1]; decide)]
      intro c hc
      obtain rfl := Option.some.inj hc
      exact hstop.2
  | run kind' chars =>
    rw [Rule.apply, Except.ok.injEq, Prod.mk.injEq] at h
    obtain ⟨-, rfl⟩ := h
    exact fun hend => hu.stops chars.stops (runLength_append_eq_length_iff.mp hend).2
  | _ => trivial

/-- A lexeme that ends within a text is there whatever follows the text, if what follows
is separated from it. Only a comment can be closed by the end of the text. -/
theorem lexeme_cut {r : LexicalRules} {c : Char} {s t u : List Char} {kind : LexemeKind} {n : Nat}
    (h : lexeme r c (s ++ t) = .ok (kind, n)) (hn : n ≤ s.length) (hu : Follows t u)
    (ht : kind = .comment → t = [] → n < s.length) : lexeme r c (s ++ u) = .ok (kind, n) := by
  rw [lexeme_eq_apply] at h ⊢
  have hrule : rule r c (s ++ u).head? = rule r c (s ++ t).head? := by
    cases s with
    | cons d s => rfl
    | nil =>
      obtain rfl : n = 0 := by simpa using hn
      rw [List.nil_append] at h ⊢
      rw [List.nil_append]
      -- only a lexeme of one character is chosen by what follows it
      cases u with
      | nil => rw [rule_of_apply_zero h, List.head?_nil]
      | cons x u =>
        rcases hu x rfl with hsep | ⟨-, hsame⟩
        · rw [rule_of_separated r c (separated_cons hsep u), rule_of_apply_zero h]
        · rw [hsame, List.head?_cons]
  rw [hrule]
  exact Rule.apply_cut h hn (hu.admits h) ht

/-- What is between tokens ends where it ended whatever comes behind it: only the end of the
text could have closed it. -/
theorem lexeme_of_gap {r : LexicalRules} {c : Char} {s t : List Char} {kind : LexemeKind}
    (hk : kind = .space ∨ kind = .comment) (h : lexeme r c (s ++ t) = .ok (kind, s.length))
    (ht : t ≠ []) (u : List Char) : lexeme r c (s ++ u) = .ok (kind, s.length) := by
  rw [lexeme_eq_apply] at h
  rcases rule_of_gap hk (Rule.mem_kinds h) with hspace | hrule | hrule
  · -- a space is a lexeme by itself, whatever follows
    have hown : ∀ w, lexeme r c w = .ok (.space, 0) := by
      intro w
      rw [lexeme, if_pos hspace]
    rwa [← lexeme_eq_apply, hown, ← hown (s ++ u)] at h
  all_goals rw [hrule, Rule.apply] at h
  -- a comment is longer than its first character, so that its rule is the same
  · cases s with
    | nil =>
      obtain ⟨x, t, rfl⟩ := List.exists_cons_of_ne_nil ht
      have hpos := lineLength_pos x t
      rw [Except.ok.injEq, Prod.mk.injEq] at h
      exact absurd h.2 (Nat.ne_of_gt hpos)
    | cons x s =>
      have hsame : rule r c (x :: s ++ u).head? = .line := hrule
      rw [Except.ok.injEq, Prod.mk.injEq] at h
      obtain ⟨rfl, hlen⟩ := h
      rw [lexeme_eq_apply, hsame, Rule.apply,
        lineLength_cut (Nat.le_of_eq hlen) (fun hnil => absurd hnil ht) u, hlen]
  · split at h
    · next n hn =>
      rw [Except.ok.injEq, Prod.mk.injEq] at h
      obtain ⟨rfl, hlen⟩ := h
      cases s with
      | nil => cases hlen
      | cons x s =>
        have hsame : rule r c (x :: s ++ u).head? = .block := hrule
        have hcut := commentLength?_cut (s := s) hn (Nat.le_of_eq (Nat.succ.inj hlen)) u
        have hdrop : (x :: s ++ u).drop 1 = s ++ u := rfl
        rw [lexeme_eq_apply, hsame, Rule.apply, hdrop, hcut]
        exact congrArg (fun m => Except.ok (LexemeKind.comment, m)) hlen
    · cases h

theorem lexeme_le {r : LexicalRules} {c : Char} {s : List Char} {kind : LexemeKind} {n : Nat}
    (h : lexeme r c s = .ok (kind, n)) : n ≤ s.length := by
  rw [lexeme_eq_apply] at h
  exact apply_le h

end SqlPaging.Sql
