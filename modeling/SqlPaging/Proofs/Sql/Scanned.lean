import SqlPaging.Proofs.Sql.Bytes
import SqlPaging.Proofs.Sql.Site

/-!
# SqlPaging — what a scan finds

The tokens of a text cut it up: they are parts of it that stand one behind the other, and
between them there are only spaces and comments. The depth of a token is the number of
parentheses that are open in front of it, and those that are opened are closed.

The parts are named by bytes. The splitting of the bytes gives the same lexemes as that of
the characters, so that wherever it stands, and whatever it takes out of the text on its
way, there are whole characters.

Main results:

* `Blank`, `blank_of_stable` — spaces and comments by a grammar of their own.
* `Nests`, `nests_of_nestFrom` — the depths of tokens.
* `inPlace_of_lex` — the places where lexemes start.
* `scan_accounts` — what is said of the tokens, for all texts.
-/

namespace SqlPaging.Sql

variable {r : LexicalRules}

/-! ## Spaces and comments -/

/-- A text that closes as many block comments with the mark at its end. Marks that open one
count where comments nest. -/
inductive Closes (nested : Bool) : Nat → List Char → Prop
  | done : Closes nested 0 []
  | close {depth : Nat} {s : List Char} (h : Closes nested depth s) :
    Closes nested (depth + 1) ('*' :: '/' :: s)
  | more {depth : Nat} {s : List Char} (hn : nested = true) (h : Closes nested (depth + 2) s) :
    Closes nested (depth + 1) ('/' :: '*' :: s)
  | other {depth : Nat} {c : Char} {s : List Char} (hclose : ¬ (c = '*' ∧ s.head? = some '/'))
    (hopen : ¬ (nested = true ∧ c = '/' ∧ s.head? = some '*'))
    (h : Closes nested (depth + 1) s) : Closes nested (depth + 1) (c :: s)

/-- The scanner takes a comment up to the mark that closes it. -/
theorem closes_of_commentLength? {nested : Bool} {depth : Nat} {s : List Char} {n : Nat}
    (h : commentLength? nested depth s = some n) (hdepth : 0 < depth) :
    Closes nested depth (s.take n) := by
  obtain ⟨k, rfl⟩ := Nat.exists_eq_add_one.mpr hdepth
  -- there is always a comment to close, so that the depth is a successor
  generalize hk : k + 1 = depth at h hdepth
  fun_induction commentLength? nested depth s generalizing k n with
  | case1 => cases h
  | case2 => cases h
  | case3 depth c d s hmark hone =>
    cases h
    obtain ⟨rfl, rfl⟩ : c = '*' ∧ d = '/' := by simpa using hmark
    obtain rfl : depth = 1 := by omega
    exact .close .done
  | case4 depth c d s hmark hone ih =>
    obtain ⟨m, hm, rfl⟩ := Option.map_eq_some_iff.mp h
    obtain ⟨rfl, rfl⟩ : c = '*' ∧ d = '/' := by simpa using hmark
    obtain ⟨j, rfl⟩ : ∃ j, depth = j + 1 + 1 := ⟨depth - 2, by omega⟩
    exact .close (ih j rfl hm (Nat.succ_pos j))
  | case5 depth c d s hmark hopen ih =>
    obtain ⟨m, hm, rfl⟩ := Option.map_eq_some_iff.mp h
    obtain ⟨⟨hn, rfl⟩, rfl⟩ : (nested = true ∧ c = '/') ∧ d = '*' := by simpa using hopen
    subst hk
    exact .more hn (ih (k + 1) rfl hm (Nat.succ_pos _))
  | case6 depth c d s hmark hopen ih =>
    obtain ⟨m, hm, rfl⟩ := Option.map_eq_some_iff.mp h
    have htwo := (commentLength?_bounds hm).1
    -- the character behind stays where it is, as the mark at the end has two
    have hhead : ((d :: s).take m).head? = some d := by
      rw [List.head?_take, if_neg (by omega), List.head?_cons]
    subst hk
    rw [List.take_succ_cons]
    refine .other ?_ ?_ (ih k rfl hm hdepth)
    · rw [hhead, Option.some.injEq]
      simpa using hmark
    · rw [hhead, Option.some.injEq]
      simpa [and_assoc] using hopen

/-- The marks of a comment to the end of the line. -/
def LexicalRules.lineMarks (r : LexicalRules) : List (List Char) :=
  ['-', '-'] :: if r.hashComments then [['#']] else []

/-- Spaces and comments. The end of the text may close a comment, where they stand there. -/
inductive Blank (r : LexicalRules) : Bool → List Char → Prop
  | nil {atEnd : Bool} : Blank r atEnd []
  | space {atEnd : Bool} {c : Char} {s : List Char} (hc : isSpace c = true)
    (h : Blank r atEnd s) : Blank r atEnd (c :: s)
  | line {atEnd : Bool} {mark body s : List Char} (hmark : mark ∈ r.lineMarks)
    (hbody : '\n' ∉ body) (h : Blank r atEnd s) : Blank r atEnd (mark ++ (body ++ '\n' :: s))
  | lineAtEnd {mark body : List Char} (hmark : mark ∈ r.lineMarks) (hbody : '\n' ∉ body) :
    Blank r true (mark ++ body)
  | block {atEnd : Bool} {body s : List Char} (hbody : Closes r.nestedComments 1 body)
    (h : Blank r atEnd s) : Blank r atEnd ('/' :: '*' :: (body ++ s))

/-- A comment to the end of the line ends with it, or with the text. -/
theorem line_or_end {t after : List Char} (h : lineLength (t ++ after) = t.length) :
    (∃ body, '\n' ∉ body ∧ t = body ++ ['\n']) ∨ '\n' ∉ t ∧ after = [] := by
  -- either the line has a break, which is its last character, or the text ends with it
  by_cases hmem : '\n' ∈ t
  · obtain ⟨body, rest, rfl, hbody⟩ := List.eq_append_cons_of_mem hmem
    rw [List.append_assoc, lineLength_skip hbody, List.cons_append, lineLength, if_pos rfl,
      List.length_append, List.length_cons] at h
    obtain rfl : rest = [] := List.length_eq_zero_iff.mp (by omega)
    exact .inl ⟨body, hbody, rfl⟩
  · rw [lineLength_skip hmem] at h
    refine .inr ⟨hmem, ?_⟩
    cases after with
    | nil => rfl
    | cons c after =>
      have hpos := lineLength_pos c after
      omega

/-- A lexeme of a gap goes on with spaces and comments, if there is more text behind it or
they end where it does. -/
theorem blank_of_lexeme {l : Lexeme} {ls : List Lexeme} (h : Stable r (l :: ls))
    (hgap : l.isGap = true) {atEnd : Bool} {s : List Char}
    (hend : lexemeText ls = [] → atEnd = true ∧ s = []) (hs : Blank r atEnd s) :
    Blank r atEnd (l.text ++ s) := by
  obtain ⟨c, t, htext, hl, -⟩ := stable_cons_iff.mp h
  -- a comment to the end of the line, behind its mark: with the end of the line or without
  have hline : ∀ (mark body : List Char), mark ∈ r.lineMarks → c :: t = mark ++ body →
      lineLength (body ++ lexemeText ls) = body.length → Blank r atEnd (l.text ++ s) := by
    intro mark body hmark hbody hlen
    rw [htext, hbody, List.append_assoc]
    rcases line_or_end hlen with ⟨line, hnot, rfl⟩ | ⟨hnot, hnil⟩
    · rw [List.append_assoc, List.cons_append, List.nil_append]
      exact .line hmark hnot hs
    · obtain ⟨rfl, rfl⟩ := hend hnil
      rw [List.append_nil]
      exact .lineAtEnd hmark hnot
  rw [lexeme_eq_apply] at hl
  have hkind := Rule.mem_kinds hl
  have hrow := row_rule r c (t ++ lexemeText ls).head?
  generalize rule r c (t ++ lexemeText ls).head? = x at hl hkind hrow
  have hk := Lexeme.isGap_iff.mp hgap
  cases hrow with
  | space hc =>
    rw [Rule.apply, Except.ok.injEq, Prod.mk.injEq] at hl
    obtain rfl := List.length_eq_zero_iff.mp hl.2.symm
    rw [htext]
    exact .space hc hs
  | hash hc hr =>
    rw [Rule.apply, Except.ok.injEq, Prod.mk.injEq] at hl
    refine hline ['#'] t ?_ (by rw [hc]; rfl) hl.2
    rw [LexicalRules.lineMarks, if_pos hr]
    exact .tail _ (.head _)
  | dashes hc hnext =>
    rw [Rule.apply, Except.ok.injEq, Prod.mk.injEq] at hl
    cases t with
    | nil =>
      -- the second dash belongs to the comment
      obtain ⟨u, hu⟩ := List.head?_eq_some_iff.mp hnext
      rw [List.nil_append] at hu
      rw [List.nil_append, hu] at hl
      exact absurd hl.2 (Nat.ne_of_gt (lineLength_pos _ _))
    | cons d t =>
      obtain rfl : d = '-' := by simpa using hnext
      refine hline ['-', '-'] t (.head _) (by rw [hc]; rfl) ?_
      have hlen := hl.2
      rw [List.cons_append, lineLength, if_neg (by decide), List.length_cons] at hlen
      omega
  | block hc hnext =>
    rw [Rule.apply] at hl
    split at hl
    · next n hn =>
      rw [Except.ok.injEq, Prod.mk.injEq] at hl
      cases t with
      | nil => exact absurd hl.2 (Nat.succ_ne_zero n)
      | cons d t =>
        obtain rfl : d = '*' := by simpa using hnext
        obtain rfl : n = t.length := by simpa using hl.2
        have hbody := closes_of_commentLength? hn Nat.one_pos
        rw [List.cons_append, List.drop_one, List.tail_cons, List.take_left] at hbody
        rw [htext, hc]
        exact .block hbody hs
    · cases hl
  | _ => rcases hk with hk | hk <;> simp [Rule.kinds, hk] at hkind

/-- The gap lexemes of a split text are spaces and comments. -/
theorem blank_of_stable {gap ms : List Lexeme} (h : Stable r (gap ++ ms))
    (hgap : ∀ l ∈ gap, l.isGap = true) {atEnd : Bool} (hend : ms = [] → atEnd = true) :
    Blank r atEnd (lexemeText gap) := by
  induction gap with
  | nil => exact .nil
  | cons l gap ih =>
    rw [List.cons_append] at h
    obtain ⟨-, -, -, -, hrest⟩ := stable_cons_iff.mp h
    refine blank_of_lexeme h (hgap l (.head _)) (fun hnil => ?_)
      (ih hrest fun k hk => hgap k (.tail _ hk))
    -- no lexeme is empty, so that there are none left
    have hall : Stable r ((gap ++ ms) ++ []) := by rwa [List.append_nil]
    have hnone : gap ++ ms = [] := Decidable.byContradiction fun hne => hall.text_ne_nil hne hnil
    obtain ⟨rfl, rfl⟩ := List.append_eq_nil_iff.mp hnone
    exact ⟨hend rfl, rfl⟩

/-! ## Depths -/

/-- Tokens with the depths that their parentheses give them, from one number of open
parentheses to another one. -/
inductive Nests : Nat → List Token → Nat → Prop
  | nil {depth : Nat} : Nests depth [] depth
  | opening {depth e : Nat} {t : Token} {ts : List Token} (hk : t.kind = .openParen)
    (hd : t.depth = depth) (h : Nests (depth + 1) ts e) : Nests depth (t :: ts) e
  | closing {depth e : Nat} {t : Token} {ts : List Token} (hk : t.kind = .closeParen)
    (hd : t.depth = depth) (h : Nests depth ts e) : Nests (depth + 1) (t :: ts) e
  | other {depth e : Nat} {t : Token} {ts : List Token} (hopen : t.kind ≠ .openParen)
    (hclose : t.kind ≠ .closeParen) (hd : t.depth = depth) (h : Nests depth ts e) :
    Nests depth (t :: ts) e

theorem nests_of_nestFrom {at_ depth : Nat} {gap : List Char} {ls : List Lexeme} {n : Nested}
    (h : nestFrom at_ depth gap ls = .ok n) : Nests depth n.tokens n.depth := by
  induction ls generalizing at_ depth gap n with
  | nil =>
    cases h
    exact .nil
  | cons l ls ih =>
    -- the kind of the lexeme says what its token does to the depth, if it makes one
    unfold nestFrom at h
    cases hk : l.kind <;> simp only [hk] at h
    case space => exact ih h
    case comment => exact ih h
    case openParen =>
      obtain ⟨m, hm, rfl⟩ := map_eq_ok.mp h
      exact .opening rfl rfl (ih hm)
    case closeParen =>
      cases depth with
      | zero => cases h
      | succ depth =>
        obtain ⟨m, hm, rfl⟩ := map_eq_ok.mp h
        exact .closing rfl rfl (ih hm)
    all_goals
      obtain ⟨m, hm, rfl⟩ := map_eq_ok.mp h
      exact .other nofun nofun rfl (ih hm)

/-- The number of tokens that open a parenthesis. -/
def opened (ts : List Token) : Nat := ts.countP (·.kind = .openParen)

/-- The number of tokens that close a parenthesis. -/
def closed (ts : List Token) : Nat := ts.countP (·.kind = .closeParen)

/-- The depth is the number of parentheses that are open. -/
theorem Nests.count {depth e : Nat} {ts : List Token} (h : Nests depth ts e) :
    depth + opened ts = e + closed ts := by
  -- each parenthesis changes the depth and one of the numbers by one
  induction h with
  | nil => rfl
  | opening hk hd h ih =>
    simp only [opened, closed, List.countP_cons, hk] at ih ⊢
    simp at ih ⊢
    omega
  | closing hk hd h ih =>
    simp only [opened, closed, List.countP_cons, hk] at ih ⊢
    simp at ih ⊢
    omega
  | other hopen hclose hd h ih =>
    simp only [opened, closed, List.countP_cons, hopen, hclose] at ih ⊢
    simpa using ih

/-- A nest may be split at any token, at the depth that is reached there. -/
theorem Nests.split {depth e : Nat} {ts us : List Token} (h : Nests depth (ts ++ us) e) :
    ∃ m, Nests depth ts m ∧ Nests m us e := by
  induction ts generalizing depth with
  | nil => exact ⟨depth, .nil, h⟩
  | cons t ts ih =>
    -- the first token leads to the depth at which the others begin
    cases h with
    | opening hk hd h =>
      obtain ⟨m, hts, hus⟩ := ih h
      exact ⟨m, .opening hk hd hts, hus⟩
    | closing hk hd h =>
      obtain ⟨m, hts, hus⟩ := ih h
      exact ⟨m, .closing hk hd hts, hus⟩
    | other hopen hclose hd h =>
      obtain ⟨m, hts, hus⟩ := ih h
      exact ⟨m, .other hopen hclose hd hts, hus⟩

/-- Where a depth is left, a parenthesis is closed, and up to there all is deeper. -/
theorem Nests.exists_closing {depth e d : Nat} {ts : List Token} (h : Nests depth ts e)
    (hd : d < depth) (he : e ≤ d) :
    ∃ inner u rest, ts = inner ++ u :: rest ∧ u.kind = .closeParen ∧ u.depth = d ∧
      ∀ x ∈ inner, d < x.depth := by
  -- one more token in front of the closing one, which is deeper
  have hmore : ∀ {t : Token} {ts : List Token}, d < t.depth →
      (∃ inner u rest, ts = inner ++ u :: rest ∧ u.kind = .closeParen ∧ u.depth = d ∧
        ∀ x ∈ inner, d < x.depth) →
      ∃ inner u rest, t :: ts = inner ++ u :: rest ∧ u.kind = .closeParen ∧ u.depth = d ∧
        ∀ x ∈ inner, d < x.depth := by
    rintro t ts ht ⟨inner, u, rest, rfl, hu⟩
    exact ⟨t :: inner, u, rest, rfl, hu.1, hu.2.1, List.forall_mem_cons.mpr ⟨ht, hu.2.2⟩⟩
  induction h with
  | nil => omega
  | opening hk heq h ih => exact hmore (by omega) (ih (by omega) he)
  | @closing depth e t ts hk heq h ih =>
    -- either this one goes down to the depth, or one behind it does
    by_cases hlast : depth = d
    · exact ⟨[], t, ts, rfl, hk, heq.trans hlast, by simp⟩
    · exact hmore (by omega) (ih (by omega) he)
  | other hopen hclose heq h ih => exact hmore (by omega) (ih hd he)

/-! ## Places -/

/-- The byte behind the last of some tokens, from the first byte on. -/
def lastStop (ts : List Token) : Nat := (ts.getLast?.map Token.stop).getD 0

/-- The last token stops where the text of the tokens does. -/
theorem Placed.lastStop_eq {ts : List Token} (h : Placed 0 ts) :
    lastStop ts = byteLength (tokenText ts) := by
  by_cases hne : ts = []
  · subst hne
    rfl
  · have hlast := h.stop_getLast hne
    rw [lastStop, List.getLast?_eq_some_getLast hne]
    simpa using hlast

theorem Placed.pairwise {at_ : Nat} {ts : List Token} (h : Placed at_ ts) :
    ts.Pairwise fun t u => t.stop ≤ u.start := by
  induction ts generalizing at_ with
  | nil => exact .nil
  | cons t ts ih =>
    obtain ⟨-, -, hrest⟩ := h
    exact .cons (fun u hu => (hrest.bounds hu).1) (ih hrest)

theorem lexemeText_map_bytes (ls : List Lexeme) :
    lexemeText (ls.map Lexeme.bytes) = byteText (lexemeText ls) := by
  induction ls with
  | nil => rfl
  | cons l ls ih =>
    rw [List.map_cons, lexemeText_cons, lexemeText_cons, byteText_append, ih]
    rfl

/-- A place among the lexemes of the bytes of a text, behind the first ones: it is one where
the text can be cut, and so is all that is cut out of it from there on, which is the tag of
a dollar-quoted string, whether that ends or not, and the name of a placeholder. -/
structure InPlace (d : Dialect) (s : List Char) (first others : List Lexeme) : Prop where
  cut : ∃ rest, dropBytes? (lexemeText first).length s = some rest ∧
    lex d (byteText rest) = (others, (lex d (byteText s)).2) ∧
    ∀ t tag, byteText rest = '$' :: t → dollarTag? t = some tag →
      (∃ name, slice? s (lexemeText first).length ((lexemeText first).length + (tag.length + 1)) =
        some name ∧ byteText name = '$' :: tag) ∧
      ∃ after, dropBytes? ((lexemeText first).length + (tag.length + 1)) s = some after
  named : ∀ l ∈ others.head?, l.kind = .placeholder →
    ∃ name, slice? s ((lexemeText first).length + 1)
      ((lexemeText first).length + l.text.length) = some name ∧ l.text = ':' :: byteText name

/-- The first lexemes of a text lie in place, whatever the others are. -/
theorem inPlace_of_lex {d : Dialect} {s : List Char} {first others : List Lexeme}
    (h : (lex d (byteText s)).1 = first ++ others) : InPlace d s first others := by
  rw [lex_byteText] at h
  obtain ⟨ls, ms, hsplit, rfl, rfl⟩ := List.map_eq_append_iff.mp h
  obtain ⟨rest, hrest, hlex⟩ := exists_rest_of_lexFrom hsplit
  have hend : lex d (byteText rest) = (ms.map Lexeme.bytes, (lex d (byteText s)).2) := by
    rw [lex_byteText, lex_byteText, lex, hlex]
    rfl
  have hlen : (lexemeText (ls.map Lexeme.bytes)).length = byteLength (lexemeText ls) := by
    rw [lexemeText_map_bytes, length_byteText]
  generalize lexemeText ls = front at hrest hlen
  subst hrest
  refine ⟨⟨rest, ?_, hend, ?_⟩, ?_⟩
  · rw [hlen, dropBytes?_append]
  · -- the tag that is found in the bytes is one of the text
    intro t tag ht htag
    have hfirst : rest.head? = some '$' := by
      rw [← head?_byteText_eq_some_iff (by decide), ht, List.head?_cons]
    obtain ⟨u, rfl⟩ := List.head?_eq_some_iff.mp hfirst
    rw [byteText_cons_of_ascii (by decide)] at ht
    obtain rfl := (List.cons.inj ht).2
    rw [dollarTag?_byteText] at htag
    obtain ⟨name, hname, rfl⟩ := Option.map_eq_some_iff.mp htag
    obtain ⟨after, rfl⟩ := exists_eq_append_of_dollarTag hname
    have hstop : byteLength front + ((byteText name).length + 1) =
        byteLength (front ++ '$' :: name) := by
      rw [byteLength_append, byteLength_cons, length_byteText, Nat.add_comm (byteLength name)]
      rfl
    rw [hlen, hstop]
    refine ⟨⟨'$' :: name, slice?_append front ('$' :: name) after, ?_⟩, after, ?_⟩
    · exact byteText_cons_of_ascii (by decide) name
    · rw [← List.cons_append, ← List.append_assoc, dropBytes?_append]
  · intro l hl hk
    -- the lexeme starts with the colon, which is one byte
    cases ms with
    | nil => cases hl
    | cons m ms =>
      obtain rfl : m.bytes = l := Option.some.inj hl
      have hm : m ∈ (lexFrom (.ofDialect d) 0 rest).1 := by
        rw [hlex]
        exact .head _
      obtain ⟨c, t, n, -, hlexeme, htext⟩ := exists_lexeme_of_mem hm
      rw [lexeme_eq_apply] at hlexeme
      have hkind := Rule.mem_kinds hlexeme
      obtain ⟨rfl, -⟩ := start_of_placeholder (hk ▸ hkind)
      generalize t.take n = name at htext
      have hfirst : (lexFrom (.ofDialect d) 0 rest).1 = [m] ++ ms := congrArg Prod.fst hlex
      obtain ⟨after, rfl, -⟩ := exists_rest_of_lexFrom hfirst
      have hbytes : m.bytes.text = ':' :: byteText name := by
        rw [Lexeme.bytes, htext, byteText_cons_of_ascii (by decide)]
      have hstart : byteLength front + 1 = byteLength (front ++ [':']) := by
        rw [byteLength_append]
        rfl
      have hstop : byteLength front + m.bytes.text.length =
          byteLength (front ++ [':'] ++ name) := by
        rw [hbytes, List.length_cons, length_byteText, byteLength_append, ← hstart]
        omega
      have hall : front ++ (lexemeText [m] ++ after) = (front ++ [':']) ++ (name ++ after) := by
        rw [lexemeText_cons, htext]
        simp [lexemeText]
      refine ⟨name, ?_, hbytes⟩
      rw [hlen, hstop, hstart, hall, slice?_append]

/-! ## The tokens of a text -/

/-- Parentheses have rules of their own. -/
theorem rule_of_paren {c : Char} {next : Option Char} {kind : LexemeKind}
    (hk : kind = .openParen ∨ kind = .closeParen) (h : kind ∈ (rule r c next).kinds) :
    rule r c next = .fixed kind 0 ∧
      (kind = .openParen ∧ c = '(' ∨ kind = .closeParen ∧ c = ')') := by
  have hrow := row_rule r c next
  -- the row of the rule decides
  generalize rule r c next = x at h hrow ⊢
  cases hrow with
  | openParen hc =>
    obtain rfl := List.mem_singleton.mp h
    exact ⟨rfl, .inl ⟨rfl, hc⟩⟩
  | closeParen hc =>
    obtain rfl := List.mem_singleton.mp h
    exact ⟨rfl, .inr ⟨rfl, hc⟩⟩
  | _ => rcases hk with rfl | rfl <;> simp [Rule.kinds] at h

/-- Parentheses are the lexemes that are written so. -/
theorem Stable.paren_iff {l : Lexeme} {ls : List Lexeme} (h : Stable r (l :: ls)) :
    (l.kind = .openParen ↔ l.text = ['(']) ∧ (l.kind = .closeParen ↔ l.text = [')']) := by
  obtain ⟨c, t, htext, hl, -⟩ := stable_cons_iff.mp h
  rw [lexeme_eq_apply] at hl
  -- such a kind comes from one rule only, which takes one character
  have hparen : l.kind = .openParen ∨ l.kind = .closeParen →
      t = [] ∧ (l.kind = .openParen ∧ c = '(' ∨ l.kind = .closeParen ∧ c = ')') := by
    intro hk
    obtain ⟨hrule, hc⟩ := rule_of_paren hk (Rule.mem_kinds hl)
    rw [hrule, Rule.apply, Except.ok.injEq, Prod.mk.injEq] at hl
    exact ⟨List.length_eq_zero_iff.mp hl.2.symm, hc⟩
  -- a parenthesis has its rule whatever follows
  have hopen : ∀ next, rule r '(' next = .fixed .openParen 0 := fun next => by
    simp [rule, isSpace]
  have hclose : ∀ next, rule r ')' next = .fixed .closeParen 0 := fun next => by
    simp [rule, isSpace]
  rw [htext]
  refine ⟨⟨fun hk => ?_, fun hc => ?_⟩, fun hk => ?_, fun hc => ?_⟩
  · obtain ⟨rfl, ⟨-, rfl⟩ | ⟨hother, -⟩⟩ := hparen (.inl hk)
    · rfl
    · rw [hk] at hother
      cases hother
  · obtain ⟨rfl, -⟩ := List.cons.inj hc
    rw [hopen, Rule.apply, Except.ok.injEq, Prod.mk.injEq] at hl
    exact hl.1.symm
  · obtain ⟨rfl, ⟨hother, -⟩ | ⟨-, rfl⟩⟩ := hparen (.inr hk)
    · rw [hk] at hother
      cases hother
    · rfl
  · obtain ⟨rfl, -⟩ := List.cons.inj hc
    rw [hclose, Rule.apply, Except.ok.injEq, Prod.mk.injEq] at hl
    exact hl.1.symm

/-- What the tokens of a text account for. -/
structure Accounts (d : Dialect) (s : List Char) (found : Scan) : Prop where
  apart : found.tokens.Pairwise fun t u => t.stop ≤ u.start
  part : ∀ before t after, found.tokens = before ++ t :: after →
    t.start < t.stop ∧ t.stop ≤ byteLength s ∧ slice? s t.start t.stop = some t.text
  gap : ∀ before t after, found.tokens = before ++ t :: after →
    slice? s (lastStop before) t.start = some t.gap ∧ Blank (.ofDialect d) false t.gap
  rest : slice? s (lastStop found.tokens) (byteLength s) = some found.rest ∧
    Blank (.ofDialect d) true found.rest
  paren : ∀ t ∈ found.tokens,
    (t.kind = .openParen ↔ t.text = ['(']) ∧ (t.kind = .closeParen ↔ t.text = [')'])
  depth : ∀ before t after, found.tokens = before ++ t :: after →
    opened before = closed before + t.depth + if t.kind = .closeParen then 1 else 0
  matched : ∀ before t after, found.tokens = before ++ t :: after → t.kind = .openParen →
    ∃ inner u rest, after = inner ++ u :: rest ∧ u.kind = .closeParen ∧ u.depth = t.depth ∧
      ∀ x ∈ inner, t.depth < x.depth

/-- A scan that succeeds accounts for the text. -/
theorem accounts_of_scan {d : Dialect} {s : List Char} {found : Scan}
    (h : scan d s = .ok found) : Accounts d s found := by
  obtain ⟨ls, hstable, htext, hnest⟩ := lexemes_of_scan h
  obtain ⟨ps, tail, hls, htail, hrest, htokens⟩ := exists_pieces blank_nil hnest
  rw [List.nil_append] at hls
  subst hls
  have hall := text_of_scan h
  have hplaced : Placed 0 found.tokens :=
    placed_of_nestFrom (fun l hl => hstable.text_ne_nil_of_mem hl) hnest rfl
  have hnests : Nests 0 found.tokens 0 := nests_of_nestFrom hnest
  -- what holds where a token stands
  have hat : ∀ {before : List Token} {t : Token} {after : List Token},
      found.tokens = before ++ t :: after →
      lastStop before = byteLength (tokenText before) ∧
      t.start = byteLength (tokenText before ++ t.gap) ∧ t.text ≠ [] ∧
      s = tokenText before ++ (t.gap ++ (t.text ++ (tokenText after ++ found.rest))) := by
    intro before t after hsplit
    rw [hsplit] at hplaced hall
    obtain ⟨hbefore, hstart, hne, -⟩ := placed_append.mp hplaced
    refine ⟨hbefore.lastStop_eq, ?_, hne, ?_⟩
    · rw [hstart, byteLength_append, Nat.zero_add]
    · rw [← hall]
      simp [tokenText]
  -- and the lexemes that it stands among
  have hpiece : ∀ {before : List Token} {t : Token} {after : List Token},
      found.tokens = before ++ t :: after →
      ∃ gap ms, (∀ l ∈ gap, l.isGap = true) ∧ t.gap = lexemeText gap ∧
        Stable (.ofDialect d) (gap ++ t.lexeme :: ms) := by
    intro before t after hsplit
    obtain ⟨qs, us, rfl, -, hus⟩ := List.map_eq_append_iff.mp (htokens.symm.trans hsplit)
    obtain ⟨p, us, rfl, rfl, -⟩ := List.map_eq_cons_iff.mp hus
    rw [pieceLexemes_append, pieceLexemes_cons, List.append_assoc, List.append_assoc] at hstable
    exact ⟨p.gap, _, p.blank, p.gap_eq, hstable.right⟩
  refine ⟨hplaced.pairwise, ?_, ?_, ⟨?_, ?_⟩, ?_, ?_, ?_⟩
  · intro before t after hsplit
    obtain ⟨-, hstart, hne, hs⟩ := hat hsplit
    have hpos := byteLength_pos hne
    have hstop : t.stop = byteLength (tokenText before ++ t.gap ++ t.text) := by
      rw [Token.stop, hstart, byteLength_append (tokenText before ++ t.gap)]
    rw [← List.append_assoc] at hs
    refine ⟨by rw [Token.stop]; omega, ?_, ?_⟩
    · rw [hstop, hs, ← List.append_assoc, byteLength_append _ (tokenText after ++ _)]
      omega
    · rw [hstart, hstop, hs, slice?_append]
  · intro before t after hsplit
    obtain ⟨hlast, hstart, -, hs⟩ := hat hsplit
    obtain ⟨gap, ms, hgap, htext, hstable⟩ := hpiece hsplit
    refine ⟨?_, ?_⟩
    · rw [hlast, hstart, hs, slice?_append]
    · rw [htext]
      exact blank_of_stable hstable hgap fun h => absurd h (List.cons_ne_nil _ _)
  · rw [hplaced.lastStop_eq, ← hall]
    have hslice := slice?_append (tokenText found.tokens) found.rest []
    rwa [List.append_nil] at hslice
  · -- the gap behind the last token is all that is left, so that the end may close its comment
    have hown : lexemeText tail = found.rest := hrest
    rw [← hown]
    rw [← List.append_nil tail] at hstable
    exact blank_of_stable hstable.right htail fun _ => rfl
  · intro t ht
    obtain ⟨before, after, hsplit⟩ := List.append_of_mem ht
    obtain ⟨gap, ms, -, -, hstable⟩ := hpiece hsplit
    exact hstable.right.paren_iff
  · intro before t after hsplit
    rw [hsplit] at hnests
    obtain ⟨m, hbefore, ht⟩ := hnests.split
    -- the depth behind the tokens in front is the number of those that are open there
    have hcount := hbefore.count
    cases ht with
    | opening hk hd => rw [if_neg (by rw [hk]; decide)]; omega
    | closing hk hd => rw [if_pos hk]; omega
    | other _ hclose hd => rw [if_neg hclose]; omega
  · intro before t after hsplit hk
    rw [hsplit] at hnests
    obtain ⟨m, hbefore, ht⟩ := hnests.split
    cases ht with
    | opening _ hd h =>
      rw [hd]
      exact h.exists_closing (Nat.lt_succ_self m) (Nat.zero_le m)
    | closing hclose => rw [hk] at hclose; cases hclose
    | other hopen => exact absurd hk hopen

/-- For every text: its bytes split into the lexemes of its characters, and all that is cut
out of it on the way is there; it is scanned if no region and no parenthesis is left open
and none is closed that was not opened; and then its tokens account for it. -/
theorem scan_accounts (d : Dialect) (s : List Char) :
    lex d (byteText s) = ((lex d s).1.map Lexeme.bytes, (lex d s).2) ∧
    (∀ first others, (lex d (byteText s)).1 = first ++ others → InPlace d s first others) ∧
    ((∃ found, scan d s = .ok found) ↔
      (lex d s).2 = none ∧ ∃ os, outlineFrom 0 (lex d s).1 = some (os, 0)) ∧
    ∀ found, scan d s = .ok found → Accounts d s found := by
  refine ⟨lex_byteText d s, fun _ _ => inPlace_of_lex, ⟨?_, ?_⟩, fun _ => accounts_of_scan⟩
  · rintro ⟨found, h⟩
    obtain ⟨ls, hstable, rfl, hnest⟩ := lexemes_of_scan h
    -- a scan that succeeds has lexed all of the text
    have hlex : lex d (lexemeText ls) = (ls, none) := hstable
    rw [hlex]
    exact ⟨rfl, _, outlineFrom_of_nestFrom hnest⟩
  · rintro ⟨hend, os, hos⟩
    -- the lexemes are stable, and nothing but their outlines can fail
    obtain ⟨hstable, htext⟩ := stable_of_lexFrom (r := .ofDialect d) (s := s) (Prod.ext rfl hend)
    obtain ⟨found, hfound, -⟩ := exists_scan_of_outline hstable hos
    rw [htext] at hfound
    exact ⟨found, hfound⟩

/-- A tag of two bytes, a name that starts with two, a comment in a comment, and one that the
end of the text closes. -/
theorem scan_accounts_of_nested :
    ∃ found, scan .postgres "($é$)$é$/*/**/*/:ñ)--".toList = .ok found ∧
      Accounts .postgres "($é$)$é$/*/**/*/:ñ)--".toList found ∧
      found.tokens.map (fun t => (t.start, t.stop, t.depth)) =
        [(0, 1, 0), (1, 10, 1), (18, 21, 1), (21, 22, 0)] := by
  have hscan := (scan_accounts .postgres "($é$)$é$/*/**/*/:ñ)--".toList).2.2.2
  exact ⟨_, rfl, hscan _ rfl, by decide +kernel⟩

end SqlPaging.Sql
