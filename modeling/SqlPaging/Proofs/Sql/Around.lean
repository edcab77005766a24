import Mathlib.Data.List.Forall2
import SqlPaging.Proofs.Sql.Agree
import SqlPaging.Proofs.Sql.Clauses
import SqlPaging.Proofs.Sql.Shift
import SqlPaging.Proofs.Sql.Site

/-!
# SqlPaging — statements around a region

A literal, a comment or a parenthesised group is a region of a text. Two texts that are the
same but for such a region have the same tokens in front of it, and behind it tokens that
differ in where they stand. What is in the region starts no clause and holds no placeholder,
and none of it is outside of all parentheses but what encloses it.

Main results:

* `nestFrom_append` — the tokens of lexemes in two parts.
* `Enclosure.hidden` — the tokens of a region.
* `twin_of_parse` — two statements around a region.
-/

namespace SqlPaging.Sql

/-! ## Tokens of two parts -/

/-- Tokens are nested in two parts, the second one from where the first one stops. -/
theorem nestFrom_append {at_ depth : Nat} {gap : List Char} {ls ms : List Lexeme} {n : Nested}
    (h : nestFrom at_ depth gap (ls ++ ms) = .ok n) :
    ∃ front back, nestFrom at_ depth gap ls = .ok front ∧
      nestFrom (at_ + byteLength (lexemeText ls)) front.depth front.rest ms = .ok back ∧
      n = { back with tokens := front.tokens ++ back.tokens } := by
  induction ls generalizing at_ depth gap n with
  | nil => exact ⟨_, n, rfl, h, rfl⟩
  | cons l ls ih =>
    have hlen : at_ + byteLength (lexemeText (l :: ls)) =
        at_ + byteLength l.text + byteLength (lexemeText ls) := by
      rw [lexemeText_cons, byteLength_append, Nat.add_assoc]
    rw [List.cons_append] at h
    rw [hlen]
    -- the first lexeme goes on with the gap, makes a token, or closes what is not open
    rcases nestFrom_cons l depth with ⟨hcons, -⟩ | ⟨⟨d, e, hcons⟩, -⟩ | hcons
    · rw [hcons] at h ⊢
      exact ih h
    · rw [hcons] at h ⊢
      obtain ⟨m, hm, rfl⟩ := map_eq_ok.mp h
      obtain ⟨front, back, hfront, hback, rfl⟩ := ih hm
      exact ⟨_, back, map_eq_ok.mpr ⟨front, hfront, rfl⟩, hback, rfl⟩
    · rw [hcons] at h
      cases h

/-- A token of another place. -/
def MovedToken (a b : Nat) (t u : Token) : Prop :=
  u.outline = t.outline ∧ ∃ w, t.start = a + w ∧ u.start = b + w

/-- The same lexemes at another place, behind another gap, make tokens of another place. -/
theorem nestFrom_moved {a b z depth : Nat} {gap gap' : List Char} {ls : List Lexeme}
    {n n' : Nested} (h : nestFrom (a + z) depth gap ls = .ok n)
    (h' : nestFrom (b + z) depth gap' ls = .ok n') :
    List.Forall₂ (MovedToken a b) n.tokens n'.tokens := by
  induction ls generalizing z depth gap gap' n n' with
  | nil =>
    cases h
    cases h'
    exact .nil
  | cons l ls ih =>
    -- a gap moves on, any other lexeme is one more token, and no parenthesis fails to close
    rcases nestFrom_cons l depth with ⟨hcons, -⟩ | ⟨⟨d, e, hcons⟩, -⟩ | hcons
    · rw [hcons, Nat.add_assoc] at h h'
      exact ih h h'
    · rw [hcons, Nat.add_assoc] at h h'
      obtain ⟨m, hm, rfl⟩ := map_eq_ok.mp h
      obtain ⟨m', hm', rfl⟩ := map_eq_ok.mp h'
      exact .cons ⟨rfl, z, rfl, rfl⟩ (ih hm hm')
    · rw [hcons] at h
      cases h

/-- The lexeme of a token is among those that were nested. -/
theorem lexeme_mem_of_nestFrom {at_ depth : Nat} {ls : List Lexeme} {n : Nested}
    (h : nestFrom at_ depth [] ls = .ok n) {t : Token} (ht : t ∈ n.tokens) : t.lexeme ∈ ls := by
  obtain ⟨ps, tail, hls, -, -, htokens⟩ := 
    exists_pieces blank_nil (show nestFrom at_ depth (lexemeText []) ls = .ok n from h)
  rw [htokens] at ht
  obtain ⟨p, hp, rfl⟩ := List.mem_map.mp ht
  rw [List.nil_append] at hls
  rw [hls]
  refine List.mem_append_left _ (List.mem_flatMap.mpr ⟨p, hp, ?_⟩)
  exact List.mem_append_right _ (List.mem_singleton_self _)

/-! ## Regions -/

/-- What can be around text that is not looked at. -/
inductive Enclosure where
  /-- the quotes of a literal or of an identifier -/
  | quotes
  /-- the marks of a comment -/
  | comment
  | parentheses
deriving DecidableEq, Repr

/-- The lexemes of a region: a single one, or those from a parenthesis to the one that closes
it, without placeholders and semicolons. -/
def Enclosure.Holds : Enclosure → List Lexeme → Prop
  | .quotes, ls => ∃ t, ls = [⟨.quoted, t⟩]
  | .comment, ls => ∃ t, ls = [⟨.comment, t⟩]
  | .parentheses, ls =>
    ∃ o inner c, ls = ⟨.openParen, o⟩ :: (inner ++ [⟨.closeParen, c⟩]) ∧
      (∃ os, outlineFrom 0 inner = some (os, 0)) ∧
      ∀ l ∈ inner, l.kind ≠ .placeholder ∧ l.kind ≠ .semicolon

/-- Tokens from one byte to another one that start no clause, are no second words of a keyword,
and hide what is in front of them from what is behind them. -/
structure Hidden (at_ stop : Nat) (ts : List Token) : Prop where
  start : ∀ t ∈ ts.head?, t.start = at_ ∧ t.kind ≠ .word
  stop : ∀ t ∈ ts.getLast?, t.stop = stop ∧ t.kind ≠ .word ∧ t.kind ≠ .openParen
  silent : ∀ t ∈ ts, ∀ next, Statement.clauseAt t next = none
  plain : ∀ t ∈ ts, t.kind ≠ .placeholder ∧ t.kind ≠ .semicolon

/-- Within parentheses no clause opens, and none but at a word. -/
theorem Statement.clauseAt_eq_none {t : Token} {next : Option Token}
    (h : t.kind = .word → t.depth ≠ 0) : clauseAt t next = none := by
  cases hclause : clauseAt t next with
  | none => rfl
  | some found =>
    obtain ⟨hword, hdepth⟩ := clauseAt_eq_some hclause
    exact absurd hdepth (h hword)

/-- Lexemes whose parentheses are closed stay inside of those that are open around them. -/
theorem outlineFrom_inside {ls : List Lexeme} {os : List Outline}
    (h : outlineFrom 0 ls = some (os, 0)) (k : Nat) :
    ∃ us, outlineFrom k ls = some (us, k) ∧ ∀ u ∈ us, k ≤ u.depth := by
  induction k with
  | zero => exact ⟨os, h, fun u _ => Nat.zero_le _⟩
  | succ k ih =>
    obtain ⟨us, hus, hdepth⟩ := ih
    -- one level further in, every outline is one deeper
    refine ⟨us.map Outline.deeper, outlineFrom_deeper hus, ?_⟩
    intro u hu
    obtain ⟨v, hv, rfl⟩ := List.mem_map.mp hu
    exact Nat.succ_le_succ (hdepth v hv)

/-- The tokens of a group: its parentheses, and tokens inside of them. -/
theorem hidden_group {o c : List Char} {inner : List Lexeme} {at_ depth : Nat} {gap : List Char}
    {n : Nested} (hclosed : ∃ os, outlineFrom 0 inner = some (os, 0))
    (hplain : ∀ l ∈ inner, l.kind ≠ .placeholder ∧ l.kind ≠ .semicolon)
    (h : nestFrom at_ depth gap (⟨.openParen, o⟩ :: (inner ++ [⟨.closeParen, c⟩])) = .ok n) :
    n.depth = depth ∧ n.tokens ≠ [] ∧
      Hidden at_ (at_ + (byteLength o + byteLength (lexemeText inner) + byteLength c))
        n.tokens := by
  obtain ⟨m, hm, rfl⟩ := map_eq_ok.mp h
  obtain ⟨front, back, hfront, hback, rfl⟩ := nestFrom_append hm
  -- what is inside goes one level deeper and comes back to that level
  obtain ⟨os, hos⟩ := hclosed
  obtain ⟨us, hus, hdeep⟩ := outlineFrom_inside hos (depth + 1)
  have hout := (outlineFrom_of_nestFrom hfront).symm.trans hus
  obtain ⟨htokens, hdepth⟩ := Prod.mk.inj (Option.some.inj hout)
  rw [hdepth] at hback
  cases hback
  refine ⟨rfl, List.cons_ne_nil _ _, ?_⟩
  show Hidden at_ _ ((⟨.openParen, o, gap, at_, depth⟩ : Token) :: (front.tokens ++
    [⟨.closeParen, c, front.rest, at_ + byteLength o + byteLength (lexemeText inner), depth⟩]))
  refine ⟨?_, ?_, ?_, ?_⟩
  · intro t ht
    obtain rfl := Option.some.inj ht
    exact ⟨rfl, nofun⟩
  · intro t ht
    rw [← List.cons_append, List.getLast?_concat] at ht
    obtain rfl := Option.some.inj ht
    refine ⟨?_, nofun, nofun⟩
    show at_ + byteLength o + byteLength (lexemeText inner) + byteLength c = _
    omega
  · intro t ht next
    -- a clause starts with a word at depth zero, and the words in here are deeper
    refine Statement.clauseAt_eq_none fun hword hzero => ?_
    rcases List.mem_cons.mp ht with rfl | ht
    · cases hword
    rcases List.mem_append.mp ht with ht | ht
    · have hmem : t.outline ∈ us := htokens ▸ List.mem_map_of_mem ht
      have hle : depth + 1 ≤ t.depth := hdeep _ hmem
      omega
    · rw [List.mem_singleton.mp ht] at hword
      cases hword
  · intro t ht
    rcases List.mem_cons.mp ht with rfl | ht
    · exact ⟨nofun, nofun⟩
    rcases List.mem_append.mp ht with ht | ht
    · exact hplain _ (lexeme_mem_of_nestFrom hfront ht)
    · rw [List.mem_singleton.mp ht]
      exact ⟨nofun, nofun⟩

/-- The tokens of a region. -/
theorem Enclosure.hidden {e : Enclosure} {mid : List Lexeme} (he : e.Holds mid)
    {at_ depth : Nat} {gap : List Char} {n : Nested} (h : nestFrom at_ depth gap mid = .ok n) :
    n.depth = depth ∧ (n.tokens = [] ↔ e = .comment) ∧
      Hidden at_ (at_ + byteLength (lexemeText mid)) n.tokens := by
  cases e with
  -- one token, none and a group of them
  | quotes =>
    obtain ⟨t, rfl⟩ := he
    cases h
    refine ⟨rfl, by simp, ?_, ?_, ?_, ?_⟩
    · intro u hu
      obtain rfl := Option.some.inj hu
      exact ⟨rfl, by simp⟩
    · intro u hu
      obtain rfl := Option.some.inj hu
      refine ⟨?_, by simp, by simp⟩
      rw [lexemeText_cons, lexemeText, List.flatMap_nil, List.append_nil]
      rfl
    · intro u hu next
      rw [List.mem_singleton.mp hu]
      exact Statement.clauseAt_eq_none (by simp)
    · intro u hu
      rw [List.mem_singleton.mp hu]
      exact ⟨by simp, by simp⟩
  | comment =>
    obtain ⟨t, rfl⟩ := he
    cases h
    exact ⟨rfl, by simp, by simp, by simp, by simp, by simp⟩
  | parentheses =>
    obtain ⟨o, inner, c, rfl, hclosed, hplain⟩ := he
    obtain ⟨hdepth, hne, hhidden⟩ := hidden_group hclosed hplain h
    refine ⟨hdepth, by simp [hne], ?_⟩
    -- the group reaches from one parenthesis to the other
    have htext : byteLength (lexemeText (⟨.openParen, o⟩ :: (inner ++ [⟨.closeParen, c⟩]))) =
        byteLength o + byteLength (lexemeText inner) + byteLength c := by
      rw [lexemeText_cons, lexemeText_append, byteLength_append, byteLength_append,
        lexemeText_cons, Nat.add_assoc]
      simp [lexemeText]
    rw [htext]
    exact hhidden

/-! ## Two texts -/

/-- A text with a region, as a scan of it tells the region's lexemes. -/
structure Delimited (d : Dialect) (before region after : List Char) (mid : List Lexeme) :
    Prop where
  lexed : ∃ ls ms, lex d (before ++ region ++ after) = (ls ++ mid ++ ms, none) ∧
    lexemeText ls = before ∧ lexemeText mid = region

/-- The tokens of two texts that differ in a region: those in front of it, those in it, and
those behind it. -/
structure Around (at_ old new : Nat) (ts mid mid' us us' : List Token) : Prop where
  front : ∀ t ∈ ts, t.stop ≤ at_
  hidden : Hidden at_ (at_ + old) mid
  hidden' : Hidden at_ (at_ + new) mid'
  nil_iff : mid = [] ↔ mid' = []
  back : List.Forall₂ (MovedToken (at_ + old) (at_ + new)) us us'

/-- What stands around a delimited region is scanned by itself, and so is the region. -/
theorem Delimited.stable {d : Dialect} {before region after : List Char} {mid : List Lexeme}
    (h : Delimited d before region after mid) :
    ∃ ls ms, Stable (.ofDialect d) (ls ++ (mid ++ ms)) ∧ lexemeText ls = before ∧
      lexemeText mid = region ∧ lexemeText ms = after := by
  obtain ⟨ls, ms, hlex, hbefore, hregion⟩ := h.lexed
  obtain ⟨hstable, htext⟩ := stable_of_lexFrom hlex
  rw [List.append_assoc] at hstable
  refine ⟨ls, ms, hstable, hbefore, hregion, ?_⟩
  rw [lexemeText_append, lexemeText_append, hbefore, hregion] at htext
  exact List.append_cancel_left htext

/-- Nothing is left open around a delimited region. -/
theorem Delimited.complete {d : Dialect} {before region after : List Char} {mid : List Lexeme}
    (h : Delimited d before region after mid) : (lex d (before ++ region ++ after)).2 = none := by
  obtain ⟨ls, ms, hlex, -, -⟩ := h.lexed
  rw [hlex]

theorem Enclosure.Holds.ne_nil {e : Enclosure} {mid : List Lexeme} (he : e.Holds mid) :
    mid ≠ [] := by
  cases e with
  | quotes =>
    obtain ⟨t, rfl⟩ := he
    exact List.cons_ne_nil _ _
  | comment =>
    obtain ⟨t, rfl⟩ := he
    exact List.cons_ne_nil _ _
  | parentheses =>
    obtain ⟨o, inner, c, rfl, -⟩ := he
    exact List.cons_ne_nil _ _

/-- A region is not empty. -/
theorem Delimited.pos {d : Dialect} {before region after : List Char} {mid : List Lexeme}
    {e : Enclosure} (h : Delimited d before region after mid) (he : e.Holds mid) :
    0 < byteLength region := by
  obtain ⟨ls, ms, hstable, -, rfl, -⟩ := h.stable
  obtain ⟨l, rest, rfl⟩ := List.exists_cons_of_ne_nil he.ne_nil
  have hne : l.text ≠ [] :=
    hstable.text_ne_nil_of_mem (List.mem_append_right ls List.mem_cons_self)
  have hpos := byteLength_pos hne
  rw [lexemeText_cons, byteLength_append]
  omega

/-- The scan of stable lexemes nests them as they are. -/
theorem nestFrom_of_scan {d : Dialect} {ls : List Lexeme} {found : Scan}
    (hs : Stable (.ofDialect d) ls) (h : scan d (lexemeText ls) = .ok found) :
    nestFrom 0 0 [] ls = .ok { tokens := found.tokens, rest := found.rest, depth := 0 } := by
  obtain ⟨ms, hms, htext, hnest⟩ := lexemes_of_scan h
  rwa [hms.unique hs htext] at hnest

section

variable {d : Dialect} {before region region' after : List Char} {mid mid' : List Lexeme}
  {e : Enclosure}

/-- Texts that differ in a region have tokens that are alike around it. -/
theorem around_of_scan (he : e.Holds mid) (he' : e.Holds mid')
    (h : Delimited d before region after mid) (h' : Delimited d before region' after mid')
    {found found' : Scan} (hscan : scan d (before ++ region ++ after) = .ok found)
    (hscan' : scan d (before ++ region' ++ after) = .ok found') :
    ∃ ts m m' us us',
      Around (byteLength before) (byteLength region) (byteLength region') ts m m' us us' ∧
      found.tokens = ts ++ (m ++ us) ∧ found'.tokens = ts ++ (m' ++ us') ∧
      (m = [] ↔ e = .comment) := by
  obtain ⟨ls, ms, hstable, rfl, rfl, rfl⟩ := h.stable
  obtain ⟨ls', ms', hstable', hbefore, rfl, hafter⟩ := h'.stable
  -- the lexemes on both sides of the region are the same
  obtain rfl := hstable.agree hstable' hbefore.symm
  obtain rfl := hstable.right.right.unique hstable'.right.right hafter.symm
  rw [← lexemeText_append, ← lexemeText_append, List.append_assoc] at hscan hscan'
  obtain ⟨front, rest, hfront, hrest, heq⟩ := nestFrom_append (nestFrom_of_scan hstable hscan)
  obtain ⟨m, back, hm, hback, hrest_eq⟩ := nestFrom_append hrest
  obtain ⟨front', rest', hfront', hrest', heq'⟩ :=
    nestFrom_append (nestFrom_of_scan hstable' hscan')
  obtain ⟨m', back', hm', hback', hrest_eq'⟩ := nestFrom_append hrest'
  obtain rfl := Except.ok.inj (hfront.symm.trans hfront')
  obtain ⟨hdepth, hnil, hhidden⟩ := Enclosure.hidden he hm
  obtain ⟨hdepth', hnil', hhidden'⟩ := Enclosure.hidden he' hm'
  -- the three parts are numbered one behind the other, each from the depth in front of it
  refine ⟨front.tokens, m.tokens, m'.tokens, back.tokens, back'.tokens,
    ⟨?_, ?_, ?_, hnil.trans hnil'.symm, ?_⟩, ?_, ?_, hnil⟩
  · intro t ht
    have hplaced : Placed 0 front.tokens := placed_of_nestFrom (fun l hl =>
      hstable.text_ne_nil_of_mem (List.mem_append_left _ hl)) hfront rfl
    have hstop := (hplaced.bounds ht).2
    have htext := congrArg byteLength (nestFrom_text hfront)
    rw [byteLength_append, List.nil_append] at htext
    omega
  · rwa [Nat.zero_add] at hhidden
  · rwa [Nat.zero_add] at hhidden'
  · rw [hdepth, ← Nat.add_zero (0 + _ + _), Nat.zero_add] at hback
    rw [hdepth', ← Nat.add_zero (0 + _ + _), Nat.zero_add] at hback'
    exact nestFrom_moved hback hback'
  · rw [hrest_eq] at heq
    exact (Nested.mk.inj heq).1
  · rw [hrest_eq'] at heq'
    exact (Nested.mk.inj heq').1

end

/-! ## Two statements -/

/-- Moved tokens have the outlines that they had. -/
theorem outlines_of_moved {a b : Nat} {us us' : List Token}
    (h : List.Forall₂ (MovedToken a b) us us') :
    us'.map Token.outline = us.map Token.outline := by
  induction h with
  | nil => rfl
  | cons hone _ ih => rw [List.map_cons, List.map_cons, hone.1, ih]

/-- Semicolons are dropped at the end of moved tokens as well. -/
theorem moved_splitSemicolons {a b : Nat} {us us' : List Token}
    (h : List.Forall₂ (MovedToken a b) us us') :
    List.Forall₂ (MovedToken a b) (splitSemicolons us).1 (splitSemicolons us').1 := by
  induction h with
  | nil => exact .nil
  | @cons u u' us us' hone _ ih =>
    have hkind : u'.kind = u.kind := (Outline.mk.inj hone.1).1
    -- as many tokens are left behind as before
    have hempty : (splitSemicolons us').1.isEmpty = (splitSemicolons us).1.isEmpty := by
      rw [Bool.eq_iff_iff, List.isEmpty_iff_length_eq_zero, List.isEmpty_iff_length_eq_zero,
        ih.length_eq]
    simp only [splitSemicolons, hkind, hempty]
    split
    · exact .nil
    · exact .cons hone ih

namespace Around

variable {at_ old new : Nat} {ts mid mid' us us' : List Token}

/-- Semicolons are dropped in both texts alike. -/
theorem split (h : Around at_ old new ts mid mid' us us') :
    ∃ ts₀ us₀ us₀', Around at_ old new ts₀ mid mid' us₀ us₀' ∧
      (splitSemicolons (ts ++ (mid ++ us))).1 = ts₀ ++ (mid ++ us₀) ∧
      (splitSemicolons (ts ++ (mid' ++ us'))).1 = ts₀ ++ (mid' ++ us₀') := by
  -- a region of tokens is kept whole, as there is no semicolon in it
  have hregion : ∀ {stop : Nat} {m vs : List Token}, Hidden at_ stop m →
      (splitSemicolons (ts ++ (m ++ vs))).1 =
        if m = [] ∧ (splitSemicolons vs).1 = [] then (splitSemicolons ts).1
        else ts ++ (m ++ (splitSemicolons vs).1) := by
    intro stop m vs hm
    have hkept : (splitSemicolons (m ++ vs)).1 = m ++ (splitSemicolons vs).1 := by
      rw [splitSemicolons_fst_append, splitSemicolons_of_none fun t ht => (hm.plain t ht).2]
      split
      · next hnil => rw [hnil, List.append_nil]
      · rfl
    rw [splitSemicolons_fst_append, hkept]
    simp only [List.append_eq_nil_iff]
  have hback := moved_splitSemicolons h.back
  have hempty : (splitSemicolons us').1 = [] ↔ (splitSemicolons us).1 = [] := by
    rw [← List.length_eq_zero_iff, ← List.length_eq_zero_iff, hback.length_eq]
  have hfront : ∀ t ∈ (splitSemicolons ts).1, t.stop ≤ at_ := by
    intro t ht
    refine h.front t ?_
    rw [← (splitSemicolons_append ts).1]
    exact List.mem_append_left _ ht
  -- semicolons in front are dropped too if nothing but semicolons stands behind them
  by_cases hnone : mid = [] ∧ (splitSemicolons us).1 = []
  · have hnone' : mid' = [] ∧ (splitSemicolons us').1 = [] :=
      ⟨h.nil_iff.mp hnone.1, hempty.mpr hnone.2⟩
    refine ⟨(splitSemicolons ts).1, [], [], ⟨hfront, h.hidden, h.hidden', h.nil_iff, .nil⟩, ?_, ?_⟩
    · rw [hregion h.hidden, if_pos hnone, hnone.1, List.append_nil, List.append_nil]
    · rw [hregion h.hidden', if_pos hnone', hnone'.1, List.append_nil, List.append_nil]
  · have hnone' : ¬ (mid' = [] ∧ (splitSemicolons us').1 = []) := by
      rwa [← h.nil_iff, hempty]
    refine ⟨ts, _, _, ⟨h.front, h.hidden, h.hidden', h.nil_iff, hback⟩, ?_, ?_⟩
    · rw [hregion h.hidden, if_neg hnone]
    · rw [hregion h.hidden', if_neg hnone']

/-- Both texts have a semicolon, or none has one. -/
theorem semicolon (h : Around at_ old new ts mid mid' us us') :
    (ts ++ (mid ++ us)).any (fun t => decide (t.kind = .semicolon)) =
      (ts ++ (mid' ++ us')).any (fun t => decide (t.kind = .semicolon)) := by
  -- there is none in the region, and behind it there are the same tokens
  have hregion : ∀ {stop : Nat} {m : List Token}, Hidden at_ stop m →
      m.any (fun t => decide (t.kind = .semicolon)) = false := by
    intro stop m hm
    rw [List.any_eq_false]
    intro t ht
    simpa using (hm.plain t ht).2
  have hback : us'.any (fun t => decide (t.kind = .semicolon)) =
      us.any (fun t => decide (t.kind = .semicolon)) := by
    have houtlines := congrArg (List.any · fun o => decide (o.kind = .semicolon))
      (outlines_of_moved h.back)
    rwa [List.any_map, List.any_map] at houtlines
  rw [List.any_append, List.any_append, List.any_append, List.any_append, hregion h.hidden,
    hregion h.hidden', hback]

/-- Another region does not make a list of tokens empty, or stop it from being so. -/
theorem empty_iff (h : Around at_ old new ts mid mid' us us') :
    ts ++ (mid ++ us) = [] ↔ ts ++ (mid' ++ us') = [] := by
  have hback : us = [] ↔ us' = [] := by
    rw [← List.length_eq_zero_iff, ← List.length_eq_zero_iff, h.back.length_eq]
  simp only [List.append_eq_nil_iff, h.nil_iff, hback]

end Around

/-- Statements of two texts that differ in a region. -/
structure Statement.Twin (at_ old new : Nat) (ts mid mid' us us' : List Token) (s s' : Statement) :
    Prop extends Around at_ old new ts mid mid' us us' where
  tokens : s.tokens = ts ++ (mid ++ us)
  tokens' : s'.tokens = ts ++ (mid' ++ us')
  nonempty : s.tokens ≠ []

/-- Texts that differ in a region are both statements, or none is. -/
theorem twin_of_parse {d : Dialect} {text text' : List Char} {at_ old new : Nat}
    {ts mid mid' us us' : List Token} {found found' : Scan}
    (h : Around at_ old new ts mid mid' us us') (hscan : scan d text = .ok found)
    (hscan' : scan d text' = .ok found') (htokens : found.tokens = ts ++ (mid ++ us))
    (htokens' : found'.tokens = ts ++ (mid' ++ us')) :
    Alike (fun _ _ => True) (fun s s' => ∃ ts us us',
        Statement.Twin at_ old new ts mid mid' us us' s s')
      (Statement.parse d text) (Statement.parse d text') := by
  obtain ⟨ts₀, us₀, us₀', haround, hbody, hbody'⟩ := h.split
  rw [← htokens] at hbody
  rw [← htokens'] at hbody'
  have hsemicolon := haround.semicolon
  have hempty := haround.empty_iff
  rw [← hbody, ← hbody'] at hsemicolon hempty
  -- parsing asks whether the body is empty and whether there is a semicolon in it
  simp only [Statement.parse, hscan, hscan', bind, Except.bind, List.isEmpty_iff, ← hempty]
  split
  · exact .error trivial
  · next hne =>
    -- a semicolon is found in both or in neither
    have hfind : ((splitSemicolons found.tokens).1.find? (·.kind = .semicolon)).isSome =
        ((splitSemicolons found'.tokens).1.find? (·.kind = .semicolon)).isSome := by
      rw [List.isSome_find?, List.isSome_find?, hsemicolon]
    cases hone : (splitSemicolons found.tokens).1.find? (·.kind = .semicolon) with
    | some t =>
      cases hother : (splitSemicolons found'.tokens).1.find? (·.kind = .semicolon) with
      | some t' => exact .error trivial
      | none =>
        rw [hone, hother] at hfind
        cases hfind
    | none =>
      cases hother : (splitSemicolons found'.tokens).1.find? (·.kind = .semicolon) with
      | some t' =>
        rw [hone, hother] at hfind
        cases hfind
      | none => exact .ok ⟨ts₀, us₀, us₀', ⟨haround, hbody, hbody', hne⟩⟩

end SqlPaging.Sql
