import SqlPaging.Proofs.Sql.Fused
import SqlPaging.Proofs.Sql.Prints

/-!
# SqlPaging — lexemes with others put between them

What is put into a statement stands between its tokens, behind a space or a parenthesis, so
that it joins nothing in front of it. Lexemes are *woven* if they are read back, if text can be
put behind them, if their parentheses are closed, and if no word that stands for a placeholder
would join a neighbour. This is kept when lexemes are put between others, and when some are put
in parentheses.

Of woven lexemes with collections expanded, a scan finds the placeholders that were meant: those
of the lexemes, with the elements of each collection in its place.

Main results:

* `Woven.replace`, `Woven.wrap` — putting lexemes between others and around them.
* `Woven.exists_scan` — the placeholders that a scan finds.
* `Pieces.woven` — the lexemes of a statement.
-/

namespace SqlPaging.Sql

variable {r : LexicalRules} {x : Fields (List String)}

/-! ## Levels -/

/-- The number of parentheses that are open behind lexemes. -/
def levelFrom (depth : Nat) (ls : List Lexeme) : Option Nat := (outlineFrom depth ls).map (·.2)

/-- Lexemes have a level just if they have outlines. -/
theorem levelFrom_eq_some {depth e : Nat} {ls : List Lexeme} :
    levelFrom depth ls = some e ↔ ∃ os, outlineFrom depth ls = some (os, e) := by
  rw [levelFrom, Option.map_eq_some_iff]
  constructor
  · rintro ⟨⟨os, e'⟩, h, rfl⟩
    exact ⟨os, h⟩
  · rintro ⟨os, h⟩
    exact ⟨(os, e), h, rfl⟩

/-- The level of two parts is that of the second one, from where the first one stops. -/
theorem levelFrom_append_eq_some {depth e : Nat} {ls ms : List Lexeme} :
    levelFrom depth (ls ++ ms) = some e ↔
      ∃ d, levelFrom depth ls = some d ∧ levelFrom d ms = some e := by
  simp only [levelFrom_eq_some, outlineFrom_append_eq_some]
  constructor
  · rintro ⟨os, first, d, rest, hls, hms, -⟩
    exact ⟨d, ⟨first, hls⟩, rest, hms⟩
  · rintro ⟨d, ⟨first, hls⟩, rest, hms⟩
    exact ⟨_, first, d, rest, hls, hms, rfl⟩

theorem levelFrom_cons_eq_some {depth e : Nat} {l : Lexeme} {ls : List Lexeme} :
    levelFrom depth (l :: ls) = some e ↔
      ∃ os d, l.outline depth = some (os, d) ∧ levelFrom d ls = some e := by
  simp only [levelFrom_eq_some, outlineFrom_cons_eq_some]
  constructor
  · rintro ⟨os, first, d, rest, hl, hls, -⟩
    exact ⟨first, d, hl, rest, hls⟩
  · rintro ⟨first, d, hl, rest, hls⟩
    exact ⟨_, first, d, rest, hl, hls, rfl⟩

/-- Parentheses that are open in front stay open behind. -/
theorem levelFrom_deeper {depth e : Nat} {ls : List Lexeme} (h : levelFrom depth ls = some e) :
    levelFrom (depth + 1) ls = some (e + 1) := by
  obtain ⟨os, hos⟩ := levelFrom_eq_some.mp h
  exact levelFrom_eq_some.mpr ⟨_, outlineFrom_deeper hos⟩

/-- Lexemes that close what they open do so anywhere. -/
theorem levelFrom_lift {ls : List Lexeme} (h : levelFrom 0 ls = some 0) (depth : Nat) :
    levelFrom depth ls = some depth := by
  induction depth with
  | zero => exact h
  | succ depth ih => exact levelFrom_deeper ih

/-- A test that all parentheses pass. -/
def SeesParens (p : Lexeme → Bool) : Prop :=
  ∀ l : Lexeme, p l = false → l.kind ≠ .openParen ∧ l.kind ≠ .closeParen

theorem seesParens_matters : SeesParens Lexeme.matters := by
  intro l h
  simp only [Lexeme.matters, Bool.or_eq_false_iff, decide_eq_false_iff_not] at h
  exact ⟨h.1.2, h.2⟩

/-- Only parentheses change a level. -/
theorem exists_outline_of_not_paren {l : Lexeme} (hopen : l.kind ≠ .openParen)
    (hclose : l.kind ≠ .closeParen) (depth : Nat) : ∃ os, l.outline depth = some (os, depth) := by
  unfold Lexeme.outline
  cases hk : l.kind <;> simp_all

/-- Lexemes that are no parentheses do not change the level. -/
theorem levelFrom_filter {p : Lexeme → Bool} (hp : SeesParens p) {depth e : Nat}
    {ls : List Lexeme} : levelFrom depth (ls.filter p) = some e ↔ levelFrom depth ls = some e := by
  induction ls generalizing depth with
  | nil => rfl
  | cons l ls ih =>
    rw [List.filter_cons, levelFrom_cons_eq_some]
    cases hl : p l with
    | true =>
      rw [if_pos rfl, levelFrom_cons_eq_some]
      simp only [ih]
    | false =>
      -- what is left out is no parenthesis, so it changes no depth
      obtain ⟨hopen, hclose⟩ := hp l hl
      obtain ⟨os, hos⟩ := exists_outline_of_not_paren hopen hclose depth
      rw [if_neg (by decide), ih, hos]
      constructor
      · exact fun h => ⟨os, depth, rfl, h⟩
      · rintro ⟨os', d, hsame, h⟩
        cases hsame
        exact h

/-! ## Placeholders -/

/-- The name that a lexeme asks for. -/
def Lexeme.placeholder? (l : Lexeme) : Option String :=
  if l.kind = .placeholder then some (String.ofList (l.text.drop 1)) else none

theorem Lexeme.placeholder?_of_isGap {l : Lexeme} (h : l.isGap = true) :
    l.placeholder? = none := by
  rcases isGap_iff.mp h with hk | hk <;> simp [placeholder?, hk]

theorem Lexeme.names?_eq (l : Lexeme) : l.names? x = l.placeholder?.bind x.get? := by
  rw [names?, placeholder?]
  split <;> rfl

/-- The names that lexemes ask for. -/
def lexemeNames (ls : List Lexeme) : List String := ls.filterMap Lexeme.placeholder?

theorem lexemeNames_cons (l : Lexeme) (ls : List Lexeme) :
    lexemeNames (l :: ls) = l.placeholder?.toList ++ lexemeNames ls := by
  rw [lexemeNames, List.filterMap_cons]
  cases l.placeholder? <;> rfl

theorem lexemeNames_append (ls ms : List Lexeme) :
    lexemeNames (ls ++ ms) = lexemeNames ls ++ lexemeNames ms := List.filterMap_append

theorem lexemeNames_filter (ls : List Lexeme) :
    lexemeNames (ls.filter Lexeme.matters) = lexemeNames ls := by
  rw [lexemeNames, List.filterMap_filter, lexemeNames]
  congr 1
  funext l
  cases hl : l.matters with
  | true => rfl
  | false =>
    have hk : l.kind ≠ .placeholder := by
      intro hk
      simp [Lexeme.matters, hk] at hl
    simp [Lexeme.placeholder?, hk]

/-- The names that outlines ask for. -/
def outlineNames (os : List Outline) : List String :=
  os.filterMap fun o => Lexeme.placeholder? ⟨o.kind, o.text⟩

theorem outlineNames_map (ts : List Token) :
    outlineNames (ts.map Token.outline) = ts.filterMap (·.placeholder?) := by
  rw [outlineNames, List.filterMap_map]
  rfl

theorem outlineNames_of_outlineFrom {depth e : Nat} {ls : List Lexeme} {os : List Outline}
    (h : outlineFrom depth ls = some (os, e)) : outlineNames os = lexemeNames ls := by
  -- a gap has no outline and no name; any other lexeme has one outline, of its own kind and text
  have hone : ∀ {l : Lexeme} {depth d : Nat} {first : List Outline},
      l.outline depth = some (first, d) → outlineNames first = l.placeholder?.toList := by
    intro l depth d first hl
    cases hgap : l.isGap with
    | true =>
      have hown : ∀ k ∈ [l], k.isGap = true := by simp [hgap]
      have hblank := outlineFrom_blank hown depth
      obtain ⟨own, d', rest, hown, hrest, heq⟩ := outlineFrom_cons_eq_some.mp hblank
      rw [hl] at hown
      cases hown
      obtain ⟨rfl, rfl⟩ := List.append_eq_nil_iff.mp heq.symm
      rw [Lexeme.placeholder?_of_isGap hgap]
      rfl
    | false =>
      obtain ⟨o, rfl⟩ := List.length_eq_one_iff.mp (length_outline_of_solid hgap hl)
      obtain ⟨hk, ht⟩ := outline_eq_some hl o List.mem_cons_self
      -- the outline tells the name of its lexeme
      have hsame : Lexeme.placeholder? ⟨o.kind, o.text⟩ = l.placeholder? := by rw [hk, ht]
      rw [outlineNames, List.filterMap_cons, hsame]
      cases l.placeholder? <;> rfl
  induction ls generalizing depth os with
  | nil =>
    cases h
    rfl
  | cons l ls ih =>
    obtain ⟨first, d, rest, hl, hrest, rfl⟩ := outlineFrom_cons_eq_some.mp h
    have hrest := ih hrest
    rw [outlineNames, List.filterMap_append]
    show outlineNames first ++ outlineNames rest = lexemeNames (l :: ls)
    rw [hone hl, hrest, lexemeNames_cons]

/-- The names that stand for a name. -/
def namesFor (x : Fields (List String)) (name : String) : List String := (x.get? name).getD [name]

theorem lexemeNames_slotLexemes (names : List String) :
    lexemeNames (slotLexemes names) = names := by
  have hslot : ∀ n : String, Lexeme.placeholder? ⟨.placeholder, ':' :: n.toList⟩ = some n := by
    intro n
    simp [Lexeme.placeholder?]
  fun_induction slotLexemes names with
  | case1 => rfl
  | case2 n => rw [lexemeNames, List.filterMap_cons, hslot]; rfl
  | case3 n ns hmore ih =>
    rw [lexemeNames, List.filterMap_cons, hslot]
    exact congrArg (n :: ·) ih

/-- With collections expanded, each name becomes those that stand for it. -/
theorem lexemeNames_expanded (ls : List Lexeme) :
    lexemeNames (ls.flatMap (Lexeme.expanded x)) = (lexemeNames ls).flatMap (namesFor x) := by
  induction ls with
  | nil => rfl
  | cons l ls ih =>
    -- a placeholder without an entry keeps its own name, and one with an empty list has none left
    have hone : lexemeNames (l.expanded x) = l.placeholder?.toList.flatMap (namesFor x) := by
      have hnames := l.names?_eq (x := x)
      cases hl : l.placeholder? with
      | none =>
        rw [hl, Option.bind_none] at hnames
        rw [Lexeme.expanded_of_none hnames, lexemeNames, List.filterMap_cons, hl]
        rfl
      | some name =>
        rw [hl, Option.bind_some] at hnames
        rw [Option.toList_some, List.flatMap_singleton, namesFor, ← hnames]
        -- no entry, an empty list, or some names
        cases hx : l.names? x with
        | none =>
          rw [Lexeme.expanded_of_none hx, lexemeNames, List.filterMap_cons, hl]
          rfl
        | some names =>
          by_cases hne : names = []
          · subst hne
            rw [Lexeme.expanded_of_null hx]
            rfl
          · rw [Lexeme.expanded_of_some hx hne, lexemeNames_slotLexemes]
            rfl
    rw [List.flatMap_cons, lexemeNames_append, ih, hone, lexemeNames_cons, List.flatMap_append]

/-! ## Lexemes that others are put between -/

/-- Separated text can be put behind lexemes. -/
def Apart (r : LexicalRules) (ls : List Lexeme) : Prop :=
  ∀ ms, Stable r ms → Separated (lexemeText ms) → Stable r (ls ++ ms)

namespace Apart

variable {front back ls : List Lexeme}

theorem stable (h : Apart r ls) : Stable r ls := by
  have hnil := h [] stable_nil separated_nil
  rwa [List.append_nil] at hnil

/-- The last lexemes of what is kept apart are kept apart. -/
theorem right (h : Apart r (front ++ back)) : Apart r back := by
  intro ms hms hsep
  have hall := h ms hms hsep
  rw [List.append_assoc] at hall
  exact hall.right

/-- Other lexemes behind some of them. -/
theorem cut (h : Apart r (front ++ back)) (hls : Stable r ls) (hsep : Separated (lexemeText ls)) :
    Stable r (front ++ ls) := by
  by_cases hback : back = []
  · subst hback
    rw [List.append_nil] at h
    exact h ls hls hsep
  · exact h.stable.cut hls hsep fun hnil => absurd hnil hback

end Apart

/-- A space or a parenthesis. -/
def Lexeme.IsMark (l : Lexeme) : Prop := l = space ∨ l = openParen ∨ l = closeParen

/-- A mark is separated from what is in front of it. -/
theorem Lexeme.IsMark.separated {l : Lexeme} (h : l.IsMark) (ls : List Lexeme) :
    Separated (lexemeText (l :: ls)) := by
  rcases h with rfl | rfl | rfl
  all_goals exact separated_cons (by decide) _

theorem Lexeme.IsMark.names? {l : Lexeme} (h : l.IsMark) : l.names? x = none := by
  rcases h with rfl | rfl | rfl
  all_goals rfl

theorem Lexeme.names?_of_isGap {l : Lexeme} (h : l.isGap = true) : l.names? x = none := by
  rw [names?_eq, placeholder?_of_isGap h, Option.bind_none]

namespace Clear

variable {l m : Lexeme}

instance : Decidable (Clear r x l m) :=
  decidable_of_iff
    ((m.names? x = some [] → l.kind = .placeholder → l.names? x = some []) ∧
      (m.names? x = some [] → r.dollarQuotes = true → l.kind ≠ .number) ∧
      (l.names? x = some [] → r.dollarQuotes = true → m.text.head? ≠ some '$'))
    ⟨fun ⟨hplaceholder, hnumber, hdollar⟩ => ⟨hplaceholder, hnumber, hdollar⟩,
      fun h => ⟨h.placeholder, h.number, h.dollar⟩⟩

theorem not_null (h : l.names? x = none) : l.names? x ≠ some [] := by
  rw [h]
  exact nofun

/-- Lexemes for which no words stand. -/
theorem of_silent (hl : l.names? x = none) (hm : m.names? x = none) : Clear r x l m :=
  ⟨fun hnull => absurd hnull (not_null hm), fun hnull => absurd hnull (not_null hm),
    fun hnull => absurd hnull (not_null hl)⟩

/-- Every lexeme is clear of a mark behind it. -/
theorem before_mark (l : Lexeme) (hm : m.IsMark) : Clear r x l m := by
  refine ⟨fun hnull => absurd hnull (not_null hm.names?),
    fun hnull => absurd hnull (not_null hm.names?), fun _ _ => ?_⟩
  rcases hm with rfl | rfl | rfl
  all_goals decide

/-- Every lexeme is clear of a mark in front of it. -/
theorem behind_mark (hl : l.IsMark) (m : Lexeme) : Clear r x l m := by
  refine ⟨fun _ hkind => ?_, fun _ _ => ?_, fun hnull => absurd hnull (not_null hl.names?)⟩
  · rcases hl with rfl | rfl | rfl
    all_goals cases hkind
  · rcases hl with rfl | rfl | rfl
    all_goals decide

theorem before_gap {ls : List Lexeme} (l : Lexeme) (hm : m.isGap = true)
    (h : Stable r (m :: ls)) : Clear r x l m := by
  have hsilent : m.names? x = none := Lexeme.names?_of_isGap hm
  refine ⟨fun hnull => absurd hnull (not_null hsilent),
    fun hnull => absurd hnull (not_null hsilent), fun _ _ hdollar => ?_⟩
  obtain ⟨c, t, htext, hl, -⟩ := stable_cons_iff.mp h
  rw [htext] at hdollar
  obtain rfl : c = '$' := Option.some.inj hdollar
  rw [lexeme_eq_apply] at hl
  -- no gap starts with a dollar sign
  have hstart := start_of_gap (Lexeme.isGap_iff.mp hm) (Rule.mem_kinds hl)
  revert hstart
  decide

/-- Every lexeme is clear of a gap in front of it. -/
theorem behind_gap (hl : l.isGap = true) (m : Lexeme) : Clear r x l m := by
  have hkind : l.kind ≠ .placeholder ∧ l.kind ≠ .number := by
    rcases Lexeme.isGap_iff.mp hl with hk | hk <;> simp [hk]
  exact ⟨fun _ hk => absurd hk hkind.1, fun _ _ => hkind.2,
    fun hnull => absurd hnull (not_null (Lexeme.names?_of_isGap hl))⟩

/-- Only the names for which lexemes stand matter. -/
theorem congr {y : Fields (List String)} (hl : l.names? y = l.names? x)
    (hm : m.names? y = m.names? x) (h : Clear r x l m) : Clear r y l m :=
  ⟨by rw [hl, hm]; exact h.placeholder, by rw [hm]; exact h.number, by rw [hl]; exact h.dollar⟩

/-- Lexemes without names are clear of each other. -/
theorem isChain_of_silent {ls : List Lexeme} (h : ∀ l ∈ ls, l.names? x = none) :
    ls.IsChain (Clear r x) :=
  (List.pairwise_of_forall_mem_list fun l hl m hm => of_silent (h l hl) (h m hm)).isChain

end Clear

/-- Lexemes that are read back, with closed parentheses, where no word that stands for one of
them joins another. -/
structure Woven (r : LexicalRules) (x : Fields (List String)) (ls : List Lexeme) : Prop where
  apart : Apart r ls
  closed : levelFrom 0 ls = some 0
  clear : ls.IsChain (Clear r x)

/-- Lexemes that may stand behind any others, where some stood that open and close as much. -/
structure Replaces (r : LexicalRules) (x : Fields (List String)) (back ls : List Lexeme) :
    Prop where
  apart : Apart r ls
  mark : ∀ m ∈ ls.head?, m.IsMark
  closed : ∀ depth e, levelFrom depth back = some e → levelFrom depth ls = some e
  clear : ls.IsChain (Clear r x)

namespace Woven

variable {front mid back ls : List Lexeme}

/-- The lexemes behind a cut may be replaced by others that weave. -/
theorem replace (h : Woven r x (front ++ back)) (hls : Replaces r x back ls) :
    Woven r x (front ++ ls) := by
  -- what is put in starts with a mark, so nothing in front of it can take it in
  have hsep : ∀ ms, Separated (lexemeText ms) → Separated (lexemeText (ls ++ ms)) := by
    intro ms hms
    cases ls with
    | nil => exact hms
    | cons m ls => exact (hls.mark m rfl).separated _
  refine ⟨?_, ?_, ?_⟩
  · intro ms hms hms'
    rw [List.append_assoc]
    exact h.apart.cut (hls.apart ms hms hms') (hsep ms hms')
  · obtain ⟨d, hfront, hback⟩ := levelFrom_append_eq_some.mp h.closed
    exact levelFrom_append_eq_some.mpr ⟨d, hfront, hls.closed d 0 hback⟩
  · refine (List.isChain_append.mp h.clear).1.append hls.clear fun l _ m hm => ?_
    exact Clear.before_mark l (hls.mark m hm)

/-- Parentheses around lexemes. -/
theorem wrap (h : Woven r x (front ++ (mid ++ back))) :
    Woven r x (front ++ openParen :: (mid ++ closeParen :: back)) := by
  have hopen : openParen.IsMark := .inr (.inl rfl)
  have hclose : closeParen.IsMark := .inr (.inr rfl)
  obtain ⟨hfront, hrest, -⟩ := List.isChain_append.mp h.clear
  obtain ⟨hmid, hback, -⟩ := List.isChain_append.mp hrest
  refine h.replace ⟨?_, ?_, ?_, ?_⟩
  · intro ms hms hsep
    -- from the end to the front: the closing parenthesis, what is inside, and the opening one
    have hend := (h.apart.right.right ms hms hsep).closeParen
    have hinner := h.apart.right.cut hend (hclose.separated _)
    rw [List.cons_append, List.append_assoc]
    exact hinner.openParen
  · intro m hm
    rw [← Option.some.inj hm]
    exact hopen
  · intro depth e hlevel
    obtain ⟨d, hd, he⟩ := levelFrom_append_eq_some.mp hlevel
    -- what is inside is one level deeper, and comes back to where it was
    refine levelFrom_cons_eq_some.mpr ⟨_, depth + 1, rfl, ?_⟩
    refine levelFrom_append_eq_some.mpr ⟨d + 1, levelFrom_deeper hd, ?_⟩
    exact levelFrom_cons_eq_some.mpr ⟨_, d, rfl, he⟩
  · refine List.isChain_cons.mpr ⟨fun m _ => Clear.behind_mark hopen m, ?_⟩
    refine hmid.append (List.isChain_cons.mpr ⟨fun m _ => Clear.behind_mark hclose m, hback⟩) ?_
    intro l _ m hm
    rw [← Option.some.inj hm]
    exact Clear.before_mark l hclose

/-- What a scan finds when collections are expanded. -/
theorem exists_scan {d : Dialect} (hx : Expands x) (h : Woven (.ofDialect d) x ls) :
    ∃ found, scan d (lexemeText (ls.flatMap (Lexeme.expanded x))) = .ok found ∧
      found.tokens.filterMap (·.placeholder?) = (lexemeNames ls).flatMap (namesFor x) := by
  obtain ⟨ms, hms, htext, hmatter⟩ := reads_expanded skipsRuns_matters hx h.apart.stable
    (h.clear.imp fun _ _ => Clear.fits)
    (h.clear.imp fun _ _ hclear hnull hkind => .inl (hclear.placeholder hnull hkind))
  -- the depths and the names are those of the lexemes that matter
  obtain ⟨os, hos⟩ := levelFrom_eq_some.mp h.closed
  have hexpanded := levelFrom_eq_some.mpr ⟨_, outlineFrom_expanded x hos⟩
  rw [← levelFrom_filter seesParens_matters, ← hmatter,
    levelFrom_filter seesParens_matters] at hexpanded
  obtain ⟨us, hus⟩ := levelFrom_eq_some.mp hexpanded
  obtain ⟨found, hscan, htokens⟩ := exists_scan_of_outline hms hus
  refine ⟨found, by rwa [htext] at hscan, ?_⟩
  rw [← outlineNames_map, htokens, outlineNames_of_outlineFrom hus, ← lexemeNames_filter, hmatter,
    lexemeNames_filter, lexemeNames_expanded]

end Woven

/-! ## What is put behind a token -/

/-- Lexemes that are put behind a token, in front of text whose first character passes a test:
they start with a space, close what they open, and no collection is expanded in them. -/
structure Puts (r : LexicalRules) (x : Fields (List String)) (stops : Char → Bool)
    (ls : List Lexeme) : Prop where
  mark : ls.head? = some space
  closed : levelFrom 0 ls = some 0
  silent : ∀ l ∈ ls, l.names? x = none
  stable : ∀ ms, Stable r ms → (∀ c ∈ (lexemeText ms).head?, stops c = true) → Stable r (ls ++ ms)

/-- A text that prints tokens is put behind a token, if it asks for no collection. -/
theorem Prints.exists_puts {stops : Char → Bool} {s : List Char} {os : List Outline}
    (h : Prints r stops s os) (hsilent : ∀ name ∈ outlineNames os, x.get? name = none) :
    ∃ ls, lexemeText ls = ' ' :: s ∧ lexemeNames ls = outlineNames os ∧ Puts r x stops ls := by
  obtain ⟨ls, rfl, hos, hstable⟩ := h
  have hnames := outlineNames_of_outlineFrom hos
  refine ⟨space :: ls, rfl, hnames.symm, rfl, ?_, ?_, ?_⟩
  · exact levelFrom_eq_some.mpr ⟨os, outlineFrom_space hos⟩
  · intro l hl
    rcases List.mem_cons.mp hl with rfl | hl
    · rfl
    · rw [l.names?_eq]
      -- what is put in has no names but those of its outlines
      cases hp : l.placeholder? with
      | none => rfl
      | some name =>
        refine hsilent name ?_
        rw [hnames]
        exact List.mem_filterMap.mpr ⟨l, hl, hp⟩
  · exact fun ms hms hstops => (hstable ms hms hstops).space

theorem Puts.expanded {stops : Char → Bool} {ls : List Lexeme} (h : Puts r x stops ls) :
    ls.flatMap (Lexeme.expanded x) = ls :=
  flatMap_eq_self fun l hl => Lexeme.expanded_of_none (h.silent l hl)

/-- Lexemes behind which others do not go on with a number: all their characters do so, and they
do not matter. -/
structure Runs (run back : List Lexeme) : Prop where
  plain : ∀ l ∈ run, l.matters = false
  number : ∀ c ∈ lexemeText run, isNumberChar c = true
  stops : ∀ c ∈ (lexemeText back).head?, isNumberChar c = false
  heads : ∀ m ∈ back.head?, m.isGap = true ∨ m.IsMark

namespace Runs

variable {run back : List Lexeme} {n : List Char}

/-- What follows a run has no name at its start. -/
theorem names? (h : Runs run back) : ∀ m ∈ back.head?, m.names? x = none := by
  intro m hm
  rcases h.heads m hm with hgap | hmark
  · exact Lexeme.names?_of_isGap hgap
  · exact hmark.names?

/-- Digits in front of such lexemes are a number with them. -/
theorem stable_number (h : Runs run back) (hback : Apart r back) (hne : n ≠ [])
    (hn : ∀ c ∈ n, c.isDigit = true) {ms : List Lexeme} (hms : Stable r ms)
    (hsep : Separated (lexemeText ms)) :
    Stable r (⟨.number, n ++ lexemeText run⟩ :: (back ++ ms)) := by
  obtain ⟨c, t, rfl⟩ := List.exists_cons_of_ne_nil hne
  refine stable_number_iff.mpr ⟨hn c List.mem_cons_self, ?_, ?_, hback ms hms hsep⟩
  · intro y hy
    rcases List.mem_append.mp hy with hy | hy
    · rw [isNumberChar, Char.isAlphanum, hn y hy, Bool.or_true, Bool.true_or]
    · exact h.number y hy
  · -- the number ends where the run does
    have hstops := h.stops
    cases back with
    | nil => exact hsep.head (by decide) (by decide) (by decide)
    | cons m back =>
      obtain ⟨y, u, hu, -, -⟩ := stable_cons_iff.mp hback.stable
      rw [List.cons_append, lexemeText_cons, hu]
      rw [lexemeText_cons, hu] at hstops
      exact hstops

end Runs

namespace Woven

variable {front mid back ls : List Lexeme} {stops : Char → Bool}

/-- Putting lexemes in front of others with which they do not go on. -/
theorem put (h : Woven r x (front ++ back)) (hls : Puts r x stops ls)
    (hsep : ∀ c, isSeparator c = true → stops c = true)
    (hstops : ∀ c ∈ (lexemeText back).head?, stops c = true)
    (hback : ∀ m ∈ back.head?, m.names? x = none) : Woven r x (front ++ (ls ++ back)) := by
  refine h.replace ⟨?_, ?_, ?_, ?_⟩
  · intro ms hms hms'
    rw [List.append_assoc]
    refine hls.stable _ (h.apart.right ms hms hms') ?_
    -- at the end a separator may follow
    cases back with
    | nil => exact fun c hc => hsep c (hms' c hc)
    | cons m back =>
      obtain ⟨c, t, htext, -, -⟩ := stable_cons_iff.mp h.apart.right.stable
      rw [List.cons_append, lexemeText_cons, htext]
      rw [lexemeText_cons, htext] at hstops
      exact hstops
  · intro m hm
    rw [List.head?_append, hls.mark] at hm
    exact .inl (Option.some.inj hm).symm
  · intro depth e hlevel
    exact levelFrom_append_eq_some.mpr ⟨depth, levelFrom_lift hls.closed depth, hlevel⟩
  · -- what is put in has no names, and what follows it has none at its start
    refine (Clear.isChain_of_silent hls.silent).append (List.isChain_append.mp h.clear).2.1 ?_
    exact fun l hl m hm => Clear.of_silent (hls.silent l (List.mem_of_getLast? hl)) (hback m hm)

/-- Putting lexemes that end with a number. The number takes what it can of a word behind it. -/
theorem put_number {run : List Lexeme} {n : List Char} (h : Woven r x (front ++ (run ++ back)))
    (hrun : Runs run back) (hls : Puts r x stops ls) (hspace : stops ' ' = true) (hne : n ≠ [])
    (hn : ∀ c ∈ n, c.isDigit = true) :
    Woven r x (front ++ (ls ++ space :: ⟨.number, n ++ lexemeText run⟩ :: back)) := by
  refine h.replace ⟨?_, ?_, ?_, ?_⟩
  · intro ms hms hsep
    rw [List.append_assoc]
    refine hls.stable _ (hrun.stable_number h.apart.right.right hne hn hms hsep).space ?_
    intro c hc
    obtain rfl : ' ' = c := Option.some.inj hc
    exact hspace
  · intro m hm
    rw [List.head?_append, hls.mark] at hm
    exact .inl (Option.some.inj hm).symm
  · -- the word that the number takes opens and closes nothing
    intro depth e hlevel
    obtain ⟨d, hd, he⟩ := levelFrom_append_eq_some.mp hlevel
    have hsame : d = depth := by
      rw [← levelFrom_filter seesParens_matters,
        List.filter_eq_nil_iff.mpr (by simpa using hrun.plain)] at hd
      exact (Option.some.inj hd).symm
    subst hsame
    refine levelFrom_append_eq_some.mpr ⟨d, levelFrom_lift hls.closed d, ?_⟩
    refine levelFrom_cons_eq_some.mpr ⟨_, d, rfl, ?_⟩
    exact levelFrom_cons_eq_some.mpr ⟨_, d, rfl, he⟩
  · have hchain := (List.isChain_append.mp (List.isChain_append.mp h.clear).2.1).2.1
    -- no number stands for a parameter, so that nothing is asked of what is next to it
    have hsilent : Lexeme.names? x ⟨.number, n ++ lexemeText run⟩ = none := rfl
    have hend := List.isChain_cons.mpr
      ⟨fun m hm => Clear.of_silent hsilent (hrun.names? m hm), hchain⟩
    refine (Clear.isChain_of_silent hls.silent).append
      (List.isChain_cons.mpr ⟨fun m _ => Clear.behind_mark (.inl rfl) m, hend⟩) ?_
    intro l _ m hm
    rw [← Option.some.inj hm]
    exact Clear.before_mark l (.inl rfl)

end Woven

/-! ## The lexemes of a statement -/

/-- What holds between neighbours where one of them is a gap holds between all lexemes of pieces
if it does so between tokens without a gap between them. -/
theorem isChain_pieceLexemes {R : Lexeme → Lexeme → Prop}
    (hbefore : ∀ l m ls, m.isGap = true → Stable r (m :: ls) → R l m)
    (hbehind : ∀ l m, l.isGap = true → R l m) {ps : List Piece} (hs : Stable r (pieceLexemes ps))
    (hclear : (pieceTokens ps).IsChain fun t u => u.gap = [] → R t.lexeme u.lexeme) :
    (pieceLexemes ps).IsChain R := by
  induction ps with
  | nil => exact .nil
  | cons p ps ih =>
    rw [pieceLexemes_cons] at hs ⊢
    obtain ⟨hfirst, hclear⟩ := List.isChain_cons.mp hclear
    obtain ⟨-, -, -, -, hrest⟩ := stable_cons_iff.mp hs.right
    -- anything may stand behind a gap lexeme
    have hgaps : p.gap.IsChain R :=
      (List.pairwise_of_forall_mem_list fun l hl m _ => hbehind l m (p.blank l hl)).isChain
    refine hgaps.append (List.isChain_cons.mpr ⟨fun m hm => ?_, ih hrest hclear⟩) ?_
    · -- behind the token there is a gap, or the next token
      cases ps with
      | nil => cases hm
      | cons q ps =>
        rw [pieceLexemes_cons] at hm hrest
        cases hg : q.gap with
        | cons g gap =>
          rw [hg] at hm hrest
          obtain rfl : g = m := Option.some.inj hm
          exact hbefore _ _ _ (q.blank g (by rw [hg]; exact List.mem_cons_self)) hrest
        | nil =>
          rw [hg] at hm
          obtain rfl : q.token.lexeme = m := Option.some.inj hm
          have hnone : q.token.gap = [] := by
            rw [q.gap_eq, hg]
            rfl
          exact hfirst q.token rfl hnone
    · exact fun l hl m _ => hbehind l m (p.blank l (List.mem_of_getLast? hl))

/-- No word for an empty collection joins a token next to it, with no gap between them, in a way
that matters: it comes behind no placeholder that stays, and where a dollar sign quotes, neither
behind a number nor in front of a dollar sign. -/
def Statement.NullsApart (r : LexicalRules) (x : Fields (List String)) (s : Statement) : Prop :=
  s.tokens.IsChain fun t u => u.gap = [] → Clear r x t.lexeme u.lexeme

instance (x : Fields (List String)) (s : Statement) : Decidable (s.NullsApart r x) :=
  inferInstanceAs (Decidable (List.IsChain _ _))

/-- Separated text can be put behind the lexemes of a statement. -/
theorem Pieces.apart {d : Dialect} {s : Statement} {ps : List Piece} (h : Pieces d s ps) :
    Apart (.ofDialect d) (pieceLexemes ps) := by
  intro ms hms hsep
  have hstable := h.stable
  rw [← List.append_nil (pieceLexemes ps)] at hstable
  exact hstable.cut hms hsep fun _ => ended_pieceLexemes ps

/-- The pieces of a statement close all that they open. -/
theorem Pieces.closed {d : Dialect} {s : Statement} {ps : List Piece} (h : Pieces d s ps) :
    levelFrom 0 (pieceLexemes ps) = some 0 :=
  levelFrom_eq_some.mpr ⟨_, h.balanced⟩

/-- The lexemes of a statement are woven, if no word for an empty collection joins a token. -/
theorem Pieces.woven {d : Dialect} {s : Statement} {ps : List Piece} (h : Pieces d s ps)
    {y : Fields (List String)} (hclear : s.NullsApart (.ofDialect d) x)
    (hsame : ∀ t ∈ s.tokens, t.lexeme.names? y = t.lexeme.names? x) :
    Woven (.ofDialect d) y (pieceLexemes ps) := by
  rw [Statement.NullsApart, h.tokens] at hclear
  rw [h.tokens] at hsame
  -- whether null fits is asked of names that are the same
  have hown := hclear.imp_of_mem_imp fun t u ht hu hfirst hnone =>
    (hfirst hnone).congr (hsame t ht) (hsame u hu)
  refine ⟨h.apart, h.closed, ?_⟩
  exact isChain_pieceLexemes (fun l m ls hm hms => Clear.before_gap l hm hms)
    (fun l m hl => Clear.behind_gap hl m) h.stable hown

end SqlPaging.Sql
