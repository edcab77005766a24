import SqlPaging.Proofs.Sql.Woven

/-!
# SqlPaging — lexemes that no word joins

A word for an empty collection may join the words, numbers, symbols and placeholders next to it,
and what they are joined to may be split anew. All other lexemes are *rigid*: they end by
themselves. So a text with collections expanded has the spaces, comments, quoted regions,
parentheses and semicolons that its lexemes have, whatever joins: it is closed, it is one
statement, and text can be put behind it. Only where a dollar sign quotes, a word that joins a
number or a dollar sign may hide what follows.

That text can be put behind it is seen from one parenthesis there. The last lexeme is rigid then,
because no other has a parenthesis in its text.

Main results:

* `Apart.exists_rigid` — the lexemes of a text with collections expanded.
* `Pieces.exists_whole` — those of an expanded statement.
-/

namespace SqlPaging.Sql

variable {r : LexicalRules} {x : Fields (List String)}

/-- A lexeme that no word joins. -/
def Lexeme.rigid (l : Lexeme) : Bool :=
  l.kind ∉ [LexemeKind.placeholder, .word, .number, .symbol]

/-- What is rigid is neither a word nor a number nor a symbol. -/
theorem skipsRuns_rigid : SkipsRuns Lexeme.rigid := by
  intro l h
  rcases h with h | h | h <;> simp [Lexeme.rigid, h]

theorem seesParens_rigid : SeesParens Lexeme.rigid := by
  intro l h
  constructor <;> rintro hk <;> simp [Lexeme.rigid, hk] at h

/-- Only rigid lexemes have a closing parenthesis in their text. -/
theorem rigid_of_closeParen_mem {l : Lexeme} {ls : List Lexeme} (h : Stable r (l :: ls))
    (hmem : ')' ∈ l.text) : l.rigid = true := by
  obtain ⟨c, t, htext, hl, -⟩ := stable_cons_iff.mp h
  rw [htext] at hmem
  -- at the front it is a parenthesis itself; further on, it is inside something that holds it
  rcases List.mem_cons.mp hmem with rfl | hmem
  · have hown : lexeme r ')' (t ++ lexemeText ls) = .ok (.closeParen, 0) := rfl
    rw [hown, Except.ok.injEq, Prod.mk.injEq] at hl
    simp [Lexeme.rigid, ← hl.1]
  rw [lexeme_eq_apply] at hl
  have hkinds := Rule.mem_kinds hl
  have hrow := row_rule r c (t ++ lexemeText ls).head?
  generalize rule r c (t ++ lexemeText ls).head? = x at hl hkinds hrow
  -- a run has no separator
  have hrun : ∀ {kind : LexemeKind} {chars : Run}, Rule.apply r (t ++ lexemeText ls)
      (.run kind chars) ≠ .ok (l.kind, t.length) := by
    intro kind chars hl
    rw [Rule.apply, Except.ok.injEq, Prod.mk.injEq] at hl
    have hall := (runLength_append_eq_length_iff.mp hl.2).1 ')' hmem
    rw [chars.stops ')' (by decide)] at hall
    cases hall
  cases hrow with
  | placeholder | word | number => exact absurd hl hrun
  | symbol =>
    rw [Rule.apply, Except.ok.injEq, Prod.mk.injEq] at hl
    rw [List.length_eq_zero_iff.mp hl.2.symm] at hmem
    cases hmem
  | cast _ hnext =>
    rw [Rule.apply, Except.ok.injEq, Prod.mk.injEq] at hl
    obtain ⟨y, rfl⟩ := List.length_eq_one_iff.mp hl.2.symm
    obtain rfl : y = ':' := Option.some.inj hnext
    exact absurd hmem (by decide)
  | dollar =>
    rw [Rule.apply] at hl
    split at hl
    · split at hl
      · rw [Except.ok.injEq, Prod.mk.injEq] at hl
        simp [Lexeme.rigid, ← hl.1]
      · cases hl
    · rw [Except.ok.injEq, Prod.mk.injEq] at hl
      have hdigit := (runLength_append_eq_length_iff.mp hl.2).1 ')' hmem
      exact absurd hdigit (by decide)
  | _ =>
    rw [Lexeme.rigid, List.mem_singleton.mp hkinds]
    rfl

/-- Lexemes whose text ends with a closing parenthesis, which is also the last rigid one. -/
theorem exists_of_closeParen {ms ls : List Lexeme} {s : List Char} (h : Stable r ms)
    (htext : lexemeText ms = s ++ [')'])
    (hrigid : ms.filter Lexeme.rigid = ls.filter Lexeme.rigid ++ [closeParen]) :
    ∃ ks, ms = ks ++ [closeParen] ∧ lexemeText ks = s ∧
      ks.filter Lexeme.rigid = ls.filter Lexeme.rigid := by
  rcases List.eq_nil_or_concat ms with rfl | ⟨ks, k, rfl⟩
  · cases List.append_eq_nil_iff.mp htext.symm |>.2
  rw [List.concat_eq_append] at h htext hrigid ⊢
  -- a lexeme is not empty, so that the parenthesis belongs to the last one
  have hlast : k.text.getLast? = some ')' := by
    have hne := h.right.text_ne_nil_of_mem List.mem_cons_self
    have hall := congrArg List.getLast? htext
    have hnil : lexemeText [] = [] := rfl
    rw [lexemeText_append, List.getLast?_concat, lexemeText_cons, hnil, List.append_nil,
      List.getLast?_append_of_ne_nil _ hne] at hall
    exact hall
  have hk := rigid_of_closeParen_mem h.right (List.mem_of_getLast? hlast)
  rw [List.filter_append, List.filter_singleton, hk, cond_true] at hrigid
  -- the last rigid lexeme is the parenthesis
  obtain ⟨hfront, hown⟩ := List.append_inj' hrigid rfl
  obtain rfl := List.singleton_inj.mp hown
  refine ⟨ks, rfl, ?_, hfront⟩
  rw [lexemeText_append] at htext
  exact List.append_cancel_right htext

/-- A text with collections expanded has the rigid lexemes that it should have, and separated
text can be put behind it. -/
theorem Apart.exists_rigid (hx : Expands x) {ls : List Lexeme} (h : Apart r ls)
    (hfits : ls.IsChain (Fits r x)) :
    ∃ ms, Apart r ms ∧ lexemeText ms = lexemeText (ls.flatMap (Lexeme.expanded x)) ∧
      ms.filter Lexeme.rigid = (ls.flatMap (Lexeme.expanded x)).filter Lexeme.rigid := by
  -- a parenthesis is put behind the text, and taken away again from what is read
  have hclose := h [closeParen] stable_nil.closeParen (separated_cons (by decide) _)
  have hexpanded : (ls ++ [closeParen]).flatMap (Lexeme.expanded x) =
      ls.flatMap (Lexeme.expanded x) ++ [closeParen] := by
    rw [List.flatMap_append]
    rfl
  have hnone : closeParen.names? x = none := rfl
  have hfits : (ls ++ [closeParen]).IsChain (Fits r x) := by
    refine hfits.append (.singleton _) fun l _ m hm => ?_
    obtain rfl := Option.some.inj hm
    exact ⟨fun hnull => absurd hnull (Clear.not_null hnone), fun _ _ => by decide⟩
  -- a reader that sees no placeholders asks nothing of what stands behind one
  have hasked : (ls ++ [closeParen]).IsChain (Unasked Lexeme.rigid x) := by
    have hall : ∀ l m, Unasked Lexeme.rigid x l m := fun l m _ _ =>
      .inr fun k hk => by simp [Lexeme.rigid, hk]
    exact (List.pairwise_of_forall hall).isChain
  obtain ⟨ms, hms, htext, hrigid⟩ := reads_expanded skipsRuns_rigid hx hclose hfits hasked
  rw [hexpanded, lexemeText_append] at htext
  rw [hexpanded, List.filter_append] at hrigid
  obtain ⟨ks, rfl, hks, hfront⟩ := exists_of_closeParen hms htext hrigid
  refine ⟨ks, fun ns hns hsep => ?_, hks, hfront⟩
  exact hms.cut hns hsep (by simp)

/-! ## The lexemes of an expanded statement -/

namespace Fits

variable {l m : Lexeme}

instance : Decidable (Fits r x l m) :=
  decidable_of_iff
    ((m.names? x = some [] → r.dollarQuotes = true → l.kind ≠ .number) ∧
      (l.names? x = some [] → r.dollarQuotes = true → m.text.head? ≠ some '$'))
    ⟨fun ⟨hnumber, hdollar⟩ => ⟨hnumber, hdollar⟩, fun h => ⟨h.number, h.dollar⟩⟩

/-- Where no dollar sign quotes, all lexemes fit. -/
theorem of_not_dollarQuotes (h : r.dollarQuotes = false) (l m : Lexeme) : Fits r x l m := by
  constructor
  all_goals
    intro _ hdollar
    rw [h] at hdollar
    cases hdollar

end Fits

/-- Where a dollar sign quotes, no word for an empty collection stands right behind a number or
right in front of a dollar sign. -/
def Statement.NullsFit (r : LexicalRules) (x : Fields (List String)) (s : Statement) : Prop :=
  s.tokens.IsChain fun t u => u.gap = [] → Fits r x t.lexeme u.lexeme

instance (s : Statement) : Decidable (s.NullsFit r x) :=
  inferInstanceAs (Decidable (List.IsChain _ _))

/-- Without dollar quotes the word for null fits everywhere. -/
theorem Statement.nullsFit_of_not_dollarQuotes (h : r.dollarQuotes = false) (s : Statement) :
    s.NullsFit r x :=
  (List.pairwise_of_forall fun _ _ _ => Fits.of_not_dollarQuotes h _ _).isChain

/-- The lexemes of an expanded statement: separated text can be put behind them, their
parentheses are closed, and there is no semicolon among them. -/
structure Whole (r : LexicalRules) (ls : List Lexeme) : Prop where
  apart : Apart r ls
  closed : levelFrom 0 ls = some 0
  semicolon : ∀ l ∈ ls, l.kind ≠ .semicolon

/-- Where the word for null fits, an expanded statement is scanned as a whole. -/
theorem Pieces.exists_whole {d : Dialect} {s : Statement} {ps : List Piece} (h : Pieces d s ps)
    (hx : Expands x) (hs : ∀ t ∈ s.tokens, t.kind ≠ .semicolon)
    (hfits : s.NullsFit (.ofDialect d) x) :
    ∃ ms, Whole (.ofDialect d) ms ∧ lexemeText ms = (Draft.ofExpanded x s.tokens).text := by
  rw [Statement.NullsFit, h.tokens] at hfits
  have hchain := isChain_pieceLexemes (R := Fits (.ofDialect d) x)
    (fun l m ls hm hms => (Clear.before_gap l hm hms).fits)
    (fun l m hl => (Clear.behind_gap hl m).fits) h.stable hfits
  obtain ⟨ms, hms, htext, hrigid⟩ := h.apart.exists_rigid hx hchain
  refine ⟨ms, ⟨hms, ?_, ?_⟩, by rw [htext, h.tokens, Draft.text_ofExpanded]⟩
  · -- parentheses are rigid, and an expansion has none
    obtain ⟨os, hos⟩ := levelFrom_eq_some.mp h.closed
    have hlevel := levelFrom_eq_some.mpr ⟨_, outlineFrom_expanded x hos⟩
    rwa [← levelFrom_filter seesParens_rigid, ← hrigid, levelFrom_filter seesParens_rigid] at hlevel
  · -- a semicolon is rigid, and no semicolon is new
    intro l hl hkind
    have hmem : l ∈ ms.filter Lexeme.rigid :=
      List.mem_filter.mpr ⟨hl, by simp [Lexeme.rigid, hkind]⟩
    rw [hrigid] at hmem
    obtain ⟨k, hk, hlk⟩ := List.mem_flatMap.mp (List.mem_filter.mp hmem).1
    rcases Lexeme.kind_of_mem_expanded hlk with rfl | hother
    · obtain ⟨q, hq, hlq⟩ := List.mem_flatMap.mp hk
      rcases List.mem_append.mp hlq with hgap | hown
      · have hblank := q.blank l hgap
        simp [Lexeme.isGap, hkind] at hblank
      · rw [List.mem_singleton.mp hown] at hkind
        exact hs q.token (by rw [h.tokens]; exact List.mem_map_of_mem hq) hkind
    · rw [hkind] at hother
      simp at hother

end SqlPaging.Sql
