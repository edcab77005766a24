import SqlPaging.Param
import SqlPaging.Proofs.Sql.Condition

/-!
# SqlPaging — placeholders of collections

A placeholder of a collection is replaced by one for each element, with commas between
them. The text in front of it still ends before a colon, and the last of the new
placeholders ends where the old one did, so that no other lexeme changes: the lexemes of
the expanded text are those of the statement with the new placeholders among them.

Main results:

* `stable_placeholder_iff` — what a placeholder asks of its text and of what follows.
* `Stable.expanded` — stable lexemes are stable when collections are expanded.
* `outlineFrom_expanded` — the outlines of expanded lexemes.
* `expandFrom_eq_ok` — the draft of an expanded statement.
-/

namespace SqlPaging.Sql

variable {r : LexicalRules}

/-! ## The next colon or dot -/

/-- Two texts are the same up to a colon or a dot, which both of them have, or throughout. -/
def Resumes (t u : List Char) : Prop :=
  ∃ w t' u', t = w ++ t' ∧ u = w ++ u' ∧ u'.head? = t'.head? ∧ ∀ c ∈ u'.head?, c = ':' ∨ c = '.'

namespace Resumes

theorem refl (t : List Char) : Resumes t t := ⟨t, [], [], by simp, by simp, rfl, nofun⟩

/-- What resumes behind a text resumes with it. -/
theorem append (w : List Char) {t u : List Char} (h : Resumes t u) : Resumes (w ++ t) (w ++ u) := by
  obtain ⟨v, t', u', rfl, rfl, hhead, hmark⟩ := h
  exact ⟨w ++ v, t', u', by simp, by simp, hhead, hmark⟩

theorem colon (t u : List Char) : Resumes (':' :: t) (':' :: u) :=
  ⟨[], _, _, rfl, rfl, rfl, by simp⟩

theorem dot (t u : List Char) : Resumes ('.' :: t) ('.' :: u) :=
  ⟨[], _, _, rfl, rfl, rfl, by simp⟩

theorem head {t u : List Char} (h : Resumes t u) : u.head? = t.head? := by
  obtain ⟨w, t', u', rfl, rfl, hhead, -⟩ := h
  cases w with
  | nil => exact hhead
  | cons c w => rfl

end Resumes

/-- A lexeme does not see what stands behind the next colon or the next dot. -/
theorem lexeme_resume {c : Char} {s t u : List Char} {kind : LexemeKind}
    (h : lexeme r c (s ++ t) = .ok (kind, s.length)) (htu : Resumes t u) :
    lexeme r c (s ++ u) = .ok (kind, s.length) := by
  obtain ⟨w, t', u', rfl, rfl, hhead, hmark⟩ := htu
  cases t' with
  | nil =>
    -- without such a mark the texts are the same
    rw [List.head?_nil, List.head?_eq_none_iff] at hhead
    rwa [hhead]
  | cons x t' =>
    rw [← List.append_assoc] at h ⊢
    refine lexeme_cut h (by simp) ?_ (by simp)
    intro y hy
    have hsame : (x :: t').head? = some y := hhead.symm.trans hy
    exact .inr ⟨hmark y hy, hsame⟩

/-! ## Placeholders -/

theorem isNameChar_of_isWordStart {c : Char} (h : isWordStart c = true) : isNameChar c = true := by
  rw [isNameChar, h, Bool.true_or]

/-- A placeholder is a colon and the whole of a name. -/
theorem stable_placeholder_iff {t : List Char} {ls : List Lexeme} :
    Stable r (⟨.placeholder, t⟩ :: ls) ↔
      ∃ w, t = ':' :: w ∧ w.head?.any isWordStart = true ∧ (∀ c ∈ w, isNameChar c = true) ∧
        (∀ c ∈ (lexemeText ls).head?, isNameChar c = false) ∧ Stable r ls := by
  constructor
  · intro h
    obtain ⟨c, w, rfl, hl, hls⟩ := stable_cons_iff.mp h
    rw [lexeme_eq_apply] at hl
    obtain ⟨rfl, hstart⟩ := start_of_placeholder (Rule.mem_kinds hl)
    obtain ⟨x, hx, hword⟩ := (Option.any_eq_true _ _).mp hstart
    rw [hx, rule_colon r hword, Rule.apply, Except.ok.injEq, Prod.mk.injEq] at hl
    -- the name is the run of name characters behind the colon, all of it and no more
    obtain ⟨hall, hnext⟩ := runLength_append_eq_length_iff.mp hl.2
    refine ⟨w, rfl, ?_, hall, hnext, hls⟩
    cases w with
    | cons y w => exact hstart
    | nil =>
      -- an empty name would have gone on with the character that shows it
      have hend : isNameChar x = false := hnext x hx
      rw [isNameChar_of_isWordStart hword] at hend
      cases hend
  · rintro ⟨w, rfl, hstart, hall, hnext, hls⟩
    refine stable_cons_iff.mpr ⟨':', w, rfl, ?_, hls⟩
    obtain ⟨x, hx, hstart⟩ := (Option.any_eq_true _ _).mp hstart
    have hhead : (w ++ lexemeText ls).head? = some x := by
      rw [List.head?_append, hx, Option.some_or]
    rw [lexeme_eq_apply, hhead, rule_colon r hstart, Rule.apply]
    congr 2
    exact runLength_append_eq_length_iff.mpr ⟨hall, hnext⟩

/-- A character that starts nothing is a symbol on its own. -/
theorem Stable.symbol {c : Char} {ls : List Lexeme} (h : Stable r ls) (hmark : c ∉ marks)
    (hword : isWordStart c = false) (hdigit : c.isDigit = false) :
    Stable r (⟨.symbol, [c]⟩ :: ls) := by
  refine stable_cons_iff.mpr ⟨c, [], rfl, ?_, h⟩
  rw [lexeme_eq_apply, rule_of_not_mark r _ hmark, hword, hdigit]
  rfl

def comma : Lexeme := ⟨.symbol, [',']⟩

theorem Stable.comma {ls : List Lexeme} (h : Stable r ls) : Stable r (comma :: ls) :=
  h.symbol (by decide) (by decide) (by decide)

/-- The lexemes of placeholders with commas between them. -/
def slotLexemes : List String → List Lexeme
  | [] => []
  | [n] => [⟨.placeholder, ':' :: n.toList⟩]
  | n :: ns => ⟨.placeholder, ':' :: n.toList⟩ :: comma :: space :: slotLexemes ns

/-- Slots are written as placeholders with commas between them. -/
theorem lexemeText_slotLexemes (ns : List String) : lexemeText (slotLexemes ns) = Draft.slots ns := by
  fun_induction slotLexemes ns with
  | case1 => rfl
  | case2 n => simp [lexemeText, Draft.slots]
  | case3 n ns hne ih =>
    rw [lexemeText_cons, lexemeText_cons, lexemeText_cons, ih, Draft.slots.eq_3 _ _ hne]
    simp [comma, space]

/-- The names of the elements of a collection, which is not empty. -/
def Numbered (name : String) (names : List String) : Prop :=
  names ≠ [] ∧ ∀ n ∈ names, ∃ i, n = expandedName name i

/-- The number of an element goes on with the name. -/
theorem isNameChar_expandedName {w : List Char} (hw : ∀ c ∈ w, isNameChar c = true) (i : Nat) :
    ∀ c ∈ (expandedName (String.ofList w) i).toList, isNameChar c = true := by
  intro c hc
  have hdigits : (toString i).toList = Nat.toDigits 10 i := String.toList_ofList
  rw [expandedName, String.toList_append, String.toList_append, String.toList_ofList, hdigits,
    List.mem_append, List.mem_append] at hc
  -- the name, two underscores and the digits of the number
  rcases hc with (hc | hc) | hc
  · exact hw c hc
  · exact List.all_eq_true.mp (by decide) c hc
  · have hdigit := Nat.isDigit_of_mem_toDigits (b := 10) (by decide) (by decide) hc
    rw [isNameChar, hdigit, Bool.or_true]

/-- The names of the elements may stand behind a colon, as the name of the collection does. -/
theorem Numbered.isName {w : List Char} {names : List String}
    (h : Numbered (String.ofList w) names) (hstart : w.head?.any isWordStart = true)
    (hall : ∀ c ∈ w, isNameChar c = true) :
    ∀ n ∈ names, n.toList.head?.any isWordStart = true ∧
      ∀ c ∈ n.toList, isNameChar c = true := by
  intro n hmem
  obtain ⟨i, rfl⟩ := h.2 n hmem
  refine ⟨?_, isNameChar_expandedName hall i⟩
  obtain ⟨x, hx, hword⟩ := (Option.any_eq_true _ _).mp hstart
  -- a numbered name starts as the name does
  rw [expandedName, String.toList_append, String.toList_append, String.toList_ofList,
    List.head?_append, List.head?_append, hx]
  exact hword

/-- The placeholders of its elements may stand where that of a collection did. -/
theorem Stable.slots {w : List Char} {names : List String} {ls : List Lexeme}
    (h : Stable r (⟨.placeholder, ':' :: w⟩ :: ls)) (hn : Numbered (String.ofList w) names) :
    Stable r (slotLexemes names ++ ls) := by
  obtain ⟨w', hw, hstart, hall, hnext, hls⟩ := stable_placeholder_iff.mp h
  obtain rfl := (List.cons.inj hw).2
  have hne := hn.1
  have hslot := hn.isName hstart hall
  clear h hn hstart hall
  -- name by name; the last one stands in front of what the placeholder stood in front of
  fun_induction slotLexemes names with
  | case1 => exact absurd rfl hne
  | case2 n =>
    obtain ⟨hstart, hall⟩ := hslot n List.mem_cons_self
    exact stable_placeholder_iff.mpr ⟨_, rfl, hstart, hall, hnext, hls⟩
  | case3 n ns hmore ih =>
    obtain ⟨hstart, hall⟩ := hslot n List.mem_cons_self
    -- a comma and a space stand behind every other name
    have hrest := ih hmore fun m hm => hslot m (List.mem_cons_of_mem n hm)
    refine stable_placeholder_iff.mpr ⟨_, rfl, hstart, hall, ?_, hrest.space.comma⟩
    intro c hc
    obtain rfl : ',' = c := Option.some.inj hc
    decide

/-! ## Expanded lexemes -/

/-- The names for which a lexeme stands. -/
def Lexeme.names? (x : Fields (List String)) (l : Lexeme) : Option (List String) :=
  if l.kind = .placeholder then x.get? (String.ofList (l.text.drop 1)) else none

def nullWord : Lexeme := ⟨.word, ['N', 'U', 'L', 'L']⟩

/-- The lexemes for a lexeme in which a collection is expanded. -/
def Lexeme.expanded (x : Fields (List String)) (l : Lexeme) : List Lexeme :=
  match l.names? x with
  | none => [l]
  | some [] => [nullWord]
  | some names => slotLexemes names

theorem Lexeme.expanded_of_none {x : Fields (List String)} {l : Lexeme} (h : l.names? x = none) :
    l.expanded x = [l] := by
  rw [expanded, h]

theorem Lexeme.expanded_of_some {x : Fields (List String)} {l : Lexeme} {names : List String}
    (h : l.names? x = some names) (hne : names ≠ []) : l.expanded x = slotLexemes names := by
  obtain ⟨n, ns, rfl⟩ := List.exists_cons_of_ne_nil hne
  rw [expanded, h]

/-- Only placeholders have names, by the expansions. -/
theorem Lexeme.names?_eq_some {x : Fields (List String)} {l : Lexeme} {names : List String}
    (h : l.names? x = some names) :
    l.kind = .placeholder ∧ x.get? (String.ofList (l.text.drop 1)) = some names := by
  rw [names?] at h
  split at h
  · next hk => exact ⟨hk, h⟩
  · cases h

/-- No collection is empty, and its elements are numbered. -/
def AllNumbered (x : Fields (List String)) : Prop :=
  ∀ name names, x.get? name = some names → Numbered name names

theorem Lexeme.expanded_of_isGap (x : Fields (List String)) {l : Lexeme} (h : l.isGap = true) :
    l.expanded x = [l] := by
  have hk : l.kind ≠ .placeholder := by
    intro hk
    simp [isGap, hk] at h
  exact expanded_of_none (if_neg hk)

theorem head?_slots {names : List String} (h : names ≠ []) :
    (Draft.slots names).head? = some ':' := by
  fun_cases Draft.slots names with
  | case1 => exact absurd rfl h
  | case2 n => rfl
  | case3 n ns hne => rfl

/-- Stable lexemes are stable when collections are expanded, and the text looks the same
from its start up to the first of these. -/
theorem Stable.expanded {x : Fields (List String)} (hx : AllNumbered x) {ls : List Lexeme}
    (h : Stable r ls) :
    Stable r (ls.flatMap (Lexeme.expanded x)) ∧
      Resumes (lexemeText ls) (lexemeText (ls.flatMap (Lexeme.expanded x))) := by
  induction ls with
  | nil => exact ⟨h, Resumes.refl _⟩
  | cons l ls ih =>
    obtain ⟨c, t, htext, hl, hls⟩ := stable_cons_iff.mp h
    obtain ⟨hstable, hresumes⟩ := ih hls
    rw [List.flatMap_cons]
    cases hnames : l.names? x with
    | none =>
      rw [Lexeme.expanded_of_none hnames]
      refine ⟨stable_cons_iff.mpr ⟨c, t, htext, lexeme_resume hl hresumes, hstable⟩, ?_⟩
      rw [List.singleton_append, lexemeText_cons, lexemeText_cons]
      exact hresumes.append l.text
    | some names =>
      obtain ⟨hk, hget⟩ := Lexeme.names?_eq_some hnames
      obtain ⟨kind, text⟩ := l
      obtain rfl : kind = .placeholder := hk
      obtain ⟨w, rfl, hstart, hall, hnext, -⟩ := stable_placeholder_iff.mp h
      have hnumbered : Numbered (String.ofList w) names := hx _ _ hget
      rw [Lexeme.expanded_of_some hnames hnumbered.1]
      -- what follows still starts with the character that ends the placeholder
      rw [← hresumes.head] at hnext
      have hown := stable_placeholder_iff.mpr ⟨w, rfl, hstart, hall, hnext, hstable⟩
      -- the names stand where one did, and they start with the same colon
      refine ⟨hown.slots hnumbered, ?_⟩
      obtain ⟨u, hu⟩ := List.head?_eq_some_iff.mp (head?_slots hnumbered.1)
      rw [lexemeText_cons, lexemeText_append, lexemeText_slotLexemes, hu]
      exact Resumes.colon _ _

theorem Lexeme.expanded_ne_nil {x : Fields (List String)} (l : Lexeme) : l.expanded x ≠ [] := by
  cases hnames : l.names? x with
  | none =>
    rw [expanded_of_none hnames]
    exact List.cons_ne_nil _ _
  | some names =>
    rw [expanded, hnames]
    match names with
    | [] => exact List.cons_ne_nil _ _
    | [n] => exact List.cons_ne_nil _ _
    | n :: m :: ns => exact List.cons_ne_nil _ _

/-- Nothing is expanded to comments, quoted regions, parentheses, numbers or semicolons. -/
theorem Lexeme.kind_of_mem_expanded {x : Fields (List String)} {l k : Lexeme}
    (hk : k ∈ l.expanded x) :
    k = l ∨ k.kind ∈ [LexemeKind.placeholder, .word, .symbol, .space] := by
  have hslots : ∀ names, k ∈ slotLexemes names →
      k.kind ∈ [LexemeKind.placeholder, .word, .symbol, .space] := by
    intro names hmem
    -- a name, then a comma and a space in front of the others
    fun_induction slotLexemes names with
    | case1 => cases hmem
    | case2 n =>
      rw [List.mem_singleton.mp hmem]
      simp
    | case3 n ns hmore ih =>
      rcases List.mem_cons.mp hmem with rfl | hmem
      · simp
      · rcases List.mem_cons.mp hmem with rfl | hmem
        · simp [comma]
        · rcases List.mem_cons.mp hmem with rfl | hmem
          · simp [space]
          · exact ih hmem
  -- a lexeme is itself, the word for null, or slots
  rw [expanded] at hk
  split at hk
  · exact .inl (List.mem_singleton.mp hk)
  · rw [List.mem_singleton.mp hk]
    simp [nullWord]
  · exact .inr (hslots _ hk)

theorem Ended.expanded {x : Fields (List String)} {ls : List Lexeme} (h : Ended ls) :
    Ended (ls.flatMap (Lexeme.expanded x)) := by
  intro k hk hcomment
  rcases List.eq_nil_or_concat ls with rfl | ⟨ls, l, rfl⟩
  · cases hk
  · rw [List.concat_eq_append, List.flatMap_append, List.flatMap_singleton, List.getLast?_append,
      List.getLast?_eq_some_getLast l.expanded_ne_nil, Option.some_or] at hk
    obtain rfl := Option.some.inj hk
    -- what a placeholder becomes is no comment
    rcases Lexeme.kind_of_mem_expanded (List.getLast_mem l.expanded_ne_nil) with hsame | hkind
    · rw [hsame] at hcomment
      exact h l (by simp) hcomment
    · rw [hcomment] at hkind
      simp at hkind

/-! ## Expanded outlines -/

/-- The outlines of placeholders with commas between them. -/
def slotOutlines (depth : Nat) : List String → List Outline
  | [] => []
  | [n] => [⟨.placeholder, ':' :: n.toList, depth⟩]
  | n :: ns => ⟨.placeholder, ':' :: n.toList, depth⟩ :: ⟨.symbol, [','], depth⟩ ::
      slotOutlines depth ns

/-- The outlines for an outline in which a collection is expanded. -/
def Outline.expanded (x : Fields (List String)) (o : Outline) : List Outline :=
  match Lexeme.names? x ⟨o.kind, o.text⟩ with
  | none => [o]
  | some [] => [⟨.word, ['N', 'U', 'L', 'L'], o.depth⟩]
  | some names => slotOutlines o.depth names

theorem outlineFrom_slotLexemes (names : List String) (depth : Nat) :
    outlineFrom depth (slotLexemes names) = some (slotOutlines depth names, depth) := by
  fun_induction slotLexemes names with
  | case1 => rfl
  | case2 n => rfl
  | case3 n ns hmore ih =>
    rw [slotOutlines.eq_3 _ _ _ hmore]
    have hcomma := outlineFrom_cons_of (l := comma) [⟨.symbol, [','], depth⟩] rfl
      (outlineFrom_space ih)
    exact outlineFrom_cons_of (l := ⟨.placeholder, ':' :: n.toList⟩)
      [⟨.placeholder, ':' :: n.toList, depth⟩] rfl hcomma

/-- An outline has the kind and the text of its lexeme. -/
theorem outline_eq_some {l : Lexeme} {depth d : Nat} {os : List Outline}
    (h : l.outline depth = some (os, d)) : ∀ o ∈ os, o.kind = l.kind ∧ o.text = l.text := by
  unfold Lexeme.outline at h
  intro o ho
  -- all lexemes have one outline, but for gaps and for parentheses that close nothing
  cases hk : l.kind <;> simp only [hk] at h
  case closeParen =>
    split at h
    · cases h
      rw [List.mem_singleton.mp ho]
      exact ⟨rfl, rfl⟩
    · cases h
  case space =>
    cases h
    cases ho
  case comment =>
    cases h
    cases ho
  all_goals
    cases h
    rw [List.mem_singleton.mp ho]
    exact ⟨rfl, rfl⟩

/-- An outline is that of a lexeme. -/
theorem exists_of_mem_outline {depth e : Nat} {ls : List Lexeme} {os : List Outline}
    (h : outlineFrom depth ls = some (os, e)) :
    ∀ o ∈ os, ∃ l ∈ ls, o.kind = l.kind ∧ o.text = l.text := by
  induction ls generalizing depth os with
  | nil =>
    cases h
    exact nofun
  | cons l ls ih =>
    obtain ⟨first, d, rest, hl, hrest, rfl⟩ := outlineFrom_cons_eq_some.mp h
    intro o ho
    -- an outline is that of the first lexeme or of a later one
    rcases List.mem_append.mp ho with ho | ho
    · exact ⟨l, List.mem_cons_self, outline_eq_some hl o ho⟩
    · obtain ⟨k, hk, hsame⟩ := ih hrest o ho
      exact ⟨k, List.mem_cons_of_mem l hk, hsame⟩

/-- What maps each member to itself alone maps the list to itself. -/
theorem flatMap_eq_self {α : Type} {f : α → List α} {l : List α}
    (h : ∀ a ∈ l, f a = [a]) : l.flatMap f = l := by
  induction l with
  | nil => rfl
  | cons a l ih =>
    rw [List.flatMap_cons, h a List.mem_cons_self, ih fun b hb => h b (List.mem_cons_of_mem a hb)]
    rfl

theorem outlineFrom_lexeme_expanded (x : Fields (List String)) {l : Lexeme} {depth d : Nat}
    {os : List Outline} (h : l.outline depth = some (os, d)) :
    outlineFrom depth (l.expanded x) = some (os.flatMap (Outline.expanded x), d) := by
  -- the outlines of a lexeme are that lexeme with a depth, if there are any
  have hlexeme : ∀ o ∈ os, (⟨o.kind, o.text⟩ : Lexeme) = l := by
    intro o ho
    obtain ⟨hk, ht⟩ := outline_eq_some h o ho
    rw [hk, ht]
  cases hnames : l.names? x with
  | none =>
    have hsame : os.flatMap (Outline.expanded x) = os := by
      have hone : ∀ o ∈ os, Outline.expanded x o = [o] := by
        intro o ho
        rw [Outline.expanded, hlexeme o ho, hnames]
      exact flatMap_eq_self hone
    rw [Lexeme.expanded_of_none hnames, hsame]
    exact outlineFrom_cons_eq_some.mpr ⟨_, _, _, h, rfl, (List.append_nil _).symm⟩
  | some names =>
    -- only a placeholder has names, and its outline keeps the depth
    obtain ⟨hk, -⟩ := Lexeme.names?_eq_some hnames
    rw [Lexeme.outline, hk] at h
    cases h
    have hown := hlexeme _ List.mem_cons_self
    rw [List.flatMap_singleton, Outline.expanded, hown, hnames]
    cases names with
    | nil =>
      rw [Lexeme.expanded, hnames]
      rfl
    | cons n ns =>
      rw [Lexeme.expanded_of_some hnames (by simp)]
      exact outlineFrom_slotLexemes _ _

/-- Expanding lexemes expands their outlines. -/
theorem outlineFrom_expanded (x : Fields (List String)) {ls : List Lexeme} {depth e : Nat}
    {os : List Outline} (h : outlineFrom depth ls = some (os, e)) :
    outlineFrom depth (ls.flatMap (Lexeme.expanded x)) =
      some (os.flatMap (Outline.expanded x), e) := by
  induction ls generalizing depth os with
  | nil =>
    cases h
    rfl
  | cons l ls ih =>
    obtain ⟨first, d, rest, hl, hrest, rfl⟩ := outlineFrom_cons_eq_some.mp h
    rw [List.flatMap_cons, List.flatMap_append]
    exact outlineFrom_append_of (outlineFrom_lexeme_expanded x hl) (ih hrest)

/-! ## Expanded drafts -/

/-- The draft of tokens in which collections are expanded. -/
def Draft.ofExpanded (x : Fields (List String)) (ts : List Token) : Draft :=
  ts.map fun t => .ofToken t (lexemeText (t.lexeme.expanded x))

theorem Token.placeholder?_bind (x : Fields (List String)) (t : Token) :
    t.placeholder?.bind x.get? = t.lexeme.names? x := by
  by_cases hk : t.kind = .placeholder
  · have hlexeme : t.lexeme.kind = .placeholder := hk
    rw [placeholder?, Lexeme.names?, if_pos hk, if_pos hlexeme]
    rfl
  · have hlexeme : t.lexeme.kind ≠ .placeholder := hk
    rw [placeholder?, Lexeme.names?, if_neg hk, if_neg hlexeme]
    rfl

/-- A token is expanded by itself, unless it is an empty collection that is refused. -/
theorem Draft.expandFrom_cons (x : Fields (List String)) (previous : List Token) (t : Token)
    (ts : List Token) :
    expandFrom x previous (t :: ts) =
      if t.placeholder?.bind x.get? = some [] ∧ followsNotIn previous = true then
        .error (t.placeholder?.getD "")
      else (expandFrom x (t :: previous) ts).map
        (.ofToken t (lexemeText (t.lexeme.expanded x)) :: ·) := by
  -- the names are looked up by the token here, and by its lexeme in the expansion
  have hnames := t.placeholder?_bind x
  have hown : lexemeText [t.lexeme] = t.text := by simp [lexemeText, Token.lexeme]
  rw [expandFrom]
  -- only an empty list is refused, and only behind the words that exclude
  cases hp : t.placeholder? with
  | none =>
    rw [hp, Option.bind_none] at hnames
    rw [Lexeme.expanded_of_none hnames.symm, hown, if_neg (by simp)]
  | some name =>
    rw [hp, Option.bind_some] at hnames
    dsimp only [Option.bind_some, Option.getD_some]
    split
    · next hget =>
      rw [hget] at hnames
      rw [Lexeme.expanded_of_none hnames.symm, hown, if_neg (by simp [hget])]
    · next hget =>
      rw [hget] at hnames
      simp only [hget, true_and]
      rw [Lexeme.expanded, ← hnames]
      rfl
    · next names hne hget =>
      rw [hget] at hnames
      have hnonempty : names ≠ [] := hne
      rw [Lexeme.expanded_of_some hnames.symm hnonempty, lexemeText_slotLexemes,
        if_neg (by simp [hget, hnonempty])]

/-- The draft of an expanded statement has the lexemes of its expanded tokens. -/
theorem Draft.expandFrom_eq_ok {x : Fields (List String)} {previous ts : List Token}
    {draft : Draft} (h : expandFrom x previous ts = .ok draft) : draft = ofExpanded x ts := by
  induction ts generalizing previous draft with
  | nil =>
    cases h
    rfl
  | cons t ts ih =>
    rw [expandFrom_cons] at h
    split at h
    · cases h
    · obtain ⟨rest, hrest, rfl⟩ := map_eq_ok.mp h
      rw [ih hrest]
      rfl

/-- The text of expanded pieces. -/
theorem Draft.text_ofExpanded (x : Fields (List String)) (ps : List Piece) :
    (ofExpanded x (pieceTokens ps)).text =
      lexemeText ((pieceLexemes ps).flatMap (Lexeme.expanded x)) := by
  induction ps with
  | nil => rfl
  | cons p ps ih =>
    have hgap : p.gap.flatMap (Lexeme.expanded x) = p.gap :=
      flatMap_eq_self fun l hl => Lexeme.expanded_of_isGap x (p.blank l hl)
    rw [pieceLexemes_cons, List.flatMap_append, List.flatMap_cons, hgap, lexemeText_append,
      lexemeText_append, ← ih]
    simp only [pieceTokens, ofExpanded, List.map_cons, text_cons, Slot.text, Slot.ofToken,
      List.append_nil, p.gap_eq, List.append_assoc]

end SqlPaging.Sql
