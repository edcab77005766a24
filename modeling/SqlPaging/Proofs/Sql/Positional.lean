import SqlPaging.Proofs.Sql.Woven
import SqlPaging.Sql.Positional

/-!
# SqlPaging — scanning numbered placeholders

A numbered placeholder starts with a dollar sign, where a named one starts with a colon. A colon
ends whatever comes before it, but a word goes on with a dollar sign, and two dollar signs open a
string. Nothing else is sensitive to the change: a number ends in front of both, and a name that
a dollar sign would close as the tag of a string is a word, with which the dollar sign goes on
first.

So the tokens of a numbered text are those of the text with their placeholders numbered, unless a
placeholder directly follows a word or a lone dollar sign. A dollar sign with digits that is in
the text already is kept as well, and is taken for a number that stands for a name.

Main results:

* `Numbering.of_isChain` — the lexemes of a numbered text.
* `filter_isNumbered_eq_iff` — which of them are numbers.
* `Positional.scan_ofScan` — the tokens of a numbered text.
* `Positional.word_takes_number`, `Positional.number_not_named` — a number that is not found, and
  one that stands for no name.
-/

namespace SqlPaging.Sql

variable {r : LexicalRules} {names : List String}

/-! ## Numbered lexemes -/

/-- The number that stands for a name. -/
def numberText (names : List String) (name : String) : List Char :=
  '$' :: Nat.toDigits 10 (numberOf names name)

/-- A lexeme with its placeholder numbered. -/
def Lexeme.numbered (names : List String) (l : Lexeme) : Lexeme :=
  match l.placeholder? with
  | some name => ⟨.symbol, numberText names name⟩
  | none => l

theorem Lexeme.placeholder?_eq_none {l : Lexeme} (h : l.kind ≠ .placeholder) :
    l.placeholder? = none := if_neg h

theorem Lexeme.numbered_of_ne (names : List String) {l : Lexeme} (h : l.kind ≠ .placeholder) :
    l.numbered names = l := by
  rw [numbered, placeholder?_eq_none h]

theorem map_numbered_of_blank (names : List String) {ls : List Lexeme}
    (h : ∀ l ∈ ls, l.isGap = true) :
    ls.map (Lexeme.numbered names) = ls := by
  refine (List.map_congr_left fun l hl => ?_).trans (List.map_id ls)
  rw [Lexeme.numbered, Lexeme.placeholder?_of_isGap (h l hl)]
  rfl

/-- An outline with its placeholder numbered. -/
def Outline.numbered (names : List String) (o : Outline) : Outline :=
  { o with
    kind := (Lexeme.numbered names ⟨o.kind, o.text⟩).kind
    text := (Lexeme.numbered names ⟨o.kind, o.text⟩).text }

/-- Numbering placeholders changes no depth. -/
theorem outlineFrom_numbered {depth e : Nat} {ls : List Lexeme} {os : List Outline}
    (h : outlineFrom depth ls = some (os, e)) :
    outlineFrom depth (ls.map (Lexeme.numbered names)) =
      some (os.map (Outline.numbered names), e) := by
  induction ls generalizing depth os with
  | nil =>
    cases h
    rfl
  | cons l ls ih =>
    obtain ⟨first, d, rest, hl, hrest, rfl⟩ := outlineFrom_cons_eq_some.mp h
    rw [List.map_cons, List.map_append]
    refine outlineFrom_cons_eq_some.mpr ⟨_, d, _, ?_, ih hrest, rfl⟩
    by_cases hk : l.kind = .placeholder
    · -- a number has no parenthesis in it, so that the depth is kept
      have hown : l.placeholder? = some (String.ofList (l.text.drop 1)) := if_pos hk
      rw [Lexeme.outline, hk] at hl
      cases hl
      simp [Lexeme.numbered, hown, Lexeme.outline, Outline.numbered, ← hk]
    · -- all other lexemes stay, and so do their outlines
      have hsame : first.map (Outline.numbered names) = first := by
        refine (List.map_congr_left fun o ho => ?_).trans (List.map_id first)
        obtain ⟨hkind, -⟩ := outline_eq_some hl o ho
        have hother : (⟨o.kind, o.text⟩ : Lexeme).kind ≠ .placeholder := by rwa [hkind]
        rw [Outline.numbered, Lexeme.numbered_of_ne names hother]
        rfl
      rw [Lexeme.numbered_of_ne names hk, hl, hsame]

/-! ## Numbered texts -/

/-- A placeholder directly follows neither a word nor a lone dollar sign. -/
def Unfused (l m : Lexeme) : Prop :=
  m.kind = .placeholder → l.kind ≠ .word ∧ l ≠ ⟨.symbol, ['$']⟩

instance (l m : Lexeme) : Decidable (Unfused l m) :=
  inferInstanceAs (Decidable (_ → _))

/-- Two texts are the same up to a colon, where one of them has a dollar sign. -/
def Marked (t u : List Char) : Prop :=
  t = u ∨ ∃ w t' u', t = w ++ ':' :: t' ∧ u = w ++ '$' :: u'

/-- What is marked behind a text is marked with it. -/
theorem Marked.append (w : List Char) {t u : List Char} (h : Marked t u) :
    Marked (w ++ t) (w ++ u) := by
  rcases h with rfl | ⟨v, t', u', rfl, rfl⟩
  · exact .inl rfl
  · exact .inr ⟨w ++ v, t', u', by simp, by simp⟩

/-- The numbered text starts as the text does, or with a dollar sign. -/
theorem Marked.head {t u : List Char} (h : Marked t u) :
    u.head? = t.head? ∨ u.head? = some '$' := by
  rcases h with rfl | ⟨w, t', u', rfl, rfl⟩
  · exact .inl rfl
  · cases w with
    | nil => exact .inr rfl
    | cons c w => exact .inl rfl

/-- A run that ends in front of the text ends in front of the numbered text as well, if a dollar
sign is no part of it. -/
theorem Marked.stops {p : Char → Bool} (hp : p '$' = false) {t u : List Char} (h : Marked t u)
    (ht : ∀ c ∈ t.head?, p c = false) : ∀ c ∈ u.head?, p c = false := by
  intro c hc
  rcases h.head with hsame | hdollar
  · exact ht c (hsame ▸ hc)
  · obtain rfl : c = '$' := Option.some.inj (hc.symm.trans hdollar)
    exact hp

/-- A text that starts with another lexeme than a placeholder starts as before. -/
theorem head?_numbered {ls : List Lexeme} (h : Stable r ls)
    (hm : ∀ m ∈ ls.head?, m.kind ≠ .placeholder) :
    (lexemeText (ls.map (Lexeme.numbered names))).head? = (lexemeText ls).head? := by
  cases ls with
  | nil => rfl
  | cons m ls =>
    obtain ⟨c, t, htext, -, -⟩ := stable_cons_iff.mp h
    rw [List.map_cons, Lexeme.numbered_of_ne names (hm m rfl), lexemeText_cons, lexemeText_cons,
      htext]
    rfl

/-- The tag that a text would have behind a dollar sign is a part of its first lexeme, a word or a
dollar sign. -/
theorem Stable.length_tag_le {l : Lexeme} {ls : List Lexeme} (h : Stable r (l :: ls))
    {tag : List Char} (htag : dollarTag? (l.text ++ lexemeText ls) = some tag) :
    tag.length ≤ l.text.length := by
  obtain ⟨v, rest, hsplit, rfl, hname, hdigit⟩ := dollarTag?_eq_some htag
  obtain ⟨c, t, htext, hl, -⟩ := stable_cons_iff.mp h
  rw [htext] at hsplit ⊢
  cases v with
  | nil => exact Nat.le_add_left 1 t.length
  | cons x v =>
    -- the name in a tag is a word, and a word takes the dollar sign behind it
    rw [List.cons_append, List.cons_append] at hsplit
    obtain ⟨rfl, hrest⟩ := List.cons.inj hsplit
    have hword : isWordStart c = true := by
      have hfirst := hname c List.mem_cons_self
      rw [List.head?_cons, Option.any_some] at hdigit
      rwa [isNameChar, hdigit, Bool.or_false] at hfirst
    have hescape : ¬ Escapes r [c] (t ++ lexemeText ls).head? := by
      rintro ⟨-, -, hquote⟩
      rw [hrest] at hquote
      cases v with
      | nil => cases hquote
      | cons y v =>
        obtain rfl : y = '\'' := Option.some.inj hquote
        exact absurd (hname '\'' (by simp)) (by decide)
    rw [lexeme_eq_apply, rule_word r hword hescape, Rule.apply, Except.ok.injEq,
      Prod.mk.injEq] at hl
    have hrun : ∀ y ∈ v ++ ['$'], isWordChar y = true := by
      intro y hy
      rcases List.mem_append.mp hy with hy | hy
      · rw [isWordChar, hname y (List.mem_cons_of_mem c hy), Bool.true_or]
      · rw [List.mem_singleton.mp hy]
        decide
    -- the tag is not longer than the word that starts with its name
    have hlen : (v ++ ['$']).length ≤ runLength isWordChar (t ++ lexemeText ls) := by
      have hwhole : t ++ lexemeText ls = (v ++ ['$']) ++ rest := by simpa using hrest
      rw [hwhole, runLength, List.takeWhile_append_of_pos hrun]
      exact (List.sublist_append_left _ _).length_le
    have hown : runLength isWordChar (t ++ lexemeText ls) = t.length := hl.2
    simp only [List.length_append, List.length_cons, List.length_nil] at hlen ⊢
    omega

/-- A dollar sign that opens no string in front of lexemes opens none in front of the numbered
ones, unless a placeholder comes first. -/
theorem dollarTag?_numbered {ls : List Lexeme}
    (hnumbered : Stable r (ls.map (Lexeme.numbered names)))
    (hm : ∀ m ∈ ls.head?, m.kind ≠ .placeholder) (h : dollarTag? (lexemeText ls) = none) :
    dollarTag? (lexemeText (ls.map (Lexeme.numbered names))) = none := by
  cases ls with
  | nil => rfl
  | cons m ls =>
    -- the next lexeme stays, and with it any tag that is complete within it
    have hown := Lexeme.numbered_of_ne names (hm m rfl)
    rw [List.map_cons, hown] at hnumbered ⊢
    rw [lexemeText_cons] at h ⊢
    cases htag : dollarTag? (m.text ++ lexemeText (ls.map (Lexeme.numbered names))) with
    | none => rfl
    | some tag =>
      have hsame := dollarTag?_cut htag (hnumbered.length_tag_le htag) (lexemeText ls)
      rw [h] at hsame
      cases hsame

/-- Lexemes whose numbered ones are what the numbered text splits into. -/
structure Numbering (r : LexicalRules) (names : List String) (ls : List Lexeme) : Prop where
  stable : Stable r (ls.map (Lexeme.numbered names))
  marked : Marked (lexemeText ls) (lexemeText (ls.map (Lexeme.numbered names)))

namespace Numbering

variable {l : Lexeme} {ls : List Lexeme}

/-- A number that stands for a placeholder ends where the placeholder did. -/
theorem placeholder (hr : r.dollarQuotes = true) {text : List Char} (h : Numbering r names ls)
    (hstable : Stable r (⟨.placeholder, text⟩ :: ls)) :
    Numbering r names (⟨.placeholder, text⟩ :: ls) := by
  obtain ⟨w, rfl, -, -, hnext, -⟩ := stable_placeholder_iff.mp hstable
  have hown : Lexeme.numbered names ⟨.placeholder, ':' :: w⟩ =
      ⟨.symbol, numberText names (String.ofList w)⟩ := rfl
  refine ⟨?_, .inr ⟨[], w ++ lexemeText ls, _, rfl, rfl⟩⟩
  rw [List.map_cons, hown]
  refine stable_cons_iff.mpr ⟨'$', _, rfl, ?_, h.stable⟩
  generalize hdigits : Nat.toDigits 10 (numberOf names (String.ofList w)) = digits
  have hall : ∀ c ∈ digits, c.isDigit = true := by
    rw [← hdigits]
    exact fun c hc => Nat.isDigit_of_mem_toDigits (b := 10) (by decide) (by decide) hc
  -- no digit follows a name, nor does one now, where a dollar sign may stand for a colon
  have hstop : ∀ c ∈ (lexemeText (ls.map (Lexeme.numbered names))).head?, c.isDigit = false := by
    refine h.marked.stops (by decide) fun c hc => ?_
    have hname := hnext c hc
    rw [isNameChar, Bool.or_eq_false_iff] at hname
    exact hname.2
  obtain ⟨d, ds, rfl⟩ : ∃ d ds, digits = d :: ds := by
    rw [← hdigits]
    exact List.exists_cons_of_ne_nil Nat.toDigits_ne_nil
  -- no tag starts with a digit, so that the digits are taken
  have htag := dollarTag?_of_digit (s := d :: ds ++ lexemeText (ls.map (Lexeme.numbered names)))
    (hall d List.mem_cons_self)
  have hrule : ∀ next, rule r '$' next = .dollar := by
    intro next
    simp [rule, isSpace, hr]
  rw [lexeme_eq_apply, hrule, Rule.apply, htag]
  exact congrArg (fun n => Except.ok (LexemeKind.symbol, n))
    (runLength_append_eq_length_iff.mpr ⟨hall, hstop⟩)

/-- A dollar sign with its digits opens no string in front of numbered lexemes if it opened none,
unless it is alone in front of a placeholder. -/
theorem opens_none (h : Numbering r names ls) {t : List Char} {kind : LexemeKind}
    (hl : Rule.dollar.apply r (t ++ lexemeText ls) = .ok (kind, t.length))
    (hunfused : kind = .symbol → t = [] → ∀ m ∈ ls.head?, m.kind ≠ .placeholder)
    (htag : dollarTag? (t ++ lexemeText ls) = none) :
    dollarTag? (t ++ lexemeText (ls.map (Lexeme.numbered names))) = none := by
  rw [Rule.apply, htag, Except.ok.injEq, Prod.mk.injEq] at hl
  cases t with
  | nil => exact dollarTag?_numbered h.stable (hunfused hl.1.symm rfl) htag
  | cons d t =>
    -- the run of a numbered parameter is made of digits, with which no tag starts
    have hdigits := (runLength_append_eq_length_iff.mp hl.2).1
    exact dollarTag?_of_digit (hdigits d List.mem_cons_self)

/-- A lexeme other than a run does not see that placeholders behind it are numbered. -/
theorem lexeme_eq (h : Numbering r names ls) {c : Char} {t : List Char} {kind : LexemeKind}
    (hl : lexeme r c (t ++ lexemeText ls) = .ok (kind, t.length))
    (hkind : kind ∉ [LexemeKind.placeholder, .word, .number])
    (hunfused : (⟨kind, c :: t⟩ : Lexeme) = ⟨.symbol, ['$']⟩ →
      ∀ m ∈ ls.head?, m.kind ≠ .placeholder) :
    lexeme r c (t ++ lexemeText (ls.map (Lexeme.numbered names))) = .ok (kind, t.length) := by
  -- a dollar quote that is not opened is not opened by a number either
  have hstring : rule r c (t ++ lexemeText ls).head? = .dollar →
      dollarTag? (t ++ lexemeText ls) = none →
      dollarTag? (t ++ lexemeText (ls.map (Lexeme.numbered names))) = none := by
    intro hrule htag
    obtain rfl := start_of_dollar hrule
    rw [lexeme_eq_apply, hrule] at hl
    exact h.opens_none hl (fun hsymbol hnil => hunfused (by rw [hsymbol, hnil])) htag
  rcases h.marked with hsame | ⟨w, t', u', ht, hu⟩
  · rwa [← hsame]
  -- up to the first colon the texts are the same, and there the lexeme has ended
  rw [ht, ← List.append_assoc] at hl hstring
  rw [hu, ← List.append_assoc] at hstring ⊢
  exact lexeme_replaced (by decide) hl (by simp) hkind hstring

/-- A lexeme that stays in front of numbered ones. -/
theorem stays (h : Numbering r names ls) (hl : l.kind ≠ .placeholder)
    (hstable : Stable r (l :: ls)) (hunfused : ∀ m ∈ ls.head?, Unfused l m) :
    Numbering r names (l :: ls) := by
  have hown := Lexeme.numbered_of_ne names hl
  refine ⟨?_, ?_⟩
  · rw [List.map_cons, hown]
    obtain ⟨kind, text⟩ := l
    -- runs are ended by the character behind them, which may have changed
    by_cases hword : kind = .word
    · subst hword
      obtain ⟨hstart, hall, hnext, hescape, hls⟩ := stable_word_iff.mp hstable
      have hhead : (lexemeText (ls.map (Lexeme.numbered names))).head? = (lexemeText ls).head? :=
        head?_numbered hls fun m hm hk => (hunfused m hm hk).1 rfl
      exact stable_word_iff.mpr ⟨hstart, hall, by rwa [hhead], by rwa [hhead], h.stable⟩
    by_cases hnumber : kind = .number
    · subst hnumber
      obtain ⟨hdigit, hall, hnext, -⟩ := stable_number_iff.mp hstable
      exact stable_number_iff.mpr ⟨hdigit, hall, h.marked.stops (by decide) hnext, h.stable⟩
    obtain ⟨c, t, rfl, hlexeme, -⟩ := stable_cons_iff.mp hstable
    refine stable_cons_iff.mpr ⟨c, t, rfl, h.lexeme_eq hlexeme ?_ ?_, h.stable⟩
    · simpa using ⟨hl, hword, hnumber⟩
    · -- a dollar sign by itself is not in front of a placeholder
      exact fun hdollar m hm hk => (hunfused m hm hk).2 hdollar
  · rw [List.map_cons, hown, lexemeText_cons, lexemeText_cons]
    exact h.marked.append _

/-- Where a dollar sign quotes, the numbered lexemes are what the numbered text splits into, if no
placeholder directly follows a word or a lone dollar sign. -/
theorem of_isChain (names : List String) (hr : r.dollarQuotes = true) {ls : List Lexeme}
    (h : Stable r ls) (hunfused : ls.IsChain Unfused) : Numbering r names ls := by
  induction ls with
  | nil => exact ⟨stable_nil, .inl rfl⟩
  | cons l ls ih =>
    obtain ⟨-, -, -, -, hls⟩ := stable_cons_iff.mp h
    obtain ⟨hfirst, hrest⟩ := List.isChain_cons.mp hunfused
    by_cases hl : l.kind = .placeholder
    · obtain ⟨kind, text⟩ := l
      obtain rfl : kind = .placeholder := hl
      exact (ih hls hrest).placeholder hr h
    · exact (ih hls hrest).stays hl h hfirst

end Numbering

/-! ## Numbers in a text -/

/-- A dollar sign and digits. -/
def Lexeme.isNumbered (l : Lexeme) : Bool :=
  l.kind = .symbol && l.text.head? = some '$' && l.text ≠ ['$'] && (l.text.drop 1).all Char.isDigit

/-- A placeholder with a name is not a numbered one. -/
theorem Lexeme.isNumbered_of_placeholder {l : Lexeme} (h : l.kind = .placeholder) :
    l.isNumbered = false := by
  simp [isNumbered, h]

/-- What a placeholder is replaced by is a numbered one. -/
theorem isNumbered_numberText (name : String) :
    Lexeme.isNumbered ⟨.symbol, numberText names name⟩ = true := by
  have hall : (Nat.toDigits 10 (numberOf names name)).all Char.isDigit = true := by
    rw [List.all_eq_true]
    exact fun c hc => Nat.isDigit_of_mem_toDigits (b := 10) (by decide) (by decide) hc
  have hne : Nat.toDigits 10 (numberOf names name) ≠ [] := Nat.toDigits_ne_nil
  simp [Lexeme.isNumbered, numberText, hall, hne]

/-- What is numbered behind the change was so before, or is a placeholder. -/
theorem isNumbered_numbered (l : Lexeme) :
    (l.numbered names).isNumbered = (decide (l.kind = .placeholder) || l.isNumbered) := by
  by_cases hl : l.kind = .placeholder
  · have hown : l.placeholder? = some (String.ofList (l.text.drop 1)) := if_pos hl
    rw [Lexeme.numbered, hown, decide_eq_true hl, Bool.true_or]
    exact isNumbered_numberText _
  · rw [Lexeme.numbered_of_ne names hl, decide_eq_false hl, Bool.false_or]

/-- All numbers of a numbered text stand for its placeholders, in their order, if and only if there
were no numbers before. -/
theorem filter_isNumbered_eq_iff (ls : List Lexeme) :
    (ls.map (Lexeme.numbered names)).filter Lexeme.isNumbered =
        (ls.filter (·.kind = .placeholder)).map (Lexeme.numbered names) ↔
      ∀ l ∈ ls, l.isNumbered = false := by
  -- the numbered lexemes are the placeholders and those that were numbered before
  have hfilter : (ls.map (Lexeme.numbered names)).filter Lexeme.isNumbered =
      (ls.filter fun l => decide (l.kind = .placeholder) || l.isNumbered).map
        (Lexeme.numbered names) := by
    rw [List.filter_map]
    congr 2
    exact funext isNumbered_numbered
  rw [hfilter]
  constructor
  · -- as many lexemes as there are placeholders
    intro heq l hl
    have hwithin : (ls.filter fun l => decide (l.kind = .placeholder) || l.isNumbered).filter
        (·.kind = .placeholder) = ls.filter (·.kind = .placeholder) := by
      rw [List.filter_filter]
      exact List.filter_congr fun k _ => by simp +contextual
    have hlen := congrArg List.length heq
    rw [List.length_map, List.length_map, ← hwithin, eq_comm,
      List.length_filter_eq_length_iff] at hlen
    refine Bool.eq_false_iff.mpr fun hnumber => ?_
    have hkind := hlen l (List.mem_filter.mpr ⟨hl, by rw [hnumber, Bool.or_true]⟩)
    rw [Lexeme.isNumbered_of_placeholder (of_decide_eq_true hkind)] at hnumber
    cases hnumber
  · intro hnone
    congr 1
    exact List.filter_congr fun l hl => by rw [hnone l hl, Bool.or_false]

/-! ## Numbered scans -/

namespace Positional

/-- The binds that are found have the names that were looked for, in order. -/
theorem names_bindsOf {bs found : Binds} {names : List String} (h : bindsOf bs names = .ok found) :
    found.names = names := by
  induction names generalizing found with
  | nil =>
    cases h
    rfl
  | cons name names ih =>
    rw [bindsOf] at h
    split at h
    · cases h
    · next b hb =>
      obtain ⟨more, hmore, hfound⟩ := bind_eq_ok.mp h
      cases hfound
      -- what is found under a name has that name
      have hname := List.find?_some hb
      exact congrArg₂ _ (eq_of_beq hname) (ih hmore)

/-- The binds of names are those that are found under them. -/
theorem map_some_bindsOf {bs found : Binds} {names : List String}
    (h : bindsOf bs names = .ok found) : found.map some = names.map bs.get? := by
  induction names generalizing found with
  | nil =>
    cases h
    rfl
  | cons name names ih =>
    rw [bindsOf] at h
    split at h
    · cases h
    · -- the first name is looked up, and then the others
      next b hb =>
      obtain ⟨more, hmore, hfound⟩ := bind_eq_ok.mp h
      cases hfound
      rw [List.map_cons, List.map_cons, ih hmore, hb]

theorem exists_bindsOf {bs : Binds} {names : List String} (h : ∀ name ∈ names, name ∈ bs.names) :
    ∃ found, bindsOf bs names = .ok found := by
  induction names with
  | nil => exact ⟨[], rfl⟩
  | cons name names ih =>
    obtain ⟨hfirst, hrest⟩ := List.forall_mem_cons.mp h
    obtain ⟨b, hb⟩ : ∃ b, bs.get? name = some b := by
      obtain ⟨b, hb, rfl⟩ := List.mem_map.mp hfirst
      -- a search among the binds comes upon this one at the latest
      rw [← Option.isSome_iff_exists, Binds.get?, List.find?_isSome]
      exact ⟨b, hb, beq_self_eq_true b.name⟩
    obtain ⟨more, hmore⟩ := ih hrest
    refine ⟨b :: more, ?_⟩
    rw [bindsOf, hb, hmore]
    rfl

/-- A text whose placeholders all have binds is numbered. -/
theorem exists_ofScan {found : Scan} {bs : Binds}
    (h : ∀ name ∈ found.tokens.filterMap (·.placeholder?), name ∈ bs.names) :
    ∃ p, ofScan found bs = .ok p := by
  have hnames : ∀ name ∈ placeholderNames found.tokens, name ∈ bs.names :=
    fun name hname => h name ((mem_firsts _ name).mp hname)
  obtain ⟨binds, hbinds⟩ := exists_bindsOf hnames
  rw [ofScan, hbinds]
  exact ⟨_, rfl⟩

/-- Where the names of a text are numbered, all of them have binds. -/
theorem mem_names_of_ofScan {found : Scan} {bs : Binds} {p : Positional}
    (h : ofScan found bs = .ok p) :
    ∀ name ∈ found.tokens.filterMap (·.placeholder?), name ∈ bs.names := by
  intro name hname
  obtain ⟨binds, hbinds, -⟩ := bind_eq_ok.mp h
  -- the bind of each name was found
  have hget : bs.get? name ∈ binds.map some := by
    rw [map_some_bindsOf hbinds]
    exact List.mem_map_of_mem ((mem_firsts _ name).mpr hname)
  obtain ⟨b, -, hb⟩ := List.mem_map.mp hget
  have hb := hb.symm
  refine List.mem_map.mpr ⟨b, List.mem_of_find?_eq_some hb, ?_⟩
  exact eq_of_beq (List.find?_some (p := fun c : Bind => c.name == name) hb)

/-- A numbered statement has its names in order, and its tokens with their numbers. -/
theorem ofScan_eq_ok {found : Scan} {bs : Binds} {p : Positional} (h : ofScan found bs = .ok p) :
    p.binds.names = placeholderNames found.tokens ∧
      p.sql.toList = (found.tokens.flatMap fun t =>
        t.gap ++ t.numbered (placeholderNames found.tokens)) ++ found.rest := by
  obtain ⟨binds, hbinds, hp⟩ := bind_eq_ok.mp h
  cases hp
  exact ⟨names_bindsOf hbinds, String.toList_ofList⟩

/-- No lexemes are fused if no tokens without a gap between them are. -/
theorem isChain_unfused {ps : List Piece} {tail : List Lexeme}
    (h : Stable r (pieceLexemes ps ++ tail)) (htail : ∀ l ∈ tail, l.isGap = true)
    (hunfused : (pieceTokens ps).IsChain fun t u => u.gap = [] → Unfused t.lexeme u.lexeme) :
    (pieceLexemes ps ++ tail).IsChain Unfused := by
  -- gaps touch nothing, in front of a lexeme or behind it
  have hbefore : ∀ l m : Lexeme, m.isGap = true → Unfused l m := by
    intro l m hm hk
    simp [Lexeme.isGap, hk] at hm
  have hbehind : ∀ l m : Lexeme, l.isGap = true → Unfused l m := by
    intro l m hl _
    refine ⟨fun hk => by simp [Lexeme.isGap, hk] at hl, ?_⟩
    rintro rfl
    cases hl
  have hown : Stable r (pieceLexemes ps) := by
    have hcut := h.cut stable_nil separated_nil fun _ => ended_pieceLexemes ps
    rwa [List.append_nil] at hcut
  refine (isChain_pieceLexemes (fun l m _ hm _ => hbefore l m hm) hbehind hown hunfused).append
    (List.pairwise_of_forall_mem_list fun l hl m _ => hbehind l m (htail l hl)).isChain ?_
  exact fun l _ m hm => hbefore l m (htail m (List.mem_of_head? hm))

/-- The text of tokens with their placeholders numbered is that of their lexemes. -/
theorem text_numbered (names : List String) (ps : List Piece) :
    ((pieceTokens ps).flatMap fun t => t.gap ++ t.numbered names) =
      lexemeText ((pieceLexemes ps).map (Lexeme.numbered names)) := by
  -- a token is numbered as its lexeme is
  have htoken : ∀ t : Token, t.numbered names = (t.lexeme.numbered names).text := by
    intro t
    have hsame : t.lexeme.placeholder? = t.placeholder? := rfl
    rw [Token.numbered, Lexeme.numbered, hsame]
    cases t.placeholder? <;> rfl
  induction ps with
  | nil => rfl
  | cons p ps ih =>
    have hgap := map_numbered_of_blank names p.blank
    rw [pieceLexemes_cons, List.map_append, List.map_cons, hgap, lexemeText_append, lexemeText_cons,
      ← ih, ← htoken, ← p.gap_eq, ← List.append_assoc]
    rfl

/-- A scanned text with its placeholders numbered is scanned as it was, with a number in the place
of each placeholder, if no placeholder directly follows a word or a lone dollar sign. The numbers
are the places of the names among the binds, from one; and they are all that the text has, if
and only if it had none before. -/
theorem scan_ofScan {s : List Char} {found : Scan} {bs : Binds} {p : Positional}
    (hscan : scan .postgres s = .ok found) (hp : ofScan found bs = .ok p)
    (hunfused : found.tokens.IsChain fun t u => u.gap = [] → Unfused t.lexeme u.lexeme) :
    ∃ numbered, scan .postgres p.sql.toList = .ok numbered ∧
      numbered.tokens.map Token.outline =
        found.tokens.map (fun t => t.outline.numbered p.binds.names) ∧
      p.binds.names = placeholderNames found.tokens ∧
      ((numbered.tokens.map Token.lexeme).filter Lexeme.isNumbered =
          ((found.tokens.map Token.lexeme).filter (·.kind = .placeholder)).map
            (Lexeme.numbered p.binds.names) ↔
        ∀ t ∈ found.tokens, t.lexeme.isNumbered = false) := by
  obtain ⟨hnames, htext⟩ := ofScan_eq_ok hp
  rw [← hnames] at htext
  obtain ⟨ls, hstable, -, hnest⟩ := lexemes_of_scan hscan
  obtain ⟨ps, tail, rfl, htail, hrest, htokens⟩ := exists_pieces blank_nil hnest
  have houtline := outlineFrom_of_nestFrom hnest
  dsimp only at hrest htokens houtline
  rw [htokens] at hunfused
  -- lexemes, unlike tokens, have their gaps between them
  have hchain := isChain_unfused hstable htail hunfused
  have hnumbering := Numbering.of_isChain p.binds.names rfl hstable hchain
  obtain ⟨numbered, hnumbered, houtlines⟩ :=
    exists_scan_of_outline hnumbering.stable (outlineFrom_numbered houtline)
  have hall : p.sql.toList =
      lexemeText ((pieceLexemes ps ++ tail).map (Lexeme.numbered p.binds.names)) := by
    rw [htext, htokens, text_numbered, List.map_append, lexemeText_append,
      map_numbered_of_blank _ htail, hrest]
  rw [List.map_map] at houtlines
  refine ⟨numbered, by rw [hall]; exact hnumbered, houtlines, hnames, ?_⟩
  -- forgetting the depths
  have hlexemes : numbered.tokens.map Token.lexeme =
      (found.tokens.map Token.lexeme).map (Lexeme.numbered p.binds.names) := by
    have hkinds := congrArg (List.map fun o : Outline => (⟨o.kind, o.text⟩ : Lexeme)) houtlines
    rw [List.map_map, List.map_map] at hkinds
    rw [List.map_map]
    exact hkinds
  rw [hlexemes, filter_isNumbered_eq_iff, List.forall_mem_map]

/-- A name that is asked for twice, the first time behind the colon of a slice. -/
theorem scan_ofScan_of_slice :
    ∃ found p numbered,
      scan .postgres "SELECT a[1:n], $q$ :x $q$ FROM t WHERE b=:m AND c=:n".toList = .ok found ∧
      (∀ t ∈ found.tokens, t.lexeme.isNumbered = false) ∧
      ofScan found [⟨"m", .int 1⟩, ⟨"n", .int 2⟩] = .ok p ∧
      p.sql = "SELECT a[1$1], $q$ :x $q$ FROM t WHERE b=$2 AND c=$1" ∧
      scan .postgres p.sql.toList = .ok numbered ∧
      numbered.tokens.map Token.outline =
        found.tokens.map (fun t => t.outline.numbered p.binds.names) ∧
      (numbered.tokens.map Token.lexeme).filter Lexeme.isNumbered =
        [⟨.symbol, ['$', '1']⟩, ⟨.symbol, ['$', '2']⟩, ⟨.symbol, ['$', '1']⟩] := by
  obtain ⟨found, hscan, hunfused, hnone, hnames, hnumbers, hp⟩ : ∃ found,
      scan .postgres "SELECT a[1:n], $q$ :x $q$ FROM t WHERE b=:m AND c=:n".toList = .ok found ∧
      (found.tokens.IsChain fun t u => u.gap = [] → Unfused t.lexeme u.lexeme) ∧
      (∀ t ∈ found.tokens, t.lexeme.isNumbered = false) ∧
      placeholderNames found.tokens = ["n", "m"] ∧
      ((found.tokens.map Token.lexeme).filter (·.kind = .placeholder)).map
          (Lexeme.numbered ["n", "m"]) =
        [⟨.symbol, ['$', '1']⟩, ⟨.symbol, ['$', '2']⟩, ⟨.symbol, ['$', '1']⟩] ∧
      (ofScan found [⟨"m", .int 1⟩, ⟨"n", .int 2⟩]).toOption.any (fun p => decide
        (p.sql = "SELECT a[1$1], $q$ :x $q$ FROM t WHERE b=$2 AND c=$1")) = true :=
    exists_eq_ok_of_any (by decide +kernel)
  obtain ⟨p, hp, hsql⟩ := exists_eq_ok_of_any hp
  -- the placeholder behind the colon of the slice is found in both texts
  obtain ⟨numbered, hscanned, houtlines, hbinds, hall⟩ := scan_ofScan hscan hp hunfused
  refine ⟨found, p, numbered, hscan, hnone, hp, hsql, hscanned, houtlines, ?_⟩
  -- the text has no numbers of its own, so all that are read back are for names
  rw [hall.mpr hnone, hbinds, hnames, hnumbers]

/-- A word takes the number behind it: the text has no number at all. -/
theorem word_takes_number :
    ∃ found p numbered, scan .postgres "SELECT x:n FROM t".toList = .ok found ∧
      found.tokens.filterMap (·.placeholder?) = ["n"] ∧
      ofScan found [⟨"n", .int 1⟩] = .ok p ∧ p.sql = "SELECT x$1 FROM t" ∧
      scan .postgres p.sql.toList = .ok numbered ∧
      numbered.tokens.map Token.lexeme =
        [⟨.word, "SELECT".toList⟩, ⟨.word, "x$1".toList⟩, ⟨.word, "FROM".toList⟩,
          ⟨.word, "t".toList⟩] := by
  obtain ⟨found, hscan, hnames, hp⟩ : ∃ found,
      scan .postgres "SELECT x:n FROM t".toList = .ok found ∧
      found.tokens.filterMap (·.placeholder?) = ["n"] ∧
      (ofScan found [⟨"n", .int 1⟩]).toOption.any (fun p => decide
        (p.sql = "SELECT x$1 FROM t")) = true := exists_eq_ok_of_any (by decide +kernel)
  obtain ⟨p, hp, hsql⟩ := exists_eq_ok_of_any hp
  -- the word and the number behind it are one lexeme
  obtain ⟨numbered, hscanned, hlexemes⟩ : ∃ numbered,
      scan .postgres "SELECT x$1 FROM t".toList = .ok numbered ∧
      numbered.tokens.map Token.lexeme =
        [⟨.word, "SELECT".toList⟩, ⟨.word, "x$1".toList⟩, ⟨.word, "FROM".toList⟩,
          ⟨.word, "t".toList⟩] := exists_eq_ok_of_any (by decide +kernel)
  exact ⟨found, p, numbered, hscan, hnames, hp, hsql, by rwa [hsql], hlexemes⟩

/-- A number that the text has already stands for the first name as well. -/
theorem number_not_named :
    ∃ found p numbered, scan .postgres "SELECT $1, :a".toList = .ok found ∧
      found.tokens.filterMap (·.placeholder?) = ["a"] ∧
      ofScan found [⟨"a", .int 1⟩] = .ok p ∧ p.sql = "SELECT $1, $1" ∧ p.binds = [⟨"a", .int 1⟩] ∧
      scan .postgres p.sql.toList = .ok numbered ∧
      (numbered.tokens.map Token.lexeme).filter Lexeme.isNumbered =
        [⟨.symbol, ['$', '1']⟩, ⟨.symbol, ['$', '1']⟩] := by
  obtain ⟨found, hscan, hnames, hp⟩ : ∃ found, scan .postgres "SELECT $1, :a".toList = .ok found ∧
      found.tokens.filterMap (·.placeholder?) = ["a"] ∧
      (ofScan found [⟨"a", .int 1⟩]).toOption.any (fun p => decide
        (p.sql = "SELECT $1, $1" ∧ p.binds = [⟨"a", .int 1⟩])) = true :=
    exists_eq_ok_of_any (by decide +kernel)
  obtain ⟨p, hp, hsql, hbinds⟩ := exists_eq_ok_of_any hp
  -- two numbers are read back, but only one of them was written for a name
  obtain ⟨numbered, hscanned, hnumbers⟩ : ∃ numbered,
      scan .postgres "SELECT $1, $1".toList = .ok numbered ∧
      (numbered.tokens.map Token.lexeme).filter Lexeme.isNumbered =
        [⟨.symbol, ['$', '1']⟩, ⟨.symbol, ['$', '1']⟩] := exists_eq_ok_of_any (by decide +kernel)
  exact ⟨found, p, numbered, hscan, hnames, hp, hsql, hbinds, by rwa [hsql], hnumbers⟩

end Positional

end SqlPaging.Sql
