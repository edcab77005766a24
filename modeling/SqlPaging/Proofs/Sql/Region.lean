import SqlPaging.Sql.Lexeme

/-!
# SqlPaging — where regions end

Words, comments, quoted regions and dollar tags end where a character tells so, and
what comes behind that is not looked at. So what follows a region can be taken away and
other text put there, provided that the new text starts with a *separator*: a space or a
parenthesis, which no lexeme draws in. The one exception is a comment that the end of
the text closes.

Main results:

* `runLength_cut`, `lineLength_cut`, `commentLength?_cut`, `quotedLength?_cut`,
  `throughMark?_cut`, `dollarTag?_cut` — regions end where they ended.
-/

namespace SqlPaging.Sql

/-- A character that no lexeme but its own has. -/
def isSeparator (c : Char) : Bool := c = ' ' || c = '(' || c = ')'

/-- A text that starts with a separator, if it is not empty. -/
def Separated (s : List Char) : Prop := ∀ c ∈ s.head?, isSeparator c = true

theorem separated_nil : Separated [] := by simp [Separated]

theorem separated_cons {c : Char} (h : isSeparator c = true) (s : List Char) :
    Separated (c :: s) := by simpa [Separated] using h

/-- What holds of all separators holds of the first character of a separated text. -/
theorem Separated.head {s : List Char} (h : Separated s) {p : Char → Prop} (hspace : p ' ')
    (hopen : p '(') (hclose : p ')') : ∀ c ∈ s.head?, p c := by
  intro c hc
  have hsep := h c hc
  simp only [isSeparator, Bool.or_eq_true, decide_eq_true_eq] at hsep
  rcases hsep with (rfl | rfl) | rfl
  · exact hspace
  · exact hopen
  · exact hclose

/-! ## Runs -/

theorem runLength_nil (p : Char → Bool) : runLength p [] = 0 := rfl

/-- A run goes on as long as the test is passed. -/
theorem runLength_cons (p : Char → Bool) (c : Char) (s : List Char) :
    runLength p (c :: s) = if p c then runLength p s + 1 else 0 := by
  rw [runLength, List.takeWhile_cons]
  split
  · rfl
  · rfl

/-- A run ends behind a text if all characters of the text belong to it, and the next
one does not. -/
theorem runLength_append_eq_length_iff {p : Char → Bool} {s t : List Char} :
    runLength p (s ++ t) = s.length ↔
      (∀ c ∈ s, p c = true) ∧ ∀ c ∈ t.head?, p c = false := by
  induction s with
  | nil =>
    cases t with
    | nil => simp [runLength_nil]
    | cons c t => cases hc : p c <;> simp [runLength_cons, hc]
  | cons c s ih =>
    rw [List.cons_append, runLength_cons, List.length_cons]
    cases hc : p c with
    | false => simp [hc]
    | true => simpa [hc] using ih

/-- A run that ends within a text stays as it is, and so does one that ends at the cut if
the new text does not go on with it. -/
theorem runLength_cut {p : Char → Bool} {s t u : List Char} (h : runLength p (s ++ t) ≤ s.length)
    (hu : runLength p (s ++ t) = s.length → ∀ c ∈ u.head?, p c = false) :
    runLength p (s ++ u) = runLength p (s ++ t) := by
  induction s with
  | nil =>
    -- the run stops where the text does
    have hzero := Nat.le_zero.mp h
    rw [hzero]
    exact runLength_append_eq_length_iff.mpr ⟨nofun, hu hzero⟩
  | cons c s ih =>
    simp only [List.cons_append, runLength_cons, List.length_cons] at h hu ⊢
    split
    · next hc =>
      simp only [hc, if_true] at h hu
      rw [ih (by omega) fun heq => hu (by omega)]
    · rfl

theorem runLength_le (p : Char → Bool) (s : List Char) : runLength p s ≤ s.length :=
  (List.takeWhile_sublist p).length_le

/-! ## Comments -/

theorem lineLength_le (s : List Char) : lineLength s ≤ s.length := by
  induction s with
  | nil => simp [lineLength]
  | cons c s ih =>
    rw [lineLength, List.length_cons]
    split <;> omega

/-- A line takes at least one character, where there is one. -/
theorem lineLength_pos (c : Char) (s : List Char) : 0 < lineLength (c :: s) := by
  rw [lineLength]
  split <;> omega

/-- A comment to the end of the line that ends before the cut, or in front of other
text, stays as it is. -/
theorem lineLength_cut {s t : List Char} (h : lineLength (s ++ t) ≤ s.length)
    (ht : t = [] → lineLength (s ++ t) < s.length) (u : List Char) :
    lineLength (s ++ u) = lineLength (s ++ t) := by
  induction s with
  | nil =>
    cases t with
    | nil => exact absurd (ht rfl) (by simp [lineLength])
    | cons c t =>
      -- a line in front of more text takes one character at least
      have := lineLength_pos c t
      rw [List.nil_append, List.length_nil] at h
      omega
  | cons c s ih =>
    simp only [List.cons_append, lineLength, List.length_cons] at h ht ⊢
    split
    · rfl
    · next hc =>
      simp only [hc, if_false] at h ht
      rw [ih (by omega) (fun hnil => by have := ht hnil; omega)]

/-- A comment that is closed has its closing mark within the text. -/
theorem commentLength?_bounds {nested : Bool} {depth : Nat} {s : List Char} {n : Nat}
    (h : commentLength? nested depth s = some n) : 2 ≤ n ∧ n ≤ s.length := by
  -- two characters close a comment, and all others are counted on top
  fun_induction commentLength? nested depth s generalizing n with
  | case1 => cases h
  | case2 => cases h
  | case3 depth c d s hclose hdepth =>
    cases h
    simp
  | case4 depth c d s hclose hdepth ih =>
    obtain ⟨m, hm, rfl⟩ := Option.map_eq_some_iff.mp h
    have := ih hm
    simp only [List.length_cons]
    omega
  | case5 depth c d s hclose hopen ih =>
    obtain ⟨m, hm, rfl⟩ := Option.map_eq_some_iff.mp h
    have := ih hm
    simp only [List.length_cons]
    omega
  | case6 depth c d s hclose hopen ih =>
    obtain ⟨m, hm, rfl⟩ := Option.map_eq_some_iff.mp h
    have := ih hm
    simp only [List.length_cons] at this ⊢
    omega

/-- A list that is long enough to hold the first two characters of an appended one has
them itself. -/
private theorem exists_two {c d : Char} {s t rest : List Char} (h : c :: d :: rest = s ++ t)
    (hlen : 2 ≤ s.length) : ∃ s', s = c :: d :: s' ∧ rest = s' ++ t := by
  match s, hlen with
  | a :: b :: s', _ =>
    simp only [List.cons_append, List.cons.injEq] at h
    obtain ⟨rfl, rfl, rfl⟩ := h
    exact ⟨s', rfl, rfl⟩

/-- A comment that is closed within a text is closed there whatever follows. -/
theorem commentLength?_cut {nested : Bool} {depth : Nat} {s t : List Char} {n : Nat}
    (h : commentLength? nested depth (s ++ t) = some n) (hn : n ≤ s.length) (u : List Char) :
    commentLength? nested depth (s ++ u) = some n := by
  -- each step of the comment stays within the first part, of which it takes its characters
  have htwo := (commentLength?_bounds h).1
  generalize htext : s ++ t = text at h
  fun_induction commentLength? nested depth text generalizing s n with
  | case1 => cases h
  | case2 => cases h
  | case3 depth c d rest hclose hdepth =>
    cases h
    obtain ⟨s, rfl, rfl⟩ := exists_two htext.symm hn
    simp [commentLength?, hclose, hdepth]
  | case4 depth c d rest hclose hdepth ih =>
    obtain ⟨m, hm, rfl⟩ := Option.map_eq_some_iff.mp h
    obtain ⟨s, rfl, rfl⟩ := exists_two htext.symm (by omega)
    have hrest := ih (s := s) (by simpa using hn) (commentLength?_bounds hm).1 rfl hm
    simp only [List.cons_append, commentLength?, hclose, hdepth, if_true, if_false, hrest,
      Option.map_some]
  | case5 depth c d rest hclose hopen ih =>
    obtain ⟨m, hm, rfl⟩ := Option.map_eq_some_iff.mp h
    obtain ⟨s, rfl, rfl⟩ := exists_two htext.symm (by omega)
    have hrest := ih (s := s) (by simpa using hn) (commentLength?_bounds hm).1 rfl hm
    simp only [List.cons_append, commentLength?, hclose, hopen, if_true, if_false, hrest,
      Option.map_some, Bool.false_eq_true]
  | case6 depth c d rest hclose hopen ih =>
    obtain ⟨m, hm, rfl⟩ := Option.map_eq_some_iff.mp h
    have hm2 := (commentLength?_bounds hm).1
    obtain ⟨s, rfl, rfl⟩ := exists_two htext.symm (by omega)
    -- the character behind is looked at, and it is in the first part as well
    have hrest := ih (s := d :: s) (by simpa using hn) hm2 rfl hm
    simp only [List.cons_append, commentLength?, hclose, hopen, if_false, Bool.false_eq_true]
    rw [← List.cons_append, hrest, Option.map_some]

/-! ## Quoted regions -/

/-- A list that is long enough to hold the first character of an appended one has it
itself. -/
private theorem exists_one {c : Char} {s t rest : List Char} (h : c :: rest = s ++ t)
    (hlen : 1 ≤ s.length) : ∃ s', s = c :: s' ∧ rest = s' ++ t := by
  match s, hlen with
  | a :: s', _ =>
    simp only [List.cons_append, List.cons.injEq] at h
    obtain ⟨rfl, rfl⟩ := h
    exact ⟨s', rfl, rfl⟩

/-- A quotation that is closed has its closing quote within the text. -/
theorem quotedLength?_bounds {quote : Char} {escapes : Bool} {s : List Char} {n : Nat}
    (h : quotedLength? quote escapes s = some n) : 1 ≤ n ∧ n ≤ s.length := by
  -- one character closes a quotation, and all others are counted on top
  fun_induction quotedLength? quote escapes s generalizing n with
  | case1 => cases h
  | case2 => cases h
  | case3 c hc d s ih =>
    obtain ⟨m, hm, rfl⟩ := Option.map_eq_some_iff.mp h
    have := ih hm
    simp only [List.length_cons]
    omega
  | case4 => cases h; simp
  | case5 s hq ih =>
    obtain ⟨m, hm, rfl⟩ := Option.map_eq_some_iff.mp h
    have := ih hm
    simp only [List.length_cons]
    omega
  | case6 => cases h; simp
  | case7 c s hc hquote ih =>
    obtain ⟨m, hm, rfl⟩ := Option.map_eq_some_iff.mp h
    have := ih hm
    simp only [List.length_cons]
    omega

/-- A closing quote in front of text that does not start with a quote closes. -/
private theorem quotedLength?_closing {quote : Char} {escapes : Bool} {u : List Char}
    (hq : ¬ (escapes && decide (quote = '\\')) = true) (hu : ∀ c ∈ u.head?, c ≠ quote) :
    quotedLength? quote escapes (quote :: u) = some 1 := by
  cases u with
  | nil => simp only [quotedLength?, hq, if_true, if_false, Bool.false_eq_true]
  | cons c u =>
    have hc : c ≠ quote := hu c rfl
    simp only [quotedLength?, hq, hc, if_true, if_false, Bool.false_eq_true]

/-- A quoted region that ends within a text ends there whatever follows, unless what
follows doubles its quote. -/
theorem quotedLength?_cut {quote : Char} {escapes : Bool} {s t u : List Char} {n : Nat}
    (h : quotedLength? quote escapes (s ++ t) = some n) (hn : n ≤ s.length)
    (hu : ∀ c ∈ u.head?, c ≠ quote) : quotedLength? quote escapes (s ++ u) = some n := by
  have hpos := (quotedLength?_bounds h).1
  -- along the region, whose steps take one character or two from the first part
  generalize htext : s ++ t = text at h
  fun_induction quotedLength? quote escapes text generalizing s n with
  | case1 => cases h
  | case2 => cases h
  | case3 c hc d rest ih =>
    obtain ⟨m, hm, rfl⟩ := Option.map_eq_some_iff.mp h
    obtain ⟨s, rfl, rfl⟩ := exists_two htext.symm (by omega)
    have hrest := ih (s := s) (by simpa using hn) (quotedLength?_bounds hm).1 rfl hm
    simp only [List.cons_append, quotedLength?, hc, if_true, hrest, Option.map_some]
  | case4 hq =>
    cases h
    obtain ⟨s, rfl, hs⟩ := exists_one htext.symm hn
    obtain ⟨rfl, -⟩ := List.append_eq_nil_iff.mp hs.symm
    exact quotedLength?_closing hq hu
  | case5 rest hq ih =>
    obtain ⟨m, hm, rfl⟩ := Option.map_eq_some_iff.mp h
    obtain ⟨s, rfl, rfl⟩ := exists_two htext.symm (by omega)
    have hrest := ih (s := s) (by simpa using hn) (quotedLength?_bounds hm).1 rfl hm
    simp only [List.cons_append, quotedLength?, hq, if_true, if_false, Bool.false_eq_true, hrest,
      Option.map_some]
  | case6 c rest hc hq =>
    cases h
    obtain ⟨s, rfl, hs⟩ := exists_one htext.symm hn
    apply quotedLength?_closing hq
    cases s with
    | nil => exact hu
    | cons d s =>
      -- the character after the quote is still the one that shows that it closes
      obtain ⟨rfl, -⟩ := List.cons.inj hs
      intro x hx
      obtain rfl : c = x := Option.some.inj hx
      exact hc
  | case7 c rest hq hc ih =>
    obtain ⟨m, hm, rfl⟩ := Option.map_eq_some_iff.mp h
    obtain ⟨s, rfl, rfl⟩ := exists_one htext.symm (by omega)
    have hrest := ih (s := s) (by simpa using hn) (quotedLength?_bounds hm).1 rfl hm
    rw [List.cons_append]
    unfold quotedLength?
    simp only [hq, hc, if_false, Bool.false_eq_true, hrest, Option.map_some]

/-- The character behind a closing quote is not the quote again. -/
theorem quotedLength?_getElem?_ne {quote : Char} {escapes : Bool} {s : List Char} {n : Nat}
    (h : quotedLength? quote escapes s = some n) : s[n]? ≠ some quote := by
  fun_induction quotedLength? quote escapes s generalizing n with
  | case1 => cases h
  | case2 => cases h
  | case3 c hc d s ih =>
    obtain ⟨m, hm, rfl⟩ := Option.map_eq_some_iff.mp h
    exact ih hm
  | case4 hq =>
    cases h
    exact nofun
  | case5 s hq ih =>
    obtain ⟨m, hm, rfl⟩ := Option.map_eq_some_iff.mp h
    exact ih hm
  | case6 c s hc hq =>
    cases h
    -- a second quote would have doubled the first one
    simpa using hc
  | case7 c s hc hquote ih =>
    obtain ⟨m, hm, rfl⟩ := Option.map_eq_some_iff.mp h
    exact ih hm

/-- A mark that is found lies within the text. -/
theorem throughMark?_bounds {mark s : List Char} {n : Nat} (h : throughMark? mark s = some n) :
    mark.length ≤ n ∧ n ≤ s.length := by
  fun_induction throughMark? mark s generalizing n with
  | case1 hmark =>
    cases h
    simpa using hmark
  | case2 => cases h
  | case3 c s hp =>
    cases h
    -- the mark stands here, so it lies within the text
    exact ⟨Nat.le_refl _, (List.isPrefixOf_iff_prefix.mp hp).length_le⟩
  | case4 c s hp ih =>
    obtain ⟨m, hm, rfl⟩ := Option.map_eq_some_iff.mp h
    have := ih hm
    simp only [List.length_cons]
    omega

/-- A mark that is found within a text is found there whatever follows: before that
place, the text is still longer than the mark. -/
theorem throughMark?_cut {mark s t : List Char} {n : Nat} (hmark : mark ≠ [])
    (h : throughMark? mark (s ++ t) = some n) (hn : n ≤ s.length) (u : List Char) :
    throughMark? mark (s ++ u) = some n := by
  have hpos := List.length_pos_iff.mpr hmark
  have hbounds := (throughMark?_bounds h).1
  generalize htext : s ++ t = text at h
  fun_induction throughMark? mark text generalizing s n with
  | case1 hnil => exact absurd (by simpa using hnil) hmark
  | case2 => cases h
  | case3 c rest hp =>
    cases h
    -- the mark fits into the first part
    have hprefix : mark <+: s := by
      rw [← htext] at hp
      exact List.prefix_of_prefix_length_le (List.isPrefixOf_iff_prefix.mp hp)
        (List.prefix_append s t) hn
    obtain ⟨s, rfl, -⟩ := exists_one htext.symm (by omega)
    rw [List.cons_append, throughMark?, if_pos]
    rw [← List.cons_append, List.isPrefixOf_iff_prefix]
    exact hprefix.trans (List.prefix_append _ u)
  | case4 c rest hp ih =>
    -- the mark is not here, and what follows the text cannot put it here
    obtain ⟨m, hm, rfl⟩ := Option.map_eq_some_iff.mp h
    obtain ⟨s, rfl, rfl⟩ := exists_one htext.symm (by omega)
    have hm' := (throughMark?_bounds hm).1
    have hrest := ih (s := s) (by simpa using hn) hm' rfl hm
    rw [List.cons_append, throughMark?, if_neg, hrest, Option.map_some]
    intro hp'
    apply hp
    rw [List.isPrefixOf_iff_prefix, ← List.cons_append] at hp' ⊢
    have hprefix : mark <+: c :: s :=
      List.prefix_of_prefix_length_le hp' (List.prefix_append _ u)
        (by rw [List.length_cons] at hn ⊢; omega)
    exact hprefix.trans (List.prefix_append _ t)

/-! ## Dollar tags -/

/-- Where the name in front of a text does not take all of its first part, the name and
the character after it are in the first part. -/
private theorem name_append {s : List Char} (h : (s.takeWhile isNameChar).length ≠ s.length)
    (t : List Char) :
    (s ++ t).takeWhile isNameChar = s.takeWhile isNameChar ∧
      (s ++ t)[(s.takeWhile isNameChar).length]? = s[(s.takeWhile isNameChar).length]? := by
  have hle := (List.takeWhile_sublist (l := s) isNameChar).length_le
  rw [List.takeWhile_append, if_neg h]
  exact ⟨rfl, List.getElem?_append_left (by omega)⟩

/-- A tag that is complete within a text is the same whatever follows. -/
theorem dollarTag?_cut {s t : List Char} {tag : List Char} (h : dollarTag? (s ++ t) = some tag)
    (hn : tag.length ≤ s.length) (u : List Char) : dollarTag? (s ++ u) = some tag := by
  by_cases hall : (s.takeWhile isNameChar).length = s.length
  · -- the tag would end behind the text
    exfalso
    unfold dollarTag? at h
    rw [List.takeWhile_append, if_pos hall] at h
    dsimp only at h
    split at h
    · cases h
    · split at h
      · cases h
        simp only [List.length_append, List.length_singleton] at hn
        omega
      · cases h
  · -- the name ends within the text, and with it the tag
    obtain ⟨hname, hnext⟩ := name_append hall t
    obtain ⟨hname', hnext'⟩ := name_append hall u
    unfold dollarTag? at h ⊢
    rw [hname] at h
    rw [hname']
    dsimp only at h ⊢
    rw [hnext']
    rw [hnext] at h
    exact h

/-- A tag is a name that does not start with a digit, and the dollar sign that ends it. -/
theorem dollarTag?_eq_some {s tag : List Char} (h : dollarTag? s = some tag) :
    ∃ v rest, s = v ++ '$' :: rest ∧ tag = v ++ ['$'] ∧ (∀ c ∈ v, isNameChar c = true) ∧
      v.head?.any Char.isDigit = false := by
  unfold dollarTag? at h
  dsimp only at h
  split at h
  · cases h
  · next hdigit =>
    split at h
    · next hmark =>
      cases h
      have hsplit := List.takeWhile_append_dropWhile (p := isNameChar) (l := s)
      -- the character behind the name is the first one of what is left
      have hat : ∀ v w : List Char, (v ++ w)[v.length]? = w.head? := by
        intro v w
        rw [List.getElem?_append_right (Nat.le_refl _), Nat.sub_self, List.head?_eq_getElem?]
      have hhead := hat (s.takeWhile isNameChar) (s.dropWhile isNameChar)
      rw [hsplit, hmark] at hhead
      obtain ⟨rest, hrest⟩ := List.head?_eq_some_iff.mp hhead.symm
      rw [hrest] at hsplit
      refine ⟨_, rest, hsplit.symm, rfl, fun c hc => ?_, by simpa using hdigit⟩
      exact List.all_eq_true.mp List.all_takeWhile c hc
    · cases h

/-- No tag starts with a digit. -/
theorem dollarTag?_of_digit {s : List Char} (h : s.head?.any Char.isDigit = true) :
    dollarTag? s = none := by
  obtain ⟨c, hc, hdigit⟩ := (Option.any_eq_true _ _).mp h
  obtain ⟨t, rfl⟩ := List.head?_eq_some_iff.mp hc
  have hname : isNameChar c = true := by rw [isNameChar, hdigit, Bool.or_true]
  unfold dollarTag?
  rw [List.takeWhile_cons, if_pos hname]
  dsimp only
  rw [List.head?_cons, Option.any_some, hdigit, if_pos rfl]

/-- Where no tag starts, none starts in front of other text whose name no dollar sign ends. -/
theorem dollarTag?_cut_none {s t u : List Char} (h : dollarTag? (s ++ t) = none)
    (hu : ∀ c ∈ (u.dropWhile isNameChar).head?, c ≠ '$') : dollarTag? (s ++ u) = none := by
  by_cases hall : (s.takeWhile isNameChar).length = s.length
  · -- a name up to the cut goes on to no dollar sign
    have hmark : (s ++ u)[(s ++ u.takeWhile isNameChar).length]? ≠ some '$' := by
      have hsplit : s ++ u = (s ++ u.takeWhile isNameChar) ++ u.dropWhile isNameChar := by
        rw [List.append_assoc, List.takeWhile_append_dropWhile]
      rw [hsplit, List.getElem?_append_right (Nat.le_refl _), Nat.sub_self,
        ← List.head?_eq_getElem?]
      exact fun hd => hu '$' hd rfl
    unfold dollarTag?
    rw [List.takeWhile_append, if_pos hall]
    dsimp only
    rw [if_neg hmark]
    split <;> rfl
  · -- the name ends within the text, where no dollar sign follows
    obtain ⟨hname, hnext⟩ := name_append hall t
    obtain ⟨hname', hnext'⟩ := name_append hall u
    unfold dollarTag? at h ⊢
    rw [hname] at h
    rw [hname']
    dsimp only at h ⊢
    rw [hnext']
    rw [hnext] at h
    exact h

end SqlPaging.Sql
