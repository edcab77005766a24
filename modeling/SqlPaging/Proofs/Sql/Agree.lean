import SqlPaging.Proofs.Sql.Stable

/-!
# SqlPaging — lexemes of two texts

Where two texts start alike, their lexemes start alike, up to any place at which both have
a lexeme that ends. This is so although what comes behind that place may differ: the last
lexeme in front of it may look at the next character, but not in a way that leaves it its
end and changes what it is.

Main results:

* `lexeme_agree` — one lexeme of two texts.
* `Stable.agree` — the lexemes of two texts up to a place.
-/

namespace SqlPaging.Sql

variable {s t u : List Char}

/-! ## Regions -/

/-- Two runs that end within the same text have the same length. -/
theorem runLength_agree {p : Char → Bool} (ht : runLength p (s ++ t) ≤ s.length)
    (hu : runLength p (s ++ u) ≤ s.length) : runLength p (s ++ t) = runLength p (s ++ u) := by
  induction s with
  | nil => exact (Nat.le_zero.mp ht).trans (Nat.le_zero.mp hu).symm
  | cons c s ih =>
    simp only [List.cons_append, runLength_cons, List.length_cons] at ht hu ⊢
    split
    · next hc =>
      rw [if_pos hc] at ht hu
      rw [ih (Nat.le_of_succ_le_succ ht) (Nat.le_of_succ_le_succ hu)]
    · rfl

theorem lineLength_agree (ht : lineLength (s ++ t) ≤ s.length)
    (hu : lineLength (s ++ u) ≤ s.length) : lineLength (s ++ t) = lineLength (s ++ u) := by
  induction s with
  | nil => exact (Nat.le_zero.mp ht).trans (Nat.le_zero.mp hu).symm
  | cons c s ih =>
    simp only [List.cons_append, lineLength, List.length_cons] at ht hu ⊢
    split
    · rfl
    · next hc =>
      rw [if_neg hc] at ht hu
      rw [ih (Nat.le_of_succ_le_succ ht) (Nat.le_of_succ_le_succ hu)]

/-- A quoted region that ends before the place ends there in every text that starts alike: the
character that shows its end is still one of the first part. -/
theorem quotedLength?_of_lt {quote : Char} {escapes : Bool} {n : Nat}
    (h : quotedLength? quote escapes (s ++ t) = some n) (hn : n < s.length) (u : List Char) :
    quotedLength? quote escapes (s ++ u) = some n := by
  -- the character behind the quotation is within the text, and it is no quote
  have hnext := quotedLength?_getElem?_ne h
  rw [List.getElem?_append_left hn] at hnext
  rw [← List.take_append_drop n s, List.append_assoc] at h ⊢
  refine quotedLength?_cut h (by rw [List.length_take]; omega) ?_
  rw [List.drop_eq_getElem_cons hn]
  intro c hc
  obtain rfl := Option.some.inj hc
  rintro heq
  rw [List.getElem?_eq_getElem hn, heq] at hnext
  exact hnext rfl

theorem quotedLength?_agree {quote : Char} {escapes : Bool} {n m : Nat}
    (ht : quotedLength? quote escapes (s ++ t) = some n) (hn : n ≤ s.length)
    (hu : quotedLength? quote escapes (s ++ u) = some m) (hm : m ≤ s.length) : n = m := by
  rcases Nat.lt_or_eq_of_le hn with hlt | rfl
  · exact Option.some.inj ((quotedLength?_of_lt ht hlt u).symm.trans hu)
  rcases Nat.lt_or_eq_of_le hm with hlt | rfl
  · exact Option.some.inj (ht.symm.trans (quotedLength?_of_lt hu hlt t))
  · rfl

/-! ## One lexeme -/

/-- Of a dollar-quoted string, the whole tag stands before the place. -/
theorem dollar_agree {r : LexicalRules} {kind kind' : LexemeKind} {n n' : Nat}
    (ht : Rule.dollar.apply r (s ++ t) = .ok (kind, n)) (hn : n ≤ s.length)
    (hu : Rule.dollar.apply r (s ++ u) = .ok (kind', n')) (hn' : n' ≤ s.length) :
    kind = kind' ∧ n = n' := by
  rw [Rule.apply] at ht
  cases htag : dollarTag? (s ++ t) with
  | some tag =>
    rw [htag] at ht
    dsimp only at ht
    cases hmark : throughMark? ('$' :: tag) ((s ++ t).drop tag.length) with
    | none =>
      rw [hmark] at ht
      cases ht
    | some m =>
      rw [hmark] at ht
      cases ht
      rw [List.drop_append_of_le_length (by omega)] at hmark
      -- the tag and the mark at the end are in the part that both texts have
      have hcut := throughMark?_cut (by simp) hmark (by rw [List.length_drop]; omega) u
      rw [Rule.apply, dollarTag?_cut htag (by omega) u] at hu
      dsimp only at hu
      rw [List.drop_append_of_le_length (by omega), hcut] at hu
      cases hu
      exact ⟨rfl, rfl⟩
  | none =>
    rw [htag] at ht
    cases ht
    rw [Rule.apply] at hu
    -- no tag in one text, but one in the other, would lie in the part that both have
    cases htag' : dollarTag? (s ++ u) with
    | none =>
      rw [htag'] at hu
      cases hu
      exact ⟨rfl, runLength_agree hn hn'⟩
    | some tag =>
      rw [htag'] at hu
      dsimp only at hu
      split at hu
      · cases hu
        rw [dollarTag?_cut htag' (by omega) t] at htag
        cases htag
      · cases hu

/-- A rule that ends within the same text takes the same lexeme. -/
theorem Rule.apply_agree {r : LexicalRules} {x : Rule} {kind kind' : LexemeKind} {n n' : Nat}
    (ht : x.apply r (s ++ t) = .ok (kind, n)) (hn : n ≤ s.length)
    (hu : x.apply r (s ++ u) = .ok (kind', n')) (hn' : n' ≤ s.length) :
    kind = kind' ∧ n = n' := by
  cases x with
  | fixed kind n =>
    cases ht
    cases hu
    exact ⟨rfl, rfl⟩
  | line =>
    cases ht
    cases hu
    exact ⟨rfl, lineLength_agree hn hn'⟩
  | block =>
    rw [apply] at ht hu
    split at ht
    · next m hm =>
      cases ht
      rw [List.drop_append_of_le_length (by omega)] at hm hu
      -- the comment ends within the part that both texts have
      rw [commentLength?_cut hm (by rw [List.length_drop]; omega) u] at hu
      cases hu
      exact ⟨rfl, rfl⟩
    · cases ht
  | quoted region quote hquote escapes skip =>
    rw [apply] at ht hu
    split at ht
    · next m hm =>
      cases ht
      split at hu
      · next m' hm' =>
        cases hu
        rw [List.drop_append_of_le_length (by omega)] at hm hm'
        have hlen : (s.drop skip).length = s.length - skip := List.length_drop
        -- a doubled quote could end otherwise behind that part, hence both lengths are needed
        rw [quotedLength?_agree hm (by omega) hm' (by omega)]
        exact ⟨rfl, rfl⟩
      · cases hu
    · cases ht
  | dollar => exact dollar_agree ht hn hu hn'
  | run kind chars =>
    cases ht
    cases hu
    exact ⟨rfl, runLength_agree hn hn'⟩

/-- Two texts that start alike have the same first lexeme, if it ends in both before they
differ. -/
theorem lexeme_agree {r : LexicalRules} {c : Char} {kind kind' : LexemeKind} {n n' : Nat}
    (ht : lexeme r c (s ++ t) = .ok (kind, n)) (hn : n ≤ s.length)
    (hu : lexeme r c (s ++ u) = .ok (kind', n')) (hn' : n' ≤ s.length) :
    kind = kind' ∧ n = n' := by
  rw [lexeme_eq_apply] at ht hu
  have hrule : rule r c (s ++ t).head? = rule r c (s ++ u).head? := by
    cases s with
    | cons d s => rfl
    | nil =>
      -- a lexeme of one character is not chosen by the next one
      obtain rfl := Nat.le_zero.mp hn
      obtain rfl := Nat.le_zero.mp hn'
      rw [rule_of_apply_zero ht, rule_of_apply_zero hu]
  rw [← hrule] at hu
  exact Rule.apply_agree ht hn hu hn'

/-! ## All lexemes -/

/-- A text has stable lexemes in one way at most. -/
theorem Stable.unique {r : LexicalRules} {ls ms : List Lexeme} (h : Stable r ls)
    (h' : Stable r ms) (htext : lexemeText ls = lexemeText ms) : ls = ms := by
  rw [Stable, htext] at h
  exact (Prod.mk.inj (h.symm.trans h')).1

/-- Lexemes with the same text are the same, whatever comes behind them. -/
theorem Stable.agree {r : LexicalRules} {ls ls' xs ys : List Lexeme} (h : Stable r (ls ++ xs))
    (h' : Stable r (ls' ++ ys)) (htext : lexemeText ls = lexemeText ls') : ls = ls' := by
  induction ls generalizing ls' with
  | nil =>
    cases ls' with
    | nil => rfl
    | cons l' ls' => exact absurd htext.symm (h'.text_ne_nil (List.cons_ne_nil l' ls'))
  | cons l ls ih =>
    cases ls' with
    | nil => exact absurd htext (h.text_ne_nil (List.cons_ne_nil l ls))
    | cons l' ls' =>
      rw [List.cons_append] at h h'
      obtain ⟨c, t, hl, hlexeme, hls⟩ := stable_cons_iff.mp h
      obtain ⟨c', t', hl', hlexeme', hls'⟩ := stable_cons_iff.mp h'
      rw [lexemeText_cons, lexemeText_cons, hl, hl', List.cons_append, List.cons_append,
        List.cons.injEq] at htext
      obtain ⟨rfl, hrest⟩ := htext
      rw [lexemeText_append, ← List.append_assoc] at hlexeme hlexeme'
      rw [← hrest] at hlexeme'
      have hle : t.length ≤ (t ++ lexemeText ls).length := by simp
      have hle' : t'.length ≤ (t ++ lexemeText ls).length := by
        rw [hrest]
        simp
      -- the first lexemes are read in front of other rests, and both end where the texts agree
      obtain ⟨hkind, hlen⟩ := lexeme_agree hlexeme hle hlexeme' hle'
      obtain ⟨rfl, htail⟩ := List.append_inj hrest hlen
      -- the first lexemes have the same text and the same kind
      have hone : l = l' := by
        obtain ⟨kind, text⟩ := l
        obtain ⟨kind', text'⟩ := l'
        dsimp only at hl hl' hkind
        rw [hl, hl', hkind]
      rw [hone, ih hls hls' htail]

end SqlPaging.Sql
