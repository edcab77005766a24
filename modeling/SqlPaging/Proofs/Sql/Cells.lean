import SqlPaging.Proofs.Sql.Woven

/-!
# SqlPaging — the lexemes of a draft

A draft has a slot for each token; a *cell* has the lexemes of a slot, with placeholders of
collections as they were. Putting text into a draft is putting lexemes into a cell, so that the
lexemes of an edited draft are known without a look at its text, and those of the draft with
collections expanded follow from them.

Main results:

* `text_slots` — the text of a draft is that of its cells with collections expanded.
* `exists_conditioned`, `exists_tailed` — the cells of a statement with a condition, and the
  lexemes with a tail as well.
-/

namespace SqlPaging.Sql

variable {r : LexicalRules} {x : Fields (List String)}

/-! ## Cells -/

/-- The lexemes of a slot. -/
structure Cell where
  gap : List Lexeme
  before : List Lexeme
  body : List Lexeme
  after : List Lexeme

namespace Cell

def lexemes (c : Cell) : List Lexeme := c.gap ++ (c.before ++ (c.body ++ c.after))

/-- The slot of a cell, with collections expanded. -/
def slot (x : Fields (List String)) (c : Cell) : Slot :=
  { gap := lexemeText (c.gap.flatMap (Lexeme.expanded x))
    before := lexemeText (c.before.flatMap (Lexeme.expanded x))
    body := lexemeText (c.body.flatMap (Lexeme.expanded x))
    after := lexemeText (c.after.flatMap (Lexeme.expanded x)) }

def ofPiece (p : Piece) : Cell := { gap := p.gap, before := [], body := [p.token.lexeme], after := [] }

def addBefore (ls : List Lexeme) (c : Cell) : Cell := { c with before := c.before ++ ls }

def addAfter (ls : List Lexeme) (c : Cell) : Cell := { c with after := c.after ++ ls }

end Cell

def cellLexemes (cs : List Cell) : List Lexeme := cs.flatMap Cell.lexemes

theorem cellLexemes_append (cs ds : List Cell) :
    cellLexemes (cs ++ ds) = cellLexemes cs ++ cellLexemes ds := List.flatMap_append

theorem cellLexemes_cons (c : Cell) (cs : List Cell) :
    cellLexemes (c :: cs) = c.lexemes ++ cellLexemes cs := rfl

/-- The text of a draft is that of its cells with collections expanded. -/
theorem text_slots (cs : List Cell) :
    Draft.text (cs.map (Cell.slot x)) = lexemeText ((cellLexemes cs).flatMap (Lexeme.expanded x)) := by
  induction cs with
  | nil => rfl
  | cons c cs ih =>
    rw [List.map_cons, Draft.text_cons, ih, cellLexemes_cons, List.flatMap_append,
      lexemeText_append, Cell.lexemes]
    simp only [Slot.text, Cell.slot, List.flatMap_append, lexemeText_append, List.append_assoc]

/-- Cells that nothing was put into have the lexemes of their pieces. -/
theorem cellLexemes_ofPiece (ps : List Piece) :
    cellLexemes (ps.map Cell.ofPiece) = pieceLexemes ps := by
  rw [cellLexemes, List.flatMap_map, pieceLexemes]
  rfl

/-- Before anything is put into them, the cells of pieces are those of their draft. -/
theorem slots_ofPiece (ps : List Piece) :
    (ps.map Cell.ofPiece).map (Cell.slot x) = Draft.ofExpanded x (pieceTokens ps) := by
  rw [List.map_map, Draft.ofExpanded, pieceTokens, List.map_map]
  refine List.map_congr_left fun p _ => ?_
  have hgap : p.gap.flatMap (Lexeme.expanded x) = p.gap :=
    flatMap_eq_self fun l hl => Lexeme.expanded_of_isGap x (p.blank l hl)
  simp only [Function.comp_apply, Cell.slot, Cell.ofPiece, Slot.ofToken, hgap, p.gap_eq,
    List.flatMap_singleton]
  rfl

/-- Text put before a slot is what lexemes put before its cell are written as. -/
theorem putBefore_slots (cs : List Cell) (i : Nat) (ls : List Lexeme) {t : List Char}
    (ht : lexemeText (ls.flatMap (Lexeme.expanded x)) = t) :
    Draft.putBefore (cs.map (Cell.slot x)) i t =
      (cs.modify i (Cell.addBefore ls)).map (Cell.slot x) := by
  refine (Draft.map_modify ?_ cs i).symm
  intro c
  simp [Cell.slot, Cell.addBefore, List.flatMap_append, lexemeText_append, ht]

theorem putAfter_slots (cs : List Cell) (i : Nat) (ls : List Lexeme) {t : List Char}
    (ht : lexemeText (ls.flatMap (Lexeme.expanded x)) = t) :
    Draft.putAfter (cs.map (Cell.slot x)) i t =
      (cs.modify i (Cell.addAfter ls)).map (Cell.slot x) := by
  refine (Draft.map_modify ?_ cs i).symm
  intro c
  simp [Cell.slot, Cell.addAfter, List.flatMap_append, lexemeText_append, ht]

/-! ## Lexemes in cells -/

/-- What is put behind a token stands in front of the next one. -/
theorem cellLexemes_addAfter {cs : List Cell} {i : Nat} (hi : i < cs.length) (ls : List Lexeme) :
    cellLexemes (cs.modify i (Cell.addAfter ls)) =
      cellLexemes (cs.take (i + 1)) ++ (ls ++ cellLexemes (cs.drop (i + 1))) := by
  have hcell : (Cell.addAfter ls cs[i]).lexemes = cs[i].lexemes ++ ls := by
    simp only [Cell.lexemes, Cell.addAfter, List.append_assoc]
  rw [List.modify_eq_take_cons_drop hi, List.take_add_one, List.getElem?_eq_getElem hi,
    cellLexemes_append, cellLexemes_append, cellLexemes_cons, hcell]
  simp [cellLexemes]

/-- What is put before a token stands behind its gap. -/
theorem cellLexemes_addBefore {cs : List Cell} {i : Nat} {c : Cell} (hc : cs[i]? = some c)
    (hfresh : c.before = []) (ls : List Lexeme) :
    cellLexemes (cs.modify i (Cell.addBefore ls)) = (cellLexemes (cs.take i) ++ c.gap) ++
      (ls ++ ((c.body ++ c.after) ++ cellLexemes (cs.drop (i + 1)))) ∧
    cellLexemes cs = (cellLexemes (cs.take i) ++ c.gap) ++
      ((c.body ++ c.after) ++ cellLexemes (cs.drop (i + 1))) := by
  obtain ⟨hi, rfl⟩ := List.getElem?_eq_some_iff.mp hc
  have hcell : (Cell.addBefore ls cs[i]).lexemes =
      cs[i].gap ++ (ls ++ (cs[i].body ++ cs[i].after)) := by
    simp only [Cell.lexemes, Cell.addBefore, hfresh, List.nil_append]
  have hown : cs[i].lexemes = cs[i].gap ++ (cs[i].body ++ cs[i].after) := by
    simp only [Cell.lexemes, hfresh, List.nil_append]
  -- with the addition, and without it
  constructor
  · rw [List.modify_eq_take_cons_drop hi, cellLexemes_append, cellLexemes_cons, hcell]
    simp only [List.append_assoc]
  · have hsplit : cs = cs.take i ++ cs[i] :: cs.drop (i + 1) := by
      rw [List.getElem_cons_drop, List.take_append_drop]
    rw [List.append_assoc, ← List.append_assoc cs[i].gap, ← hown, ← cellLexemes_cons,
      ← cellLexemes_append, ← hsplit]

/-- What is put around tokens stands in front of the first and behind the last one. -/
theorem cellLexemes_wrapped {cs : List Cell} {i j : Nat} (hij : i ≤ j) (hj : j < cs.length)
    (hfresh : ∀ c ∈ cs, c.before = []) (ls ms : List Lexeme) :
    ∃ front mid, cellLexemes cs = front ++ (mid ++ cellLexemes (cs.drop (j + 1))) ∧
      cellLexemes ((cs.modify i (Cell.addBefore ls)).modify j (Cell.addAfter ms)) =
        front ++ (ls ++ (mid ++ (ms ++ cellLexemes (cs.drop (j + 1))))) := by
  -- the first cell is among those up to the last one
  obtain ⟨c, hc⟩ : ∃ c, (cs.take (j + 1))[i]? = some c :=
    ⟨cs[i], by rw [List.getElem?_take_of_lt (by omega), List.getElem?_eq_getElem]⟩
  have hmem : c ∈ cs := List.mem_of_mem_take (List.mem_of_getElem? hc)
  obtain ⟨hnew, hold⟩ := cellLexemes_addBefore hc (hfresh c hmem) ls
  refine ⟨cellLexemes ((cs.take (j + 1)).take i) ++ c.gap,
    (c.body ++ c.after) ++ cellLexemes ((cs.take (j + 1)).drop (i + 1)), ?_, ?_⟩
  · rw [← List.append_assoc, ← hold, ← cellLexemes_append, List.take_append_drop]
  · rw [cellLexemes_addAfter (by rwa [List.length_modify]), List.take_modify,
      List.drop_modify_of_lt _ _ _ _ (by omega), hnew]
    simp only [List.append_assoc]

/-! ## Cells of pieces -/

/-- Cells are those of pieces, with lexemes put before and after that start with spaces or
parentheses. -/
structure Lays (ps : List Piece) (cs : List Cell) : Prop where
  own : cs.map (fun c => (c.gap, c.body)) = ps.map fun p => (p.gap, [p.token.lexeme])
  before : ∀ c ∈ cs, ∀ m ∈ c.before.head?, m.IsMark
  after : ∀ c ∈ cs, ∀ m ∈ c.after.head?, m.IsMark

namespace Lays

variable {ps : List Piece} {cs : List Cell}

theorem ofPiece (ps : List Piece) : Lays ps (ps.map Cell.ofPiece) := by
  refine ⟨?_, ?_, ?_⟩
  · rw [List.map_map]
    rfl
  · intro c hc m hm
    obtain ⟨p, -, rfl⟩ := List.mem_map.mp hc
    cases hm
  · intro c hc m hm
    obtain ⟨p, -, rfl⟩ := List.mem_map.mp hc
    cases hm

theorem length (h : Lays ps cs) : cs.length = ps.length := by
  have hlen := congrArg List.length h.own
  rwa [List.length_map, List.length_map] at hlen

/-- What is in a list with one change was in it, or is the change of what was. -/
theorem mem_modify {α : Type} {f : α → α} {l : List α} {i : Nat} {a : α}
    (h : a ∈ l.modify i f) : ∃ b ∈ l, a = b ∨ a = f b := by
  obtain ⟨k, hk⟩ := List.mem_iff_getElem?.mp h
  rw [List.getElem?_modify] at hk
  obtain ⟨b, hb, rfl⟩ := Option.map_eq_some_iff.mp hk
  refine ⟨b, List.mem_of_getElem? hb, ?_⟩
  by_cases hi : i = k
  · exact .inr (if_pos hi)
  · exact .inl (if_neg hi)

/-- Where two lists of lexemes start with marks, both together do. -/
theorem head?_append_mark {ls ms : List Lexeme} (hls : ∀ m ∈ ls.head?, m.IsMark)
    (hms : ∀ m ∈ ms.head?, m.IsMark) : ∀ m ∈ (ls ++ ms).head?, m.IsMark := by
  cases ls with
  | nil => exact hms
  | cons l ls => exact hls

/-- A layout takes lexemes in front of a cell, if they start with a mark. -/
theorem addBefore (h : Lays ps cs) (i : Nat) {ls : List Lexeme}
    (hls : ∀ m ∈ ls.head?, m.IsMark) : Lays ps (cs.modify i (Cell.addBefore ls)) := by
  refine ⟨?_, ?_, ?_⟩
  · refine (Draft.map_modify_of_eq ?_ cs i).trans h.own
    exact fun _ => rfl
  · intro c hc
    obtain ⟨b, hb, rfl | rfl⟩ := mem_modify hc
    · exact h.before c hb
    · exact head?_append_mark (h.before b hb) hls
  · intro c hc
    obtain ⟨b, hb, rfl | rfl⟩ := mem_modify hc
    · exact h.after c hb
    · exact h.after b hb

theorem addAfter (h : Lays ps cs) (i : Nat) {ls : List Lexeme}
    (hls : ∀ m ∈ ls.head?, m.IsMark) : Lays ps (cs.modify i (Cell.addAfter ls)) := by
  refine ⟨?_, ?_, ?_⟩
  · refine (Draft.map_modify_of_eq ?_ cs i).trans h.own
    exact fun _ => rfl
  · intro c hc
    obtain ⟨b, hb, rfl | rfl⟩ := mem_modify hc
    · exact h.before c hb
    · exact h.before b hb
  · intro c hc
    obtain ⟨b, hb, rfl | rfl⟩ := mem_modify hc
    · exact h.after c hb
    · exact head?_append_mark (h.after b hb) hls

/-- The cell of a piece. -/
theorem exists_piece (h : Lays ps cs) {i : Nat} {c : Cell} (hc : cs[i]? = some c) :
    ∃ p, ps[i]? = some p ∧ c.gap = p.gap ∧ c.body = [p.token.lexeme] := by
  have hi : (cs.map fun c => (c.gap, c.body))[i]? = some (c.gap, c.body) := by
    rw [List.getElem?_map, hc]
    rfl
  rw [h.own, List.getElem?_map] at hi
  obtain ⟨p, hp, heq⟩ := Option.map_eq_some_iff.mp hi
  obtain ⟨hgap, hbody⟩ := Prod.mk.inj heq
  exact ⟨p, hp, hgap.symm, hbody.symm⟩

/-- Cells start with a gap or with what was put, or else with a token. -/
theorem front (h : Lays ps cs) {i : Nat} {p : Piece} (hp : ps[i]? = some p) :
    (∀ m ∈ (cellLexemes (cs.drop i)).head?, m.isGap = true ∨ m.IsMark) ∨
      ∃ after, (∀ m ∈ after.head?, m.IsMark) ∧
        cellLexemes (cs.drop i) = p.token.lexeme :: (after ++ cellLexemes (cs.drop (i + 1))) := by
  have hi : i < cs.length := by
    rw [h.length]
    exact (List.getElem?_eq_some_iff.mp hp).1
  have hmem : cs[i] ∈ cs := List.getElem_mem hi
  -- the cell has the gap and the token of its piece
  obtain ⟨q, hq, hgap, hbody⟩ := h.exists_piece (List.getElem?_eq_getElem hi)
  rw [hp] at hq
  obtain rfl := Option.some.inj hq
  rw [List.drop_eq_getElem_cons hi, cellLexemes_cons, Cell.lexemes, hgap, hbody]
  -- what comes first: the gap, what was put in front of the token, or the token
  cases hg : p.gap with
  | cons g gap =>
    refine .inl fun m hm => .inl ?_
    obtain rfl : g = m := Option.some.inj hm
    exact p.blank g (by rw [hg]; exact List.mem_cons_self)
  | nil =>
    cases hb : cs[i].before with
    | cons b before =>
      refine .inl fun m hm => .inr ?_
      obtain rfl : b = m := Option.some.inj hm
      exact h.before cs[i] hmem b (by rw [hb]; rfl)
    | nil => exact .inr ⟨cs[i].after, h.after cs[i] hmem, by simp⟩

/-- The first lexeme of cells is one of a gap or of what was put, or a token's. -/
theorem head (h : Lays ps cs) {i : Nat} {m : Lexeme}
    (hm : m ∈ (cellLexemes (cs.drop i)).head?) :
    m.isGap = true ∨ m.IsMark ∨ ∃ p, ps[i]? = some p ∧ m = p.token.lexeme := by
  cases hp : ps[i]? with
  | none =>
    -- beyond the last piece there are no lexemes
    have hlen := List.getElem?_eq_none_iff.mp hp
    rw [← h.length] at hlen
    rw [List.drop_of_length_le hlen] at hm
    cases hm
  | some p =>
    rcases h.front hp with hplain | ⟨after, -, heq⟩
    · exact (hplain m hm).imp_right .inl
    · rw [heq] at hm
      exact .inr (.inr ⟨p, rfl, (Option.some.inj hm).symm⟩)

/-- In front of a word, no collection is expanded. -/
theorem head_silent (h : Lays ps cs) {i : Nat} (hcuts : Cuts ps i) :
    ∀ m ∈ (cellLexemes (cs.drop i)).head?, m.names? x = none := by
  intro m hm
  rcases h.head hm with hgap | hmark | ⟨p, hp, rfl⟩
  · exact Lexeme.names?_of_isGap hgap
  · exact hmark.names?
  · have hk : p.token.lexeme.kind = .word := (hcuts p hp).1
    simp [Lexeme.names?, hk]

end Lays

/-! ## Conditions -/

/-- The lexemes of a statement with others put into them in one place. -/
structure Weaves (r : LexicalRules) (x : Fields (List String)) (ps : List Piece)
    (added : List String) (cs : List Cell) : Prop where
  lays : Lays ps cs
  woven : Woven r x (cellLexemes cs)
  names : ∃ front back, lexemeNames (pieceLexemes ps) = front ++ back ∧
    lexemeNames (cellLexemes cs) = front ++ (added ++ back)

theorem weaves_ofPiece {ps : List Piece} (hw : Woven r x (pieceLexemes ps)) :
    Weaves r x ps [] (ps.map Cell.ofPiece) := by
  refine ⟨Lays.ofPiece ps, ?_, lexemeNames (pieceLexemes ps), [], ?_, ?_⟩
  · rwa [cellLexemes_ofPiece]
  · rw [List.append_nil]
  · rw [cellLexemes_ofPiece, List.append_nil, List.append_nil]

section

variable {ps : List Piece} {i j : Nat} {ls : List Lexeme}

/-- A condition behind a piece. -/
theorem weaves_added (hw : Woven r x (pieceLexemes ps)) (hi : i < ps.length)
    (hcuts : Cuts ps (i + 1)) (hls : Puts r x (fun _ => true) ls) :
    Weaves r x ps (lexemeNames ls) ((ps.map Cell.ofPiece).modify i (Cell.addAfter ls)) := by
  have hlays := Lays.ofPiece ps
  -- what is put in starts with a space
  have hmark : ∀ m ∈ ls.head?, m.IsMark := by
    intro m hm
    rw [hls.mark] at hm
    exact .inl (Option.some.inj hm).symm
  rw [← hlays.length] at hi
  rw [← cellLexemes_ofPiece] at hw
  generalize hcs : ps.map Cell.ofPiece = cs at *
  -- the lexemes go in where the pieces are cut, behind the token
  have hold : cellLexemes cs =
      cellLexemes (cs.take (i + 1)) ++ cellLexemes (cs.drop (i + 1)) := by
    rw [← cellLexemes_append, List.take_append_drop]
  rw [hold] at hw
  refine ⟨hlays.addAfter i hmark, ?_, lexemeNames (cellLexemes (cs.take (i + 1))),
    lexemeNames (cellLexemes (cs.drop (i + 1))), ?_, ?_⟩
  · rw [cellLexemes_addAfter hi]
    exact hw.put hls (fun _ _ => rfl) (fun _ _ => rfl) (hlays.head_silent hcuts)
  · rw [← cellLexemes_ofPiece, hcs, hold, lexemeNames_append]
  · rw [cellLexemes_addAfter hi, lexemeNames_append, lexemeNames_append]

/-- Parentheses around pieces, and a condition behind them. -/
theorem weaves_wrapped (hw : Woven r x (pieceLexemes ps)) (hij : i ≤ j) (hj : j < ps.length)
    (hcuts : Cuts ps (j + 1)) (hls : Puts r x (fun _ => true) ls) :
    Weaves r x ps (lexemeNames ls)
      (((ps.map Cell.ofPiece).modify i (Cell.addBefore [openParen])).modify j
        (Cell.addAfter (closeParen :: ls))) := by
  have hlays := Lays.ofPiece ps
  -- nothing was put in yet
  have hfresh : ∀ c ∈ ps.map Cell.ofPiece, c.before = [] := by
    intro c hc
    obtain ⟨p, -, rfl⟩ := List.mem_map.mp hc
    rfl
  rw [← hlays.length] at hj
  rw [← cellLexemes_ofPiece] at hw
  generalize hcs : ps.map Cell.ofPiece = cs at *
  obtain ⟨front, mid, hold, hnew⟩ :=
    cellLexemes_wrapped hij hj hfresh [openParen] (closeParen :: ls)
  rw [hold, ← List.append_assoc] at hw
  -- the lexemes are put in behind the span first, and the parentheses around it then
  have hadded := hw.put hls (fun _ _ => rfl) (fun _ _ => rfl) (hlays.head_silent hcuts)
  rw [List.append_assoc] at hadded
  refine ⟨(hlays.addBefore i ?_).addAfter j ?_, ?_, lexemeNames (front ++ mid),
    lexemeNames (cellLexemes (cs.drop (j + 1))), ?_, ?_⟩
  · intro m hm
    exact .inr (.inl (Option.some.inj hm).symm)
  · intro m hm
    exact .inr (.inr (Option.some.inj hm).symm)
  · rw [hnew]
    exact hadded.wrap
  · rw [← cellLexemes_ofPiece, hcs, hold, ← List.append_assoc, lexemeNames_append]
  · rw [hnew]
    simp only [lexemeNames_append, lexemeNames_cons, List.append_assoc]
    rfl

end

/-- A statement to which a condition is added, with collections expanded. -/
theorem exists_conditioned {s : Statement} {ps : List Piece} (hs : s.tokens = pieceTokens ps)
    (hne : s.tokens ≠ []) (hw : Woven r x (pieceLexemes ps)) {text : List Char}
    {os : List Outline} (hp : Prints r (fun _ => true) text os)
    (hsilent : ∀ name ∈ outlineNames os, x.get? name = none) {draft : Draft}
    (hdraft : Draft.addCondition s text (Draft.ofExpanded x s.tokens) = .ok draft) :
    ∃ cs, draft = cs.map (Cell.slot x) ∧ Weaves r x ps (outlineNames os) cs := by
  have hlength : s.tokens.length = ps.length := by rw [hs, pieceTokens, List.length_map]
  -- the condition follows a word of its own, with a space on both sides of it
  have hkeyword : ∀ w : List Char, w ≠ [] → w.all Char.isAlpha = true →
      ∃ ls, lexemeText ls = ' ' :: (w ++ ' ' :: text) ∧ lexemeNames ls = outlineNames os ∧
        Puts r x (fun _ => true) ls := by
    intro w hw halpha
    exact ((Prints.word hw halpha).spaced hp (by decide)).exists_puts hsilent
  rw [hs, ← slots_ofPiece] at hdraft
  unfold Draft.addCondition at hdraft
  cases hm : (s.marker? .filter).or (s.marker? .having) with
  | none =>
    rw [hm] at hdraft
    obtain ⟨i, hi, hput⟩ := bind_eq_ok.mp hdraft
    obtain rfl := Except.ok.inj hput
    have hfound : ∀ m ∈ s.markers.find? fun m => Statement.afterFilter.contains m.clause,
        m ∈ s.markers := fun m => List.mem_of_find?_eq_some
    have hplace := Statement.filterIndex_eq_ok hne hi
    have hcuts := Statement.cuts_placeOf hs hfound
    have hle := Statement.placeOf_le _ _ hfound
    rw [← hplace] at hcuts hle
    obtain ⟨ls, htext, hnames, hputs⟩ := hkeyword "WHERE".toList (by decide) (by decide)
    refine ⟨_, putAfter_slots _ i ls ?_, ?_⟩
    · rw [hputs.expanded, htext]
      rfl
    · rw [← hnames]
      exact weaves_added hw (by omega) hcuts hputs
  | some m =>
    rw [hm] at hdraft
    obtain ⟨⟨first, last⟩, hspan, hput⟩ := bind_eq_ok.mp hdraft
    obtain rfl := Except.ok.inj hput
    obtain ⟨-, hlt, hlast⟩ := Statement.conditionSpan_eq_ok hspan
    have hfound : ∀ n ∈ s.markers.find? fun n => m.last < n.first, n ∈ s.markers :=
      fun n => List.mem_of_find?_eq_some
    have hcuts := Statement.cuts_placeOf hs hfound
    have hle := Statement.placeOf_le _ _ hfound
    rw [← hlast] at hcuts hle hlt
    obtain ⟨ls, htext, hnames, hputs⟩ := hkeyword "AND".toList (by decide) (by decide)
    -- the parenthesis that closes the old condition is written with the word that follows it
    have hopen := putBefore_slots (x := x) (ps.map Cell.ofPiece) first [openParen]
      (t := "(".toList) rfl
    rw [hopen]
    refine ⟨_, putAfter_slots _ last (closeParen :: ls) ?_, ?_⟩
    · rw [List.flatMap_cons, hputs.expanded, lexemeText_append, htext]
      rfl
    · rw [← hnames]
      exact weaves_wrapped hw (by omega) (by omega) hcuts hputs

/-! ## Tails -/

theorem isAlpha_of_toUpper {c : Char} (h : c.toUpper.isAlpha = true) : c.isAlpha = true := by
  by_cases hlower : c.isLower = true
  · exact Bool.or_eq_true_iff.mpr (.inr hlower)
  · -- only a letter in lower case is changed
    have hsame : c.toUpper = c := dif_neg fun hrange =>
      hlower (Bool.and_eq_true_iff.mpr ⟨decide_eq_true hrange.1, decide_eq_true hrange.2⟩)
    rwa [hsame] at h

/-- A keyword has letters only, in lower or upper case. -/
theorem Token.isAlpha_of_isWord {t : Token} {words : List String} (h : t.isWord words = true)
    (hw : ∀ w ∈ words, w.toList.all Char.isAlpha = true) : ∀ c ∈ t.text, c.isAlpha = true := by
  rw [isWord, word?] at h
  split at h
  · obtain ⟨w, hmem, heq⟩ := List.any_eq_true.mp h
    have hupper : w.toList = t.text.map Char.toUpper := eq_of_beq heq
    have hletters := hw w hmem
    rw [hupper, List.all_map, List.all_eq_true] at hletters
    exact fun c hc => isAlpha_of_toUpper (hletters c hc)
  · cases h

/-- The locking clause starts with letters, and goes on with another word. -/
theorem Statement.locking_pieces {s : Statement} {ps : List Piece} {m : Marker}
    (hs : s.tokens = pieceTokens ps) (h : s.marker? .locking = some m) :
    ∃ p q, ps[m.first]? = some p ∧ ps[m.first + 1]? = some q ∧
      p.token.lexeme = ⟨.word, p.token.text⟩ ∧ (∀ c ∈ p.token.text, c.isAlpha = true) ∧
      q.token.lexeme = ⟨.word, q.token.text⟩ := by
  obtain ⟨hmem, hclause⟩ := marker?_eq_some h
  obtain ⟨i, t, two, hfirst, ht, hat, -⟩ := mem_markersFrom hmem
  rw [hclause] at hat
  -- a locking clause has two words
  obtain ⟨hkeyword, u, hu, hword⟩ := clauseAt_locking hat
  have hkind : t.kind = .word := (clauseAt_eq_some hat).1
  rw [hs, pieceTokens, List.getElem?_map] at ht hu
  obtain ⟨p, hp, rfl⟩ := Option.map_eq_some_iff.mp ht
  obtain ⟨q, hq, rfl⟩ := Option.map_eq_some_iff.mp hu
  rw [Nat.zero_add] at hfirst
  rw [hfirst]
  refine ⟨p, q, hp, hq, by rw [Token.lexeme, hkind], ?_, by rw [Token.lexeme, hword]⟩
  rcases hkeyword with hfor | hlock
  · exact Token.isAlpha_of_isWord hfor (by decide)
  · exact Token.isAlpha_of_isWord hlock (by decide)

/-- Spaces, comments and parentheses do not go on with a number. -/
theorem head_not_number {ls : List Lexeme} (h : Stable r ls)
    (hm : ∀ m ∈ ls.head?, m.isGap = true ∨ m.IsMark) :
    ∀ c ∈ (lexemeText ls).head?, isNumberChar c = false := by
  cases ls with
  | nil => exact nofun
  | cons m ls =>
    rcases hm m rfl with hgap | hmark
    · exact h.not_number (Lexeme.isGap_iff.mp hgap)
    · exact (hmark.separated ls).head (by decide) (by decide) (by decide)

/-- Two words are not read back without a gap. -/
theorem not_stable_words {w v : List Char} {ls : List Lexeme} :
    ¬ Stable r (⟨.word, w⟩ :: ⟨.word, v⟩ :: ls) := by
  intro h
  obtain ⟨-, -, hnext, -, hback⟩ := stable_word_iff.mp h
  obtain ⟨hstart, hall, -⟩ := stable_word_iff.mp hback
  obtain ⟨c, hc, -⟩ := (Option.any_eq_true _ _).mp hstart
  have hnot := hnext c (by rw [lexemeText_cons, List.head?_append, hc]; rfl)
  rw [hall c (List.mem_of_head? hc)] at hnot
  cases hnot

/-- Behind the place of the tail there is what does not go on with a number, except for the
letters of a locking clause that follows directly. -/
theorem Lays.exists_runs {s : Statement} {ps : List Piece} {cs : List Cell} {i : Nat}
    (h : Lays ps cs) (hs : s.tokens = pieceTokens ps) (hplace : i = s.placeOf (s.marker? .locking))
    (hstable : Stable r (cellLexemes (cs.drop i))) :
    ∃ run back, cellLexemes (cs.drop i) = run ++ back ∧ Runs run back := by
  have hplain : (∀ m ∈ (cellLexemes (cs.drop i)).head?, m.isGap = true ∨ m.IsMark) →
      ∃ run back, cellLexemes (cs.drop i) = run ++ back ∧ Runs run back :=
    fun hheads =>
      ⟨[], _, rfl, by simp, by simp [lexemeText], head_not_number hstable hheads, hheads⟩
  cases hm : s.marker? .locking with
  | none =>
    -- the place is the end
    have hend : cs.length ≤ i := by
      rw [hplace, hm, h.length]
      show ps.length ≤ s.tokens.length
      rw [hs, pieceTokens, List.length_map]
    refine hplain fun m hm => ?_
    rw [List.drop_of_length_le hend] at hm
    cases hm
  | some m =>
    obtain rfl : i = m.first := by rw [hplace, hm]; rfl
    obtain ⟨p, q, hp, hq, hfirst, hletters, hsecond⟩ := Statement.locking_pieces hs hm
    rcases h.front hp with hheads | ⟨after, hafter, heq⟩
    · exact hplain hheads
    rw [heq, hfirst] at hstable
    obtain ⟨-, -, -, -, hback⟩ := stable_word_iff.mp hstable
    -- its second word comes behind a gap, or else it would be a part of the first one
    have hheads : ∀ k ∈ (after ++ cellLexemes (cs.drop (m.first + 1))).head?,
        k.isGap = true ∨ k.IsMark := by
      intro k hk
      cases after with
      | cons b after => exact .inr (hafter k hk)
      | nil =>
        rcases h.front hq with hnext | ⟨after', -, heq'⟩
        · exact hnext k hk
        · rw [heq', hsecond] at hstable
          exact absurd hstable not_stable_words
    refine ⟨[p.token.lexeme], _, heq, ?_, ?_, head_not_number hback hheads, hheads⟩
    · intro l hl
      rw [List.mem_singleton.mp hl, hfirst]
      exact skipsRuns_matters _ (.inl rfl)
    · intro c hc
      have halpha := hletters c (by simpa [lexemeText, Token.lexeme] using hc)
      simp [isNumberChar, Char.isAlphanum, halpha]

/-- Gaps and symbols expand to themselves and name nothing. -/
theorem expanded_of_not_matters {ls : List Lexeme} (h : ∀ l ∈ ls, l.matters = false) :
    ls.flatMap (Lexeme.expanded x) = ls ∧ lexemeNames ls = [] := by
  -- placeholders matter
  have hkind : ∀ l ∈ ls, l.kind ≠ .placeholder := by
    intro l hl hk
    have hnot := h l hl
    simp [Lexeme.matters, hk] at hnot
  constructor
  · exact flatMap_eq_self fun l hl => Lexeme.expanded_of_none (if_neg (hkind l hl))
  · exact List.filterMap_eq_nil_iff.mpr fun l hl => if_neg (hkind l hl)

/-- The lexemes of a statement with a tail that ends with a number, with collections
expanded. -/
theorem Weaves.exists_tailed {s : Statement} {ps : List Piece} {added : List String}
    {cs : List Cell} {i : Nat} (h : Weaves r x ps added cs) (hs : s.tokens = pieceTokens ps)
    (hplace : i + 1 = s.placeOf (s.marker? .locking)) (hi : i < ps.length) {text n : List Char}
    {os : List Outline} (hp : Prints r endsWord text os) (hos : outlineNames os = [])
    (hne : n ≠ []) (hn : ∀ c ∈ n, c.isDigit = true) :
    ∃ ls, Woven r x ls ∧ lexemeNames ls = lexemeNames (cellLexemes cs) ∧
      lexemeText (ls.flatMap (Lexeme.expanded x)) =
        (Draft.putAfter (cs.map (Cell.slot x)) i (' ' :: (text ++ ' ' :: n))).text := by
  obtain ⟨ls, htext, hnames, hputs⟩ := hp.exists_puts (x := x) (by rw [hos]; exact nofun)
  have hwoven := h.woven
  -- the end goes where the cells are cut, and its number may run on into the lexemes behind
  have hsplit : cellLexemes cs =
      cellLexemes (cs.take (i + 1)) ++ cellLexemes (cs.drop (i + 1)) := by
    rw [← cellLexemes_append, List.take_append_drop]
  rw [hsplit] at hwoven
  obtain ⟨run, back, heq, hruns⟩ :=
    h.lays.exists_runs hs hplace hwoven.apart.right.stable
  obtain ⟨hexpanded, hnone⟩ := expanded_of_not_matters (x := x) hruns.plain
  rw [heq] at hwoven
  refine ⟨_, hwoven.put_number hruns hputs (by decide) hne hn, ?_, ?_⟩
  · rw [hsplit, heq]
    simp only [lexemeNames_append, lexemeNames_cons, hnames, hos, hnone, List.nil_append]
    rfl
  · have hlen : i < (cs.map (Cell.slot x)).length := by
      rw [List.length_map, h.lays.length]
      exact hi
    rw [Draft.text_putAfter hlen, ← List.map_take, ← List.map_drop, text_slots, text_slots, heq]
    simp only [List.flatMap_append, List.flatMap_cons, lexemeText_append, hputs.expanded, htext,
      hexpanded]
    -- neither the number nor the space is expanded
    have hown : Lexeme.expanded x ⟨.number, n ++ lexemeText run⟩ =
        [⟨.number, n ++ lexemeText run⟩] := rfl
    have hgap : Lexeme.expanded x space = [space] := rfl
    rw [hown, hgap]
    simp [lexemeText, space]

end SqlPaging.Sql
