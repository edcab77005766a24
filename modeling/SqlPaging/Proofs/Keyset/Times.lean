import SqlPaging.Proofs.Calendar.TextOrder
import SqlPaging.Proofs.Keyset.Boundary
import Mathlib.Data.List.Lex

/-!
# SqlPaging — times that bound a page

A time that bounds a page is bound as a text, and a database that keeps times as texts
compares them byte by byte. All characters of such a text are ASCII, so that its bytes
are the codes of the characters. In the years from 0 to 9999 the texts of dates have the
order of the calendar, and those of times the order of the seconds that they show.

The fraction of a second is not bound. Two times that show the same second are bound to
one text, and a walk on from the later one, which the page includes, asks for the earlier
one too (`fraction_not_bound`). So it is with a leap second that is not the last of its
minute, which shows the second that follows.

Main results:

* `binds_of_ofCursor` — what the value of a column is bound to.
* `cursor_times_in_order` — the order of the texts that times and dates are bound to.
* `fraction_not_bound` — two times that are bound to one text.
-/

namespace SqlPaging

open Calendar

/-! ## Bytes of texts -/

/-- The bytes of a text, as numbers. -/
def textBytes (s : String) : List Nat := s.toByteArray.data.toList.map UInt8.toNat

theorem textBytes_injective {s t : String} (h : textBytes s = textBytes t) : s = t := by
  have hbytes := (List.map_inj_right fun _ _ => UInt8.toNat_inj.mp).mp h
  exact String.toByteArray_inj.mp (ByteArray.ext (Array.toList_inj.mp hbytes))

/-- Texts compared byte by byte. -/
def Collation.bytewise : Collation String where
  before _ s t := textBytes s < textBytes t
  irrefl _ s := by simp
  trans _ s t u hst htu := by
    rw [decide_eq_true_eq] at *
    exact lt_trans hst htu
  total _ s t := by
    simp only [decide_eq_true_eq]
    rcases lt_trichotomy (textBytes s) (textBytes t) with hlt | heq | hgt
    · exact .inl hlt
    · exact .inr (.inl (textBytes_injective heq))
    · exact .inr (.inr hgt)

/-- The bytes of an ASCII text are the codes of its characters. -/
theorem textBytes_ofList {s : List Char} (h : ∀ c ∈ s, c.toNat < 128) :
    textBytes (String.ofList s) = codes s := by
  rw [textBytes, String.toByteArray_ofList, List.utf8Encode, List.toList_data_toByteArray]
  induction s with
  | nil => rfl
  | cons c s ih =>
    obtain ⟨hc, hs⟩ := List.forall_mem_cons.mp h
    -- a code below 128 takes one byte
    have hsize : c.utf8Size = 1 := by
      rw [Char.utf8Size_eq_one_iff, UInt32.le_iff_toNat_le]
      exact Nat.le_of_lt_succ hc
    have hbyte : c.val.toUInt8.toNat = c.toNat := by
      rw [UInt32.toNat_toUInt8]
      exact Nat.mod_eq_of_lt (Nat.lt_of_lt_of_le hc (by decide))
    -- one character is one byte, which is its code
    rw [List.flatMap_cons, String.utf8EncodeChar_eq_singleton hsize, List.singleton_append,
      List.map_cons, hbyte, ih hs, codes_cons]

theorem ascii_of_mem_padded {width n : Nat} {c : Char} (hc : c ∈ padded width n) :
    c.toNat < 128 := by
  have hdigit := (toNat_of_isDigit (isDigit_of_mem_padded hc)).2
  have hzero : '0'.toNat = 48 := rfl
  omega

theorem ascii_of_mem_yearText {y : Int} {c : Char} (hc : c ∈ yearText y) : c.toNat < 128 := by
  -- with four digits, or with a sign
  unfold yearText at hc
  split at hc
  · exact ascii_of_mem_padded hc
  · rcases List.mem_cons.mp hc with rfl | hc
    · split <;> decide
    · exact ascii_of_mem_padded hc

theorem ascii_of_mem_date {d : Date} : ∀ c ∈ d.chars, c.toNat < 128 := by
  simp only [Date.chars, List.forall_mem_append, List.forall_mem_cons]
  exact ⟨⟨fun _ => ascii_of_mem_yearText, by decide, fun _ => ascii_of_mem_padded⟩, by decide,
    fun _ => ascii_of_mem_padded⟩

theorem ascii_of_mem_dateTime {t : DateTime} : ∀ c ∈ t.chars ' ', c.toNat < 128 := by
  simp only [DateTime.chars, TimeOfDay.chars, List.forall_mem_append, List.forall_mem_cons]
  exact ⟨ascii_of_mem_date, by decide, ⟨fun _ => ascii_of_mem_padded, by decide,
    fun _ => ascii_of_mem_padded⟩, by decide, fun _ => ascii_of_mem_padded⟩

/-! ## Texts of times -/

namespace Dialect

/-- Texts of dates have the order of the calendar, byte by byte. -/
theorem textBytes_dateText_lt_iff (d : Dialect) {a b : Date} (ha : a.FourDigits)
    (hb : b.FourDigits) :
    textBytes (d.dateText a) < textBytes (d.dateText b) ↔ a.before b = true := by
  rw [dateText, dateText, Date.text, Date.text, textBytes_ofList ascii_of_mem_date,
    textBytes_ofList ascii_of_mem_date, Date.codes_chars_lt_iff ha hb]

/-- The earlier one of two times has the smaller text, unless both show the same second. -/
theorem textBytes_dateTimeText_lt_iff (d : Dialect) {a b : DateTime} (ha : a.date.FourDigits)
    (hb : b.date.FourDigits) (h : a.instant.atOrAfter b.instant = false) :
    textBytes (d.dateTimeText a) < textBytes (d.dateTimeText b) ↔ ¬a.SameSecond b := by
  -- the offset of UTC is the same behind both times
  have hzone : ∀ c ∈ (if d.timezoneAware then "+0000".toList else []), c.toNat < 128 := by
    have hutc : "+0000".toList = ['+', '0', '0', '0', '0'] := rfl
    split
    · simp [hutc]
    · exact fun _ h => (List.not_mem_nil h).elim
  have hbytes : ∀ t : DateTime, textBytes (d.dateTimeText t) =
      codes (t.chars ' ' ++ if d.timezoneAware then "+0000".toList else []) := fun t =>
    textBytes_ofList (List.forall_mem_append.mpr ⟨ascii_of_mem_dateTime, hzone⟩)
  rw [hbytes, hbytes, DateTime.codes_chars_lt_iff ha hb h]

/-- Times that show the same second are bound to one text. -/
theorem dateTimeText_of_sameSecond (d : Dialect) {a b : DateTime} (h : a.SameSecond b) :
    d.dateTimeText a = d.dateTimeText b := by
  rw [dateTimeText, dateTimeText, DateTime.chars_of_sameSecond h]

end Dialect

namespace Keyset

variable {d : Dialect} {order : Order} {c c' : Cursor} {k k' : Keyset} {i : Nat}

/-- What the value of a column is bound to. -/
theorem binds_of_ofCursor (h : ofCursor d order c = .ok k) {e : String} {v : Value}
    {bound : BindValue} (hv : c.values[i]? = some (e, v))
    (hbound : normalizeScalar d v = .ok bound) :
    k.binds.get? (paramName i) = some ⟨paramName i, bound⟩ := by
  rw [ofCursor, if_pos (fits_of_ofCursor h), bind_eq_ok] at h
  obtain ⟨bs, hbs, h⟩ := h
  obtain ⟨bounds, hbounds, rfl⟩ := bindBoundaries_eq_ok hbs
  cases h
  -- the bounds are those of the values, one by one
  have hi := congrArg (·[i]?) hbounds
  simp only [List.getElem?_map, hv, Option.map_some, hbound] at hi
  obtain ⟨b, hb, hbound'⟩ := Option.map_eq_some_iff.mp hi.symm
  cases hbound'
  have hget := get?_bindsFrom 0 i bounds
  rwa [Nat.zero_add, hb, Option.map_some] at hget

/-- A text is bound to the value of a column. -/
def BindsText (k : Keyset) (i : Nat) (s : String) : Prop :=
  k.binds.get? (paramName i) = some ⟨paramName i, .str s⟩

/-- A time is bound to its text, to the second. -/
theorem bindsText_of_dateTime (h : ofCursor d order c = .ok k) {e : String} {t : DateTime}
    (ht : c.values[i]? = some (e, .dateTime t)) : k.BindsText i (d.dateTimeText t) :=
  binds_of_ofCursor h ht rfl

theorem bindsText_of_date (h : ofCursor d order c = .ok k) {e : String} {t : Date}
    (ht : c.values[i]? = some (e, .date t)) : k.BindsText i (d.dateText t) :=
  binds_of_ofCursor h ht rfl

/-- The rows that a walk on from a text reaches by one column, with the rows that have
this text. -/
def asksFor (bound row : String) : Bool :=
  (Comparison.seek .ascending .next true).holds .bytewise "" row bound

/-- A walk on from a text does not ask for a smaller one. -/
theorem asksFor_eq_false {s t : String} (h : textBytes s < textBytes t) : asksFor t s = false := by
  -- the condition on the column is "at or after", which the earlier text fails
  have hne : s ≠ t := by
    rintro rfl
    exact lt_irrefl _ h
  have hnot : ¬textBytes t < textBytes s := lt_asymm h
  simp [asksFor, Comparison.seek, Comparison.holds, Collation.bytewise, hne, hnot]

end Keyset

open Keyset

/-- Two cursors have a time, or a date, as the value of the same column. The earlier one
of two dates is bound to the text that comes first, byte by byte; so is the earlier one
of two times, just if they do not show the same second, and else both are bound to one
text. Where the text comes first, a walk on from the later one does not ask for the
earlier one. -/
theorem cursor_times_in_order {d : Dialect} {order : Order} {c c' : Cursor} {k k' : Keyset}
    (hk : ofCursor d order c = .ok k) (hk' : ofCursor d order c' = .ok k') {i : Nat}
    {e e' : String} :
    (∀ a b : DateTime, c.values[i]? = some (e, .dateTime a) →
      c'.values[i]? = some (e', .dateTime b) → a.date.FourDigits → b.date.FourDigits →
      a.instant.atOrAfter b.instant = false →
      ∃ s t, k.BindsText i s ∧ k'.BindsText i t ∧
        (textBytes s < textBytes t ↔ ¬a.SameSecond b) ∧ (a.SameSecond b → s = t) ∧
        (¬a.SameSecond b → asksFor t s = false)) ∧
    ∀ a b : Date, c.values[i]? = some (e, .date a) → c'.values[i]? = some (e', .date b) →
      a.FourDigits → b.FourDigits → a.before b = true →
      ∃ s t, k.BindsText i s ∧ k'.BindsText i t ∧ textBytes s < textBytes t ∧
        asksFor t s = false := by
  -- in both cases the texts are those of the values, whatever else the cursors hold
  constructor
  · intro a b ha hb hya hyb hbefore
    have horder := d.textBytes_dateTimeText_lt_iff hya hyb hbefore
    exact ⟨_, _, bindsText_of_dateTime hk ha, bindsText_of_dateTime hk' hb, horder,
      d.dateTimeText_of_sameSecond, fun h => asksFor_eq_false (horder.mpr h)⟩
  · intro a b ha hb hya hyb hbefore
    have horder := (d.textBytes_dateText_lt_iff hya hyb).mpr hbefore
    exact ⟨_, _, bindsText_of_date hk ha, bindsText_of_date hk' hb, horder,
      asksFor_eq_false horder⟩

/-- A time of one afternoon. -/
def afternoon (second nanos : Nat) (h : second < 60 ∧ nanos < 2 * billion := by decide) :
    DateTime :=
  ⟨⟨2024, 1, 15, by decide⟩, ⟨15, 30, second, nanos, by decide, by decide, h⟩⟩

/-- The cursor of a row of a time. -/
def bookedAt (t : DateTime) : Cursor :=
  { pager := .ofPage 2 10
    values := [("room", .int 7), ("booked_at", .dateTime t)]
    eachSideSnapshot := none
    direction := .next
    inclusive := true
    createdAt := default }

/-- The order of a table of bookings. -/
def bookings : Order := ⟨[⟨"room", .ascending⟩, ⟨"booked_at", .ascending⟩]⟩

/-- A tenth of a second apart, two bookings show different seconds and are bound in
order. -/
theorem cursor_times_in_order_of_bookings :
    ∃ k k', ofCursor .postgres bookings (bookedAt (afternoon 5 900000000)) = .ok k ∧
      ofCursor .postgres bookings (bookedAt (afternoon 6 0)) = .ok k' ∧
      ∃ s t, k.BindsText 1 s ∧ k'.BindsText 1 t ∧ textBytes s < textBytes t ∧
        asksFor t s = false := by
  obtain ⟨k, hk⟩ : ∃ k, ofCursor .postgres bookings (bookedAt (afternoon 5 900000000)) = .ok k :=
    ⟨_, rfl⟩
  obtain ⟨k', hk'⟩ : ∃ k, ofCursor .postgres bookings (bookedAt (afternoon 6 0)) = .ok k :=
    ⟨_, rfl⟩
  refine ⟨k, k', hk, hk', ?_⟩
  obtain ⟨s, t, hs, ht, horder, -, hasks⟩ :=
    (cursor_times_in_order hk hk' (i := 1)).1 _ _ rfl rfl (by decide) (by decide) (by decide)
  -- the two times show different seconds
  have hother : ¬(afternoon 5 900000000).SameSecond (afternoon 6 0) := by decide
  exact ⟨s, t, hs, ht, horder.mpr hother, hasks hother⟩

/-- Half a second later, a booking is bound to the same text in every dialect, and a walk
on from it asks for the earlier one. -/
theorem fraction_not_bound :
    (afternoon 5 0).date.FourDigits ∧ (afternoon 5 500000000).date.FourDigits ∧
    (afternoon 5 0).instant.atOrAfter (afternoon 5 500000000).instant = false ∧
    ∀ d : Dialect, ∃ k k' s,
      ofCursor d bookings (bookedAt (afternoon 5 0)) = .ok k ∧
      ofCursor d bookings (bookedAt (afternoon 5 500000000)) = .ok k' ∧
      k.BindsText 1 s ∧ k'.BindsText 1 s ∧ ¬textBytes s < textBytes s ∧ asksFor s s = true := by
  refine ⟨by decide, by decide, by decide, fun d => ?_⟩
  -- half a second later both times show the same second
  have hsame : (afternoon 5 0).SameSecond (afternoon 5 500000000) := by decide
  obtain ⟨k, hk⟩ : ∃ k, ofCursor d bookings (bookedAt (afternoon 5 0)) = .ok k := ⟨_, rfl⟩
  obtain ⟨k', hk'⟩ : ∃ k, ofCursor d bookings (bookedAt (afternoon 5 500000000)) = .ok k :=
    ⟨_, rfl⟩
  refine ⟨k, k', d.dateTimeText (afternoon 5 0), hk, hk', bindsText_of_dateTime hk rfl, ?_,
    lt_irrefl _, by simp [asksFor, Comparison.seek, Comparison.holds]⟩
  rw [d.dateTimeText_of_sameSecond hsame]
  exact bindsText_of_dateTime hk' rfl

end SqlPaging
