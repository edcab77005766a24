import SqlPaging.Calendar.Reader
import SqlPaging.Proofs.Calendar.Instants
import SqlPaging.Proofs.Calendar.Padded
import SqlPaging.Proofs.Calendar.Shown

/-!
# SqlPaging — dates and times read back

What is printed is read back as it is shown: dates of every year, with a sign or without,
times with a fraction of any width or none, and a leap second at the end of a minute,
which is shown as second 60. A leap second anywhere else has the text of the second that
follows, and that second is read back. Every field is printed in the greatest width that
its reader takes, or stands in front of a mark, so that no reader takes what belongs to
the next one.

Main results:

* `Date.parse?_text`, `DateTime.parse?_iso`, `DateTime.parseZoned?_isoUtc` — the texts
  of documents.
* `Date.parseSql?_text`, `DateTime.parseSqlZoned?_chars` — the texts of parameters.
* `DateTime.parseSql?_zone` — a time with its zone is no time without one.
-/

namespace SqlPaging.Calendar

open Decimal (ofDigits)
open Text (trimStart isBlank)

namespace Reader

/-! ## Numbers -/

/-- A number takes its digits, where these are as many as it may have or no digit
follows. -/
theorem number_append {least most : Nat} {s rest : List Char} (hs : ∀ c ∈ s, c.isDigit = true)
    (hleast : least ≤ s.length) (hmost : s.length ≤ most)
    (hrest : s.length = most ∨ rest.takeWhile Char.isDigit = []) :
    number least most (s ++ rest) = some (ofDigits s, rest) := by
  -- either there is no room for more digits, or no digit follows
  have hend : (rest.take (most - s.length)).takeWhile Char.isDigit = [] := by
    rcases hrest with hwidth | hrest
    · rw [hwidth, Nat.sub_self, List.take_zero, List.takeWhile_nil]
    · cases rest with
      | nil => rw [List.take_nil, List.takeWhile_nil]
      | cons c rest =>
        have hc : ¬c.isDigit = true := fun hc => by simp [hc] at hrest
        cases most - s.length with
        | zero => rfl
        | succ n => rw [List.take_succ_cons, List.takeWhile_cons_of_neg hc]
  -- the digits that are taken are those of the text in front
  have hdigits : ((s ++ rest).take most).takeWhile Char.isDigit = s := by
    rw [List.take_append, List.take_of_length_le hmost, List.takeWhile_append_of_pos hs, hend,
      List.append_nil]
  simp only [number, hdigits]
  rw [if_neg (Nat.not_lt.mpr hleast), List.drop_left]

/-- A field of the greatest width is read in front of anything. -/
theorem number_padded {least width n : Nat} (hw : 0 < width) (hleast : least ≤ width)
    (hn : n < 10 ^ width) (rest : List Char) :
    number least width (padded width n ++ rest) = some (n, rest) := by
  have hlen := length_padded_of_lt hw hn
  rw [number_append (fun _ => isDigit_of_mem_padded) (by omega) (by omega) (.inl hlen),
    ofDigits_padded]

theorem isBlank_of_isDigit {c : Char} (h : c.isDigit = true) : isBlank c = false := by
  have hdigit := toNat_of_isDigit h
  have hzero : '0'.toNat = 48 := rfl
  simp [isBlank, Text.blankRanges]
  omega

/-- There are no blanks to skip in front of a field. -/
theorem trimStart_padded (width n : Nat) (rest : List Char) :
    trimStart (padded width n ++ rest) = padded width n ++ rest := by
  -- the field starts with a digit, which is no blank
  obtain ⟨c, s, hs⟩ := List.exists_cons_of_ne_nil (padded_ne_nil width n)
  have hblank := isBlank_of_isDigit (isDigit_of_mem_padded (hs ▸ List.mem_cons_self))
  rw [hs, List.cons_append, trimStart, List.dropWhile_cons_of_neg (by simp [hblank])]

/-- A field of two digits is read in front of anything. -/
theorem field_padded {n : Nat} (h : n < 10 ^ 2) (rest : List Char) :
    field (padded 2 n ++ rest) = some (n, rest) := by
  rw [field, trimStart_padded, number_padded (by decide) (by decide) h]

/-- The digits of a year with a sign. -/
theorem number_signed (n : Nat) {rest : List Char} (hrest : rest.takeWhile Char.isDigit = []) :
    number 1 (padded 4 n ++ rest).length (padded 4 n ++ rest) = some (n, rest) := by
  have hpos : 0 < (padded 4 n).length := List.length_pos_iff.mpr (padded_ne_nil 4 n)
  have hlen : (padded 4 n).length ≤ (padded 4 n ++ rest).length := by simp
  rw [number_append (fun _ => isDigit_of_mem_padded) hpos hlen (.inr hrest), ofDigits_padded]

/-- A year is read back with its sign, if no digit follows. -/
theorem year_yearText (y : Int) {rest : List Char} (hrest : rest.takeWhile Char.isDigit = []) :
    year (yearText y ++ rest) = some (y, rest) := by
  unfold yearText
  split
  · next hfour =>
    -- four digits and no sign
    have hnumber : number 1 4 (padded 4 y.toNat ++ rest) = some (y.toNat, rest) :=
      number_padded (by decide) (by decide) (by omega) rest
    have hvalue : (y.toNat : Int) = y := Int.toNat_of_nonneg hfour.1
    obtain ⟨c, s, hs⟩ := List.exists_cons_of_ne_nil (padded_ne_nil 4 y.toNat)
    have hdigit := isDigit_of_mem_padded (hs ▸ List.mem_cons_self)
    rw [year, trimStart_padded]
    rw [hs, List.cons_append] at hnumber ⊢
    -- a digit is no sign
    split
    · next heq =>
      cases heq
      cases hdigit
    · next heq =>
      cases heq
      cases hdigit
    · rw [hnumber, Option.map_some]
      exact congrArg (fun v => some (v, rest)) hvalue
  · -- a sign, and then as many digits as there are
    have hsign : year ((if y < 0 then '-' else '+') :: padded 4 y.natAbs ++ rest) =
        some (if y < 0 then -(y.natAbs : Int) else y.natAbs, rest) := by
      rw [List.cons_append]
      split
      · show (number 1 (padded 4 y.natAbs ++ rest).length _).map _ = _
        rw [number_signed y.natAbs hrest, Option.map_some]
      · show (number 1 (padded 4 y.natAbs ++ rest).length _).map _ = _
        rw [number_signed y.natAbs hrest, Option.map_some]
    rw [hsign]
    congr
    omega

/-- A mark is taken off, whether blanks may stand in front of it or not. -/
theorem mark_cons (loose : Bool) {c : Char} (hc : isBlank c = false) (rest : List Char) :
    mark loose c (c :: rest) = some rest := by
  have htrim : (if loose then trimStart (c :: rest) else c :: rest) = c :: rest := by
    rw [trimStart, List.dropWhile_cons_of_neg (by simp [hc]), ite_self]
  rw [mark, htrim]
  simp

/-! ## Dates and times of day -/

theorem date_chars (loose : Bool) (d : Date) (rest : List Char) :
    date loose (d.chars ++ rest) = some (d, rest) := by
  obtain ⟨hmonth, hday⟩ := d.fields_lt
  have hmark := fun rest => mark_cons loose (c := '-') (by decide) rest
  -- the text once more, each field in front of all that follows it
  have htext : d.chars ++ rest =
      yearText d.year ++ '-' :: (padded 2 d.month ++ '-' :: (padded 2 d.day ++ rest)) := by
    simp only [Date.chars, List.append_assoc, List.cons_append]
  have hdate : Date.ofYmd? d.year d.month d.day = some d :=
    Date.ofYmd?_eq_some_iff.mpr ⟨rfl, rfl, rfl⟩
  rw [htext, date, year_yearText d.year rfl]
  simp only [Option.bind_eq_bind, Option.bind_some, hmark, field_padded hmonth,
    field_padded hday, hdate]

/-- A fraction of any width is read in billionths. -/
theorem fraction_point (width m : Nat) (hw : 0 < width) (hnine : width ≤ 9)
    (hm : m < 10 ^ width) {rest : List Char} (hrest : rest.takeWhile Char.isDigit = []) :
    fraction ('.' :: (padded width m ++ rest)) = some (m * 10 ^ (9 - width), rest) := by
  have hlen := length_padded_of_lt hw hm
  have hnumber : number 1 9 (padded width m ++ rest) = some (m, rest) := by
    rw [number_append (fun _ => isDigit_of_mem_padded) (by omega) (by omega) (.inr hrest),
      ofDigits_padded]
  -- the reader finds the width of the fraction by what is left of the text
  have hwidth : (padded width m ++ rest).length - rest.length = width := by
    rw [List.length_append]
    omega
  have hdrop : rest.dropWhile Char.isDigit = rest := by
    have := List.takeWhile_append_dropWhile (p := Char.isDigit) (l := rest)
    rwa [hrest, List.nil_append] at this
  -- fewer digits than nine are worth more each
  simp only [fraction, hnumber, Option.bind_eq_bind, Option.bind_some, hwidth, hdrop,
    Nat.pow_eq]

/-- A fraction is read back where neither a digit nor a point follows. -/
theorem fraction_fractionChars {n : Nat} (hn : n < billion) {rest : List Char}
    (hrest : rest.takeWhile Char.isDigit = []) (hpoint : rest.head? ≠ some '.') :
    fraction (fractionChars n ++ rest) = some (n, rest) := by
  unfold billion at hn
  unfold fractionChars
  split
  · next hzero =>
    -- nothing is printed, and what follows does not look like a fraction
    rw [hzero, List.nil_append, fraction]
    rintro s rfl
    exact hpoint rfl
  · split
    · next hmillis =>
      -- three digits are printed, and they count thousandths
      have h := fraction_point 3 (n / 1000000) (by decide) (by decide) (by omega) hrest
      rw [List.cons_append, h]
      congr
      omega
    · split
      · next hmicros =>
        have h := fraction_point 6 (n / 1000) (by decide) (by decide) (by omega) hrest
        rw [List.cons_append, h]
        congr
        omega
      · rw [List.cons_append, fraction_point 9 n (by decide) (by decide) hn hrest]
        congr
        omega

/-- The fields of a text give the time of day that it shows. -/
theorem ofHms?_shownSecond (t : TimeOfDay) :
    TimeOfDay.ofHms? t.hour t.minute t.shownSecond (t.nanos % billion) = some t.shown := by
  have hvalid := t.valid
  have hfraction : t.nanos % billion < billion := Nat.mod_lt _ (by decide)
  unfold TimeOfDay.shown
  split
  · next hlast =>
    -- only a leap second is shown as second 60 here, and it belongs to second 59
    have hsecond : (if t.shownSecond = 60 then 59 else t.shownSecond) = t.second := by
      unfold TimeOfDay.shownSecond billion at *
      split <;> omega
    have hnanos : (if t.shownSecond = 60 then t.nanos % billion + billion
        else t.nanos % billion) = t.nanos := by
      unfold TimeOfDay.shownSecond billion at *
      split <;> omega
    simp only [TimeOfDay.ofHms?, hsecond, hnanos]
    rw [dif_pos ⟨hvalid, .inr hlast⟩]
  · next hlast =>
    -- the minute has a second of the number that is shown
    have hsecond : t.shownSecond < 60 := by
      unfold TimeOfDay.shownSecond billion at *
      omega
    simp only [TimeOfDay.ofHms?, if_neg (Nat.ne_of_lt hsecond)]
    rw [dif_pos ⟨⟨hvalid.1, hvalid.2.1, hsecond, by omega⟩, .inl hfraction⟩]

/-- A time of day is read back as it is shown, together with what is read as its
fraction. -/
theorem time_chars (loose fractional : Bool) (t : TimeOfDay) {rest rest' : List Char}
    (hfraction : (if fractional then fraction rest else some (0, rest)) =
      some (t.nanos % billion, rest')) :
    time loose fractional (t.chars ++ rest) = some (t.shown, rest') := by
  obtain ⟨hhour, hminute, hsecond⟩ := t.fields_lt
  have hmark := fun rest => mark_cons loose (c := ':') (by decide) rest
  -- three fields of two digits with marks between them
  have htext : t.chars ++ rest = padded 2 t.hour ++ ':' :: (padded 2 t.minute ++
      ':' :: (padded 2 t.shownSecond ++ rest)) := by
    simp only [TimeOfDay.chars, List.append_assoc, List.cons_append]
  rw [htext, time]
  simp only [Option.bind_eq_bind, Option.bind_some, field_padded hhour, field_padded hminute,
    field_padded hsecond, hmark]
  -- with or without a fraction, the shown second and the nanoseconds give the time
  cases fractional with
  | false =>
    rw [if_neg Bool.false_ne_true] at hfraction ⊢
    obtain ⟨hnanos, rfl⟩ := Prod.mk.inj (Option.some.inj hfraction)
    rw [hnanos, ofHms?_shownSecond, Option.bind_some]
  | true =>
    rw [if_pos rfl] at hfraction ⊢
    simp only [hfraction, Option.bind_some, ofHms?_shownSecond]

/-! ## Dates with a time of day -/

/-- A time with its fraction, as documents have it. -/
theorem dateTime_isoChars (t : DateTime) {between : List Char → Option (List Char)}
    (hbetween : ∀ rest, between ('T' :: rest) = some rest) (rest : List Char)
    (hrest : rest.takeWhile Char.isDigit = []) (hpoint : rest.head? ≠ some '.') :
    dateTime (date true) between (time true true) (t.isoChars ++ rest) =
      some (t.shown, rest) := by
  have hnanos : t.time.nanos % billion < billion := Nat.mod_lt _ (by decide)
  have hfraction := fraction_fractionChars hnanos hrest hpoint
  -- the date, the mark, the time of day and its fraction, each in front of the rest
  have htext : t.isoChars ++ rest = t.date.chars ++
      'T' :: (t.time.chars ++ (fractionChars (t.time.nanos % billion) ++ rest)) := by
    simp only [DateTime.isoChars, DateTime.chars, List.append_assoc, List.cons_append]
  have htime : time true true (t.time.chars ++ (fractionChars (t.time.nanos % billion) ++ rest)) =
      some (t.time.shown, rest) := time_chars true true t.time (by rw [if_pos rfl, hfraction])
  rw [htext, dateTime, date_chars]
  simp only [Option.bind_eq_bind, Option.bind_some, hbetween, htime]
  rfl

/-- A time without a fraction, as parameters have it. -/
theorem dateTime_chars {t : DateTime} (hwhole : t.time.nanos % billion = 0) (rest : List Char) :
    dateTime (date false) (fun s => some (trimStart s)) (time false false) (t.chars ' ' ++ rest) =
      some (t.shown, rest) := by
  -- the reader skips the blank between date and time, and no digit of the hour
  have hblank : trimStart (' ' :: (t.time.chars ++ rest)) = t.time.chars ++ rest := by
    rw [trimStart, List.dropWhile_cons_of_pos (by decide), TimeOfDay.chars, List.append_assoc,
      List.append_assoc]
    exact trimStart_padded _ _ _
  have htext : t.chars ' ' ++ rest = t.date.chars ++ ' ' :: (t.time.chars ++ rest) := by
    simp only [DateTime.chars, List.append_assoc, List.cons_append]
  have htime : time false false (t.time.chars ++ rest) = some (t.time.shown, rest) :=
    time_chars false false t.time (by rw [hwhole]; rfl)
  rw [htext, dateTime, date_chars]
  simp only [Option.bind_eq_bind, Option.bind_some, hblank, htime]
  rfl

theorem wholeLoose_of_nil {α : Type} {step : Step α} {s : List Char} {a : α}
    (h : step s = some (a, [])) : wholeLoose step s = some a := by
  rw [wholeLoose, h]
  rfl

end Reader

open Reader

/-! ## Whole texts -/

/-- A date is read back from the text of a document. -/
theorem Date.parse?_text (d : Date) : Date.parse? d.text = some d := by
  have h := date_chars true d []
  rw [List.append_nil] at h
  rw [parse?, text, String.toList_ofList, wholeLoose_of_nil h]

/-- A date is read back from the text of a parameter. -/
theorem Date.parseSql?_text (d : Date) : Date.parseSql? d.text = some d := by
  have h := date_chars false d []
  rw [List.append_nil] at h
  simp [parseSql?, text, whole, h]

namespace DateTime

/-- A time is read back from the text of a document, as it is shown there. -/
theorem parse?_iso (t : DateTime) : parse? t.iso = some t.shown := by
  have h := dateTime_isoChars t (mark_cons true (by decide)) [] rfl (by decide)
  rw [List.append_nil] at h
  rw [parse?, iso, String.toList_ofList, wholeLoose_of_nil h]

theorem parseZoned?_isoUtc (t : DateTime) : parseZoned? t.isoUtc = some t.shown := by
  have hletter : ∀ rest, letterOrSpace ('T' :: rest) = some rest := fun _ => rfl
  have h := dateTime_isoChars t hletter ['Z'] rfl (by decide)
  have hzone : looseZone ['Z'] = some (0, []) := by decide
  rw [parseZoned?, isoUtc, String.toList_ofList]
  apply wholeLoose_of_nil
  simp only [inZone, h, Option.bind_eq_bind, Option.bind_some, hzone, toUtc?_zero]

/-- A time is read back from the parameter of a dialect with zones, for the second that
it shows. -/
theorem parseSqlZoned?_chars {t : DateTime} (hwhole : t.time.nanos % billion = 0) :
    parseSqlZoned? (String.ofList (t.chars ' ' ++ "+0000".toList)) = some t.shown := by
  have hzone : offset .any (trimStart "+0000".toList) = some (0, []) := by decide
  rw [parseSqlZoned?, String.toList_ofList]
  simp only [whole, inZone, dateTime_chars hwhole, Option.bind_eq_bind, Option.bind_some, hzone,
    toUtc?_zero]
  rfl

/-- The parameter of a dialect with zones is no time without a zone: the zone is left
over. -/
theorem parseSql?_zone {t : DateTime} (hwhole : t.time.nanos % billion = 0) :
    parseSql? (String.ofList (t.chars ' ' ++ "+0000".toList)) = none := by
  rw [parseSql?, String.toList_ofList]
  -- the time itself is read, and a text must end there
  simp only [whole, dateTime_chars hwhole, Option.bind_eq_bind, Option.bind_some]
  rfl

end DateTime

end SqlPaging.Calendar
