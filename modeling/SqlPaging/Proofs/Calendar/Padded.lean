import Mathlib.Algebra.Group.Nat.Defs
import SqlPaging.Calendar.Printer
import SqlPaging.Decimal.Reader

/-!
# SqlPaging — numbers of a fixed width

The fields of a printed date have leading zeros. Such a number is read back as it was,
and two numbers of the same width have the order of their digits. The order of digits is
that of their codes, as a database compares texts.

Main results:

* `ofDigits_padded` — leading zeros do not matter.
* `codes_padded_append_lt_iff` — fields in front of what follows decide the order of texts.
-/

namespace SqlPaging.Calendar

open Decimal (ofDigits)

/-! ## Digits -/

theorem isDigit_of_mem_padded {width n : Nat} {c : Char} (hc : c ∈ padded width n) :
    c.isDigit = true := by
  rw [padded, List.mem_append, List.mem_replicate] at hc
  -- a leading zero, or a digit of the number
  rcases hc with ⟨-, rfl⟩ | hc
  · rfl
  · exact Nat.isDigit_of_mem_toDigits (by decide) (by decide) hc

theorem ofDigits_padded (width n : Nat) : ofDigits (padded width n) = n := by
  rw [ofDigits, padded, Nat.ofDigitChars_append, Nat.ofDigitChars_replicate_zero, Nat.mul_zero]
  exact Decimal.ofDigits_toDigits n

/-- A field has its width if the number has no more digits. -/
theorem length_padded_of_lt {width n : Nat} (hw : 0 < width) (h : n < 10 ^ width) :
    (padded width n).length = width :=
  length_padded ((Nat.length_toDigits_le_iff (by decide) hw).mpr h)

theorem padded_ne_nil (width n : Nat) : padded width n ≠ [] := by
  rw [padded]
  exact List.append_ne_nil_of_right_ne_nil _ Nat.toDigits_ne_nil

/-! ## Fields -/

/-- Two digits are enough for a month and for a day. -/
theorem Date.fields_lt (d : Date) : d.month < 10 ^ 2 ∧ d.day < 10 ^ 2 := by
  obtain ⟨-, -, -, hm, -, hd⟩ := d.valid
  -- no month has more days than two digits can count
  have hdays : daysIn d.year d.month ≤ 31 := by
    unfold daysIn
    split
    · split <;> omega
    · split <;> omega
  omega

/-- Two digits are enough for an hour, a minute and a second, and for second 60 too. -/
theorem TimeOfDay.fields_lt (t : TimeOfDay) :
    t.hour < 10 ^ 2 ∧ t.minute < 10 ^ 2 ∧ t.shownSecond < 10 ^ 2 := by
  have := t.valid
  unfold shownSecond billion at *
  omega

/-! ## Codes -/

/-- The codes of characters, in which texts are compared. -/
def codes (s : List Char) : List Nat := s.map Char.toNat

theorem codes_append (s t : List Char) : codes (s ++ t) = codes s ++ codes t := List.map_append

theorem codes_cons (c : Char) (s : List Char) : codes (c :: s) = c.toNat :: codes s := rfl

theorem length_codes (s : List Char) : (codes s).length = s.length := List.length_map _

theorem codes_injective {s t : List Char} (h : codes s = codes t) : s = t :=
  (List.map_inj_right fun _ _ => Char.toNat_inj.mp).mp h

/-- Parts of the same length decide the order if they differ. -/
theorem append_lt_append_iff {a b s t : List Nat} (h : a.length = b.length) :
    a ++ s < b ++ t ↔ a < b ∨ a = b ∧ s < t := by
  induction a generalizing b with
  | nil =>
    cases b with
    | nil => simp
    | cons y b => cases h
  | cons x a ih =>
    cases b with
    | nil => cases h
    | cons y b =>
      -- codes of equal length are compared in step, and the rests where they end
      have hrest := ih (b := b) (by simpa using h)
      rw [List.cons_append, List.cons_append, List.cons_lt_cons_iff, List.cons_lt_cons_iff, hrest,
        List.cons.injEq, and_or_left, or_assoc, and_assoc]

/-- The codes of digits stand next to each other, from that of zero on. -/
theorem toNat_of_isDigit {c : Char} (h : c.isDigit = true) :
    '0'.toNat ≤ c.toNat ∧ c.toNat ≤ '0'.toNat + 9 := by
  simp only [Char.isDigit, Bool.and_eq_true, decide_eq_true_eq, UInt32.le_iff_toNat_le] at h
  exact h

/-- A digit counts for as many as the digits behind it can tell apart. -/
theorem ofDigits_cons (c : Char) (s : List Char) :
    ofDigits (c :: s) = 10 ^ s.length * (c.toNat - '0'.toNat) + ofDigits s := by
  rw [ofDigits, Nat.ofDigitChars_cons, Nat.ofDigitChars_eq_ofDigitChars_zero, ofDigits]
  rw [Nat.mul_zero, Nat.zero_add]

theorem ofDigits_lt {s : List Char} (hs : ∀ c ∈ s, c.isDigit = true) :
    ofDigits s < 10 ^ s.length := by
  induction s with
  | nil => decide
  | cons c s ih =>
    obtain ⟨hc, hs⟩ := List.forall_mem_cons.mp hs
    -- the digits behind the first one do not carry
    have hrest := ih hs
    have hdigit := toNat_of_isDigit hc
    have hmul : 10 ^ s.length * (c.toNat - '0'.toNat) ≤ 10 ^ s.length * 9 :=
      Nat.mul_le_mul_left _ (by omega)
    rw [ofDigits_cons, List.length_cons, Nat.pow_succ]
    omega

/-- Two numbers with as many digits have the order of their digits. -/
theorem codes_lt_iff_of_isDigit {s t : List Char} (hlen : s.length = t.length)
    (hs : ∀ c ∈ s, c.isDigit = true) (ht : ∀ c ∈ t, c.isDigit = true) :
    codes s < codes t ↔ ofDigits s < ofDigits t := by
  -- the first digits that differ decide, on both sides
  induction s generalizing t with
  | nil =>
    cases t with
    | nil => decide
    | cons d t => cases hlen
  | cons c s ih =>
    cases t with
    | nil => cases hlen
    | cons d t =>
      obtain ⟨hc, hs⟩ := List.forall_mem_cons.mp hs
      obtain ⟨hd, ht⟩ := List.forall_mem_cons.mp ht
      have hlen : s.length = t.length := by simpa using hlen
      have hslt := ofDigits_lt hs
      have htlt := ofDigits_lt ht
      have hc := toNat_of_isDigit hc
      have hd := toNat_of_isDigit hd
      rw [codes_cons, codes_cons, List.cons_lt_cons_iff, ih hlen hs ht, ofDigits_cons,
        ofDigits_cons, hlen]
      rw [hlen] at hslt
      -- the first digits differ, or they agree
      rcases Nat.lt_trichotomy c.toNat d.toNat with hlt | heq | hgt
      · -- a greater first digit is worth more than all digits behind it
        have hmul : 10 ^ t.length * (c.toNat - '0'.toNat + 1) ≤
            10 ^ t.length * (d.toNat - '0'.toNat) := Nat.mul_le_mul_left _ (by omega)
        rw [Nat.mul_succ] at hmul
        omega
      · -- the first digits agree, and the rest decides
        rw [heq]
        omega
      · -- the same, with the texts exchanged
        have hmul : 10 ^ t.length * (d.toNat - '0'.toNat + 1) ≤
            10 ^ t.length * (c.toNat - '0'.toNat) := Nat.mul_le_mul_left _ (by omega)
        rw [Nat.mul_succ] at hmul
        omega

/-- Fields of one width have the order of their numbers. -/
theorem codes_padded_lt_iff {width n m : Nat} (hw : 0 < width) (hn : n < 10 ^ width)
    (hm : m < 10 ^ width) : codes (padded width n) < codes (padded width m) ↔ n < m := by
  have hlen : (padded width n).length = (padded width m).length := by
    rw [length_padded_of_lt hw hn, length_padded_of_lt hw hm]
  rw [codes_lt_iff_of_isDigit hlen (fun _ => isDigit_of_mem_padded)
    (fun _ => isDigit_of_mem_padded), ofDigits_padded, ofDigits_padded]

theorem padded_injective {width n m : Nat} (h : padded width n = padded width m) : n = m := by
  rw [← ofDigits_padded width n, h, ofDigits_padded]

/-- Two texts that begin with fields of the same width have the order of the fields, or
of what follows. -/
theorem codes_padded_append_lt_iff {width n m : Nat} (hw : 0 < width) (hn : n < 10 ^ width)
    (hm : m < 10 ^ width) (s t : List Char) :
    codes (padded width n ++ s) < codes (padded width m ++ t) ↔
      n < m ∨ n = m ∧ codes s < codes t := by
  have hlen : (codes (padded width n)).length = (codes (padded width m)).length := by
    rw [length_codes, length_codes, length_padded_of_lt hw hn, length_padded_of_lt hw hm]
  -- fields are the same just if their numbers are
  have heq : codes (padded width n) = codes (padded width m) ↔ n = m :=
    ⟨fun h => padded_injective (codes_injective h), fun h => h ▸ rfl⟩
  rw [codes_append, codes_append, append_lt_append_iff hlen, codes_padded_lt_iff hw hn hm, heq]

/-- The same mark in front of two texts does not change their order. -/
theorem codes_cons_lt_iff (c : Char) (s t : List Char) :
    codes (c :: s) < codes (c :: t) ↔ codes s < codes t := by
  rw [codes_cons, codes_cons, List.cons_lt_cons_iff]
  simp

end SqlPaging.Calendar
