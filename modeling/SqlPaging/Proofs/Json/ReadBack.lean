import SqlPaging.Json.Writer
import Mathlib.Tactic.SplitIfs

/-!
# SqlPaging — documents read back

What is written is read back as it was, whatever characters the texts of a document
have. Every part is read in front of any rest that cannot go on with it: a text ends with
its quote, and a number in front of a mark that stands behind a value.

Main results:

* `readText?_quote` — a text is read back, with all its characters.
* `readValue?_chars` — a document is read back in front of what follows it.
* `parse?_render` — a document is read back as a whole text.
-/

namespace SqlPaging.Json

/-! ## Texts -/

/-- The digits of a control character name it. -/
theorem unit?_hexDigit {n : Nat} (h : n < 32) :
    unit? '0' '0' (hexDigit (n / 16)) (hexDigit (n % 16)) = some n := by
  have hall : ∀ n < 32, unit? '0' '0' (hexDigit (n / 16)) (hexDigit (n % 16)) = some n := by
    decide
  exact hall n h

/-- A character that a letter names is read back. -/
theorem readPieces?_escaped {e c : Char} (h : escaped? e = some c) (rest : List Char) :
    readPieces? ('\\' :: e :: rest) = (readPieces? rest).map fun p => (.char c :: p.1, p.2) := by
  -- the letter is not the one in front of digits
  rw [readPieces?, h]
  · cases readPieces? rest <;> rfl
  · rintro _ _ _ _ _ rfl
    cases h

/-- An escape with four digits is read as the unit that they name. -/
theorem readPieces?_digits {a b c d : Char} {u : Nat} (h : unit? a b c d = some u)
    (rest : List Char) :
    readPieces? ('\\' :: 'u' :: a :: b :: c :: d :: rest) =
      (readPieces? rest).map fun p => (.unit u :: p.1, p.2) := by
  rw [readPieces?, h]
  cases readPieces? rest <;> rfl

theorem readPieces?_plain {c : Char} (hq : c ≠ '"') (hb : c ≠ '\\') (hc : 32 ≤ c.toNat)
    (rest : List Char) :
    readPieces? (c :: rest) = (readPieces? rest).map fun p => (.char c :: p.1, p.2) := by
  -- a plain character is no mark, so that only the last rule of the reader applies
  have hnot : ¬(c.toNat < 32 ∨ c = '\\') := not_or.mpr ⟨Nat.not_lt.mpr hc, hb⟩
  rw [readPieces?, if_neg hnot]
  · cases readPieces? rest <;> rfl
  · exact hq
  · exact fun _ _ _ _ _ h => absurd h hb
  · exact fun _ _ h => absurd h hb

/-- The unit of a control character is that character. -/
theorem joinPieces?_unit {u : Nat} (h : u < 32) (pieces : List Piece) :
    joinPieces? (.unit u :: pieces) = (joinPieces? pieces).map (Char.ofNat u :: ·) := by
  have hhigh : ¬isHighHalf u = true := by
    -- halves of pairs start far above the control characters
    simp only [isHighHalf, Bool.and_eq_true, decide_eq_true_eq]
    omega
  have hlow : ¬isLowHalf u = true := by
    simp only [isLowHalf, Bool.and_eq_true, decide_eq_true_eq]
    omega
  rw [joinPieces?.eq_def]
  simp only [if_neg hhigh, if_neg hlow]

/-- A character is written as a letter that names it, as its digits, or as itself. -/
theorem escape_cases (c : Char) :
    (∃ e, escape c = ['\\', e] ∧ escaped? e = some c) ∨
    (c.toNat < 32 ∧
      escape c = ['\\', 'u', '0', '0', hexDigit (c.toNat / 16), hexDigit (c.toNat % 16)]) ∨
    (c ≠ '"' ∧ c ≠ '\\' ∧ 32 ≤ c.toNat ∧ escape c = [c]) := by
  unfold escape
  -- seven characters have an escape of two characters
  split_ifs with hquote hslash hback htab hline hfeed hreturn hcontrol
  · exact .inl ⟨_, rfl, by rw [hquote]; rfl⟩
  · exact .inl ⟨_, rfl, by rw [hslash]; rfl⟩
  · exact .inl ⟨_, rfl, by rw [hback]; rfl⟩
  · exact .inl ⟨_, rfl, by rw [htab]; rfl⟩
  · exact .inl ⟨_, rfl, by rw [hline]; rfl⟩
  · exact .inl ⟨_, rfl, by rw [hfeed]; rfl⟩
  · exact .inl ⟨_, rfl, by rw [hreturn]; rfl⟩
  · exact .inr (.inl ⟨hcontrol, rfl⟩)
  · exact .inr (.inr ⟨hquote, hslash, Nat.not_lt.mp hcontrol, rfl⟩)

/-- A character is read back as one part of the text. -/
theorem readPieces?_escape (c : Char) (rest : List Char) :
    ∃ piece, readPieces? (escape c ++ rest) =
        (readPieces? rest).map (fun p => (piece :: p.1, p.2)) ∧
      ∀ pieces, joinPieces? (piece :: pieces) = (joinPieces? pieces).map (c :: ·) := by
  -- what is read as digits is a unit of the text, and all else a character
  rcases escape_cases c with ⟨e, hescape, he⟩ | ⟨hc, hescape⟩ | ⟨hq, hb, hc, hescape⟩
  · exact ⟨.char c, by rw [hescape]; exact readPieces?_escaped he rest, fun _ => rfl⟩
  · refine ⟨.unit c.toNat, by rw [hescape]; exact readPieces?_digits (unit?_hexDigit hc) rest, ?_⟩
    intro pieces
    rw [joinPieces?_unit hc, Char.ofNat_toNat]
  · exact ⟨.char c, by rw [hescape]; exact readPieces?_plain hq hb hc rest, fun _ => rfl⟩

/-- A text is read back up to its closing quote. -/
theorem readText?_quote (s rest : List Char) :
    readText? (s.flatMap escape ++ '"' :: rest) = some (some (String.ofList s), rest) := by
  -- the induction is on the text: the part of its first character comes in front
  have hpieces : ∃ pieces, readPieces? (s.flatMap escape ++ '"' :: rest) = some (pieces, rest) ∧
      joinPieces? pieces = some s := by
    induction s with
    | nil => exact ⟨[], rfl, rfl⟩
    | cons c s ih =>
      obtain ⟨pieces, hread, hjoin⟩ := ih
      obtain ⟨piece, hfirst, hback⟩ := readPieces?_escape c (s.flatMap escape ++ '"' :: rest)
      refine ⟨piece :: pieces, ?_, ?_⟩
      · rw [List.flatMap_cons, List.append_assoc, hfirst, hread, Option.map_some]
      · rw [hback, hjoin, Option.map_some]
  obtain ⟨pieces, hread, hjoin⟩ := hpieces
  simp only [readText?, hread, hjoin, Option.map_some]

/-! ## Numbers -/

/-- An integer as it is written: digits alone, with a leading zero only in zero itself. -/
structure Number.Formed (n : Number) : Prop where
  plain : n.plain = true
  nonempty : n.whole ≠ []
  digits : ∀ c ∈ n.whole, c.isDigit = true
  leading : n.whole.head? ≠ some '0' ∨ n.whole = ['0']

/-- The digits of a positive number do not start with zero. -/
theorem head?_toDigits {n : Nat} (h : 0 < n) : (Nat.toDigits 10 n).head? ≠ some '0' := by
  induction n using Nat.strongRecOn with
  | ind n ih =>
    by_cases hsmall : n < 10
    · -- a single digit stands for itself
      have hall : ∀ n < 10, 0 < n → ([n.digitChar] : List Char).head? ≠ some '0' := by decide
      rw [Nat.toDigits_of_lt_base hsmall]
      exact hall n hsmall h
    · -- a longer number starts like its tenth part
      have hsplit := Nat.toDigits_append_toDigits (b := 10) (n := n / 10) (d := n % 10) (by decide)
        (by omega) (by omega)
      rw [Nat.div_add_mod] at hsplit
      obtain ⟨c, s, hs⟩ := List.exists_cons_of_ne_nil (Nat.toDigits_ne_nil (n := n / 10) (b := 10))
      have hfront := ih (n / 10) (by omega) (by omega)
      rw [hs] at hfront
      rw [← hsplit, hs]
      exact hfront

/-- Natural numbers are formed as documents have them. -/
theorem Number.formed_ofNat (n : Nat) : (Number.ofNat n).Formed where
  plain := rfl
  nonempty := Nat.toDigits_ne_nil
  digits := fun _ => Nat.isDigit_of_mem_toDigits (by decide) (by decide)
  leading := by
    rcases Nat.eq_zero_or_pos n with rfl | hn
    · exact .inr rfl
    · exact .inl (head?_toDigits hn)

theorem Number.formed_ofInt (n : Int64) : (Number.ofInt n).Formed :=
  have h := Number.formed_ofNat n.toInt.natAbs
  ⟨h.plain, h.nonempty, h.digits, h.leading⟩

/-- A number starts with its sign or with a digit. -/
theorem Number.Formed.head {n : Number} (h : n.Formed) :
    ∃ c s, n.chars = c :: s ∧ (c = '-' ∨ c.isDigit = true) := by
  obtain ⟨d, ds, hds⟩ := List.exists_cons_of_ne_nil h.nonempty
  have hdigit : d.isDigit = true := h.digits d (hds ▸ List.mem_cons_self)
  rw [Number.chars, hds]
  cases n.negative with
  | true => exact ⟨'-', _, rfl, .inl rfl⟩
  | false => exact ⟨d, _, rfl, .inr hdigit⟩

/-- What comes behind a value: a comma, a closing bracket, or nothing. -/
def Stops (rest : List Char) : Prop := ∀ c ∈ rest.head?, c = ',' ∨ c = ']' ∨ c = '\x7d'

theorem stops_nil : Stops [] := by simp [Stops]

/-- A number stops in front of what separates values. -/
theorem stops_cons {c : Char} (h : c = ',' ∨ c = ']' ∨ c = '\x7d') (rest : List Char) :
    Stops (c :: rest) := by simpa [Stops] using h

/-- Digits are read up to where a number stops. -/
theorem readDigits?_append {ds rest : List Char} (hnonempty : ds ≠ [])
    (hds : ∀ c ∈ ds, c.isDigit = true) (hrest : Stops rest) :
    readDigits? (ds ++ rest) = some (ds, rest) := by
  -- what comes behind a value starts with no digit
  have hend : rest.takeWhile Char.isDigit = [] ∧ rest.dropWhile Char.isDigit = rest := by
    cases rest with
    | nil => exact ⟨rfl, rfl⟩
    | cons c rest => rcases hrest c rfl with rfl | rfl | rfl <;> exact ⟨rfl, rfl⟩
  have htake : (ds ++ rest).takeWhile Char.isDigit = ds := by
    rw [List.takeWhile_append_of_pos hds, hend.1, List.append_nil]
  have hdrop : (ds ++ rest).dropWhile Char.isDigit = rest := by
    rw [List.dropWhile_append_of_pos hds, hend.2]
  simp only [readDigits?, htake, hdrop]
  simp [hnonempty]

/-- A number is read back in front of what comes behind a value. -/
theorem readNumber?_chars {n : Number} (h : n.Formed) {rest : List Char} (hrest : Stops rest) :
    readNumber? (n.chars ++ rest) = some (n, rest) := by
  obtain ⟨hplain, hnonempty, hdigits, hleading⟩ := h
  obtain ⟨negative, whole, fraction, exponent⟩ := n
  -- an integer is nothing but a sign and digits
  obtain ⟨hfraction, hexponent⟩ : fraction = [] ∧ exponent = none := by
    simpa [Number.plain] using hplain
  subst hfraction hexponent
  simp only at hnonempty hdigits hleading
  obtain ⟨d, ds, rfl⟩ := List.exists_cons_of_ne_nil hnonempty
  have hdigit : d.isDigit = true := hdigits d List.mem_cons_self
  have hwhole : readWhole? (d :: (ds ++ rest)) = some (d :: ds, rest) := by
    by_cases hzero : d = '0'
    · -- a zero in front is the whole number
      subst hzero
      obtain rfl : ds = [] := by simpa using hleading
      rfl
    · -- only a leading zero would stop the digits
      rw [readWhole?, ← List.cons_append, readDigits?_append hnonempty hdigits hrest]
      rintro s h
      exact hzero (List.cons.inj h).1
  -- neither a point nor an exponent comes behind the digits
  have hend : readFraction? rest = some ([], rest) ∧ readPower? rest = some (none, rest) := by
    cases rest with
    | nil => exact ⟨rfl, rfl⟩
    | cons c rest => rcases hrest c rfl with rfl | rfl | rfl <;> exact ⟨rfl, rfl⟩
  cases negative with
  | true =>
    have htext : Number.chars ⟨true, d :: ds, [], none⟩ ++ rest = '-' :: d :: (ds ++ rest) := by
      simp [Number.chars]
    rw [htext, readNumber?]
    simp only [Option.bind_eq_bind, hwhole, Option.bind_some, hend]
  | false =>
    have htext : Number.chars ⟨false, d :: ds, [], none⟩ ++ rest = d :: (ds ++ rest) := by
      simp [Number.chars]
    rw [htext, readNumber?]
    · simp only [Option.bind_eq_bind, hwhole, Option.bind_some, hend]
    -- a digit is no sign
    · rintro s h
      cases h
      cases hdigit

/-! ## Documents -/

/-- The documents that are read back as they are: their texts have no lone halves of
pairs, and their numbers are integers. -/
inductive Written : Json → Prop
  | null : Written .null
  | bool (b : Bool) : Written (.bool b)
  | number {n : Number} (formed : n.Formed) : Written (.number n)
  | string (s : String) : Written (.string (some s))
  | array {items : List Json} (written : ∀ j ∈ items, Written j) : Written (.array items)
  | object {members : List (Option String × Json)} (named : ∀ m ∈ members, m.1.isSome = true)
      (written : ∀ m ∈ members, Written m.2) : Written (.object members)

theorem chars_number (n : Number) : (Json.number n).chars = n.chars := rfl

theorem chars_string (s : String) : (Json.string (some s)).chars = quote s.toList := rfl

theorem chars_array (items : List Json) :
    (Json.array items).chars = '[' :: itemChars items ++ [']'] := rfl

theorem chars_object (members : List (Option String × Json)) :
    (Json.object members).chars = '\x7b' :: memberChars members ++ ['\x7d'] := rfl

theorem skipBlanks_cons {c : Char} (h : isBlank c = false) (s : List Char) :
    skipBlanks (c :: s) = c :: s := by
  rw [skipBlanks, List.dropWhile_cons_of_neg (by simp [h])]

/-- A document starts with a mark of its kind or with a digit. -/
theorem Written.head {j : Json} (h : Written j) :
    ∃ c s, j.chars = c :: s ∧ isBlank c = false ∧ c ≠ ']' := by
  cases h with
  | null => exact ⟨'n', _, rfl, by decide⟩
  | bool b =>
    cases b
    · exact ⟨'f', _, rfl, by decide⟩
    · exact ⟨'t', _, rfl, by decide⟩
  | number formed =>
    -- a number starts with a digit or a minus sign
    obtain ⟨c, s, hchars, hc⟩ := formed.head
    refine ⟨c, s, by rw [chars_number, hchars], ?_⟩
    rcases hc with rfl | hc
    · decide
    · constructor
      · simp only [isBlank, Bool.or_eq_false_iff, decide_eq_false_iff_not]
        refine ⟨⟨⟨?_, ?_⟩, ?_⟩, ?_⟩ <;>
        · rintro rfl
          cases hc
      · rintro rfl
        cases hc
  | string s => exact ⟨'"', _, by rw [chars_string, quote]; rfl, by decide⟩
  | array written => exact ⟨'[', _, rfl, by decide⟩
  | object named written => exact ⟨'\x7b', _, rfl, by decide⟩

/-- A document is read back in front of what may come behind it. -/
def ReadBack (j : Json) : Prop := ∀ bound rest, 2 * j.chars.length ≤ bound → Stops rest →
  readValue? bound (j.chars ++ rest) = some (j, rest)

theorem itemChars_singleton (item : Json) : itemChars [item] = item.chars := rfl

theorem itemChars_cons_cons (item next : Json) (items : List Json) :
    itemChars (item :: next :: items) = item.chars ++ ',' :: itemChars (next :: items) := rfl

/-- Items start with the first character of the first item, which is neither a blank nor the
closing bracket. -/
theorem itemChars_head {item : Json} (h : Written item) (items : List Json) :
    ∃ c s, itemChars (item :: items) = c :: s ∧ isBlank c = false ∧ c ≠ ']' := by
  obtain ⟨c, s, hchars, hc⟩ := h.head
  cases items with
  | nil => exact ⟨c, s, by rw [itemChars_singleton, hchars], hc⟩
  | cons next items => exact ⟨c, _, by rw [itemChars_cons_cons, hchars]; rfl, hc⟩

/-- Items that are read back one by one are read back together. -/
theorem readItems?_itemChars {items : List Json} (hnonempty : items ≠ [])
    (hread : ∀ j ∈ items, ReadBack j) {bound : Nat}
    (hbound : 2 * (itemChars items).length + 1 ≤ bound) (rest : List Char) :
    readItems? bound (itemChars items ++ ']' :: rest) = some (items, rest) := by
  -- every item uses the bound up by one, and is written with one character at least
  induction items generalizing bound with
  | nil => exact absurd rfl hnonempty
  | cons item items ih =>
    -- what is read behind an item depends on whether it is the last one
    obtain ⟨hitem, hitems⟩ := List.forall_mem_cons.mp hread
    cases bound with
    | zero => omega
    | succ bound =>
      cases items with
      | nil =>
        -- the closing bracket ends the last item
        rw [itemChars_singleton] at hbound ⊢
        rw [readItems?, hitem bound _ (by omega) (stops_cons (.inr (.inl rfl)) rest)]
        rfl
      | cons next items =>
        rw [itemChars_cons_cons] at hbound ⊢
        rw [List.length_append, List.length_cons] at hbound
        have hmore : readItems? bound (itemChars (next :: items) ++ ']' :: rest) =
            some (next :: items, rest) := ih (List.cons_ne_nil _ _) hitems (by omega)
        rw [List.append_assoc, List.cons_append, readItems?,
          hitem bound _ (by omega) (stops_cons (.inl rfl) _)]
        simp only [Option.bind_eq_bind, Option.bind_some, skipBlanks_cons (c := ',') rfl, hmore]

theorem readName?_quote (name : String) (rest : List Char) :
    readName? (quote name.toList ++ ':' :: rest) = some (some name, rest) := by
  have htext : quote name.toList ++ ':' :: rest =
      '"' :: (name.toList.flatMap escape ++ '"' :: ':' :: rest) := by simp [quote]
  rw [htext, readName?, skipBlanks_cons rfl]
  simp only [readText?_quote, Option.bind_eq_bind, Option.bind_some, skipBlanks_cons (c := ':') rfl,
    String.ofList_toList]

theorem memberChars_singleton (name : String) (value : Json) :
    memberChars [(some name, value)] = quote name.toList ++ ':' :: value.chars := rfl

theorem memberChars_cons_cons (name : String) (value : Json)
    (next : Option String × Json) (members : List (Option String × Json)) :
    memberChars ((some name, value) :: next :: members) =
      quote name.toList ++ ':' :: value.chars ++ ',' :: memberChars (next :: members) := rfl

/-- Members start with the quote of the first name. -/
theorem memberChars_head (name : String) (value : Json)
    (members : List (Option String × Json)) :
    ∃ s, memberChars ((some name, value) :: members) = '"' :: s := by
  cases members with
  | nil => exact ⟨_, rfl⟩
  | cons next members => exact ⟨_, by rw [memberChars_cons_cons]; rfl⟩

/-- Members whose values are read back one by one are read back together. -/
theorem readMembers?_memberChars {members : List (Option String × Json)}
    (hnonempty : members ≠ []) (hnamed : ∀ m ∈ members, m.1.isSome = true)
    (hread : ∀ m ∈ members, ReadBack m.2) {bound : Nat}
    (hbound : 2 * (memberChars members).length + 1 ≤ bound) (rest : List Char) :
    readMembers? bound (memberChars members ++ '\x7d' :: rest) = some (members, rest) := by
  -- as for items, with a name in front of each value
  induction members generalizing bound with
  | nil => exact absurd rfl hnonempty
  | cons member members ih =>
    obtain ⟨hname, hnames⟩ := List.forall_mem_cons.mp hnamed
    obtain ⟨hvalue, hvalues⟩ := List.forall_mem_cons.mp hread
    obtain ⟨_ | name, value⟩ := member
    · cases hname
    cases bound with
    | zero => omega
    | succ bound =>
      cases members with
      | nil =>
        rw [memberChars_singleton] at hbound ⊢
        rw [List.length_append, List.length_cons] at hbound
        rw [List.append_assoc, List.cons_append, readMembers?, readName?_quote]
        simp only [Option.bind_eq_bind, Option.bind_some]
        rw [hvalue bound _ (by simp only; omega) (stops_cons (.inr (.inr rfl)) rest)]
        rfl
      | cons next members =>
        rw [memberChars_cons_cons] at hbound ⊢
        simp only [List.length_append, List.length_cons] at hbound
        -- each level of the reader takes one step of the bound, and each member is longer than that
        have hmore : readMembers? bound (memberChars (next :: members) ++ '\x7d' :: rest) =
            some (next :: members, rest) := ih (List.cons_ne_nil _ _) hnames hvalues (by omega)
        rw [List.append_assoc, List.append_assoc, List.cons_append, List.cons_append,
          readMembers?, readName?_quote]
        simp only [Option.bind_eq_bind, Option.bind_some]
        rw [hvalue bound _ (by simp only; omega) (stops_cons (.inl rfl) _)]
        simp only [Option.bind_some, skipBlanks_cons (c := ',') rfl, hmore]

/-- What starts with a minus or a digit is read as a number. -/
theorem readValue?_number {c : Char} (hc : c = '-' ∨ c.isDigit = true)
    (hblank : isBlank c = false) (bound : Nat) (s : List Char) :
    readValue? (bound + 1) (c :: s) =
      (readNumber? (c :: s)).map fun p => (.number p.1, p.2) := by
  rw [readValue?, skipBlanks_cons hblank]
  -- neither a sign nor a digit starts another kind of value
  split
  all_goals
    try
      next heq =>
      cases heq
      exact absurd hc (by decide)
  rfl

/-- What starts with a square bracket is read as an array, empty ones apart. -/
theorem readValue?_items {s : List Char} {c : Char} (hblank : isBlank c = false) (hc : c ≠ ']')
    (bound : Nat) :
    readValue? (bound + 1) ('[' :: c :: s) =
      (readItems? bound (c :: s)).map fun p => (.array p.1, p.2) := by
  rw [readValue?, skipBlanks_cons rfl]
  simp only [skipBlanks_cons hblank]
  -- only a closing bracket would end the list here
  split
  · next heq =>
    cases heq
    exact absurd rfl hc
  · rfl

/-- What starts with a brace is read as an object, empty ones apart. -/
theorem readValue?_members {s : List Char} {c : Char} (hblank : isBlank c = false)
    (hc : c ≠ '\x7d') (bound : Nat) :
    readValue? (bound + 1) ('\x7b' :: c :: s) =
      (readMembers? bound (c :: s)).map fun p => (.object p.1, p.2) := by
  rw [readValue?, skipBlanks_cons rfl]
  simp only [skipBlanks_cons hblank]
  -- a closing brace would end the object here
  split
  · next heq =>
    cases heq
    exact absurd rfl hc
  · rfl

theorem readBack_number {n : Number} (h : n.Formed) : ReadBack (.number n) := by
  rintro bound rest hbound hrest
  obtain ⟨c, s, hchars, hc⟩ := h.head
  obtain ⟨_, _, hhead, hblank, -⟩ := (Written.number h).head
  rw [chars_number] at hhead hbound ⊢
  -- both say what the number starts with
  obtain rfl := (List.cons.inj (hchars.symm.trans hhead)).1
  have hread := readNumber?_chars h hrest
  rw [hchars] at hbound hread ⊢
  cases bound with
  | zero => simp at hbound
  | succ bound =>
    rw [List.cons_append] at hread ⊢
    rw [readValue?_number hc hblank, hread, Option.map_some]

theorem readBack_string (s : String) : ReadBack (.string (some s)) := by
  rintro (_ | bound) rest hbound -
  · simp [chars_string, quote] at hbound
  · have htext : (Json.string (some s)).chars ++ rest =
        '"' :: (s.toList.flatMap escape ++ '"' :: rest) := by
      simp [chars_string, quote]
    rw [htext, readValue?, skipBlanks_cons rfl]
    simp only [readText?_quote, Option.map_some, String.ofList_toList]

theorem readBack_array {items : List Json} (h : ∀ j ∈ items, Written j)
    (hread : ∀ j ∈ items, ReadBack j) : ReadBack (.array items) := by
  rintro (_ | bound) rest hbound -
  · simp [chars_array] at hbound
  · have htext : (Json.array items).chars ++ rest = '[' :: (itemChars items ++ ']' :: rest) := by
      simp [chars_array]
    rw [htext]
    cases items with
    | nil =>
      -- the bracket is closed at once
      rfl
    | cons item items =>
      -- the two brackets leave the bound that the items need
      have hlength : (Json.array (item :: items)).chars.length =
          (itemChars (item :: items)).length + 2 := by simp [chars_array]
      have hitems : readItems? bound (itemChars (item :: items) ++ ']' :: rest) =
          some (item :: items, rest) :=
        readItems?_itemChars (List.cons_ne_nil _ _) hread (by omega) rest
      obtain ⟨c, s, hhead, hblank, hc⟩ := itemChars_head (h item List.mem_cons_self) items
      rw [hhead, List.cons_append] at hitems ⊢
      rw [readValue?_items hblank hc, hitems, Option.map_some]

/-- An object is read back if its values are and each has a name. -/
theorem readBack_object {members : List (Option String × Json)}
    (hnamed : ∀ m ∈ members, m.1.isSome = true) (hread : ∀ m ∈ members, ReadBack m.2) :
    ReadBack (.object members) := by
  rintro (_ | bound) rest hbound -
  · simp [chars_object] at hbound
  · have htext : (Json.object members).chars ++ rest =
        '\x7b' :: (memberChars members ++ '\x7d' :: rest) := by
      simp [chars_object]
    rw [htext]
    cases members with
    | nil =>
      rfl
    | cons member members =>
      -- the brackets take two characters, so there is room for the members
      have hlength : (Json.object (member :: members)).chars.length =
          (memberChars (member :: members)).length + 2 := by simp [chars_object]
      have hmembers : readMembers? bound (memberChars (member :: members) ++ '\x7d' :: rest) =
          some (member :: members, rest) :=
        readMembers?_memberChars (List.cons_ne_nil _ _) hnamed hread (by omega) rest
      -- a member starts with the quote of its name, which closes no bracket
      obtain ⟨_ | name, value⟩ := member
      · cases hnamed _ List.mem_cons_self
      obtain ⟨s, hhead⟩ := memberChars_head name value members
      rw [hhead, List.cons_append] at hmembers ⊢
      rw [readValue?_members rfl (by decide), hmembers, Option.map_some]

/-- Every document is read back in front of what comes behind it. -/
theorem readValue?_chars {j : Json} (h : Written j) : ReadBack j := by
  induction h with
  | null =>
    -- there is room for at least one level
    rintro (_ | bound) rest hbound -
    · exact absurd hbound (by decide)
    · rfl
  | bool b =>
    rintro (_ | bound) rest hbound -
    · cases b <;> exact absurd hbound (by decide)
    · cases b <;> rfl
  | number formed => exact readBack_number formed
  | string s => exact readBack_string s
  | array written ih => exact readBack_array written ih
  | object named _ ih => exact readBack_object named ih

/-- A document is read back as a whole text. -/
theorem parse?_render {j : Json} (h : Written j) : parse? j.render = some j := by
  -- the reader bounds its calls by the length of the text, which is enough
  have hread := readValue?_chars h (2 * j.chars.length + 1) [] (by omega) stops_nil
  rw [List.append_nil] at hread
  rw [parse?, render, String.toList_ofList, parseChars?]
  simp only [hread, Option.bind_eq_bind, Option.bind_some]
  rfl

end SqlPaging.Json
