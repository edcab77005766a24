import SqlPaging.Proofs.Sql.Splice
import SqlPaging.Proofs.Sql.Stable

/-!
# SqlPaging — statements byte by byte

A program may split a statement byte by byte, without decoding it. Each byte is taken for a
character here, so that the same splitting runs on the bytes. It gives the same lexemes: all
that a lexeme turns on is ASCII, where a character is its byte, and the bytes of the other
characters are none of these. They go on with words as their characters do, and a backslash
that takes the first byte of a character leaves bytes that no region ends with.

So no lexeme starts or ends inside a character, whatever the bytes are that are skipped
without a look at them.

Main results:

* `byteText_prefix_iff` — the bytes of a text start with those of another one only if the
  text starts with it.
* `lexeme_charBytes` — one lexeme of the bytes.
* `lexFrom_byteText` — all lexemes of the bytes.
-/

namespace SqlPaging.Sql

/-! ## The bytes of a text -/

/-- A byte as the character of its number. -/
def byteChar (b : UInt8) : Char := Char.ofNat b.toNat

/-- The bytes of a text in UTF-8. -/
def utf8 (s : List Char) : List UInt8 := s.flatMap String.utf8EncodeChar

/-- The bytes of a character, each of them as a character. -/
def charBytes (c : Char) : List Char := (String.utf8EncodeChar c).map byteChar

/-- The bytes of a text, each of them as a character. -/
def byteText (s : List Char) : List Char := (utf8 s).map byteChar

@[simp] theorem byteText_nil : byteText [] = [] := rfl

@[simp] theorem byteText_cons (c : Char) (s : List Char) :
    byteText (c :: s) = charBytes c ++ byteText s := by
  rw [byteText, utf8, List.flatMap_cons, List.map_append]
  rfl

/-- The bytes of two texts stand one behind the other. -/
theorem byteText_append (s t : List Char) : byteText (s ++ t) = byteText s ++ byteText t := by
  rw [byteText, utf8, List.flatMap_append, List.map_append]
  rfl

/-- A byte is taken for the character of its number. -/
theorem toNat_byteChar (b : UInt8) : (byteChar b).toNat = b.toNat := by
  have hb : b.toNat < 256 := b.toNat_lt
  have hvalid : b.toNat.isValidChar := .inl (by omega)
  rw [byteChar, Char.ofNat, dif_pos hvalid]
  rfl

theorem byteChar_injective : Function.Injective byteChar := by
  intro a b h
  have hnat := congrArg Char.toNat h
  rw [toNat_byteChar, toNat_byteChar] at hnat
  exact UInt8.toNat_inj.mp hnat

/-- A character has as many bytes as its size says. -/
theorem length_charBytes (c : Char) : (charBytes c).length = c.utf8Size := by
  rw [charBytes, List.length_map, String.length_utf8EncodeChar]

/-- A text has as many bytes as its characters together. -/
theorem length_byteText (s : List Char) : (byteText s).length = byteLength s := by
  induction s with
  | nil => rfl
  | cons c s ih => rw [byteText_cons, List.length_append, length_charBytes, ih, byteLength_cons]

/-- An ASCII character is its byte. -/
theorem charBytes_of_ascii {c : Char} (h : c.toNat < 128) : charBytes c = [c] := by
  have hle : c.val.toNat ≤ 127 := Nat.le_of_lt_succ h
  have hval : c.val.toNat = c.toNat := rfl
  rw [charBytes, String.utf8EncodeChar, if_pos hle, List.map_singleton]
  congr 1
  rw [byteChar, hval, UInt8.toNat_ofNat', Nat.mod_eq_of_lt (by omega), Char.ofNat_toNat]

theorem byteText_cons_of_ascii {c : Char} (h : c.toNat < 128) (s : List Char) :
    byteText (c :: s) = c :: byteText s := by
  rw [byteText_cons, charBytes_of_ascii h, List.cons_append, List.nil_append]

/-- The bytes of the other characters are not ASCII either. -/
theorem le_toNat_of_mem_charBytes {c x : Char} (h : 128 ≤ c.toNat) (hx : x ∈ charBytes c) :
    128 ≤ x.toNat := by
  obtain ⟨b, hb, rfl⟩ := List.mem_map.mp hx
  rw [toNat_byteChar]
  -- no character has a number beyond the range of Unicode
  have hmax : c.val.toNat < 0x110000 := by
    have hvalid := c.valid
    unfold UInt32.isValidChar Nat.isValidChar at hvalid
    omega
  have hval : c.val.toNat = c.toNat := rfl
  -- one case for each number of bytes; all but the first have their top bit set
  unfold String.utf8EncodeChar at hb
  dsimp only at hb
  split at hb
  · omega
  · split at hb
    · simp only [List.mem_cons, List.not_mem_nil, or_false] at hb
      rcases hb with rfl | rfl <;> simp only [UInt8.toNat_ofNat'] <;> omega
    · split at hb
      · simp only [List.mem_cons, List.not_mem_nil, or_false] at hb
        rcases hb with rfl | rfl | rfl <;> simp only [UInt8.toNat_ofNat'] <;> omega
      · simp only [List.mem_cons, List.not_mem_nil, or_false] at hb
        rcases hb with rfl | rfl | rfl | rfl <;> simp only [UInt8.toNat_ofNat'] <;> omega

theorem exists_charBytes_cons (c : Char) : ∃ x xs, charBytes c = x :: xs := by
  cases h : charBytes c with
  | nil =>
    have hlen := length_charBytes c
    rw [h] at hlen
    exact absurd hlen (Nat.ne_of_lt c.utf8Size_pos)
  | cons x xs => exact ⟨x, xs, rfl⟩

/-- A character is told by its bytes in front of any others. -/
theorem utf8EncodeChar_append_inj {a b : Char} {x y : List UInt8}
    (h : String.utf8EncodeChar a ++ x = String.utf8EncodeChar b ++ y) : a = b ∧ x = y := by
  have hdecode := congrArg (fun bytes => bytes.toByteArray.utf8DecodeChar? 0) h
  simp only [List.toByteArray_append, ByteArray.utf8DecodeChar?_utf8EncodeChar_append] at hdecode
  obtain rfl := Option.some.inj hdecode
  exact ⟨rfl, List.append_cancel_left h⟩

/-- A text starts with a mark just if its bytes start with those of the mark. -/
theorem utf8_prefix_iff {mark s : List Char} : utf8 mark <+: utf8 s ↔ mark <+: s := by
  constructor
  · intro h
    induction mark generalizing s with
    | nil => exact List.nil_prefix
    | cons a mark ih =>
      obtain ⟨rest, hrest⟩ := h
      rw [utf8, List.flatMap_cons, List.append_assoc] at hrest
      cases s with
      | nil =>
        -- nothing is left to start with the bytes of a character
        have hlen := congrArg List.length hrest
        have hpos := a.utf8Size_pos
        simp only [List.length_append, String.length_utf8EncodeChar, utf8, List.flatMap_nil,
          List.length_nil] at hlen
        omega
      | cons b s =>
        rw [utf8, List.flatMap_cons] at hrest
        -- no encoding of a character starts with that of another one
        obtain ⟨rfl, htail⟩ := utf8EncodeChar_append_inj hrest
        exact List.cons_prefix_cons.mpr ⟨rfl, ih ⟨rest, htail⟩⟩
  · rintro ⟨rest, rfl⟩
    exact ⟨utf8 rest, List.flatMap_append.symm⟩

theorem byteText_prefix_iff {mark s : List Char} : byteText mark <+: byteText s ↔ mark <+: s := by
  constructor
  · rintro ⟨rest, hrest⟩
    obtain ⟨front, back, hsplit, hfront, -⟩ := List.map_eq_append_iff.mp hrest.symm
    obtain rfl := (List.map_inj_right fun _ _ h => byteChar_injective h).mp hfront
    exact utf8_prefix_iff.mp ⟨back, hsplit.symm⟩
  · rintro ⟨rest, rfl⟩
    exact ⟨byteText rest, (byteText_append _ _).symm⟩

/-! ## Tests on bytes -/

/-- A test that takes all characters beyond ASCII for one. -/
def SeesAscii (p : Char → Bool) : Prop := ∀ c x : Char, 128 ≤ c.toNat → 128 ≤ x.toNat → p x = p c

/-- Such a test takes the bytes of a character for the character. -/
theorem SeesAscii.byte {p : Char → Bool} (hp : SeesAscii p) {c x : Char} (hx : x ∈ charBytes c) :
    p x = p c := by
  by_cases hc : c.toNat < 128
  · rw [charBytes_of_ascii hc, List.mem_singleton] at hx
    rw [hx]
  · have hle := Nat.le_of_not_lt hc
    exact hp c x hle (le_toNat_of_mem_charBytes hle hx)

/-- A byte of a character is an ASCII character if the character is just that. -/
theorem eq_ascii_iff {q c x : Char} (hq : q.toNat < 128) (hx : x ∈ charBytes c) :
    x = q ↔ c = q := by
  have hp : SeesAscii fun y => decide (y = q) := by
    intro c x hc hx
    have hne : ∀ {y : Char}, 128 ≤ y.toNat → y ≠ q := by
      rintro y hy rfl
      omega
    simp only [hne hc, hne hx]
  simpa using hp.byte hx

/-- Characters beyond ASCII are alike at the start of a word. -/
theorem seesAscii_isWordStart : SeesAscii isWordStart := by
  intro c x hc hx
  simp [isWordStart, hc, hx]

theorem seesAscii_isNameChar : SeesAscii isNameChar := by
  intro c x hc hx
  simp [isNameChar, isWordStart, hc, hx]

theorem seesAscii_isWordChar : SeesAscii isWordChar := by
  intro c x hc hx
  simp [isWordChar, isNameChar, isWordStart, hc, hx]

/-- There are no digits and no letters beyond ASCII. -/
theorem isAlphanum_of_le {c : Char} (hc : 128 ≤ c.toNat) : c.isAlphanum = false := by
  have hval : c.val.toNat = c.toNat := rfl
  have htests : c.isAlphanum = (decide ('A'.val ≤ c.val ∧ c.val ≤ 'Z'.val) ||
      decide ('a'.val ≤ c.val) && decide (c.val ≤ 'z'.val) ||
      decide ('0'.val ≤ c.val) && decide (c.val ≤ '9'.val)) := rfl
  rw [htests]
  simp [UInt32.le_iff_toNat_le, hval]
  omega

theorem seesAscii_isDigit : SeesAscii Char.isDigit := by
  intro c x hc hx
  have hnone : ∀ {y : Char}, 128 ≤ y.toNat → y.isDigit = false := fun hy =>
    (Bool.or_eq_false_iff.mp (isAlphanum_of_le hy)).2
  rw [hnone hc, hnone hx]

theorem seesAscii_isNumberChar : SeesAscii isNumberChar := by
  intro c x hc hx
  have hnone : ∀ {y : Char}, 128 ≤ y.toNat → isNumberChar y = false := by
    intro y hy
    have hdot : y ≠ '.' := by
      rintro rfl
      exact absurd hy (by decide)
    rw [isNumberChar, isAlphanum_of_le hy, Bool.false_or, decide_eq_false hdot]
  rw [hnone hc, hnone hx]

/-! ## Lengths in bytes -/

/-- The number of bytes of as many characters at the front of a text. -/
def byteCount (s : List Char) (n : Nat) : Nat := byteLength (s.take n)

@[simp] theorem byteCount_zero (s : List Char) : byteCount s 0 = 0 := rfl

@[simp] theorem byteCount_cons_succ (c : Char) (s : List Char) (n : Nat) :
    byteCount (c :: s) (n + 1) = (charBytes c).length + byteCount s n := by
  rw [byteCount, List.take_succ_cons, byteLength_cons, length_charBytes]
  rfl

/-- One character more is as many bytes more as it has. -/
theorem map_byteCount_cons (c : Char) (s : List Char) (found : Option Nat) :
    (found.map (byteCount s)).map (· + (charBytes c).length) =
      (found.map (· + 1)).map (byteCount (c :: s)) := by
  rw [Option.map_map, Option.map_map]
  congr 1
  funext n
  simp only [Function.comp, byteCount_cons_succ, Nat.add_comm]

theorem map_byteCount_cons_cons (c d : Char) (s : List Char) (found : Option Nat) :
    (found.map (byteCount s)).map (· + ((charBytes c).length + (charBytes d).length)) =
      (found.map (· + 2)).map (byteCount (c :: d :: s)) := by
  rw [Option.map_map, Option.map_map]
  congr 1
  funext n
  simp only [Function.comp, byteCount_cons_succ]
  omega

theorem byteText_eq_append (s : List Char) (n : Nat) :
    byteText s = byteText (s.take n) ++ byteText (s.drop n) := by
  rw [← byteText_append, List.take_append_drop]

/-- The bytes of the first characters come first. -/
theorem take_byteText (s : List Char) (n : Nat) :
    (byteText s).take (byteCount s n) = byteText (s.take n) := by
  rw [byteText_eq_append s n, byteCount, ← length_byteText, List.take_left]

theorem drop_byteText (s : List Char) (n : Nat) :
    (byteText s).drop (byteCount s n) = byteText (s.drop n) := by
  rw [byteText_eq_append s n, byteCount, ← length_byteText, List.drop_left]

/-- A run that is seen in characters is seen in their bytes. -/
theorem takeWhile_byteText {p : Char → Bool} (hp : SeesAscii p) (s : List Char) :
    (byteText s).takeWhile p = byteText (s.takeWhile p) := by
  induction s with
  | nil => rfl
  | cons c s ih =>
    rw [byteText_cons, List.takeWhile_cons]
    -- the bytes of one character pass the test together, or the first of them fails it
    cases hc : p c with
    | true =>
      have hall : ∀ x ∈ charBytes c, p x = true := fun x hx => (hp.byte hx).trans hc
      rw [List.takeWhile_append_of_pos hall, ih, if_pos rfl, byteText_cons]
    | false =>
      obtain ⟨x, xs, hbytes⟩ := exists_charBytes_cons c
      have hx : p x = false := (hp.byte (by rw [hbytes]; exact .head _)).trans hc
      rw [hbytes, List.cons_append, List.takeWhile_cons, hx, if_neg (by decide),
        if_neg (by decide), byteText_nil]

theorem runLength_byteText {p : Char → Bool} (hp : SeesAscii p) (s : List Char) :
    runLength p (byteText s) = byteCount s (runLength p s) := by
  have htake : s.take (s.takeWhile p).length = s.takeWhile p :=
    (List.prefix_iff_eq_take.mp (List.takeWhile_prefix p)).symm
  rw [runLength, takeWhile_byteText hp, length_byteText, runLength, byteCount, htake]

/-- Where the bytes of a text start with an ASCII character, so does the text. -/
theorem head?_byteText_eq_some_iff {q : Char} (hq : q.toNat < 128) (s : List Char) :
    (byteText s).head? = some q ↔ s.head? = some q := by
  cases s with
  | nil => rfl
  | cons c s =>
    obtain ⟨x, xs, hbytes⟩ := exists_charBytes_cons c
    have hx := eq_ascii_iff hq (x := x) (c := c) (by rw [hbytes]; exact .head _)
    rw [byteText_cons, hbytes, List.cons_append, List.head?_cons, List.head?_cons,
      Option.some.injEq, Option.some.injEq, hx]

/-- What is seen at the next character is seen at the next byte. -/
theorem any_head?_byteText {p : Char → Bool} (hp : SeesAscii p) (s : List Char) :
    (byteText s).head?.any p = s.head?.any p := by
  cases s with
  | nil => rfl
  | cons c s =>
    obtain ⟨x, xs, hbytes⟩ := exists_charBytes_cons c
    rw [byteText_cons, hbytes, List.cons_append, List.head?_cons, List.head?_cons, Option.any_some,
      Option.any_some, hp.byte (x := x) (by rw [hbytes]; exact .head _)]

/-- Behind the first byte of a character, there is nothing of ASCII. -/
theorem le_toNat_of_charBytes_cons {c x : Char} {xs : List Char} (h : charBytes c = x :: xs) :
    ∀ y ∈ xs, 128 ≤ y.toNat := by
  intro y hy
  by_cases hc : c.toNat < 128
  · rw [charBytes_of_ascii hc] at h
    obtain ⟨-, rfl⟩ := List.cons.inj h
    cases hy
  · exact le_toNat_of_mem_charBytes (Nat.le_of_not_lt hc) (by rw [h]; exact .tail _ hy)

theorem ne_of_le_toNat {x q : Char} (hx : 128 ≤ x.toNat) (hq : q.toNat < 128) : x ≠ q := by
  rintro rfl
  omega

/-! ## Regions in bytes -/

/-- A line goes on through what has no line break. -/
theorem lineLength_skip {xs : List Char} (h : '\n' ∉ xs) (t : List Char) :
    lineLength (xs ++ t) = xs.length + lineLength t := by
  induction xs with
  | nil => rw [List.nil_append, List.length_nil, Nat.zero_add]
  | cons x xs ih =>
    have hx := Ne.symm (List.ne_of_not_mem_cons h)
    rw [List.cons_append, lineLength, if_neg hx, ih (List.not_mem_of_not_mem_cons h),
      List.length_cons]
    omega

/-- A line is as long in bytes as its characters are. -/
theorem lineLength_byteText (s : List Char) :
    lineLength (byteText s) = byteCount s (lineLength s) := by
  induction s with
  | nil => rfl
  | cons c s ih =>
    rw [byteText_cons]
    by_cases hc : c = '\n'
    · subst hc
      rfl
    · -- only the line break has its byte
      have hnot : '\n' ∉ charBytes c := fun hx => hc ((eq_ascii_iff (by decide) hx).mp rfl)
      rw [lineLength_skip hnot, ih, lineLength, if_neg hc, byteCount_cons_succ]

/-- A character that starts no mark is passed. -/
theorem commentLength?_cons {nested : Bool} {depth : Nat} {c : Char} {t : List Char}
    (hclose : ¬ (c = '*' ∧ t.head? = some '/'))
    (hopen : ¬ (nested = true ∧ c = '/' ∧ t.head? = some '*')) :
    commentLength? nested depth (c :: t) = (commentLength? nested depth t).map (· + 1) := by
  cases t with
  | nil => rfl
  | cons d t =>
    rw [List.head?_cons, Option.some.injEq] at hclose hopen
    rw [commentLength?, if_neg (by simpa using hclose), if_neg (by simpa [and_assoc] using hopen)]

/-- A comment goes on through the bytes of a character that neither opens nor closes one. -/
theorem commentLength?_charBytes {nested : Bool} {depth : Nat} {c : Char} {t : List Char}
    (hclose : ¬ (c = '*' ∧ t.head? = some '/'))
    (hopen : ¬ (nested = true ∧ c = '/' ∧ t.head? = some '*')) :
    commentLength? nested depth (charBytes c ++ t) =
      (commentLength? nested depth t).map (· + (charBytes c).length) := by
  by_cases hc : c.toNat < 128
  · rw [charBytes_of_ascii hc]
    exact commentLength?_cons hclose hopen
  · -- no byte of the character is part of a mark
    have hbytes : ∀ x ∈ charBytes c, x ≠ '*' ∧ x ≠ '/' := by
      intro x hx
      have hle := le_toNat_of_mem_charBytes (Nat.le_of_not_lt hc) hx
      exact ⟨ne_of_le_toNat hle (by decide), ne_of_le_toNat hle (by decide)⟩
    generalize charBytes c = xs at hbytes
    -- byte by byte, as none of them opens or closes a comment
    induction xs with
    | nil => simp
    | cons x xs ih =>
      obtain ⟨hstar, hslash⟩ := hbytes x (.head _)
      rw [List.cons_append, commentLength?_cons (fun h => hstar h.1) (fun h => hslash h.2.1),
        ih fun y hy => hbytes y (.tail _ hy), Option.map_map]
      rfl

/-- A comment is as long in bytes as its characters are. -/
theorem commentLength?_byteText (nested : Bool) (depth : Nat) (s : List Char) :
    commentLength? nested depth (byteText s) =
      (commentLength? nested depth s).map (byteCount s) := by
  fun_induction commentLength? nested depth s with
  | case1 => rfl
  | case2 depth c =>
    rw [byteText_cons, byteText_nil, commentLength?_charBytes (by simp) (by simp)]
    rfl
  | case3 depth c d s hmark hdepth =>
    obtain ⟨rfl, rfl⟩ : c = '*' ∧ d = '/' := by simpa using hmark
    rw [byteText_cons_of_ascii (by decide), byteText_cons_of_ascii (by decide), commentLength?,
      if_pos hmark, if_pos hdepth]
    rfl
  | case4 depth c d s hmark hdepth ih =>
    obtain ⟨rfl, rfl⟩ : c = '*' ∧ d = '/' := by simpa using hmark
    rw [byteText_cons_of_ascii (by decide), byteText_cons_of_ascii (by decide), commentLength?,
      if_pos hmark, if_neg hdepth, ih]
    exact map_byteCount_cons_cons '*' '/' s _
  | case5 depth c d s hmark hopen ih =>
    -- a comment opens within the comment
    obtain ⟨⟨rfl, rfl⟩, rfl⟩ : (nested = true ∧ c = '/') ∧ d = '*' := by simpa using hopen
    rw [byteText_cons_of_ascii (by decide), byteText_cons_of_ascii (by decide), commentLength?,
      if_neg hmark, if_pos hopen, ih]
    exact map_byteCount_cons_cons '/' '*' s _
  | case6 depth c d s hmark hopen ih =>
    -- whether a mark starts here is seen from one byte, as both of its characters are ASCII
    have hhead : ∀ {q : Char}, q.toNat < 128 →
        ((byteText (d :: s)).head? = some q ↔ d = q) := fun hq => by
      rw [head?_byteText_eq_some_iff hq, List.head?_cons, Option.some.injEq]
    rw [byteText_cons, commentLength?_charBytes]
    · rw [ih]
      exact map_byteCount_cons c (d :: s) _
    · rw [hhead (by decide)]
      simpa using hmark
    · rw [hhead (by decide)]
      simpa [and_assoc] using hopen

/-- A quotation goes on through what is neither a quote nor an escape. -/
theorem quotedLength?_skip {quote : Char} {escapes : Bool} {xs : List Char}
    (h : ∀ x ∈ xs, x ≠ quote ∧ ¬ (escapes = true ∧ x = '\\')) (t : List Char) :
    quotedLength? quote escapes (xs ++ t) =
      (quotedLength? quote escapes t).map (· + xs.length) := by
  induction xs with
  | nil => simp
  | cons x xs ih =>
    obtain ⟨hquote, hescape⟩ := h x (.head _)
    rw [List.cons_append, quotedLength?.eq_def]
    dsimp only
    rw [if_neg (by simpa using hescape), if_neg hquote, ih fun y hy => h y (.tail _ hy),
      Option.map_map]
    rfl

/-- A quotation is as long in bytes as its characters are. -/
theorem quotedLength?_byteText {quote : Char} (hq : quote.toNat < 128) (escapes : Bool)
    (s : List Char) :
    quotedLength? quote escapes (byteText s) =
      (quotedLength? quote escapes s).map (byteCount s) := by
  fun_induction quotedLength? quote escapes s with
  | case1 => rfl
  | case2 c hc =>
    obtain ⟨-, rfl⟩ : escapes = true ∧ c = '\\' := by simpa using hc
    rw [byteText_cons_of_ascii (by decide), byteText_nil, quotedLength?, if_pos hc]
    rfl
  | case3 c hc d s ih =>
    -- the backslash takes a byte, and the other bytes of the character are none that count
    obtain ⟨-, rfl⟩ : escapes = true ∧ c = '\\' := by simpa using hc
    obtain ⟨x, xs, hbytes⟩ := exists_charBytes_cons d
    have hskip : ∀ y ∈ xs, y ≠ quote ∧ ¬ (escapes = true ∧ y = '\\') := by
      intro y hy
      have hle := le_toNat_of_charBytes_cons hbytes y hy
      exact ⟨ne_of_le_toNat hle hq, fun h => ne_of_le_toNat hle (by decide) h.2⟩
    have hlen : (charBytes '\\').length + (charBytes d).length = xs.length + 2 := by
      rw [hbytes, List.length_cons, charBytes_of_ascii (by decide), List.length_singleton]
      omega
    rw [byteText_cons_of_ascii (by decide), byteText_cons, hbytes, List.cons_append, quotedLength?,
      if_pos hc, quotedLength?_skip hskip, ih, ← map_byteCount_cons_cons, hlen, Option.map_map]
    rfl
  | case4 hc =>
    rw [byteText_cons_of_ascii hq, byteText_nil, quotedLength?, if_neg hc, if_pos rfl,
      Option.map_some, byteCount_cons_succ, charBytes_of_ascii hq]
    rfl
  | case5 s hc ih =>
    rw [byteText_cons_of_ascii hq, byteText_cons_of_ascii hq, quotedLength?, if_neg hc, if_pos rfl,
      if_pos rfl, ih, ← map_byteCount_cons_cons, charBytes_of_ascii hq]
    rfl
  | case6 d s hd hc =>
    obtain ⟨x, xs, hbytes⟩ := exists_charBytes_cons d
    -- the first byte of another character is not the quote either
    have hx : x ≠ quote := fun h => hd ((eq_ascii_iff hq (by rw [hbytes]; exact .head _)).mp h)
    rw [byteText_cons_of_ascii hq, byteText_cons, hbytes, List.cons_append, quotedLength?,
      if_neg hc, if_pos rfl, if_neg hx, Option.map_some, byteCount_cons_succ, charBytes_of_ascii hq]
    rfl
  | case7 c s hc hquote ih =>
    have hskip : ∀ x ∈ charBytes c, x ≠ quote ∧ ¬ (escapes = true ∧ x = '\\') := by
      intro x hx
      refine ⟨fun h => hquote ((eq_ascii_iff hq hx).mp h), fun h => hc ?_⟩
      simpa using ⟨h.1, (eq_ascii_iff (by decide) hx).mp h.2⟩
    rw [byteText_cons, quotedLength?_skip hskip, ih, map_byteCount_cons]

/-- A mark is not found in what lacks its first character. -/
theorem throughMark?_skip {q : Char} {mark xs : List Char} (h : q ∉ xs) (t : List Char) :
    throughMark? (q :: mark) (xs ++ t) = (throughMark? (q :: mark) t).map (· + xs.length) := by
  induction xs with
  | nil => simp
  | cons x xs ih =>
    have hx : ¬ (q :: mark).isPrefixOf (x :: (xs ++ t)) = true := by
      rw [List.isPrefixOf_iff_prefix, List.cons_prefix_cons]
      exact fun hprefix => List.ne_of_not_mem_cons h hprefix.1
    rw [List.cons_append, throughMark?, if_neg hx, ih (List.not_mem_of_not_mem_cons h),
      Option.map_map]
    rfl

/-- A mark that starts with an ASCII character is found in the bytes where it is found in the
text. -/
theorem throughMark?_byteText {q : Char} (hq : q.toNat < 128) (mark s : List Char) :
    throughMark? (byteText (q :: mark)) (byteText s) =
      (throughMark? (q :: mark) s).map (byteCount s) := by
  fun_induction throughMark? (q :: mark) s with
  | case1 hmark => cases hmark
  | case2 hmark =>
    rw [byteText_cons_of_ascii hq]
    rfl
  | case3 c s hprefix =>
    obtain ⟨x, xs, hbytes⟩ := exists_charBytes_cons c
    have hmark := List.isPrefixOf_iff_prefix.mp hprefix
    have hfound : (byteText (q :: mark)).isPrefixOf (x :: (xs ++ byteText s)) = true := by
      rw [List.isPrefixOf_iff_prefix, ← List.cons_append, ← hbytes, ← byteText_cons]
      exact byteText_prefix_iff.mpr hmark
    rw [byteText_cons c, hbytes, List.cons_append, throughMark?, if_pos hfound, Option.map_some,
      length_byteText, byteCount, ← List.prefix_iff_eq_take.mp hmark]
  | case4 c s hprefix ih =>
    obtain ⟨x, xs, hbytes⟩ := exists_charBytes_cons c
    -- a mark that starts at the first byte of a character is one in the text
    have hnot : ¬ (byteText (q :: mark)).isPrefixOf (x :: (xs ++ byteText s)) = true := by
      rw [List.isPrefixOf_iff_prefix, ← List.cons_append, ← hbytes, ← byteText_cons,
        byteText_prefix_iff, ← List.isPrefixOf_iff_prefix]
      exact hprefix
    -- nor does the mark start at another byte of the character
    have hskip : q ∉ xs := fun h =>
      ne_of_le_toNat (le_toNat_of_charBytes_cons hbytes q h) hq rfl
    rw [byteText_cons c, hbytes, List.cons_append, throughMark?, if_neg hnot,
      byteText_cons_of_ascii hq, throughMark?_skip hskip, ← byteText_cons_of_ascii hq, ih,
      ← map_byteCount_cons, hbytes, Option.map_map]
    rfl

/-- The tag of a quotation is found in its bytes. -/
theorem dollarTag?_byteText (s : List Char) :
    dollarTag? (byteText s) = (dollarTag? s).map byteText := by
  have hname := takeWhile_byteText seesAscii_isNameChar s
  have hlen : (byteText (s.takeWhile isNameChar)).length =
      byteCount s (s.takeWhile isNameChar).length := by
    rw [length_byteText, byteCount,
      ← List.prefix_iff_eq_take.mp (List.takeWhile_prefix isNameChar)]
  -- the mark that closes the tag is ASCII
  have hnext : (byteText s)[(byteText (s.takeWhile isNameChar)).length]? = some '$' ↔
      s[(s.takeWhile isNameChar).length]? = some '$' := by
    rw [hlen, ← List.head?_drop, drop_byteText, head?_byteText_eq_some_iff (by decide),
      List.head?_drop]
  unfold dollarTag?
  simp only [hname, any_head?_byteText seesAscii_isDigit, hnext]
  split
  · rfl
  · split
    · rw [Option.map_some, byteText_append, byteText_cons_of_ascii (by decide), byteText_nil]
    · rfl

/-! ## Lexemes in bytes -/

variable {r : LexicalRules}

/-- A rule is chosen by ASCII characters. -/
theorem rule_byteText (r : LexicalRules) (c : Char) (s : List Char) :
    rule r c (byteText s).head? = rule r c s.head? := by
  have hnext : ∀ {q : Char}, q.toNat < 128 → ((byteText s).head? = some q ↔ s.head? = some q) :=
    fun hq => head?_byteText_eq_some_iff hq s
  unfold rule
  simp only [hnext (q := '-') (by decide), hnext (q := '*') (by decide),
    hnext (q := ':') (by decide), hnext (q := '\'') (by decide),
    any_head?_byteText seesAscii_isWordStart]

/-- A tag is in front of the rest of the text. -/
theorem exists_eq_append_of_dollarTag {s tag : List Char} (h : dollarTag? s = some tag) :
    ∃ rest, s = tag ++ rest := by
  obtain ⟨v, rest, rfl, rfl, -, -⟩ := dollarTag?_eq_some h
  exact ⟨rest, by rw [List.append_assoc, List.cons_append, List.nil_append]⟩

/-- Characters behind a text are counted from its end. -/
theorem byteCount_append (t s : List Char) (n : Nat) :
    byteCount (t ++ s) (n + t.length) = byteCount s n + byteLength t := by
  rw [byteCount, Nat.add_comm, List.take_length_add_append, byteLength_append, byteCount,
    Nat.add_comm]

/-- A quoted region takes as many bytes as belong to its characters, also with ASCII characters
in front of its opening quote. -/
theorem apply_quoted_byteText {region : Region} {quote : Char} (h : isQuote quote = true)
    (escapes : Bool) (front : List Char) (hfront : byteText front = front) (t : List Char) :
    (Rule.quoted region quote h escapes front.length).apply r (byteText (front ++ t)) =
      ((Rule.quoted region quote h escapes front.length).apply r (front ++ t)).map
        fun found => (found.1, byteCount (front ++ t) found.2) := by
  -- all quotes are ASCII, and so is what stands in front of them
  have hq : quote.toNat < 128 := by
    simp only [isQuote, Bool.or_eq_true, decide_eq_true_eq] at h
    rcases h with (rfl | rfl) | rfl <;> decide
  have hlen : byteLength front = front.length := by rw [← length_byteText, hfront]
  rw [Rule.apply, Rule.apply, byteText_append, hfront, List.drop_left, List.drop_left,
    quotedLength?_byteText hq]
  cases quotedLength? quote escapes t with
  | none => rfl
  | some n =>
    simp only [Option.map_some, Except.map]
    rw [byteCount_append, hlen]

/-- A rule takes as many bytes as belong to the characters that it takes. -/
theorem apply_byteText (r : LexicalRules) (c : Char) (s : List Char) :
    (rule r c s.head?).apply r (byteText s) =
      ((rule r c s.head?).apply r s).map fun found => (found.1, byteCount s found.2) := by
  have hrun : ∀ {kind : LexemeKind} {chars : Run}, SeesAscii chars.test →
      (Rule.run kind chars).apply r (byteText s) = ((Rule.run kind chars).apply r s).map
        fun found => (found.1, byteCount s found.2) := by
    intro kind chars hchars
    rw [Rule.apply, runLength_byteText hchars]
    rfl
  -- a row that looks at the next character knows which one it is
  have hrow := row_rule r c s.head?
  generalize rule r c s.head? = x at hrow ⊢
  cases hrow with
  | string | doubleQuoted | quotedIdentifier => exact apply_quoted_byteText _ _ [] byteText_nil s
  | dashes | hash =>
    rw [Rule.apply, lineLength_byteText]
    rfl
  | placeholder => exact hrun seesAscii_isNameChar
  | word => exact hrun seesAscii_isWordChar
  | number => exact hrun seesAscii_isNumberChar
  | block _ hnext =>
    obtain ⟨t, rfl⟩ := List.head?_eq_some_iff.mp hnext
    have hdrop : (byteText ('*' :: t)).drop 1 = byteText t := rfl
    rw [Rule.apply, Rule.apply, hdrop, List.drop_one, List.tail_cons, commentLength?_byteText]
    cases commentLength? r.nestedComments 1 t with
    | none => rfl
    | some n =>
      exact congrArg (fun m => Except.ok (LexemeKind.comment, m)) (byteCount_append ['*'] t n).symm
  | cast _ hnext =>
    obtain ⟨t, rfl⟩ := List.head?_eq_some_iff.mp hnext
    rfl
  | escapeString h =>
    obtain ⟨t, rfl⟩ := List.head?_eq_some_iff.mp h.2.2
    exact apply_quoted_byteText _ _ ['\''] rfl t
  | dollar =>
    rw [Rule.apply, Rule.apply, dollarTag?_byteText]
    cases htag : dollarTag? s with
    | none =>
      rw [Option.map_none]
      dsimp only
      rw [runLength_byteText seesAscii_isDigit]
      rfl
    | some tag =>
      -- the mark is looked for behind the tag, in bytes as in characters
      obtain ⟨rest, rfl⟩ := exists_eq_append_of_dollarTag htag
      rw [Option.map_some]
      dsimp only
      rw [byteText_append, List.drop_left, List.drop_left,
        ← byteText_cons_of_ascii (c := '$') (by decide), throughMark?_byteText (by decide),
        length_byteText]
      cases throughMark? ('$' :: tag) rest with
      | none => rfl
      | some n =>
        exact congrArg (fun m => Except.ok (LexemeKind.quoted, m))
          (byteCount_append tag rest n).symm
  | _ => rfl

/-- The lexeme of the bytes at the first byte of a character is that of the character. -/
theorem lexeme_charBytes {c x : Char} {xs : List Char} (h : charBytes c = x :: xs)
    (s : List Char) :
    lexeme r x (xs ++ byteText s) =
      (lexeme r c s).map fun found => (found.1, xs.length + byteCount s found.2) := by
  by_cases hc : c.toNat < 128
  · rw [charBytes_of_ascii hc] at h
    obtain ⟨rfl, rfl⟩ := List.cons.inj h
    rw [List.nil_append, lexeme_eq_apply, rule_byteText, apply_byteText, ← lexeme_eq_apply]
    simp only [List.length_nil, Nat.zero_add]
  · -- a word starts, which all bytes of the character belong to
    have hle := Nat.le_of_not_lt hc
    have hstart : ∀ {y : Char}, 128 ≤ y.toNat → isWordStart y = true := fun hy => by
      simp [isWordStart, hy]
    -- no byte of it is the letter that an escape string starts with
    have hescape : ∀ {y : Char} {next : Option Char}, 128 ≤ y.toNat → ¬ Escapes r [y] next := by
      rintro y next hy ⟨-, hletter, -⟩
      rcases hletter with hletter | hletter
      · obtain ⟨rfl, -⟩ := List.cons.inj hletter
        exact absurd hy (by decide)
      · obtain ⟨rfl, -⟩ := List.cons.inj hletter
        exact absurd hy (by decide)
    have hx : 128 ≤ x.toNat := le_toNat_of_mem_charBytes hle (by rw [h]; exact .head _)
    have hxs : ∀ y ∈ xs, isWordChar y = true := fun y hy => by
      rw [isWordChar, isNameChar, hstart (le_toNat_of_charBytes_cons h y hy), Bool.true_or,
        Bool.true_or]
    rw [lexeme_eq_apply, lexeme_eq_apply, rule_word r (hstart hx) (hescape hx),
      rule_word r (hstart hle) (hescape hle), Rule.apply, Rule.apply]
    show Except.ok (LexemeKind.word, runLength isWordChar (xs ++ byteText s)) =
      .ok (.word, xs.length + byteCount s (runLength isWordChar s))
    rw [runLength, List.takeWhile_append_of_pos hxs, List.length_append, ← runLength_byteText
      seesAscii_isWordChar]
    rfl

/-- A lexeme with its text in bytes. -/
def Lexeme.bytes (l : Lexeme) : Lexeme := { l with text := byteText l.text }

/-- The lexemes of the bytes of a text are those of the text, and it ends in the same region. -/
theorem lexFrom_byteText (r : LexicalRules) (n : Nat) (s : List Char) :
    lexFrom r (byteCount s n) (byteText s) =
      ((lexFrom r n s).1.map Lexeme.bytes, (lexFrom r n s).2) := by
  fun_induction lexFrom r n s with
  | case1 => exact lexFrom_nil r _
  | case2 n c s ih =>
    -- what is skipped is cut off, of the characters as of the bytes
    rw [lexFrom_eq_drop, drop_byteText] at ih ⊢
    exact ih
  | case3 c s region hl =>
    obtain ⟨x, xs, hbytes⟩ := exists_charBytes_cons c
    rw [byteCount_zero, byteText_cons, hbytes, List.cons_append, lexFrom_zero_cons,
      lexeme_charBytes hbytes, hl]
    rfl
  | case4 c s kind n hl rest ih =>
    obtain ⟨x, xs, hbytes⟩ := exists_charBytes_cons c
    -- behind the bytes of the first character, the lexeme takes those of the others
    have htake : (xs ++ byteText s).take (xs.length + byteCount s n) =
        xs ++ byteText (s.take n) := by
      rw [List.take_length_add_append, take_byteText]
    have hrest : lexFrom r (xs.length + byteCount s n) (xs ++ byteText s) =
        lexFrom r (byteCount s n) (byteText s) := by
      rw [lexFrom_eq_drop, List.drop_length_add_append, ← lexFrom_eq_drop]
    rw [byteCount_zero, byteText_cons, hbytes, List.cons_append, lexFrom_zero_cons,
      lexeme_charBytes hbytes, hl]
    dsimp only [Except.map]
    rw [htake, hrest, ih, List.map_cons, Lexeme.bytes, byteText_cons, hbytes, List.cons_append]

/-- Bytes have the lexemes of their characters, in bytes. -/
theorem lex_byteText (d : Dialect) (s : List Char) :
    lex d (byteText s) = ((lex d s).1.map Lexeme.bytes, (lex d s).2) :=
  lexFrom_byteText _ 0 s

end SqlPaging.Sql
