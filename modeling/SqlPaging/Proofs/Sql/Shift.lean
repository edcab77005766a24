import SqlPaging.Proofs.Sql.Splice

/-!
# SqlPaging — edits around a region

Edits in front of a region of a text and behind it do not care for the region: they make
the same of what is in front of it and of what is behind it, whatever the region is and
however long. What is behind it has another place if the region has another length, and so
have the edits there.

Main results:

* `edited?_append` — edits of two parts of a text.
* `edited?_around` — edits around a region.
* `inOrder_shift` — the order of edits is the same around a longer or shorter region.
-/

namespace SqlPaging.Sql

/-! ## Parts of two texts -/

section

variable (s t : List Char)

/-- To drop a text and some bytes more is to drop them from what follows it. -/
theorem dropBytes?_append_add (n : Nat) :
    dropBytes? (byteLength s + n) (s ++ t) = dropBytes? n t := by
  induction s with
  | nil => rw [byteLength_nil, Nat.zero_add, List.nil_append]
  | cons c s ih =>
    obtain ⟨m, hm, hle, hrest⟩ := exists_byteLength_cons c s
    have hlen : byteLength (c :: s) + n = (m + n) + 1 := by omega
    rw [hlen, List.cons_append, dropBytes?, if_pos (by omega), ← ih]
    congr 1
    omega

/-- What is dropped from a text leaves what follows it. -/
theorem dropBytes?_append_of_le {n : Nat} (h : n ≤ byteLength s) :
    dropBytes? n (s ++ t) = (dropBytes? n s).map (· ++ t) := by
  induction s generalizing n with
  | nil =>
    obtain rfl := Nat.le_zero.mp h
    rw [dropBytes?_zero, dropBytes?_zero]
    rfl
  | cons c s ih =>
    cases n with
    | zero =>
      rw [dropBytes?_zero, dropBytes?_zero]
      rfl
    | succ n =>
      rw [byteLength_cons] at h
      rw [List.cons_append, dropBytes?, dropBytes?]
      -- a character is dropped as a whole or not at all
      split
      · exact ih (by omega)
      · rfl

/-- To take a text and some bytes more is to take them from what follows it. -/
theorem takeBytes?_append_add (n : Nat) :
    takeBytes? (byteLength s + n) (s ++ t) = (takeBytes? n t).map (s ++ ·) := by
  induction s with
  | nil =>
    rw [byteLength_nil, Nat.zero_add, List.nil_append]
    exact Option.map_id'.symm
  | cons c s ih =>
    obtain ⟨m, hm, hle, hrest⟩ := exists_byteLength_cons c s
    have hlen : byteLength (c :: s) + n = (m + n) + 1 := by omega
    -- one character less to take, and the bytes of the rest
    have hbehind : m + n + 1 - c.utf8Size = byteLength s + n := by omega
    rw [hlen, List.cons_append, takeBytes?, if_pos (by omega), hbehind, ih, Option.map_map]
    rfl

/-- What is taken from a text does not depend on what follows it. -/
theorem takeBytes?_append_of_le {n : Nat} (h : n ≤ byteLength s) :
    takeBytes? n (s ++ t) = takeBytes? n s := by
  induction s generalizing n with
  | nil =>
    obtain rfl := Nat.le_zero.mp h
    rw [takeBytes?_zero, takeBytes?_zero]
  | cons c s ih =>
    cases n with
    | zero => rw [takeBytes?_zero, takeBytes?_zero]
    | succ n =>
      rw [byteLength_cons] at h
      rw [List.cons_append, takeBytes?, takeBytes?]
      -- a character is taken as a whole or not at all
      split
      · rw [ih (by omega)]
      · rfl

end

/-- What is dropped and what is left have the bytes of the text. -/
theorem byteLength_of_dropBytes? {s w : List Char} {n : Nat} (h : dropBytes? n s = some w) :
    n + byteLength w = byteLength s := by
  induction s generalizing n with
  | nil =>
    cases n with
    | zero =>
      cases h
      rfl
    | succ n => cases h
  | cons c s ih =>
    cases n with
    | zero =>
      cases h
      exact Nat.zero_add _
    | succ n =>
      rw [dropBytes?] at h
      split at h
      · -- a whole character was dropped first
        have hrest := ih h
        rw [byteLength_cons]
        omega
      · cases h

section

variable {s t : List Char} {a b : Nat}

/-- A slice of a text does not depend on what follows it. -/
theorem slice?_left (h : b ≤ byteLength s) : slice? (s ++ t) a b = slice? s a b := by
  unfold slice?
  split
  · next hle =>
    rw [dropBytes?_append_of_le s t (by omega)]
    cases hdrop : dropBytes? a s with
    | none => rfl
    | some w =>
      -- what is left of the text is enough for the slice
      have hlen := byteLength_of_dropBytes? hdrop
      exact takeBytes?_append_of_le w t (by omega)
  · rfl

/-- A slice behind a text is a slice of what follows it. -/
theorem slice?_right : slice? (s ++ t) (byteLength s + a) (byteLength s + b) = slice? t a b := by
  unfold slice?
  rw [dropBytes?_append_add, Nat.add_sub_add_left]
  simp only [Nat.add_le_add_iff_left]

/-- A part that starts in one text and ends in the next one. -/
theorem slice?_across (h : a ≤ byteLength s) :
    slice? (s ++ t) a (byteLength s + b) =
      (slice? s a (byteLength s)).bind fun kept => (slice? t 0 b).map (kept ++ ·) := by
  unfold slice?
  rw [if_pos (by omega), if_pos h, if_pos (Nat.zero_le b), dropBytes?_append_of_le s t h]
  cases hdrop : dropBytes? a s with
  | none => rfl
  | some w =>
    have hlen := byteLength_of_dropBytes? hdrop
    have hacross : byteLength s + b - a = byteLength w + b := by omega
    -- the slice takes all that is left of the first text
    have hwhole : takeBytes? (byteLength s - a) w = some w := by
      have htake := takeBytes?_append w []
      rwa [List.append_nil, show byteLength w = byteLength s - a by omega] at htake
    rw [Option.map_some, Option.bind_some, Option.bind_some, hacross, hwhole, Option.bind_some,
      takeBytes?_append_add, dropBytes?_zero]
    rfl

end

/-! ## Edits of two texts -/

/-- An edit behind a number of bytes more. -/
def Edit.forward (n : Nat) (e : Edit) : Edit := { e with start := n + e.start }

theorem Edit.stop_forward (n : Nat) (e : Edit) : (e.forward n).stop = n + e.stop :=
  Nat.add_assoc n e.start (byteLength e.old)

section

variable {s t : List Char} {at_ until_ : Nat} {front back : List Edit}

theorem edited?_forward :
    edited? (s ++ t) (byteLength s + until_) (byteLength s + at_)
      (back.map (Edit.forward (byteLength s))) = edited? t until_ at_ back := by
  induction back generalizing at_ with
  | nil => exact slice?_right
  | cons e back ih =>
    have hstart : (e.forward (byteLength s)).start = byteLength s + e.start := rfl
    rw [List.map_cons, edited?, edited?, Edit.stop_forward, ih, hstart, slice?_right]
    rfl

/-- Edits of which some are in the first part of a text and the others are in the second
one. -/
theorem edited?_append (hat : at_ ≤ byteLength s) (hfront : ∀ e ∈ front, e.stop ≤ byteLength s) :
    edited? (s ++ t) (byteLength s + until_) at_
        (front ++ back.map (Edit.forward (byteLength s))) =
      (edited? s (byteLength s) at_ front).bind fun first =>
        (edited? t until_ 0 back).map (first ++ ·) := by
  induction front generalizing at_ with
  | nil =>
    cases back with
    | nil => exact slice?_across hat
    | cons e back =>
      -- the first edit of the second part keeps what is left of the first part in front of it
      have hstart : (e.forward (byteLength s)).start = byteLength s + e.start := rfl
      have hnew : (e.forward (byteLength s)).new = e.new := rfl
      rw [List.nil_append, List.map_cons, edited?, edited?, edited?, Edit.stop_forward,
        edited?_forward, hstart, hnew, slice?_across hat]
      cases slice? s at_ (byteLength s) with
      | none => rfl
      | some first =>
        cases slice? t 0 e.start with
        | none => rfl
        | some kept =>
          cases edited? t until_ e.stop back with
          | none => rfl
          | some rest => simp
  | cons e front ih =>
    have hstop := hfront e List.mem_cons_self
    have hstart : e.start ≤ e.stop := Nat.le_add_right _ _
    -- an edit of the first part is made there, and the others follow
    have hrest := ih hstop fun f hf => hfront f (List.mem_cons_of_mem e hf)
    rw [List.cons_append, edited?, edited?, slice?_left (by omega), hrest]
    cases slice? s at_ e.start with
    | none => rfl
    | some kept =>
      cases edited? s (byteLength s) e.stop front with
      | none => rfl
      | some first =>
        cases edited? t until_ 0 back with
        | none => rfl
        | some rest => simp

/-- Edits in front of a region and behind it. -/
theorem edited?_around {r : List Char} (hfront : ∀ e ∈ front, e.stop ≤ byteLength s) :
    edited? (s ++ r ++ t) (byteLength (s ++ r) + until_) 0
        (front ++ back.map (Edit.forward (byteLength (s ++ r)))) =
      (edited? s (byteLength s) 0 front).bind fun first =>
        (edited? t until_ 0 back).map fun last => first ++ r ++ last := by
  -- behind the last edit of the first part the region is kept whole
  have hregion : edited? (s ++ r) (byteLength (s ++ r)) 0 front =
      (edited? s (byteLength s) 0 front).map (· ++ r) := by
    have happend : edited? (s ++ r) (byteLength s + byteLength r) 0
        (front ++ [].map (Edit.forward (byteLength s))) =
          (edited? s (byteLength s) 0 front).bind fun first =>
            (edited? r (byteLength r) 0 []).map (first ++ ·) :=
      edited?_append (Nat.zero_le _) hfront
    have hwhole : edited? r (byteLength r) 0 [] = some r := by
      have hslice := slice?_append [] r []
      rwa [List.nil_append, List.append_nil] at hslice
    rw [List.map_nil, List.append_nil, ← byteLength_append, hwhole] at happend
    rw [happend]
    cases edited? s (byteLength s) 0 front <;> rfl
  -- the edits in front stop before the region does
  have hlonger : ∀ e ∈ front, e.stop ≤ byteLength (s ++ r) := by
    intro e he
    have hstop := hfront e he
    rw [byteLength_append]
    omega
  rw [edited?_append (Nat.zero_le _) hlonger, hregion]
  cases edited? s (byteLength s) 0 front <;> rfl

end

/-! ## Another region -/

/-- A place in front of a region or behind it, and where it is when the region has another
length. -/
def Moved (at_ old new x y : Nat) : Prop :=
  (x ≤ at_ ∧ y = x) ∨ ∃ z, x = at_ + old + z ∧ y = at_ + new + z

theorem Moved.le_iff {at_ old new x x' y y' : Nat} (hx : Moved at_ old new x x')
    (hy : Moved at_ old new y y') (h : old = 0 ↔ new = 0) : x ≤ y ↔ x' ≤ y' := by
  rcases hx with ⟨hx, rfl⟩ | ⟨z, rfl, rfl⟩
  all_goals rcases hy with ⟨hy, rfl⟩ | ⟨w, rfl, rfl⟩
  all_goals omega

/-- An edit does not reach into a region. -/
def Edit.Clear (at_ old : Nat) (e : Edit) : Prop := e.stop ≤ at_ ∨ at_ + old ≤ e.start

/-- The edit around a region of another length. -/
def Edit.shift (at_ old new : Nat) (e : Edit) : Edit :=
  if e.stop ≤ at_ then e else { e with start := e.start - old + new }

section

variable {at_ old new : Nat} {es : List Edit}

/-- An edit that begins at a moved place is shifted there. -/
theorem Edit.shift_of_moved {start start' : Nat} {o n : List Char} (hold : 0 < old)
    (h : Moved at_ old new start start') (hstop : start ≤ at_ → start + byteLength o ≤ at_) :
    Clear at_ old ⟨start, o, n⟩ ∧ shift at_ old new ⟨start, o, n⟩ = ⟨start', o, n⟩ := by
  have hown : (⟨start, o, n⟩ : Edit).stop = start + byteLength o := rfl
  rw [Clear, shift, hown]
  -- the place is in front of the region, or behind it
  rcases h with ⟨hle, rfl⟩ | ⟨z, rfl, rfl⟩
  · exact ⟨.inl (hstop hle), if_pos (hstop hle)⟩
  · refine ⟨.inr (Nat.le_add_right _ _), ?_⟩
    rw [if_neg (by omega)]
    congr 1
    show at_ + old + z - old + new = at_ + new + z
    omega

/-- The order of edits is the same around a region of another length. -/
theorem inOrder_shift (hold : 0 < old) (hnew : 0 < new) (h : ∀ e ∈ es, e.Clear at_ old) :
    inOrder (es.map (Edit.shift at_ old new)) = (inOrder es).map (Edit.shift at_ old new) := by
  refine (List.map_mergeSort ?_).symm
  intro e he f hf
  have hstart : ∀ e : Edit, e.start ≤ e.stop := fun e => Nat.le_add_right _ _
  -- an edit that is clear of the region stays where it is, or all of it moves
  have hplaces : ∀ e : Edit, e.Clear at_ old →
      (e.stop ≤ at_ ∧ (e.shift at_ old new).start = e.start ∧
        (e.shift at_ old new).stop = e.stop) ∨
      (at_ + old ≤ e.start ∧ (e.shift at_ old new).start + old = e.start + new ∧
        (e.shift at_ old new).stop + old = e.stop + new) := by
    intro e hclear
    have hown := hstart e
    rw [Edit.shift]
    rcases hclear with hstop | hbehind
    · rw [if_pos hstop]
      exact .inl ⟨hstop, rfl, rfl⟩
    · rw [if_neg (by omega)]
      refine .inr ⟨hbehind, ?_, ?_⟩
      · show e.start - old + new + old = e.start + new
        omega
      · show e.start - old + new + byteLength e.old + old = e.start + byteLength e.old + new
        omega
  rw [Bool.eq_iff_iff, Edit.le_iff, Edit.le_iff]
  have hse := hstart e
  have hsf := hstart f
  -- of two edits, both stay, both move, or the one in front stays
  rcases hplaces e (h e he) with ⟨hes, hes', het⟩ | ⟨hes, hes', het⟩
  all_goals rcases hplaces f (h f hf) with ⟨hfs, hfs', hft⟩ | ⟨hfs, hfs', hft⟩
  all_goals omega

/-- Edits that do not overlap are those in front of a region and those behind it. -/
theorem InTurn.split (h : InTurn es) (hclear : ∀ e ∈ es, e.Clear at_ old) (hold : 0 < old) :
    ∃ front back : List Edit, es = front ++ back.map (Edit.forward (at_ + old)) ∧
      es.map (Edit.shift at_ old new) = front ++ back.map (Edit.forward (at_ + new)) ∧
        ∀ e ∈ front, e.stop ≤ at_ := by
  -- edits behind the region, as seen from its end
  have hbehind : ∀ fs : List Edit, (∀ f ∈ fs, at_ + old ≤ f.start) →
      ∃ back : List Edit, fs = back.map (Edit.forward (at_ + old)) ∧
        fs.map (Edit.shift at_ old new) = back.map (Edit.forward (at_ + new)) := by
    intro fs hfs
    refine ⟨fs.map fun f => { f with start := f.start - (at_ + old) }, ?_, ?_⟩
    · rw [List.map_map]
      refine (List.map_id fs).symm.trans (List.map_congr_left ?_)
      intro f hf
      have hstart := hfs f hf
      show f = { f with start := at_ + old + (f.start - (at_ + old)) }
      rw [Nat.add_sub_of_le hstart]
    · rw [List.map_map]
      refine List.map_congr_left ?_
      intro f hf
      have hstart := hfs f hf
      have hstop : f.start ≤ f.stop := Nat.le_add_right _ _
      rw [Edit.shift, if_neg (by omega)]
      show ({ f with start := f.start - old + new } : Edit) =
        { f with start := at_ + new + (f.start - (at_ + old)) }
      rw [show f.start - old + new = at_ + new + (f.start - (at_ + old)) by omega]
  induction es with
  | nil => exact ⟨[], [], rfl, rfl, nofun⟩
  | cons e es ih =>
    obtain ⟨hnext, hes⟩ := List.pairwise_cons.mp h
    rcases hclear e List.mem_cons_self with hstop | hstart
    · obtain ⟨front, back, heq, hshift, hfront⟩ :=
        ih hes fun f hf => hclear f (List.mem_cons_of_mem e hf)
      refine ⟨e :: front, back, by rw [List.cons_append, ← heq], ?_, ?_⟩
      · rw [List.map_cons, hshift, Edit.shift, if_pos hstop, List.cons_append]
      · intro f hf
        rcases List.mem_cons.mp hf with rfl | hf
        · exact hstop
        · exact hfront f hf
    · -- what does not overlap with an edit behind the region is behind it too
      obtain ⟨back, heq, hshift⟩ := hbehind (e :: es) (by
        intro f hf
        rcases List.mem_cons.mp hf with rfl | hf
        · exact hstart
        · have hlater := hnext f hf
          have hown : e.start ≤ e.stop := Nat.le_add_right _ _
          omega)
      exact ⟨[], back, heq, hshift, nofun⟩

end

end SqlPaging.Sql
