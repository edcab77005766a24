import SqlPaging.Proofs.StableSort
import SqlPaging.Sql.Token

/-!
# SqlPaging — edits of a text

An edit replaces what stands at a byte of a text; where it replaces nothing, it inserts.
Edits are asked for in any order. They are carried out in the order of their places, those
at the same place in the order in which they were asked for, and what is between them is
copied. This gives a text only if every part that is copied is there, starts behind the edit
before it, and has the boundaries of characters.

Main results:

* `slice?_append` — the bytes of a part of a text.
* `Gives.edit`, `Gives.kept` — how edits are carried out, from the end on.
* `inOrder_concat` — where the edit goes that is asked for last.
* `InTurn.pairwise_le` — edits that do not overlap are in order.
-/

namespace SqlPaging.Sql

/-! ## Bytes -/

theorem byteLength_nil : byteLength [] = 0 := rfl

theorem byteLength_cons (c : Char) (s : List Char) :
    byteLength (c :: s) = c.utf8Size + byteLength s := rfl

/-- The bytes of two texts are counted together. -/
theorem byteLength_append (s t : List Char) :
    byteLength (s ++ t) = byteLength s + byteLength t := by
  induction s with
  | nil => rw [List.nil_append, byteLength_nil, Nat.zero_add]
  | cons c s ih => rw [List.cons_append, byteLength_cons, byteLength_cons, ih, Nat.add_assoc]

theorem byteLength_pos {s : List Char} (h : s ≠ []) : 0 < byteLength s := by
  obtain ⟨c, t, rfl⟩ := List.exists_cons_of_ne_nil h
  have hc := c.utf8Size_pos
  rw [byteLength_cons]
  omega

/-- The text without a number of bytes at its front, if a character starts there. -/
def dropBytes? : Nat → List Char → Option (List Char)
  | 0, s => some s
  | _ + 1, [] => none
  | n + 1, c :: s => if c.utf8Size ≤ n + 1 then dropBytes? (n + 1 - c.utf8Size) s else none

/-- A number of bytes at the front of a text, if a character ends there. -/
def takeBytes? : Nat → List Char → Option (List Char)
  | 0, _ => some []
  | _ + 1, [] => none
  | n + 1, c :: s =>
    if c.utf8Size ≤ n + 1 then (takeBytes? (n + 1 - c.utf8Size) s).map (c :: ·) else none

/-- The part of a text from one byte up to another one. -/
def slice? (s : List Char) (from_ until_ : Nat) : Option (List Char) :=
  if from_ ≤ until_ then (dropBytes? from_ s).bind (takeBytes? (until_ - from_)) else none

theorem dropBytes?_zero (s : List Char) : dropBytes? 0 s = some s := by rw [dropBytes?]

theorem takeBytes?_zero (s : List Char) : takeBytes? 0 s = some [] := by rw [takeBytes?]

/-- Of a text, the bytes of its first character are in front of all others. -/
theorem exists_byteLength_cons (c : Char) (s : List Char) :
    ∃ n, byteLength (c :: s) = n + 1 ∧ c.utf8Size ≤ n + 1 ∧ n + 1 - c.utf8Size = byteLength s := by
  have hc := c.utf8Size_pos
  refine ⟨c.utf8Size + byteLength s - 1, ?_, ?_, ?_⟩
  · rw [byteLength_cons]
    omega
  · omega
  · omega

/-- Dropping the bytes of a text leaves what follows it. -/
theorem dropBytes?_append (s t : List Char) : dropBytes? (byteLength s) (s ++ t) = some t := by
  induction s with
  | nil => exact dropBytes?_zero t
  | cons c s ih =>
    obtain ⟨n, hn, hle, hrest⟩ := exists_byteLength_cons c s
    rw [hn, List.cons_append, dropBytes?, if_pos hle, hrest, ih]

/-- Taking the bytes of a text takes the text. -/
theorem takeBytes?_append (s t : List Char) : takeBytes? (byteLength s) (s ++ t) = some s := by
  induction s with
  | nil => exact takeBytes?_zero t
  | cons c s ih =>
    obtain ⟨n, hn, hle, hrest⟩ := exists_byteLength_cons c s
    rw [hn, List.cons_append, takeBytes?, if_pos hle, hrest, ih]
    rfl

/-- A text between two others is found by its bytes. -/
theorem slice?_append (s t u : List Char) :
    slice? (s ++ (t ++ u)) (byteLength s) (byteLength (s ++ t)) = some t := by
  have hlen := byteLength_append s t
  rw [slice?, if_pos (by omega), dropBytes?_append, Option.bind_some, hlen, Nat.add_sub_cancel_left,
    takeBytes?_append]

/-! ## Edits -/

/-- A replacement of what stands at a byte. -/
structure Edit where
  start : Nat
  old : List Char
  new : List Char
deriving DecidableEq, Repr

/-- The byte behind what an edit replaces. -/
def Edit.stop (e : Edit) : Nat := e.start + byteLength e.old

/-- An edit is carried out before another one, or could be. -/
def Edit.le (e f : Edit) : Bool :=
  e.start < f.start || (e.start = f.start && e.stop ≤ f.stop)

def Edit.insertion (at_ : Nat) (text : List Char) : Edit := { start := at_, old := [], new := text }

@[simp] theorem Edit.stop_insertion (at_ : Nat) (text : List Char) :
    (insertion at_ text).stop = at_ := rfl

/-- Edits in the order of their places, and in their own order at the same place. -/
def inOrder (es : List Edit) : List Edit := es.mergeSort Edit.le

/-- What edits make of a text from one byte up to another one. -/
def edited? (s : List Char) (until_ : Nat) : Nat → List Edit → Option (List Char)
  | at_, [] => slice? s at_ until_
  | at_, e :: es => do
    let kept ← slice? s at_ e.start
    let rest ← edited? s until_ e.stop es
    some (kept ++ e.new ++ rest)

/-- Edits do not overlap: each one starts behind those before it. -/
def InTurn (es : List Edit) : Prop := es.Pairwise fun e f => e.stop ≤ f.start

instance (es : List Edit) : Decidable (InTurn es) :=
  inferInstanceAs (Decidable (es.Pairwise fun e f => e.stop ≤ f.start))

/-! ## The order of edits -/

/-- Edits come in the order in which they start, and then in that in which they stop. -/
theorem Edit.le_iff {e f : Edit} :
    e.le f = true ↔ e.start < f.start ∨ (e.start = f.start ∧ e.stop ≤ f.stop) := by
  simp [le]

theorem Edit.le_trans (e f g : Edit) (hef : e.le f = true) (hfg : f.le g = true) :
    e.le g = true := by
  rw [le_iff] at *
  omega

/-- Of two edits one comes first, or both are at one place. -/
theorem Edit.le_total (e f : Edit) : (e.le f || f.le e) = true := by
  rw [Bool.or_eq_true, le_iff, le_iff]
  omega

/-- Edits that do not overlap are in order. -/
theorem InTurn.pairwise_le {es : List Edit} (h : InTurn es) :
    es.Pairwise fun e f => e.le f = true := by
  refine List.Pairwise.imp ?_ h
  intro e f hef
  rw [Edit.le_iff]
  unfold Edit.stop at *
  omega

theorem InTurn.inOrder_eq {es : List Edit} (h : InTurn es) : inOrder es = es :=
  List.mergeSort_of_pairwise h.pairwise_le

/-- The edit that is asked for last is carried out behind those that it does not come
before. -/
theorem inOrder_concat {es front back : List Edit} {e : Edit} (h : inOrder es = front ++ back)
    (hfront : ∀ b ∈ front, b.le e = true) (hback : ∀ b ∈ back, b.le e = false) :
    inOrder (es ++ [e]) = front ++ e :: back :=
  mergeSort_concat Edit.le_trans Edit.le_total h hfront hback

/-! ## Carrying out edits -/

/-- Behind a first part of a text, edits give another text, whatever of the first part has
still to be copied. -/
def Gives (first rest : List Char) (until_ : Nat) (es : List Edit) (out : List Char) : Prop :=
  ∀ done kept, first = done ++ kept →
    edited? (first ++ rest) until_ (byteLength done) es = some (kept ++ out)

namespace Gives

variable {first rest out w : List Char} {until_ : Nat} {es : List Edit}

theorem nil (first rest : List Char) : Gives first rest (byteLength first) [] [] := by
  rintro done kept rfl
  rw [edited?, List.append_assoc, slice?_append, List.append_nil]

/-- Text that no edit starts in is copied. -/
theorem kept (h : Gives (first ++ w) rest until_ es out) :
    Gives first (w ++ rest) until_ es (w ++ out) := by
  rintro done kept rfl
  have hmore := h done (kept ++ w) (List.append_assoc _ _ _)
  rwa [List.append_assoc (done ++ kept), List.append_assoc kept] at hmore

/-- Text that an edit replaces. -/
theorem edit (h : Gives (first ++ w) rest until_ es out) (t : List Char) :
    Gives first (w ++ rest) until_ ({ start := byteLength first, old := w, new := t } :: es)
      (t ++ out) := by
  rintro done kept rfl
  have hstop : ({ start := byteLength (done ++ kept), old := w, new := t } : Edit).stop =
      byteLength (done ++ kept ++ w) := (byteLength_append _ _).symm
  have hrest := h (done ++ kept ++ w) [] (List.append_nil _).symm
  rw [List.append_assoc (done ++ kept), List.nil_append] at hrest
  -- what was kept so far is copied in front of the edit
  have hcopy : slice? (done ++ kept ++ (w ++ rest)) (byteLength done) (byteLength (done ++ kept)) =
      some kept := by
    rw [List.append_assoc]
    exact slice?_append _ _ _
  rw [edited?, hstop, hcopy, hrest]
  simp only [Option.bind_eq_bind, Option.bind_some, List.append_assoc]

/-- Texts that are inserted at the same place stand in their order. -/
theorem insertions (h : Gives first rest until_ es out) (ts : List (List Char)) :
    Gives first rest until_ (ts.map (Edit.insertion (byteLength first)) ++ es)
      (ts.flatten ++ out) := by
  induction ts with
  | nil => exact h
  | cons t ts ih =>
    rw [← List.append_nil first] at ih
    -- one more insertion, which takes out nothing
    have hone := ih.edit t
    rw [List.nil_append, List.append_nil] at hone
    rw [List.flatten_cons, List.append_assoc]
    exact hone

end Gives

end SqlPaging.Sql
