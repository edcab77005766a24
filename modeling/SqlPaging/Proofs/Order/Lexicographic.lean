import SqlPaging.Order

/-!
# SqlPaging — the order of rows

An `ORDER BY` list sorts rows by the values of its expressions, the first one
first. How the values of one expression compare is the database's matter: a
*collation* is any strict total order for each expression. The lists of values
are then in lexicographic order, in which a descending expression is compared the
other way round.

Main results:

* `precedes_irrefl`, `precedes_trans`, `precedes_total` — the order is a strict
  total order on the lists that have a value for each expression.
* `precedes_reversed` — reversing every direction reverses the order.
-/

namespace SqlPaging

/-- How a database compares the values of each expression: a strict total order. -/
structure Collation (α : Type) where
  before : String → α → α → Bool
  irrefl : ∀ e a, before e a a = false
  trans : ∀ e a b c, before e a b = true → before e b c = true → before e a c = true
  total : ∀ e a b, before e a b = true ∨ a = b ∨ before e b a = true

namespace Collation

variable {α : Type} [DecidableEq α] (coll : Collation α)

/-- A value of an item comes before another one. -/
def sorts (i : OrderItem) (a b : α) : Bool :=
  match i.direction with
  | .ascending => coll.before i.expression a b
  | .descending => coll.before i.expression b a

/-- A list of values, one for each item, comes before another one. -/
def precedes : List OrderItem → List α → List α → Bool
  | i :: is, a :: as, b :: bs => coll.sorts i a b || (a == b && precedes is as bs)
  | _, _, _ => false

omit [DecidableEq α] in
/-- No value comes before itself, in either direction. -/
theorem sorts_irrefl (i : OrderItem) (a : α) : coll.sorts i a a = false := by
  cases h : i.direction <;> simp [sorts, h, coll.irrefl]

omit [DecidableEq α] in
theorem sorts_trans {i : OrderItem} {a b c : α} (hab : coll.sorts i a b = true)
    (hbc : coll.sorts i b c = true) : coll.sorts i a c = true := by
  cases h : i.direction with
  | ascending =>
    simp only [sorts, h] at *
    exact coll.trans _ a b c hab hbc
  | descending =>
    simp only [sorts, h] at *
    exact coll.trans _ c b a hbc hab

omit [DecidableEq α] in
/-- Of two different values one comes first in either direction. -/
theorem sorts_total (i : OrderItem) (a b : α) :
    coll.sorts i a b = true ∨ a = b ∨ coll.sorts i b a = true := by
  have htotal := coll.total i.expression a b
  -- a descending item exchanges the two values
  cases h : i.direction with
  | ascending => simpa only [sorts, h] using htotal
  | descending =>
    simp only [sorts, h]
    rcases htotal with hab | heq | hba
    · exact .inr (.inr hab)
    · exact .inr (.inl heq)
    · exact .inl hba

/-- The first values that differ decide which list comes first. -/
theorem precedes_cons {i : OrderItem} {is : List OrderItem} {a b : α} {as bs : List α} :
    coll.precedes (i :: is) (a :: as) (b :: bs) = true ↔
      coll.sorts i a b = true ∨ (a = b ∧ coll.precedes is as bs = true) := by
  simp [precedes]

theorem precedes_irrefl (items : List OrderItem) (as : List α) :
    coll.precedes items as as = false := by
  induction items generalizing as with
  | nil => rfl
  | cons i is ih =>
    cases as with
    | nil => rfl
    | cons a as => simp [precedes, sorts_irrefl, ih]

theorem precedes_trans {items : List OrderItem} {as bs cs : List α}
    (hab : coll.precedes items as bs = true) (hbc : coll.precedes items bs cs = true) :
    coll.precedes items as cs = true := by
  induction items generalizing as bs cs with
  | nil => simp [precedes] at hab
  | cons i is ih =>
    -- where values are missing nothing is before anything
    match as, bs, cs, hab, hbc with
    | a :: as, b :: bs, c :: cs, hab, hbc =>
      rw [precedes_cons] at *
      -- the first pair that differs decides, whichever step it comes from
      rcases hab with hab | ⟨rfl, hab⟩
      · rcases hbc with hbc | ⟨rfl, -⟩
        · exact .inl (coll.sorts_trans hab hbc)
        · exact .inl hab
      · rcases hbc with hbc | ⟨rfl, hbc⟩
        · exact .inl hbc
        · exact .inr ⟨rfl, ih hab hbc⟩

/-- Of two different lists of the right length one comes first. -/
theorem precedes_total {items : List OrderItem} {as bs : List α}
    (ha : as.length = items.length) (hb : bs.length = items.length) :
    coll.precedes items as bs = true ∨ as = bs ∨ coll.precedes items bs as = true := by
  induction items generalizing as bs with
  | nil =>
    rw [List.length_nil, List.length_eq_zero_iff] at ha hb
    exact .inr (.inl (ha.trans hb.symm))
  | cons i is ih =>
    match as, bs, ha, hb with
    | a :: as, b :: bs, ha, hb =>
      simp only [List.length_cons, Nat.add_right_cancel_iff] at ha hb
      rw [precedes_cons, precedes_cons]
      -- the first values decide, or else the rest does
      rcases coll.sorts_total i a b with hab | rfl | hba
      · exact .inl (.inl hab)
      · rcases ih ha hb with h | rfl | h
        · exact .inl (.inr ⟨rfl, h⟩)
        · exact .inr (.inl rfl)
        · exact .inr (.inr (.inr ⟨rfl, h⟩))
      · exact .inr (.inr (.inl hba))

/-- Not each of two lists comes before the other one. -/
theorem precedes_asymm {items : List OrderItem} {as bs : List α}
    (h : coll.precedes items as bs = true) : coll.precedes items bs as = false := by
  rw [← Bool.not_eq_true]
  intro hback
  have hself := coll.precedes_trans h hback
  rw [precedes_irrefl] at hself
  cases hself

omit [DecidableEq α] in
/-- Turning a direction round swaps what comes first. -/
theorem sorts_reverse (i : OrderItem) (a b : α) :
    coll.sorts { i with direction := i.direction.reverse } a b = coll.sorts i b a := by
  cases h : i.direction <;> simp [sorts, h, SortDirection.reverse]

/-- Turning an order round swaps which list comes first. -/
theorem precedes_reversed (order : Order) (as bs : List α) :
    coll.precedes order.reversed.items as bs = coll.precedes order.items bs as := by
  obtain ⟨items⟩ := order
  simp only [Order.reversed]
  induction items generalizing as bs with
  | nil => simp [precedes]
  | cons i is ih =>
    cases as with
    | nil => cases bs <;> rfl
    | cons a as =>
      cases bs with
      | nil => rfl
      | cons b bs =>
        -- turning round exchanges the two values of each comparison
        have hcomm : (a == b) = (b == a) := Bool.beq_comm
        rw [List.map_cons, precedes, precedes, sorts_reverse, ih, hcomm]

end Collation

end SqlPaging
