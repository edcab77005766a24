import SqlPaging.Keyset
import SqlPaging.Proofs.Order.Lexicographic

/-!
# SqlPaging — the meaning of keyset predicates

A predicate is evaluated on a row, which has a value for every expression, with a
value for every parameter. The predicate of a walk then asks whether the row comes
after the boundary row on the walk.

The clauses are listed by their length, but the argument is an induction over the
items of the order: the predicate of `i :: is` is that of `is` under an equality for
`i`, and one clause more that compares `i` alone (`clausesUpTo_cons`).

Main results:

* `holds_clausesFrom` — the meaning of the clauses of some items.
* `holds_after` — the predicate holds of exactly the rows that follow.
* `supplies_bindsFrom` — the binds of a boundary are found under its parameters.
-/

namespace SqlPaging

variable {α : Type} [DecidableEq α]

/-- The result of a comparison of a value of an expression with another value. -/
def Comparison.holds (coll : Collation α) (expression : String) (c : Comparison) (a b : α) : Bool :=
  match c with
  | .equal => a == b
  | .less => coll.before expression a b
  | .lessOrEqual => coll.before expression a b || a == b
  | .greater => coll.before expression b a
  | .greaterOrEqual => coll.before expression b a || a == b

namespace Collation

variable (coll : Collation α)

/-- A value of an item comes after a boundary value on a walk. -/
def passes (walk : Direction) (i : OrderItem) (bound a : α) : Bool :=
  match walk with
  | .next => coll.sorts i bound a
  | .prev => coll.sorts i a bound

/-- A list of values comes after a boundary on a walk. -/
def follows (walk : Direction) (items : List OrderItem) (bound row : List α) : Bool :=
  match walk with
  | .next => coll.precedes items bound row
  | .prev => coll.precedes items row bound

theorem follows_nil (walk : Direction) (bound row : List α) :
    coll.follows walk [] bound row = false := by
  cases walk <;> rfl

/-- The first expression in which two rows differ decides which one follows. -/
theorem follows_cons {walk : Direction} {i : OrderItem} {is : List OrderItem} {b a : α}
    {bound row : List α} :
    coll.follows walk (i :: is) (b :: bound) (a :: row) = true ↔
      coll.passes walk i b a = true ∨ (a = b ∧ coll.follows walk is bound row = true) := by
  cases walk with
  | next => simp only [follows, passes, precedes_cons, eq_comm (a := a)]
  | prev => simp only [follows, passes, precedes_cons]

end Collation

/-- The comparison of a seek asks for the values after the boundary value, and for
that value too if the boundary belongs to the page. -/
theorem Comparison.holds_seek (coll : Collation α) {i : OrderItem} {walk : Direction}
    {inclusive : Bool} {b a : α} :
    (seek i.direction walk inclusive).holds coll i.expression a b = true ↔
      coll.passes walk i b a = true ∨ (inclusive = true ∧ a = b) := by
  cases hd : i.direction <;> cases walk <;> cases inclusive <;>
    simp [seek, holds, Collation.passes, Collation.sorts, SortDirection.reverse, hd]

/-- The value of a parameter, as a database reads it. -/
def Binds.param {β : Type} (denote : BindValue → β) (bs : Binds) (name : String) : Option β :=
  (bs.get? name).map fun b => denote b.value

namespace Keyset

/-- A term holds of a row. A parameter without a value makes it false. -/
def Term.holds (coll : Collation α) (row : String → α) (param : String → Option α) (t : Term) :
    Bool :=
  (param (paramName t.index)).any (t.comparison.holds coll t.expression (row t.expression))

/-- A predicate holds of a row: all terms of one of its clauses do. -/
def Predicate.holds (coll : Collation α) (row : String → α) (param : String → Option α)
    (p : Predicate) : Bool :=
  p.any fun c => c.all (Term.holds coll row param)

/-! ## The clauses by recursion on the items -/

/-- The term that asks for the boundary value of an item. -/
def equality (index : Nat) (i : OrderItem) : Term :=
  { expression := i.expression, comparison := .equal, index }

/-- The term that asks for a value of an item after the boundary value. -/
def seeking (index : Nat) (walk : Direction) (inclusive : Bool) (i : OrderItem) : Term :=
  { expression := i.expression, comparison := .seek i.direction walk inclusive, index }

/-- The clauses of items, of which the first one has the given number: those of the
items after the first one under an equality for it, and one for it alone. -/
def clausesFrom (index : Nat) (walk : Direction) (inclusive : Bool) : List OrderItem → Predicate
  | [] => []
  | i :: is =>
    (clausesFrom (index + 1) walk inclusive is).map (equality index i :: ·) ++
      [[seeking index walk (inclusive && is.isEmpty) i]]

/-- The clauses of the first `n` items and fewer, with the number of the first item. -/
private def clausesUpToFrom (index : Nat) (items : List OrderItem) (walk : Direction)
    (inclusive : Bool) : Nat → Predicate
  | 0 => []
  | n + 1 =>
    let part := items.take (n + 1)
    clause index (lastComparison walk (inclusive && n + 1 == items.length) part) part ::
      clausesUpToFrom index items walk inclusive n

private theorem clausesUpToFrom_zero (items : List OrderItem) (walk : Direction)
    (inclusive : Bool) (n : Nat) :
    clausesUpToFrom 0 items walk inclusive n = clausesUpTo items walk inclusive n := by
  induction n with
  | zero => rfl
  | succ n ih => rw [clausesUpToFrom, clausesUpTo, ih]

/-- The clauses of an order are those of its rest behind an equality in the first
expression, and one more that seeks in the first expression alone. -/
private theorem clausesUpToFrom_cons (index : Nat) (i : OrderItem) (is : List OrderItem)
    (walk : Direction) (inclusive : Bool) {n : Nat} (hn : n ≤ is.length) :
    clausesUpToFrom index (i :: is) walk inclusive (n + 1) =
      (clausesUpToFrom (index + 1) is walk inclusive n).map (equality index i :: ·) ++
        [[seeking index walk (inclusive && is.isEmpty) i]] := by
  -- the induction is on the length of the longest clause, which alone can be inclusive
  induction n with
  | zero =>
    cases is <;> simp [clausesUpToFrom, clause, lastComparison, seeking]
  | succ n ih =>
    obtain ⟨j, js, rfl⟩ : ∃ j js, is = j :: js := by
      cases is with
      | nil => simp at hn
      | cons j js => exact ⟨j, js, rfl⟩
    rw [clausesUpToFrom, ih (by omega)]
    simp [clausesUpToFrom, clause, lastComparison, equality]

/-- The clauses that are built from the front are those built from the back. -/
theorem clausesUpTo_size (items : List OrderItem) (walk : Direction) (inclusive : Bool) :
    clausesUpTo items walk inclusive items.length = clausesFrom 0 walk inclusive items := by
  -- the items after the first one have numbers from 1 on
  suffices ∀ index, clausesUpToFrom index items walk inclusive items.length =
      clausesFrom index walk inclusive items by
    rw [← clausesUpToFrom_zero, this]
  induction items with
  | nil => exact fun _ => rfl
  | cons i is ih =>
    intro index
    rw [List.length_cons, clausesUpToFrom_cons index i is walk inclusive (Nat.le_refl _), ih,
      clausesFrom]

/-! ## What the clauses ask for -/

/-- The parameters from a number on have the values of a list. -/
def Supplies (param : String → Option α) (index : Nat) (bound : List α) : Prop :=
  ∀ j b, bound[j]? = some b → param (paramName (index + j)) = some b

omit [DecidableEq α] in
theorem Supplies.head {param : String → Option α} {index : Nat} {b : α} {bound : List α}
    (h : Supplies param index (b :: bound)) : param (paramName index) = some b :=
  h 0 b rfl

omit [DecidableEq α] in
theorem Supplies.tail {param : String → Option α} {index : Nat} {b : α} {bound : List α}
    (h : Supplies param index (b :: bound)) : Supplies param (index + 1) bound := by
  intro j c hj
  have hnext := h (j + 1) c hj
  rwa [show index + (j + 1) = index + 1 + j by omega] at hnext

/-- An equality holds of the rows that have the bound. -/
theorem holds_equality (coll : Collation α) (row : String → α) {param : String → Option α}
    {index : Nat} {i : OrderItem} {b : α} (hb : param (paramName index) = some b) :
    (equality index i).holds coll row param = true ↔ row i.expression = b := by
  simp [Term.holds, equality, hb, Comparison.holds]

/-- A seek holds of the rows that pass the bound, and of those that have it if it is
inclusive. -/
theorem holds_seeking (coll : Collation α) (row : String → α) {param : String → Option α}
    {index : Nat} {walk : Direction} {inclusive : Bool} {i : OrderItem} {b : α}
    (hb : param (paramName index) = some b) :
    (seeking index walk inclusive i).holds coll row param = true ↔
      coll.passes walk i b (row i.expression) = true ∨
        (inclusive = true ∧ row i.expression = b) := by
  rw [Term.holds, seeking, hb, Option.any_some]
  exact Comparison.holds_seek coll

/-- The predicate of some items is that of all but the first one, under an equality
for it, or a comparison of the first one alone. -/
theorem holds_clausesFrom_cons (coll : Collation α) (row : String → α)
    {param : String → Option α} {index : Nat} {walk : Direction} {inclusive : Bool}
    {i : OrderItem} {is : List OrderItem} {b : α} (hb : param (paramName index) = some b) :
    Predicate.holds coll row param (clausesFrom index walk inclusive (i :: is)) = true ↔
      (row i.expression = b ∧
        Predicate.holds coll row param (clausesFrom (index + 1) walk inclusive is) = true) ∨
      coll.passes walk i b (row i.expression) = true ∨
      ((inclusive && is.isEmpty) = true ∧ row i.expression = b) := by
  rw [← holds_seeking coll row hb, ← holds_equality coll row hb]
  -- some clause of the rest behind the equality, or the clause of this item alone
  simp only [Predicate.holds, clausesFrom, List.any_append, List.any_map, Bool.or_eq_true,
    List.any_cons, List.any_nil, Bool.or_false, List.all_cons, List.all_nil, Bool.and_true]
  simp only [List.any_eq_true, Function.comp_apply, List.all_cons, Bool.and_eq_true]
  grind

/-- The clauses of some items hold of the rows that follow the boundary, and of those
with the boundary's values if the boundary belongs to the page. -/
theorem holds_clausesFrom (coll : Collation α) (row : String → α) {param : String → Option α}
    (walk : Direction) (inclusive : Bool) {items : List OrderItem} {index : Nat} {bound : List α}
    (hlen : bound.length = items.length) (hparam : Supplies param index bound) :
    Predicate.holds coll row param (clausesFrom index walk inclusive items) = true ↔
      coll.follows walk items bound (items.map (row ·.expression)) = true ∨
        (inclusive = true ∧ items ≠ [] ∧ items.map (row ·.expression) = bound) := by
  induction items generalizing index bound with
  | nil => simp [clausesFrom, Predicate.holds, Collation.follows_nil]
  | cons i is ih =>
    match bound, hlen, hparam with
    | b :: bound, hlen, hparam =>
      have hrest := ih (by simpa using hlen) hparam.tail
      rw [holds_clausesFrom_cons coll row hparam.head, hrest, List.map_cons,
        Collation.follows_cons]
      -- the clause of one item is inclusive just if no other item follows
      cases is with
      | nil =>
        have hnone : bound = [] := by simpa using hlen
        simp [hnone, Collation.follows_nil]
      | cons j js =>
        simp only [List.isEmpty_cons, Bool.and_false, Bool.false_eq_true, false_and, or_false,
          List.cons.injEq, ne_eq, reduceCtorEq, not_false_eq_true, true_and]
        grind

/-- The predicate of a walk holds of the rows that follow the boundary, and of those
with the boundary's values if the boundary belongs to the page. -/
theorem holds_after (coll : Collation α) (row : String → α) {param : String → Option α}
    (walk : Direction) (inclusive : Bool) {order : Order} {bound : List α}
    (hne : order.items ≠ []) (hlen : bound.length = order.items.length)
    (hparam : Supplies param 0 bound) :
    Predicate.holds coll row param (after order walk inclusive) = true ↔
      coll.follows walk order.items bound (order.expressions.map row) = true ∨
        (inclusive = true ∧ order.expressions.map row = bound) := by
  rw [after, Order.size, clausesUpTo_size, holds_clausesFrom coll row walk inclusive hlen hparam]
  simp [Order.expressions, Function.comp_def, hne]

/-! ## The parameters of a boundary -/

/-- The binds of boundary values, of which the first one has the given number. -/
def bindsFrom (index : Nat) : List BindValue → Binds
  | [] => []
  | b :: bs => { name := paramName index, value := b } :: bindsFrom (index + 1) bs

/-- Values that are bound to something other than null give one bind each, by number. -/
theorem bindBoundaries_eq {d : Dialect} {index : Nat} {values : Fields Value}
    {bounds : List BindValue} (h : values.map (fun v => normalizeScalar d v.2) = bounds.map .ok)
    (hnull : BindValue.null ∉ bounds) :
    bindBoundaries d index values = .ok (bindsFrom index bounds) := by
  induction values generalizing index bounds with
  | nil =>
    cases bounds with
    | nil => rfl
    | cons b bs => simp at h
  | cons v vs ih =>
    cases bounds with
    | nil => simp at h
    | cons b bs =>
      simp only [List.map_cons, List.cons.injEq] at h
      simp only [List.mem_cons, not_or] at hnull
      -- a value that is not null is bound under the next name
      have hb : b.type ≠ .null := by
        rw [Ne, BindValue.type_eq_null_iff]
        exact Ne.symm hnull.1
      -- the value is bound under this number, and the others under the next ones
      simp [bindBoundaries, bindBoundary, h.1, hb, ih h.2 hnull.2, bindsFrom, bind, Except.bind]

/-- A cursor whose values can be bound gives the predicate of its walk. -/
theorem ofCursor_eq {d : Dialect} {order : Order} {c : Cursor} {bounds : List BindValue}
    (hfits : c.fits order = true)
    (h : c.values.map (fun v => normalizeScalar d v.2) = bounds.map .ok)
    (hnull : BindValue.null ∉ bounds) :
    ofCursor d order c =
      .ok { predicate := after order c.direction c.inclusive, binds := bindsFrom 0 bounds } := by
  rw [ofCursor, if_pos hfits, bindBoundaries_eq h hnull]
  rfl

/-- A cursor that gives a predicate has the expressions of the order. -/
theorem fits_of_ofCursor {d : Dialect} {order : Order} {c : Cursor} {k : Keyset}
    (h : ofCursor d order c = .ok k) : c.fits order = true := by
  unfold ofCursor at h
  split at h
  · next hfits => exact hfits
  · cases h

/-- Different boundary values have different names. -/
theorem paramName_injective {i j : Nat} (h : paramName i = paramName j) : i = j :=
  expandedName_injective namePart h

theorem isReserved_paramName (index : Nat) : isReserved (paramName index) = true := by
  simp [isReserved, paramName, expandedName]

/-- A boundary value is found under its number. -/
theorem get?_bindsFrom (index j : Nat) (bounds : List BindValue) :
    Binds.get? (bindsFrom index bounds) (paramName (index + j)) =
      bounds[j]?.map fun b => { name := paramName (index + j), value := b } := by
  induction bounds generalizing index j with
  | nil => rfl
  | cons b bs ih =>
    cases j with
    | zero => simp [bindsFrom, Binds.get?]
    | succ j =>
      -- the first bind has another number
      have hne : paramName index ≠ paramName (index + (j + 1)) := by
        intro h
        have := paramName_injective h
        omega
      have hnext := ih (index + 1) j
      rw [show index + 1 + j = index + (j + 1) by omega] at hnext
      simpa [bindsFrom, Binds.get?, hne] using hnext

/-- The binds of a boundary supply its values, also after a statement's own binds if
none of those has a reserved name. -/
theorem supplies_bindsFrom {β : Type} (denote : BindValue → β) (own : Binds)
    (bounds : List BindValue) (hown : ∀ b ∈ own, isReserved b.name = false) :
    Supplies (Binds.param denote (own ++ bindsFrom 0 bounds)) 0 (bounds.map denote) := by
  intro j b hj
  rw [List.getElem?_map, Option.map_eq_some_iff] at hj
  obtain ⟨v, hv, rfl⟩ := hj
  -- the names of parameters are reserved, so that no own bind comes first
  have hskip : own.find? (·.name == paramName (0 + j)) = none := by
    rw [List.find?_eq_none]
    intro o ho heq
    have hfree := hown o ho
    rw [eq_of_beq heq, isReserved_paramName] at hfree
    cases hfree
  have hfound := get?_bindsFrom 0 j bounds
  rw [hv, Option.map_some, Binds.get?] at hfound
  rw [Binds.param, Binds.get?, List.find?_append, hskip, Option.none_or, hfound, Option.map_some]

end Keyset

end SqlPaging
