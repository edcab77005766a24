import SqlPaging.Proofs.Except
import SqlPaging.Proofs.Keyset.Meaning
import SqlPaging.Sql.Positional

/-!
# SqlPaging — values that bound a page

A cursor that is made of a row has the row's values under the expressions of the order,
each where it first comes, and all of them are scalars. A predicate takes fewer values
than a cursor does: neither `NULL` nor a double that is no finite number can be bound to
a comparison. For the cursor of a row, these two are all that is refused.

Main results:

* `create_eq_ok_iff`, `keys_of_create`, `boundary_of_create`, `scalar_of_create` — what the cursor of
  a row has.
* `bindBoundaries_isOk_iff` — which scalars can be bound.
* `ofCursor_isOk_iff` — when a cursor gives a predicate.
-/

namespace SqlPaging

namespace Value

/-- The value is a scalar that nothing has to be taken off. -/
def IsScalar (v : Value) : Prop := v.isCollection = false ∧ v.isBacked = false

/-- The value can be compared with: it is not null, and a number if it is a double. -/
def Bounds (v : Value) : Prop := v ≠ .null ∧ ∀ x, v = .float x → x.isFinite = true

/-- What a value resolves to has nothing left to be taken off. -/
theorem isScalar_of_resolveScalar {v w : Value} (h : v.resolveScalar = .ok w) : w.IsScalar := by
  refine ⟨not_collection_of_resolveScalar h, ?_⟩
  rw [resolveScalar, bind_eq_ok] at h
  obtain ⟨resolved, hresolved, h⟩ := h
  split at h
  · cases h
  · cases h
    exact not_backed_of_unwrap hresolved

/-- A scalar stands for itself. -/
theorem IsScalar.resolveScalar {v : Value} (h : v.IsScalar) : v.resolveScalar = .ok v := by
  rw [Value.resolveScalar, resolve_of_not_backed h.2]
  show (if v.isCollection = true then _ else _) = _
  rw [h.1]
  rfl

end Value

open Value

theorem normalizeScalar_of_isScalar {v : Value} (h : v.IsScalar) (d : Dialect) :
    normalizeScalar d v = bindScalar d v := by
  rw [normalizeScalar, h.resolveScalar]
  rfl

/-- A scalar that can be compared with is bound to something, which is not null. -/
theorem bindScalar_of_bounds {v : Value} (hv : v.IsScalar) (h : v.Bounds) (d : Dialect) :
    ∃ b, bindScalar d v = .ok b ∧ b.type ≠ .null := by
  cases v with
  | null => exact absurd rfl h.1
  | float x => exact ⟨_, if_pos (h.2 x rfl), by simp [BindValue.type]⟩
  | array items => cases hv.1
  | map fields => cases hv.1
  | backed inner => cases hv.2
  | _ => exact ⟨_, rfl, by simp [BindValue.type]⟩

/-- A value that is bound to something other than null can be compared with. -/
theorem bounds_of_bindScalar {v : Value} {d : Dialect} {b : BindValue}
    (h : bindScalar d v = .ok b) (hb : b.type ≠ .null) : v.Bounds := by
  constructor
  · rintro rfl
    cases h
    exact hb rfl
  · rintro x rfl
    rw [bindScalar] at h
    split at h
    · next hfinite => exact hfinite
    · cases h

namespace Keyset

/-- What boundary values are bound to, where all of them can be bound. -/
theorem bindBoundaries_eq_ok {d : Dialect} {index : Nat} {values : Fields Value} {bs : Binds}
    (h : bindBoundaries d index values = .ok bs) :
    ∃ bounds, values.map (fun v => normalizeScalar d v.2) = bounds.map .ok ∧
      bs = bindsFrom index bounds := by
  induction values generalizing index bs with
  | nil =>
    cases h
    exact ⟨[], rfl, rfl⟩
  | cons v values ih =>
    rw [bindBoundaries] at h
    simp only [bind_eq_ok, Except.ok.injEq] at h
    obtain ⟨b, hb, more, hmore, rfl⟩ := h
    -- the other values are bound from the next number on
    obtain ⟨bounds, hbounds, rfl⟩ := ih hmore
    -- a boundary is refused if it does not resolve, or resolves to null
    rw [bindBoundary] at hb
    split at hb
    · cases hb
    · next bound hbound =>
      split at hb
      · cases hb
      · cases hb
        refine ⟨bound :: bounds, ?_, rfl⟩
        rw [List.map_cons, List.map_cons, hbound, hbounds]

/-- A scalar can be bound to a comparison just if it can be compared with. -/
theorem bindBoundary_isOk_iff (d : Dialect) (index : Nat) (expression : String) {v : Value}
    (hv : v.IsScalar) : (∃ b, bindBoundary d index expression v = .ok b) ↔ v.Bounds := by
  rw [bindBoundary, normalizeScalar_of_isScalar hv]
  constructor
  · rintro ⟨b, hb⟩
    split at hb
    · cases hb
    · next bound hbound =>
      split at hb
      · cases hb
      · next hnull => exact bounds_of_bindScalar hbound hnull
  · intro h
    -- what can be compared with is bound to something other than null
    obtain ⟨bound, hbound, hnull⟩ := bindScalar_of_bounds hv h d
    rw [hbound]
    exact ⟨_, if_neg hnull⟩

/-- Scalars can be bound just if each of them can be compared with. -/
theorem bindBoundaries_isOk_iff (d : Dialect) (index : Nat) {values : Fields Value}
    (hv : ∀ p ∈ values, p.2.IsScalar) :
    (∃ bs, bindBoundaries d index values = .ok bs) ↔ ∀ p ∈ values, p.2.Bounds := by
  induction values generalizing index with
  | nil => exact ⟨fun _ p hp => (List.not_mem_nil hp).elim, fun _ => ⟨[], rfl⟩⟩
  | cons v vs ih =>
    -- each value is bound by itself
    have hfirst := bindBoundary_isOk_iff d index v.1 (hv v List.mem_cons_self)
    have hrest := ih (index + 1) fun p hp => hv p (List.mem_cons_of_mem v hp)
    rw [List.forall_mem_cons, ← hfirst, ← hrest]
    simp only [bindBoundaries, bind_eq_ok, Except.ok.injEq]
    constructor
    · rintro ⟨_, b, hb, bs, hbs, -⟩
      exact ⟨⟨b, hb⟩, ⟨bs, hbs⟩⟩
    · rintro ⟨⟨b, hb⟩, ⟨bs, hbs⟩⟩
      exact ⟨_, b, hb, bs, hbs, rfl⟩

/-- A cursor of scalars gives a predicate just if its values can be compared with. -/
theorem ofCursor_isOk_iff {d : Dialect} {order : Order} {c : Cursor} (hfits : c.fits order = true)
    (hv : ∀ p ∈ c.values, p.2.IsScalar) :
    (∃ k, ofCursor d order c = .ok k) ↔ ∀ p ∈ c.values, p.2.Bounds := by
  rw [ofCursor, if_pos hfits, ← bindBoundaries_isOk_iff d 0 hv]
  simp only [bind_eq_ok, Except.ok.injEq]
  constructor
  · rintro ⟨-, bs, hbs, -⟩
    exact ⟨bs, hbs⟩
  · rintro ⟨bs, hbs⟩
    exact ⟨_, bs, hbs, rfl⟩

end Keyset

/-! ## The values of a cursor -/

namespace Fields

theorem mem_of_mem_set {α : Type} {m : Fields α} {name : String} {a : α} {p : String × α}
    (h : p ∈ m.set name a) : p ∈ m ∨ p = (name, a) := by
  induction m with
  | nil => exact .inr (List.mem_singleton.mp h)
  | cons e m ih =>
    rw [set] at h
    split at h
    · -- the field that is written over goes away
      next hname =>
      rcases List.mem_cons.mp h with rfl | h
      · exact .inr (by rw [hname])
      · exact .inl (List.mem_cons_of_mem e h)
    · rcases List.mem_cons.mp h with rfl | h
      · exact .inl List.mem_cons_self
      · exact (ih h).imp_left (List.mem_cons_of_mem e)

/-- The fields that pairs are written to are some of the pairs. -/
theorem mem_of_mem_ofPairs {α : Type} {pairs : List (String × α)} {p : String × α}
    (h : p ∈ ofPairs pairs) : p ∈ pairs := by
  -- the fields so far are of any kind, for the induction
  suffices ∀ m : Fields α, p ∈ pairs.foldl (fun m p => set m p.1 p.2) m → p ∈ m ∨ p ∈ pairs from
    (this [] h).resolve_left List.not_mem_nil
  clear h
  induction pairs with
  | nil => exact fun _ h => .inl h
  | cons e pairs ih =>
    intro m h
    rcases ih _ h with hold | hrest
    · rcases mem_of_mem_set hold with hold | rfl
      · exact .inl hold
      · exact .inr List.mem_cons_self
    · exact .inr (List.mem_cons_of_mem e hrest)

/-- Writing pairs one after the other keeps each name where it first comes. -/
theorem keys_ofPairs {α : Type} (pairs : List (String × α)) :
    (ofPairs pairs).keys = Sql.firsts (keys pairs) := by
  -- the names that are written already are left out of those to come
  suffices ∀ m : Fields α, (pairs.foldl (fun m p => set m p.1 p.2) m).keys =
      m.keys ++ (Sql.firsts (keys pairs)).filter (· ∉ m.keys) by
    rw [ofPairs, this, keys, List.map_nil, List.nil_append]
    exact List.filter_eq_self.mpr (by simp)
  induction pairs with
  | nil => simp [keys, Sql.firsts]
  | cons p pairs ih =>
    intro m
    have hnames : Sql.firsts (keys (p :: pairs)) =
        p.1 :: (Sql.firsts (keys pairs)).filter (· != p.1) := rfl
    rw [List.foldl_cons, ih, keys_set, hnames]
    by_cases hmem : p.1 ∈ m.keys
    · -- a name that is there stays where it is, and the filter of `m` leaves it out already
      rw [if_pos hmem, List.filter_cons_of_neg (by simpa using hmem), List.filter_filter]
      congr 1
      apply List.filter_congr
      intro name _
      by_cases hname : name = p.1
      · simp [hname, hmem]
      · simp [hname]
    · -- a new name goes to the end, and both filters leave it out of the rest
      rw [if_neg hmem, List.filter_cons_of_pos (by simpa using hmem), List.filter_filter,
        List.append_assoc, List.singleton_append]
      congr 2
      apply List.filter_congr
      intro name _
      by_cases hname : name = p.1
      · simp [hname]
      · simp [hname]

/-- A name that is always written with the same value has that value. -/
theorem get?_ofPairs {α : Type} {pairs : List (String × α)} {name : String} {a : α}
    (hname : name ∈ keys pairs) (h : ∀ p ∈ pairs, p.1 = name → p.2 = a) :
    (ofPairs pairs).get? name = some a := by
  have hfield : name ∈ (ofPairs pairs).keys := by
    rw [keys_ofPairs, Sql.mem_firsts]
    exact hname
  obtain ⟨p, hp, rfl⟩ := List.mem_map.mp hfield
  rw [get?_of_mem (distinct_ofPairs pairs) hp, h p (mem_of_mem_ofPairs hp) rfl]

end Fields

namespace Cursor

variable {order : Order} {pager : Pager} {row : Row} {eachSide : Option Int64}
  {now : Calendar.DateTime} {c : Cursor}

/-- When a row gives a cursor, and what that consists of. -/
theorem create_eq_ok_iff :
    create order pager row eachSide now = .ok c ↔
      order.isEmpty = false ∧ ∃ pairs, boundaries row order.expressions = .ok pairs ∧
        c = { pager, values := Fields.ofPairs pairs, eachSideSnapshot := eachSide.map (atLeast 0),
              direction := .next, inclusive := true, createdAt := now } := by
  unfold create
  -- an empty order is refused before a value is looked at
  cases order.isEmpty with
  | true => simp
  | false =>
    rw [if_neg (by decide)]
    simp only [bind_eq_ok, Except.ok.injEq, @eq_comm _ _ c, true_and]

/-- The boundary value of an expression is what its value in the row resolves to. -/
theorem boundary_eq_ok_iff {expression : String} {v : Value} :
    boundary row expression = .ok v ↔
      ∃ raw, row.lookup expression = some raw ∧ raw.resolveScalar = .ok v := by
  unfold boundary
  cases row.lookup expression with
  | none => simp
  | some raw => simp

/-- Boundary values come one for each expression, in order. -/
theorem boundaries_eq_ok {expressions : List String} {pairs : Fields Value}
    (h : boundaries row expressions = .ok pairs) :
    pairs.keys = expressions ∧ ∀ p ∈ pairs, boundary row p.1 = .ok p.2 := by
  induction expressions generalizing pairs with
  | nil =>
    cases h
    exact ⟨rfl, fun p hp => (List.not_mem_nil hp).elim⟩
  | cons e es ih =>
    rw [boundaries, List.mapM_cons] at h
    simp only [bind_eq_ok, map_eq_ok] at h
    -- the first value goes under its expression, and so do the others
    obtain ⟨_, ⟨v, hv, rfl⟩, rest, hrest, hpairs⟩ := h
    cases hpairs
    obtain ⟨hkeys, hvalues⟩ := ih hrest
    exact ⟨congrArg (e :: ·) hkeys, List.forall_mem_cons.mpr ⟨hv, hvalues⟩⟩

/-- A cursor has its values under the expressions of the order, each where it first
comes. -/
theorem keys_of_create (h : create order pager row eachSide now = .ok c) :
    c.values.keys = Sql.firsts order.expressions := by
  obtain ⟨-, pairs, hpairs, rfl⟩ := create_eq_ok_iff.mp h
  rw [← (boundaries_eq_ok hpairs).1]
  exact Fields.keys_ofPairs pairs

theorem scalar_of_create (h : create order pager row eachSide now = .ok c) :
    ∀ p ∈ c.values, p.2.IsScalar := by
  obtain ⟨-, pairs, hpairs, rfl⟩ := create_eq_ok_iff.mp h
  intro p hp
  obtain ⟨raw, -, hraw⟩ :=
    boundary_eq_ok_iff.mp ((boundaries_eq_ok hpairs).2 p (Fields.mem_of_mem_ofPairs hp))
  exact isScalar_of_resolveScalar hraw

/-- Under each expression of the order a cursor has the scalar of the row. -/
theorem boundary_of_create (h : create order pager row eachSide now = .ok c) {e : String}
    (he : e ∈ order.expressions) : ∃ v, boundary row e = .ok v ∧ c.values.get? e = some v := by
  obtain ⟨-, pairs, hpairs, rfl⟩ := create_eq_ok_iff.mp h
  obtain ⟨hkeys, hvalues⟩ := boundaries_eq_ok hpairs
  rw [← hkeys] at he
  obtain ⟨p, hp, rfl⟩ := List.mem_map.mp he
  refine ⟨p.2, hvalues p hp, Fields.get?_ofPairs he fun q hq hname => ?_⟩
  -- an expression that comes twice is looked up twice, with the same result
  have hsame := hvalues q hq
  rw [hname, hvalues p hp] at hsame
  exact (Except.ok.inj hsame).symm

end Cursor

end SqlPaging
