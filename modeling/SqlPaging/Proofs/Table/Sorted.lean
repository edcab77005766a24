import Mathlib.Data.List.Sort
import SqlPaging.Proofs.Keyset.Meaning

/-!
# SqlPaging — sorted tables

A table has rows, and every row has a value for each expression that one can sort
by. The values of the expressions of an order are the *key* of a row. Where no two
rows have the same key, an order leaves one way to sort the rows.

Sorting what a filter keeps is then the same as filtering what was sorted, and the
rows that come after a row or have its key are a tail of the sorted table
(`sorted_filter_from`).

Main results:

* `pairwise_sorted` — the sorted rows come strictly after one another.
* `sorted_filter_from` — the rows from a row on are what is left after dropping those
  before it.
-/

namespace SqlPaging

/-- A table: its rows, their values, and how values compare. -/
structure Table (ρ α : Type) where
  rows : List ρ
  /-- the value of a row for an expression -/
  value : ρ → String → α
  collation : Collation α
  /-- the value that a bound parameter denotes -/
  denote : BindValue → α

namespace Table

variable {ρ α : Type} [DecidableEq α] (t : Table ρ α)

/-- The values of a row for the expressions of an order. -/
def key (order : Order) (r : ρ) : List α := order.expressions.map (t.value r)

def comesBefore (order : Order) (r s : ρ) : Bool :=
  t.collation.precedes order.items (t.key order r) (t.key order s)

/-- The rows in an order. -/
def sorted (order : Order) (rows : List ρ) : List ρ :=
  rows.insertionSort fun r s => t.comesBefore order s r = false

/-- No two rows have the same key. -/
def Keyed (order : Order) (rows : List ρ) : Prop := (rows.map (t.key order)).Nodup

omit [DecidableEq α] in
/-- A row has a value for each item of the order. -/
theorem length_key (order : Order) (r : ρ) : (t.key order r).length = order.items.length := by
  simp [key, Order.expressions]

theorem comesBefore_irrefl (order : Order) (r : ρ) : t.comesBefore order r r = false :=
  t.collation.precedes_irrefl _ _

/-- Not each of two rows comes before the other one. -/
theorem comesBefore_asymm {order : Order} {r s : ρ} (h : t.comesBefore order r s = true) :
    t.comesBefore order s r = false :=
  t.collation.precedes_asymm h

theorem comesBefore_trans {order : Order} {r s u : ρ} (hrs : t.comesBefore order r s = true)
    (hsu : t.comesBefore order s u = true) : t.comesBefore order r u = true :=
  t.collation.precedes_trans hrs hsu

/-- Of two rows with different keys one comes first. -/
theorem comesBefore_total (order : Order) (r s : ρ) :
    t.comesBefore order r s = true ∨ t.key order r = t.key order s ∨
      t.comesBefore order s r = true :=
  t.collation.precedes_total (t.length_key order r) (t.length_key order s)

/-- A row that does not come before another one comes after it or has its key. -/
theorem comesBefore_eq_false_iff {order : Order} {r s : ρ} :
    t.comesBefore order s r = false ↔
      t.comesBefore order r s = true ∨ t.key order r = t.key order s := by
  constructor
  · intro h
    -- of two rows one comes first, or they are tied
    rcases t.comesBefore_total order r s with hrs | heq | hsr
    · exact .inl hrs
    · exact .inr heq
    · rw [h] at hsr
      cases hsr
  · rintro (h | h)
    · exact t.comesBefore_asymm h
    · rw [comesBefore, h]
      exact t.collation.precedes_irrefl _ _

/-! ## Sorting -/

theorem perm_sorted (order : Order) (rows : List ρ) : (t.sorted order rows).Perm rows :=
  List.perm_insertionSort _ rows

omit [DecidableEq α] in
/-- Keys stay distinct in any other arrangement. -/
theorem Keyed.perm {t : Table ρ α} {order : Order} {rows rows' : List ρ} (h : t.Keyed order rows)
    (hp : rows'.Perm rows) : t.Keyed order rows' :=
  (hp.map (t.key order)).nodup_iff.mpr h

omit [DecidableEq α] in
theorem Keyed.filter {t : Table ρ α} {order : Order} {rows : List ρ} (h : t.Keyed order rows)
    (p : ρ → Bool) : t.Keyed order (rows.filter p) :=
  List.Nodup.sublist ((List.filter_sublist).map _) h

/-- Where keys are distinct, every sorted row comes before those behind it. -/
theorem pairwise_sorted {order : Order} {rows : List ρ} (h : t.Keyed order rows) :
    (t.sorted order rows).Pairwise fun r s => t.comesBefore order r s = true := by
  -- sorting needs an order in which rows may be tied; with keys that differ none of them are
  have htrans : IsTrans ρ fun r s => t.comesBefore order s r = false := by
    refine ⟨fun r s u hrs hsu => ?_⟩
    rw [comesBefore_eq_false_iff] at *
    rcases hrs with hrs | hrs
    · rcases hsu with hsu | hsu
      · exact .inl (t.comesBefore_trans hrs hsu)
      · rw [comesBefore, ← hsu]
        exact .inl hrs
    · rw [comesBefore, hrs]
      exact hsu
  have htotal : Std.Total fun r s : ρ => t.comesBefore order s r = false := by
    refine ⟨fun r s => ?_⟩
    cases hrs : t.comesBefore order r s with
    | false => exact .inr rfl
    | true => exact .inl (t.comesBefore_asymm hrs)
  -- no row comes after one behind it, and no two of them are tied
  have hweak : (t.sorted order rows).Pairwise fun r s => t.comesBefore order s r = false :=
    List.pairwise_insertionSort _ rows
  have hkeys := List.pairwise_map.mp (h.perm (t.perm_sorted order rows))
  refine hweak.imp₂ ?_ hkeys
  intro r s hle hne
  rw [comesBefore_eq_false_iff] at hle
  exact hle.resolve_right hne

/-- Rows that are sorted strictly are the sorted rows. -/
theorem eq_sorted {order : Order} {rows sorted : List ρ} (hk : t.Keyed order rows)
    (hs : sorted.Pairwise fun r s => t.comesBefore order r s = true) (hp : sorted.Perm rows) :
    sorted = t.sorted order rows := by
  have hasymm : ∀ r s, r ∈ sorted → s ∈ t.sorted order rows → t.comesBefore order r s = true →
      t.comesBefore order s r = true → r = s := by
    intro r s _ _ hrs hsr
    rw [t.comesBefore_asymm hrs] at hsr
    cases hsr
  exact List.Perm.eq_of_pairwise hasymm hs (t.pairwise_sorted hk)
    (hp.trans (t.perm_sorted order rows).symm)

/-- Rows may be selected before or after they are sorted. -/
theorem sorted_filter {order : Order} {rows : List ρ} (h : t.Keyed order rows) (p : ρ → Bool) :
    t.sorted order (rows.filter p) = (t.sorted order rows).filter p := by
  symm
  apply t.eq_sorted (h.filter p)
  · exact (t.pairwise_sorted h).filter p
  · exact (t.perm_sorted order rows).filter p

/-- In a strictly sorted list, the rows from a row on are a tail. -/
theorem filter_from {order : Order} {rows : List ρ} {k : Nat} {r : ρ}
    (hs : rows.Pairwise fun r s => t.comesBefore order r s = true) (hk : rows[k]? = some r) :
    rows.filter (fun s => !t.comesBefore order s r) = rows.drop k := by
  obtain ⟨hlt, hr⟩ := List.getElem?_eq_some_iff.mp hk
  have hpairs := List.pairwise_iff_getElem.mp hs
  -- the rows in front come before the row, and those from it on do not
  have hbefore : ∀ s ∈ rows.take k, t.comesBefore order s r = true := by
    intro s hs'
    obtain ⟨j, hj, rfl⟩ := List.mem_take_iff_getElem.mp hs'
    rw [← hr]
    exact hpairs j k _ hlt (by omega)
  have hafter : ∀ s ∈ rows.drop k, t.comesBefore order s r = false := by
    intro s hs'
    obtain ⟨j, hj, rfl⟩ := List.mem_drop_iff_getElem.mp hs'
    rw [← hr]
    rcases Nat.eq_zero_or_pos j with rfl | hpos
    · exact t.comesBefore_irrefl order _
    · exact t.comesBefore_asymm (hpairs k (k + j) hlt _ (by omega))
  -- the filter drops the first part and keeps the second one
  have hsplit := (List.take_append_drop k rows).symm
  rw [hsplit, List.filter_append, List.filter_eq_nil_iff.mpr, List.filter_eq_self.mpr,
    List.nil_append, ← hsplit]
  · intro s hs'
    rw [hafter s hs', Bool.not_false]
  · intro s hs'
    rw [hbefore s hs']
    simp

/-- The rows of a table from the row at a place on, sorted. -/
theorem sorted_filter_from {order : Order} {rows : List ρ} {k : Nat} {r : ρ}
    (h : t.Keyed order rows) (hk : (t.sorted order rows)[k]? = some r) :
    t.sorted order (rows.filter fun s => !t.comesBefore order s r) =
      (t.sorted order rows).drop k := by
  rw [t.sorted_filter h, t.filter_from (t.pairwise_sorted h) hk]

theorem length_sorted (order : Order) (rows : List ρ) :
    (t.sorted order rows).length = rows.length :=
  (t.perm_sorted order rows).length_eq

end Table

end SqlPaging
