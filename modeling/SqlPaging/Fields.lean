/-!
# SqlPaging — ordered fields

Fields are named values in the order in which their names were first written;
writing a name again replaces its value and keeps its place.

Main results:

* `get?_set_self`, `get?_set_of_ne` — reading after writing.
* `get?_filter` — reading what a filter keeps.
* `get?_of_mem` — every field is found under its name.
* `keys_set` — a new name goes to the end, a present one moves nothing.
-/

namespace SqlPaging

/-- Named values in order. -/
abbrev Fields (α : Type) := List (String × α)

namespace Fields

variable {α : Type}

/-- The names in order. -/
def keys (m : Fields α) : List String := m.map (·.1)

/-- The value of the first field with the name. -/
def get? (m : Fields α) (name : String) : Option α := (m.find? (·.1 == name)).map (·.2)

/-- The fields with the value written under the name. -/
def set : Fields α → String → α → Fields α
  | [], name, a => [(name, a)]
  | (k, b) :: m, name, a => if k = name then (k, a) :: m else (k, b) :: set m name a

/-- The fields that writing the pairs one after the other gives. -/
def ofPairs (pairs : List (String × α)) : Fields α := pairs.foldl (fun m p => m.set p.1 p.2) []

/-- The fields in the order of their names. -/
def sorted (m : Fields α) : Fields α := m.mergeSort fun a b => !(b.1 < a.1)

/-- What was written last under a name is read under it. -/
@[simp] theorem get?_set_self (m : Fields α) (name : String) (a : α) :
    (m.set name a).get? name = some a := by
  induction m with
  | nil => simp [set, get?]
  | cons p m ih =>
    obtain ⟨k, b⟩ := p
    by_cases h : k = name
    · simp [set, get?, h]
    · simpa [set, get?, h] using ih

/-- Writing under one name leaves what is read under the others. -/
theorem get?_set_of_ne (m : Fields α) {name other : String} (a : α) (h : other ≠ name) :
    (m.set name a).get? other = m.get? other := by
  induction m with
  | nil => simp [set, get?, Ne.symm h]
  | cons p m ih =>
    obtain ⟨k, b⟩ := p
    by_cases hk : k = name
    · subst hk
      simp [set, get?, Ne.symm h]
    · by_cases ho : k = other
      · subst ho
        simp [set, get?, hk]
      · simpa [set, get?, hk, ho] using ih

/-- A new name goes to the end, and a present one keeps its place. -/
theorem keys_set (m : Fields α) (name : String) (a : α) :
    (m.set name a).keys = if name ∈ m.keys then m.keys else m.keys ++ [name] := by
  induction m with
  | nil => simp [set, keys]
  | cons p m ih =>
    obtain ⟨k, b⟩ := p
    by_cases hk : k = name
    · subst hk
      simp [set, keys]
    · have hne : name ≠ k := Ne.symm hk
      simp only [set, hk, if_false]
      simp only [keys, List.map_cons] at ih ⊢
      rw [ih]
      by_cases hm : name ∈ List.map (fun x => x.1) m <;> simp [hm, hne]

/-- The names are pairwise distinct. -/
def Distinct (m : Fields α) : Prop := m.keys.Nodup

/-- Writing does not repeat a name. -/
theorem Distinct.set {m : Fields α} (h : m.Distinct) (name : String) (a : α) :
    (m.set name a).Distinct := by
  unfold Distinct at *
  rw [keys_set]
  split
  · exact h
  · next hn =>
    rw [List.nodup_append]
    refine ⟨h, by simp, fun k hk n hn' => ?_⟩
    rw [List.mem_singleton] at hn'
    rintro rfl
    exact hn (hn' ▸ hk)

/-- Leaving fields out does not repeat a name. -/
theorem Distinct.filter {m : Fields α} (h : m.Distinct) (p : String × α → Bool) :
    Distinct (m.filter p) := by
  unfold Distinct keys at *
  exact h.sublist ((List.filter_sublist).map _)

/-- Where names are distinct, a filter by values decides on each name alone. -/
theorem get?_filter {m : Fields α} (h : m.Distinct) (p : α → Bool) (name : String) :
    get? (m.filter fun e => p e.2) name = (m.get? name).filter p := by
  induction m with
  | nil => rfl
  | cons e m ih =>
    obtain ⟨k, a⟩ := e
    simp only [Distinct, keys, List.map_cons, List.nodup_cons] at h
    have ih := ih h.2
    by_cases hk : k = name
    · subst hk
      cases hp : p a with
      | true => simp [get?, hp, Option.filter]
      | false =>
        simp only [get?, List.filter_cons, hp, Bool.false_eq_true, if_false, List.find?_cons,
          beq_self_eq_true, Option.map_some, Option.filter]
        -- no other field has the name of the one that was left out
        rw [Option.map_eq_none_iff, List.find?_eq_none]
        intro e he
        have := List.mem_filter.mp he
        intro hek
        exact h.1 (List.mem_map.mpr ⟨e, this.1, by simpa using hek⟩)
    · cases hp : p a <;> simpa [get?, List.filter_cons, hp, hk] using ih

/-- The value of a field is found under its name. -/
theorem get?_of_mem {m : Fields α} (h : m.Distinct) {e : String × α} (he : e ∈ m) :
    m.get? e.1 = some e.2 := by
  induction m with
  | nil => cases he
  | cons d m ih =>
    simp only [Distinct, keys, List.map_cons, List.nodup_cons] at h
    rcases List.mem_cons.mp he with rfl | he
    · simp [get?]
    · -- its name is not the first one's, since names are distinct
      have hne : d.1 ≠ e.1 := fun hd => h.1 (hd ▸ List.mem_map_of_mem he)
      have hrest := ih h.2 he
      simpa [get?, hne] using hrest

/-- Pairs that are written one after the other end up under distinct names. -/
theorem distinct_ofPairs (pairs : List (String × α)) : (ofPairs pairs).Distinct := by
  unfold ofPairs
  suffices ∀ m : Fields α, m.Distinct → (pairs.foldl (fun m p => m.set p.1 p.2) m).Distinct from
    this [] (by simp [Distinct, keys])
  induction pairs with
  | nil => exact fun _ h => h
  | cons p pairs ih => exact fun m h => ih _ (h.set p.1 p.2)

/-- Pairs with distinct names are fields as they stand. -/
theorem ofPairs_eq_self {pairs : List (String × α)} (h : (keys pairs).Nodup) :
    ofPairs pairs = pairs := by
  have hset : ∀ (m : Fields α) (name : String) (a : α), name ∉ m.keys →
      m.set name a = m ++ [(name, a)] := by
    intro m name a hname
    induction m with
    | nil => rfl
    | cons p m ih =>
      simp only [keys, List.map_cons, List.mem_cons, not_or] at hname
      rw [set, if_neg (Ne.symm hname.1), ih hname.2, List.cons_append]
  -- the fields that were written so far and the pairs that are left share no name
  suffices ∀ m : Fields α, (keys (m ++ pairs)).Nodup →
      pairs.foldl (fun m p => set m p.1 p.2) m = m ++ pairs from this [] h
  clear h
  induction pairs with
  | nil => simp
  | cons p pairs ih =>
    intro m hm
    have hname : p.1 ∉ keys m := by
      simp only [keys, List.map_append, List.map_cons, List.nodup_append] at hm
      intro hmem
      exact hm.2.2 p.1 hmem p.1 List.mem_cons_self rfl
    rw [List.foldl_cons, hset m p.1 p.2 hname, ih _ (by simpa using hm)]
    simp

end Fields

end SqlPaging
