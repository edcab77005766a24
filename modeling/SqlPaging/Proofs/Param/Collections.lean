import SqlPaging.Param
import SqlPaging.Proofs.Except

/-!
# SqlPaging — collections among parameters

Each collection that is bound is remembered under its name, with the names of its
elements: as many as there are elements, and numbered from zero. Nothing else is
remembered.

Main results:

* `pushParam_expansions` — what a parameter adds to the names that are remembered.
* `expansions_of_normalize` — where a remembered name comes from.
-/

namespace SqlPaging

/-- The elements of a collection. -/
def Value.elements? : Value → Option (List Value)
  | .array items => some items
  | .map fields => some (fields.map (·.2))
  | _ => none

theorem Value.elements?_eq_none {v : Value} : v.elements? = none ↔ v.isCollection = false := by
  cases v <;> simp [elements?, isCollection]

/-- The elements of the collection that a value stands for, if it stands for one. -/
def Value.collection? (v : Value) : Option (List Value) := v.resolve.toOption.bind elements?

/-- The elements of a value are those of what it resolves to. -/
theorem Value.collection?_eq_some {v : Value} {vs : List Value} :
    v.collection? = some vs ↔
      ∃ resolved, v.resolve = .ok resolved ∧ resolved.elements? = some vs := by
  rw [collection?]
  cases v.resolve with
  | error e => simp [Except.toOption]
  | ok resolved => simp [Except.toOption]

/-- The names of a number of elements. -/
def elementNames (name : String) (count : Nat) : List String :=
  (List.range count).map (expandedName name)

namespace Normalized

variable {d : Dialect} {n n' : Normalized}

theorem push_expansions {name : String} {v : BindValue} (h : n.push name v = .ok n') :
    n'.expansions = n.expansions := by
  rw [push] at h
  split at h
  · cases h
  · cases h
    rfl

theorem pushElements_expansions {name : String} {index : Nat} {vs : List Value}
    (h : pushElements d name index n vs = .ok n') : n'.expansions = n.expansions := by
  induction vs generalizing index n with
  | nil =>
    cases h
    rfl
  | cons v vs ih =>
    obtain ⟨m, hm, hrest⟩ := bind_eq_ok.mp h
    -- the first element ends in a push, like all of them
    rw [ih hrest]
    obtain ⟨element, -, hm⟩ := bind_eq_ok.mp hm
    split at hm
    · cases hm
    · obtain ⟨bound, -, hpush⟩ := bind_eq_ok.mp hm
      exact push_expansions hpush

/-- A collection is expanded to the names of its elements. -/
theorem pushCollection_expansions {name : String} {vs : List Value}
    (h : n.pushCollection d name vs = .ok n') :
    n'.expansions = n.expansions.set name (elementNames name vs.length) := by
  obtain ⟨m, hm, h⟩ := bind_eq_ok.mp h
  cases h
  rw [← pushElements_expansions hm]
  rfl

/-- A parameter is remembered just if it is a collection. -/
theorem pushParam_expansions {name : String} {v : Value} (h : n.pushParam d name v = .ok n') :
    ∃ resolved, v.resolve = .ok resolved ∧
      n'.expansions = match resolved.elements? with
        | some vs => n.expansions.set name (elementNames name vs.length)
        | none => n.expansions := by
  rw [pushParam] at h
  split at h
  · cases h
  · obtain ⟨resolved, hresolved, h⟩ := bind_eq_ok.mp h
    rw [mapError_eq_ok, mapError_eq_ok] at hresolved
    refine ⟨resolved, hresolved, ?_⟩
    split at h
    · exact pushCollection_expansions h
    · exact pushCollection_expansions h
    · next hitems hfields =>
      obtain ⟨bound, -, hpush⟩ := bind_eq_ok.mp h
      -- only collections are written down
      have hscalar : resolved.elements? = none := by
        cases resolved with
        | array items => exact absurd rfl (hitems items)
        | map fields => exact absurd rfl (hfields fields)
        | _ => rfl
      rw [hscalar]
      exact push_expansions hpush

end Normalized

/-- A name that is remembered is that of a collection, with the names of its elements. -/
theorem expansions_of_normalize {d : Dialect} {ps : Params} {n : Normalized}
    (h : normalize d ps = .ok n) {name : String} {names : List String}
    (hget : n.expansions.get? name = some names) :
    ∃ p ∈ ps, ∃ resolved vs, p.1 = name ∧ p.2.resolve = .ok resolved ∧
      resolved.elements? = some vs ∧ names = elementNames name vs.length := by
  -- along the parameters, whatever is remembered comes from one of them
  refine foldlM_induction (P := fun m => ∀ names, m.expansions.get? name = some names →
    ∃ p ∈ ps, ∃ resolved vs, p.1 = name ∧ p.2.resolve = .ok resolved ∧
      resolved.elements? = some vs ∧ names = elementNames name vs.length) h nofun
    (fun p hp m m' ih hpush names hget => ?_) names hget
  obtain ⟨resolved, hresolved, hexpansions⟩ := Normalized.pushParam_expansions hpush
  rw [hexpansions] at hget
  split at hget
  · next vs hvs =>
    -- the name is that of this parameter, or it was remembered before
    by_cases hname : name = p.1
    · subst hname
      rw [Fields.get?_set_self, Option.some.injEq] at hget
      exact ⟨p, hp, resolved, vs, rfl, hresolved, hvs, hget.symm⟩
    · rw [Fields.get?_set_of_ne _ _ hname] at hget
      exact ih names hget
  · exact ih names hget

end SqlPaging
