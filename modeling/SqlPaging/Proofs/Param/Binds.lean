import Mathlib.Data.List.Nodup
import SqlPaging.Proofs.Param.Collections

/-!
# SqlPaging — the binds of parameters

A scalar is bound to its own name, and the elements of a collection to numbered names, in
order. The binds of parameters are those of each of them, one after the other, and no name is
bound twice. What stands for a parameter in a statement are the names of its binds.

Main results:

* `pushParam_binds` — what a parameter adds to the binds.
* `binds_of_normalize` — the binds of all parameters.
* `slots_of_normalize` — the names that stand for a parameter.
-/

namespace SqlPaging

/-! ## Distinct names -/

theorem Binds.names_append (bs cs : Binds) : (bs ++ cs).names = bs.names ++ cs.names :=
  List.map_append

/-- Binds of numbered names, of which the first one has the given number. -/
def numberedBinds (name : String) (index : Nat) : List BindValue → Binds
  | [] => []
  | b :: bs => { name := expandedName name index, value := b } :: numberedBinds name (index + 1) bs

theorem names_numberedBinds (name : String) (index : Nat) (bounds : List BindValue) :
    (numberedBinds name index bounds).names =
      (List.range' index bounds.length).map (expandedName name) := by
  induction bounds generalizing index with
  | nil => rfl
  | cons b bs ih =>
    rw [List.length_cons, List.range'_succ, List.map_cons, ← ih]
    rfl

theorem nodup_numberedBinds (name : String) (index : Nat) (bounds : List BindValue) :
    (numberedBinds name index bounds).names.Nodup := by
  rw [names_numberedBinds]
  exact List.Nodup.map (fun _ _ h => expandedName_injective name h) List.nodup_range'

/-! ## The binds of a parameter -/

/-- What a parameter is bound to: a scalar under its name, the elements of a collection under
numbered names. -/
inductive ParamBinds (d : Dialect) (name : String) (v : Value) : Binds → Prop
  | scalar {b : BindValue} (h : normalizeScalar d v = .ok b) : ParamBinds d name v [⟨name, b⟩]
  | collection {resolved : Value} {vs : List Value} {bounds : List BindValue}
      (hv : v.resolve = .ok resolved) (hvs : resolved.elements? = some vs)
      (h : vs.map (normalizeScalar d) = bounds.map .ok) :
      ParamBinds d name v (numberedBinds name 0 bounds)

/-- A value is bound just if it resolves to a scalar that can be. -/
theorem normalizeScalar_eq_ok_iff {d : Dialect} {v : Value} {b : BindValue} :
    normalizeScalar d v = .ok b ↔
      ∃ resolved, v.resolve = .ok resolved ∧ resolved.isCollection = false ∧
        bindScalar d resolved = .ok b := by
  simp only [normalizeScalar, Value.resolveScalar, bind_eq_ok, mapError_eq_ok]
  constructor
  · rintro ⟨r, ⟨w, hw, hr⟩, hb⟩
    split at hr
    · cases hr
    · -- what is bound is no collection, or it would have been refused
      next hscalar =>
      obtain rfl := Except.ok.inj hr
      exact ⟨w, hw, by simpa using hscalar, hb⟩
  · rintro ⟨w, hw, hscalar, hb⟩
    exact ⟨w, ⟨w, hw, by rw [hscalar]; rfl⟩, hb⟩

theorem Value.isCollection_of_elements? {v : Value} {vs : List Value}
    (h : v.elements? = some vs) : v.isCollection = true := by
  cases v with
  | array items => rfl
  | map fields => rfl
  | _ => cases h

namespace ParamBinds

variable {d : Dialect} {name : String} {v resolved : Value} {bs : Binds}

/-- The names of the binds of a collection are those of its elements. -/
theorem names_of_collection (h : ParamBinds d name v bs) (hv : v.resolve = .ok resolved)
    {vs : List Value} (hvs : resolved.elements? = some vs) :
    bs.names = elementNames name vs.length := by
  cases h with
  | scalar hb =>
    obtain ⟨w, hw, hscalar, -⟩ := normalizeScalar_eq_ok_iff.mp hb
    obtain rfl := Except.ok.inj (hv.symm.trans hw)
    -- a collection is not bound as a scalar
    rw [Value.isCollection_of_elements? hvs] at hscalar
    cases hscalar
  | collection hv' hvs' hbounds =>
    obtain rfl := Except.ok.inj (hv.symm.trans hv')
    obtain rfl := Option.some.inj (hvs.symm.trans hvs')
    have hlength := congrArg List.length hbounds
    rw [List.length_map, List.length_map] at hlength
    rw [names_numberedBinds, elementNames, hlength, List.range_eq_range']

/-- What is no collection is bound to its name. -/
theorem names_of_scalar (h : ParamBinds d name v bs)
    (hv : ∀ resolved, v.resolve = .ok resolved → resolved.elements? = none) :
    bs.names = [name] := by
  cases h with
  | scalar hb => rfl
  | collection hv' hvs' hbounds =>
    rw [hv _ hv'] at hvs'
    cases hvs'

end ParamBinds

/-! ## Normalization -/

namespace Normalized

variable {d : Dialect} {n n' : Normalized} {name : String}

/-- Binds are added behind those that are there, and no name is bound twice. -/
def Adds (n n' : Normalized) (bs : Binds) : Prop :=
  n'.binds = n.binds ++ bs ∧ (n.binds.names.Nodup → n'.binds.names.Nodup)

theorem Adds.refl (n : Normalized) : Adds n n [] := ⟨(List.append_nil _).symm, id⟩

/-- What is added in two steps is added one after the other. -/
theorem Adds.trans {m : Normalized} {bs cs : Binds} (h : Adds n m bs) (h' : Adds m n' cs) :
    Adds n n' (bs ++ cs) :=
  ⟨by rw [h'.1, h.1, List.append_assoc], fun hn => h'.2 (h.2 hn)⟩

theorem adds_of_push {b : BindValue} (h : n.push name b = .ok n') : Adds n n' [⟨name, b⟩] := by
  unfold push at h
  split at h
  · cases h
  · next hnew =>
    cases h
    refine ⟨rfl, fun hn => ?_⟩
    dsimp only
    rw [Binds.names_append]
    refine List.nodup_append.mpr ⟨hn, by simp [Binds.names], ?_⟩
    rintro a ha b hb rfl
    rw [List.mem_singleton.mp hb] at ha
    -- a name that was taken is refused
    exact hnew (List.contains_iff_mem.mpr ha)

theorem adds_of_pushElement {v : Value} (h : n.pushElement d name v = .ok n') :
    ∃ b, normalizeScalar d v = .ok b ∧ Adds n n' [⟨name, b⟩] := by
  obtain ⟨element, helement, h⟩ := bind_eq_ok.mp h
  rw [mapError_eq_ok, mapError_eq_ok] at helement
  split at h
  · cases h
  · -- an element that is a collection is refused
    next hscalar =>
    obtain ⟨b, hb, hpush⟩ := bind_eq_ok.mp h
    rw [mapError_eq_ok] at hb
    refine ⟨b, normalizeScalar_eq_ok_iff.mpr ⟨element, helement, ?_, hb⟩, adds_of_push hpush⟩
    simpa using hscalar

theorem adds_of_pushElements {index : Nat} {vs : List Value}
    (h : pushElements d name index n vs = .ok n') :
    ∃ bounds, vs.map (normalizeScalar d) = bounds.map .ok ∧
      Adds n n' (numberedBinds name index bounds) := by
  induction vs generalizing index n with
  | nil =>
    cases h
    exact ⟨[], rfl, Adds.refl _⟩
  | cons v vs ih =>
    obtain ⟨m, hm, hrest⟩ := bind_eq_ok.mp h
    obtain ⟨b, hb, hfirst⟩ := adds_of_pushElement hm
    -- the first element has its number, and the others the following ones
    obtain ⟨bounds, hbounds, hmore⟩ := ih hrest
    refine ⟨b :: bounds, ?_, hfirst.trans hmore⟩
    rw [List.map_cons, List.map_cons, hb, hbounds]

/-- A collection adds the binds of its elements. -/
theorem pushCollection_binds {v resolved : Value} {vs : List Value}
    (hv : v.resolve = .ok resolved) (hvs : resolved.elements? = some vs)
    (h : n.pushCollection d name vs = .ok n') :
    ∃ bs, ParamBinds d name v bs ∧ Adds n n' bs := by
  obtain ⟨m, hm, h⟩ := bind_eq_ok.mp h
  obtain ⟨bounds, hbounds, hadds⟩ := adds_of_pushElements hm
  cases h
  exact ⟨_, .collection hv hvs hbounds, hadds⟩

/-- A parameter adds its binds. -/
theorem pushParam_binds {v : Value} (h : n.pushParam d name v = .ok n') :
    ∃ bs, ParamBinds d name v bs ∧ Adds n n' bs := by
  unfold pushParam at h
  split at h
  · cases h
  · obtain ⟨resolved, hresolved, h⟩ := bind_eq_ok.mp h
    rw [mapError_eq_ok, mapError_eq_ok] at hresolved
    split at h
    · exact pushCollection_binds hresolved rfl h
    · exact pushCollection_binds hresolved rfl h
    · next hitems hfields =>
      obtain ⟨b, hb, hpush⟩ := bind_eq_ok.mp h
      rw [mapError_eq_ok] at hb
      -- arrays and maps are taken by the cases before
      have hscalar : resolved.isCollection = false := by
        cases resolved with
        | array items => exact absurd rfl (hitems items)
        | map fields => exact absurd rfl (hfields fields)
        | _ => rfl
      exact ⟨_, .scalar (normalizeScalar_eq_ok_iff.mpr ⟨resolved, hresolved, hscalar, hb⟩),
        adds_of_push hpush⟩

/-- What is remembered stays so. -/
theorem get?_expansions_of_pushParam {v : Value} {other : String}
    (h : n.pushParam d name v = .ok n') (hother : n.expansions.get? other ≠ none) :
    n'.expansions.get? other ≠ none := by
  obtain ⟨resolved, -, hexpansions⟩ := pushParam_expansions h
  rw [hexpansions]
  split
  · by_cases hname : other = name
    · subst hname
      simp
    · rwa [Fields.get?_set_of_ne _ _ hname]
  · exact hother

end Normalized

variable {d : Dialect} {ps : Params} {n : Normalized}

/-- The binds of parameters are those of each of them in order, and their names are distinct. -/
theorem binds_of_normalize (h : normalize d ps = .ok n) :
    ∃ bss : List Binds, List.Forall₂ (fun p bs => ParamBinds d p.1 p.2 bs) ps bss ∧
      n.binds = bss.flatten ∧ n.binds.names.Nodup := by
  -- along the parameters, the binds are added to those that are there
  have hfold : ∀ (ps : Params) (m : Normalized),
      ps.foldlM (fun n p => n.pushParam d p.1 p.2) m = .ok n →
        ∃ bss : List Binds, List.Forall₂ (fun p bs => ParamBinds d p.1 p.2 bs) ps bss ∧
          m.Adds n bss.flatten := by
    intro ps
    induction ps with
    | nil =>
      intro m hm
      cases hm
      exact ⟨[], .nil, Normalized.Adds.refl _⟩
    | cons p ps ih =>
      intro m hm
      rw [List.foldlM_cons] at hm
      obtain ⟨m', hpush, hrest⟩ := bind_eq_ok.mp hm
      obtain ⟨bs, hbs, hfirst⟩ := Normalized.pushParam_binds hpush
      obtain ⟨bss, hbss, hmore⟩ := ih m' hrest
      exact ⟨bs :: bss, .cons hbs hbss, hfirst.trans hmore⟩
  -- at first there are no binds, so no name is repeated
  obtain ⟨bss, hbss, hbinds, hnodup⟩ := hfold ps .empty h
  exact ⟨bss, hbss, hbinds, hnodup .nil⟩

/-- Each parameter has binds, one after the other. -/
theorem exists_binds_of_mem (h : normalize d ps = .ok n) {p : String × Value} (hp : p ∈ ps) :
    ∃ bs, ParamBinds d p.1 p.2 bs ∧ bs <:+: n.binds := by
  obtain ⟨bss, hbss, hbinds, -⟩ := binds_of_normalize h
  rw [hbinds]
  clear h hbinds
  induction hbss with
  | nil => cases hp
  | @cons q bs ps bss hq hbss ih =>
    -- the binds of each parameter stand together
    rcases List.mem_cons.mp hp with rfl | hp
    · exact ⟨bs, hq, [], bss.flatten, rfl⟩
    · obtain ⟨cs, hcs, hwithin⟩ := ih hp
      exact ⟨cs, hcs, hwithin.trans (List.suffix_append bs bss.flatten).isInfix⟩

/-- A collection is remembered. -/
theorem get?_expansions_of_collection (h : normalize d ps = .ok n) {p : String × Value}
    (hp : p ∈ ps) {resolved : Value} {vs : List Value} (hv : p.2.resolve = .ok resolved)
    (hvs : resolved.elements? = some vs) : n.expansions.get? p.1 ≠ none := by
  -- the parameter remembers it, and those behind it forget nothing
  obtain ⟨before, after, rfl⟩ := List.append_of_mem hp
  rw [normalize, List.foldlM_append] at h
  obtain ⟨m, -, hrun⟩ := bind_eq_ok.mp h
  rw [List.foldlM_cons] at hrun
  obtain ⟨m', hpush, hrest⟩ := bind_eq_ok.mp hrun
  obtain ⟨resolved', hresolved, hexpansions⟩ := Normalized.pushParam_expansions hpush
  obtain rfl := Except.ok.inj (hv.symm.trans hresolved)
  rw [hvs] at hexpansions
  refine foldlM_induction (P := fun m => m.expansions.get? p.1 ≠ none) hrest ?_
    fun _ _ _ _ hkept hpush => Normalized.get?_expansions_of_pushParam hpush hkept
  rw [hexpansions]
  simp

/-- The names that stand for a parameter are those of its binds. -/
theorem slots_of_normalize (h : normalize d ps = .ok n) {name : String}
    (hname : name ∈ Fields.keys ps) :
    ∃ v bs, (name, v) ∈ ps ∧ ParamBinds d name v bs ∧ bs <:+: n.binds ∧
      (n.expansions.get? name).getD [name] = bs.names := by
  cases hget : n.expansions.get? name with
  | some names =>
    obtain ⟨p, hp, resolved, vs, rfl, hv, hvs, rfl⟩ := expansions_of_normalize h hget
    obtain ⟨bs, hbs, hwithin⟩ := exists_binds_of_mem h hp
    exact ⟨p.2, bs, hp, hbs, hwithin, (hbs.names_of_collection hv hvs).symm⟩
  | none =>
    obtain ⟨p, hp, rfl⟩ := List.mem_map.mp hname
    obtain ⟨bs, hbs, hwithin⟩ := exists_binds_of_mem h hp
    refine ⟨p.2, bs, hp, hbs, hwithin, (hbs.names_of_scalar fun resolved hv => ?_).symm⟩
    -- a collection would have been remembered
    cases hvs : resolved.elements? with
    | none => rfl
    | some vs => exact absurd hget (get?_expansions_of_collection h hp hv hvs)

end SqlPaging
