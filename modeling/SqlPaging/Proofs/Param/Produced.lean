import SqlPaging.Proofs.Param.Binds

/-!
# SqlPaging — parameters that can be normalized

A parameter produces a scalar under its own name, or the elements of a collection under numbered
names. Parameters are normalized just if their names are valid, what they produce can be bound,
and all names that are produced differ. Each of these names then has one bind, in order, and the
collections are remembered with theirs.

Main results:

* `exists_normalize_iff` — parameters are normalized if each of them has binds, under new names.
* `expansions_eq` — what is remembered of parameters.
* `normalize_exact` — when parameters are normalized, and what they become.
-/

namespace SqlPaging

/-! ## Steps that succeed -/

namespace Normalized

variable {d : Dialect} {n : Normalized} {name : String}

theorem push_of_new (b : BindValue) (h : name ∉ n.binds.names) :
    n.push name b = .ok { n with binds := n.binds ++ [⟨name, b⟩] } := by
  rw [push, if_neg (by simpa using h)]

/-- An element that can be bound is taken under a new name. -/
theorem pushElement_of_new {v : Value} {b : BindValue} (hb : normalizeScalar d v = .ok b)
    (h : name ∉ n.binds.names) :
    n.pushElement d name v = .ok { n with binds := n.binds ++ [⟨name, b⟩] } := by
  obtain ⟨element, helement, hscalar, hbound⟩ := normalizeScalar_eq_ok_iff.mp hb
  refine bind_eq_ok.mpr ⟨element, by rwa [mapError_eq_ok, mapError_eq_ok], ?_⟩
  rw [if_neg (by simp [hscalar])]
  exact bind_eq_ok.mpr ⟨b, by rwa [mapError_eq_ok], push_of_new b h⟩

/-- A name behind those that are there is new if no two of them are the same. -/
theorem not_mem_names_of_nodup {bs cs : Binds} {c : Bind} (h : (bs ++ c :: cs).names.Nodup) :
    c.name ∉ bs.names := by
  rw [Binds.names_append] at h
  exact fun hmem => (List.nodup_append.mp h).2.2 c.name hmem c.name List.mem_cons_self rfl

/-- Elements that can be bound are taken if all their names are new. -/
theorem pushElements_of_new {index : Nat} {vs : List Value} {bounds : List BindValue}
    (hbounds : vs.map (normalizeScalar d) = bounds.map .ok)
    (h : (n.binds ++ numberedBinds name index bounds).names.Nodup) :
    pushElements d name index n vs =
      .ok { n with binds := n.binds ++ numberedBinds name index bounds } := by
  -- on the elements: the names of those before are taken when one is bound
  induction vs generalizing index n bounds with
  | nil =>
    obtain rfl := List.map_eq_nil_iff.mp hbounds.symm
    rw [numberedBinds, List.append_nil]
    rfl
  | cons v vs ih =>
    cases bounds with
    | nil => cases hbounds
    | cons b bounds =>
      obtain ⟨hb, hbounds⟩ := List.cons.inj hbounds
      rw [numberedBinds] at h ⊢
      -- the first name is new, and so are the others behind it
      refine bind_eq_ok.mpr ⟨_, pushElement_of_new hb (not_mem_names_of_nodup h), ?_⟩
      rw [ih hbounds (by simpa using h), List.append_assoc]
      rfl

/-- A parameter with binds under new names is normalized to them. -/
theorem pushParam_of_new {v : Value} {bs : Binds} (hname : isParamName name = true)
    (hbs : ParamBinds d name v bs) (h : (n.binds ++ bs).names.Nodup) :
    ∃ n', n.pushParam d name v = .ok n' ∧ n'.binds = n.binds ++ bs := by
  rw [pushParam, hname]
  cases hbs with
  -- a scalar makes one bind under its own name, a collection one for each element
  | @scalar b hb =>
    obtain ⟨resolved, hresolved, hscalar, hbound⟩ := normalizeScalar_eq_ok_iff.mp hb
    have hpush := push_of_new b (not_mem_names_of_nodup h)
    refine ⟨{ n with binds := n.binds ++ [⟨name, b⟩] },
      bind_eq_ok.mpr ⟨resolved, by rwa [mapError_eq_ok, mapError_eq_ok], ?_⟩, rfl⟩
    -- collections are turned away here, and the other values are all pushed alike
    cases resolved with
    | array items => cases hscalar
    | map fields => cases hscalar
    | _ => exact bind_eq_ok.mpr ⟨b, by rwa [mapError_eq_ok], hpush⟩
  | @collection resolved vs bounds hv hvs hbounds =>
    obtain ⟨n', hpush, hbinds⟩ : ∃ n', n.pushCollection d name vs = .ok n' ∧
        n'.binds = n.binds ++ numberedBinds name 0 bounds :=
      ⟨_, bind_eq_ok.mpr ⟨_, pushElements_of_new hbounds h, rfl⟩, rfl⟩
    refine ⟨n', bind_eq_ok.mpr ⟨resolved, by rwa [mapError_eq_ok, mapError_eq_ok], ?_⟩, hbinds⟩
    cases resolved with
    | array items =>
      obtain rfl := Option.some.inj hvs
      exact hpush
    | map fields =>
      obtain rfl := Option.some.inj hvs
      exact hpush
    | _ => cases hvs

/-- A parameter that is taken has a name that placeholders can have. -/
theorem isParamName_of_pushParam {v : Value} {n' : Normalized}
    (h : n.pushParam d name v = .ok n') : isParamName name = true := by
  rw [pushParam] at h
  split at h
  · cases h
  · next hname => simpa using hname

end Normalized

/-! ## Parameters one after the other -/

variable {d : Dialect} {ps : Params} {n : Normalized}

/-- Parameters are normalized just if they have valid names, and binds under names that differ. -/
theorem exists_normalize_iff :
    (∃ n, normalize d ps = .ok n) ↔ (∀ p ∈ ps, isParamName p.1 = true) ∧
      ∃ bss : List Binds, List.Forall₂ (fun p bs => ParamBinds d p.1 p.2 bs) ps bss ∧
        (Binds.names bss.flatten).Nodup := by
  constructor
  · rintro ⟨n, h⟩
    refine ⟨fun p hp => ?_, ?_⟩
    · obtain ⟨m, m', hpush⟩ := exists_step_of_foldlM h hp
      exact Normalized.isParamName_of_pushParam hpush
    · obtain ⟨bss, hbss, hbinds, hnodup⟩ := binds_of_normalize h
      exact ⟨bss, hbss, hbinds ▸ hnodup⟩
  · rintro ⟨hnames, bss, hbss, hnodup⟩
    -- along the parameters, the binds that are left have new names
    suffices ∀ m : Normalized, (m.binds ++ bss.flatten).names.Nodup →
        ∃ n, ps.foldlM (fun n p => n.pushParam d p.1 p.2) m = .ok n from this .empty hnodup
    clear hnodup
    induction hbss with
    | nil => exact fun m _ => ⟨m, rfl⟩
    | @cons p bs ps bss hp _ ih =>
      intro m hm
      obtain ⟨hname, hnames⟩ := List.forall_mem_cons.mp hnames
      rw [List.flatten_cons, ← List.append_assoc] at hm
      -- the binds of this parameter are the next ones, so that they are new too
      have hfirst : (m.binds ++ bs).names.Nodup := by
        rw [Binds.names_append] at hm
        exact hm.of_append_left
      obtain ⟨m', hpush, hbinds⟩ := Normalized.pushParam_of_new hname hp hfirst
      obtain ⟨n, hn⟩ := ih hnames m' (hbinds ▸ hm)
      exact ⟨n, bind_eq_ok.mpr ⟨m', hpush, hn⟩⟩

/-! ## What parameters produce -/

/-- The scalars that a parameter produces, with the names of their binds: its own value, or the
elements of a collection in order. -/
def produced (p : String × Value) : List (String × Value) :=
  match p.2.collection? with
  | some vs => vs.zipIdx.map fun e => (expandedName p.1 e.2, e.1)
  | none => [p]

/-- The type of the binds of a kind of scalar. -/
def Kind.bindType? : Kind → Option BindType
  | .null => some .null
  | .bool => some .bool
  | .int => some .int
  | .bytes => some .lob
  | .float | .string | .dateTime | .date => some .str
  | .array | .map | .backed => none

/-- A bind is that of a scalar under a name. -/
structure Binding (d : Dialect) (q : String × Value) (b : Bind) : Prop where
  name : b.name = q.1
  value : normalizeScalar d q.2 = .ok b.value
  type : ∃ resolved, q.2.resolve = .ok resolved ∧ resolved.kind.bindType? = some b.type

/-- A value is bound under its name to what it is normalized to. -/
theorem Binding.of_normalizeScalar {v : Value} {b : BindValue} (name : String)
    (h : normalizeScalar d v = .ok b) : Binding d (name, v) ⟨name, b⟩ := by
  refine ⟨rfl, h, ?_⟩
  obtain ⟨resolved, hresolved, -, hbound⟩ := normalizeScalar_eq_ok_iff.mp h
  refine ⟨resolved, hresolved, ?_⟩
  -- a double may be refused, and collections are; all else is bound as it is
  cases resolved with
  | float x =>
    rw [bindScalar] at hbound
    split at hbound
    · cases hbound
      rfl
    · cases hbound
  | array | map | backed => cases hbound
  | _ =>
    cases hbound
    rfl

/-- The elements of a collection have numbered binds. -/
theorem forall₂_numberedBinds_iff {name : String} {index : Nat} {vs : List Value} {bs : Binds} :
    List.Forall₂ (Binding d) ((vs.zipIdx index).map fun e => (expandedName name e.2, e.1)) bs ↔
      ∃ bounds, vs.map (normalizeScalar d) = bounds.map .ok ∧
        bs = numberedBinds name index bounds := by
  -- on the elements, whose numbers go on from the index
  induction vs generalizing index bs with
  | nil =>
    rw [List.zipIdx_nil, List.map_nil, List.forall₂_nil_left_iff]
    constructor
    · rintro rfl
      exact ⟨[], rfl, rfl⟩
    · rintro ⟨bounds, hbounds, rfl⟩
      rw [List.map_eq_nil_iff.mp hbounds.symm, numberedBinds]
  | cons v vs ih =>
    rw [List.zipIdx_cons, List.map_cons, List.forall₂_cons_left_iff]
    constructor
    · rintro ⟨⟨name', b⟩, bs, ⟨rfl, hb, -⟩, hbs, rfl⟩
      -- the next element has the next number, as the next bind has
      obtain ⟨bounds, hbounds, rfl⟩ := ih.mp hbs
      exact ⟨b :: bounds, by rw [List.map_cons, List.map_cons, hb, hbounds], rfl⟩
    · rintro ⟨bounds, hbounds, rfl⟩
      cases bounds with
      | nil => cases hbounds
      | cons b bounds =>
        obtain ⟨hb, hbounds⟩ := List.cons.inj hbounds
        exact ⟨_, _, .of_normalizeScalar _ hb, ih.mpr ⟨bounds, hbounds, rfl⟩, rfl⟩

/-- The binds of a parameter are those of what it produces. -/
theorem paramBinds_iff {p : String × Value} {bs : Binds} :
    ParamBinds d p.1 p.2 bs ↔ List.Forall₂ (Binding d) (produced p) bs := by
  obtain ⟨name, v⟩ := p
  rw [produced]
  constructor
  · rintro (hb | ⟨hv, hvs, hbounds⟩)
    · obtain ⟨resolved, hresolved, hscalar, -⟩ := normalizeScalar_eq_ok_iff.mp hb
      -- a value with a scalar bind is no collection, so that it is produced as it is
      have hnone : v.collection? = none := by
        rw [Value.collection?, hresolved]
        exact Value.elements?_eq_none.mpr hscalar
      rw [hnone]
      exact .cons (.of_normalizeScalar _ hb) .nil
    · rw [Value.collection?_eq_some.mpr ⟨_, hv, hvs⟩]
      exact forall₂_numberedBinds_iff.mpr ⟨_, hbounds, rfl⟩
  · split
    · next vs hvs =>
      intro h
      obtain ⟨bounds, hbounds, rfl⟩ := forall₂_numberedBinds_iff.mp h
      obtain ⟨resolved, hv, hvs⟩ := Value.collection?_eq_some.mp hvs
      exact .collection hv hvs hbounds
    · -- what is no collection produces one bind, which is its own
      rintro (_ | ⟨⟨rfl, hb, -⟩, ⟨⟩⟩)
      exact .scalar hb

/-- The binds of what is produced have its names. -/
theorem names_of_forall₂_binding {qs : List (String × Value)} {bs : Binds}
    (h : List.Forall₂ (Binding d) qs bs) : bs.names = qs.map (·.1) := by
  induction h with
  | nil => rfl
  | cons hb _ ih => rw [Binds.names, List.map_cons, List.map_cons, ← ih, hb.name]; rfl

/-! ## What is remembered -/

/-- What is remembered of a parameter: a collection, with the names that it produces. -/
def remembered? (p : String × Value) : Option (String × List String) :=
  p.2.collection?.map fun _ => (p.1, (produced p).map (·.1))

/-- A collection produces the names of its elements. -/
theorem names_produced {p : String × Value} {vs : List Value} (h : p.2.collection? = some vs) :
    (produced p).map (·.1) = elementNames p.1 vs.length := by
  rw [produced, h, elementNames, List.range_eq_range', ← List.zipIdx_map_snd 0 vs, List.map_map,
    List.map_map]
  rfl

/-- What is remembered of a parameter goes to the fields that are there. -/
theorem Normalized.expansions_of_pushParam {n' : Normalized} {p : String × Value}
    (h : n.pushParam d p.1 p.2 = .ok n') :
    n'.expansions = (remembered? p).elim n.expansions fun e => n.expansions.set e.1 e.2 := by
  obtain ⟨resolved, hresolved, hexpansions⟩ := pushParam_expansions h
  -- only a collection is remembered
  cases hvs : resolved.elements? with
  | none =>
    have hnone : p.2.collection? = none := by
      rw [Value.collection?, hresolved]
      exact hvs
    rw [hexpansions, hvs, remembered?, hnone]
    rfl
  | some vs =>
    have hsome : p.2.collection? = some vs := Value.collection?_eq_some.mpr ⟨_, hresolved, hvs⟩
    rw [hexpansions, hvs, remembered?, hsome, names_produced hsome]
    rfl

/-- The collections are remembered, one after the other. -/
theorem expansions_eq (h : normalize d ps = .ok n) :
    n.expansions = Fields.ofPairs (ps.filterMap remembered?) := by
  suffices ∀ m : Normalized, ps.foldlM (fun n p => n.pushParam d p.1 p.2) m = .ok n →
      n.expansions =
        (ps.filterMap remembered?).foldl (fun x e => Fields.set x e.1 e.2) m.expansions from
    this .empty h
  clear h
  -- on the parameters, for any fields that are there before
  induction ps with
  | nil =>
    intro m hm
    cases hm
    rfl
  | cons p ps ih =>
    intro m hm
    obtain ⟨m', hpush, hrest⟩ := bind_eq_ok.mp hm
    rw [ih m' hrest, Normalized.expansions_of_pushParam hpush]
    -- a parameter adds one entry at most
    cases hp : remembered? p with
    | none => rw [List.filterMap_cons_none hp, Option.elim_none]
    | some e => rw [List.filterMap_cons_some hp, List.foldl_cons, Option.elim_some]

/-- Of parameters with different names, each collection is remembered in its place. -/
theorem ofPairs_remembered (h : Fields.Distinct ps) :
    Fields.ofPairs (ps.filterMap remembered?) = ps.filterMap remembered? := by
  refine Fields.ofPairs_eq_self (List.Nodup.sublist ?_ h)
  -- the remembered names are some of the distinct ones, in their order
  clear h
  induction ps with
  | nil => exact .slnil
  | cons p ps ih =>
    cases hp : remembered? p with
    | none =>
      rw [List.filterMap_cons_none hp]
      exact ih.cons p.1
    | some e =>
      obtain ⟨vs, -, rfl⟩ := Option.map_eq_some_iff.mp hp
      rw [List.filterMap_cons_some hp]
      exact ih.cons_cons p.1

/-! ## Parameters that can be normalized -/

/-- Parameters can be normalized: names are valid, values stand for something, no collection is
within another one, no double is infinite or no number, and no name is produced twice. -/
structure Params.Admissible (ps : Params) : Prop where
  named : ∀ p ∈ ps, isParamName p.1 = true
  resolved : ∀ p ∈ ps, ∃ resolved, p.2.resolve = .ok resolved
  flat : ∀ p ∈ ps, ∀ vs, p.2.collection? = some vs →
    ∀ v ∈ vs, ∃ resolved, v.resolve = .ok resolved ∧ resolved.isCollection = false
  finite : ∀ q ∈ ps.flatMap produced, ∀ x, q.2.resolve = .ok (.float x) → x.isFinite = true
  distinct : ((ps.flatMap produced).map (·.1)).Nodup

/-- A scalar is bound unless it is a double that is not finite. -/
theorem exists_normalizeScalar_iff {v : Value} :
    (∃ b, normalizeScalar d v = .ok b) ↔
      (∃ resolved, v.resolve = .ok resolved ∧ resolved.isCollection = false) ∧
        ∀ x, v.resolve = .ok (.float x) → x.isFinite = true := by
  constructor
  · rintro ⟨b, hb⟩
    obtain ⟨resolved, hresolved, hscalar, hbound⟩ := normalizeScalar_eq_ok_iff.mp hb
    refine ⟨⟨resolved, hresolved, hscalar⟩, fun x hx => ?_⟩
    obtain rfl := Except.ok.inj (hresolved.symm.trans hx)
    -- a double that is bound is finite
    rw [bindScalar] at hbound
    split at hbound
    · assumption
    · cases hbound
  · rintro ⟨⟨resolved, hresolved, hscalar⟩, hfinite⟩
    suffices ∃ b, bindScalar d resolved = .ok b from
      this.imp fun b hb => normalizeScalar_eq_ok_iff.mpr ⟨resolved, hresolved, hscalar, hb⟩
    have hbacked := Value.not_backed_of_unwrap hresolved
    -- of the scalars, only a double can be refused
    cases resolved with
    | float x => exact ⟨_, if_pos (hfinite x hresolved)⟩
    | array | map => cases hscalar
    | backed inner => cases hbacked
    | _ => exact ⟨_, rfl⟩

/-- Items that are each related to something are so one after the other. -/
theorem exists_forall₂_iff {α β : Type} {R : α → β → Prop} {l : List α} :
    (∃ bs, List.Forall₂ R l bs) ↔ ∀ a ∈ l, ∃ b, R a b := by
  induction l with
  | nil => simp
  | cons a l ih =>
    rw [List.forall_mem_cons, ← ih]
    constructor
    · rintro ⟨_, _ | ⟨hb, hbs⟩⟩
      exact ⟨⟨_, hb⟩, _, hbs⟩
    · rintro ⟨⟨b, hb⟩, bs, hbs⟩
      exact ⟨b :: bs, .cons hb hbs⟩

/-- A value has a binding just if it can be normalized. -/
theorem exists_binding_iff {q : String × Value} :
    (∃ b, Binding d q b) ↔ ∃ b, normalizeScalar d q.2 = .ok b :=
  ⟨fun ⟨b, hb⟩ => ⟨b.value, hb.value⟩, fun ⟨_, hb⟩ => ⟨_, .of_normalizeScalar q.1 hb⟩⟩

/-- The binds of parameters are those of what they produce. -/
theorem forall₂_flatMap_produced {bss : List Binds}
    (h : List.Forall₂ (fun p bs => ParamBinds d p.1 p.2 bs) ps bss) :
    List.Forall₂ (Binding d) (ps.flatMap produced) bss.flatten := by
  induction h with
  | nil => exact .nil
  | cons hp _ ih => exact List.rel_append (paramBinds_iff.mp hp) ih

/-- What a parameter produces are scalars if its value is one, or a collection of scalars. -/
theorem forall_produced_iff {p : String × Value} :
    (∀ q ∈ produced p, ∃ resolved, q.2.resolve = .ok resolved ∧ resolved.isCollection = false) ↔
      (∃ resolved, p.2.resolve = .ok resolved) ∧ ∀ vs, p.2.collection? = some vs →
        ∀ v ∈ vs, ∃ resolved, v.resolve = .ok resolved ∧ resolved.isCollection = false := by
  cases hp : p.2.collection? with
  | some vs =>
    obtain ⟨resolved, hresolved, -⟩ := Value.collection?_eq_some.mp hp
    -- a collection has the values of its elements
    have hvalues : (produced p).map (·.2) = vs := by
      rw [produced, hp, List.map_map]
      exact List.zipIdx_map_fst 0 vs
    rw [and_iff_right ⟨resolved, hresolved⟩]
    simp only [Option.some.injEq, forall_eq', ← hvalues, List.forall_mem_map]
  | none =>
    simp only [produced, hp, List.forall_mem_singleton, reduceCtorEq, false_implies, implies_true,
      and_true]
    refine exists_congr fun resolved => and_iff_left_of_imp fun hresolved => ?_
    rw [← Value.elements?_eq_none]
    rwa [Value.collection?, hresolved] at hp

/-- Parameters are normalized just if they are admissible. -/
theorem exists_normalize_iff_admissible : (∃ n, normalize d ps = .ok n) ↔ ps.Admissible := by
  -- a parameter has binds if each value that it produces resolves to a finite scalar
  have hbinds : ∀ p : String × Value, (∃ bs, ParamBinds d p.1 p.2 bs) ↔
      (∀ q ∈ produced p,
        ∃ resolved, q.2.resolve = .ok resolved ∧ resolved.isCollection = false) ∧
      ∀ q ∈ produced p, ∀ x, q.2.resolve = .ok (.float x) → x.isFinite = true := by
    intro p
    simp only [paramBinds_iff, exists_forall₂_iff, exists_binding_iff, exists_normalizeScalar_iff,
      forall_and]
  rw [exists_normalize_iff]
  constructor
  · rintro ⟨hnamed, bss, hbss, hnodup⟩
    have hall := exists_forall₂_iff.mp ⟨bss, hbss⟩
    refine ⟨hnamed, fun p hp => ?_, fun p hp => ?_, fun q hq => ?_, ?_⟩
    · exact (forall_produced_iff.mp ((hbinds p).mp (hall p hp)).1).1
    · exact (forall_produced_iff.mp ((hbinds p).mp (hall p hp)).1).2
    · obtain ⟨p, hp, hq⟩ := List.mem_flatMap.mp hq
      exact ((hbinds p).mp (hall p hp)).2 q hq
    · rwa [← names_of_forall₂_binding (forall₂_flatMap_produced hbss)]
  · -- the names are those of the values, which do not depend on the binds that are chosen
    intro h
    have hall : ∀ p ∈ ps, ∃ bs, ParamBinds d p.1 p.2 bs := fun p hp =>
      (hbinds p).mpr ⟨forall_produced_iff.mpr ⟨h.resolved p hp, h.flat p hp⟩,
        fun q hq => h.finite q (List.mem_flatMap.mpr ⟨p, hp, hq⟩)⟩
    obtain ⟨bss, hbss⟩ := exists_forall₂_iff.mpr hall
    refine ⟨h.named, bss, hbss, ?_⟩
    rw [names_of_forall₂_binding (forall₂_flatMap_produced hbss)]
    exact h.distinct

/-- Parameters are normalized just if they are admissible. Then each scalar that they produce has
one bind, in order, and the collections are remembered with the names that they produce. -/
theorem normalize_exact (h : Fields.Distinct ps) :
    ((∃ n, normalize d ps = .ok n) ↔ ps.Admissible) ∧
      ∀ n, normalize d ps = .ok n →
        List.Forall₂ (Binding d) (ps.flatMap produced) n.binds ∧
          n.expansions = ps.filterMap remembered? := by
  refine ⟨exists_normalize_iff_admissible, fun n hn => ⟨?_, ?_⟩⟩
  · obtain ⟨bss, hbss, hbinds, -⟩ := binds_of_normalize hn
    rw [hbinds]
    exact forall₂_flatMap_produced hbss
  · rw [expansions_eq hn, ofPairs_remembered h]

/-- A list, a collection of nothing, and a scalar whose name is close to those of the list. -/
def listed : Params :=
  [("ids", .array [.int 7, .backed (.string "a")]), ("none", .map []), ("ids__2", .null)]

theorem normalize_exact_of_list :
    Fields.Distinct listed ∧ Params.Admissible listed ∧ ∃ n, normalize .sqlite listed = .ok n ∧
      (n.binds = [⟨"ids__0", .int 7⟩, ⟨"ids__1", .str "a"⟩, ⟨"ids__2", .null⟩] ∧
        n.expansions = [("ids", ["ids__0", "ids__1"]), ("none", [])]) ∧
      List.Forall₂ (Binding .sqlite) (listed.flatMap produced) n.binds ∧
      n.expansions = listed.filterMap remembered? := by
  have hdistinct : Fields.Distinct listed := by
    rw [Fields.Distinct]
    decide
  obtain ⟨n, hn, hbinds⟩ : ∃ n, normalize .sqlite listed = .ok n ∧
      (n.binds = [⟨"ids__0", .int 7⟩, ⟨"ids__1", .str "a"⟩, ⟨"ids__2", .null⟩] ∧
        n.expansions = [("ids", ["ids__0", "ids__1"]), ("none", [])]) :=
    exists_eq_ok_of_any (by decide +kernel)
  -- the list gives three binds, and the empty one none
  obtain ⟨hiff, hexact⟩ := normalize_exact (d := .sqlite) hdistinct
  exact ⟨hdistinct, hiff.mp ⟨n, hn⟩, n, hn, hbinds, hexact n hn⟩

end SqlPaging
