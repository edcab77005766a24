import SqlPaging.Proofs.Sql.Around

/-!
# SqlPaging — places in statements around a region

Two statements that differ in a region have the same clauses, at places that are the same in
front of the region and behind it. So text that is put into the one at some place is put into
the other at the place that goes with it, and what cannot be put into the one cannot be put
into the other.

Main results:

* `Statement.Twin.markers` — the clauses of the two statements.
* `Statement.Twin.conditionSpan`, `Statement.Twin.index` — places that go together.
* `Statement.Twin.start`, `Statement.Twin.stop` — where the tokens at such places stand.
-/

namespace SqlPaging.Sql

namespace Statement

/-! ## Markers -/

/-- A marker, and the one that goes with it around a region of another number of tokens. -/
structure MovedMarker (a k k' : Nat) (m n : Marker) : Prop where
  clause : n.clause = m.clause
  first : Moved a k k' m.first n.first
  behind : Moved a k k' (m.last + 1) (n.last + 1)

/-- Tokens that open no clause are counted, and have no markers. -/
theorem markersFrom_silent {ts : List Token} (h : ∀ t ∈ ts, ∀ next, clauseAt t next = none)
    (index : Nat) (us : List Token) :
    markersFrom index (ts ++ us) = markersFrom (index + ts.length) us := by
  induction ts generalizing index with
  | nil => rfl
  | cons t ts ih =>
    rw [List.cons_append, markersFrom, h t List.mem_cons_self,
      ih fun u hu => h u (List.mem_cons_of_mem t hu)]
    dsimp only
    rw [List.length_cons]
    congr 1
    omega

/-- A keyword of two words has a second one. -/
theorem two_of_clauseAt_none {t : Token} {clause : Clause} {two : Bool}
    (h : clauseAt t none = some (clause, two)) : two = false := by
  cases (row_of_clauseAt h).2 with
  | groupBy _ hnext | orderBy _ hnext => cases hnext
  | _ => rfl

/-- A marker lies within the tokens that it marks. -/
theorem last_lt_of_mem {index : Nat} {ts : List Token} {m : Marker}
    (h : m ∈ markersFrom index ts) : m.first < index + ts.length ∧ m.last < index + ts.length := by
  obtain ⟨i, t, two, hfirst, ht, hclause, hlast⟩ := mem_markersFrom h
  have hlt := (List.getElem?_eq_some_iff.mp ht).1
  cases two with
  | false =>
    rw [hlast, hfirst]
    simp [hlt]
  | true =>
    cases hnext : ts[i + 1]? with
    | none =>
      rw [hnext] at hclause
      -- a clause of two words needs a second token
      cases two_of_clauseAt_none hclause
    | some u =>
      have hsecond := (List.getElem?_eq_some_iff.mp hnext).1
      rw [hlast, hfirst]
      simp only [if_true]
      omega

theorem moved_markersFrom (a k k' i : Nat) (us : List Token) :
    List.Forall₂ (MovedMarker a k k') (markersFrom (a + k + i) us)
      (markersFrom (a + k' + i) us) := by
  induction us generalizing i with
  | nil => exact .nil
  | cons u us ih =>
    rw [markersFrom, markersFrom]
    split
    · next clause two hclause =>
      refine .cons ⟨rfl, .inr ⟨i, rfl, rfl⟩, ?_⟩ (ih (i + 1))
      -- the place behind the clause moves as the clause does
      cases two with
      | false => exact .inr ⟨i + 1, rfl, rfl⟩
      | true => exact .inr ⟨i + 2, rfl, rfl⟩
    · exact ih (i + 1)

end Statement

/-- Two related lists have related members at the first place that passes. -/
theorem rel_find? {α β : Type} {R : α → β → Prop} {p : α → Bool} {q : β → Bool} {l : List α}
    {m : List β} (h : List.Forall₂ R l m) (hpq : ∀ a b, R a b → p a = q b) :
    Option.Rel R (l.find? p) (m.find? q) := by
  induction h with
  | nil => exact .none
  | @cons a b l m hab _ ih =>
    rw [List.find?_cons, List.find?_cons, ← hpq a b hab]
    split
    · exact .some hab
    · exact ih

theorem rel_getElem? {α β : Type} {R : α → β → Prop} {l : List α} {m : List β}
    (h : List.Forall₂ R l m) (i : Nat) : Option.Rel R l[i]? m[i]? := by
  induction h generalizing i with
  | nil => exact .none
  | cons hab _ ih =>
    cases i with
    | zero => exact .some hab
    | succ i => exact ih i

namespace Statement

variable {at_ old new : Nat} {ts mid mid' us us' : List Token} {s s' : Statement}

namespace Twin

/-- A region of one twin has tokens just if that of the other one has. -/
theorem length_iff (h : Twin at_ old new ts mid mid' us us' s s') :
    mid.length = 0 ↔ mid'.length = 0 := by
  rw [List.length_eq_zero_iff, List.length_eq_zero_iff, h.nil_iff]

theorem nonempty' (h : Twin at_ old new ts mid mid' us us' s s') : s'.tokens ≠ [] := by
  have hne := h.nonempty
  rw [h.tokens] at hne
  rw [h.tokens']
  exact fun hnil => hne (h.empty_iff.mpr hnil)

/-- The end of a statement moves with its region. -/
theorem length (h : Twin at_ old new ts mid mid' us us' s s') :
    Moved ts.length mid.length mid'.length s.tokens.length s'.tokens.length := by
  refine .inr ⟨us.length, ?_, ?_⟩
  · rw [h.tokens, List.length_append, List.length_append, Nat.add_assoc]
  · rw [h.tokens', List.length_append, List.length_append, h.back.length_eq, Nat.add_assoc]

/-- Statements that differ in a region have the same clauses. -/
theorem markers (h : Twin at_ old new ts mid mid' us us' s s') :
    List.Forall₂ (MovedMarker ts.length mid.length mid'.length) s.markers s'.markers := by
  have houtlines := outlines_of_moved h.back
  by_cases hnil : mid = []
  · -- without tokens in the region, the outlines of all tokens are the same
    have hnil' := h.nil_iff.mp hnil
    have hsame : s'.markers = s.markers := by
      refine markersFrom_congr ?_ 0
      rw [h.tokens, h.tokens', hnil, hnil', List.nil_append, List.nil_append, List.map_append,
        List.map_append, houtlines]
    have hself : ∀ x, Moved ts.length 0 0 x x := by
      intro x
      rcases Nat.le_total x ts.length with hle | hle
      · exact .inl ⟨hle, rfl⟩
      · exact .inr ⟨x - ts.length, by omega, by omega⟩
    rw [hsame, hnil, hnil']
    exact List.forall₂_same.mpr fun m _ => ⟨rfl, hself _, hself _⟩
  · -- with tokens in it, the region has no clause and no keyword goes on across it
    have hparts : ∀ {stop : Nat} {m vs : List Token}, Hidden at_ stop m → m ≠ [] →
        markersFrom 0 (ts ++ (m ++ vs)) =
          markersFrom 0 ts ++ markersFrom (ts.length + m.length) vs := by
      intro stop m vs hm hne
      have hfresh : Fresh (m ++ vs) := by
        intro t ht
        rw [List.head?_append_of_ne_nil _ hne] at ht
        exact Token.isWord_of_kind (hm.start t ht).2 _
      rw [markersFrom_append ts hfresh, markersFrom_silent hm.silent, Nat.zero_add]
    have hnil' : mid' ≠ [] := fun hmid' => hnil (h.nil_iff.mpr hmid')
    rw [Statement.markers, Statement.markers, h.tokens, h.tokens', hparts h.hidden hnil,
      hparts h.hidden' hnil', markersFrom_congr houtlines]
    refine List.rel_append ?_ (moved_markersFrom ts.length mid.length mid'.length 0 us)
    refine List.forall₂_same.mpr fun m hm => ?_
    obtain ⟨hfirst, hlast⟩ := last_lt_of_mem hm
    exact ⟨rfl, .inl ⟨by omega, rfl⟩, .inl ⟨by omega, rfl⟩⟩

theorem marker? (h : Twin at_ old new ts mid mid' us us' s s') (clause : Clause) :
    Option.Rel (MovedMarker ts.length mid.length mid'.length) (s.marker? clause)
      (s'.marker? clause) :=
  rel_find? h.markers fun m n hmn => by rw [hmn.clause]

/-- The clauses whose conditions are added to. -/
theorem conditionMarker (h : Twin at_ old new ts mid mid' us us' s s') :
    Option.Rel (MovedMarker ts.length mid.length mid'.length)
      ((s.marker? .filter).or (s.marker? .having))
      ((s'.marker? .filter).or (s'.marker? .having)) := by
  have hfilter := h.marker? .filter
  generalize s.marker? .filter = m, s'.marker? .filter = m' at hfilter ⊢
  cases hfilter with
  | some hm => exact .some hm
  | none => exact h.marker? .having

/-! ## Places -/

theorem placeOf (h : Twin at_ old new ts mid mid' us us' s s') {found found' : Option Marker}
    (hfound : Option.Rel (MovedMarker ts.length mid.length mid'.length) found found') :
    Moved ts.length mid.length mid'.length (s.placeOf found) (s'.placeOf found') := by
  cases hfound with
  | none => exact h.length
  | some hm => exact hm.first

/-- Text goes behind tokens that go together. -/
theorem index (h : Twin at_ old new ts mid mid' us us' s s')
    {found found' : Option Marker} :
    Option.Rel (MovedMarker ts.length mid.length mid'.length) found found' →
      Alike (fun _ _ => True)
        (fun i i' => Moved ts.length mid.length mid'.length (i + 1) (i' + 1))
        (match found with
          | some m => indexBefore m
          | none => .ok s.lastIndex)
        (match found' with
          | some m => indexBefore m
          | none => .ok s'.lastIndex) := by
  intro hfound
  cases hfound with
  | none =>
    -- without a marker both are the last tokens
    have hlength := h.length
    have hpos := List.length_pos_iff.mpr h.nonempty
    have hpos' := List.length_pos_iff.mpr h.nonempty'
    refine .ok ?_
    rw [lastIndex, lastIndex, Nat.sub_add_cancel hpos, Nat.sub_add_cancel hpos']
    exact hlength
  | @some m m' hm =>
    -- a marker is the first token in both statements or in neither
    have hzero := hm.first.le_iff (.inl ⟨Nat.zero_le _, rfl⟩) h.length_iff
    rw [Nat.le_zero, Nat.le_zero] at hzero
    have hfirst := hm.first
    dsimp only
    rw [indexBefore, indexBefore]
    cases hi : m.first with
    | zero =>
      rw [hzero.mp hi]
      exact .error trivial
    | succ i =>
      cases hi' : m'.first with
      | zero =>
        rw [hzero.mpr hi'] at hi
        cases hi
      | succ i' =>
        rw [hi, hi'] at hfirst
        exact .ok hfirst

theorem tailIndex (h : Twin at_ old new ts mid mid' us us' s s') :
    Alike (fun _ _ => True)
      (fun i i' => Moved ts.length mid.length mid'.length (i + 1) (i' + 1))
      s.tailIndex s'.tailIndex :=
  h.index (h.marker? .locking)

theorem filterIndex (h : Twin at_ old new ts mid mid' us us' s s') :
    Alike (fun _ _ => True)
      (fun i i' => Moved ts.length mid.length mid'.length (i + 1) (i' + 1))
      s.filterIndex s'.filterIndex :=
  h.index (rel_find? (p := fun m => afterFilter.contains m.clause)
    (q := fun m => afterFilter.contains m.clause) h.markers fun m n hmn => by rw [hmn.clause])

/-- Conditions have first and last tokens that go together. -/
theorem conditionSpan (h : Twin at_ old new ts mid mid' us us' s s') {m m' : Marker}
    (hm : MovedMarker ts.length mid.length mid'.length m m') :
    Alike (fun _ _ => True)
      (fun i i' => Moved ts.length mid.length mid'.length i.1 i'.1 ∧
        Moved ts.length mid.length mid'.length (i.2 + 1) (i'.2 + 1))
      (s.conditionSpan m) (s'.conditionSpan m') := by
  -- the marker that ends the clause is the same one, as moving keeps the order of places
  have hnext : Option.Rel (MovedMarker ts.length mid.length mid'.length)
      (s.markers.find? fun n => m.last < n.first) (s'.markers.find? fun n => m'.last < n.first) := by
    refine rel_find? h.markers ?_
    intro n n' hn
    have hle := hm.behind.le_iff hn.first h.length_iff
    rw [Bool.eq_iff_iff, decide_eq_true_eq, decide_eq_true_eq]
    exact hle
  have hstop := h.placeOf hnext
  -- so that one clause has a condition if the other one has
  have hempty := hstop.le_iff hm.behind h.length_iff
  rw [Statement.placeOf, Statement.placeOf] at hstop hempty
  rw [Statement.conditionSpan, Statement.conditionSpan]
  split
  · next hlt =>
    rw [if_pos (by omega)]
    refine .ok ⟨hm.behind, ?_⟩
    rwa [Nat.sub_add_cancel (by omega), Nat.sub_add_cancel (by omega)]
  · next hlt =>
    rw [if_neg (by omega)]
    exact .error trivial

/-! ## Tokens at places -/

/-- Tokens at places that go together start at bytes that go together. -/
theorem start (h : Twin at_ old new ts mid mid' us us' s s') {i i' : Nat}
    (hi : Moved ts.length mid.length mid'.length i i') :
    Moved at_ old new ((s.tokens[i]?.map (·.start)).getD 0)
      ((s'.tokens[i']?.map (·.start)).getD 0) := by
  -- behind the region the tokens go in pairs
  have hback : ∀ z : Nat, Moved at_ old new ((us[z]?.map (·.start)).getD 0)
      ((us'[z]?.map (·.start)).getD 0) := by
    intro z
    have hrel := rel_getElem? h.back z
    generalize us[z]? = u, us'[z]? = u' at hrel ⊢
    cases hrel with
    | none => exact .inl ⟨Nat.zero_le _, rfl⟩
    | some hu => exact .inr hu.2
  rw [h.tokens, h.tokens']
  rcases hi with ⟨hle, rfl⟩ | ⟨z, rfl, rfl⟩
  · rcases Nat.lt_or_eq_of_le hle with hlt | rfl
    · rw [List.getElem?_append_left hlt, List.getElem?_append_left hlt,
        List.getElem?_eq_getElem hlt]
      refine .inl ⟨?_, rfl⟩
      exact Nat.le_trans (Nat.le_add_right _ _) (h.front _ (List.getElem_mem hlt))
    · rw [List.getElem?_append_right (Nat.le_refl _), List.getElem?_append_right (Nat.le_refl _),
        Nat.sub_self]
      -- the region starts where it starts, if it has tokens
      cases hmid : mid with
      | nil =>
        rw [h.nil_iff.mp hmid]
        exact hback 0
      | cons t mid =>
        cases hmid' : mid' with
        | nil =>
          rw [h.nil_iff.mpr hmid'] at hmid
          cases hmid
        | cons t' mid' =>
          have hfirst := (h.hidden.start t (by rw [hmid]; rfl)).1
          have hfirst' := (h.hidden'.start t' (by rw [hmid']; rfl)).1
          refine .inl ⟨?_, ?_⟩
          · exact Nat.le_of_eq hfirst
          · exact hfirst'.trans hfirst.symm
  · -- the place counts the tokens of the region, of which there may be more or fewer
    have hbehind : ∀ (m vs : List Token), (ts ++ (m ++ vs))[ts.length + m.length + z]? =
        vs[z]? := by
      intro m vs
      rw [Nat.add_assoc, List.getElem?_append_right (by omega), Nat.add_sub_cancel_left,
        List.getElem?_append_right (by omega), Nat.add_sub_cancel_left]
    rw [hbehind, hbehind]
    exact hback z

/-- Tokens in front of places that go together end at bytes that go together. -/
theorem stop (h : Twin at_ old new ts mid mid' us us' s s') {i i' : Nat}
    (hi : Moved ts.length mid.length mid'.length (i + 1) (i' + 1)) :
    Moved at_ old new ((s.tokens[i]?.map Token.stop).getD 0)
      ((s'.tokens[i']?.map Token.stop).getD 0) := by
  -- in front of the region both have the same tokens
  have hfront : i < ts.length → i' = i → Moved at_ old new ((s.tokens[i]?.map Token.stop).getD 0)
      ((s'.tokens[i']?.map Token.stop).getD 0) := by
    rintro hlt rfl
    rw [h.tokens, h.tokens', List.getElem?_append_left hlt, List.getElem?_append_left hlt,
      List.getElem?_eq_getElem hlt]
    exact .inl ⟨h.front _ (List.getElem_mem hlt), rfl⟩
  rcases hi with ⟨hle, heq⟩ | ⟨z, hz, hz'⟩
  · exact hfront hle (Nat.succ.inj heq)
  cases z with
  | zero =>
    cases hmid : mid with
    | nil =>
      rw [hmid] at hz
      rw [h.nil_iff.mp hmid] at hz'
      exact hfront (Nat.le_of_eq hz) (Nat.succ.inj (hz'.trans hz.symm))
    | cons t rest =>
      -- the last token of a region stops where the region does
      have hlast : ∀ {stop : Nat} {m vs : List Token} {j : Nat}, Hidden at_ stop m → m ≠ [] →
          j + 1 = ts.length + m.length → (((ts ++ (m ++ vs))[j]?.map Token.stop).getD 0) = stop := by
        intro stop m vs j hm hne hj
        have hpos := List.length_pos_iff.mpr hne
        obtain ⟨u, hu⟩ : ∃ u, m.getLast? = some u := ⟨_, List.getLast?_eq_some_getLast hne⟩
        rw [List.getElem?_append_right (by omega), List.getElem?_append_left (by omega),
          show j - ts.length = m.length - 1 by omega, ← List.getLast?_eq_getElem?, hu]
        exact (hm.stop u hu).1
      have hne : mid ≠ [] := by
        rw [hmid]
        exact List.cons_ne_nil t rest
      have hne' : mid' ≠ [] := fun hnil => hne (h.nil_iff.mpr hnil)
      rw [h.tokens, h.tokens', hlast h.hidden hne hz, hlast h.hidden' hne' hz']
      exact .inr ⟨0, rfl, rfl⟩
  | succ z =>
    have hbehind : ∀ {m vs : List Token} {j : Nat}, j + 1 = ts.length + m.length + (z + 1) →
        (ts ++ (m ++ vs))[j]? = vs[z]? := by
      intro m vs j hj
      rw [List.getElem?_append_right (by omega), List.getElem?_append_right (by omega)]
      congr 1
      omega
    rw [h.tokens, h.tokens', hbehind hz, hbehind hz']
    have hrel := rel_getElem? h.back z
    generalize us[z]? = u, us'[z]? = u' at hrel ⊢
    cases hrel with
    | none => exact .inl ⟨Nat.zero_le _, rfl⟩
    | @some u u' hu =>
      obtain ⟨houtline, w, hw, hw'⟩ := hu
      have htext : u'.text = u.text := (Outline.mk.inj houtline).2.1
      refine .inr ⟨w + byteLength u.text, ?_, ?_⟩
      · show u.start + byteLength u.text = _
        omega
      · show u'.start + byteLength u'.text = _
        rw [htext]
        omega

/-- The bodies of both statements end at bytes that go together. -/
theorem body (h : Twin at_ old new ts mid mid' us us' s s') (hs : Placed 0 s.tokens)
    (hs' : Placed 0 s'.tokens) : Moved at_ old new (byteLength s.body) (byteLength s'.body) := by
  -- the body ends where the last token stops
  have hlast : ∀ {r : Statement}, Placed 0 r.tokens → r.tokens ≠ [] →
      ((r.tokens[r.lastIndex]?.map Token.stop).getD 0) = byteLength r.body := by
    intro r hr hne
    rw [lastIndex, ← List.getLast?_eq_getElem?, List.getLast?_eq_some_getLast hne, Option.map_some,
      Option.getD_some, hr.stop_getLast hne, Nat.zero_add, Statement.body]
  have hindex := h.index .none
  rw [← hlast hs h.nonempty, ← hlast hs' h.nonempty']
  cases hindex with
  | ok hi => exact h.stop hi

/-- With tokens in the region or behind it, the body ends behind it. -/
theorem le_body (h : Twin at_ old new ts mid mid' us us' s s') (hs : Placed 0 s.tokens)
    (hne : mid ++ us ≠ []) : at_ + old ≤ byteLength s.body := by
  -- no token of the statement goes beyond its body
  have hbounds : ∀ t ∈ mid ++ us, t.stop ≤ byteLength s.body := by
    intro t ht
    have hmem : t ∈ s.tokens := by
      rw [h.tokens]
      exact List.mem_append_right ts ht
    rw [Statement.body, ← Nat.zero_add (byteLength _)]
    exact (hs.bounds hmem).2
  -- the region ends with its last token, or in front of one that is behind it
  cases hus : us with
  | nil =>
    rw [hus, List.append_nil] at hne
    have hlast := List.getLast?_eq_some_getLast hne
    rw [← (h.hidden.stop _ hlast).1]
    exact hbounds _ (List.mem_append_left us (List.mem_of_getLast? hlast))
  | cons u rest =>
    have hback := h.back
    rw [hus] at hback
    obtain ⟨u', rest', ⟨-, w, hw, -⟩, -, -⟩ := List.forall₂_cons_left_iff.mp hback
    have hstop := hbounds u (List.mem_append_right mid (by rw [hus]; exact List.mem_cons_self))
    have hown : u.start ≤ u.stop := Nat.le_add_right _ _
    omega

end Twin

end Statement

end SqlPaging.Sql
