import SqlPaging.Proofs.Query.Frame
import SqlPaging.Proofs.Sql.Twin

/-!
# SqlPaging — queries around a region

What stands in a literal, in a comment or in a group of parentheses has no part in what
becomes of a statement. Another region of the same sort in its place gives another query
with the same text on both sides of the region, the same binds and the same window; and where
no query can be made of the one statement, none can be made of the other.

Both compilations take the same steps. At each of them, what is looked at goes together in the
two statements: the clauses, the names of placeholders, and the places at which they stand.

Main results:

* `Sql.Statement.Twin.edits` — the edits of the two statements.
* `compile_alike` — the steps of the two compilations.
* `compile_around_region` — the queries of the two statements.
-/

namespace SqlPaging

namespace Sql

/-! ## Edits -/

/-- Edits around a region, and those around one of another length. -/
def Shifted (at_ old new : Nat) (es fs : List Edit) : Prop :=
  (∀ e ∈ es, e.Clear at_ old) ∧ fs = es.map (Edit.shift at_ old new)

/-- Edits that are shifted in two parts are shifted as a whole. -/
theorem Shifted.append {at_ old new : Nat} {es es' fs fs' : List Edit}
    (h : Shifted at_ old new es fs) (h' : Shifted at_ old new es' fs') :
    Shifted at_ old new (es ++ es') (fs ++ fs') := by
  refine ⟨?_, by rw [h.2, h'.2, List.map_append]⟩
  intro e he
  rcases List.mem_append.mp he with he | he
  · exact h.1 e he
  · exact h'.1 e he

theorem Shifted.nil (at_ old new : Nat) : Shifted at_ old new [] [] := ⟨nofun, rfl⟩

theorem Shifted.cons {at_ old new : Nat} {e f : Edit} {es fs : List Edit}
    (he : e.Clear at_ old ∧ e.shift at_ old new = f) (h : Shifted at_ old new es fs) :
    Shifted at_ old new (e :: es) (f :: fs) := by
  obtain ⟨hclear, rfl⟩ := he
  refine ⟨?_, by rw [h.2, List.map_cons]⟩
  intro g hg
  rcases List.mem_cons.mp hg with rfl | hg
  · exact hclear
  · exact h.1 g hg

theorem expansionEdits_append (x : Fields (List String)) (ts us : List Token) :
    expansionEdits x (ts ++ us) = expansionEdits x ts ++ expansionEdits x us :=
  List.filterMap_append

theorem Token.placeholder?_of_kind {t : Token} (h : t.kind ≠ .placeholder) :
    t.placeholder? = none := if_neg h

theorem Token.placeholder?_congr {t u : Token} (h : t.outline = u.outline) :
    t.placeholder? = u.placeholder? := by
  obtain ⟨hkind, htext, -⟩ := Outline.mk.inj h
  rw [placeholder?, placeholder?, hkind, htext]

/-! ## Expansion -/

namespace Draft

/-- Expanding a statement in two parts looks back over the first one in the second. -/
theorem expandFrom_append (x : Fields (List String)) (previous ts us : List Token) :
    expandFrom x previous (ts ++ us) = (do
      let front ← expandFrom x previous ts
      let back ← expandFrom x (ts.reverse ++ previous) us
      .ok (front ++ back)) := by
  induction ts generalizing previous with
  | nil =>
    show _ = (do
      let back ← expandFrom x previous us
      .ok ([] ++ back))
    rw [List.nil_append]
    cases expandFrom x previous us <;> rfl
  | cons t ts ih =>
    rw [List.cons_append, expandFrom_cons, expandFrom_cons, ih, List.reverse_cons,
      List.append_assoc, List.singleton_append]
    -- a placeholder that is refused is refused in both
    split
    · rfl
    · cases expandFrom x (t :: previous) ts with
      | error name => rfl
      | ok front =>
        show Except.map _ ((expandFrom x (ts.reverse ++ t :: previous) us).map _) = _
        cases expandFrom x (ts.reverse ++ t :: previous) us <;> rfl

/-- Where no placeholders are, nothing is refused. -/
theorem expandFrom_plain {x : Fields (List String)} {previous ts : List Token}
    (h : ∀ t ∈ ts, t.kind ≠ .placeholder) : expandFrom x previous ts = .ok (ofExpanded x ts) := by
  induction ts generalizing previous with
  | nil => rfl
  | cons t ts ih =>
    have hplain := Token.placeholder?_of_kind (h t List.mem_cons_self)
    rw [expandFrom_cons, hplain, if_neg (by simp), ih fun u hu => h u (List.mem_cons_of_mem t hu)]
    rfl

/-- A list of the NOT IN form is opened by two words and a parenthesis. -/
theorem followsNotIn_eq (ws : List Token) :
    followsNotIn ws = (ws[0]?.any (fun t => decide (t.kind = .openParen)) &&
      ws[1]?.any (·.isWord ["IN"]) && ws[2]?.any (·.isWord ["NOT"])) := by
  rcases ws with _ | ⟨a, _ | ⟨b, _ | ⟨c, ws⟩⟩⟩
  all_goals simp [followsNotIn]

/-- Whether a list is one shows in the outlines of the tokens in front of it. -/
theorem followsNotIn_congr {ws ws' : List Token}
    (h : ws'.map Token.outline = ws.map Token.outline) : followsNotIn ws' = followsNotIn ws := by
  have hone : ∀ i : Nat, ws'[i]?.map Token.outline = ws[i]?.map Token.outline := by
    intro i
    rw [← List.getElem?_map, ← List.getElem?_map, h]
  rw [followsNotIn_eq, followsNotIn_eq,
    any_of_outline (fun t u h => by rw [(Outline.mk.inj h).1]) (hone 0),
    any_of_outline (fun t u h => Token.isWord_congr h _) (hone 1),
    any_of_outline (fun t u h => Token.isWord_congr h _) (hone 2)]
/-- What is in front of a region is not looked at from behind it. -/
theorem followsNotIn_hidden {at_ stop : Nat} {m previous : List Token} (h : Hidden at_ stop m)
    (hne : m ≠ []) (ws : List Token) :
    followsNotIn (ws ++ (m.reverse ++ previous)) = followsNotIn ws := by
  obtain ⟨front, last, rfl⟩ : ∃ front last, m = front ++ [last] :=
    ⟨_, _, (List.dropLast_concat_getLast hne).symm⟩
  obtain ⟨-, hword, hopen⟩ := h.stop last List.getLast?_concat
  have hlast : ∀ words, last.isWord words = false := Token.isWord_of_kind hword
  rw [List.reverse_append, List.reverse_singleton, followsNotIn_eq, followsNotIn_eq]
  rcases ws with _ | ⟨a, _ | ⟨b, _ | ⟨c, ws⟩⟩⟩
  all_goals simp [hlast, hopen]

/-- Moved tokens are expanded as they were, where what is looked back at is alike. -/
theorem expandFrom_moved {a b : Nat} {us us' : List Token}
    (h : List.Forall₂ (MovedToken a b) us us') {x : Fields (List String)}
    {previous previous' : List Token}
    (hlook : ∀ ws ws' : List Token, ws'.map Token.outline = ws.map Token.outline →
      followsNotIn (ws' ++ previous') = followsNotIn (ws ++ previous)) :
    Alike Eq (fun _ _ => True) (expandFrom x previous us) (expandFrom x previous' us') := by
  induction h generalizing previous previous' with
  | nil => exact .ok trivial
  | @cons u u' us us' hone _ ih =>
    have hown : followsNotIn previous' = followsNotIn previous := hlook [] [] rfl
    rw [expandFrom_cons, expandFrom_cons, Token.placeholder?_congr hone.1, hown]
    split
    · exact .error rfl
    · refine (ih ?_).map fun _ _ _ => trivial
      intro ws ws' hws
      -- one more token that looks the same is in view on both sides
      have hlonger := hlook (ws ++ [u]) (ws' ++ [u']) (by
        rw [List.map_append, List.map_append, hws, List.map_singleton, List.map_singleton, hone.1])
      rwa [List.append_assoc, List.append_assoc] at hlonger

end Draft

namespace Statement.Twin

variable {at_ old new : Nat} {ts mid mid' us us' : List Token} {s s' : Statement}

/-- Collections are expanded on both sides of the region. -/
theorem expansionEdits (h : Twin at_ old new ts mid mid' us us' s s') (hold : 0 < old)
    (x : Fields (List String)) :
    Shifted at_ old new (Sql.expansionEdits x s.tokens) (Sql.expansionEdits x s'.tokens) := by
  -- edits in front of the region stay
  have hfront : Shifted at_ old new (Sql.expansionEdits x ts) (Sql.expansionEdits x ts) := by
    have hclear : ∀ e ∈ Sql.expansionEdits x ts, e.stop ≤ at_ := by
      intro e he
      obtain ⟨t, ht, hedit⟩ := List.mem_filterMap.mp he
      obtain ⟨names, -, rfl⟩ := Option.map_eq_some_iff.mp hedit
      exact h.front t ht
    refine ⟨fun e he => .inl (hclear e he), ?_⟩
    refine (List.map_id _).symm.trans (List.map_congr_left ?_)
    intro e he
    exact (if_pos (hclear e he)).symm
  -- a region has no placeholder in it, so that nothing in it is expanded
  have hregion : ∀ {stop : Nat} {m : List Token}, Hidden at_ stop m →
      Sql.expansionEdits x m = [] := by
    intro stop m hm
    refine List.filterMap_eq_nil_iff.mpr fun t ht => ?_
    rw [Token.placeholder?_of_kind (hm.plain t ht).1]
    rfl
  -- those behind it move as their tokens do
  have hback : Shifted at_ old new (Sql.expansionEdits x us) (Sql.expansionEdits x us') := by
    have hmoved := h.back
    clear h
    induction hmoved with
    | nil => exact Shifted.nil _ _ _
    | @cons u u' us us' hone _ ih =>
      obtain ⟨houtline, w, hw, hw'⟩ := hone
      have htext : u'.text = u.text := (Outline.mk.inj houtline).2.1
      rw [Sql.expansionEdits, Sql.expansionEdits, List.filterMap_cons, List.filterMap_cons,
        Token.placeholder?_congr houtline]
      cases u.placeholder?.bind x.get? with
      | none => exact ih
      | some names =>
        refine Shifted.cons ?_ ih
        rw [htext]
        exact Edit.shift_of_moved hold (.inr ⟨w, hw, hw'⟩) (by omega)
  rw [h.tokens, h.tokens', expansionEdits_append, expansionEdits_append, expansionEdits_append,
    expansionEdits_append, hregion h.hidden, hregion h.hidden']
  exact hfront.append hback

/-- An edit in front of a token is shifted with the token. -/
theorem editBefore (h : Twin at_ old new ts mid mid' us us' s s') (hold : 0 < old) {i i' : Nat}
    (hi : Moved ts.length mid.length mid'.length i i') (t : List Char) :
    (s.editBefore i t).Clear at_ old ∧
      (s.editBefore i t).shift at_ old new = s'.editBefore i' t :=
  Edit.shift_of_moved hold (h.start hi) id

/-- An edit behind a token is shifted with the token. -/
theorem editAfter (h : Twin at_ old new ts mid mid' us us' s s') (hold : 0 < old) {i i' : Nat}
    (hi : Moved ts.length mid.length mid'.length (i + 1) (i' + 1)) (t : List Char) :
    (s.editAfter i t).Clear at_ old ∧ (s.editAfter i t).shift at_ old new = s'.editAfter i' t :=
  Edit.shift_of_moved hold (h.stop hi) id

/-- A condition is added to both statements at places that go together. -/
theorem conditionEdits (h : Twin at_ old new ts mid mid' us us' s s') (hold : 0 < old)
    (condition : List Char) :
    Alike (fun _ _ => True) (Shifted at_ old new) (s.conditionEdits condition)
      (s'.conditionEdits condition) := by
  have hmarker := h.conditionMarker
  rw [Statement.conditionEdits, Statement.conditionEdits]
  generalize (s.marker? .filter).or (s.marker? .having) = found,
    (s'.marker? .filter).or (s'.marker? .having) = found' at hmarker
  -- a new clause is one edit, and a longer one is an edit at each end
  cases hmarker with
  | none =>
    refine h.filterIndex.bind fun i i' hi => .ok ?_
    exact Shifted.cons (h.editAfter hold hi _) (Shifted.nil _ _ _)
  | some hm =>
    refine (h.conditionSpan hm).bind fun i i' hi => .ok ?_
    exact Shifted.cons (h.editBefore hold hi.1 _)
      (Shifted.cons (h.editAfter hold hi.2 _) (Shifted.nil _ _ _))

/-- The edits of both statements go together. -/
theorem edits (h : Twin at_ old new ts mid mid' us us' s s') (hold : 0 < old)
    (x : Fields (List String)) (condition : Option (List Char))
    (tail : List Char) :
    Alike (fun _ _ => True) (Shifted at_ old new) (s.edits x condition tail)
      (s'.edits x condition tail) := by
  -- without a condition there are no edits for it
  have hcondition : Alike (fun _ _ => True) (Shifted at_ old new)
      (condition.elim (.ok []) s.conditionEdits) (condition.elim (.ok []) s'.conditionEdits) := by
    cases condition with
    | none => exact .ok (Shifted.nil _ _ _)
    | some condition => exact h.conditionEdits hold condition
  refine hcondition.bind fun own own' hown => h.tailIndex.bind fun i i' hi => .ok ?_
  exact ((h.expansionEdits hold x).append hown).append
    (Shifted.cons (h.editAfter hold hi tail) (Shifted.nil _ _ _))

/-! ## Steps that can fail -/

theorem ensurePageable (h : Twin at_ old new ts mid mid' us us' s s') (ordered : Bool) :
    Alike (fun _ _ => True) (fun _ _ => True) (s.ensurePageable ordered)
      (s'.ensurePageable ordered) := by
  -- both statements have a refused clause, or neither has
  have hfound := rel_find? (p := fun m => (refused ordered).contains m.clause)
    (q := fun m => (refused ordered).contains m.clause) h.markers fun m n hmn => by
      rw [hmn.clause]
  rw [Statement.ensurePageable, Statement.ensurePageable]
  generalize s.markers.find? _ = found, s'.markers.find? _ = found' at hfound
  cases hfound with
  | none => exact .ok trivial
  | some hm => exact .error trivial

/-- The placeholders of both statements have the same names. -/
theorem placeholders (h : Twin at_ old new ts mid mid' us us' s s') :
    s'.tokens.filterMap (·.placeholder?) = s.tokens.filterMap (·.placeholder?) := by
  -- there are none in the region, and behind it there are the same ones
  have hregion : ∀ {stop : Nat} {m : List Token}, Hidden at_ stop m →
      m.filterMap (·.placeholder?) = [] := by
    intro stop m hm
    exact List.filterMap_eq_nil_iff.mpr fun t ht =>
      Token.placeholder?_of_kind (hm.plain t ht).1
  have hback : us'.filterMap (·.placeholder?) = us.filterMap (·.placeholder?) := by
    have hmoved := h.back
    clear h
    induction hmoved with
    | nil => rfl
    | cons hone _ ih =>
      rw [List.filterMap_cons, List.filterMap_cons, Token.placeholder?_congr hone.1, ih]
  rw [h.tokens, h.tokens', List.filterMap_append, List.filterMap_append, List.filterMap_append,
    List.filterMap_append, hregion h.hidden, hregion h.hidden', hback]

/-- Collections are expanded in both statements, or the same one is refused in both. -/
theorem expanded (h : Twin at_ old new ts mid mid' us us' s s') (x : Fields (List String)) :
    Alike Eq (fun _ _ => True) (Draft.expanded s x) (Draft.expanded s' x) := by
  rw [Draft.expanded, Draft.expanded, h.tokens, h.tokens', Draft.expandFrom_append x [] ts,
    Draft.expandFrom_append x [] ts]
  refine (Alike.of_eq (fun _ => rfl) _).bind fun _ _ _ => ?_
  rw [Draft.expandFrom_append, Draft.expandFrom_append,
    Draft.expandFrom_plain fun t ht => (h.hidden.plain t ht).1,
    Draft.expandFrom_plain fun t ht => (h.hidden'.plain t ht).1]
  refine Alike.bind (R := fun _ _ => True) ?_ fun _ _ _ => .ok trivial
  show Alike Eq _ (Draft.expandFrom x (mid.reverse ++ (ts.reverse ++ [])) us >>= _)
    (Draft.expandFrom x (mid'.reverse ++ (ts.reverse ++ [])) us' >>= _)
  refine Alike.bind (R := fun _ _ => True) ?_ fun _ _ _ => .ok trivial
  -- what follows `NOT IN` is asked of the tokens in front, which may be those of the region
  refine Draft.expandFrom_moved h.back ?_
  by_cases hnil : mid = []
  · rw [hnil, h.nil_iff.mp hnil]
    intro ws ws' hws
    refine Draft.followsNotIn_congr ?_
    simp only [List.map_append, hws]
  · -- a region with tokens hides what stands in front of it
    have hnil' : mid' ≠ [] := fun hmid' => hnil (h.nil_iff.mpr hmid')
    intro ws ws' hws
    rw [Draft.followsNotIn_hidden h.hidden hnil, Draft.followsNotIn_hidden h.hidden' hnil']
    exact Draft.followsNotIn_congr hws

/-- A condition can be added to both statements or to none. -/
theorem addCondition (h : Twin at_ old new ts mid mid' us us' s s')
    (condition : List Char) (draft draft' : Draft) :
    Alike (fun _ _ => True) (fun _ _ => True) (Draft.addCondition s condition draft)
      (Draft.addCondition s' condition draft') := by
  have hmarker := h.conditionMarker
  rw [Draft.addCondition, Draft.addCondition]
  generalize (s.marker? .filter).or (s.marker? .having) = found,
    (s'.marker? .filter).or (s'.marker? .having) = found' at hmarker
  cases hmarker with
  | none => exact h.filterIndex.bind fun i i' _ => .ok trivial
  | some hm => exact (h.conditionSpan hm).bind fun i i' _ => .ok trivial

end Statement.Twin

end Sql

/-! ## Queries -/

/-- Errors of the same kind: the same one, or two about places in statements. -/
def PageError.SameKind (e e' : PageError) : Prop :=
  e' = e ∨ ∃ fault fault', e = .insertionPoint fault ∧ e' = .insertionPoint fault'

theorem PageError.SameKind.refl (e : PageError) : e.SameKind e := .inl rfl

theorem PageError.SameKind.insertionPoint (fault fault' : Sql.Fault) :
    (PageError.insertionPoint fault).SameKind (.insertionPoint fault') :=
  .inr ⟨fault, fault', rfl, rfl⟩

namespace Query

open Sql

variable {d : Dialect} {at_ old new : Nat} {ts mid mid' us us' : List Token} {s s' : Statement}

/-- Twins have the same names, and the same ones are free. -/
theorem checkReserved_alike (h : Statement.Twin at_ old new ts mid mid' us us' s s') (own : Binds) :
    checkReserved s' own = checkReserved s own := by
  rw [checkReserved, checkReserved, h.placeholders]

/-- The cursor's part is the same in both queries, but for the draft. -/
theorem seekFor_alike (h : Statement.Twin at_ old new ts mid mid' us us' s s') (order : Order)
    (own : Binds) (pager : Pager) (cursor : Option Cursor) (draft draft' : Draft) :
    Alike PageError.SameKind
      (fun seek seek' => seek'.binds = seek.binds ∧ seek'.window = seek.window ∧
        seek'.order = seek.order)
      (seekFor d s order own pager draft cursor) (seekFor d s' order own pager draft' cursor) := by
  -- the steps that do not ask for the statement are the same
  have hsame : ∀ {α : Type} (x : Except PageError α), Alike PageError.SameKind Eq x x :=
    fun x => Alike.of_eq PageError.SameKind.refl x
  cases cursor with
  | none =>
    refine (hsame _).bind fun w _ hw => .ok ?_
    exact ⟨rfl, hw.symm, rfl⟩
  | some c =>
    rw [seekFor, seekFor, seeking, seeking, checkReserved_alike h]
    refine (hsame _).bind fun _ _ _ => (hsame _).bind ?_
    rintro k _ rfl
    have hcondition := h.addCondition (Keyset.grouped k.predicate).toList draft draft'
    refine (hcondition.mapError fun fault fault' _ => .insertionPoint fault fault').bind ?_
    intro _ _ _
    refine (hsame _).bind fun w _ hw => .ok ?_
    exact ⟨rfl, hw.symm, rfl⟩

theorem addTail_alike (h : Statement.Twin at_ old new ts mid mid' us us' s s') (order : Order)
    (w : Window) (draft draft' : Draft) :
    Alike PageError.SameKind (fun _ _ => True) (addTail s order w draft)
      (addTail s' order w draft') := by
  have hindex := h.tailIndex
  rw [addTail, addTail]
  generalize s.tailIndex = i, s'.tailIndex = i' at hindex ⊢
  cases hindex with
  | error _ => exact .error (.insertionPoint _ _)
  | ok _ => exact .ok trivial

/-- Two compilations whose statements differ in a region end alike. -/
theorem compile_alike {text text' : String}
    (h : Alike (fun _ _ => True) (fun s s' => ∃ ts us us',
        Statement.Twin at_ old new ts mid mid' us us' s s')
      (Statement.parse d text.toList) (Statement.parse d text'.toList))
    (order : Order) (params : Params) (pager : Pager) (cursor : Option Cursor) :
    Alike PageError.SameKind (fun q q' => q'.binds = q.binds ∧ q'.window = q.window)
      (compile d text order params pager cursor) (compile d text' order params pager cursor) := by
  -- step by step, as each one is alike for alike states and the next one sees only its result
  rw [compile_eq_steps, compile_eq_steps]
  refine (Alike.of_eq PageError.SameKind.refl _).bind ?_
  rintro n _ rfl
  refine (h.mapError fun fault fault' _ => .insertionPoint fault fault').bind ?_
  rintro s s' ⟨ts, us, us', hs⟩
  refine ((hs.ensurePageable _).mapError fun fault fault' _ =>
    .insertionPoint fault fault').bind fun _ _ _ => ?_
  refine ((hs.expanded n.expansions).mapError ?_).bind fun draft draft' _ => ?_
  · rintro name _ rfl
    exact .refl _
  refine (seekFor_alike hs order n.binds pager cursor draft draft').bind ?_
  rintro seek seek' ⟨hbinds, hwindow, horder⟩
  rw [hwindow, horder]
  refine (addTail_alike hs _ _ _ _).bind fun _ _ _ => .ok ?_
  exact ⟨congrArg (n.binds ++ ·) hbinds, rfl⟩

/-! ## Texts of queries -/

/-- The edits that are carried out stand in the statement. -/
theorem stop_le_of_telling {es : List Edit} {draft : Draft} {ps : List Site}
    (h : Telling s es draft ps) : ∀ e ∈ es, e.stop ≤ byteLength s.body := by
  intro e he
  have hmem : e ∈ siteEdits ps := by
    rw [← h.queue, inOrder, List.mem_mergeSort]
    exact he
  have hplaced := h.placed
  rw [← h.tokens] at hplaced
  have hstop := (bounds_siteEdits hplaced hmem).2
  rwa [h.tokens, Nat.zero_add] at hstop

/-- What edits make of a statement whose tokens are all in front of a region. -/
theorem text_behind {es es' : List Edit} {draft draft' : Draft} {ps ps' : List Site}
    (h : Telling s es draft ps) (h' : Telling s' es' draft' ps') (htokens : s'.tokens = s.tokens)
    (hle : byteLength s.body ≤ at_) (hes : Shifted at_ old new es es') :
    draft'.text = draft.text := by
  -- no edit is moved, since all of them stop in front of the region
  have hsame : es' = es := by
    rw [hes.2]
    refine (List.map_congr_left fun e he => ?_).trans (List.map_id es)
    exact if_pos (Nat.le_trans (stop_le_of_telling h e he) hle)
  have hbody : s'.body = s.body := by rw [Statement.body, Statement.body, htokens]
  obtain ⟨-, hedited, -⟩ := h.edited []
  obtain ⟨-, hedited', -⟩ := h'.edited []
  rw [hbody, hsame, hedited] at hedited'
  exact (Option.some.inj hedited').symm

/-- What edits make of the texts on both sides of a region. -/
theorem text_around {es es' : List Edit} {draft draft' : Draft} {ps ps' : List Site}
    {before region region' after : List Char} {z : Nat} (h : Telling s es draft ps)
    (h' : Telling s' es' draft' ps')
    (htext : s.body ++ s.rest = before ++ region ++ after)
    (htext' : s'.body ++ s'.rest = before ++ region' ++ after)
    (hlen : byteLength s.body = byteLength before + byteLength region + z)
    (hlen' : byteLength s'.body = byteLength before + byteLength region' + z)
    (hold : 0 < byteLength region) (hnew : 0 < byteLength region')
    (hes : Shifted (byteLength before) (byteLength region) (byteLength region') es es') :
    ∃ a b, draft.text = a ++ region ++ b ∧ draft'.text = a ++ region' ++ b := by
  obtain ⟨hturn, hedited, -⟩ := h.edited s.rest
  obtain ⟨-, hedited', -⟩ := h'.edited s'.rest
  -- no edit reaches into the region
  have hclear : ∀ e ∈ inOrder es, e.Clear (byteLength before) (byteLength region) := by
    intro e he
    exact hes.1 e (List.mem_mergeSort.mp he)
  -- the edits in front are the same, and those behind are the same seen from the region's end
  obtain ⟨front, back, hfront, hback, hstop⟩ := hturn.split hclear hold
  rw [htext, hlen, hfront, ← byteLength_append, edited?_around hstop] at hedited
  rw [htext', hlen', hes.2, inOrder_shift hold hnew hes.1, hback, ← byteLength_append,
    edited?_around hstop] at hedited'
  obtain ⟨a, ha, hedited⟩ := Option.bind_eq_some_iff.mp hedited
  obtain ⟨b, hb, hdraft⟩ := Option.map_eq_some_iff.mp hedited
  rw [ha, hb] at hedited'
  exact ⟨a, b, hdraft.symm, (Option.some.inj hedited').symm⟩

/-- The texts of two queries whose statements differ in a region. -/
theorem sql_around {text text' : String} {before region region' after : List Char} {order : Order}
    {params : Params} {pager : Pager} {cursor : Option Cursor} {q q' : Query}
    (htext : text.toList = before ++ region ++ after)
    (htext' : text'.toList = before ++ region' ++ after)
    (hcomplete : (lex d text.toList).2 = none) (hcomplete' : (lex d text'.toList).2 = none)
    (hold : 0 < byteLength region) (hnew : 0 < byteLength region')
    (hparse : Alike (fun _ _ => True) (fun s s' => ∃ ts us us', Statement.Twin (byteLength before)
        (byteLength region) (byteLength region') ts mid mid' us us' s s')
      (Statement.parse d text.toList) (Statement.parse d text'.toList))
    (hq : compile d text order params pager cursor = .ok q)
    (hq' : compile d text' order params pager cursor = .ok q') (hwindow : q'.window = q.window) :
    ∃ s, parse d text = .ok s ∧
      if byteLength s.body ≤ byteLength before then mid = [] ∧ q'.sql = q.sql
      else ∃ a b, q.sql.toList = a ++ region ++ b ∧ q'.sql.toList = a ++ region' ++ b := by
  obtain ⟨n, s, es, draft, ps, hn, hs, hes, htelling, hsql⟩ := exists_telling_of_compile hq
  obtain ⟨n', s', es', draft', ps', hn', hs', hes', htelling', hsql'⟩ :=
    exists_telling_of_compile hq'
  obtain rfl := Except.ok.inj (hn.symm.trans hn')
  have hbase := mapError_eq_ok.mp hs
  have hbase' := mapError_eq_ok.mp hs'
  rw [hbase, hbase'] at hparse
  obtain ⟨ts, us, us', htwin⟩ := hparse.of_ok
  have hshifted := htwin.edits hold n.expansions
    ((conditionOf d order cursor).map fun p => (Keyset.grouped p).toList)
    (tail (emitted order cursor) q.window)
  rw [hwindow] at hes'
  rw [hes, hes'] at hshifted
  refine ⟨s, hs, ?_⟩
  split
  · next hle =>
    -- no token is in the region or behind it
    have hnone : mid ++ us = [] := by
      by_contra hne
      have hbody := htwin.le_body htelling.placed hne
      omega
    obtain ⟨hmid, hus⟩ := List.append_eq_nil_iff.mp hnone
    have hus' : us' = [] := by
      have hback := htwin.back
      rw [hus] at hback
      exact List.forall₂_nil_left_iff.mp hback
    have htokens : s'.tokens = s.tokens := by
      rw [htwin.tokens, htwin.tokens', hmid, htwin.nil_iff.mp hmid, hus, hus']
    refine ⟨hmid, ?_⟩
    rw [← String.toList_inj, hsql, hsql']
    exact text_behind htelling htelling' htokens hle hshifted.of_ok
  · next hlt =>
    -- there is a token behind, so that the texts go on in the same way behind the regions
    rcases htwin.body htelling.placed htelling'.placed with ⟨hle, -⟩ | ⟨z, hz, hz'⟩
    · exact absurd hle hlt
    have hwhole := (Statement.text_of_parse hbase hcomplete).trans htext
    have hwhole' := (Statement.text_of_parse hbase' hcomplete').trans htext'
    rw [hsql, hsql']
    exact text_around htelling htelling' hwhole hwhole' hz hz' hold hnew hshifted.of_ok

/-- Text in a literal, in a quoted identifier, in a comment or in parentheses has no part in
what becomes of a statement: with another such text in its place, there is either no query
again, for a reason of the same kind, or a query with the same binds, the same window and the
same text on both sides of it. Where the region is a comment behind the last token, the
queries do not have it. -/
theorem compile_around_region {before region region' after : String} {e : Enclosure}
    {mid mid' : List Lexeme} {found found' : Scan} (he : e.Holds mid) (he' : e.Holds mid')
    (h : Delimited d before.toList region.toList after.toList mid)
    (h' : Delimited d before.toList region'.toList after.toList mid')
    (hscan : scan d (before ++ region ++ after).toList = .ok found)
    (hscan' : scan d (before ++ region' ++ after).toList = .ok found')
    (order : Order) (params : Params) (pager : Pager) (cursor : Option Cursor) :
    (∃ fault fault',
      compile d (before ++ region ++ after) order params pager cursor = .error fault ∧
      compile d (before ++ region' ++ after) order params pager cursor = .error fault' ∧
      fault.SameKind fault') ∨
    ∃ q q' s,
      compile d (before ++ region ++ after) order params pager cursor = .ok q ∧
      compile d (before ++ region' ++ after) order params pager cursor = .ok q' ∧
      q'.binds = q.binds ∧ q'.window = q.window ∧
      parse d (before ++ region ++ after) = .ok s ∧
      if byteLength s.body ≤ byteLength before.toList then e = .comment ∧ q'.sql = q.sql
      else ∃ a b, q.sql = a ++ region ++ b ∧ q'.sql = a ++ region' ++ b := by
  have htext : ∀ r : String, (before ++ r ++ after).toList =
      before.toList ++ r.toList ++ after.toList := by
    intro r
    rw [String.toList_append, String.toList_append]
  have hcomplete := h.complete
  have hcomplete' := h'.complete
  have hall := hscan
  have hall' := hscan'
  rw [htext] at hall hall'
  obtain ⟨ts, m, m', us, us', haround, htokens, htokens', hnil⟩ :=
    around_of_scan he he' h h' hall hall'
  -- the two statements are twins, and what is compiled from twins is alike
  have hparse := twin_of_parse haround hall hall' htokens htokens'
  rw [← htext, ← htext] at hparse
  rw [← htext] at hcomplete hcomplete'
  have halike := compile_alike hparse order params pager cursor
  generalize hx : compile d (before ++ region ++ after) order params pager cursor = x,
    hy : compile d (before ++ region' ++ after) order params pager cursor = y at halike ⊢
  cases halike with
  | error hkind => exact .inl ⟨_, _, rfl, rfl, hkind⟩
  | @ok q q' hsame =>
    obtain ⟨s, hs, hsql⟩ := sql_around (htext region) (htext region') hcomplete hcomplete'
      (h.pos he) (h'.pos he') hparse hx hy hsame.2
    refine .inr ⟨q, q', s, rfl, rfl, hsame.1, hsame.2, hs, ?_⟩
    split
    · -- a region behind the last token is a comment, as any other one makes a token
      next hle =>
      rw [if_pos hle] at hsql
      exact ⟨hnil.mp hsql.1, hsql.2⟩
    · next hlt =>
      rw [if_neg hlt] at hsql
      obtain ⟨a, b, ha, hb⟩ := hsql
      refine ⟨String.ofList a, String.ofList b, ?_, ?_⟩
      · rw [← String.toList_inj, ha]
        simp
      · rw [← String.toList_inj, hb]
        simp

/-- A literal with words, a placeholder and a semicolon in it in the place of another one, in
front of a collection and of the place of the tail. -/
theorem compile_around_region_of_literals :
    ∃ q q' a b,
      compile .postgres ("SELECT é FROM t WHERE s = " ++ "'ü'" ++ " OR n = ANY :ids FOR UPDATE")
        ⟨[⟨"é", .ascending⟩]⟩ [("ids", .array [.int 7, .int 8])] (.ofPage 2 10)
        (some ⟨.ofPage 2 10, [("é", .int 5)], none, .next, true, default⟩) = .ok q ∧
      compile .postgres
        ("SELECT é FROM t WHERE s = " ++ "'; -- :p) LIMIT 1'" ++ " OR n = ANY :ids FOR UPDATE")
        ⟨[⟨"é", .ascending⟩]⟩ [("ids", .array [.int 7, .int 8])] (.ofPage 2 10)
        (some ⟨.ofPage 2 10, [("é", .int 5)], none, .next, true, default⟩) = .ok q' ∧
      q'.binds = q.binds ∧ q'.window = q.window ∧ q.sql = a ++ "'ü'" ++ b ∧
      q'.sql = a ++ "'; -- :p) LIMIT 1'" ++ b := by
  have hdelimited : ∀ r ∈ ["'ü'", "'; -- :p) LIMIT 1'"],
      Delimited .postgres "SELECT é FROM t WHERE s = ".toList r.toList
        " OR n = ANY :ids FOR UPDATE".toList [⟨.quoted, r.toList⟩] := by
    intro r hr
    refine ⟨(lex .postgres "SELECT é FROM t WHERE s = ".toList).1,
      (lex .postgres " OR n = ANY :ids FOR UPDATE".toList).1, ?_⟩
    revert r
    decide +kernel
  obtain ⟨found, hscan, -⟩ : ∃ found, scan .postgres
      ("SELECT é FROM t WHERE s = " ++ "'ü'" ++ " OR n = ANY :ids FOR UPDATE").toList =
        .ok found ∧ True := exists_eq_ok_of_any (by decide +kernel)
  obtain ⟨found', hscan', -⟩ : ∃ found, scan .postgres
      ("SELECT é FROM t WHERE s = " ++ "'; -- :p) LIMIT 1'" ++
        " OR n = ANY :ids FOR UPDATE").toList = .ok found ∧ True :=
    exists_eq_ok_of_any (by decide +kernel)
  obtain ⟨s, hs, hbody⟩ : ∃ s, parse .postgres
      ("SELECT é FROM t WHERE s = " ++ "'ü'" ++ " OR n = ANY :ids FOR UPDATE") = .ok s ∧
        ¬ byteLength s.body ≤ byteLength "SELECT é FROM t WHERE s = ".toList :=
    exists_eq_ok_of_any (by decide +kernel)
  obtain ⟨q, hq, -⟩ : ∃ q, compile .postgres
      ("SELECT é FROM t WHERE s = " ++ "'ü'" ++ " OR n = ANY :ids FOR UPDATE")
        ⟨[⟨"é", .ascending⟩]⟩ [("ids", .array [.int 7, .int 8])] (.ofPage 2 10)
        (some ⟨.ofPage 2 10, [("é", .int 5)], none, .next, true, default⟩) = .ok q ∧ True :=
    exists_eq_ok_of_any (by decide +kernel)
  rcases compile_around_region (e := .quotes) ⟨_, rfl⟩ ⟨_, rfl⟩
      (hdelimited "'ü'" (by simp)) (hdelimited "'; -- :p) LIMIT 1'" (by simp)) hscan hscan'
      ⟨[⟨"é", .ascending⟩]⟩ [("ids", .array [.int 7, .int 8])] (.ofPage 2 10)
      (some ⟨.ofPage 2 10, [("é", .int 5)], none, .next, true, default⟩) with
    ⟨fault, -, hfault, -⟩ | ⟨q, q', s', hq, hq', hbinds, hwindow, hs', hsql⟩
  · cases hq.symm.trans hfault
  · obtain rfl := Except.ok.inj (hs.symm.trans hs')
    rw [if_neg hbody] at hsql
    obtain ⟨a, b, ha, hb⟩ := hsql
    exact ⟨q, q', a, b, hq, hq', hbinds, hwindow, ha, hb⟩

end Query

end SqlPaging
