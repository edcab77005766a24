import SqlPaging.Cursor
import SqlPaging.Proofs.Param.Collections

/-!
# SqlPaging — wrappers around values

A domain value stands for another value, which may be a domain value again. Resolution takes the
wrappers off one by one and looks at a value eight times at most. The last look has to find a value
without a wrapper, so that seven wrappers come off and eight do not, although the message about
them speaks of more than eight.

All that reads values goes through resolution: a scalar that is bound, a parameter, each element of
a collection, the boundary row of a cursor. So each of these makes of wrapped values what it makes
of the values without their wrappers, up to the same number, and fails beyond it. What is shown is
that two runs are *limited*, which is kept when runs are put together.

Main results:

* `unwrap_eq` — what looking at a value a number of times gives.
* `takeOff_of_endless` — wrappers without end.
* `Limited.bind` — limited runs one after the other.
* `resolution_limited` — scalars, parameters, elements and boundary rows.
* `eight_wrappers_refused` — as many wrappers as the message allows.
-/

namespace SqlPaging

namespace Value

/-! ## Wrappers -/

/-- The number of wrappers around a value. -/
def wrappers : Value → Nat
  | .backed inner => inner.wrappers + 1
  | _ => 0

/-- The value inside all wrappers. -/
def unwrapped : Value → Value
  | .backed inner => inner.unwrapped
  | v => v

/-- A value in a number of wrappers. -/
def wrapped : Nat → Value → Value
  | 0, v => v
  | k + 1, v => .backed (wrapped k v)

theorem wrappers_of_not_backed {v : Value} (h : v.isBacked = false) : v.wrappers = 0 := by
  cases v with
  | backed inner => cases h
  | _ => rfl

/-- A plain value has nothing to be taken off. -/
theorem unwrapped_of_not_backed {v : Value} (h : v.isBacked = false) : v.unwrapped = v := by
  cases v with
  | backed inner => cases h
  | _ => rfl

/-- Inside all wrappers there is no wrapper. -/
theorem isBacked_unwrapped : ∀ v : Value, v.unwrapped.isBacked = false
  | .backed inner => isBacked_unwrapped inner
  | .null | .bool _ | .int _ | .float _ | .string _ | .bytes _ | .dateTime _ | .date _
  | .array _ | .map _ => rfl

theorem wrappers_wrapped (k : Nat) (v : Value) : (wrapped k v).wrappers = k + v.wrappers := by
  induction k with
  | zero => rw [wrapped, Nat.zero_add]
  | succ k ih =>
    rw [wrapped, wrappers, ih]
    omega

theorem unwrapped_wrapped (k : Nat) (v : Value) : (wrapped k v).unwrapped = v.unwrapped := by
  induction k with
  | zero => rfl
  | succ k ih => rw [wrapped, unwrapped, ih]

/-- Looking at a value takes all wrappers off if they are fewer than the looks. -/
theorem unwrap_eq (looks : Nat) (v : Value) :
    unwrap looks v = if v.wrappers < looks then .ok v.unwrapped else .error .tooDeep := by
  -- the induction is on the looks: each takes one wrapper off, or is the last that is needed
  induction looks generalizing v with
  | zero => rw [unwrap, if_neg (Nat.not_lt_zero _)]
  | succ looks ih =>
    cases hbacked : v.isBacked with
    | false =>
      rw [unwrap_of_not_backed hbacked, wrappers_of_not_backed hbacked,
        unwrapped_of_not_backed hbacked, if_pos (Nat.succ_pos _)]
    | true =>
      cases v with
      | backed inner =>
        rw [unwrap, ih, wrappers, unwrapped]
        simp only [Nat.add_lt_add_iff_right]
      | _ => cases hbacked

/-- A value resolves to what is inside, if it has fewer wrappers than the limit. -/
theorem resolve_eq (v : Value) :
    v.resolve =
      if v.wrappers < resolutionLimit then .ok v.unwrapped else .error .tooDeep :=
  unwrap_eq resolutionLimit v

theorem resolve_unwrapped (v : Value) : v.unwrapped.resolve = .ok v.unwrapped :=
  resolve_of_not_backed v.isBacked_unwrapped

/-! ## Wrappers without end -/

/-- What is directly inside of a wrapper. -/
def inside? : Value → Option Value
  | .backed inner => some inner
  | _ => none

/-- Looks at a thing at most the given number of times, and goes inside each time it is a
wrapper. A domain may answer with wrappers without end, which no value consists of. -/
def takeOff {α : Type} (inside? : α → Option α) : Nat → α → Except Unresolved α
  | 0, _ => .error .tooDeep
  | looks + 1, a =>
    match inside? a with
    | some b => takeOff inside? looks b
    | none => .ok a

/-- What is inside of a number of wrappers, if there are as many. -/
def layer? {α : Type} (inside? : α → Option α) : Nat → α → Option α
  | 0, a => some a
  | k + 1, a => (inside? a).bind (layer? inside? k)

/-- Values are looked at in this way. -/
theorem unwrap_eq_takeOff (looks : Nat) (v : Value) : unwrap looks v = takeOff inside? looks v := by
  induction looks generalizing v with
  | zero => rfl
  | succ looks ih =>
    cases v with
    | backed inner => exact ih inner
    | _ => rfl

/-- A thing with a wrapper inside of every wrapper has too many of them. -/
theorem takeOff_of_endless {α : Type} {inside? : α → Option α} {a : α}
    (h : ∀ k, (layer? inside? k a).isSome = true) (looks : Nat) :
    takeOff inside? looks a = .error .tooDeep := by
  induction looks generalizing a with
  | zero => rfl
  | succ looks ih =>
    -- what is inside of an endless chain is one
    obtain ⟨b, hb⟩ : ∃ b, inside? a = some b := by
      have hfirst := h 1
      cases ha : inside? a with
      | none =>
        rw [layer?, ha] at hfirst
        cases hfirst
      | some b => exact ⟨b, rfl⟩
    have hrest : ∀ k, (layer? inside? k b).isSome = true := by
      intro k
      have hnext := h (k + 1)
      rwa [layer?, hb] at hnext
    rw [takeOff, hb]
    exact ih hrest

end Value

/-! ## Limited runs -/

/-- Within a limit, a run is that of other things; beyond it, the run fails, and if nothing is
wrong with the other things, it fails for being too deep. -/
structure Limited {ε β : Type} (within : Prop) (tooDeep : ε → Prop) (x y : Except ε β) : Prop where
  same : within → x = y
  fails : ¬ within → ∃ e, x = .error e ∧ ∀ b, y = .ok b → tooDeep e

namespace Limited

variable {ε ε' β γ : Type} {P Q : Prop} {T : ε → Prop} {x y : Except ε β}

/-- Two steps that fail in the same way are within any limit. -/
theorem of_error {e : ε} (hx : x = .error e) (hy : y = .error e) : Limited P T x y where
  same _ := hx.trans hy.symm
  fails _ := ⟨e, hx, fun b hb => by cases hy.symm.trans hb⟩

theorem congr (h : Limited P T x y) (hPQ : P ↔ Q) : Limited Q T x y where
  same hQ := h.same (hPQ.mpr hQ)
  fails hQ := h.fails (mt hPQ.mp hQ)

theorem mapError {T' : ε' → Prop} {f : ε → ε'} (h : Limited P T x y) (hf : ∀ e, T e → T' (f e)) :
    Limited P T' (x.mapError f) (y.mapError f) where
  same hP := by rw [h.same hP]
  fails hP := by
    obtain ⟨e, rfl, he⟩ := h.fails hP
    exact ⟨f e, rfl, fun b hb => hf e (he b (mapError_eq_ok.mp hb))⟩

/-- Results may be changed by what does not fail. -/
theorem map {f : β → γ} (h : Limited P T x y) : Limited P T (x.map f) (y.map f) where
  same hP := by rw [h.same hP]
  fails hP := by
    obtain ⟨e, rfl, he⟩ := h.fails hP
    refine ⟨e, rfl, fun c hc => ?_⟩
    obtain ⟨b, hb, -⟩ := map_eq_ok.mp hc
    exact he b hb

/-- Limited runs one after the other are limited by both limits. -/
theorem bind {f g : β → Except ε γ} (h : Limited P T x y) (hfg : ∀ b, Limited Q T (f b) (g b)) :
    Limited (P ∧ Q) T (x >>= f) (y >>= g) where
  same hPQ := by
    have hrest : f = g := funext fun b => (hfg b).same hPQ.2
    rw [h.same hPQ.1, hrest]
  fails hPQ := by
    by_cases hP : P
    · -- the first run is within its limit: what is wrong with it is no wrapper
      rw [h.same hP]
      cases y with
      | error e =>
        refine ⟨e, rfl, fun c hc => ?_⟩
        obtain ⟨b, hb, -⟩ := bind_eq_ok.mp hc
        cases hb
      | ok b => exact (hfg b).fails fun hQ => hPQ ⟨hP, hQ⟩
    · obtain ⟨e, rfl, he⟩ := h.fails hP
      refine ⟨e, rfl, fun c hc => ?_⟩
      obtain ⟨b, hb, -⟩ := bind_eq_ok.mp hc
      exact he b hb

/-- A limited run for an item, and one for the items behind it. -/
theorem cons {α : Type} (P : α → Prop) {a : α} {l : List α} {f g : β → Except ε γ}
    (h : Limited (P a) T x y) (hfg : ∀ b, Limited (∀ c ∈ l, P c) T (f b) (g b)) :
    Limited (∀ c ∈ a :: l, P c) T (x >>= f) (y >>= g) :=
  (h.bind hfg).congr List.forall_mem_cons.symm

/-- What follows a limited step is limited as the step is. -/
theorem andThen (h : Limited P T x y) (f : β → Except ε γ) : Limited P T (x >>= f) (y >>= f) := by
  have hsame : ∀ b, Limited True T (f b) (f b) := fun b =>
    ⟨fun _ => rfl, fun hn => absurd trivial hn⟩
  exact (h.bind hsame).congr (iff_of_eq (and_true P))

end Limited

/-! ## Scalars -/

open Value

/-- Resolving is limited by the wrappers of the value. -/
theorem limited_resolve (v : Value) :
    Limited (v.wrappers < resolutionLimit) (· = .tooDeep) v.resolve v.unwrapped.resolve where
  same h := by rw [resolve_eq, if_pos h, resolve_unwrapped]
  fails h := ⟨.tooDeep, by rw [resolve_eq, if_neg h], fun _ _ => rfl⟩

theorem limited_resolveScalar (v : Value) :
    Limited (v.wrappers < resolutionLimit) (· = .tooDeep) v.resolveScalar
      v.unwrapped.resolveScalar :=
  (limited_resolve v).andThen _

theorem limited_normalizeScalar (d : Dialect) (v : Value) :
    Limited (v.wrappers < resolutionLimit) (· = .unresolved .tooDeep) (normalizeScalar d v)
      (normalizeScalar d v.unwrapped) := by
  have hresolved : Limited (v.wrappers < resolutionLimit) (· = ParamFault.unresolved .tooDeep)
      (v.resolveScalar.mapError .unresolved) (v.unwrapped.resolveScalar.mapError .unresolved) :=
    (limited_resolveScalar v).mapError fun e he => by rw [he]
  exact hresolved.andThen _

/-! ## Parameters -/

/-- No wrapper too many, neither around the value nor around an element of a collection. -/
def Value.Shallow (v : Value) : Prop :=
  v.wrappers < resolutionLimit ∧
    ∀ vs, v.unwrapped.elements? = some vs → ∀ w ∈ vs, w.wrappers < resolutionLimit

/-- The value without wrappers, also around the elements of a collection. -/
def Value.bare (v : Value) : Value :=
  match v.unwrapped with
  | .array items => .array (items.map unwrapped)
  | .map fields => .map (fields.map fun f => (f.1, f.2.unwrapped))
  | scalar => scalar

/-- The parameters without wrappers. -/
def Params.bare (ps : Params) : Params := ps.map fun p => (p.1, p.2.bare)

/-- A parameter has too many wrappers. -/
def ParamError.TooDeep (e : ParamError) : Prop := e.fault = .unresolved .tooDeep

namespace Normalized

variable (d : Dialect) (n : Normalized) (name : String)

/-- A value that is read for a parameter, with its name in what is wrong with it. -/
theorem limited_named (v : Value) :
    Limited (v.wrappers < resolutionLimit) ParamError.TooDeep
      ((v.resolve.mapError .unresolved).mapError (ParamError.mk name))
      ((v.unwrapped.resolve.mapError .unresolved).mapError (ParamError.mk name)) := by
  have hfault : Limited (v.wrappers < resolutionLimit) (· = ParamFault.unresolved .tooDeep)
      (v.resolve.mapError .unresolved) (v.unwrapped.resolve.mapError .unresolved) :=
    (limited_resolve v).mapError fun e he => by rw [he]
  exact hfault.mapError fun fault hfault => hfault

theorem limited_pushElement (v : Value) :
    Limited (v.wrappers < resolutionLimit) ParamError.TooDeep (n.pushElement d name v)
      (n.pushElement d name v.unwrapped) :=
  (limited_named name v).andThen _

/-- The elements of a collection are limited by the wrappers of each. -/
theorem limited_pushElements (index : Nat) (vs : List Value) :
    Limited (∀ v ∈ vs, v.wrappers < resolutionLimit) ParamError.TooDeep
      (pushElements d name index n vs) (pushElements d name index n (vs.map unwrapped)) := by
  induction vs generalizing index n with
  | nil => exact ⟨fun _ => rfl, fun h => absurd (fun v hv => nomatch hv) h⟩
  | cons v vs ih =>
    rw [List.map_cons, pushElements, pushElements]
    exact .cons (fun v : Value => v.wrappers < resolutionLimit)
      (limited_pushElement d n (expandedName name index) v) fun m => ih m (index + 1)

/-- A collection is limited as its elements are. -/
theorem limited_pushCollection (vs : List Value) :
    Limited (∀ v ∈ vs, v.wrappers < resolutionLimit) ParamError.TooDeep
      (n.pushCollection d name vs) (n.pushCollection d name (vs.map unwrapped)) := by
  rw [pushCollection, pushCollection, List.length_map]
  exact (limited_pushElements d n name 0 vs).andThen _

/-- A parameter is limited by its own wrappers and by those of its elements. -/
theorem limited_pushParam (v : Value) :
    Limited v.Shallow ParamError.TooDeep (n.pushParam d name v) (n.pushParam d name v.bare) := by
  unfold pushParam
  split
  · exact .of_error rfl rfl
  · by_cases hv : v.wrappers < resolutionLimit
    · -- the wrappers around the value come off; those around elements are left
      have hbare : v.bare.isBacked = false := by
        have hunwrapped := v.isBacked_unwrapped
        rw [bare]
        cases hw : v.unwrapped with
        | backed inner =>
          rw [hw] at hunwrapped
          cases hunwrapped
        | _ => rfl
      rw [(limited_resolve v).same hv, resolve_unwrapped, resolve_of_not_backed hbare]
      -- what is left of the condition is about the elements
      have hshallow : v.Shallow ↔
          ∀ vs, v.unwrapped.elements? = some vs → ∀ w ∈ vs, w.wrappers < resolutionLimit :=
        and_iff_right hv
      have hunwrapped := v.isBacked_unwrapped
      refine Limited.congr ?_ hshallow.symm
      rw [bare]
      cases hw : v.unwrapped with
      | array items =>
        refine (limited_pushCollection d n name items).congr ?_
        simp [elements?]
      | map fields =>
        have hfields : (fields.map fun f => (f.1, f.2.unwrapped)).map (·.2) =
            (fields.map (·.2)).map unwrapped := by
          rw [List.map_map, List.map_map]
          rfl
        have hpush := limited_pushCollection d n name (fields.map (·.2))
        rw [← hfields] at hpush
        refine hpush.congr ?_
        simp [elements?]
      | backed inner =>
        rw [hw] at hunwrapped
        cases hunwrapped
      | _ => exact ⟨fun _ => rfl, fun h => absurd (fun vs hvs => by cases hvs) h⟩
    · obtain ⟨e, he, -⟩ := (limited_resolve v).fails hv
      rw [resolve_eq, if_neg hv]
      exact ⟨fun h => absurd h.1 hv, fun _ => ⟨⟨name, .unresolved .tooDeep⟩, rfl, fun _ _ => rfl⟩⟩

end Normalized

/-- Parameters are limited by the wrappers of each. -/
theorem limited_normalize (d : Dialect) (ps : Params) :
    Limited (∀ p ∈ ps, p.2.Shallow) ParamError.TooDeep (normalize d ps) (normalize d ps.bare) := by
  -- along the parameters, from any binds that are there
  suffices ∀ n : Normalized, Limited (∀ p ∈ ps, p.2.Shallow) ParamError.TooDeep
      (ps.foldlM (fun n p => n.pushParam d p.1 p.2) n)
      (ps.bare.foldlM (fun n p => n.pushParam d p.1 p.2) n) from this .empty
  induction ps with
  | nil => exact fun n => ⟨fun _ => rfl, fun h => absurd (fun p hp => nomatch hp) h⟩
  | cons p ps ih =>
    intro n
    rw [Params.bare, List.map_cons, List.foldlM_cons, List.foldlM_cons]
    exact .cons (fun p : String × Value => p.2.Shallow) (n.limited_pushParam d p.1 p.2) ih

/-! ## Boundary rows -/

/-- The row without the wrappers around its values. -/
def Row.bare (row : Row) : Row := fun column => (row column).map unwrapped

/-- A row without wrappers has what is inside the values of the row. -/
theorem Row.lookup_bare (row : Row) (e : String) :
    row.bare.lookup e = (row.lookup e).map unwrapped := by
  rw [lookup, lookup, bare]
  cases row e with
  | some v => rfl
  | none =>
    cases unqualified? e with
    | none => rfl
    | some name => cases row name <;> rfl

/-- The values that a row has for expressions have no wrapper too many. -/
def Row.Shallow (row : Row) (es : List String) : Prop :=
  ∀ e ∈ es, ∀ v, row.lookup e = some v → v.wrappers < resolutionLimit

/-- A row's value has too many wrappers. -/
def CursorFault.TooDeep (fault : CursorFault) : Prop := ∃ e, fault = .notScalar e .tooDeep

namespace Cursor

/-- A boundary value is limited by the wrappers of the value in the row. -/
theorem limited_boundary (row : Row) (e : String) :
    Limited (∀ v, row.lookup e = some v → v.wrappers < resolutionLimit) CursorFault.TooDeep
      (boundary row e) (boundary row.bare e) := by
  unfold boundary
  rw [Row.lookup_bare]
  cases hv : row.lookup e with
  | none => exact .of_error rfl rfl
  | some v =>
    -- a wrapped value is looked up as before, and then it has to resolve to a scalar
    have hscalar : Limited (v.wrappers < resolutionLimit) CursorFault.TooDeep
        (v.resolveScalar.mapError (.notScalar e))
        (v.unwrapped.resolveScalar.mapError (.notScalar e)) :=
      (limited_resolveScalar v).mapError fun why hwhy => ⟨e, by rw [hwhy]⟩
    refine hscalar.congr ?_
    simp

/-- Boundary values are limited by the wrappers of each. -/
theorem limited_boundaries (row : Row) (es : List String) :
    Limited (row.Shallow es) CursorFault.TooDeep (boundaries row es) (boundaries row.bare es) := by
  induction es with
  | nil => exact ⟨fun _ => rfl, fun h => absurd (fun e he => nomatch he) h⟩
  | cons e es ih =>
    rw [boundaries, boundaries, List.mapM_cons, List.mapM_cons]
    have hrest := fun p : String × Value => ih.andThen fun ps => pure (p :: ps)
    exact .cons (fun e => ∀ v, row.lookup e = some v → v.wrappers < resolutionLimit)
      (limited_boundary row e).map hrest

/-- A cursor is limited by the wrappers in its row. -/
theorem limited_create (order : Order) (pager : Pager) (row : Row) (eachSide : Option Int64)
    (now : Calendar.DateTime) :
    Limited (row.Shallow order.expressions) CursorFault.TooDeep
      (create order pager row eachSide now) (create order pager row.bare eachSide now) := by
  unfold create
  split
  · exact .of_error rfl rfl
  · exact (limited_boundaries row order.expressions).andThen _

end Cursor

/-! ## The bound -/

open Cursor

/-- Wrappers come off just if they are fewer than the looks, whatever is inside of more of them, and
wrappers without end never do. A scalar that is bound, parameters with their elements, and the
boundary row of a cursor are read up to the same bound. -/
theorem resolution_limited (d : Dialect) :
    (∀ (k : Nat) (v : Value), (wrapped k v).resolve =
      if k + v.wrappers < resolutionLimit then .ok v.unwrapped else .error .tooDeep) ∧
    (∀ (looks : Nat) (v : Value), unwrap looks v = takeOff inside? looks v) ∧
    (∀ (α : Type) (inside? : α → Option α) (a : α), (∀ k, (layer? inside? k a).isSome = true) →
      takeOff inside? resolutionLimit a = .error .tooDeep) ∧
    (∀ v : Value, Limited (v.wrappers < resolutionLimit) (· = .unresolved .tooDeep)
      (normalizeScalar d v) (normalizeScalar d v.unwrapped)) ∧
    (∀ ps : Params, Limited (∀ p ∈ ps, p.2.Shallow) ParamError.TooDeep (normalize d ps)
      (normalize d ps.bare)) ∧
    ∀ (order : Order) (pager : Pager) (row : Row) (eachSide : Option Int64)
      (now : Calendar.DateTime),
      Limited (row.Shallow order.expressions) CursorFault.TooDeep
        (create order pager row eachSide now) (create order pager row.bare eachSide now) := by
  refine ⟨fun k v => ?_, unwrap_eq_takeOff, fun α inside? a h => takeOff_of_endless h _,
    limited_normalizeScalar d, limited_normalize d, limited_create⟩
  -- wrapping adds wrappers, and leaves what is inside
  rw [resolve_eq, wrappers_wrapped, unwrapped_wrapped]

/-- As many wrappers as come off, around a list, its element, and the value of a row. -/
theorem resolution_limited_of_seven :
    (wrapped 7 (.int 5)).resolve = .ok (.int 5) ∧
      normalizeScalar .sqlite (wrapped 7 (.int 5)) = .ok (.int 5) ∧
      normalize .sqlite [("ids", wrapped 7 (.array [wrapped 7 (.int 5)]))] =
        .ok ⟨[⟨"ids__0", .int 5⟩], [("ids", ["ids__0"])]⟩ ∧
      create ⟨[⟨"id", .ascending⟩]⟩ (.ofPage 2 10) (Fields.get? [("id", wrapped 7 (.int 5))]) none
        default = .ok ⟨.ofPage 2 10, [("id", .int 5)], none, .next, true, default⟩ := by
  obtain ⟨hresolve, -, -, hscalar, hparams, hcreate⟩ := resolution_limited .sqlite
  refine ⟨hresolve 7 (.int 5), (hscalar (wrapped 7 (.int 5))).same (by decide), ?_, ?_⟩
  · -- seven wrappers around the list, and seven around its element
    rw [(hparams _).same]
    · rfl
    · intro p hp
      obtain rfl := List.mem_singleton.mp hp
      refine ⟨by decide, fun vs hvs w hw => ?_⟩
      obtain rfl := Option.some.inj hvs
      obtain rfl := List.mem_singleton.mp hw
      decide
  · -- and seven around the value in the row
    rw [(hcreate _ _ _ _ _).same]
    · rfl
    · intro e he v hv
      obtain rfl := List.mem_singleton.mp he
      obtain rfl := Option.some.inj hv
      decide

/-- Eight wrappers do not come off, though they are not more than eight. -/
theorem eight_wrappers_refused :
    Value.isBacked (.int 5) = false ∧ (wrapped 8 (.int 5)).wrappers = 8 ∧
      (wrapped 8 (.int 5)).resolve = .error .tooDeep ∧
      Unresolved.message .tooDeep = "domain value wrappers nested deeper than 8 levels" ∧
      normalizeScalar .sqlite (wrapped 8 (.int 5)) = .error (.unresolved .tooDeep) ∧
      normalize .sqlite [("ids", .array [wrapped 8 (.int 5)])] =
        .error ⟨"ids__0", .unresolved .tooDeep⟩ ∧
      create ⟨[⟨"id", .ascending⟩]⟩ (.ofPage 2 10) (Fields.get? [("id", wrapped 8 (.int 5))]) none
        default = .error (.notScalar "id" .tooDeep) :=
  ⟨rfl, rfl, rfl, rfl, rfl, rfl, rfl⟩

end SqlPaging
