import SqlPaging.Proofs.Param.Produced
import SqlPaging.Proofs.Query.Count
import SqlPaging.Proofs.Query.Region

/-!
# SqlPaging — empty collections in a `NOT IN`

An empty collection is written as `NULL`. In a list behind `NOT IN` that matches no row, whatever
else is in the list, so it is refused there. What is looked at are the three tokens in front of
the placeholder, and these are `NOT IN (` for the first element only: behind another element, an
empty collection is not seen.

Main results:

* `not_in_head_refused` — no first element of a list behind `NOT IN` is an empty collection.
* `not_in_tail_missed` — another element can be one.
-/

namespace SqlPaging

/-- A parameter has a value that stands for a collection of nothing. -/
def Params.Empty (ps : Params) (name : String) : Prop :=
  ∃ v, (name, v) ∈ ps ∧ v.collection? = some []

/-- Nothing is remembered under a name but for an empty collection. -/
theorem get?_expansions_eq_nil_iff {d : Dialect} {ps : Params} {n : Normalized} {name : String}
    (hd : Fields.Distinct ps) (hn : normalize d ps = .ok n) :
    n.expansions.get? name = some [] ↔ ps.Empty name := by
  constructor
  · intro hget
    obtain ⟨⟨name, v⟩, hp, resolved, vs, rfl, hv, hvs, hnames⟩ := expansions_of_normalize hn hget
    refine ⟨v, hp, Value.collection?_eq_some.mpr ⟨resolved, hv, ?_⟩⟩
    -- no names means no elements
    rw [elementNames, eq_comm, List.map_eq_nil_iff, List.range_eq_nil] at hnames
    rw [hvs, List.length_eq_zero_iff.mp hnames]
  · rintro ⟨v, hp, hv⟩
    have hdistinct : n.expansions.Distinct := by
      rw [expansions_eq hn]
      exact Fields.distinct_ofPairs _
    refine Fields.get?_of_mem hdistinct (e := (name, [])) ?_
    rw [expansions_eq hn, ofPairs_remembered hd]
    exact List.mem_filterMap.mpr ⟨(name, v), hp, by simp [remembered?, produced, hv]⟩

namespace Sql

/-! ## Lists behind `NOT IN` -/

/-- The elements of a list whose parentheses have the given depth, from the tokens behind the
opening one: those up to the closing one, parted by the commas outside of other parentheses. -/
def elements (depth : Nat) (ts : List Token) : List (List Token) :=
  (ts.takeWhile fun t => depth < t.depth).splitOnP fun t =>
    t.text = [','] && t.depth == depth + 1

/-- A list behind the words `NOT IN` has an element at an index. -/
def NotInElement (ts : List Token) (i : Nat) (element : List Token) : Prop :=
  ∃ front not_ in_ open_ back, ts = front ++ not_ :: in_ :: open_ :: back ∧
    not_.isWord ["NOT"] = true ∧ in_.isWord ["IN"] = true ∧ open_.kind = .openParen ∧
      (elements open_.depth back)[i]? = some element

/-- The first element starts behind the parenthesis. -/
theorem eq_cons_of_elements {depth : Nat} {ts element : List Token} {t : Token}
    (h : (elements depth ts)[0]? = some (t :: element)) : ∃ back, ts = t :: back := by
  cases ts with
  | nil => simp [elements] at h
  | cons u ts =>
    refine ⟨ts, ?_⟩
    rw [elements, List.takeWhile_cons] at h
    -- the list has a token, and that is not a comma: the first element would be empty
    split at h
    · rw [List.splitOnP_cons_eq_if_modifyHead] at h
      split at h
      · simp at h
      · obtain ⟨first, others, hsplit⟩ := List.exists_cons_of_ne_nil (List.splitOnP_ne_nil _ _)
        rw [hsplit, List.modifyHead_cons, List.getElem?_cons_zero] at h
        rw [(List.cons.inj (Option.some.inj h)).1]
    · simp at h

namespace Draft

/-- What is refused is an empty collection. -/
theorem get?_of_expandFrom {x : Fields (List String)} {previous ts : List Token} {name : String}
    (h : expandFrom x previous ts = .error name) : x.get? name = some [] := by
  induction ts generalizing previous with
  | nil => cases h
  | cons t ts ih =>
    rw [expandFrom_cons] at h
    split at h
    · -- the name that the error tells belongs to this token
      next hempty =>
      obtain ⟨own, hown, hget⟩ := Option.bind_eq_some_iff.mp hempty.1
      rw [hown, Option.getD_some] at h
      rw [← Except.error.inj h, hget]
    · rcases bind_eq_error.mp h with hmore | ⟨draft, -, h⟩
      · exact ih hmore
      · cases h

/-- An empty collection at the front of a list behind `NOT IN` is refused. -/
theorem expanded_of_head {s : Statement} {x : Fields (List String)} {t : Token} {name : String}
    {element : List Token} (h : NotInElement s.tokens 0 (t :: element))
    (ht : t.placeholder? = some name) (hname : x.get? name = some []) :
    ∃ name', expanded s x = .error name' ∧ x.get? name' = some [] := by
  obtain ⟨front, not_, in_, open_, back, htokens, hnot, hin, hopen, helement⟩ := h
  obtain ⟨back, rfl⟩ := eq_cons_of_elements helement
  cases hexpanded : expanded s x with
  | error name' => exact ⟨name', rfl, get?_of_expandFrom hexpanded⟩
  | ok draft =>
    -- the placeholder stands behind three tokens that are looked at
    have hsplit : s.tokens = (front ++ [not_, in_, open_]) ++ t :: back := by
      rw [htokens, List.append_assoc]
      rfl
    rw [expanded, hsplit, expandFrom_append, bind_eq_ok] at hexpanded
    obtain ⟨first, -, hrest⟩ := hexpanded
    -- the words are right in front of the placeholder, whatever comes before them
    have hbefore : followsNotIn ((front ++ [not_, in_, open_]).reverse ++ []) = true := by
      simp [followsNotIn_eq, hopen, hin, hnot]
    rw [expandFrom_cons, if_pos ⟨by rw [ht, Option.bind_some, hname], hbefore⟩] at hrest
    cases hrest

end Draft

end Sql

namespace Query

open Sql (NotInElement Statement)

variable {d : Dialect} {sql : String} {ps : Params} {s : Statement}

/-- A placeholder of an empty collection is an element of a list behind `NOT IN`. -/
def EmptyElement (ps : Params) (s : Statement) (i : Nat) : Prop :=
  ∃ t name, NotInElement s.tokens i [t] ∧ t.placeholder? = some name ∧ ps.Empty name

/-- A query is refused for a parameter: for an empty collection, if all can be normalized. -/
def Refused {α : Type} (d : Dialect) (ps : Params) (q : Except PageError α) : Prop :=
  ∃ e, q = .error (.normalize e) ∧
    ∀ n, normalize d ps = .ok n → e.fault = .emptyInNotIn ∧ ps.Empty e.param

/-- The text of a statement is not expanded with an empty collection at the front of a list
behind `NOT IN`. -/
theorem expand_of_head {n : Normalized} (hd : Fields.Distinct ps) (hn : normalize d ps = .ok n)
    (hempty : EmptyElement ps s 0) :
    ∃ e, expand s n = .error (.normalize e) ∧ e.fault = .emptyInNotIn ∧ ps.Empty e.param := by
  obtain ⟨t, name, helement, ht, hname⟩ := hempty
  obtain ⟨name', hexpanded, hname'⟩ := Sql.Draft.expanded_of_head helement ht
    ((get?_expansions_eq_nil_iff hd hn).mpr hname)
  refine ⟨⟨name', .emptyInNotIn⟩, ?_, rfl, (get?_expansions_eq_nil_iff hd hn).mp hname'⟩
  rw [expand, hexpanded]
  rfl

/-- No first element of a list behind `NOT IN` is an empty collection, in a query that counts or
is paged. Nothing else being wrong with the statement, this is what it is refused for. -/
theorem not_in_head_refused (hd : Fields.Distinct ps) (hs : parse d sql = .ok s) :
    (∀ c, count d sql ps = .ok c → ∀ i, EmptyElement ps s i → i ≠ 0) ∧
      (∀ order pager cursor q, compile d sql order ps pager cursor = .ok q →
        ∀ i, EmptyElement ps s i → i ≠ 0) ∧
      (EmptyElement ps s 0 → Refused d ps (count d sql ps) ∧
        ∀ order pager cursor, s.ensurePageable (!order.isEmpty) = .ok () →
          Refused d ps (compile d sql order ps pager cursor)) := by
  have hrefused : EmptyElement ps s 0 → Refused d ps (count d sql ps) ∧
      ∀ order pager cursor, s.ensurePageable (!order.isEmpty) = .ok () →
        Refused d ps (compile d sql order ps pager cursor) := by
    intro hempty
    cases hn : normalize d ps with
    | error e =>
      -- the parameters are looked at before the statement
      refine ⟨⟨e, ?_, fun n hn' => ?_⟩, fun order pager cursor _ => ⟨e, ?_, fun n hn' => ?_⟩⟩
      · rw [count, hn]
        rfl
      · cases hn.symm.trans hn'
      · rw [compile, hn]
        rfl
      · cases hn.symm.trans hn'
    | ok n =>
      obtain ⟨e, hexpand, he⟩ := expand_of_head hd hn hempty
      refine ⟨⟨e, ?_, fun _ _ => he⟩, fun order pager cursor hpage => ⟨e, ?_, fun _ _ => he⟩⟩
      · simp only [count, hn, hs, hexpand, bind, Except.bind, Except.mapError]
      · simp only [compile, hn, hs, hpage, hexpand, bind, Except.bind, Except.mapError]
  -- whatever is returned was not refused, so that the list is not empty in front
  refine ⟨?_, ?_, hrefused⟩
  · rintro c hc i hempty rfl
    obtain ⟨e, he, -⟩ := (hrefused hempty).1
    cases hc.symm.trans he
  · rintro order pager cursor q hq i hempty rfl
    obtain ⟨-, s', -, -, -, -, hs', hpage, -⟩ := compile_eq_ok_iff.mp hq
    obtain rfl := Except.ok.inj (hs.symm.trans hs')
    obtain ⟨e, he, -⟩ := (hrefused hempty).2 order pager cursor hpage
    cases hq.symm.trans he

/-- One parameter, for a collection of nothing. -/
def noValues : Params := [("e", .array [])]

theorem empty_noValues : noValues.Empty "e" := ⟨.array [], List.mem_singleton.mpr rfl, rfl⟩

/-- A comment between the words and the case of letters make no difference. -/
theorem not_in_head_refused_of_comment :
    ∃ s, Fields.Distinct noValues ∧
      parse .mySql "SELECT a FROM t WHERE (a not/* */in (:e, 1))" = .ok s ∧
      EmptyElement noValues s 0 ∧
      Refused .mySql noValues (count .mySql "SELECT a FROM t WHERE (a not/* */in (:e, 1))" noValues) ∧
      Refused .mySql noValues (compile .mySql "SELECT a FROM t WHERE (a not/* */in (:e, 1))" ⟨[]⟩
        noValues (.ofPage 1 10) none) := by
  have hd : Fields.Distinct noValues := List.nodup_singleton "e"
  obtain ⟨s, hs, htokens, hpage⟩ :
      ∃ s, parse .mySql "SELECT a FROM t WHERE (a not/* */in (:e, 1))" = .ok s ∧
        s.tokens.drop 7 =
          [⟨.word, "not".toList, " ".toList, 25, 1⟩, ⟨.word, "in".toList, "/* */".toList, 33, 1⟩,
            ⟨.openParen, "(".toList, " ".toList, 36, 1⟩, ⟨.placeholder, ":e".toList, [], 37, 2⟩,
            ⟨.symbol, ",".toList, [], 39, 2⟩, ⟨.number, "1".toList, " ".toList, 41, 2⟩,
            ⟨.closeParen, ")".toList, [], 42, 1⟩, ⟨.closeParen, ")".toList, [], 43, 0⟩] ∧
        s.ensurePageable false = .ok () :=
    exists_eq_ok_of_any (by decide +kernel)
  -- neither case nor a comment between the words makes a difference
  have hempty : EmptyElement noValues s 0 := by
    refine ⟨⟨.placeholder, ":e".toList, [], 37, 2⟩, "e", ?_, by decide, empty_noValues⟩
    exact ⟨s.tokens.take 7, _, _, _, _, by rw [← htokens, List.take_append_drop], by decide,
      by decide, rfl, by decide⟩
  -- the element is the first one, so both queries are refused
  obtain ⟨hcount, hcompile⟩ := (not_in_head_refused hd hs).2.2 hempty
  exact ⟨s, hd, hs, hempty, hcount, hcompile _ _ _ hpage⟩

/-- Behind another element, an empty collection is written as `NULL`. -/
theorem not_in_tail_missed :
    ∃ s c q, parse .sqlite "SELECT a FROM t WHERE a NOT IN (1, :e)" = .ok s ∧
      EmptyElement noValues s 1 ∧
      count .sqlite "SELECT a FROM t WHERE a NOT IN (1, :e)" noValues = .ok c ∧
      c.sql = "SELECT COUNT(*) FROM (SELECT a FROM t WHERE a NOT IN (1, NULL)) AS seekpage_count" ∧
      compile .sqlite "SELECT a FROM t WHERE a NOT IN (1, :e)" ⟨[]⟩ noValues (.ofPage 1 10) none =
        .ok q ∧
      q.sql = "SELECT a FROM t WHERE a NOT IN (1, NULL) LIMIT 11 OFFSET 0" := by
  obtain ⟨s, hs, htokens⟩ :
      ∃ s, parse .sqlite "SELECT a FROM t WHERE a NOT IN (1, :e)" = .ok s ∧
        s.tokens.drop 6 =
          [⟨.word, "NOT".toList, " ".toList, 24, 0⟩, ⟨.word, "IN".toList, " ".toList, 28, 0⟩,
            ⟨.openParen, "(".toList, " ".toList, 31, 0⟩, ⟨.number, "1".toList, [], 32, 1⟩,
            ⟨.symbol, ",".toList, [], 33, 1⟩, ⟨.placeholder, ":e".toList, " ".toList, 35, 1⟩,
            ⟨.closeParen, ")".toList, [], 37, 0⟩] :=
    exists_eq_ok_of_any (by decide +kernel)
  obtain ⟨c, hc, hcsql⟩ :
      ∃ c, count .sqlite "SELECT a FROM t WHERE a NOT IN (1, :e)" noValues = .ok c ∧ c.sql =
        "SELECT COUNT(*) FROM (SELECT a FROM t WHERE a NOT IN (1, NULL)) AS seekpage_count" :=
    exists_eq_ok_of_any (by decide +kernel)
  obtain ⟨q, hq, hqsql⟩ :
      ∃ q, compile .sqlite "SELECT a FROM t WHERE a NOT IN (1, :e)" ⟨[]⟩ noValues (.ofPage 1 10)
        none = .ok q ∧ q.sql = "SELECT a FROM t WHERE a NOT IN (1, NULL) LIMIT 11 OFFSET 0" :=
    exists_eq_ok_of_any (by decide +kernel)
  refine ⟨s, c, q, hs, ?_, hc, hcsql, hq, hqsql⟩
  -- the empty list is the second element, behind a comma
  refine ⟨⟨.placeholder, ":e".toList, " ".toList, 35, 1⟩, "e", ?_, by decide, empty_noValues⟩
  -- the six tokens in front are not looked at
  exact ⟨s.tokens.take 6, _, _, _, _, by rw [← htokens, List.take_append_drop], by decide,
    by decide, rfl, by decide⟩

end Query

end SqlPaging
