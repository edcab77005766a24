import SqlPaging.Cursor.Token
import SqlPaging.Proofs.Query.Bound
import SqlPaging.Proofs.Query.Count

/-!
# SqlPaging — queries that start at a boundary row

With a cursor, a predicate stands behind `WHERE` or `AND`. It compares the expressions of the order
with boundary values, so that there is one just if the order has an expression: a cursor without
values fits the order without expressions, and its predicate is empty. A cursor made from a row
always has a value, but one that was read need not.

Main results:

* `Draft.exists_text_addCondition` — a condition stands in one piece behind its keyword.
* `Keyset.bounded_of_ofCursor` — what the terms of a predicate compare.
* `compile_bounded_iff` — the predicate of a query with a cursor.
* `seek_unbounded` — a query with a cursor and without a predicate.
-/

namespace SqlPaging

open Sql (Draft Statement Fault)

/-! ## Text that was put -/

namespace Sql.Draft

/-- Text put behind a token stays in one piece, whatever is put behind it or another one. -/
theorem exists_text_putAfter {d : Draft} {i : Nat} (hi : i < d.length) (t : List Char) (j : Nat)
    (u : List Char) :
    ∃ front back, ((d.putAfter i t).putAfter j u).text = front ++ (t ++ back) := by
  by_cases hij : i = j
  · -- behind the same token, what was put first stands first
    subst hij
    have hboth : (d.putAfter i t).putAfter i u = d.putAfter i (t ++ u) := by
      simp only [putAfter, List.modify_modify_eq, Function.comp_def, List.append_assoc]
    rw [hboth, text_putAfter hi]
    exact ⟨text (d.take (i + 1)), u ++ text (d.drop (i + 1)), by simp only [List.append_assoc]⟩
  · have hswap : (d.putAfter i t).putAfter j u = (d.putAfter j u).putAfter i t :=
      List.modify_modify_ne _ _ _ hij
    rw [hswap, text_putAfter (by rwa [length_putAfter])]
    exact ⟨_, _, List.append_assoc ..⟩

/-- A condition stands behind a keyword. -/
theorem exists_text_addCondition {s : Statement} {condition : List Char} {d d' : Draft}
    (hne : s.tokens ≠ []) (hlen : d.length = s.tokens.length)
    (h : addCondition s condition d = .ok d') (j : Nat) (u : List Char) :
    ∃ link front back, (link = " WHERE ".toList ∨ link = ") AND ".toList) ∧
      (d'.putAfter j u).text = front ++ (link ++ (condition ++ back)) := by
  unfold addCondition at h
  split at h
  · obtain ⟨⟨first, last⟩, hspan, hput⟩ := bind_eq_ok.mp h
    obtain rfl := Except.ok.inj hput
    obtain ⟨-, hlt, hlast⟩ := Statement.conditionSpan_eq_ok hspan
    have hle : last + 1 ≤ s.tokens.length := by
      rw [hlast]
      exact Statement.placeOf_le s _ fun n => List.mem_of_find?_eq_some
    -- the parenthesis that is put in front does not get between the word and the condition
    obtain ⟨front, back, htext⟩ := exists_text_putAfter (d := d.putBefore first "(".toList)
      (i := last) (by rw [length_putBefore]; omega) (") AND ".toList ++ condition) j u
    exact ⟨_, front, back, .inr rfl, by rw [htext, List.append_assoc]⟩
  · obtain ⟨i, hi, hput⟩ := bind_eq_ok.mp h
    obtain rfl := Except.ok.inj hput
    -- a new clause goes behind a token of the statement
    have hle : i + 1 ≤ s.tokens.length := by
      rw [Statement.filterIndex_eq_ok hne hi]
      exact Statement.placeOf_le s _ fun m => List.mem_of_find?_eq_some
    obtain ⟨front, back, htext⟩ := exists_text_putAfter (d := d) (i := i) (by omega)
      (" WHERE ".toList ++ condition) j u
    exact ⟨_, front, back, .inl rfl, by rw [htext, List.append_assoc]⟩

end Sql.Draft

/-! ## What a predicate compares -/

namespace Keyset

variable {d : Dialect} {order : Order} {c : Cursor} {k : Keyset}

/-- Texts with a separator between them are parts of the whole. -/
theorem infix_intercalate (sep : String) {s : String} {ss : List String} (h : s ∈ ss) :
    s.toList <:+: (sep.intercalate ss).toList := by
  obtain ⟨i, hi⟩ := List.mem_iff_getElem?.mp (List.mem_map_of_mem (f := String.toList) h)
  rw [String.toList_intercalate, List.intercalate]
  refine List.infix_of_mem_flatten (List.mem_of_getElem? (i := 2 * i) ?_)
  rw [List.getElem?_intersperse_two_mul, hi]

/-- The comparison of a term stands in the text of the predicate. -/
theorem infix_grouped {p : Predicate} {clause : Clause} {t : Term} (hclause : clause ∈ p)
    (ht : t ∈ clause) : t.sql.toList <:+: (grouped p).toList := by
  -- the term is part of its clause, and the clause of the predicate
  have hterm := infix_intercalate " AND " (List.mem_map_of_mem (f := Term.sql) ht)
  have hwhole := infix_intercalate " OR " (List.mem_map_of_mem (f := clauseSql) hclause)
  have hpart : t.sql.toList <:+: (clauseSql clause).toList := by
    rw [clauseSql, String.toList_append, String.toList_append]
    exact hterm.trans (List.infix_append _ _ _)
  have hsql : t.sql.toList <:+: (sql p).toList := hpart.trans hwhole
  rw [grouped]
  split
  · rw [String.toList_append, String.toList_append]
    exact hsql.trans (List.infix_append _ _ _)
  · exact hsql

theorem type_ne_null_of_bindBoundaries {index : Nat} {values : Fields Value} {bs : Binds}
    (h : bindBoundaries d index values = .ok bs) : ∀ b ∈ bs, b.type ≠ .null := by
  induction values generalizing index bs with
  | nil =>
    cases h
    exact nofun
  | cons v values ih =>
    rw [bindBoundaries] at h
    simp only [bind_eq_ok, Except.ok.injEq] at h
    obtain ⟨b, hb, more, hmore, rfl⟩ := h
    refine List.forall_mem_cons.mpr ⟨?_, ih hmore⟩
    -- a boundary that would be bound to null is refused
    rw [bindBoundary] at hb
    split at hb
    · cases hb
    · split at hb
      · cases hb
      · next hnull =>
        cases hb
        exact hnull

/-- A term compares the expression of the order that has its number with the parameter that has
its number, which is bound to a value other than null. -/
def Term.Bounded (order : Order) (bs : Binds) (t : Term) : Prop :=
  order.expressions[t.index]? = some t.expression ∧
    ∃ b ∈ bs, b.name = paramName t.index ∧ b.type ≠ .null

/-- A predicate has a clause for each expression of its order, and no clause is empty. -/
theorem bounded_of_ofCursor (h : ofCursor d order c = .ok k) :
    k.predicate.length = order.size ∧
      ∀ clause ∈ k.predicate, clause ≠ [] ∧ ∀ t ∈ clause, t.Bounded order k.binds := by
  have hpredicate := predicate_of_ofCursor h
  have hnames := (names_of_ofCursor h).2
  rw [hpredicate] at hnames ⊢
  refine ⟨length_after .., fun clause hclause => ⟨?_, fun t ht => ⟨?_, ?_⟩⟩⟩
  · exact (compares_of_mem_clausesUpTo (Nat.le_refl _) hclause).1
  · -- the expression is that of an item of the order
    obtain ⟨i, hi, heq⟩ := mem_after hclause ht
    rw [Order.expressions, List.getElem?_map, hi, heq]
    rfl
  · -- and the parameter is one of the binds
    obtain ⟨b, hb, hname⟩ := List.mem_map.mp
      (hnames _ (List.mem_flatMap.mpr ⟨clause, hclause, List.mem_map_of_mem ht⟩))
    rw [ofCursor, if_pos (fits_of_ofCursor h), bind_eq_ok] at h
    obtain ⟨bs, hbs, hk⟩ := h
    cases hk
    exact ⟨b, hb, hname, type_ne_null_of_bindBoundaries hbs b hb⟩

end Keyset

namespace Query

variable {d : Dialect} {sql : String} {order : Order} {params : Params} {pager : Pager} {c : Cursor}
  {q : Query}

/-- In a query with a cursor, a predicate stands behind `WHERE` or `AND`. There is a comparison in
it if and only if the order has an expression, and without one the predicate is empty. All
comparisons are between an expression of the order and a parameter that is bound to the value of
the cursor for it. -/
theorem compile_bounded_iff (h : compile d sql order params pager (some c) = .ok q) :
    ∃ k link front back, Keyset.ofCursor d order c = .ok k ∧
      (link = " WHERE ".toList ∨ link = ") AND ".toList) ∧
      q.sql.toList = front ++ (link ++ ((Keyset.grouped k.predicate).toList ++ back)) ∧
      (Keyset.grouped k.predicate ≠ "" ↔ order.items ≠ []) ∧
      ((∃ clause ∈ k.predicate, ∃ t ∈ clause, t.Bounded order q.binds ∧
        t.sql.toList <:+: (Keyset.grouped k.predicate).toList) ↔ order.items ≠ []) ∧
      ∀ clause ∈ k.predicate, ∀ t ∈ clause, t.Bounded order q.binds := by
  obtain ⟨n, s, draft, seek, i, -, hs, -, hdraft, hseek, -, rfl⟩ := compile_eq_ok_iff.mp h
  obtain ⟨-, k, draft', w, hk, hcondition, -, rfl⟩ := seeking_eq_ok_iff.mp hseek
  obtain ⟨hlength, hterms⟩ := Keyset.bounded_of_ofCursor hk
  have hbounded : ∀ clause ∈ k.predicate, ∀ t ∈ clause, t.Bounded order (n.binds ++ k.binds) := by
    intro clause hclause t ht
    obtain ⟨hown, b, hb, hname⟩ := (hterms clause hclause).2 t ht
    exact ⟨hown, b, List.mem_append_right _ hb, hname⟩
  -- an order with an expression has a clause, and the text of a clause is not empty
  have hsome : order.items ≠ [] → ∃ clause ∈ k.predicate, ∃ t ∈ clause,
      t.Bounded order (n.binds ++ k.binds) ∧
        t.sql.toList <:+: (Keyset.grouped k.predicate).toList := by
    intro hne
    have hpos : 0 < k.predicate.length := by
      rw [hlength]
      exact List.length_pos_iff.mpr hne
    obtain ⟨clause, hclause⟩ := List.exists_mem_of_length_pos hpos
    obtain ⟨t, ht⟩ := List.exists_mem_of_ne_nil _ (hterms clause hclause).1
    exact ⟨clause, hclause, t, ht, hbounded clause hclause t ht, Keyset.infix_grouped hclause ht⟩
  have hnone : order.items = [] → k.predicate = [] := by
    intro hnil
    rw [Order.size, hnil] at hlength
    exact List.length_eq_zero_iff.mp hlength
  have hne := (Statement.parse_eq_ok (mapError_eq_ok.mp hs)).1
  obtain ⟨link, front, back, hlink, htext⟩ :=
    Draft.exists_text_addCondition hne (length_of_expand hdraft) hcondition i
      (tail (if c.direction = .prev then order.reversed else order) w)
  refine ⟨k, link, front, back, hk, hlink, ?_, ?_, ?_, hbounded⟩
  · rw [← htext, String.toList_ofList]
  · constructor
    · intro hempty hnil
      rw [hnone hnil] at hempty
      exact hempty rfl
    · -- the comparison has a text
      intro hitems hempty
      obtain ⟨clause, -, t, -, -, hinfix⟩ := hsome hitems
      rw [hempty] at hinfix
      have hnil := List.infix_nil.mp hinfix
      rw [Keyset.toList_sql] at hnil
      simp at hnil
  · refine ⟨?_, hsome⟩
    rintro ⟨clause, hclause, -⟩ hnil
    rw [hnone hnil] at hclause
    cases hclause

/-- A walk back through groups, added to their condition. -/
theorem compile_bounded_of_groups :
    ∃ (q : Query) (k : Keyset) (link front back : List Char), compile .mySql
        "SELECT a, b FROM t GROUP BY a, b HAVING COUNT(*) > 1 OR a IS NULL"
        ⟨[⟨"a", .ascending⟩, ⟨"b", .descending⟩]⟩ [] (.ofPage 2 10)
        (some ⟨.ofPage 2 10, [("a", .int 5), ("b", .string "x")], none, .prev, false, default⟩) =
          .ok q ∧
      q.sql = "SELECT a, b FROM t GROUP BY a, b HAVING (COUNT(*) > 1 OR a IS NULL) AND " ++
        "((a = :cursor__0 AND b > :cursor__1) OR (a < :cursor__0)) " ++
        "ORDER BY a DESC, b ASC LIMIT 11 OFFSET 0" ∧
      q.sql.toList = front ++ (link ++ ((Keyset.grouped k.predicate).toList ++ back)) ∧
      ∃ clause ∈ k.predicate, ∃ t ∈ clause,
        Keyset.Term.Bounded ⟨[⟨"a", .ascending⟩, ⟨"b", .descending⟩]⟩ q.binds t := by
  obtain ⟨q, hq, hsql⟩ : ∃ q, compile .mySql
        "SELECT a, b FROM t GROUP BY a, b HAVING COUNT(*) > 1 OR a IS NULL"
        ⟨[⟨"a", .ascending⟩, ⟨"b", .descending⟩]⟩ [] (.ofPage 2 10)
        (some ⟨.ofPage 2 10, [("a", .int 5), ("b", .string "x")], none, .prev, false, default⟩) =
          .ok q ∧
      q.sql = "SELECT a, b FROM t GROUP BY a, b HAVING (COUNT(*) > 1 OR a IS NULL) AND " ++
        "((a = :cursor__0 AND b > :cursor__1) OR (a < :cursor__0)) " ++
        "ORDER BY a DESC, b ASC LIMIT 11 OFFSET 0" := exists_eq_ok_of_any (by decide +kernel)
  obtain ⟨k, link, front, back, -, -, htext, -, hsome, -⟩ := compile_bounded_iff hq
  -- the order is not empty, so there is a bounded comparison
  obtain ⟨clause, hclause, t, ht, hbounded, -⟩ := hsome.mpr (List.cons_ne_nil _ _)
  exact ⟨q, k, link, front, back, hq, hsql, htext, clause, hclause, t, ht, hbounded⟩

/-- A cursor that was read need not have a value. It fits the order without expressions, for which
no row makes a cursor, and the query with it has a keyword and no predicate. -/
theorem seek_unbounded :
    ∃ c k q, Cursor.parseToken? ("\x7b\"pager\":\x7b\"page\":2,\"size\":10,\"each_side\":0," ++
        "\"need_total\":false,\"cursor_name\":null\x7d,\"values\":\x7b\x7d," ++
        "\"each_side_snapshot\":null,\"direction\":\"next\",\"inclusive\":true," ++
        "\"created_at\":\"2024-01-01T00:00:00Z\"\x7d") = some c ∧
      (∀ pager row eachSide now,
        Cursor.create .empty pager row eachSide now = .error .emptyOrder) ∧
      Keyset.ofCursor .sqlite .empty c = .ok k ∧ k.predicate = [] ∧ k.binds = [] ∧
      compile .sqlite "SELECT a FROM t" .empty [] (.ofPage 2 10) (some c) = .ok q ∧
      q.sql = "SELECT a FROM t WHERE  LIMIT 11 OFFSET 0" ∧ q.binds = [] := by
  -- such a token can be read, although no cursor is created for an empty order
  have hread : (Cursor.parseToken? ("\x7b\"pager\":\x7b\"page\":2,\"size\":10,\"each_side\":0," ++
      "\"need_total\":false,\"cursor_name\":null\x7d,\"values\":\x7b\x7d," ++
      "\"each_side_snapshot\":null,\"direction\":\"next\",\"inclusive\":true," ++
      "\"created_at\":\"2024-01-01T00:00:00Z\"\x7d")).any (fun c =>
        (Keyset.ofCursor .sqlite .empty c).toOption.any (fun k => decide
          (k.predicate = [] ∧ k.binds = [])) &&
        (compile .sqlite "SELECT a FROM t" .empty [] (.ofPage 2 10) (some c)).toOption.any
          (fun q => decide (q.sql = "SELECT a FROM t WHERE  LIMIT 11 OFFSET 0" ∧ q.binds = []))) =
      true := by decide +kernel
  obtain ⟨c, hc, hboth⟩ := (Option.any_eq_true _ _).mp hread
  rw [Bool.and_eq_true] at hboth
  -- its predicate has no clauses, and the query compiles nevertheless
  obtain ⟨k, hk, hpredicate, hnone⟩ := exists_eq_ok_of_any hboth.1
  obtain ⟨q, hq, hsql, hbinds⟩ := exists_eq_ok_of_any hboth.2
  exact ⟨c, k, q, hc, Cursor.create_of_isEmpty rfl, hk, hpredicate, hnone, hq, hsql, hbinds⟩

end Query

end SqlPaging
