import SqlPaging.Proofs.Except
import SqlPaging.Sql.Statement

/-!
# SqlPaging — places in a statement

A parsed statement has tokens, and its markers are words among them, outside of all
parentheses. The places where text goes are the indices at which markers start, or the
end of the tokens.

Main results:

* `parse_eq_ok` — the tokens of a parsed statement.
* `row_of_clauseAt` — the keywords that clauses start with.
* `mem_markersFrom`, `getElem?_of_mem_markers` — where the markers of tokens stand.
* `conditionSpan_eq_ok`, `filterIndex_eq_ok` — the places for a condition.
-/

namespace SqlPaging.Sql

/-- Where there is no semicolon, nothing is split off. -/
theorem splitSemicolons_of_none {ts : List Token} (h : ∀ t ∈ ts, t.kind ≠ .semicolon) :
    splitSemicolons ts = (ts, []) := by
  induction ts with
  | nil => rfl
  | cons t ts ih =>
    have hown : decide (t.kind = .semicolon) = false := decide_eq_false (h t List.mem_cons_self)
    simp only [splitSemicolons, ih fun u hu => h u (List.mem_cons_of_mem t hu), hown,
      Bool.and_false, Bool.false_eq_true, if_false]

theorem Token.kind_of_isWord {t : Token} {words : List String} (h : t.isWord words = true) :
    t.kind = .word := by
  rw [isWord, word?] at h
  split at h
  · assumption
  · cases h

namespace Statement

/-- The tokens of a statement are those of its text, without the semicolons at the end. -/
theorem parse_eq_ok {d : Dialect} {text : List Char} {s : Statement}
    (h : parse d text = .ok s) :
    s.tokens ≠ [] ∧ ∃ found, scan d text = .ok found ∧
      s.tokens = (splitSemicolons found.tokens).1 := by
  obtain ⟨found, hscan, h⟩ := bind_eq_ok.mp h
  dsimp only at h
  split at h
  · cases h
  · next hne =>
    split at h
    · cases h
    · cases h
      exact ⟨by simpa using hne, found, hscan, rfl⟩

/-- What is scanned and has semicolons at its end only is a statement. -/
theorem parse_of_scan_append {d : Dialect} {text : List Char} {found : Scan}
    {body dropped : List Token} (h : scan d text = .ok found)
    (htokens : found.tokens = body ++ dropped) (hne : body ≠ [])
    (hbody : ∀ t ∈ body, t.kind ≠ .semicolon) (hdropped : ∀ t ∈ dropped, t.kind = .semicolon) :
    parse d text = .ok { tokens := body, rest := tokenText dropped ++ found.rest } := by
  -- from the end on: semicolons are dropped as long as nothing else has come
  have hsplit : splitSemicolons found.tokens = (body, dropped) := by
    rw [htokens]
    clear h htokens hne
    induction body with
    | nil =>
      rw [List.nil_append]
      induction dropped with
      | nil => rfl
      | cons t dropped ih =>
        have hown : decide (t.kind = .semicolon) = true :=
          decide_eq_true (hdropped t List.mem_cons_self)
        simp only [splitSemicolons, ih fun u hu => hdropped u (List.mem_cons_of_mem t hu), hown]
        rfl
    | cons t body ih =>
      have hown : decide (t.kind = .semicolon) = false :=
        decide_eq_false (hbody t List.mem_cons_self)
      simp only [List.cons_append, splitSemicolons,
        ih fun u hu => hbody u (List.mem_cons_of_mem t hu), hown, Bool.and_false,
        Bool.false_eq_true, if_false]
  -- no semicolon is left in the body, and the body is not empty
  have hnone : body.find? (·.kind = .semicolon) = none := by
    rw [List.find?_eq_none]
    intro t ht
    simpa using hbody t ht
  have hempty : body.isEmpty = false := by
    rw [Bool.eq_false_iff]
    simpa using hne
  simp only [parse, h, bind, Except.bind, hsplit, hempty, hnone]
  rfl

/-- What is scanned and has no semicolon is a statement. -/
theorem parse_of_scan {d : Dialect} {text : List Char} {found : Scan}
    (h : scan d text = .ok found) (hne : found.tokens ≠ [])
    (hs : ∀ t ∈ found.tokens, t.kind ≠ .semicolon) :
    parse d text = .ok { tokens := found.tokens, rest := found.rest } :=
  parse_of_scan_append h (List.append_nil _).symm hne hs (by simp)

/-! ## Markers -/

/-- The rows of the table of clauses: a keyword, and for some of them the words of which one
stands behind it. -/
inductive ClauseRow (t : Token) (next : Option Token) : Clause → Bool → Prop where
  | filter (h : t.isWord ["WHERE"] = true) : ClauseRow t next .filter false
  | having (h : t.isWord ["HAVING"] = true) : ClauseRow t next .having false
  | window (h : t.isWord ["WINDOW"] = true) : ClauseRow t next .window false
  | limit (h : t.isWord ["LIMIT"] = true) : ClauseRow t next .limit false
  | offset (h : t.isWord ["OFFSET"] = true) : ClauseRow t next .offset false
  | fetch (h : t.isWord ["FETCH"] = true) : ClauseRow t next .fetch false
  | groupBy (h : t.isWord ["GROUP"] = true) (hnext : next.any (·.isWord ["BY"]) = true) :
    ClauseRow t next .groupBy true
  | orderBy (h : t.isWord ["ORDER"] = true) (hnext : next.any (·.isWord ["BY"]) = true) :
    ClauseRow t next .orderBy true
  | lockFor (h : t.isWord ["FOR"] = true)
      (hnext : next.any (·.isWord ["UPDATE", "SHARE", "NO", "KEY"]) = true) :
    ClauseRow t next .locking false
  | lockIn (h : t.isWord ["LOCK"] = true) (hnext : next.any (·.isWord ["IN"]) = true) :
    ClauseRow t next .locking false
  | setOperator (h : t.isWord ["UNION", "INTERSECT", "EXCEPT", "MINUS"] = true) :
    ClauseRow t next .setOperator false

section

variable {t : Token} {next : Option Token} {clause : Clause} {two : Bool}

private theorem ite_clause {p : Prop} [Decidable p] {x y : Option (Clause × Bool)}
    (hx : p → x = some (clause, two) → ClauseRow t next clause two)
    (hy : y = some (clause, two) → ClauseRow t next clause two) :
    (if p then x else y) = some (clause, two) → ClauseRow t next clause two := by
  split
  · next hp => exact hx hp
  · exact hy

/-- What a clause says of the tokens that it starts with. -/
theorem row_of_clauseAt (h : clauseAt t next = some (clause, two)) :
    t.depth = 0 ∧ ClauseRow t next clause two := by
  -- one condition or two are asked for a row; the row gives its clause and how many words it has
  have hown : ∀ {c : Clause} {b : Bool}, ClauseRow t next c b →
      some (c, b) = some (clause, two) → ClauseRow t next clause two := by
    intro c b hrow heq
    cases heq
    exact hrow
  have hone : ∀ {c : Clause} {b : Bool} {p : Prop}, (p → ClauseRow t next c b) → p →
      some (c, b) = some (clause, two) → ClauseRow t next clause two :=
    fun hrow hp => hown (hrow hp)
  have htwo : ∀ {c : Clause} {b first second : Bool},
      (first = true → second = true → ClauseRow t next c b) → (first && second) = true →
        some (c, b) = some (clause, two) → ClauseRow t next clause two := by
    intro c b first second hrow hboth
    rw [Bool.and_eq_true] at hboth
    exact hown (hrow hboth.1 hboth.2)
  constructor
  · cases htop : t.topLevel with
    | true => exact eq_of_beq htop
    | false => simp [clauseAt, htop] at h
  · revert h
    unfold clauseAt
    -- the rows in the order in which they are asked for
    refine ite_clause (fun _ => nofun) (ite_clause (hone .filter) (ite_clause (hone .having) ?_))
    refine ite_clause (hone .window) (ite_clause (hone .limit) (ite_clause (hone .offset) ?_))
    refine ite_clause (hone .fetch) (ite_clause (htwo .groupBy) (ite_clause (htwo .orderBy) ?_))
    refine ite_clause (htwo .lockFor) (ite_clause (htwo .lockIn) ?_)
    exact ite_clause (hone .setOperator) nofun

/-- A clause starts with a word outside of all parentheses. -/
theorem clauseAt_eq_some (h : clauseAt t next = some (clause, two)) :
    t.kind = .word ∧ t.depth = 0 := by
  obtain ⟨hdepth, hrow⟩ := row_of_clauseAt h
  refine ⟨?_, hdepth⟩
  cases hrow
  all_goals exact Token.kind_of_isWord ‹t.isWord _ = true›

/-- A locking clause starts with one of two words, behind which there is another word. -/
theorem clauseAt_locking (h : clauseAt t next = some (.locking, two)) :
    (t.isWord ["FOR"] = true ∨ t.isWord ["LOCK"] = true) ∧ ∃ u ∈ next, u.kind = .word := by
  have hword : ∀ {words : List String}, next.any (·.isWord words) = true →
      ∃ u ∈ next, u.kind = .word := by
    intro words hany
    obtain ⟨u, hu, hword⟩ := (Option.any_eq_true _ _).mp hany
    exact ⟨u, hu, Token.kind_of_isWord hword⟩
  cases (row_of_clauseAt h).2 with
  | lockFor hkeyword hnext => exact ⟨.inl hkeyword, hword hnext⟩
  | lockIn hkeyword hnext => exact ⟨.inr hkeyword, hword hnext⟩

end

/-- Where the markers of tokens stand. -/
theorem mem_markersFrom {index : Nat} {ts : List Token} {m : Marker}
    (h : m ∈ markersFrom index ts) :
    ∃ i t two, m.first = index + i ∧ ts[i]? = some t ∧
      clauseAt t ts[i + 1]? = some (m.clause, two) ∧
      m.last = if two then m.first + 1 else m.first := by
  induction ts generalizing index with
  | nil => simp [markersFrom] at h
  | cons t ts ih =>
    -- a marker further on is one of the tokens behind, which are counted from the next place
    have hlater : m ∈ markersFrom (index + 1) ts → ∃ i u two, m.first = index + i ∧
        (t :: ts)[i]? = some u ∧ clauseAt u (t :: ts)[i + 1]? = some (m.clause, two) ∧
        m.last = if two then m.first + 1 else m.first := by
      intro hm
      obtain ⟨i, u, two, hfirst, hu, hclause, hlast⟩ := ih hm
      exact ⟨i + 1, u, two, by omega, hu, hclause, hlast⟩
    rw [markersFrom] at h
    split at h
    · next clause two hclause =>
      -- the marker is at this token or further on
      rcases List.mem_cons.mp h with rfl | hm
      · refine ⟨0, t, two, rfl, rfl, ?_, rfl⟩
        rw [← hclause, List.head?_eq_getElem?]
        rfl
      · exact hlater hm
    · exact hlater h

/-- A marker of a statement is a word outside of all parentheses. -/
theorem getElem?_of_mem_markers {s : Statement} {m : Marker} (h : m ∈ s.markers) :
    ∃ t, s.tokens[m.first]? = some t ∧ t.kind = .word ∧ t.depth = 0 := by
  obtain ⟨i, t, two, hfirst, ht, hclause, -⟩ := mem_markersFrom h
  rw [hfirst, Nat.zero_add]
  exact ⟨t, ht, clauseAt_eq_some hclause⟩

/-- A marker that is found is one of the statement, for that clause. -/
theorem marker?_eq_some {s : Statement} {clause : Clause} {m : Marker}
    (h : s.marker? clause = some m) : m ∈ s.markers ∧ m.clause = clause := by
  rw [marker?] at h
  have hclause := List.find?_some h
  exact ⟨List.mem_of_find?_eq_some h, of_decide_eq_true hclause⟩

/-- The index at which a marker starts, or the end of the tokens. -/
def placeOf (s : Statement) (found : Option Marker) : Nat :=
  (found.map (·.first)).getD s.tokens.length

/-- No place lies behind the end of the statement. -/
theorem placeOf_le (s : Statement) (found : Option Marker) (hm : ∀ m ∈ found, m ∈ s.markers) :
    s.placeOf found ≤ s.tokens.length := by
  cases found with
  | none => exact Nat.le_refl _
  | some m =>
    obtain ⟨t, ht, -⟩ := getElem?_of_mem_markers (hm m rfl)
    exact Nat.le_of_lt (List.getElem?_eq_some_iff.mp ht).1

/-- Markers stand in the order of their places. -/
theorem pairwise_markersFrom (index : Nat) (ts : List Token) :
    (markersFrom index ts).Pairwise fun m n => m.first < n.first := by
  induction ts generalizing index with
  | nil => exact List.Pairwise.nil
  | cons t ts ih =>
    rw [markersFrom]
    split
    · refine List.pairwise_cons.mpr ⟨?_, ih (index + 1)⟩
      intro n hn
      -- markers of the rest are at later tokens
      obtain ⟨i, u, two, hfirst, -⟩ := mem_markersFrom hn
      show index < n.first
      omega
    · exact ih (index + 1)

/-- The first marker with a property stands in front of all others that have it. -/
theorem placeOf_find?_le {s : Statement} {p : Marker → Bool} {n : Marker} (hn : n ∈ s.markers)
    (hp : p n = true) : s.placeOf (s.markers.find? p) ≤ n.first := by
  cases hfind : s.markers.find? p with
  | none => exact absurd hp (List.find?_eq_none.mp hfind n hn)
  | some m =>
    obtain ⟨-, before, after, hsplit, hbefore⟩ := List.find?_eq_some_iff_append.mp hfind
    have hordered : s.markers.Pairwise fun m n => m.first < n.first := pairwise_markersFrom 0 _
    rw [hsplit, List.mem_append, List.mem_cons] at hn
    rw [hsplit, List.pairwise_append, List.pairwise_cons] at hordered
    -- a marker in front would have been found first, and later ones lie behind
    rcases hn with hn | rfl | hn
    · have hnot := hbefore n hn
      rw [hp] at hnot
      cases hnot
    · exact Nat.le_refl _
    · exact Nat.le_of_lt (hordered.2.1.1 n hn)

/-- The condition of a marker ends at the next marker, or with the statement. -/
theorem conditionSpan_eq_ok {s : Statement} {m : Marker} {first last : Nat}
    (h : s.conditionSpan m = .ok (first, last)) :
    first = m.last + 1 ∧ first < s.placeOf (s.markers.find? fun n => m.last < n.first) ∧
      last + 1 = s.placeOf (s.markers.find? fun n => m.last < n.first) := by
  simp only [conditionSpan] at h
  split at h
  · next hlt =>
    cases h
    refine ⟨rfl, hlt, ?_⟩
    rw [placeOf]
    omega
  · cases h

/-- Text goes behind the token before a marker, or behind the last one. -/
theorem placeOf_of_index {s : Statement} (hne : s.tokens ≠ []) {found : Option Marker} {i : Nat}
    (h : (match found with
      | some m => indexBefore m
      | none => .ok s.lastIndex) = .ok i) : i + 1 = s.placeOf found := by
  cases found with
  | some m =>
    show i + 1 = m.first
    dsimp only at h
    rw [indexBefore] at h
    split at h
    · cases h
    · next j hj =>
      cases h
      exact hj.symm
  | none =>
    cases h
    -- a statement that is not empty has a last token
    have hpos := List.length_pos_iff.mpr hne
    show s.tokens.length - 1 + 1 = s.tokens.length
    omega

/-- A new condition goes in front of the first clause that comes after conditions. -/
theorem filterIndex_eq_ok {s : Statement} (hne : s.tokens ≠ []) {i : Nat}
    (h : s.filterIndex = .ok i) :
    i + 1 = s.placeOf (s.markers.find? fun m => afterFilter.contains m.clause) :=
  placeOf_of_index hne h

/-- Order and limit go in front of the locking clause, or behind the last token. -/
theorem tailIndex_eq_ok {s : Statement} (hne : s.tokens ≠ []) {i : Nat}
    (h : s.tailIndex = .ok i) : i + 1 = s.placeOf (s.marker? .locking) :=
  placeOf_of_index hne h

end Statement

end SqlPaging.Sql
