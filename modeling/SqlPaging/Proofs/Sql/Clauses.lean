import SqlPaging.Proofs.Sql.Expansion

/-!
# SqlPaging — clauses of tokens

Which clause a token starts depends on its outline and on the next one's, and on the
latter only if that is one of the few words that make a keyword of two. So the markers of
tokens can be told part by part where no such word starts a part, and the placeholders
of a collection, which are no words, change no clause.

Main results:

* `markersFrom_append` — the markers of tokens in two parts.
* `clauses_expanded` — expanding collections changes no clause.
* `exists_of_marker?` — the first token of a clause cuts a statement.
* `marker?_of_clauses` — the first token of a clause, found.
-/

namespace SqlPaging.Sql

/-- A word that may be the second one of a keyword. -/
def Token.isSecond (t : Token) : Bool := t.isWord ["BY", "UPDATE", "SHARE", "NO", "KEY", "IN"]

/-- No keyword goes on in tokens. -/
def Fresh (ts : List Token) : Prop := ∀ t ∈ ts.head?, t.isSecond = false

/-- Which word a token is shows in its outline. -/
theorem Token.isWord_congr {t u : Token} (h : t.outline = u.outline) (words : List String) :
    t.isWord words = u.isWord words := by
  obtain ⟨hk, ht, -⟩ := Outline.mk.inj h
  rw [isWord, isWord, word?, word?, hk, ht]

theorem Token.isWord_of_kind {t : Token} (h : t.kind ≠ .word) (words : List String) :
    t.isWord words = false := by
  rw [isWord, word?, if_neg h]
  rfl

/-- What depends on outlines is the same where outlines are the same. -/
theorem any_of_outline {p : Token → Bool} (hp : ∀ t u, t.outline = u.outline → p t = p u)
    {t? u? : Option Token} (h : t?.map Token.outline = u?.map Token.outline) :
    t?.any p = u?.any p := by
  cases t? with
  | none => rw [Option.map_eq_none_iff.mp h.symm]
  | some t =>
    obtain ⟨u, rfl, hu⟩ := Option.map_eq_some_iff.mp h.symm
    exact hp t u hu.symm

namespace Statement

/-- A clause depends on outlines. -/
theorem clauseAt_congr {t u : Token} {next next' : Option Token} (h : t.outline = u.outline)
    (hnext : next.map Token.outline = next'.map Token.outline) :
    clauseAt t next = clauseAt u next' := by
  have hwords : ∀ words, next.any (·.isWord words) = next'.any (·.isWord words) := fun words =>
    any_of_outline (fun t u h => Token.isWord_congr h words) hnext
  have hdepth : t.topLevel = u.topLevel := by
    rw [Token.topLevel, Token.topLevel, (Outline.mk.inj h).2.2]
  simp only [clauseAt, hwords, hdepth, Token.isWord_congr h]

/-- Words that are not looked for need not be there. -/
theorem clauseAt_of_isSecond {t u : Token} (h : u.isSecond = false) :
    clauseAt t (some u) = clauseAt t none := by
  -- the next token is none of the words that are looked for
  have hwords : ∀ words, (∀ w ∈ words, w ∈ ["BY", "UPDATE", "SHARE", "NO", "KEY", "IN"]) →
      u.isWord words = false := by
    intro words hsub
    rw [Bool.eq_false_iff]
    intro hword
    obtain ⟨w, hw, hany⟩ := (Option.any_eq_true _ _).mp hword
    obtain ⟨x, hx, heq⟩ := List.any_eq_true.mp hany
    have hsecond : u.isSecond = true :=
      (Option.any_eq_true _ _).mpr ⟨w, hw, List.any_eq_true.mpr ⟨x, hsub x hx, heq⟩⟩
    rw [hsecond] at h
    cases h
  simp only [clauseAt, Option.any_some, Option.any_none, hwords ["BY"] (by simp),
    hwords ["UPDATE", "SHARE", "NO", "KEY"] (by simp), hwords ["IN"] (by simp)]

/-- Tokens that start afresh do not go on with a clause in front of them. -/
theorem clauseAt_of_fresh {t : Token} {ts us : List Token} (h : Fresh us) :
    clauseAt t (ts ++ us).head? = clauseAt t ts.head? := by
  cases ts with
  | cons u ts => rfl
  | nil =>
    cases us with
    | nil => rfl
    | cons u us => exact clauseAt_of_isSecond (h u rfl)

/-- No clause starts with the second word of a keyword. -/
theorem isSecond_of_clauseAt {t : Token} {next : Option Token} {found : Clause × Bool}
    (h : clauseAt t next = some found) : t.isSecond = false := by
  rw [Bool.eq_false_iff]
  intro hsecond
  obtain ⟨w, hw, hany⟩ := (Option.any_eq_true _ _).mp hsecond
  have hword : ∀ words, t.isWord words = words.any fun x => x.toList == w := by
    intro words
    rw [Token.isWord, hw, Option.any_some]
  obtain ⟨x, hx, heq⟩ := List.any_eq_true.mp hany
  obtain rfl := eq_of_beq heq
  simp only [List.mem_cons, List.not_mem_nil, or_false] at hx
  -- none of the words that come second opens a clause
  rcases hx with rfl | rfl | rfl | rfl | rfl | rfl
  all_goals simp [clauseAt, hword] at h

/-- The markers of tokens in two parts. -/
theorem markersFrom_append (ts : List Token) {us : List Token} (h : Fresh us) (index : Nat) :
    markersFrom index (ts ++ us) =
      markersFrom index ts ++ markersFrom (index + ts.length) us := by
  induction ts generalizing index with
  | nil => rfl
  | cons t ts ih =>
    have hlength : index + 1 + ts.length = index + (t :: ts).length := by
      rw [List.length_cons]
      omega
    rw [List.cons_append, markersFrom, markersFrom, clauseAt_of_fresh h, ih, hlength]
    split
    · rfl
    · rfl

/-- Markers depend on outlines. -/
theorem markersFrom_congr {ts us : List Token}
    (h : ts.map Token.outline = us.map Token.outline) (index : Nat) :
    markersFrom index ts = markersFrom index us := by
  induction ts generalizing us index with
  | nil =>
    rw [List.map_nil, eq_comm, List.map_eq_nil_iff] at h
    rw [h]
  | cons t ts ih =>
    cases us with
    | nil => cases h
    | cons u us =>
      rw [List.map_cons, List.map_cons, List.cons.injEq] at h
      -- the next tokens have the same outlines too
      have hhead : ts.head?.map Token.outline = us.head?.map Token.outline := by
        rw [← List.head?_map, ← List.head?_map, h.2]
      rw [markersFrom, markersFrom, clauseAt_congr h.1 hhead, ih h.2]

end Statement

/-! ## Clauses of outlines -/

/-- A token of an outline. -/
def Outline.token (o : Outline) : Token :=
  { kind := o.kind, text := o.text, gap := [], start := 0, depth := o.depth }

theorem map_outline_token (os : List Outline) :
    (os.map Outline.token).map Token.outline = os := by
  rw [List.map_map]
  exact List.map_id _

/-- The clauses that start in outlines. -/
def clauses (os : List Outline) : List Clause :=
  (Statement.markersFrom 0 (os.map Outline.token)).map (·.clause)

/-- The clauses of markers are those of the outlines. -/
theorem map_clause_markersFrom (index : Nat) (ts : List Token) :
    (Statement.markersFrom index ts).map (·.clause) = clauses (ts.map Token.outline) := by
  -- the index has no influence on the clauses
  have hindex : ∀ index index', (Statement.markersFrom index ts).map (·.clause) =
      (Statement.markersFrom index' ts).map (·.clause) := by
    induction ts with
    | nil => exact fun _ _ => rfl
    | cons t ts ih =>
      intro index index'
      rw [Statement.markersFrom, Statement.markersFrom]
      split
      · rw [List.map_cons, List.map_cons, ih (index + 1) (index' + 1)]
      · exact ih (index + 1) (index' + 1)
  rw [hindex index 0, clauses]
  congr 1
  exact Statement.markersFrom_congr (map_outline_token _).symm 0

/-- No keyword goes on in outlines. -/
def FreshOutlines (os : List Outline) : Prop := Fresh (os.map Outline.token)

/-- Clauses of two parts come one after the other, where the second part starts afresh. -/
theorem clauses_append {os us : List Outline} (h : FreshOutlines us) :
    clauses (os ++ us) = clauses os ++ clauses us := by
  rw [clauses, List.map_append, Statement.markersFrom_append _ h, List.map_append,
    map_clause_markersFrom _ (us.map Outline.token), map_outline_token]
  rfl

/-- An outline that starts no clause, whatever follows. -/
def Outline.Silent (o : Outline) : Prop := ∀ next, Statement.clauseAt o.token next = none

theorem Outline.silent_of_kind {o : Outline} (h : o.kind ≠ .word) : o.Silent := by
  intro next
  cases hclause : Statement.clauseAt o.token next with
  | none => rfl
  | some found => exact absurd (Statement.clauseAt_eq_some hclause).1 h

/-- An outline may open a clause, with the next one in view. -/
theorem clauses_cons (o : Outline) (os : List Outline) :
    clauses (o :: os) =
      ((Statement.clauseAt o.token (os.map Outline.token).head?).map (·.1)).toList ++
        clauses os := by
  rw [clauses, List.map_cons, Statement.markersFrom]
  split
  · next clause two hclause =>
    rw [hclause, List.map_cons, map_clause_markersFrom, map_outline_token]
    rfl
  · next hclause =>
    rw [hclause, map_clause_markersFrom, map_outline_token]
    rfl

theorem clauses_append_of_silent {os : List Outline} (h : ∀ o ∈ os, o.Silent)
    (us : List Outline) : clauses (os ++ us) = clauses us := by
  induction os with
  | nil => rfl
  | cons o os ih =>
    rw [List.cons_append, clauses_cons, h o List.mem_cons_self,
      ih fun u hu => h u (List.mem_cons_of_mem o hu)]
    rfl

/-! ## Clauses of expanded outlines -/

/-- The outlines of elements are those of placeholders and commas. -/
theorem kind_slotOutlines (depth : Nat) (names : List String) :
    ∀ o ∈ slotOutlines depth names, o.kind = .placeholder ∨ o.kind = .symbol := by
  intro o ho
  fun_induction slotOutlines depth names with
  | case1 => cases ho
  | case2 n =>
    rw [List.mem_singleton.mp ho]
    exact .inl rfl
  | case3 n ns hmore ih =>
    -- a placeholder, a comma, and the other slots
    rcases List.mem_cons.mp ho with rfl | ho
    · exact .inl rfl
    · rcases List.mem_cons.mp ho with rfl | ho
      · exact .inr rfl
      · exact ih ho

/-- Nothing is expanded to semicolons. -/
theorem Outline.kind_expanded_ne {x : Fields (List String)} {o : Outline}
    (h : o.kind ≠ .semicolon) : ∀ u ∈ o.expanded x, u.kind ≠ .semicolon := by
  intro u hu
  rw [expanded] at hu
  split at hu
  · rwa [List.mem_singleton.mp hu]
  · rw [List.mem_singleton.mp hu]
    simp
  · rcases kind_slotOutlines _ _ u hu with hk | hk
    all_goals
      rw [hk]
      decide

/-- An outline is expanded to itself, or to silent ones if it is a placeholder. -/
theorem Outline.expanded_eq_self_or_silent (x : Fields (List String)) (o : Outline) :
    o.expanded x = [o] ∨
      o.kind = .placeholder ∧ o.expanded x ≠ [] ∧ (∀ u ∈ o.expanded x, u.Silent) ∧
        ∀ u ∈ o.expanded x, u.token.isSecond = false := by
  cases hnames : Lexeme.names? x ⟨o.kind, o.text⟩ with
  | none =>
    left
    rw [expanded, hnames]
  | some names =>
    right
    refine ⟨(Lexeme.names?_eq_some hnames).1, ?_⟩
    rw [expanded, hnames]
    cases names with
    | nil =>
      -- the word that stands for an empty list opens no clause, at any depth
      have hdepth : ∀ depth, Silent ⟨.word, ['N', 'U', 'L', 'L'], depth⟩ := by
        intro depth next
        simp [Statement.clauseAt, token, Token.isWord, Token.word?]
      refine ⟨by simp, ?_, ?_⟩
      · intro u hu
        rw [List.mem_singleton.mp hu]
        exact hdepth o.depth
      · intro u hu
        rw [List.mem_singleton.mp hu]
        rfl
    | cons n ns =>
      -- names and commas are no words at all
      have hkind : ∀ u ∈ slotOutlines o.depth (n :: ns), u.kind ≠ .word := by
        intro u hu hword
        rcases kind_slotOutlines _ _ u hu with hk | hk
        all_goals
          rw [hk] at hword
          cases hword
      refine ⟨?_, fun u hu => silent_of_kind (hkind u hu),
        fun u hu => Token.isWord_of_kind (hkind u hu) _⟩
      cases ns with
      | nil => exact List.cons_ne_nil _ _
      | cons m ns => exact List.cons_ne_nil _ _

/-- The next outline is the same, or neither of the two goes on with a keyword. -/
theorem clauseAt_head?_expanded (x : Fields (List String)) (t : Token) (os : List Outline) :
    Statement.clauseAt t ((os.flatMap (Outline.expanded x)).map Outline.token).head? =
      Statement.clauseAt t (os.map Outline.token).head? := by
  cases os with
  | nil => rfl
  | cons o os =>
    rw [List.flatMap_cons]
    rcases o.expanded_eq_self_or_silent x with hsame | ⟨hk, hne, -, hsecond⟩
    · rw [hsame]
      rfl
    · obtain ⟨u, us, hu⟩ := List.exists_cons_of_ne_nil hne
      -- neither the placeholder nor its slots go on with a clause
      have hfirst : u.token.isSecond = false := hsecond u (by rw [hu]; exact List.mem_cons_self)
      have hown : o.token.isSecond = false :=
        Token.isWord_of_kind (by rw [Outline.token, hk]; exact nofun) _
      rw [hu]
      show Statement.clauseAt t (some u.token) = Statement.clauseAt t (some o.token)
      rw [Statement.clauseAt_of_isSecond hfirst, Statement.clauseAt_of_isSecond hown]

/-- Expanding collections changes no clause. -/
theorem clauses_expanded (x : Fields (List String)) (os : List Outline) :
    clauses (os.flatMap (Outline.expanded x)) = clauses os := by
  induction os with
  | nil => rfl
  | cons o os ih =>
    rw [List.flatMap_cons]
    rcases o.expanded_eq_self_or_silent x with hsame | ⟨hk, -, hsilent, -⟩
    · rw [hsame, List.singleton_append, clauses_cons, clauses_cons,
        clauseAt_head?_expanded x o.token os, ih]
    · -- a placeholder is silent, as its slots are
      have hown : ∀ u ∈ [o], u.Silent := by
        intro u hu
        rw [List.mem_singleton.mp hu]
        exact Outline.silent_of_kind (by rw [hk]; decide)
      rw [clauses_append_of_silent hsilent, ih, ← clauses_append_of_silent hown,
        List.singleton_append]

/-! ## The first token of a clause -/

namespace Statement

/-- Tokens that start with a clause. -/
def StartsWith (clause : Clause) (os : List Outline) : Prop :=
  ∃ o os' two, os = o :: os' ∧
    clauseAt o.token (os'.map Outline.token).head? = some (clause, two)

theorem StartsWith.fresh {clause : Clause} {os : List Outline} (h : StartsWith clause os) :
    FreshOutlines os := by
  obtain ⟨o, os', two, rfl, hclause⟩ := h
  intro t ht
  obtain rfl := Option.some.inj ht
  exact isSecond_of_clauseAt hclause

/-- Tokens still start with a clause when collections are expanded. -/
theorem StartsWith.expanded (x : Fields (List String)) {clause : Clause} {os : List Outline}
    (h : StartsWith clause os) : StartsWith clause (os.flatMap (Outline.expanded x)) := by
  obtain ⟨o, os', two, rfl, hclause⟩ := h
  rcases o.expanded_eq_self_or_silent x with hsame | ⟨hk, -⟩
  · refine ⟨o, _, two, by rw [List.flatMap_cons, hsame, List.singleton_append], ?_⟩
    rw [clauseAt_head?_expanded, hclause]
  · have hword : o.kind = .word := (clauseAt_eq_some hclause).1
    rw [hk] at hword
    cases hword

/-- The first token of a clause cuts the tokens of a statement: the clause does not start
before it. -/
theorem cut_of_marker? {s : Statement} {clause : Clause} {m : Marker}
    (h : s.marker? clause = some m) :
    StartsWith clause ((s.tokens.map Token.outline).drop m.first) ∧
      clause ∉ clauses ((s.tokens.map Token.outline).take m.first) := by
  obtain ⟨hmem, rfl⟩ := marker?_eq_some h
  obtain ⟨i, t, two, hfirst, ht, hclause, -⟩ := mem_markersFrom hmem
  rw [Nat.zero_add] at hfirst
  subst hfirst
  obtain ⟨hlt, rfl⟩ := List.getElem?_eq_some_iff.mp ht
  have hdrop : s.tokens.drop m.first = s.tokens[m.first] :: s.tokens.drop (m.first + 1) :=
    List.drop_eq_getElem_cons hlt
  have hstart : StartsWith m.clause ((s.tokens.map Token.outline).drop m.first) := by
    rw [← List.map_drop, hdrop, List.map_cons]
    refine ⟨_, _, two, rfl, ?_⟩
    rw [← hclause]
    refine clauseAt_congr rfl ?_
    rw [← List.head?_map, map_outline_token, List.head?_map, List.head?_drop]
  refine ⟨hstart, ?_⟩
  -- a marker of the clause among the tokens before would have been found
  have hsplit : s.markers =
      markersFrom 0 (s.tokens.take m.first) ++ markersFrom m.first (s.tokens.drop m.first) := by
    -- the first token of the marker is not the second one of another clause
    have hfresh : Fresh (s.tokens.drop m.first) := by
      intro u hu
      rw [hdrop] at hu
      obtain rfl := Option.some.inj hu
      exact isSecond_of_clauseAt hclause
    have happend := markersFrom_append (s.tokens.take m.first) hfresh 0
    rw [List.take_append_drop, List.length_take, Nat.min_eq_left (by omega),
      Nat.zero_add] at happend
    exact happend
  intro hbefore
  rw [← List.map_take, ← map_clause_markersFrom 0] at hbefore
  obtain ⟨m', hm', heq⟩ := List.mem_map.mp hbefore
  rw [marker?, hsplit, List.find?_append, Option.or_eq_some_iff] at h
  rcases h with hfound | ⟨hnone, -⟩
  · obtain ⟨j, u, two', hfirst, hu, -⟩ := mem_markersFrom (List.mem_of_find?_eq_some hfound)
    obtain ⟨hlt', -⟩ := List.getElem?_eq_some_iff.mp hu
    rw [List.length_take] at hlt'
    omega
  · rw [List.find?_eq_none] at hnone
    exact absurd heq (by simpa using hnone m' hm')

/-- Tokens of which a part starts with a clause that does not start before have their marker
there. -/
theorem marker?_of_clauses {s : Statement} {clause : Clause} {os us : List Outline}
    (hs : s.tokens.map Token.outline = os ++ us) (hos : clause ∉ clauses os)
    (hus : StartsWith clause us) :
    ∃ m, s.marker? clause = some m ∧ m.first = os.length := by
  -- the markers of the second part are counted from the end of the first one
  have hmarkers : s.markers = markersFrom 0 (os.map Outline.token) ++
      markersFrom os.length (us.map Outline.token) := by
    have happend := markersFrom_append (os.map Outline.token) hus.fresh 0
    rw [← List.map_append, List.length_map, Nat.zero_add] at happend
    rw [← happend]
    refine markersFrom_congr ?_ 0
    rw [map_outline_token, hs]
  obtain ⟨o, os', two, rfl, hclause⟩ := hus
  -- the first of its clauses is the one that was asked for
  have hnone : (markersFrom 0 (os.map Outline.token)).find? (·.clause = clause) = none := by
    rw [List.find?_eq_none]
    intro m hm heq
    exact hos (List.mem_map.mpr ⟨m, hm, of_decide_eq_true heq⟩)
  rw [List.map_cons, markersFrom, hclause] at hmarkers
  refine ⟨⟨clause, os.length, if two then os.length + 1 else os.length⟩, ?_, rfl⟩
  rw [marker?, hmarkers, List.find?_append, hnone, Option.none_or, List.find?_cons,
    decide_eq_true rfl]

/-- A statement that has a clause of its own that paging adds is refused. -/
theorem ensurePageable_of_clause {s : Statement} {clause : Clause} {ordered : Bool}
    (h : clause ∈ clauses (s.tokens.map Token.outline)) (hc : clause ∈ refused ordered) :
    ∃ fault, s.ensurePageable ordered = .error fault := by
  rw [← map_clause_markersFrom 0] at h
  -- the clause has a marker, so the search finds one
  obtain ⟨m, hm, rfl⟩ := List.mem_map.mp h
  rw [ensurePageable]
  split
  · exact ⟨_, rfl⟩
  · next hnone =>
    rw [List.find?_eq_none] at hnone
    exact absurd (List.contains_iff_mem.mpr hc) (hnone m hm)

end Statement

end SqlPaging.Sql
