import SqlPaging.Keyset
import SqlPaging.Proofs.Sql.Woven

/-!
# SqlPaging — the placeholders of a keyset predicate

The text of a keyset predicate is put into a statement together with the binds of a cursor.
What it asks for are the parameters of the cursor, and nothing else, if the expressions of the
order ask for nothing: each term for the one with its number.

Main results:

* `asks_joined` — texts with a keyword between them.
* `asks_grouped` — a predicate asks for the parameters of its terms.
* `mem_after` — these are numbered by the expressions of the order.
-/

namespace SqlPaging

namespace Sql

/-- A text that is scanned on its own, has no comment at its end that hides what follows, and
asks for nothing. -/
def Ground (d : Dialect) (s : String) : Prop :=
  ∃ found, scan d s.toList = .ok found ∧ (∀ c ∈ found.rest, isSpace c = true) ∧
    ∀ t ∈ found.tokens, t.kind ≠ .placeholder

/-- What evaluation finds about an expression without placeholders. -/
theorem ground_of_any {d : Dialect} {s : String}
    (h : (scan d s.toList).toOption.any (fun found => found.rest.all isSpace &&
      found.tokens.all fun t => t.kind != .placeholder) = true) : Ground d s := by
  obtain ⟨found, hfound, hrest, hkind⟩ : ∃ found, scan d s.toList = .ok found ∧
      found.rest.all isSpace = true ∧
        found.tokens.all (fun t => t.kind != .placeholder) = true := by
    refine exists_eq_ok_of_any ?_
    simpa only [Bool.decide_and, Bool.decide_eq_true] using h
  refine ⟨found, hfound, List.all_eq_true.mp hrest, fun t ht => ?_⟩
  simpa using List.all_eq_true.mp hkind t ht

/-- An expression without placeholders can be scanned. -/
theorem Ground.scans {d : Dialect} {s : String} (h : Ground d s) : Scans d s := by
  obtain ⟨found, hfound, hrest, -⟩ := h
  exact ⟨found, hfound, hrest⟩

/-- A text that prints tokens which ask for the given names, in front of any character that
passes a test. -/
def Asks (r : LexicalRules) (stops : Char → Bool) (text : List Char) (names : List String) :
    Prop :=
  ∃ os, Prints r stops text os ∧ outlineNames os = names

/-- A character that does not go on with a name. -/
def endsName (c : Char) : Bool := !isNameChar c

theorem outlineNames_append (os us : List Outline) :
    outlineNames (os ++ us) = outlineNames os ++ outlineNames us := List.filterMap_append

/-- Tokens that are no placeholders name nothing. -/
theorem outlineNames_of_kind {ts : List Token} (h : ∀ t ∈ ts, t.kind ≠ .placeholder) :
    outlineNames (ts.map Token.outline) = [] := by
  rw [outlineNames_map, List.filterMap_eq_nil_iff]
  exact fun t ht => if_neg (h t ht)

/-- Parentheses around tokens leave the names in them. -/
theorem outlineNames_deeper (os : List Outline) :
    outlineNames (os.map Outline.deeper) = outlineNames os := by
  rw [outlineNames, List.filterMap_map]
  rfl

namespace Prints

variable {r : LexicalRules} {p q : Char → Bool} {s : List Char} {os : List Outline}

theorem nil : Prints r p [] [] := ⟨[], rfl, rfl, fun _ hms _ => hms⟩

/-- A placeholder is printed as it is, if no character of a name follows. -/
theorem placeholder {w : List Char} (hstart : w.head?.any isWordStart = true)
    (hall : ∀ c ∈ w, isNameChar c = true) :
    Prints r endsName (':' :: w) [⟨.placeholder, ':' :: w, 0⟩] := by
  refine ⟨[⟨.placeholder, ':' :: w⟩], by simp [lexemeText], rfl, fun ms hms hstops => ?_⟩
  refine stable_placeholder_iff.mpr ⟨w, rfl, hstart, hall, fun c hc => ?_, hms⟩
  simpa [endsName] using hstops c hc

/-- A text in parentheses. -/
theorem group (h : Prints r p s os) (hp : p ')' = true) :
    Prints r (fun _ => true) ('(' :: (s ++ [')']))
      (⟨.openParen, ['('], 0⟩ :: (os.map Outline.deeper ++ [⟨.closeParen, [')'], 0⟩])) := by
  obtain ⟨ls, rfl, hos, hstable⟩ := h
  refine ⟨openParen :: (ls ++ [closeParen]), ?_, ?_, fun ms hms _ => ?_⟩
  · rw [lexemeText_cons, lexemeText_append]
    rfl
  · exact outlineFrom_open (outlineFrom_append_of (outlineFrom_deeper hos) (outlineFrom_close rfl))
  · rw [List.cons_append, List.append_assoc]
    -- the parenthesis behind does not join what is in front of it
    refine (hstable _ hms.closeParen fun c hc => ?_).openParen
    obtain rfl : ')' = c := Option.some.inj hc
    exact hp

end Prints

namespace Asks

variable {r : LexicalRules} {p q : Char → Bool} {s t w : List Char} {names more : List String}

/-- Two texts with a space between them. -/
theorem spaced (hs : Asks r p s names) (ht : Asks r q t more) (hp : p ' ' = true) :
    Asks r q (s ++ ' ' :: t) (names ++ more) := by
  obtain ⟨os, hos, rfl⟩ := hs
  obtain ⟨us, hus, rfl⟩ := ht
  exact ⟨_, hos.spaced hus hp, outlineNames_append os us⟩

theorem word (hne : w ≠ []) (hw : w.all Char.isAlpha = true) : Asks r endsWord w [] :=
  ⟨_, Prints.word hne hw, rfl⟩

theorem group (h : Asks r p s names) (hp : p ')' = true) :
    Asks r (fun _ => true) ('(' :: (s ++ [')'])) names := by
  obtain ⟨os, hos, rfl⟩ := h
  refine ⟨_, hos.group hp, ?_⟩
  rw [← List.singleton_append, outlineNames_append, outlineNames_append, outlineNames_deeper]
  exact List.append_nil _

/-- An expression without placeholders asks for nothing. -/
theorem of_ground {d : Dialect} {e : String} (h : Ground d e) :
    Asks (.ofDialect d) isSeparator e.toList [] := by
  obtain ⟨found, hfound, hrest, hkind⟩ := h
  exact ⟨_, Prints.scanned hfound hrest, outlineNames_of_kind hkind⟩

end Asks

/-- Texts with a keyword between them. -/
theorem asks_joined {α : Type} {r : LexicalRules} {p : Char → Bool} (hp : p ' ' = true)
    {w : String} (hne : w.toList ≠ []) (hw : w.toList.all Char.isAlpha = true)
    {text : α → String} {names : α → List String} {as : List α}
    (h : ∀ a ∈ as, Asks r p (text a).toList (names a)) :
    Asks r p ((" " ++ w ++ " ").intercalate (as.map text)).toList (as.flatMap names) := by
  induction as with
  | nil => exact ⟨[], Prints.nil, rfl⟩
  | cons a as ih =>
    obtain ⟨hfirst, hrest⟩ := List.forall_mem_cons.mp h
    cases as with
    | nil =>
      rw [List.map_singleton, String.intercalate_singleton, List.flatMap_singleton]
      exact hfirst
    | cons b as =>
      -- the word stands between the first text and the others, with blanks on both sides
      have hall := hfirst.spaced ((Asks.word hne hw).spaced (ih hrest) (by decide)) hp
      rw [List.map_cons, List.map_cons, String.intercalate_cons_cons, ← List.map_cons,
        List.flatMap_cons]
      simpa using hall

end Sql

namespace Keyset

open Sql

variable {d : Dialect}

theorem asks_comparison (c : Comparison) : Asks (.ofDialect d) isSeparator c.sql.toList [] := by
  have hground : Ground d c.sql := by
    cases d <;> cases c
    all_goals exact ground_of_any (by decide)
  exact Asks.of_ground hground

/-- The placeholder of a boundary value asks for it. -/
theorem asks_paramName (i : Nat) :
    Asks (.ofDialect d) endsName (':' :: (paramName i).toList) [paramName i] := by
  have hname : ∀ c ∈ (paramName i).toList, isNameChar c = true :=
    isNameChar_expandedName (w := namePart.toList) (List.all_eq_true.mp (by decide)) i
  have hstart : (paramName i).toList.head?.any isWordStart = true := by
    simp [paramName, expandedName, namePart, isWordStart]
  refine ⟨_, Prints.placeholder hstart hname, ?_⟩
  simp [outlineNames, Lexeme.placeholder?]

/-- A term asks for the parameter with its number. -/
theorem asks_term {t : Term} (h : Ground d t.expression) :
    Asks (.ofDialect d) endsName t.sql.toList [paramName t.index] := by
  have hcompared :=
    (asks_comparison (d := d) t.comparison).spaced (asks_paramName t.index) (by decide)
  have hall := (Asks.of_ground h).spaced hcompared (by decide)
  simpa [Term.sql] using hall

/-- The names of the parameters of a predicate, where they are asked for. -/
def names (p : Predicate) : List String := p.flatMap fun c => c.map fun t => paramName t.index

/-- A predicate asks for the parameters of its terms, in front of any text. -/
theorem asks_grouped {p : Predicate} (h : ∀ c ∈ p, ∀ t ∈ c, Ground d t.expression) :
    Asks (.ofDialect d) (fun _ => true) (grouped p).toList (names p) := by
  have hclause : ∀ c ∈ p, Asks (.ofDialect d) (fun _ => true) (clauseSql c).toList
      (c.map fun t => paramName t.index) := by
    intro c hc
    have hterms := asks_joined (p := endsName) (w := "AND") (by decide) (by decide) (by decide)
      fun t ht => asks_term (h c hc t ht)
    have hgroup := hterms.group (by decide)
    rw [← List.map_eq_flatMap] at hgroup
    simpa [clauseSql] using hgroup
  have hclauses := asks_joined (w := "OR") rfl (by decide) (by decide) hclause
  rw [grouped]
  -- one clause alone stands without parentheses around it
  split
  · have hgroup := hclauses.group rfl
    simpa [sql, names] using hgroup
  · exact hclauses

/-- The terms of a clause compare the given expressions, with numbers one after the other. -/
theorem mem_clause {index : Nat} {last : Comparison} {items : List OrderItem} {t : Term}
    (h : t ∈ clause index last items) :
    ∃ j i, items[j]? = some i ∧ t.expression = i.expression ∧ t.index = index + j := by
  fun_induction clause index last items with
  | case1 => cases h
  | case2 index i =>
    rw [List.mem_singleton.mp h]
    exact ⟨0, i, rfl, rfl, rfl⟩
  | case3 index i is hne ih =>
    rcases List.mem_cons.mp h with rfl | h
    · exact ⟨0, i, rfl, rfl, rfl⟩
    · -- the other terms are numbered from the next place on
      obtain ⟨j, k, hk, heq, hindex⟩ := ih h
      refine ⟨j + 1, k, hk, heq, ?_⟩
      omega

/-- Each clause is that of the first items of the order. -/
theorem mem_clausesUpTo {items : List OrderItem} {walk : Direction} {inclusive : Bool} {n : Nat}
    {c : Clause} (h : c ∈ clausesUpTo items walk inclusive n) :
    ∃ last m, c = clause 0 last (items.take m) := by
  induction n with
  | zero => cases h
  | succ n ih =>
    rcases List.mem_cons.mp h with rfl | h
    · exact ⟨_, n + 1, rfl⟩
    · exact ih h

/-- The terms of the predicate of a walk are about the expressions of the order, by number. -/
theorem mem_after {order : Order} {walk : Direction} {inclusive : Bool} {c : Clause} {t : Term}
    (hc : c ∈ after order walk inclusive) (ht : t ∈ c) :
    ∃ i, order.items[t.index]? = some i ∧ t.expression = i.expression := by
  obtain ⟨last, m, rfl⟩ := mem_clausesUpTo hc
  obtain ⟨j, i, hi, heq, hindex⟩ := mem_clause ht
  rw [List.getElem?_take] at hi
  split at hi
  · exact ⟨i, by rwa [hindex, Nat.zero_add], heq⟩
  · cases hi

end Keyset

end SqlPaging
