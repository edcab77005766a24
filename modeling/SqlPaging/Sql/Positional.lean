import SqlPaging.Param
import SqlPaging.Sql.Token

/-!
# SqlPaging — positional placeholders

Some databases number their placeholders. The names of a text are numbered in the
order in which they first appear; a name that appears again keeps its number.
All else in the text stays as it is.

Main results:

* `firsts_eq_eraseDups` — a list of names without repeats.
* `nodup_names` — every number stands for another name.
* `mem_names_iff` — exactly the names of the placeholders are numbered.
* `getElem?_number` — the number of a name is its place in the list, from one.
-/

namespace SqlPaging.Sql

/-- The names of a list in the order in which they first appear. -/
def firsts : List String → List String
  | [] => []
  | n :: ns => n :: (firsts ns).filter (· != n)

/-- The names of placeholders in the order in which they first appear. -/
def placeholderNames (ts : List Token) : List String := firsts (ts.filterMap (·.placeholder?))

/-- The number of a name in a list, from one. -/
def numberOf (names : List String) (name : String) : Nat := names.idxOf name + 1

/-- The text of a token with its placeholder numbered. -/
def Token.numbered (names : List String) (t : Token) : List Char :=
  match t.placeholder? with
  -- The number takes the place of the colon and the name.
  | some name => '$' :: Nat.toDigits 10 (numberOf names name)
  | none => t.text

/-- A text with numbered placeholders, and the values they stand for. -/
structure Positional where
  sql : String
  binds : Binds
deriving DecidableEq, Repr

namespace Positional

/-- The binds of names, in their order. The first name without a bind is refused. -/
def bindsOf (bs : Binds) : List String → Except ArgumentFault Binds
  | [] => .ok []
  | name :: names => do
    match bs.get? name with
    | none => .error (.unbound name)
    | some b =>
      let more ← bindsOf bs names
      .ok (b :: more)

/-- The scanned text with its placeholders numbered. -/
def ofScan (s : Scan) (bs : Binds) : Except ArgumentFault Positional := do
  let names := placeholderNames s.tokens
  let binds ← bindsOf bs names
  let text := (s.tokens.flatMap fun t => t.gap ++ t.numbered names) ++ s.rest
  .ok { sql := String.ofList text, binds }

end Positional

/-! ## Names -/

/-- Leaving out what comes again leaves every name. -/
theorem mem_firsts (ns : List String) (name : String) : name ∈ firsts ns ↔ name ∈ ns := by
  induction ns with
  | nil => simp [firsts]
  | cons n ns ih => by_cases h : name = n <;> simp [firsts, ih, h]

/-- No name is left twice. -/
theorem nodup_firsts (ns : List String) : (firsts ns).Nodup := by
  induction ns with
  | nil => simp [firsts]
  | cons n ns ih =>
    simp only [firsts, List.nodup_cons]
    exact ⟨by simp, ih.filter _⟩

/-- Names may be selected before or after what comes again is left out. -/
theorem firsts_filter (p : String → Bool) (ns : List String) :
    firsts (ns.filter p) = (firsts ns).filter p := by
  induction ns with
  | nil => rfl
  | cons n ns ih =>
    rw [firsts, List.filter_cons, List.filter_cons]
    split
    · rw [firsts, ih, List.filter_filter, List.filter_filter]
      exact congrArg (n :: ·) (List.filter_congr fun m _ => Bool.and_comm _ _)
    · next hn =>
      -- a name that is left out takes only itself away
      rw [ih, List.filter_filter, List.filter_congr]
      intro m _
      by_cases hm : m = n
      · subst hm
        simp [hn]
      · simp [hm]

/-- The names in the order in which they first appear are those that are left without repeats. -/
theorem firsts_eq_eraseDups : ∀ ns : List String, firsts ns = ns.eraseDups
  | [] => rfl
  | n :: ns => by
    rw [firsts, List.eraseDups_cons, ← firsts_filter, firsts_eq_eraseDups (ns.filter _)]
    rfl
termination_by ns => ns.length
decreasing_by exact Nat.lt_succ_of_le (List.length_filter_le _ _)

/-- The placeholders of a statement are numbered by distinct names. -/
theorem nodup_names (ts : List Token) : (placeholderNames ts).Nodup := nodup_firsts _

/-- A name has a number just if some placeholder has the name. -/
theorem mem_names_iff (ts : List Token) (name : String) :
    name ∈ placeholderNames ts ↔ ∃ t ∈ ts, t.placeholder? = some name := by
  simp [placeholderNames, mem_firsts, List.mem_filterMap]

/-- The number of a name is its place among the names, counted from one. -/
theorem getElem?_number {names : List String} {name : String} (h : name ∈ names) :
    names[numberOf names name - 1]? = some name := by
  simp only [numberOf, Nat.add_sub_cancel]
  have hl := List.idxOf_lt_length_of_mem h
  rw [List.getElem?_eq_getElem hl, List.getElem_idxOf hl]

end SqlPaging.Sql
