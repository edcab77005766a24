import SqlPaging.Proofs.Sql.Site
import SqlPaging.Proofs.Table.Reference

/-!
# SqlPaging — what compiling leaves alone

A query differs from its statement in what was put into it, and in nothing else. What is put
into it are edits: one for each placeholder of a collection, those that add the condition of a
cursor, and one for the tail. They are asked for in this order and carried out in that of
their places. At each token they come to the same as putting text into the draft of the
statement, so that the text of a query is the text of the statement with the edits carried
out. Behind the last token, nothing but semicolons, spaces and comments is dropped.

Main results:

* `Telling.putBefore`, `Telling.putAfter` — putting text into a draft is one more edit.
* `Telling.edited` — carrying out the edits gives the text of the draft.
* `compile_frame` — a query is its statement with edits that do not overlap.
-/

namespace SqlPaging

open Sql

namespace Sql

/-! ## The edits of a query -/

/-- What stands for a collection, given the names of its elements. -/
def expansion (names : List String) : List Char :=
  if names.isEmpty then "NULL".toList else Draft.slots names

/-- The edits that expand the collections among tokens. -/
def expansionEdits (x : Fields (List String)) (ts : List Token) : List Edit :=
  ts.filterMap fun t => (t.placeholder?.bind x.get?).map fun names =>
    { start := t.start, old := t.text, new := expansion names }

namespace Statement

/-- The edit that puts text right before a token. -/
def editBefore (s : Statement) (i : Nat) (t : List Char) : Edit :=
  .insertion ((s.tokens[i]?.map (·.start)).getD 0) t

/-- The edit that puts text right after a token. -/
def editAfter (s : Statement) (i : Nat) (t : List Char) : Edit :=
  .insertion ((s.tokens[i]?.map Token.stop).getD 0) t

/-- The edits that add a condition to a statement's own, or a new one. -/
def conditionEdits (s : Statement) (condition : List Char) : Except Fault (List Edit) :=
  match (s.marker? .filter).or (s.marker? .having) with
  | some m => do
    let (first, last) ← s.conditionSpan m
    .ok [s.editBefore first "(".toList, s.editAfter last (") AND ".toList ++ condition)]
  | none => do
    let i ← s.filterIndex
    .ok [s.editAfter i (" WHERE ".toList ++ condition)]

/-- The edits that make a query of a statement, in the order in which they are asked for. -/
def edits (s : Statement) (x : Fields (List String)) (condition : Option (List Char))
    (tail : List Char) : Except Fault (List Edit) := do
  let own ← condition.elim (.ok []) s.conditionEdits
  let i ← s.tailIndex
  .ok (expansionEdits x s.tokens ++ own ++ [s.editAfter i tail])

end Statement

/-! ## Parts of a text -/

/-- A part of an edited text: as it was, or changed. -/
inductive Part where
  | kept (text : List Char)
  | changed (old new : List Char)

namespace Part

def old : Part → List Char
  | kept t => t
  | changed o _ => o

def new : Part → List Char
  | kept t => t
  | changed _ n => n

def change? : Part → Option (List Char × List Char)
  | kept _ => none
  | changed o n => some (o, n)

end Part

namespace Site

/-- The parts that the edits at a site make. -/
def parts (p : Site) : List Part :=
  .kept p.token.gap :: (p.before.map (Part.changed []) ++
    (p.body.elim (.kept p.token.text) (Part.changed p.token.text) ::
      p.after.map (Part.changed [])))

private theorem parts_insertions (ts : List (List Char)) :
    (ts.map (Part.changed [])).flatMap Part.old = [] ∧
      (ts.map (Part.changed [])).flatMap Part.new = ts.flatten ∧
        (ts.map (Part.changed [])).filterMap Part.change? = ts.map ([], ·) := by
  induction ts with
  | nil => exact ⟨rfl, rfl, rfl⟩
  | cons t ts ih =>
    obtain ⟨hold, hnew, hchange⟩ := ih
    rw [List.map_cons, List.flatMap_cons, List.flatMap_cons, hold, hnew]
    -- an insertion takes nothing out
    refine ⟨rfl, rfl, ?_⟩
    rw [List.filterMap_cons, Part.change?, hchange]
    rfl

/-- The parts of a site were its token with the gap in front of it. -/
theorem old_parts (p : Site) : p.parts.flatMap Part.old = p.token.gap ++ p.token.text := by
  have hbody : (p.body.elim (.kept p.token.text) (Part.changed p.token.text)).old =
      p.token.text := by
    cases p.body <;> rfl
  rw [parts, List.flatMap_cons, List.flatMap_append, List.flatMap_cons,
    (parts_insertions p.before).1, (parts_insertions p.after).1, hbody, List.append_nil,
    List.nil_append]
  rfl

/-- The parts of a site are now what stands in its slot. -/
theorem new_parts (p : Site) : p.parts.flatMap Part.new = p.slot.text := by
  have hbody : (p.body.elim (.kept p.token.text) (Part.changed p.token.text)).new =
      p.body.getD p.token.text := by
    cases p.body <;> rfl
  rw [parts, List.flatMap_cons, List.flatMap_append, List.flatMap_cons,
    (parts_insertions p.before).2.1, (parts_insertions p.after).2.1, hbody, Slot.text]
  simp only [slot, Part.new, List.append_assoc]

/-- The parts that change are the edits of the site. -/
theorem changes_parts (p : Site) :
    p.parts.filterMap Part.change? = p.edits.map fun e => (e.old, e.new) := by
  have hinsertions : ∀ (place : Nat) (ts : List (List Char)),
      (ts.map (Edit.insertion place)).map (fun e => (e.old, e.new)) = ts.map ([], ·) := by
    intro place ts
    rw [List.map_map]
    rfl
  -- the token itself is one part, changed or kept
  have hbody : [p.body.elim (.kept p.token.text) (Part.changed p.token.text)].filterMap
      Part.change? = (p.body.map fun b =>
        ({ start := p.token.start, old := p.token.text, new := b } : Edit)).toList.map
          fun e => (e.old, e.new) := by
    cases p.body <;> rfl
  rw [edits, List.map_append, List.map_append, hinsertions, hinsertions, ← hbody,
    ← (parts_insertions p.before).2.2, ← (parts_insertions p.after).2.2, ← List.filterMap_append,
    ← List.filterMap_append]
  rfl

end Site

/-! ## Drafts as edits -/

/-- The sites of tokens in which collections are expanded. -/
def expandedSites (x : Fields (List String)) (ts : List Token) : List Site :=
  ts.map fun t =>
    { token := t, before := [], body := (t.placeholder?.bind x.get?).map expansion, after := [] }

/-- The sites of a statement say what a draft of it is, and what a queue of edits does. -/
structure Telling (s : Statement) (queue : List Edit) (draft : Draft) (ps : List Site) : Prop where
  placed : Placed 0 s.tokens
  tokens : siteTokens ps = s.tokens
  queue : inOrder queue = siteEdits ps
  draft : ps.map Site.slot = draft

/-- An expanded token has the text of its elements, or its own. -/
theorem lexemeText_expanded (x : Fields (List String)) (t : Token) :
    lexemeText (t.lexeme.expanded x) =
      ((t.placeholder?.bind x.get?).map expansion).getD t.text := by
  rw [Token.placeholder?_bind]
  cases hnames : t.lexeme.names? x with
  | none =>
    rw [Lexeme.expanded_of_none hnames]
    simp [lexemeText, Token.lexeme]
  | some names =>
    rw [Option.map_some, Option.getD_some, expansion]
    -- an empty list is written as one word, and any other one by its names
    cases hempty : names.isEmpty with
    | true =>
      rw [List.isEmpty_iff.mp hempty] at hnames
      rw [Lexeme.expanded, hnames]
      rfl
    | false =>
      have hne : names ≠ [] := by
        rintro rfl
        cases hempty
      rw [Lexeme.expanded_of_some hnames hne, lexemeText_slotLexemes]
      rfl

/-- In the draft with collections expanded, the edits are those that expand them. -/
theorem telling_expanded {s : Statement} (hplaced : Placed 0 s.tokens)
    (x : Fields (List String)) :
    Telling s (expansionEdits x s.tokens) (Draft.ofExpanded x s.tokens)
      (expandedSites x s.tokens) := by
  have htokens : siteTokens (expandedSites x s.tokens) = s.tokens := by
    rw [siteTokens, expandedSites, List.map_map]
    exact List.map_id _
  -- token by token, as each of them makes one edit or none
  have hedits : ∀ ts : List Token, siteEdits (expandedSites x ts) = expansionEdits x ts := by
    intro ts
    induction ts with
    | nil => rfl
    | cons t ts ih =>
      have hrest : siteEdits (expandedSites x (t :: ts)) =
          ((t.placeholder?.bind x.get?).map fun names =>
            ({ start := t.start, old := t.text, new := expansion names } : Edit)).toList ++
              siteEdits (expandedSites x ts) := by
        rw [expandedSites, List.map_cons, siteEdits_cons, Site.edits, Option.map_map,
          List.map_nil, List.map_nil, List.append_nil, List.nil_append]
        rfl
      rw [hrest, ih, expansionEdits, expansionEdits, List.filterMap_cons]
      cases t.placeholder?.bind x.get? <;> rfl
  refine ⟨hplaced, htokens, ?_, ?_⟩
  · -- the sites stand as the tokens do, and so do their edits
    have hsites := hplaced
    rw [← htokens] at hsites
    have hturn := inTurn_sites hsites
    rw [hedits] at hturn ⊢
    exact hturn.inOrder_eq
  · rw [expandedSites, List.map_map, Draft.ofExpanded]
    refine List.map_congr_left ?_
    intro t _
    rw [lexemeText_expanded]
    rfl

namespace Telling

variable {s : Statement} {queue : List Edit} {draft : Draft} {ps : List Site} {i : Nat}

/-- The sites on both sides of a token's. -/
theorem split (h : Telling s queue draft ps) (hi : i < s.tokens.length) :
    ∃ front p back, ps = front ++ p :: back ∧ front.length = i ∧ s.tokens[i]? = some p.token ∧
      back.head? = ps[i + 1]? := by
  -- there is a site for each token
  have hlen : ps.length = s.tokens.length := by
    rw [← h.tokens, siteTokens, List.length_map]
  rw [← hlen] at hi
  refine ⟨ps.take i, ps[i], ps.drop (i + 1), ?_, ?_, ?_, List.head?_drop⟩
  · rw [List.getElem_cons_drop, List.take_append_drop]
  · rw [List.length_take]
    omega
  · rw [← h.tokens, siteTokens, List.getElem?_map, List.getElem?_eq_getElem hi]
    rfl

/-- Putting text right before a token is one more edit. -/
theorem putBefore (h : Telling s queue draft ps) (hi : i < s.tokens.length) (t : List Char) :
    Telling s (queue ++ [s.editBefore i t]) (draft.putBefore i t)
      (ps.modify i fun p => { p with before := p.before ++ [t] }) := by
  obtain ⟨front, p, back, rfl, rfl, htoken, -⟩ := h.split hi
  have hplaced := h.placed
  rw [← h.tokens] at hplaced
  rw [Draft.modify_length, Statement.editBefore, htoken]
  -- the edit goes to the start of the token, behind those that are there already
  refine ⟨h.placed, ?_, inOrder_before h.queue hplaced t, ?_⟩
  · rw [← h.tokens]
    simp only [siteTokens, List.map_append, List.map_cons]
  · rw [← h.draft, Draft.putBefore, List.map_append, List.map_append, List.map_cons,
      List.map_cons, ← List.length_map Site.slot, Draft.modify_length]
    simp [Site.slot]

/-- Putting text right after a token is one more edit, if no text has been put before the
next one. -/
theorem putAfter (h : Telling s queue draft ps) (hi : i < s.tokens.length)
    (hnext : ∀ q ∈ ps[i + 1]?, q.before = []) (t : List Char) :
    Telling s (queue ++ [s.editAfter i t]) (draft.putAfter i t)
      (ps.modify i fun p => { p with after := p.after ++ [t] }) := by
  obtain ⟨front, p, back, rfl, rfl, htoken, hhead⟩ := h.split hi
  have hplaced := h.placed
  rw [← h.tokens] at hplaced
  rw [← hhead] at hnext
  -- the edit goes to the end of the token, behind those in its own site
  rw [Draft.modify_length, Statement.editAfter, htoken]
  refine ⟨h.placed, ?_, inOrder_after h.queue hplaced hnext t, ?_⟩
  · rw [← h.tokens]
    simp only [siteTokens, List.map_append, List.map_cons]
  · rw [← h.draft, Draft.putAfter, List.map_append, List.map_append, List.map_cons,
      List.map_cons, ← List.length_map Site.slot, Draft.modify_length]
    simp [Site.slot]

/-- Carrying out the edits gives the text of the draft, and its parts that were not changed
are those of the statement. -/
theorem edited (h : Telling s queue draft ps) (rest : List Char) :
    InTurn (inOrder queue) ∧
      edited? (s.body ++ rest) (byteLength s.body) 0 (inOrder queue) = some draft.text ∧
      ∃ parts : List Part, parts.flatMap Part.old = s.body ∧
        parts.flatMap Part.new = draft.text ∧
        parts.filterMap Part.change? = (inOrder queue).map fun e => (e.old, e.new) := by
  have hplaced := h.placed
  rw [← h.tokens] at hplaced
  rw [h.queue, ← h.draft, Statement.body, ← h.tokens]
  -- the sites tell where each edit goes and what it changes
  refine ⟨inTurn_sites hplaced, ?_, ps.flatMap Site.parts, ?_, ?_, ?_⟩
  · exact gives_sites (show Placed (byteLength []) _ from hplaced) [] [] rfl
  · rw [List.flatMap_assoc, tokenText, siteTokens, List.flatMap_map]
    simp only [Site.old_parts]
  · rw [List.flatMap_assoc, Draft.text, List.flatMap_map]
    simp only [Site.new_parts]
  · rw [List.filterMap_flatMap, siteEdits, List.map_flatMap]
    simp only [Site.changes_parts]

/-- A site that nothing was put in front of stays one when another site is changed. -/
theorem before_modify {ps : List Site} {i k : Nat} {f : Site → Site}
    (h : ∀ q ∈ ps[k]?, q.before = [])
    (hf : i = k → ∀ p : Site, p.before = [] → (f p).before = []) :
    ∀ q ∈ (ps.modify i f)[k]?, q.before = [] := by
  intro q hq
  rw [List.getElem?_modify] at hq
  obtain ⟨p, hp, rfl⟩ := Option.map_eq_some_iff.mp hq
  have hown := h p hp
  split
  · next heq => exact hf heq p hown
  · exact hown

/-- The tail does not go right before the condition of a statement. -/
theorem tail_apart {first last : Nat} {m : Statement.Marker} (hne : s.tokens ≠ [])
    (hspan : s.conditionSpan m = .ok (first, last)) (hi : s.tailIndex = .ok i) :
    first ≠ i + 1 := by
  obtain ⟨hfirst, hlt, -⟩ := Statement.conditionSpan_eq_ok hspan
  rw [Statement.tailIndex_eq_ok hne hi]
  cases hm : s.marker? .locking with
  | none =>
    have hle := Statement.placeOf_le s (s.markers.find? fun n => m.last < n.first)
      fun n hn => List.mem_of_find?_eq_some hn
    have hend : s.placeOf none = s.tokens.length := rfl
    omega
  | some k =>
    -- a condition that begins at the locking clause would be empty
    show first ≠ k.first
    intro heq
    have hle := Statement.placeOf_find?_le (p := fun n => m.last < n.first)
      (Statement.marker?_eq_some hm).1 (decide_eq_true (by omega))
    omega

/-- Adding a condition is some more edits, none of which is in the way of the tail. -/
theorem addCondition (h : Telling s queue draft ps) (hne : s.tokens ≠ [])
    (hbefore : ∀ (k : Nat), ∀ q ∈ ps[k]?, q.before = []) {condition : List Char} {draft' : Draft}
    (hdraft : Draft.addCondition s condition draft = .ok draft') (hi : s.tailIndex = .ok i) :
    ∃ own ps', s.conditionEdits condition = .ok own ∧ Telling s (queue ++ own) draft' ps' ∧
      ∀ q ∈ ps'[i + 1]?, q.before = [] := by
  rw [Draft.addCondition] at hdraft
  rw [Statement.conditionEdits]
  -- a clause that is there is put in parentheses, which takes two edits and not one
  cases hm : (s.marker? .filter).or (s.marker? .having) with
  | none =>
    rw [hm] at hdraft
    obtain ⟨k, hk, hput⟩ := bind_eq_ok.mp hdraft
    obtain rfl := Except.ok.inj hput
    have hplace := Statement.filterIndex_eq_ok hne hk
    have hle := Statement.placeOf_le s
      (s.markers.find? fun m => Statement.afterFilter.contains m.clause)
      fun n hn => List.mem_of_find?_eq_some hn
    refine ⟨_, _, bind_eq_ok.mpr ⟨k, hk, rfl⟩, h.putAfter (by omega) (hbefore _) _, ?_⟩
    exact before_modify (hbefore _) fun _ p hp => hp
  | some m =>
    rw [hm] at hdraft
    obtain ⟨⟨first, last⟩, hspan, hput⟩ := bind_eq_ok.mp hdraft
    obtain rfl := Except.ok.inj hput
    obtain ⟨-, hlt, hlast⟩ := Statement.conditionSpan_eq_ok hspan
    have hle := Statement.placeOf_le s (s.markers.find? fun n => m.last < n.first)
      fun n hn => List.mem_of_find?_eq_some hn
    -- the closing parenthesis is put behind the opening one, and nothing is in its way there
    have hopen := h.putBefore (i := first) (by omega) "(".toList
    have hnext := before_modify (i := first) (f := fun p =>
      { p with before := p.before ++ ["(".toList] }) (hbefore (last + 1)) (by omega)
    have hclose := hopen.putAfter (i := last) (by omega) hnext (") AND ".toList ++ condition)
    rw [List.append_assoc] at hclose
    refine ⟨_, _, bind_eq_ok.mpr ⟨(first, last), hspan, rfl⟩, hclose, ?_⟩
    refine before_modify (before_modify (hbefore _) fun heq => ?_) fun _ p hp => hp
    exact absurd heq (tail_apart hne hspan hi)

end Telling

end Sql

namespace Query

variable {d : Dialect} {sql : String} {order : Order} {params : Params} {pager : Pager}
  {cursor : Option Cursor} {q : Query}

/-- The edits that make a query of a statement. -/
theorem exists_telling_of_compile (hq : compile d sql order params pager cursor = .ok q) :
    ∃ n s es draft ps, normalize d params = .ok n ∧ parse d sql = .ok s ∧
      s.edits n.expansions ((conditionOf d order cursor).map fun p => (Keyset.grouped p).toList)
        (tail (emitted order cursor) q.window) = .ok es ∧
      Telling s es draft ps ∧ q.sql.toList = draft.text := by
  obtain ⟨n, s, draft, seek, i, hn, hs, -, hdraft, hseek, hi, rfl⟩ := compile_eq_ok_iff.mp hq
  rw [expand, mapError_eq_ok, Draft.expanded] at hdraft
  obtain rfl := Draft.expandFrom_eq_ok hdraft
  have hbase := mapError_eq_ok.mp hs
  have hne := (Statement.parse_eq_ok hbase).1
  have hplaced : Placed 0 s.tokens := by
    obtain ⟨ps, ms, hlexed⟩ := exists_lexed_of_parse hbase
    obtain ⟨all, dropped, hnest, -, htokens⟩ := hlexed.nested
    have hall : Placed 0 all.tokens :=
      placed_of_nestFrom (fun l hl => hlexed.stable.text_ne_nil_of_mem hl) hnest rfl
    rw [htokens, placed_append] at hall
    exact hall.1
  -- nothing has been put in front of a token yet
  have hfresh : ∀ (k : Nat), ∀ q ∈ (expandedSites n.expansions s.tokens)[k]?, q.before = [] := by
    intro k q hq
    rw [expandedSites, List.getElem?_map] at hq
    obtain ⟨t, -, rfl⟩ := Option.map_eq_some_iff.mp hq
    rfl
  have hle : i < s.tokens.length := by
    have hplace := Statement.placeOf_le s (s.marker? .locking) fun m hm =>
      (Statement.marker?_eq_some hm).1
    rwa [← Statement.tailIndex_eq_ok hne hi] at hplace
  -- the text at the end is the last edit in both modes
  have htail : ∀ {own draft ps}, Telling s (expansionEdits n.expansions s.tokens ++ own) draft ps →
      (∀ q ∈ ps[i + 1]?, q.before = []) → ∀ t, ∃ ps',
        Telling s (expansionEdits n.expansions s.tokens ++ own ++ [s.editAfter i t])
          (draft.putAfter i t) ps' := by
    intro own draft ps h hnext t
    exact ⟨_, h.putAfter hle hnext t⟩
  have hexpanded := telling_expanded hplaced n.expansions
  cases cursor with
  | none =>
    obtain ⟨w, -, rfl⟩ := skipping_eq_ok_iff.mp hseek
    -- without a cursor there is no condition to add
    rw [← List.append_nil (expansionEdits n.expansions s.tokens)] at hexpanded
    obtain ⟨ps, hps⟩ := htail hexpanded (hfresh _) (tail order w)
    refine ⟨n, s, _, _, ps, hn, hs, ?_, hps, String.toList_ofList⟩
    exact bind_eq_ok.mpr ⟨[], rfl, bind_eq_ok.mpr ⟨i, hi, rfl⟩⟩
  | some c =>
    obtain ⟨-, k, draft', w, hk, hcondition, -, rfl⟩ := seeking_eq_ok_iff.mp hseek
    obtain ⟨own, ps, hown, hps, hnext⟩ := hexpanded.addCondition hne hfresh hcondition hi
    obtain ⟨ps', hps'⟩ := htail hps hnext (tail (emitted order (some c)) w)
    have hpredicate : conditionOf d order (some c) = some k.predicate := by
      rw [conditionOf, hk]
      rfl
    refine ⟨n, s, _, _, ps', hn, hs, ?_, hps', String.toList_ofList⟩
    rw [hpredicate]
    exact bind_eq_ok.mpr ⟨own, hown, bind_eq_ok.mpr ⟨i, hi, rfl⟩⟩

/-- A query is the text of its statement with the edits carried out that expand collections,
add the condition and put the tail. The edits do not overlap, and what they leave alone is as
it was. Behind the last token, only semicolons, spaces and comments are dropped. -/
theorem compile_frame (hq : compile d sql order params pager cursor = .ok q) :
    ∃ (n : Normalized) (s : Statement) (es : List Edit) (parts : List Part) (ls ms : List Lexeme),
      normalize d params = .ok n ∧ parse d sql = .ok s ∧
      s.edits n.expansions ((conditionOf d order cursor).map fun p => (Keyset.grouped p).toList)
        (tail (emitted order cursor) q.window) = .ok es ∧
      InTurn (inOrder es) ∧
      edited? sql.toList (byteLength s.body) 0 (inOrder es) = some q.sql.toList ∧
      parts.flatMap Part.new = q.sql.toList ∧ parts.flatMap Part.old = s.body ∧
      parts.filterMap Part.change? = (inOrder es).map (fun e => (e.old, e.new)) ∧
      lex d sql.toList = (ls ++ ms, none) ∧ lexemeText ls = s.body ∧ lexemeText ms = s.rest ∧
      ∀ l ∈ ms, l.isGap = true ∨ l.kind = .semicolon := by
  obtain ⟨n, s, es, draft, sites, hn, hs, hes, htelling, hsql⟩ := exists_telling_of_compile hq
  obtain ⟨ps, ms, hlexed⟩ := exists_lexed_of_parse (mapError_eq_ok.mp hs)
  -- the lexemes are cut where the last token ends; only gaps and semicolons stand behind it
  have hbody : lexemeText (pieceLexemes ps) = s.body := by
    rw [Statement.body, hlexed.tokens, tokenText_pieceTokens]
  have htext := hlexed.text
  rw [lexemeText_append, hbody] at htext
  have hlex : lex d sql.toList = (pieceLexemes ps ++ ms, none) := by
    have hstable := hlexed.stable
    rwa [Stable, hlexed.text] at hstable
  have hrest : lexemeText ms = s.rest := by
    have hall := Statement.text_of_parse (mapError_eq_ok.mp hs) (by rw [hlex])
    rw [← htext] at hall
    exact (List.append_cancel_left hall).symm
  -- the edits are made on the body, and the text goes on behind them
  obtain ⟨hturn, hedited, parts, hold, hnew, hchanges⟩ := htelling.edited (lexemeText ms)
  rw [htext] at hedited
  rw [← hsql] at hedited hnew
  exact ⟨n, s, es, parts, pieceLexemes ps, ms, hn, hs, hes, hturn, hedited, hnew, hold, hchanges,
    hlex, hbody, hrest, hlexed.dropped⟩

/-- A condition that ends with a collection, at the place of the tail, in a text with
characters of several bytes. -/
theorem compile_frame_of_collection :
    ∃ q s es, compile .postgres "SELECT é FROM t WHERE 'ü' = ANY :ids; -- fin"
        ⟨[⟨"é", .ascending⟩]⟩ [("ids", .array [.int 7, .int 8])] (.ofPage 2 10)
        (some ⟨.ofPage 2 10, [("é", .int 5)], none, .next, true, default⟩) = .ok q ∧
      q.sql = "SELECT é FROM t WHERE ('ü' = ANY :ids__0, :ids__1) AND (é >= :cursor__0)" ++
        " ORDER BY é ASC LIMIT 11 OFFSET 0" ∧
      parse .postgres "SELECT é FROM t WHERE 'ü' = ANY :ids; -- fin" = .ok s ∧
      s.rest = "; -- fin".toList ∧
      es = [⟨34, ":ids".toList, ":ids__0, :ids__1".toList⟩, .insertion 23 "(".toList,
        .insertion 38 ") AND (é >= :cursor__0)".toList,
        .insertion 38 " ORDER BY é ASC LIMIT 11 OFFSET 0".toList] ∧
      InTurn (inOrder es) ∧
      edited? "SELECT é FROM t WHERE 'ü' = ANY :ids; -- fin".toList (byteLength s.body) 0
        (inOrder es) = some q.sql.toList := by
  obtain ⟨n, hn, hx⟩ : ∃ n, normalize .postgres [("ids", .array [.int 7, .int 8])] = .ok n ∧
      n.expansions = [("ids", ["ids__0", "ids__1"])] := exists_eq_ok_of_any (by decide +kernel)
  obtain ⟨s, hs, hrest, hedits⟩ :
      ∃ s, parse .postgres "SELECT é FROM t WHERE 'ü' = ANY :ids; -- fin" = .ok s ∧
        s.rest = "; -- fin".toList ∧
        (s.edits [("ids", ["ids__0", "ids__1"])] (some "(é >= :cursor__0)".toList)
          " ORDER BY é ASC LIMIT 11 OFFSET 0".toList).toOption =
        some [⟨34, ":ids".toList, ":ids__0, :ids__1".toList⟩, .insertion 23 "(".toList,
          .insertion 38 ") AND (é >= :cursor__0)".toList,
          .insertion 38 " ORDER BY é ASC LIMIT 11 OFFSET 0".toList] :=
    exists_eq_ok_of_any (by decide +kernel)
  obtain ⟨q, hq, hsql, htail⟩ :
      ∃ q, compile .postgres "SELECT é FROM t WHERE 'ü' = ANY :ids; -- fin"
          ⟨[⟨"é", .ascending⟩]⟩ [("ids", .array [.int 7, .int 8])] (.ofPage 2 10)
          (some ⟨.ofPage 2 10, [("é", .int 5)], none, .next, true, default⟩) = .ok q ∧
        q.sql = "SELECT é FROM t WHERE ('ü' = ANY :ids__0, :ids__1) AND (é >= :cursor__0)" ++
          " ORDER BY é ASC LIMIT 11 OFFSET 0" ∧
        tail ⟨[⟨"é", .ascending⟩]⟩ q.window = " ORDER BY é ASC LIMIT 11 OFFSET 0".toList :=
    exists_eq_ok_of_any (by decide +kernel)
  obtain ⟨n', s', es, -, -, -, hn', hs', hes, hturn, hedited, -⟩ := compile_frame hq
  obtain rfl := Except.ok.inj (hn.symm.trans hn')
  obtain rfl := Except.ok.inj (hs.symm.trans hs')
  have hcondition : (conditionOf .postgres ⟨[⟨"é", .ascending⟩]⟩
      (some ⟨.ofPage 2 10, [("é", .int 5)], none, .next, true, default⟩)).map
        (fun p => (Keyset.grouped p).toList) = some "(é >= :cursor__0)".toList := by
    decide +kernel
  have hemitted : emitted ⟨[⟨"é", .ascending⟩]⟩
      (some ⟨.ofPage 2 10, [("é", .int 5)], none, .next, true, default⟩) = ⟨[⟨"é", .ascending⟩]⟩ := rfl
  rw [hx, hcondition, hemitted, htail] at hes
  rw [hes] at hedits
  exact ⟨q, s, es, hq, hsql, hs, hrest, Option.some.inj hedits, hturn, hedited⟩

end Query

end SqlPaging
