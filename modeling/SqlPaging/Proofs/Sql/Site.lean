import SqlPaging.Proofs.Sql.Expansion
import SqlPaging.Proofs.Sql.Splice

/-!
# SqlPaging — edits at tokens

Text is put into a statement at its tokens: in front of one, in its place, or behind it. So
each token is a *site* of edits. The sites of a statement say in one what the draft of the
statement says and what the edits are, in the order in which they are carried out: putting
text into the draft is asking for one more edit.

Main results:

* `placed_of_nestFrom` — where tokens stand in a text.
* `inTurn_sites` — the edits at sites do not overlap.
* `gives_sites` — carrying them out gives the text of the draft.
* `inOrder_before`, `inOrder_after` — one more edit.
-/

namespace SqlPaging.Sql

/-! ## Where tokens stand -/

/-- The byte behind a token. -/
def Token.stop (t : Token) : Nat := t.start + byteLength t.text

/-- Tokens that are not empty stand one behind the other, from a byte on. -/
def Placed : Nat → List Token → Prop
  | _, [] => True
  | at_, t :: ts => t.start = at_ + byteLength t.gap ∧ t.text ≠ [] ∧ Placed t.stop ts

/-- Nested tokens lie one behind the other, each behind its gap. -/
theorem placed_of_nestFrom {at_ depth base : Nat} {gap : List Char} {ls : List Lexeme} {n : Nested}
    (hls : ∀ l ∈ ls, l.text ≠ []) (h : nestFrom at_ depth gap ls = .ok n)
    (hbase : base + byteLength gap = at_) : Placed base n.tokens := by
  induction ls generalizing at_ depth gap base n with
  | nil =>
    cases h
    trivial
  | cons l ls ih =>
    have hrest : ∀ k ∈ ls, k.text ≠ [] := fun k hk => hls k (List.mem_cons_of_mem l hk)
    -- a gap makes the next one longer, any other lexeme is a token behind its gap
    rcases nestFrom_cons l depth with ⟨hcons, -⟩ | ⟨⟨d, e, hcons⟩, -⟩ | hcons
    · rw [hcons] at h
      refine ih hrest h ?_
      rw [byteLength_append]
      omega
    · rw [hcons] at h
      obtain ⟨m, hm, rfl⟩ := map_eq_ok.mp h
      exact ⟨hbase.symm, hls l List.mem_cons_self, ih hrest hm rfl⟩
    · rw [hcons] at h
      cases h

/-- Tokens of two parts are placed one part behind the other. -/
theorem placed_append {at_ : Nat} {ts us : List Token} :
    Placed at_ (ts ++ us) ↔ Placed at_ ts ∧ Placed (at_ + byteLength (tokenText ts)) us := by
  induction ts generalizing at_ with
  | nil => simp [Placed, tokenText, byteLength_nil]
  | cons t ts ih =>
    -- a token stops behind its own text
    have hlen : ∀ s, t.start = at_ + byteLength t.gap →
        t.stop + byteLength s = at_ + byteLength (t.gap ++ t.text ++ s) := by
      intro s hs
      rw [Token.stop, hs, byteLength_append, byteLength_append]
      omega
    rw [List.cons_append, Placed, Placed, ih]
    constructor
    · rintro ⟨hs, hne, hts, hus⟩
      refine ⟨⟨hs, hne, hts⟩, ?_⟩
      rwa [hlen _ hs] at hus
    · rintro ⟨⟨hs, hne, hts⟩, hus⟩
      refine ⟨hs, hne, hts, ?_⟩
      rwa [hlen _ hs]

/-- Tokens stand in the text that they make. -/
theorem Placed.bounds {at_ : Nat} {ts : List Token} (h : Placed at_ ts) {t : Token} (ht : t ∈ ts) :
    at_ ≤ t.start ∧ t.stop ≤ at_ + byteLength (tokenText ts) := by
  induction ts generalizing at_ with
  | nil => cases ht
  | cons u ts ih =>
    obtain ⟨hstart, -, hrest⟩ := h
    have hlen : u.stop + byteLength (tokenText ts) = at_ + byteLength (tokenText (u :: ts)) := by
      show _ = at_ + byteLength (u.gap ++ u.text ++ tokenText ts)
      rw [Token.stop, hstart, byteLength_append, byteLength_append]
      omega
    have hown : u.start ≤ u.stop := Nat.le_add_right _ _
    -- the first token begins behind its gap, and later ones behind the first
    rcases List.mem_cons.mp ht with rfl | ht
    · omega
    · have hlater := ih hrest ht
      omega

/-- The last token ends where the text ends. -/
theorem Placed.stop_getLast {at_ : Nat} {ts : List Token} (h : Placed at_ ts) (hne : ts ≠ []) :
    (ts.getLast hne).stop = at_ + byteLength (tokenText ts) := by
  have hsplit := List.dropLast_concat_getLast hne
  generalize ts.getLast hne = t at hsplit ⊢
  rw [← hsplit, placed_append] at h
  obtain ⟨hstart, -⟩ := h.2
  -- the text of the last token ends the text of all
  have hown : tokenText [t] = t.gap ++ t.text := List.append_nil _
  rw [← hsplit, tokenText, List.flatMap_append, byteLength_append]
  show _ = at_ + (byteLength (tokenText _) + byteLength (tokenText [t]))
  rw [hown, byteLength_append, Token.stop, hstart]
  omega

/-! ## Sites -/

/-- A token with all that is put at it. -/
structure Site where
  token : Token
  before : List (List Char)
  /-- what stands in the place of the token, if not the token -/
  body : Option (List Char)
  after : List (List Char)

namespace Site

def slot (p : Site) : Slot :=
  { gap := p.token.gap, before := p.before.flatten, body := p.body.getD p.token.text,
    after := p.after.flatten }

def edits (p : Site) : List Edit :=
  p.before.map (Edit.insertion p.token.start) ++
    ((p.body.map fun b => { start := p.token.start, old := p.token.text, new := b }).toList ++
      p.after.map (Edit.insertion p.token.stop))

/-- The edits at a site stand within its token. -/
theorem bounds {p : Site} {e : Edit} (he : e ∈ p.edits) :
    p.token.start ≤ e.start ∧ e.stop ≤ p.token.stop := by
  rw [edits, List.mem_append, List.mem_append] at he
  rcases he with he | he | he
  · obtain ⟨t, -, rfl⟩ := List.mem_map.mp he
    exact ⟨Nat.le_refl _, Nat.le_add_right _ _⟩
  · obtain ⟨b, -, rfl⟩ := Option.map_eq_some_iff.mp (Option.mem_toList.mp he)
    exact ⟨Nat.le_refl _, Nat.le_refl _⟩
  · obtain ⟨t, -, rfl⟩ := List.mem_map.mp he
    exact ⟨Nat.le_add_right _ _, Nat.le_refl _⟩

theorem inTurn (p : Site) : InTurn p.edits := by
  -- insertions at one place take nothing out, so that they do not overlap
  have hinsertions : ∀ (at_ : Nat) (ts : List (List Char)),
      InTurn (ts.map (Edit.insertion at_)) := by
    intro at_ ts
    rw [InTurn, List.pairwise_map]
    exact List.pairwise_of_forall fun t u => Nat.le_refl _
  have hbody : InTurn (p.body.map fun b =>
      ({ start := p.token.start, old := p.token.text, new := b } : Edit)).toList := by
    cases p.body with
    | none => exact List.Pairwise.nil
    | some b => exact List.pairwise_singleton _ _
  rw [edits, InTurn, List.pairwise_append, List.pairwise_append]
  -- insertions in front of the token, its own edit, and insertions behind it
  refine ⟨hinsertions _ _, ⟨hbody, hinsertions _ _, ?_⟩, ?_⟩
  · intro e he f hf
    obtain ⟨b, -, rfl⟩ := Option.map_eq_some_iff.mp (Option.mem_toList.mp he)
    obtain ⟨t, -, rfl⟩ := List.mem_map.mp hf
    exact Nat.le_refl _
  · intro e he f hf
    obtain ⟨t, -, rfl⟩ := List.mem_map.mp he
    exact (p.bounds (by rw [edits]; exact List.mem_append_right _ hf)).1

end Site

def siteTokens (ps : List Site) : List Token := ps.map (·.token)

def siteEdits (ps : List Site) : List Edit := ps.flatMap Site.edits

section

variable {ps : List Site} {at_ : Nat} {e : Edit}

theorem siteEdits_append (ps qs : List Site) : siteEdits (ps ++ qs) = siteEdits ps ++ siteEdits qs :=
  List.flatMap_append

theorem siteEdits_cons (p : Site) (ps : List Site) : siteEdits (p :: ps) = p.edits ++ siteEdits ps :=
  rfl

/-- The first token of some sites lies behind its gap, and the others behind the token. -/
theorem placed_cons {p : Site} :
    Placed at_ (siteTokens (p :: ps)) ↔
      p.token.start = at_ + byteLength p.token.gap ∧ p.token.text ≠ [] ∧
        Placed p.token.stop (siteTokens ps) := Iff.rfl

/-- The edits at sites stand in the text of the tokens. -/
theorem bounds_siteEdits (h : Placed at_ (siteTokens ps)) (he : e ∈ siteEdits ps) :
    at_ ≤ e.start ∧ e.stop ≤ at_ + byteLength (tokenText (siteTokens ps)) := by
  obtain ⟨p, hp, he⟩ := List.mem_flatMap.mp he
  have hown := p.bounds he
  have htoken := h.bounds (List.mem_map_of_mem hp)
  omega

/-- The edits at sites do not overlap. -/
theorem inTurn_sites (h : Placed at_ (siteTokens ps)) : InTurn (siteEdits ps) := by
  induction ps generalizing at_ with
  | nil => exact List.Pairwise.nil
  | cons p ps ih =>
    obtain ⟨-, -, hrest⟩ := placed_cons.mp h
    refine List.pairwise_append.mpr ⟨p.inTurn, ih hrest, ?_⟩
    intro e he f hf
    exact Nat.le_trans (p.bounds he).2 (bounds_siteEdits hrest hf).1

end

/-- Carrying out the edits at sites gives the text of their draft. -/
theorem gives_sites {first rest : List Char} {ps : List Site}
    (h : Placed (byteLength first) (siteTokens ps)) :
    Gives first (tokenText (siteTokens ps) ++ rest)
      (byteLength (first ++ tokenText (siteTokens ps))) (siteEdits ps)
      (Draft.text (ps.map Site.slot)) := by
  induction ps generalizing first with
  | nil =>
    rw [show tokenText (siteTokens []) = [] from rfl, List.append_nil]
    exact Gives.nil first rest
  | cons p ps ih =>
    obtain ⟨hstart, -, hrest⟩ := placed_cons.mp h
    have hstart : p.token.start = byteLength (first ++ p.token.gap) := by
      rw [hstart, byteLength_append]
    have hstop : p.token.stop = byteLength (first ++ p.token.gap ++ p.token.text) := by
      rw [Token.stop, hstart, byteLength_append _ p.token.text]
    rw [hstop] at hrest
    -- what the sites behind this one give, with all that is in front of them read
    have hlater := ih hrest
    have hall : first ++ p.token.gap ++ p.token.text ++ tokenText (siteTokens ps) =
        first ++ tokenText (siteTokens (p :: ps)) := by
      simp [siteTokens, tokenText]
    rw [hall] at hlater
    -- from the end of the token on: what is behind it, its place, and what is before it
    have hafter := hlater.insertions p.after
    have hbody : Gives (first ++ p.token.gap)
        (p.token.text ++ (tokenText (siteTokens ps) ++ rest))
        (byteLength (first ++ tokenText (siteTokens (p :: ps))))
        ((p.body.map fun b =>
          ({ start := p.token.start, old := p.token.text, new := b } : Edit)).toList ++
            (p.after.map (Edit.insertion p.token.stop) ++ siteEdits ps))
        (p.body.getD p.token.text ++ (p.after.flatten ++ Draft.text (ps.map Site.slot))) := by
      rw [hstop]
      cases p.body with
      | none => exact hafter.kept
      | some b =>
        rw [hstart]
        exact hafter.edit b
    have hbefore := hbody.insertions p.before
    rw [← hstart] at hbefore
    have hown := hbefore.kept
    have htext : tokenText (siteTokens (p :: ps)) ++ rest =
        p.token.gap ++ (p.token.text ++ (tokenText (siteTokens ps) ++ rest)) := by
      simp [siteTokens, tokenText]
    rw [htext, siteEdits_cons, Site.edits, List.append_assoc, List.append_assoc, List.map_cons,
      Draft.text_cons]
    simp only [Site.slot, Slot.text, List.append_assoc]
    exact hown

/-! ## One more edit -/

section

variable {at_ : Nat} {queue : List Edit} {front back : List Site} {p : Site}

/-- The edits in front of a token come before all that is put there, and those behind it
come after it. -/
theorem bounds_around (hplaced : Placed at_ (siteTokens (front ++ p :: back))) :
    (∀ e ∈ siteEdits front, e.stop ≤ p.token.start) ∧ p.token.start < p.token.stop ∧
      Placed p.token.stop (siteTokens back) := by
  rw [siteTokens, List.map_append, placed_append] at hplaced
  obtain ⟨hfront, hrest⟩ := hplaced
  obtain ⟨hstart, hne, hback⟩ := placed_cons.mp hrest
  refine ⟨?_, ?_, hback⟩
  · intro e he
    -- edits in front stop where their tokens do
    have hstop := (bounds_siteEdits hfront he).2
    rw [siteTokens] at hstop
    omega
  · have hpos := byteLength_pos hne
    rw [Token.stop]
    omega

/-- An edit that stops in front of a place comes before what is inserted there. -/
theorem Edit.le_insertion {e : Edit} {place : Nat} {t : List Char} (h : e.stop ≤ place) :
    e.le (.insertion place t) = true := by
  rw [le_iff, stop_insertion]
  show e.start < place ∨ e.start = place ∧ e.stop ≤ place
  rw [stop] at h ⊢
  omega

theorem Edit.not_le_insertion {e : Edit} {place : Nat} {t : List Char}
    (h : place ≤ e.start) (hstop : place < e.stop) : e.le (.insertion place t) = false := by
  rw [Bool.eq_false_iff, ne_eq, le_iff, stop_insertion]
  show ¬ (e.start < place ∨ e.start = place ∧ e.stop ≤ place)
  omega

/-- Text that is put in front of a token is the last to be put there. -/
theorem inOrder_before (h : inOrder queue = siteEdits (front ++ p :: back))
    (hplaced : Placed at_ (siteTokens (front ++ p :: back))) (t : List Char) :
    inOrder (queue ++ [.insertion p.token.start t]) =
      siteEdits (front ++ { p with before := p.before ++ [t] } :: back) := by
  obtain ⟨hfront, hpos, hback⟩ := bounds_around hplaced
  -- the edits that are not behind the insertion, and those that are
  have hsplit : siteEdits (front ++ p :: back) =
      (siteEdits front ++ p.before.map (Edit.insertion p.token.start)) ++
        ((p.body.map fun b =>
          ({ start := p.token.start, old := p.token.text, new := b } : Edit)).toList ++
            (p.after.map (Edit.insertion p.token.stop) ++ siteEdits back)) := by
    simp only [siteEdits_append, siteEdits_cons, Site.edits, List.append_assoc]
  rw [hsplit] at h
  refine (inOrder_concat h ?_ ?_).trans ?_
  · intro e he
    rcases List.mem_append.mp he with he | he
    · exact Edit.le_insertion (hfront e he)
    · obtain ⟨u, -, rfl⟩ := List.mem_map.mp he
      exact Edit.le_insertion (Nat.le_refl _)
  · intro e he
    rcases List.mem_append.mp he with he | he
    · obtain ⟨b, -, rfl⟩ := Option.map_eq_some_iff.mp (Option.mem_toList.mp he)
      -- what takes the token's place starts where the insertion does, but it ends behind it
      exact Edit.not_le_insertion (Nat.le_refl _) hpos
    rcases List.mem_append.mp he with he | he
    · obtain ⟨u, -, rfl⟩ := List.mem_map.mp he
      exact Edit.not_le_insertion (Nat.le_of_lt hpos) hpos
    · have hlater := (bounds_siteEdits hback he).1
      have hstop : e.start ≤ e.stop := Nat.le_add_right _ _
      exact Edit.not_le_insertion (by omega) (by omega)
  · simp only [siteEdits_append, siteEdits_cons, Site.edits, List.append_assoc, List.map_append,
      List.map_singleton, List.cons_append, List.nil_append]

/-- Text that is put behind a token is the last to be put there, if none is put in front of
the next one, which could be at the same place. -/
theorem inOrder_after (h : inOrder queue = siteEdits (front ++ p :: back))
    (hplaced : Placed at_ (siteTokens (front ++ p :: back)))
    (hnext : ∀ q ∈ back.head?, q.before = []) (t : List Char) :
    inOrder (queue ++ [.insertion p.token.stop t]) =
      siteEdits (front ++ { p with after := p.after ++ [t] } :: back) := by
  obtain ⟨hfront, hpos, hback⟩ := bounds_around hplaced
  have hsplit : siteEdits (front ++ p :: back) =
      (siteEdits front ++ p.edits) ++ siteEdits back := by
    simp only [siteEdits_append, siteEdits_cons, List.append_assoc]
  rw [hsplit] at h
  refine (inOrder_concat h ?_ ?_).trans ?_
  · intro e he
    rcases List.mem_append.mp he with he | he
    · have hbefore := hfront e he
      exact Edit.le_insertion (by omega)
    · exact Edit.le_insertion (p.bounds he).2
  · intro e he
    cases back with
    | nil => cases he
    | cons q back =>
      -- an edit at the next token starts no earlier than this one stops
      have hlater := (bounds_siteEdits hback he).1
      obtain ⟨hstart, hne, hrest⟩ := placed_cons.mp hback
      have hlength := byteLength_pos hne
      have hstop : q.token.stop = q.token.start + byteLength q.token.text := rfl
      refine Edit.not_le_insertion hlater ?_
      rcases List.mem_append.mp he with he | he
      · -- at the next token, only its place and what is behind it are edited
        rw [Site.edits, hnext q rfl, List.map_nil, List.nil_append] at he
        rcases List.mem_append.mp he with he | he
        · obtain ⟨b, -, rfl⟩ := Option.map_eq_some_iff.mp (Option.mem_toList.mp he)
          show p.token.stop < q.token.start + byteLength q.token.text
          omega
        · obtain ⟨u, -, rfl⟩ := List.mem_map.mp he
          show p.token.stop < q.token.stop + 0
          omega
      · have hbehind := (bounds_siteEdits hrest he).1
        have hown : e.start ≤ e.stop := Nat.le_add_right _ _
        omega
  · simp only [siteEdits_append, siteEdits_cons, Site.edits, List.append_assoc, List.map_append,
      List.map_singleton, List.singleton_append]

end

end SqlPaging.Sql
