import SqlPaging.Proofs.Query.Region
import SqlPaging.Proofs.Sql.Renamed

/-!
# SqlPaging — queries with another name behind a dot

A column may have the name of a clause. Behind a dot such a name is no keyword, so that with
a plain name in its place the statement should give the same query but for the name. It
does so where no clause that was found at the name decides where text is put. Where one
does, text is put in the middle of an expression.

Main results:

* `compile_renamed` — the query with another name.
* `tail_inside_column` — a column named `lock`, in front of which the tail is put.
-/

namespace SqlPaging

namespace Sql

/-! ## Drafts -/

namespace Draft

/-- The draft with another text in the place of a token. -/
def renamed (i : Nat) (v : List Char) (d : Draft) : Draft := d.modify i fun s => { s with body := v }

/-- Changes that do not disturb each other may be made in either order. -/
theorem modify_comm {α : Type} {f g : α → α} (h : ∀ a, g (f a) = f (g a)) (l : List α)
    (i j : Nat) : (l.modify i f).modify j g = (l.modify j g).modify i f := by
  refine List.ext_getElem? fun k => ?_
  simp only [List.getElem?_modify]
  cases l[k]? with
  | none => rfl
  | some a =>
    by_cases hi : i = k
    · by_cases hj : j = k
      · simp [hi, hj, h]
      · simp [hi, hj]
    · simp [hi]

/-- Renaming and putting text in front of a token do not disturb each other. -/
theorem putBefore_renamed (d : Draft) (i j : Nat) (v t : List Char) :
    (d.renamed i v).putBefore j t = (d.putBefore j t).renamed i v := by
  unfold renamed putBefore
  apply modify_comm
  intro s
  rfl

theorem putAfter_renamed (d : Draft) (i j : Nat) (v t : List Char) :
    (d.renamed i v).putAfter j t = (d.putAfter j t).renamed i v := by
  unfold renamed putAfter
  apply modify_comm
  intro s
  rfl

/-- A draft of tokens in which collections are expanded, whatever has been put around
them. -/
def Writes (x : Fields (List String)) (ts : List Token) (d : Draft) : Prop :=
  d.map (fun s => (s.gap, s.body)) = (ofExpanded x ts).map fun s => (s.gap, s.body)

/-- Text in front of a token leaves what is written for the tokens. -/
theorem Writes.putBefore {x : Fields (List String)} {ts : List Token} {d : Draft}
    (h : Writes x ts d) (i : Nat) (t : List Char) : Writes x ts (d.putBefore i t) := by
  refine (map_modify_of_eq ?_ d i).trans h
  intro s
  rfl

theorem Writes.putAfter {x : Fields (List String)} {ts : List Token} {d : Draft}
    (h : Writes x ts d) (i : Nat) (t : List Char) : Writes x ts (d.putAfter i t) := by
  refine (map_modify_of_eq ?_ d i).trans h
  intro s
  rfl

/-- The slots on both sides of that of a token. -/
theorem Writes.split {x : Fields (List String)} {ts us : List Token} {w : Token} {d : Draft}
    (h : Writes x (ts ++ w :: us) d) (hw : w.kind = .word) :
    ∃ front slot back, d = front ++ slot :: back ∧ front.length = ts.length ∧
      Writes x ts front ∧ slot.gap = w.gap ∧ slot.body = w.text ∧ Writes x us back := by
  have hsplit : ofExpanded x (ts ++ w :: us) =
      ofExpanded x ts ++ .ofToken w (lexemeText (w.lexeme.expanded x)) :: ofExpanded x us := by
    simp only [ofExpanded, List.map_append, List.map_cons]
  rw [Writes, hsplit, List.map_append, List.map_cons] at h
  obtain ⟨front, rest, rfl, hfront, hrest⟩ := List.map_eq_append_iff.mp h
  obtain ⟨slot, back, rfl, hslot, hback⟩ := List.map_eq_cons_iff.mp hrest
  obtain ⟨hgap, hbody⟩ := Prod.mk.inj hslot
  -- a word is written as it is
  have hplain : w.lexeme.expanded x = [w.lexeme] :=
    Lexeme.expanded_of_none (if_neg (by rw [show w.lexeme.kind = .word from hw]; decide))
  have hlength := congrArg List.length hfront
  refine ⟨front, slot, back, rfl, ?_, hfront, hgap, ?_, hback⟩
  · simpa [ofExpanded] using hlength
  · rw [hbody, hplain]
    exact List.append_nil _

/-- Where fewer tokens in front refuse an empty collection, the draft is the same. -/
theorem expandFrom_behind {x : Fields (List String)} {old new : Nat}
    {previous previous' us : List Token} {draft : Draft}
    (hlook : ∀ ws : List Token, followsNotIn (ws.map (Token.moved old new) ++ previous') = true →
      followsNotIn (ws ++ previous) = true)
    (h : expandFrom x previous us = .ok draft) :
    expandFrom x previous' (us.map (Token.moved old new)) = .ok draft := by
  induction us generalizing previous previous' draft with
  | nil => exact h
  | cons u us ih =>
    rw [expandFrom_cons] at h
    rw [List.map_cons, expandFrom_cons]
    split at h
    · cases h
    · next hown =>
      obtain ⟨rest, hrest, rfl⟩ := map_eq_ok.mp h
      -- the token goes over to what is looked back at
      have hmore : expandFrom x (u.moved old new :: previous') (us.map (Token.moved old new)) =
          .ok rest := by
        refine ih (fun ws hws => ?_) hrest
        have hlonger := hlook (ws ++ [u])
        rw [List.map_append, List.append_assoc, List.append_assoc] at hlonger
        exact hlonger hws
      -- what is not refused behind the old name is not refused behind the new one
      rw [if_neg fun hrefused => hown ⟨hrefused.1, hlook [] hrefused.2⟩, hmore]
      rfl

end Draft

namespace Statement.Renamed

variable {ts us : List Token} {dot w : Token} {v : List Char} {s s' : Statement}

theorem kind_dot (h : Renamed ts dot w us v s s') : dot.kind = .symbol :=
  congrArg Lexeme.kind h.dot

/-- No name behind a dot refuses an empty collection. -/
theorem followsNotIn (h : Renamed ts dot w us v s s') (old new : Nat) (ws : List Token)
    (hrefused : Draft.followsNotIn (ws.map (Token.moved old new) ++
      w.renamed v :: dot :: ts.reverse) = true) :
    Draft.followsNotIn (ws ++ w :: dot :: ts.reverse) = true := by
  have hdot : ∀ words, dot.isWord words = false :=
    Token.isWord_of_kind (by rw [h.kind_dot]; decide)
  have hname : (w.renamed v).isWord ["NOT"] = false :=
    Token.isWord_eq_false fun k hk => h.plain k (by simp_all [leadingWords])
  have hopen : (w.renamed v).kind ≠ .openParen := by
    rw [show (w.renamed v).kind = .word from h.word]
    decide
  rw [Draft.followsNotIn_eq] at hrefused ⊢
  -- only three tokens are looked at, and neither the dot nor the new name is one of the words
  rcases ws with _ | ⟨a, _ | ⟨b, _ | ⟨c, ws⟩⟩⟩
  · simp [hopen] at hrefused
  · simp [hdot] at hrefused
  · simp [hname] at hrefused
  · exact hrefused

/-- Collections are expanded in the same way. -/
theorem expanded (h : Renamed ts dot w us v s s') {x : Fields (List String)} {draft : Draft}
    (hd : Draft.expanded s x = .ok draft) :
    Draft.expanded s' x = .ok (draft.renamed (ts.length + 1) v) := by
  obtain ⟨old, new, htokens'⟩ := h.tokens'
  -- neither the dot nor the word is a placeholder
  have hplain : ∀ {t : Token}, t.kind ≠ .placeholder → ∀ (previous rest : List Token),
      Draft.expandFrom x previous (t :: rest) =
        (Draft.expandFrom x (t :: previous) rest).map (.ofToken t t.text :: ·) := by
    intro t ht previous rest
    have hself : t.lexeme.expanded x = [t.lexeme] := Lexeme.expanded_of_none (if_neg ht)
    rw [Draft.expandFrom_cons, Token.placeholder?_of_kind ht, if_neg (by simp), hself]
    simp [lexemeText, Token.lexeme]
  have hdot : dot.kind ≠ .placeholder := by
    rw [h.kind_dot]
    decide
  have hword : w.kind ≠ .placeholder := by
    rw [h.word]
    decide
  have hname : (w.renamed v).kind ≠ .placeholder := hword
  rw [Draft.expanded, h.tokens, Draft.expandFrom_append, bind_eq_ok] at hd
  obtain ⟨front, hfront, hd⟩ := hd
  obtain ⟨back, hback, hd⟩ := bind_eq_ok.mp hd
  cases hd
  rw [List.append_nil, hplain hdot, hplain hword] at hback
  obtain ⟨rest, hrest, rfl⟩ := map_eq_ok.mp hback
  obtain ⟨behind, hbehind, rfl⟩ := map_eq_ok.mp hrest
  -- what is behind looks back for `NOT IN`, where the word is not one of the two
  have hbehind' := Draft.expandFrom_behind (h.followsNotIn old new) hbehind
  have hlength : front.length = ts.length := by
    rw [Draft.expandFrom_eq_ok hfront, Draft.ofExpanded, List.length_map]
  rw [Draft.expanded, htokens', Draft.expandFrom_append, hfront]
  show (Draft.expandFrom x (ts.reverse ++ []) _ >>= _) = _
  rw [List.append_nil, hplain hdot, hplain hname, hbehind', Draft.renamed, ← hlength]
  show Except.ok _ = Except.ok _
  -- the draft differs in the place of the word, which is behind the dot
  have hmodify := Draft.modify_length (front ++ [Slot.ofToken dot dot.text]) behind
    (Slot.ofToken w w.text) fun s => { s with body := v }
  simp only [List.append_assoc, List.length_append, List.length_singleton,
    List.singleton_append] at hmodify
  rw [hmodify]
  rfl

/-- The same clause takes the condition. -/
theorem conditionMarker (h : Renamed ts dot w us v s s')
    (hfree : ∀ m ∈ s.deciding true, m.first ≠ ts.length + 1) :
    (s'.marker? .filter).or (s'.marker? .having) =
      (s.marker? .filter).or (s.marker? .having) := by
  -- the marker that decides is not at the renamed word
  have hfilter : s'.marker? .filter = s.marker? .filter := by
    refine h.find? fun m hm => hfree m ?_
    simp [deciding, show s.marker? .filter = some m from hm]
  rw [hfilter]
  cases hnone : s.marker? .filter with
  | some m => rfl
  | none =>
    rw [Option.none_or, Option.none_or]
    refine h.find? fun m hm => hfree m ?_
    simp [deciding, hnone, show s.marker? .having = some m from hm]

/-- A condition is added at the same place. -/
theorem addCondition (h : Renamed ts dot w us v s s')
    (hfree : ∀ m ∈ s.deciding true, m.first ≠ ts.length + 1) {condition : List Char}
    {draft draft' : Draft} (hd : Draft.addCondition s condition draft = .ok draft') :
    Draft.addCondition s' condition (draft.renamed (ts.length + 1) v) =
      .ok (draft'.renamed (ts.length + 1) v) := by
  rw [Draft.addCondition] at hd ⊢
  rw [h.conditionMarker hfree]
  cases hfound : (s.marker? .filter).or (s.marker? .having) with
  | some m =>
    have hnext : (s'.markers.find? fun n => m.last < n.first) =
        s.markers.find? fun n => m.last < n.first := by
      refine h.find? fun n hn => hfree n ?_
      rw [deciding, if_pos rfl, hfound]
      exact List.mem_append_right _ (List.mem_cons_of_mem m (Option.mem_toList.mpr hn))
    -- the clause ends in front of the same marker, and the count of tokens is kept
    have hspan : s'.conditionSpan m = s.conditionSpan m := by
      rw [conditionSpan, conditionSpan, hnext, h.length]
    rw [hfound] at hd
    obtain ⟨span, hs, hd⟩ := bind_eq_ok.mp hd
    cases hd
    dsimp only
    rw [hspan, hs]
    show Except.ok _ = Except.ok _
    rw [Draft.putBefore_renamed, Draft.putAfter_renamed]
  | none =>
    have hnext : (s'.markers.find? fun m => afterFilter.contains m.clause) =
        s.markers.find? fun m => afterFilter.contains m.clause := by
      refine h.find? fun n hn => hfree n ?_
      rw [deciding, if_pos rfl, hfound]
      exact List.mem_append_right _ (Option.mem_toList.mpr hn)
    -- so is the place that the condition goes to when there is none yet
    have hindex : s'.filterIndex = s.filterIndex := by
      rw [filterIndex, filterIndex, hnext, lastIndex, lastIndex, h.length]
    rw [hfound] at hd
    obtain ⟨i, hi, hd⟩ := bind_eq_ok.mp hd
    cases hd
    dsimp only
    rw [hindex, hi]
    show Except.ok _ = Except.ok _
    rw [Draft.putAfter_renamed]

/-- The placeholders have the same names. -/
theorem placeholders (h : Renamed ts dot w us v s s') :
    s'.tokens.filterMap (·.placeholder?) = s.tokens.filterMap (·.placeholder?) := by
  obtain ⟨old, new, htokens'⟩ := h.tokens'
  have hword : w.kind ≠ .placeholder := by
    rw [h.word]
    decide
  have hname : (w.renamed v).kind ≠ .placeholder := hword
  -- moving a token keeps its text
  have hback : (us.map (Token.moved old new)).filterMap (·.placeholder?) =
      us.filterMap (·.placeholder?) := List.filterMap_map
  rw [h.tokens, htokens', List.filterMap_append, List.filterMap_append, List.filterMap_cons,
    List.filterMap_cons, List.filterMap_cons, List.filterMap_cons,
    Token.placeholder?_of_kind hword, Token.placeholder?_of_kind hname, hback]

end Statement.Renamed

end Sql

/-! ## Queries -/

namespace Query

open Sql

section

variable {d : Dialect} {ts us : List Token} {dot w : Token} {v : List Char} {s s' : Statement}

/-- The cursor's part is the same, but for the name. -/
theorem seekFor_renamed (h : Statement.Renamed ts dot w us v s s') {order : Order} {own : Binds}
    {pager : Pager} {draft : Draft} {cursor : Option Cursor} {seek : Seek}
    (hfree : ∀ m ∈ s.deciding cursor.isSome, m.first ≠ ts.length + 1)
    (hseek : seekFor d s order own pager draft cursor = .ok seek) :
    seekFor d s' order own pager (draft.renamed (ts.length + 1) v) cursor =
      .ok { seek with draft := seek.draft.renamed (ts.length + 1) v } := by
  cases cursor with
  | none =>
    obtain ⟨window, hwindow, rfl⟩ := skipping_eq_ok_iff.mp hseek
    exact skipping_eq_ok_iff.mpr ⟨window, hwindow, rfl⟩
  | some c =>
    obtain ⟨hreserved, k, draft', window, hk, hcondition, hwindow, rfl⟩ :=
      seeking_eq_ok_iff.mp hseek
    -- renaming changes no placeholder
    have hreserved' : checkReserved s' own = .ok () := by
      rwa [checkReserved, h.placeholders]
    exact seeking_eq_ok_iff.mpr
      ⟨hreserved', k, _, window, hk, h.addCondition hfree hcondition, hwindow, rfl⟩

/-- Text that is put into a draft leaves the tokens that it writes. -/
theorem writes_of_seekFor {x : Fields (List String)} {order : Order} {own : Binds}
    {pager : Pager} {draft : Draft} {cursor : Option Cursor} {seek : Seek}
    (hseek : seekFor d s order own pager draft cursor = .ok seek)
    (hd : draft.Writes x s.tokens) : seek.draft.Writes x s.tokens := by
  cases cursor with
  | none =>
    obtain ⟨window, -, rfl⟩ := skipping_eq_ok_iff.mp hseek
    exact hd
  | some c =>
    obtain ⟨-, k, draft', window, -, hcondition, -, rfl⟩ := seeking_eq_ok_iff.mp hseek
    -- a condition is put at the ends of tokens, and leaves what they are written as
    rw [Draft.addCondition] at hcondition
    split at hcondition
    · obtain ⟨span, -, hcondition⟩ := bind_eq_ok.mp hcondition
      cases hcondition
      exact (hd.putBefore _ _).putAfter _ _
    · obtain ⟨i, -, hcondition⟩ := bind_eq_ok.mp hcondition
      cases hcondition
      exact hd.putAfter _ _

end

/-- Behind a dot, a plain name may stand in the place of a word at which no clause was found
that decides where text is put: the statement gives a query again, with the same binds and
the same window, and its text is the same but for the name, which is where the word was,
behind what is written for the tokens in front of it and in front of what is written for
those behind it. -/
theorem compile_renamed {d : Dialect} {before word name after : String} {s : Statement} {k : Nat}
    {w : Token} {order : Order} {params : Params} {pager : Pager} {cursor : Option Cursor}
    {q : Query} (hs : parse d (before ++ word ++ after) = .ok s)
    (hfront : s.tokens[k]?.map Token.lexeme = some Sql.dot) (hat : s.tokens[k + 1]? = some w)
    (hw : w.lexeme = ⟨.word, word.toList⟩) (hstart : w.start = byteLength before.toList)
    (hname : PlainName (.ofDialect d) name.toList after.toList.head?)
    (hfree : ∀ m ∈ s.deciding cursor.isSome, m.first ≠ k + 1)
    (hq : compile d (before ++ word ++ after) order params pager cursor = .ok q) :
    ∃ q' n a b front back left right,
      compile d (before ++ name ++ after) order params pager cursor = .ok q' ∧
      q'.binds = q.binds ∧ q'.window = q.window ∧
      q.sql = a ++ word ++ b ∧ q'.sql = a ++ name ++ b ∧ normalize d params = .ok n ∧
      a.toList = Draft.text front ++ (w.gap ++ left) ∧ b.toList = right ++ Draft.text back ∧
      front.Writes n.expansions (s.tokens.take (k + 1)) ∧
      back.Writes n.expansions (s.tokens.drop (k + 2)) := by
  obtain ⟨dot, hat₀, hdot⟩ := Option.map_eq_some_iff.mp hfront
  obtain ⟨hlt, hget⟩ := List.getElem?_eq_some_iff.mp hat
  obtain ⟨hlt₀, hget₀⟩ := List.getElem?_eq_some_iff.mp hat₀
  -- the dot and the word are two tokens of the statement, one behind the other
  have htokens : s.tokens = s.tokens.take k ++ dot :: w :: s.tokens.drop (k + 2) := by
    rw [← hget, ← hget₀, ← List.drop_eq_getElem_cons, ← List.drop_eq_getElem_cons,
      List.take_append_drop]
  have htake : s.tokens.take (k + 1) = s.tokens.take k ++ [dot] := by
    rw [List.take_add_one, hat₀]
    rfl
  have hlen : (s.tokens.take k).length = k := by
    rw [List.length_take, Nat.min_eq_left (Nat.le_of_lt hlt₀)]
  rw [htake]
  generalize s.tokens.take k = ts, s.tokens.drop (k + 2) = us at htokens hlen ⊢
  subst hlen
  obtain ⟨n, s₀, draft, seek, i, hn, hs₀, hpage, hdraft, hseek, hi, rfl⟩ :=
    compile_eq_ok_iff.mp hq
  obtain rfl := Except.ok.inj (hs.symm.trans hs₀)
  have htext : ∀ r : String, (before ++ r ++ after).toList =
      before.toList ++ r.toList ++ after.toList := by
    intro r
    rw [String.toList_append, String.toList_append]
  have hparse := mapError_eq_ok.mp hs
  rw [htext] at hparse
  obtain ⟨s', hparse', hrenamed⟩ := renamed_of_parse hparse htokens hdot hw hstart hname
  rw [← htext] at hparse'
  -- each step gives what it gave, with the name in the slot of the word
  have hdraft' : expand s' n = .ok (draft.renamed (ts.length + 1) name.toList) :=
    mapError_eq_ok.mpr (hrenamed.expanded (mapError_eq_ok.mp hdraft))
  have hseek' := seekFor_renamed hrenamed hfree hseek
  have hi' : s'.tailIndex = .ok i := (hrenamed.tailIndex hfree).trans hi
  have hcompile := compile_eq_ok_iff.mpr ⟨n, s', _, _, i, hn, mapError_eq_ok.mpr hparse',
    hrenamed.ensurePageable hpage, hdraft', hseek', hi', rfl⟩
  have hwrites : draft.Writes n.expansions s.tokens := by
    rw [Draft.expandFrom_eq_ok (mapError_eq_ok.mp hdraft)]
    rfl
  -- what the slots write says where the word of the query comes from
  have hall := (writes_of_seekFor hseek hwrites).putAfter i (tail seek.order seek.window)
  rw [htokens, ← List.singleton_append, ← List.append_assoc] at hall
  obtain ⟨front, slot, back, hslots, hlength, hbefore, hgap, hbody, hback⟩ :=
    hall.split (congrArg Lexeme.kind hw)
  have hslots' : (seek.draft.renamed (ts.length + 1) name.toList).putAfter i
      (tail seek.order seek.window) = front ++ { slot with body := name.toList } :: back := by
    rw [Draft.putAfter_renamed, hslots, Draft.renamed,
      show ts.length + 1 = front.length by rw [hlength]; simp, Draft.modify_length]
  have hbody' : slot.body = word.toList := hbody.trans (congrArg Lexeme.text hw)
  refine ⟨_, n, String.ofList (Draft.text front ++ (w.gap ++ slot.before)),
    String.ofList (slot.after ++ Draft.text back), front, back, slot.before, slot.after, hcompile,
    rfl, rfl, ?_, ?_, hn, String.toList_ofList, String.toList_ofList, hbefore, hback⟩
  · rw [← String.toList_inj, hslots, Draft.text_append, Draft.text_cons, Slot.text, hgap, hbody']
    simp
  · rw [← String.toList_inj]
    dsimp only
    rw [hslots', Draft.text_append, Draft.text_cons, Slot.text, hgap]
    simp

/-- A name that is plain wherever it stands. -/
theorem plainName_c1 (next : Option Char) : PlainName (.ofDialect .mySql) "c1".toList next :=
  ⟨by decide, List.all_eq_true.mp (by decide), by decide, fun h => absurd h.1 (by decide)⟩

/-- A column with the name `where`, in front of the clause. -/
theorem compile_renamed_of_where :
    ∃ q q' a b,
      compile .mySql ("SELECT t." ++ "where" ++ " FROM t WHERE n IN (:ids) FOR UPDATE")
        ⟨[⟨"id", .ascending⟩]⟩ [("ids", .array [.int 7, .int 8])] (.ofPage 1 10) none = .ok q ∧
      compile .mySql ("SELECT t." ++ "c1" ++ " FROM t WHERE n IN (:ids) FOR UPDATE")
        ⟨[⟨"id", .ascending⟩]⟩ [("ids", .array [.int 7, .int 8])] (.ofPage 1 10) none = .ok q' ∧
      q'.binds = q.binds ∧ q'.window = q.window ∧
      q.sql = a ++ "where" ++ b ∧ q'.sql = a ++ "c1" ++ b := by
  -- the word is a keyword, but behind a dot, and no place depends on it
  obtain ⟨s, hs, hdot, hat, hfree⟩ : ∃ s,
      parse .mySql ("SELECT t." ++ "where" ++ " FROM t WHERE n IN (:ids) FOR UPDATE") = .ok s ∧
        s.tokens[2]?.map Token.lexeme = some Sql.dot ∧
        s.tokens[3]? = some ⟨.word, "where".toList, [], 9, 0⟩ ∧
        ∀ m ∈ s.deciding (none : Option Cursor).isSome, m.first ≠ 2 + 1 :=
    exists_eq_ok_of_any (by decide +kernel)
  obtain ⟨q, hq, -⟩ : ∃ q,
      compile .mySql ("SELECT t." ++ "where" ++ " FROM t WHERE n IN (:ids) FOR UPDATE")
        ⟨[⟨"id", .ascending⟩]⟩ [("ids", .array [.int 7, .int 8])] (.ofPage 1 10) none = .ok q ∧
        True := exists_eq_ok_of_any (by decide +kernel)
  -- with the plain name the query differs in that word only
  obtain ⟨q', n, a, b, -, -, -, -, hq', hbinds, hwindow, ha, hb, -⟩ :=
    compile_renamed hs hdot hat rfl (by decide) (plainName_c1 _) hfree hq
  exact ⟨q, q', a, b, hq, hq', hbinds, hwindow, ha, hb⟩

/-- Two texts that differ in a name do so at one of the cuts of the first one. -/
theorem ne_of_cuts {s s' word name a b : String} (ha : s = a ++ word ++ b)
    (h : ∀ k ∈ List.range (s.toList.length + 1),
      s'.toList ≠ s.toList.take k ++ (name.toList ++ s.toList.drop (k + word.toList.length))) :
    s' ≠ a ++ name ++ b := by
  have htext : s.toList = a.toList ++ (word.toList ++ b.toList) := by
    rw [ha]
    simp
  rintro rfl
  -- the word begins where the first part ends
  refine h a.toList.length ?_ ?_
  · rw [List.mem_range, htext, List.length_append]
    omega
  · rw [htext, List.take_left, ← List.drop_drop, List.drop_left, List.drop_left]
    simp

/-- In front of `IN`, a column with the name `lock` is taken for a locking clause: the tail is
put behind the dot. The statement with another name gives a query that differs in more than
the name. -/
theorem tail_inside_column :
    ∃ s w q q', parse .mySql ("SELECT t.id FROM t WHERE t." ++ "lock" ++ " IN (1)") = .ok s ∧
      s.tokens[8]?.map Token.lexeme = some Sql.dot ∧ s.tokens[9]? = some w ∧
      w.lexeme = ⟨.word, "lock".toList⟩ ∧ w.topLevel = true ∧
      PlainName (.ofDialect .mySql) "c1".toList " IN (1)".toList.head? ∧
      compile .mySql ("SELECT t.id FROM t WHERE t." ++ "lock" ++ " IN (1)")
        ⟨[⟨"id", .ascending⟩]⟩ [] (.ofPage 1 10) none = .ok q ∧
      q.sql = "SELECT t.id FROM t WHERE t. ORDER BY id ASC LIMIT 11 OFFSET 0lock IN (1)" ∧
      compile .mySql ("SELECT t.id FROM t WHERE t." ++ "c1" ++ " IN (1)")
        ⟨[⟨"id", .ascending⟩]⟩ [] (.ofPage 1 10) none = .ok q' ∧
      ∀ a b, q.sql = a ++ "lock" ++ b → q'.sql ≠ a ++ "c1" ++ b := by
  obtain ⟨s, hs, hdot, hat⟩ : ∃ s,
      parse .mySql ("SELECT t.id FROM t WHERE t." ++ "lock" ++ " IN (1)") = .ok s ∧
        s.tokens[8]?.map Token.lexeme = some Sql.dot ∧
        s.tokens[9]? = some ⟨.word, "lock".toList, [], 27, 0⟩ :=
    exists_eq_ok_of_any (by decide +kernel)
  obtain ⟨q, hq, hsql⟩ : ∃ q,
      compile .mySql ("SELECT t.id FROM t WHERE t." ++ "lock" ++ " IN (1)")
        ⟨[⟨"id", .ascending⟩]⟩ [] (.ofPage 1 10) none = .ok q ∧
        q.sql = "SELECT t.id FROM t WHERE t. ORDER BY id ASC LIMIT 11 OFFSET 0lock IN (1)" :=
    exists_eq_ok_of_any (by decide +kernel)
  -- with another name the tail goes to the end
  obtain ⟨q', hq', hsql'⟩ : ∃ q,
      compile .mySql ("SELECT t.id FROM t WHERE t." ++ "c1" ++ " IN (1)")
        ⟨[⟨"id", .ascending⟩]⟩ [] (.ofPage 1 10) none = .ok q ∧
        q.sql = "SELECT t.id FROM t WHERE t.c1 IN (1) ORDER BY id ASC LIMIT 11 OFFSET 0" :=
    exists_eq_ok_of_any (by decide +kernel)
  refine ⟨s, _, q, q', hs, hdot, hat, rfl, rfl, plainName_c1 _, hq, hsql, hq', ?_⟩
  intro a b hlock
  -- the first query holds the word once only, so that there is one way to cut it
  refine ne_of_cuts hlock ?_
  rw [hsql, hsql']
  decide +kernel

end Query

end SqlPaging
