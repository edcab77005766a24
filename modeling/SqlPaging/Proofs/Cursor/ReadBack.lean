import SqlPaging.Cursor.Token
import SqlPaging.Proofs.Value.ReadBack
import SqlPaging.Query

/-!
# SqlPaging — cursor tokens read back

A cursor is made of a row, and may then be turned, be taken to another pager, or have its
boundary row left out. Whatever is done to it, it has its values under distinct names, and
all of them are scalars. If none of them is a double, its token is read back as the cursor
that it shows.

That is the same cursor in all that a cursor has, unless it has a time in a leap second
that is not the last of its minute. Such a time is read back as the second that follows,
which is what its text shows (`leap_second_read_back_as_next`). A query binds a time by
that text too, to the second, so that the cursor that is read back pages as the one it was
in any case.

Main results:

* `Json.Record.ofJson?_ofMembers` — the fields of a record are read back.
* `Pager.ofToken?_toToken` — a pager is read back, and nothing in it is lifted.
* `Query.compile_shown` — a cursor pages as the one that its token shows.
* `cursor_token_read_back` — what the token of a cursor is read back as.
-/

namespace SqlPaging

open Calendar

/-! ## Records -/

namespace Json

variable {α : Type} {write : α → Json}

theorem text?_ofText (s : String) : (ofText s).text? = some s := rfl

/-- What may be missing is written as null. -/
theorem written_nullable (h : ∀ a, (write a).Written) (o : Option α) :
    ((o.map write).getD .null).Written := by
  cases o with
  | none => exact .null
  | some a => exact h a

/-- What may be missing is read back, where nothing that is there is written as null. -/
theorem nullable?_getD {read : Json → Option α} (h : ∀ a, read (write a) = some a)
    (hnull : ∀ a, write a ≠ .null) (o : Option α) :
    nullable? read ((o.map write).getD .null) = some o := by
  cases o with
  | none => rfl
  | some a =>
    rw [Option.map_some, Option.getD_some, nullable?, h, Option.map_some]
    exact hnull a

end Json

namespace Json.Record

/-- Members with distinct names are fields as they stand. -/
theorem members?_ofMembers {names : List String} {members : List (String × Json)}
    (hdistinct : Fields.Distinct members) (hknown : ∀ name ∈ Fields.keys members, name ∈ names) :
    members? names (members.map fun m => (some m.1, m.2)) = some members := by
  induction members with
  | nil => rfl
  | cons m members ih =>
    simp only [Fields.Distinct, Fields.keys, List.map_cons, List.nodup_cons] at hdistinct
    simp only [Fields.keys, List.map_cons, List.forall_mem_cons] at hknown
    have hmore := ih hdistinct.2 hknown.2
    have hname : names.contains m.1 = true := List.contains_iff_mem.mpr hknown.1
    -- no member behind this one has its name, so that it is not refused as a repeated one
    have hnew : members.any (·.1 == m.1) = false := by
      rw [List.any_eq_false]
      intro other hother
      have hne : other.1 ≠ m.1 := fun h => hdistinct.1 (h ▸ List.mem_map_of_mem hother)
      simpa using hne
    rw [List.map_cons, members?, hmore]
    simp only [Option.bind_eq_bind, Option.bind_some, hname, if_true, hnew]
    rfl

/-- A record that is written with all its fields is read back. -/
theorem ofJson?_ofMembers {names : List String} {members : List (String × Json)}
    (hkeys : Fields.keys members = names) (hdistinct : names.Nodup) :
    ofJson? names (ofMembers members) = some { positional := false, values := members } := by
  have hmembers : Fields.Distinct members := by rwa [Fields.Distinct, hkeys]
  rw [ofMembers, ofJson?, members?_ofMembers hmembers fun _ h => hkeys ▸ h, Option.map_some]

end Json.Record

/-! ## Pagers -/

namespace Pager

/-- A pager is what it was made of. -/
theorem make_eq_self (p : Pager) :
    make p.page p.size p.eachSide p.needTotal p.cursorName = p := by
  -- what a pager must have, this one has already
  simp only [make, atLeast_one_eq p.page_pos, atLeast_one_eq p.size_pos,
    atLeast_zero_eq p.eachSide_nonneg]

/-- The token of a pager is the record of its fields. -/
theorem toToken_eq (p : Pager) : p.toToken = .ofMembers
    [("page", .ofInt p.page), ("size", .ofInt p.size), ("each_side", .ofInt p.eachSide),
      ("need_total", .bool p.needTotal),
      ("cursor_name", (p.cursorName.map Json.ofText).getD .null)] := by
  rw [toToken]
  cases p.cursorName <;> rfl

theorem written_toToken (p : Pager) : p.toToken.Written := by
  rw [toToken_eq]
  apply Json.written_ofMembers
  simp only [List.forall_mem_cons]
  exact ⟨Json.written_ofInt _, Json.written_ofInt _, Json.written_ofInt _, .bool _,
    Json.written_nullable Json.written_ofText _, by simp⟩

/-- A pager is read back from its token, and nothing in it is lifted. -/
theorem ofToken?_toToken (p : Pager) : ofToken? p.toToken = some p := by
  have hname := Json.nullable?_getD Json.text?_ofText (by simp [Json.ofText]) p.cursorName
  rw [toToken_eq, ofToken?, Json.Record.ofJson?_ofMembers]
  · simp [Json.Record.required, Json.Record.defaulted, Json.Record.value?, Fields.get?,
      Json.int?_ofInt, hname, Json.bool?, make_eq_self]
  · rfl
  · decide

end Pager

/-! ## Cursors -/

namespace Cursor

/-- A cursor as it comes about: made of a row, then turned, opened or closed at its row, or
taken to another pager. -/
inductive Made : Cursor → Prop
  | create {order : Order} {pager : Pager} {row : Row} {eachSide : Option Int64} {now : DateTime}
      {c : Cursor} (h : Cursor.create order pager row eachSide now = .ok c) : Made c
  | withDirection {c : Cursor} (h : Made c) (direction : Direction) :
      Made (c.withDirection direction)
  | withInclusive {c : Cursor} (h : Made c) (inclusive : Bool) : Made (c.withInclusive inclusive)
  | withPager {c : Cursor} (h : Made c) (pager : Pager) : Made (c.withPager pager)

/-- Whatever is done to a cursor, its values are scalars under distinct names. -/
theorem Made.values {c : Cursor} (h : Made c) :
    c.values.Distinct ∧ ∀ v ∈ c.values, v.2.IsScalar := by
  induction h with
  | create h =>
    -- an expression that the order has twice would still be one field
    refine ⟨?_, scalar_of_create h⟩
    obtain ⟨-, pairs, -, rfl⟩ := create_eq_ok_iff.mp h
    exact Fields.distinct_ofPairs pairs
  | withDirection _ _ ih => exact ih
  | withInclusive _ _ ih => exact ih
  | withPager _ _ ih => exact ih

/-- The token of a cursor whose values have tokens. -/
theorem toToken?_eq {c : Cursor} {members : List (String × Json)}
    (h : Value.fieldTokens? c.values = some members) : c.toToken? = some (.ofMembers
    [("pager", c.pager.toToken), ("values", .ofMembers members),
      ("each_side_snapshot", (c.eachSideSnapshot.map Json.ofInt).getD .null),
      ("direction", .ofText c.direction.name), ("inclusive", .bool c.inclusive),
      ("created_at", .ofText c.createdAt.isoUtc)]) := by
  rw [toToken?, h]
  cases c.eachSideSnapshot <;> rfl

/-- The cursor that a token shows. -/
def shown (c : Cursor) : Cursor :=
  { c with values := Value.shownFields c.values, createdAt := c.createdAt.shown }

/-- A token tells the cursor: each time in it is one that its text shows. -/
structure Told (c : Cursor) : Prop where
  values : ∀ f ∈ c.values, f.2.Told
  createdAt : c.createdAt.Told

/-- A token shows another cursor just if it does not tell the one it is made of. -/
theorem shown_eq_self_iff (c : Cursor) : c.shown = c ↔ c.Told := by
  have hparts : c.shown = c ↔
      Value.shownFields c.values = c.values ∧ c.createdAt.shown = c.createdAt := by
    constructor
    · intro h
      exact ⟨congrArg values h, congrArg createdAt h⟩
    · rintro ⟨hvalues, hcreated⟩
      rw [shown, hvalues, hcreated]
  rw [hparts, Value.shownFields_eq_self_iff, DateTime.shown_eq_self_iff]
  exact ⟨fun ⟨hvalues, hcreated⟩ => ⟨hvalues, hcreated⟩, fun h => ⟨h.values, h.createdAt⟩⟩

/-- The document of a cursor without doubles is read back as the cursor that it shows. -/
theorem ofToken?_toToken? {c : Cursor} (hdistinct : c.values.Distinct)
    (hscalar : ∀ v ∈ c.values, v.2.IsScalar) (hfloat : ∀ v ∈ c.values, ∀ x, v.2 ≠ .float x) :
    ∃ json, c.toToken? = some json ∧ json.Written ∧ ofToken? json = some c.shown := by
  obtain ⟨members, htokens, hmembers, hvalues⟩ :=
    Value.memberValues?_fieldTokens? hdistinct hscalar hfloat
  refine ⟨_, toToken?_eq htokens, ?_, ?_⟩
  · apply Json.written_ofMembers
    simp only [List.forall_mem_cons]
    exact ⟨c.pager.written_toToken, Json.written_ofMembers hmembers,
      Json.written_nullable Json.written_ofInt _, Json.written_ofText _, .bool _,
      Json.written_ofText _, by simp⟩
  · -- the values lie two brackets deep, and each one may open two more
    have hside := Json.nullable?_getD Json.int?_ofInt (by simp [Json.ofInt]) c.eachSideSnapshot
    have hvalues : values? (Json.levels - 2) (.ofMembers members) =
        some (Value.shownFields c.values) := hvalues _
    have hdirection : Json.choice? Direction.ofName? (.ofText c.direction.name) =
        some c.direction := c.direction.ofName?_name
    have hcreated : ((Json.ofText c.createdAt.isoUtc).text?.bind DateTime.parseZoned?) =
        some c.createdAt.shown := by
      rw [Json.text?_ofText, Option.bind_some, DateTime.parseZoned?_isoUtc]
    rw [ofToken?, Json.Record.ofJson?_ofMembers]
    · -- each field is found under its name
      simp [Json.Record.required, Json.Record.optional, Json.Record.value?, Fields.get?,
        hside, hvalues, hdirection, hcreated, Json.bool?, c.pager.ofToken?_toToken, shown]
    · rfl
    · decide

/-- The text of the token of a cursor without doubles is read back as the cursor that it
shows. -/
theorem Made.parseToken?_token? {c : Cursor} (h : c.Made)
    (hfloat : ∀ v ∈ c.values, ∀ x, v.2 ≠ .float x) :
    ∃ text, c.token? = some text ∧ parseToken? text = some c.shown := by
  obtain ⟨hdistinct, hscalar⟩ := h.values
  -- the document is read back from its text, and the cursor from the document
  obtain ⟨json, htoken, hwritten, hread⟩ := ofToken?_toToken? hdistinct hscalar hfloat
  refine ⟨json.render, ?_, ?_⟩
  · rw [token?, htoken, Option.map_some]
  · rw [parseToken?, Json.parse?_render hwritten, Option.bind_some, hread]

end Cursor

/-! ## Queries -/

/-- A scalar is bound to what the value that its token shows is bound to. -/
theorem normalizeScalar_shown (d : Dialect) (v : Value) :
    normalizeScalar d v.shown = normalizeScalar d v := by
  cases v with
  | dateTime t =>
    have htext : d.dateTimeText t.shown = d.dateTimeText t := by
      rw [Dialect.dateTimeText, DateTime.chars_of_sameSecond t.sameSecond_shown,
        Dialect.dateTimeText]
    show Except.ok (BindValue.str (d.dateTimeText t.shown)) = .ok (.str (d.dateTimeText t))
    rw [htext]
  | _ => rfl

namespace Keyset

/-- Boundary values are bound to what the ones that their tokens show are bound to. -/
theorem bindBoundaries_shown (d : Dialect) (index : Nat) (values : Fields Value) :
    bindBoundaries d index (Value.shownFields values) = bindBoundaries d index values := by
  induction values generalizing index with
  | nil => rfl
  | cons v values ih =>
    have hfirst : bindBoundary d index v.1 v.2.shown = bindBoundary d index v.1 v.2 := by
      rw [bindBoundary, normalizeScalar_shown, bindBoundary]
    show (do
      let b ← bindBoundary d index v.1 v.2.shown
      let bs ← bindBoundaries d (index + 1) (Value.shownFields values)
      .ok (b :: bs)) = bindBoundaries d index (v :: values)
    rw [hfirst, ih, bindBoundaries]

/-- A cursor has the predicate of the one that its token shows. -/
theorem ofCursor_shown (d : Dialect) (order : Order) (c : Cursor) :
    ofCursor d order c.shown = ofCursor d order c := by
  have hkeys : c.shown.values.keys = c.values.keys := Value.keys_shownFields c.values
  have hfits : c.shown.fits order = c.fits order := by rw [Cursor.fits, hkeys, Cursor.fits]
  have hbinds : bindBoundaries d 0 c.shown.values = bindBoundaries d 0 c.values :=
    bindBoundaries_shown d 0 c.values
  rw [ofCursor, hfits, hkeys, hbinds]
  rfl

end Keyset

/-- A cursor pages as the one that its token shows. -/
theorem Query.compile_shown (d : Dialect) (sql : String) (order : Order) (params : Params)
    (pager : Pager) (c : Cursor) :
    compile d sql order params pager (some c.shown) =
      compile d sql order params pager (some c) := by
  -- a query asks a cursor for its predicate, its width and its direction
  have hseeking : ∀ s bs draft, seeking d s order bs pager c.shown draft =
      seeking d s order bs pager c draft := by
    intro s bs draft
    rw [seeking, Keyset.ofCursor_shown]
    rfl
  simp only [compile, hseeking]

/-- A cursor without doubles has a token, and the token is read back as the cursor that it
shows: a leap second that is not the last of its minute is the second that follows, and all
else is as it was. So it is the same cursor just if the token tells every time in it. It
pages as the one it was in any case. -/
theorem cursor_token_read_back {c : Cursor} (hmade : c.Made)
    (hfloat : ∀ v ∈ c.values, ∀ x, v.2 ≠ .float x) :
    ∃ text decoded, c.token? = some text ∧ Cursor.parseToken? text = some decoded ∧
      decoded = c.shown ∧ (decoded = c ↔ c.Told) ∧ ∀ d sql order params pager,
        Query.compile d sql order params pager (some decoded) =
          Query.compile d sql order params pager (some c) := by
  obtain ⟨text, htoken, hread⟩ := hmade.parseToken?_token? hfloat
  exact ⟨text, c.shown, htoken, hread, rfl, c.shown_eq_self_iff,
    fun d sql order params pager => Query.compile_shown d sql order params pager c⟩

/-- A moment inside the leap second at the end of a year. -/
def yearEnd : DateTime := ⟨⟨2016, 12, 31, by decide⟩, ⟨23, 59, 59, 1250000000, by decide⟩⟩

/-- A visitor with a name over two lines, who came at a time. -/
def visitor (came : DateTime) : Row := fun column =>
  if column = "name" then some (.string "Zo\u00eb\n\"Z\"\x01")
  else if column = "came_at" then some (.backed (.dateTime came))
  else none

/-- The order of a table of visitors. -/
def visitors : Order := ⟨[⟨"name", .ascending⟩, ⟨"v.came_at", .descending⟩]⟩

/-- The boundary values of a visitor. -/
def visitFields (came : DateTime) : Fields Value :=
  [("name", .string "Zo\u00eb\n\"Z\"\x01"), ("v.came_at", .dateTime came)]

/-- A visitor gives a cursor. -/
theorem exists_cursor_of_visitor (came : DateTime) : ∃ c,
    Cursor.create visitors (.ofPage 3 10) (visitor came) (some 2) default = .ok c ∧
      c.values = visitFields came ∧ c.createdAt = default :=
  ⟨_, rfl, rfl, rfl⟩

/-- The cursor of a visitor who came in the leap second of a year's end is read back as it
was. -/
theorem cursor_token_read_back_of_visitor :
    ∃ c, Cursor.create visitors (.ofPage 3 10) (visitor yearEnd) (some 2) default = .ok c ∧
      c.values = visitFields yearEnd ∧ ∃ text decoded,
        (c.withDirection .prev).token? = some text ∧
        Cursor.parseToken? text = some decoded ∧ decoded = c.withDirection .prev := by
  obtain ⟨c, hcreate, hvalues, hcreated⟩ := exists_cursor_of_visitor yearEnd
  have hfloat : ∀ v ∈ (c.withDirection .prev).values, ∀ x, v.2 ≠ .float x := by
    simp [Cursor.withDirection, hvalues, visitFields]
  -- the leap second at the end of a year is the last second of its minute
  have htold : (c.withDirection .prev).Told := by
    constructor
    · have hyear : yearEnd.Told := by decide
      simp [Cursor.withDirection, hvalues, visitFields, Value.Told, hyear]
    · show c.createdAt.Told
      rw [hcreated]
      decide
  obtain ⟨text, decoded, htoken, hread, -, hsame, -⟩ :=
    cursor_token_read_back (.withDirection (.create hcreate) .prev) hfloat
  exact ⟨c, hcreate, hvalues, text, decoded, htoken, hread, hsame.mpr htold⟩

/-- A moment inside a leap second in the middle of a minute. -/
def midMinute : DateTime := ⟨⟨2024, 5, 20, by decide⟩, ⟨23, 56, 4, 1333333333, by decide⟩⟩

/-- A time in a leap second in the middle of a minute is read back as a time in the second
that follows. -/
theorem leap_second_read_back_as_next :
    ∃ c text decoded,
      Cursor.create visitors (.ofPage 3 10) (visitor midMinute) (some 2) default = .ok c ∧
      c.values = visitFields midMinute ∧ c.token? = some text ∧
      Cursor.parseToken? text = some decoded ∧ decoded.values =
        visitFields ⟨⟨2024, 5, 20, by decide⟩, ⟨23, 56, 5, 333333333, by decide⟩⟩ ∧
      decoded ≠ c := by
  obtain ⟨c, hcreate, hvalues, -⟩ := exists_cursor_of_visitor midMinute
  have hfloat : ∀ v ∈ c.values, ∀ x, v.2 ≠ .float x := by simp [hvalues, visitFields]
  obtain ⟨text, htoken, hread⟩ := (Cursor.Made.create hcreate).parseToken?_token? hfloat
  -- the token shows the time as a second past 59, which is carried over
  have hshown : c.shown.values =
      visitFields ⟨⟨2024, 5, 20, by decide⟩, ⟨23, 56, 5, 333333333, by decide⟩⟩ := by
    show Value.shownFields c.values = _
    rw [hvalues]
    rfl
  refine ⟨c, text, c.shown, hcreate, hvalues, htoken, hread, hshown, fun h => ?_⟩
  -- else the token would tell the time
  have htold := ((c.shown_eq_self_iff.mp h).values ("v.came_at", .dateTime midMinute)
    (by simp [hvalues, visitFields])) midMinute rfl
  exact absurd htold (by decide)

end SqlPaging
