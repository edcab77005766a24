import SqlPaging.Postgres.Exchange
import SqlPaging.Proofs.Sql.Around
import SqlPaging.Proofs.Sql.Positional

/-!
# SqlPaging — statements with numbered placeholders

What a server is sent is the text of a query with a number in the place of each name. The names
are counted in the order in which they first appear, and the binds that go with the text stand in
that order, so that the number of a placeholder leads to the bind of its name. Everything between
the placeholders stays: spaces and comments are in the gaps of the tokens, and literals and casts
are other tokens.

Main results:

* `run_eq_ofText` — what is sent is the numbered text, with its binds.
* `text_of_placeholder` — what is replaced.
* `ofText_exact` — which texts are numbered, and how.
-/

namespace SqlPaging

open Sql

namespace Sql

variable {d : Dialect} {s : List Char} {found : Scan}

/-- The text of a placeholder is its name behind a colon. -/
theorem text_of_placeholder (h : scan d s = .ok found) {t : Token} (ht : t ∈ found.tokens)
    {name : String} (hname : t.placeholder? = some name) : t.text = ':' :: name.toList := by
  obtain ⟨ls, hstable, -, hnest⟩ := lexemes_of_scan h
  obtain ⟨front, back, rfl⟩ := List.append_of_mem (lexeme_mem_of_nestFrom hnest ht)
  rw [Token.placeholder?] at hname
  split at hname
  · next hkind =>
    have hlexeme : t.lexeme = ⟨.placeholder, t.text⟩ := by rw [Token.lexeme, hkind]
    rw [hlexeme] at hstable
    -- a placeholder has its colon in front of its name
    obtain ⟨w, htext, -⟩ := stable_placeholder_iff.mp hstable.right
    rw [htext] at hname ⊢
    rw [← Option.some.inj hname, String.toList_ofList]
    rfl
  · cases hname

/-! ## Numbered texts -/

/-- A text with its placeholders numbered. -/
def Positional.ofText (sql : String) (bs : Binds) : Except PageError Positional := do
  let found ← (scan .postgres sql.toList).mapError .insertionPoint
  (ofScan found bs).mapError .invalidArgument

end Sql

/-- A server is sent the numbered text with its binds. -/
theorem Postgres.Exchange.run_eq_ofText {α : Type} (server : String → Peer) (sql : String)
    (bs : Binds) (read : Peer → Except QueryFault α) :
    run server .postgres sql bs read = match Positional.ofText sql bs with
      | .error e => refused e
      | .ok p => prepare (server p.sql) p read := by
  rw [run, if_pos rfl, Positional.ofText]
  cases scan .postgres sql.toList with
  | error fault => rfl
  | ok found =>
    cases hp : Positional.ofScan found bs with
    | error fault => simp only [hp, bind, Except.bind, Except.mapError]
    | ok p => simp only [hp, bind, Except.bind, Except.mapError]

namespace Sql.Positional

variable {sql : String} {bs : Binds} {found : Scan} {p : Positional}

/-- A text is numbered: the binds are those of its names, each where it first appears, and each
placeholder gives way to the number of the bind of its name, while all other tokens stay, with
the gaps in front of them. -/
structure Rewrites (found : Scan) (bs : Binds) (sql : String) (p : Positional) : Prop where
  binds : p.binds.map some =
    (found.tokens.filterMap (·.placeholder?)).eraseDups.map bs.get?
  distinct : p.binds.names.Nodup
  source : sql.toList = (found.tokens.flatMap fun t => t.gap ++ t.text) ++ found.rest
  placeholders : ∀ t ∈ found.tokens, ∀ name, t.placeholder? = some name →
    t.text = ':' :: name.toList
  text : ∃ body : Token → List Char,
    p.sql.toList = (found.tokens.flatMap fun t => t.gap ++ body t) ++ found.rest ∧
    (∀ t ∈ found.tokens, t.placeholder? = none → body t = t.text) ∧
    ∀ t ∈ found.tokens, ∀ name, t.placeholder? = some name →
      ∃ k b, p.binds[k]? = some b ∧ b.name = name ∧ body t = '$' :: Nat.toDigits 10 (k + 1)

/-- A text is numbered just if it can be scanned and its names have binds. -/
theorem ofText_eq_ok_iff :
    ofText sql bs = .ok p ↔
      ∃ found, scan .postgres sql.toList = .ok found ∧ ofScan found bs = .ok p := by
  simp only [ofText, bind_eq_ok, mapError_eq_ok]

/-- Numbering what was scanned rewrites the text. -/
theorem rewrites_of_ofScan (hscan : scan .postgres sql.toList = .ok found)
    (h : ofScan found bs = .ok p) : Rewrites found bs sql p := by
  obtain ⟨hnames, htext⟩ := ofScan_eq_ok h
  refine ⟨?_, hnames ▸ nodup_names found.tokens, (text_of_scan hscan).symm,
    fun t ht name hname => text_of_placeholder hscan ht hname,
    Token.numbered (placeholderNames found.tokens), htext, fun t _ ht => ?_,
    fun t ht name hname => ?_⟩
  · obtain ⟨binds, hbinds, hp⟩ := bind_eq_ok.mp h
    cases hp
    rw [← firsts_eq_eraseDups]
    exact map_some_bindsOf hbinds
  · rw [Token.numbered, ht]
  · -- the place of the name among the names is that of its bind among the binds
    have hplace : p.binds.names[numberOf (placeholderNames found.tokens) name - 1]? =
        some name := by
      rw [hnames]
      exact getElem?_number ((mem_names_iff found.tokens name).mpr ⟨t, ht, hname⟩)
    rw [Binds.names, List.getElem?_map, Option.map_eq_some_iff] at hplace
    obtain ⟨b, hb, hbname⟩ := hplace
    refine ⟨_, b, hb, hbname, ?_⟩
    rw [Token.numbered, hname, numberOf, Nat.add_sub_cancel]
    rfl

/-- A text is numbered just if it is scanned and all its names have binds. -/
theorem ofText_exact (sql : String) (bs : Binds) :
    ((∃ p, ofText sql bs = .ok p) ↔
      ∃ found, scan .postgres sql.toList = .ok found ∧
        ∀ name ∈ found.tokens.filterMap (·.placeholder?), name ∈ bs.names) ∧
    ∀ p, ofText sql bs = .ok p →
      ∃ found, scan .postgres sql.toList = .ok found ∧ Rewrites found bs sql p := by
  refine ⟨⟨?_, ?_⟩, fun p hp => ?_⟩
  · rintro ⟨p, hp⟩
    obtain ⟨found, hscan, hp⟩ := ofText_eq_ok_iff.mp hp
    exact ⟨found, hscan, mem_names_of_ofScan hp⟩
  · rintro ⟨found, hscan, hnames⟩
    -- where every name is bound the numbering cannot fail
    obtain ⟨p, hp⟩ := exists_ofScan hnames
    exact ⟨p, ofText_eq_ok_iff.mpr ⟨found, hscan, hp⟩⟩
  · obtain ⟨found, hscan, hp⟩ := ofText_eq_ok_iff.mp hp
    exact ⟨found, hscan, rewrites_of_ofScan hscan hp⟩

/-- Names in literals, comments and casts are no placeholders. -/
example :
    (ofText "SELECT :b::int, ':a', $$:a$$ /* :a */, :a, :b -- :c"
      [⟨"a", .null⟩, ⟨"b", .int 7⟩]).toOption =
    some ⟨"SELECT $1::int, ':a', $$:a$$ /* :a */, $2, $1 -- :c",
      [⟨"b", .int 7⟩, ⟨"a", .null⟩]⟩ := by decide +kernel

end Sql.Positional

end SqlPaging
