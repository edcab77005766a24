import SqlPaging.Proofs.Calendar.ReadBack
import SqlPaging.Proofs.Json.ReadBack
import SqlPaging.Proofs.Keyset.Boundary
import SqlPaging.Value.Token

/-!
# SqlPaging — value tokens read back

A scalar has a token, which is read back as the value that it shows: integers and bytes by
their digits, times and dates by their texts. This is the same value, but for a leap second
that is not the last of its minute, whose text is that of the second that follows. Doubles
are left out, since their digits are read in steps that round. Fields of such values are
read back under their names, each in its place.

Main results:

* `toToken?_scalar` — a scalar is read back as it is shown.
* `memberValues?_fieldTokens?` — and so are fields of scalars.
* `shown_eq_self_iff`, `shownFields_eq_self_iff` — which of them are the same.
-/

namespace SqlPaging

namespace Json

theorem written_ofText (s : String) : (ofText s).Written := .string s

theorem written_ofInt (n : Int64) : (ofInt n).Written := .number (Number.formed_ofInt n)

theorem written_ofMembers {members : List (String × Json)} (h : ∀ m ∈ members, m.2.Written) :
    (ofMembers members).Written := by
  apply Written.object
  · intro m hm
    obtain ⟨_, -, rfl⟩ := List.mem_map.mp hm
    rfl
  · intro m hm
    obtain ⟨member, hmember, rfl⟩ := List.mem_map.mp hm
    exact h member hmember

/-- Digits stand for their number. -/
theorem Number.int?_ofNat {n : Nat} {m : Int64} (h : m.toInt = n) :
    (Number.ofNat n).int? = some m := by
  have hmagnitude : (Number.ofNat n).magnitude = n := Decimal.ofDigits_toDigits n
  have hfit : Integer.fit? (n : Int) = some m := Integer.fit?_eq_some_iff.mpr h
  rw [Number.int?, hmagnitude]
  exact hfit

theorem int?_ofInt (n : Int64) : (ofInt n).int? = some n := by
  have hmagnitude : (Number.ofInt n).magnitude = n.toInt.natAbs := Decimal.ofDigits_toDigits _
  have hplain : (Number.ofInt n).plain = true := rfl
  have hnegative : (Number.ofInt n).negative = decide (n.toInt < 0) := rfl
  -- zero has no sign, and a negative zero would be no integer
  have hzero : (decide (n.toInt < 0) && n.toInt.natAbs == 0) = false := by
    simp
    omega
  have hvalue : (if decide (n.toInt < 0) = true then -(n.toInt.natAbs : Int)
      else n.toInt.natAbs) = n.toInt := by
    simp only [decide_eq_true_eq]
    omega
  show (Number.ofInt n).int? = some n
  rw [Number.int?, hmagnitude, hplain, hnegative, hzero, hvalue]
  exact Integer.fit?_eq_some_iff.mpr rfl

end Json

namespace Value

open Calendar

/-! ## What a token shows -/

/-- The value that the token of a scalar shows. -/
def shown : Value → Value
  | .dateTime t => .dateTime t.shown
  | v => v

/-- The token of a scalar tells the value. -/
def Told (v : Value) : Prop := ∀ t, v = .dateTime t → t.Told

/-- A token shows another value just if it does not tell the one it is made of. -/
theorem shown_eq_self_iff (v : Value) : v.shown = v ↔ v.Told := by
  cases v with
  | dateTime t =>
    have htime : t.shown = t ↔ ∀ u, Value.dateTime t = .dateTime u → u.Told := by
      rw [t.shown_eq_self_iff]
      exact ⟨fun h _ hu => (Value.dateTime.inj hu) ▸ h, fun h => h t rfl⟩
    rw [shown, Value.dateTime.injEq, htime, Told]
  | _ => exact iff_of_true rfl fun _ h => nomatch h

/-- The fields that the tokens of their values show. -/
def shownFields (fields : Fields Value) : Fields Value := fields.map fun f => (f.1, f.2.shown)

/-- Tokens show the names of fields as they are. -/
theorem keys_shownFields (fields : Fields Value) :
    Fields.keys (shownFields fields) = Fields.keys fields := by
  rw [shownFields, Fields.keys, List.map_map]
  rfl

/-- The tokens of fields show other ones just if one of them does not tell its value. -/
theorem shownFields_eq_self_iff (fields : Fields Value) :
    shownFields fields = fields ↔ ∀ f ∈ fields, f.2.Told := by
  induction fields with
  | nil => simp [shownFields]
  | cons f fields ih =>
    have hfirst : (f.1, f.2.shown) = f ↔ f.2.Told := by
      rw [← shown_eq_self_iff]
      exact ⟨congrArg Prod.snd, fun h => by rw [h]⟩
    rw [List.forall_mem_cons, ← ih, ← hfirst, shownFields, List.map_cons, List.cons.injEq]
    rfl

/-! ## Scalars -/

/-- A byte is read back. -/
theorem byte?_ofNat (b : UInt8) : byte? (.number (.ofNat b.toNat)) = some b := by
  have hb := b.toNat_lt
  have hvalue : (Int64.ofInt b.toNat).toInt = b.toNat := by
    apply Integer.toInt_ofInt
    unfold Integer.InRange Integer.least Integer.greatest
    omega
  have hint : (Json.number (.ofNat b.toNat)).int? = some (Int64.ofInt b.toNat) :=
    Json.Number.int?_ofNat hvalue
  simp only [byte?, hint, Option.bind_eq_bind, Option.bind_some, hvalue]
  rw [if_pos (by omega), Int.toNat_natCast, UInt8.ofNat_toNat]

theorem mapM_byte? (bytes : List UInt8) :
    (bytes.map fun b => Json.number (.ofNat b.toNat)).mapM byte? = some bytes := by
  induction bytes with
  | nil => rfl
  | cons b bytes ih =>
    simp only [List.map_cons, List.mapM_cons, byte?_ofNat, ih, Option.bind_eq_bind,
      Option.bind_some]
    rfl

/-- A scalar is read back as it is shown where two more brackets may be open: one for its
kind, and one for a list of bytes. -/
theorem toToken?_scalar {v : Value} (hv : v.IsScalar) (hfloat : ∀ x, v ≠ .float x) :
    ∃ json, v.toToken? = some json ∧ json.Written ∧
      ∀ room, ofToken? (room + 2) json = some v.shown := by
  -- all but null are records of one member, which is named after the kind
  have htagged : ∀ kind {content : Json}, content.Written → (tagged kind content).Written :=
    fun kind content h => Json.written_ofMembers (by simpa using h)
  cases v with
  | null => exact ⟨_, by rw [toToken?], Json.written_ofText _, fun _ => by rfl⟩
  | bool b => exact ⟨_, by rw [toToken?], htagged _ (.bool b), fun _ => by rfl⟩
  | int n =>
    refine ⟨_, by rw [toToken?], htagged _ (Json.written_ofInt n), fun room => ?_⟩
    show (Json.ofInt n).int?.map Value.int = _
    rw [Json.int?_ofInt, Option.map_some]
    rfl
  | float x => exact absurd rfl (hfloat x)
  | string s => exact ⟨_, by rw [toToken?], htagged _ (Json.written_ofText s), fun _ => by rfl⟩
  | bytes b =>
    refine ⟨_, by rw [toToken?], htagged _ (.array ?_), fun room => ?_⟩
    · intro json hjson
      obtain ⟨byte, -, rfl⟩ := List.mem_map.mp hjson
      exact .number (Json.Number.formed_ofNat _)
    · -- the list of bytes opens the second bracket
      show (if room + 1 = 0 then none else (List.mapM byte? _).map Value.bytes) = _
      rw [if_neg (Nat.succ_ne_zero room), mapM_byte?, Option.map_some]
      rfl
  | dateTime t =>
    refine ⟨_, by rw [toToken?], htagged _ (Json.written_ofText _), fun room => ?_⟩
    show (DateTime.parse? t.iso).map Value.dateTime = _
    rw [DateTime.parse?_iso, Option.map_some]
    rfl
  | date d =>
    refine ⟨_, by rw [toToken?], htagged _ (Json.written_ofText _), fun room => ?_⟩
    show (Date.parse? d.text).map Value.date = _
    rw [Date.parse?_text, Option.map_some]
    rfl
  -- these are no scalars
  | array items => cases hv.1
  | map fields => cases hv.1
  | backed inner => cases hv.2

/-! ## Fields -/

/-- Fields of scalars are read back as they are shown, each in its place. -/
theorem fieldTokens?_scalars {fields : Fields Value} (hscalar : ∀ f ∈ fields, f.2.IsScalar)
    (hfloat : ∀ f ∈ fields, ∀ x, f.2 ≠ .float x) :
    ∃ members, fieldTokens? fields = some members ∧ (∀ m ∈ members, m.2.Written) ∧
      ∀ room, ((members.map fun m => (some m.1, m.2)).mapM fun m => do
        let name ← m.1
        let v ← ofToken? (room + 2) m.2
        some (name, v)) = some (shownFields fields) := by
  -- the induction is on the fields: one token in front of the tokens of the rest
  induction fields with
  | nil => exact ⟨[], by rw [fieldTokens?], fun _ hm => (List.not_mem_nil hm).elim, fun _ => rfl⟩
  | cons f fields ih =>
    obtain ⟨name, v⟩ := f
    obtain ⟨hv, hscalar⟩ := List.forall_mem_cons.mp hscalar
    obtain ⟨hvfloat, hfloat⟩ := List.forall_mem_cons.mp hfloat
    obtain ⟨json, htoken, hjson, hread⟩ := toToken?_scalar hv hvfloat
    obtain ⟨members, htokens, hmembers, hmore⟩ := ih hscalar hfloat
    refine ⟨(name, json) :: members, ?_, List.forall_mem_cons.mpr ⟨hjson, hmembers⟩, fun room => ?_⟩
    · simp only [fieldTokens?, htoken, htokens, Option.bind_eq_bind, Option.bind_some]
    · -- the first field is read back, and then the others
      rw [List.map_cons, List.mapM_cons, hmore room, hread room]
      rfl

/-- Fields under distinct names are read back as they are shown. -/
theorem memberValues?_fieldTokens? {fields : Fields Value} (hdistinct : fields.Distinct)
    (hscalar : ∀ f ∈ fields, f.2.IsScalar) (hfloat : ∀ f ∈ fields, ∀ x, f.2 ≠ .float x) :
    ∃ members, fieldTokens? fields = some members ∧ (∀ m ∈ members, m.2.Written) ∧
      ∀ room, memberValues? (ofToken? (room + 2)) (members.map fun m => (some m.1, m.2)) =
        some (shownFields fields) := by
  obtain ⟨members, htokens, hmembers, hread⟩ := fieldTokens?_scalars hscalar hfloat
  refine ⟨members, htokens, hmembers, fun room => ?_⟩
  have hshown : (Fields.keys (shownFields fields)).Nodup := by rwa [keys_shownFields]
  rw [memberValues?, hread room]
  exact congrArg some (Fields.ofPairs_eq_self hshown)

end Value

end SqlPaging
