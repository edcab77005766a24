/-!
# SqlPaging — big-endian integers

Integers as a fixed number of bytes, the most significant byte first and negative
integers in two's complement.

Main results:

* `signed_encode` — an integer that fits is read back.
* `length_encode` — the width is kept.
-/

namespace SqlPaging.Postgres.BigEndian

/-- The given number of bytes of an integer. -/
def encode : Nat → Int → List UInt8
  | 0, _ => []
  -- Division rounds down, so the first bytes of a negative integer complement it.
  | width + 1, n => encode width (n / 256) ++ [UInt8.ofNat (n % 256).toNat]

/-- The natural number that bytes stand for. -/
def unsigned (bytes : List UInt8) : Nat := bytes.foldl (fun n b => 256 * n + b.toNat) 0

/-- The number of integers that can be told apart by a number of bytes. -/
def span : Nat → Nat
  | 0 => 1
  | width + 1 => 256 * span width

/-- The integer that bytes stand for. -/
def signed (bytes : List UInt8) : Int := Int.bmod (unsigned bytes) (span bytes.length)

/-- Any number of bytes can hold some integer. -/
theorem span_pos (width : Nat) : 0 < span width := by
  induction width with
  | zero => decide
  | succ width ih => rw [span]; omega

/-- An integer takes as many bytes as it is given. -/
theorem length_encode (width : Nat) (n : Int) : (encode width n).length = width := by
  induction width generalizing n with
  | zero => rfl
  | succ width ih => simp [encode, ih]

/-- The last byte counts for the least. -/
theorem unsigned_append (bytes : List UInt8) (b : UInt8) :
    unsigned (bytes ++ [b]) = 256 * unsigned bytes + b.toNat := by
  simp [unsigned]

/-- The remainder of a division by a product in two steps. -/
theorem emod_mul_eq (n p : Int) (hp : 0 < p) :
    n % (256 * p) = 256 * (n / 256 % p) + n % 256 := by
  have hm := Int.emod_nonneg (n / 256) (Int.ne_of_gt hp)
  have hl := Int.emod_lt_of_pos (n / 256) hp
  -- the number, put together again from both divisions
  have hn : n = 256 * (n / 256 % p) + n % 256 + 256 * p * (n / 256 / p) := by
    have h1 := Int.mul_ediv_add_emod n 256
    have h2 := Int.mul_ediv_add_emod (n / 256) p
    rw [Int.mul_assoc]
    omega
  have hr : (256 * (n / 256 % p) + n % 256) % (256 * p) = 256 * (n / 256 % p) + n % 256 :=
    Int.emod_eq_of_lt (by omega) (by omega)
  calc n % (256 * p)
      = (256 * (n / 256 % p) + n % 256 + 256 * p * (n / 256 / p)) % (256 * p) := by rw [← hn]
    _ = 256 * (n / 256 % p) + n % 256 := by rw [Int.add_mul_emod_self_left, hr]

/-- The bytes of an integer count it up to what they can hold. -/
theorem unsigned_encode (width : Nat) (n : Int) :
    (unsigned (encode width n) : Int) = n % span width := by
  induction width generalizing n with
  | zero => simp [encode, unsigned, span]
  | succ width ih =>
    -- the last byte holds the remainder as it is
    have hb : ((UInt8.ofNat (n % 256).toNat).toNat : Int) = n % 256 := by
      rw [UInt8.toNat_ofNat']
      omega
    have hspan : (span (width + 1) : Int) = 256 * span width := Int.natCast_mul 256 _
    have hpos : (0 : Int) < span width := Int.natCast_pos.mpr (span_pos width)
    rw [encode, unsigned_append, Int.natCast_add, Int.natCast_mul, ih, hb, hspan,
      emod_mul_eq n _ hpos]
    rfl

/-- With the sign taken into account, an integer that fits is found again in its
bytes. -/
theorem signed_encode {width : Nat} {n : Int} (hl : -(span width : Int) ≤ 2 * n)
    (hu : 2 * n < span width) : signed (encode width n) = n := by
  rw [signed, length_encode, unsigned_encode, Int.emod_bmod]
  apply Int.bmod_eq_of_le_mul_two <;> omega

end SqlPaging.Postgres.BigEndian
