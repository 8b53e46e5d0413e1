import Mathlib.Tactic

/-!
# Fixed-width words

Big-endian encodings and the saturating and checked operations Rust offers on
`u64` and `i64`, each with its value over the unbounded integers.
-/

set_option autoImplicit false

namespace PicoSignet

abbrev Octets := List UInt8

/-- A fixed-size byte array `[u8; n]`. -/
abbrev Bytes (n : Nat) := Vector UInt8 n

/-! ### Big-endian integers -/

/-- The low `width` bytes of `n`, most significant first. -/
def beBytes : (width : Nat) → Nat → Octets
  | 0, _ => []
  | width + 1, n => UInt8.ofNat (n / 256 ^ width) :: beBytes width n

/-- The integer a byte string spells, most significant byte first. -/
def beNat (bytes : Octets) : Nat := bytes.foldl (fun acc b => acc * 256 + b.toNat) 0

@[simp] theorem length_beBytes (width n : Nat) : (beBytes width n).length = width := by
  induction width with
  | zero => rfl
  | succ width ih => simp [beBytes, ih]

theorem foldl_beBytes (width n acc : Nat) :
    (beBytes width n).foldl (fun acc b => acc * 256 + b.toNat) acc =
      acc * 256 ^ width + n % 256 ^ width := by
  induction width generalizing acc with
  | zero => simp [beBytes, Nat.mod_one]
  | succ width ih =>
    rw [beBytes, List.foldl_cons, ih, UInt8.toNat_ofNat']
    have hsplit : n % 256 ^ (width + 1) =
        n / 256 ^ width % 2 ^ 8 * 256 ^ width + n % 256 ^ width := by
      rw [Nat.pow_succ, Nat.mod_mul, Nat.mul_comm, Nat.add_comm]
      norm_num
    rw [hsplit, Nat.pow_succ]
    ring

theorem beNat_beBytes (width n : Nat) : beNat (beBytes width n) = n % 256 ^ width := by
  unfold beNat
  rw [foldl_beBytes]
  simp

theorem beNat_lt (bytes : Octets) : beNat bytes < 256 ^ bytes.length := by
  unfold beNat
  induction bytes using List.reverseRecOn with
  | nil => simp
  | append_singleton bytes b ih =>
    rw [List.foldl_append, List.length_append]
    have hb := b.toNat_lt
    simp only [List.foldl_cons, List.foldl_nil, List.length_cons, List.length_nil, Nat.zero_add,
      pow_succ]
    omega

/-! ### `i64` -/

/-- Rust's `i64::saturating_add`. -/
def satAdd (a b : Int64) : Int64 :=
  Int64.ofInt (max (-2 ^ 63) (min (2 ^ 63 - 1) (a.toInt + b.toInt)))

/-- Rust's `i64::saturating_sub`. -/
def satSub (a b : Int64) : Int64 :=
  Int64.ofInt (max (-2 ^ 63) (min (2 ^ 63 - 1) (a.toInt - b.toInt)))

/-- Rust's `i64::checked_sub`. -/
def checkedSub (a b : Int64) : Option Int64 :=
  if -2 ^ 63 ≤ a.toInt - b.toInt ∧ a.toInt - b.toInt < 2 ^ 63 then
    some (Int64.ofInt (a.toInt - b.toInt))
  else none

theorem toInt_satAdd (a b : Int64) :
    (satAdd a b).toInt = max (-2 ^ 63) (min (2 ^ 63 - 1) (a.toInt + b.toInt)) := by
  unfold satAdd
  rw [Int64.toInt_ofInt_of_le] <;> omega

theorem toInt_satSub (a b : Int64) :
    (satSub a b).toInt = max (-2 ^ 63) (min (2 ^ 63 - 1) (a.toInt - b.toInt)) := by
  unfold satSub
  rw [Int64.toInt_ofInt_of_le] <;> omega

theorem toInt_ofNat_of_lt {n : Nat} (h : n < 2 ^ 63) : (Int64.ofNat n).toInt = n := by
  rw [Int64.toInt_ofNat_of_lt h]

/-- `+` where the source's addition does not overflow. -/
theorem toInt_add_exact {a b : Int64} (hlo : -2 ^ 63 ≤ a.toInt + b.toInt)
    (hhi : a.toInt + b.toInt < 2 ^ 63) : (a + b).toInt = a.toInt + b.toInt := by
  rw [Int64.toInt_add, Int.bmod_eq_of_le (by omega) (by omega)]

/-- The timer does not run backwards. -/
theorem le_max_micros (now then_ : UInt64) : now ≤ max now then_ := by
  have hmax : max now then_ = if now ≤ then_ then then_ else now := rfl
  rw [hmax]
  split
  · assumption
  · exact UInt64.le_refl now

/-- `as u64` of a value that is not negative. -/
theorem toNat_toUInt64 {v : Int64} (h : 0 ≤ v.toInt) : (v.toUInt64.toNat : Int) = v.toInt := by
  have hle : 0 ≤ v := Int64.le_iff_toInt_le.mpr (by simpa using h)
  rw [Int64.toNat_toUInt64_of_le hle]
  exact Int.toNat_of_nonneg h

/-- The two's complement bytes of an `i64`, as `to_be_bytes` writes them. -/
def i64ToBe (v : Int64) : Octets := beBytes 8 v.toUInt64.toNat

/-- `i64::from_be_bytes` of an eight-byte slice. -/
def i64FromBe (bytes : Octets) : Int64 := (UInt64.ofNat (beNat bytes)).toInt64

@[simp] theorem length_i64ToBe (v : Int64) : (i64ToBe v).length = 8 := length_beBytes _ _

@[simp] theorem i64FromBe_i64ToBe (v : Int64) : i64FromBe (i64ToBe v) = v := by
  unfold i64FromBe i64ToBe
  rw [beNat_beBytes, Nat.mod_eq_of_lt (by simpa using v.toUInt64.toNat_lt)]
  simp

/-! ### Bits -/

@[simp] theorem ff_and (x : UInt8) : 0xFF &&& x = x := by
  have hbits : BitVec.allOnes 8 &&& x.toBitVec = x.toBitVec := BitVec.allOnes_and
  exact UInt8.eq_of_toBitVec_eq hbits

theorem and_eq_ff {x y : UInt8} (h : x &&& y = 0xFF) : x = 0xFF ∧ y = 0xFF := by
  have hbits : x.toBitVec &&& y.toBitVec = BitVec.allOnes 8 := congrArg UInt8.toBitVec h
  obtain ⟨hx, hy⟩ := BitVec.and_eq_allOnes_iff.mp hbits
  exact ⟨UInt8.eq_of_toBitVec_eq hx, UInt8.eq_of_toBitVec_eq hy⟩

/-! ### `u64` -/

/-- Rust's `u64::saturating_add`. -/
def satAddU (a b : UInt64) : UInt64 := UInt64.ofNat (min (2 ^ 64 - 1) (a.toNat + b.toNat))

theorem toNat_satAddU (a b : UInt64) :
    (satAddU a b).toNat = min (2 ^ 64 - 1) (a.toNat + b.toNat) := by
  unfold satAddU
  rw [UInt64.toNat_ofNat']
  omega

end PicoSignet
