/-
  PicoSignet/Mpint.lean
  =====================
  **Multiple-precision integers, as the RSA arm reads them.**

  The specification side has nothing of the code: `signedValue` is the integer a
  byte string stands for in two's complement, and `IsMpint bytes n` says that
  `bytes` is the shortest string standing for `n`, which is what SSH calls an
  `mpint`.  An integer has one such string (`IsMpint.unique`).

  The code side is `positive_mpint_magnitude`: it strips the sign padding of exactly
  the strings that are the `mpint` of a positive integer (`isMpint_iff_magnitude`).
  The bit length and the 64-bit value are read off the magnitude.
-/
import PicoSignet.Thumb
import Mathlib.Data.Nat.Bitwise

set_option autoImplicit false

namespace PicoSignet

/-! ### Two's complement -/

/-- The integer that bytes stand for in two's complement, most significant byte first. -/
def signedValue (bytes : Octets) : Int :=
  if bytes.headD 0 &&& 0x80 = 0 then beNat bytes else (beNat bytes : Int) - 256 ^ bytes.length

/-- The SSH form of an integer: the shortest bytes that stand for it. -/
structure IsMpint (bytes : Octets) (n : Int) : Prop where
  value : signedValue bytes = n
  shortest : ∀ other, signedValue other = n → bytes.length ≤ other.length

theorem and_sign_eq_zero (b : UInt8) : b &&& 0x80 = 0 ↔ b.toNat < 128 := by
  have hnat : (b &&& 0x80).toNat = 0 ↔ b.toNat < 128 := by
    rw [UInt8.toNat_and]
    have hb := b.toNat_lt
    generalize b.toNat = n at hb
    change n &&& 2 ^ 7 = 0 ↔ n < 128
    rw [Nat.and_two_pow, Nat.testBit_eq_decide_div_mod_eq]
    simp
    omega
  rw [← hnat]
  exact UInt8.toNat_inj.symm

theorem signedValue_of_clear {bytes : Octets} (h : bytes.headD 0 &&& 0x80 = 0) :
    signedValue bytes = beNat bytes := if_pos h

theorem beNat_cast_lt (bytes : Octets) : (beNat bytes : Int) < 256 ^ bytes.length := by
  have hlt := beNat_lt bytes
  exact_mod_cast hlt

theorem signedValue_neg {bytes : Octets} (h : bytes.headD 0 &&& 0x80 ≠ 0) : signedValue bytes < 0 := by
  have hlt := beNat_cast_lt bytes
  unfold signedValue
  rw [if_neg h]
  omega

/-- The sign takes one bit of the room. -/
theorem signedValue_lt (bytes : Octets) : 2 * signedValue bytes < 256 ^ bytes.length := by
  by_cases hclear : bytes.headD 0 &&& 0x80 = 0
  · rw [signedValue_of_clear hclear]
    cases bytes with
    | nil => simp [beNat]
    | cons b rest =>
      have hb : b.toNat < 128 := (and_sign_eq_zero b).mp hclear
      have hrest := beNat_lt rest
      have hnat : 2 * beNat (b :: rest) < 256 ^ (b :: rest).length := by
        rw [Wire.beNat_cons, List.length_cons, pow_succ]
        calc 2 * (b.toNat * 256 ^ rest.length + beNat rest)
            < 2 * ((b.toNat + 1) * 256 ^ rest.length) := by
              rw [Nat.succ_mul b.toNat]
              omega
          _ ≤ 2 * (128 * 256 ^ rest.length) := by
              apply Nat.mul_le_mul_left
              exact Nat.mul_le_mul_right _ hb
          _ = 256 ^ rest.length * 256 := by ring
      exact_mod_cast hnat
  · have hneg := signedValue_neg hclear
    have hpos : (0 : Int) < 256 ^ bytes.length := by positivity
    omega

/-- Among strings of one length, the integer determines the bytes. -/
theorem signedValue_injective {bytes other : Octets} (hlen : bytes.length = other.length)
    (hvalue : signedValue bytes = signedValue other) : bytes = other := by
  have hnat : beNat bytes = beNat other := by
    have hbytes := beNat_cast_lt bytes
    have hother := beNat_cast_lt other
    unfold signedValue at hvalue
    rw [hlen] at hvalue hbytes
    split at hvalue <;> split at hvalue <;> omega
  rw [← Wire.beBytes_beNat bytes, ← Wire.beBytes_beNat other, hlen, hnat]

theorem IsMpint.unique {bytes other : Octets} {n : Int} (h : IsMpint bytes n)
    (h' : IsMpint other n) : bytes = other := by
  have hlen : bytes.length = other.length :=
    le_antisymm (h.shortest _ h'.value) (h'.shortest _ h.value)
  exact signedValue_injective hlen (h.value.trans h'.value.symm)

/-! ### The magnitude -/

/-- A leading zero adds nothing. -/
theorem beNat_zero_cons (bytes : Octets) : beNat (0 :: bytes) = beNat bytes := by
  rw [Wire.beNat_cons]
  simp

/-- A nonzero leading byte is worth its place. -/
theorem le_beNat_cons {b : UInt8} (rest : Octets) (hb : b ≠ 0) :
    256 ^ rest.length ≤ beNat (b :: rest) := by
  have hpos : 0 < b.toNat := by
    apply Nat.pos_of_ne_zero
    intro h
    exact hb (UInt8.toNat_inj.mp h)
  rw [Wire.beNat_cons]
  calc 256 ^ rest.length ≤ b.toNat * 256 ^ rest.length := Nat.le_mul_of_pos_left _ hpos
    _ ≤ _ := Nat.le_add_right _ _

/-- What is too large for the room that is left is not there. -/
theorem shortest_of_large {bytes : Octets} {n : Nat} (h : 256 ^ (bytes.length - 1) ≤ 2 * n) :
    ∀ other, signedValue other = n → bytes.length ≤ other.length := by
  intro other hother
  by_contra hshort
  have hlt := signedValue_lt other
  rw [hother] at hlt
  have hnat : 2 * n < 256 ^ other.length := by exact_mod_cast hlt
  have hpow : 256 ^ other.length ≤ 256 ^ (bytes.length - 1) := by
    apply Nat.pow_le_pow_right (by decide)
    omega
  omega

theorem isMpint_of_magnitude {bytes m : Octets} (h : positiveMpintMagnitude bytes = some m) :
    IsMpint bytes (beNat m : Int) := by
  cases bytes with
  | nil => cases h
  | cons b rest =>
    unfold positiveMpintMagnitude at h
    dsimp only at h
    by_cases hneg : b &&& 0x80 ≠ 0
    · rw [if_pos hneg] at h
      cases h
    rw [if_neg hneg] at h
    have hclear : (b :: rest).headD 0 &&& 0x80 = 0 := not_not.mp hneg
    by_cases hzero : b = 0
    · rw [if_pos hzero] at h
      subst hzero
      cases rest with
      | nil => cases h
      | cons c tail =>
        dsimp only at h
        by_cases hpad : c &&& 0x80 = 0
        · rw [if_pos hpad] at h
          cases h
        rw [if_neg hpad] at h
        cases h
        constructor
        · rw [signedValue_of_clear hclear, beNat_zero_cons]
        · apply shortest_of_large
          have hc : 128 ≤ c.toNat := by
            rw [and_sign_eq_zero] at hpad
            omega
          rw [Wire.beNat_cons]
          calc 256 ^ ((0 :: c :: tail).length - 1) = 2 * (128 * 256 ^ tail.length) := by
                simp only [List.length_cons, Nat.add_sub_cancel, pow_succ]
                ring
            _ ≤ 2 * (c.toNat * 256 ^ tail.length) := by
                apply Nat.mul_le_mul_left
                exact Nat.mul_le_mul_right _ hc
            _ ≤ 2 * (c.toNat * 256 ^ tail.length + beNat tail) := by omega
    · rw [if_neg hzero] at h
      cases h
      constructor
      · exact signedValue_of_clear hclear
      · apply shortest_of_large
        have hle := le_beNat_cons rest hzero
        rw [List.length_cons, Nat.add_sub_cancel]
        omega

theorem one_le_magnitude {bytes m : Octets} (h : positiveMpintMagnitude bytes = some m) :
    1 ≤ beNat m := by
  obtain ⟨-, -, b, rest, rfl, hb⟩ := Thumb.magnitude_spec h
  exact le_trans Nat.one_le_two_pow (le_trans (Nat.pow_le_pow_left (by decide) _) (le_beNat_cons rest hb))

/-- The padding is one byte. -/
theorem length_le_magnitude {bytes m : Octets} (h : positiveMpintMagnitude bytes = some m) :
    bytes.length ≤ m.length + 1 := by
  apply (isMpint_of_magnitude h).shortest (0 :: m)
  rw [signedValue_of_clear UInt8.zero_and, beNat_zero_cons]

/-- A positive integer in its SSH form passes every check, and nothing is left of the sign. -/
theorem IsMpint.magnitude {bytes : Octets} {n : Nat} (h : IsMpint bytes n) (hn : 1 ≤ n) :
    ∃ m, positiveMpintMagnitude bytes = some m ∧ beNat m = n := by
  obtain ⟨hvalue, hshort⟩ := h
  have hclear : bytes.headD 0 &&& 0x80 = 0 := by
    by_contra hset
    have hneg := signedValue_neg hset
    omega
  rw [signedValue_of_clear hclear, Nat.cast_inj] at hvalue
  cases bytes with
  | nil =>
    unfold beNat at hvalue
    simp at hvalue
    omega
  | cons b rest =>
    unfold positiveMpintMagnitude
    have hpos : ¬ (b &&& 0x80 ≠ 0) := not_not.mpr hclear
    dsimp only
    rw [if_neg hpos]
    by_cases hzero : b = 0
    · rw [if_pos hzero]
      subst hzero
      rw [beNat_zero_cons] at hvalue
      -- were the byte behind the zero not in need of it, the rest would be a shorter form
      have hset : ¬ (rest.headD 0 &&& 0x80 = 0) := by
        intro hrest
        have hle := hshort rest (by rw [signedValue_of_clear hrest, hvalue])
        rw [List.length_cons] at hle
        omega
      cases rest with
      | nil => exact absurd (by decide) hset
      | cons c tail =>
        refine ⟨c :: tail, ?_, hvalue⟩
        dsimp only
        exact if_neg hset
    · rw [if_neg hzero]
      exact ⟨b :: rest, rfl, hvalue⟩

theorem isMpint_iff_magnitude {bytes : Octets} {n : Nat} :
    (1 ≤ n ∧ IsMpint bytes n) ↔ ∃ m, positiveMpintMagnitude bytes = some m ∧ beNat m = n := by
  constructor
  · intro h
    exact h.2.magnitude h.1
  · intro h
    obtain ⟨m, hm, rfl⟩ := h
    exact ⟨one_le_magnitude hm, isMpint_of_magnitude hm⟩

/-! ### What is read off the magnitude -/

/-- Eight bytes are gathered without loss. -/
theorem foldl_u64 (bytes : Octets) (acc : UInt64) (h : (acc.toNat + 1) * 256 ^ bytes.length ≤ 2 ^ 64) :
    (bytes.foldl (fun (value : UInt64) b => (value <<< 8) ||| b.toUInt64) acc).toNat =
      acc.toNat * 256 ^ bytes.length + beNat bytes := by
  induction bytes generalizing acc with
  | nil => simp [beNat]
  | cons b rest ih =>
    have hb := b.toNat_lt
    have hroom : (acc.toNat + 1) * 256 * 256 ^ rest.length ≤ 2 ^ 64 := by
      rw [List.length_cons, pow_succ] at h
      calc (acc.toNat + 1) * 256 * 256 ^ rest.length
          = (acc.toNat + 1) * (256 ^ rest.length * 256) := by ring
        _ ≤ 2 ^ 64 := h
    have hacc : (acc.toNat + 1) * 256 ≤ 2 ^ 64 :=
      le_trans (Nat.le_mul_of_pos_right _ (by positivity)) hroom
    have hstep : ((acc <<< 8) ||| b.toUInt64).toNat = acc.toNat * 256 + b.toNat := by
      have hshift : (acc <<< 8).toNat = acc.toNat <<< 8 := by
        rw [UInt64.toNat_shiftLeft]
        change acc.toNat <<< 8 % 2 ^ 64 = _
        rw [Nat.shiftLeft_eq, Nat.mod_eq_of_lt]
        omega
      rw [UInt64.toNat_or, hshift, UInt8.toNat_toUInt64, ← Nat.shiftLeft_add_eq_or_of_lt hb,
        Nat.shiftLeft_eq]
    rw [List.foldl_cons, ih _ ?_, hstep, Wire.beNat_cons, List.length_cons, pow_succ]
    · ring
    · rw [hstep]
      refine le_trans (Nat.mul_le_mul_right _ ?_) hroom
      omega

theorem positiveMpintU64_eq_some_iff {bytes : Octets} {v : UInt64} :
    positiveMpintU64 bytes = some v ↔
      ∃ m, positiveMpintMagnitude bytes = some m ∧ beNat m < 2 ^ 64 ∧ v.toNat = beNat m := by
  unfold positiveMpintU64
  cases hmag : positiveMpintMagnitude bytes with
  | none => simp
  | some m =>
    obtain ⟨-, -, b, rest, rfl, hb⟩ := Thumb.magnitude_spec hmag
    dsimp only
    by_cases hlong : (b :: rest).length > 8
    · rw [if_pos hlong]
      constructor
      · intro h
        cases h
      · intro h
        obtain ⟨m, hm, hlt, -⟩ := h
        cases hm
        have hle := le_beNat_cons rest hb
        have hpow : 256 ^ 8 ≤ 256 ^ rest.length := by
          apply Nat.pow_le_pow_right (by decide)
          rw [List.length_cons] at hlong
          omega
        omega
    · rw [if_neg hlong]
      have hroom : (0 + 1) * 256 ^ (b :: rest).length ≤ 2 ^ 64 := by
        calc (0 + 1) * 256 ^ (b :: rest).length = 256 ^ (b :: rest).length := by ring
          _ ≤ 256 ^ 8 := Nat.pow_le_pow_right (by decide) (Nat.le_of_not_lt hlong)
          _ = 2 ^ 64 := by norm_num
      have hfold := foldl_u64 (b :: rest) 0 hroom
      have hlt := beNat_lt (b :: rest)
      rw [UInt64.toNat_zero, Nat.zero_mul, Nat.zero_add] at hfold
      constructor
      · intro h
        cases h
        exact ⟨_, rfl, by omega, hfold⟩
      · intro h
        obtain ⟨m, hm, -, hv⟩ := h
        cases hm
        rw [← UInt64.toNat_inj.mp (hfold.trans hv.symm)]

theorem positiveMpintBitLen_eq_some_iff {bytes : Octets} {k : Nat} :
    positiveMpintBitLen bytes = some k ↔
      ∃ m, positiveMpintMagnitude bytes = some m ∧ (beNat m).size = k := by
  unfold positiveMpintBitLen
  cases hmag : positiveMpintMagnitude bytes with
  | none => simp
  | some m =>
    obtain ⟨-, -, b, rest, rfl, hb⟩ := Thumb.magnitude_spec hmag
    dsimp only
    rw [List.length_cons, Nat.add_sub_cancel, List.headD_cons, ← Thumb.size_beNat rest hb]
    simp

/-! ### The checked functions -/

/-- Where the bit length is a `u32`, no step of its computation leaves the word. -/
theorem positiveMpintBitLen_run {bytes : Octets} (h : Thumb.BitsFit bytes) :
    (Thumb.positiveMpintBitLen bytes).run = .ok (.ok (positiveMpintBitLen bytes)) := by
  cases hmag : positiveMpintMagnitude bytes with
  | none =>
    unfold Thumb.positiveMpintBitLen positiveMpintBitLen
    rw [Checked.run_bind_ok (Thumb.positiveMpintMagnitude_run bytes), hmag]
    rfl
  | some m =>
    have hle := length_le_magnitude hmag
    obtain ⟨hval, -, b, rest, rfl, hb⟩ := Thumb.magnitude_spec hmag
    have hsize := h (by rw [hmag]; rfl)
    rw [← hval, Thumb.size_beNat rest hb] at hsize
    rw [List.length_cons] at hle
    have hlen : bytes.length < 2 ^ 32 := by
      unfold Thumb.W at hsize
      omega
    exact (Thumb.positiveMpintBitLen_follows hlen).returns h

/-- `positive_mpint_u64` and `positive_mpint_bit_len` as the firmware runs them decode the
    SSH form of the positive integers and nothing else.  The bit length is returned as a
    `u32`, so the integers of `2 ^ 32` bits and more are left out there. -/
theorem mpint_decoding (bytes : Octets) :
    ((∀ n : Nat, 1 ≤ n → IsMpint bytes n → n.size < 2 ^ 32) →
      ∃ r, (Thumb.positiveMpintBitLen bytes).run = .ok (.ok r) ∧
        ∀ k, r = some k ↔ ∃ n : Nat, (1 ≤ n ∧ IsMpint bytes n) ∧ n.size = k) ∧
    (∃ r, (Thumb.positiveMpintU64 bytes).run = .ok (.ok r) ∧
      ∀ v, r = some v ↔ ∃ n : Nat, (1 ≤ n ∧ IsMpint bytes n) ∧ n < 2 ^ 64 ∧ v.toNat = n) ∧
    ∀ (n : Int) (other : Octets), IsMpint bytes n → IsMpint other n → other = bytes := by
  refine ⟨?_, ⟨_, Thumb.positiveMpintU64_run bytes, ?_⟩, fun n other h h' => h'.unique h⟩
  · intro hbits
    have hfit : Thumb.BitsFit bytes := by
      intro hsome
      obtain ⟨m, hm⟩ := Option.isSome_iff_exists.mp hsome
      rw [← (Thumb.magnitude_spec hm).1]
      exact hbits _ (one_le_magnitude hm) (isMpint_of_magnitude hm)
    refine ⟨_, positiveMpintBitLen_run hfit, ?_⟩
    intro k
    simp only [positiveMpintBitLen_eq_some_iff, isMpint_iff_magnitude]
    constructor
    · intro h
      obtain ⟨m, hm, hk⟩ := h
      exact ⟨beNat m, ⟨m, hm, rfl⟩, hk⟩
    · intro h
      obtain ⟨_, ⟨m, hm, rfl⟩, hk⟩ := h
      exact ⟨m, hm, hk⟩
  · intro v
    simp only [positiveMpintU64_eq_some_iff, isMpint_iff_magnitude]
    constructor
    · intro h
      obtain ⟨m, hm, hlt, hv⟩ := h
      exact ⟨beNat m, ⟨m, hm, rfl⟩, hlt, hv⟩
    · intro h
      obtain ⟨_, ⟨m, hm, rfl⟩, hlt, hv⟩ := h
      exact ⟨m, hm, hlt, hv⟩

/-- The padded byte of the code's own test is the form of 255, of eight bits. -/
theorem mpint_decoding_padded : IsMpint [0x00, 0xFF] (255 : Nat) ∧
    ∃ r, (Thumb.positiveMpintBitLen [0x00, 0xFF]).run = .ok (.ok r) ∧
      ∀ k, r = some k ↔ ∃ n : Nat, (1 ≤ n ∧ IsMpint [0x00, 0xFF] n) ∧ n.size = k := by
  have hmpint : IsMpint [0x00, 0xFF] (255 : Nat) :=
    isMpint_of_magnitude (m := [0xFF]) rfl
  refine ⟨hmpint, (mpint_decoding [0x00, 0xFF]).1 ?_⟩
  intro n _ hn
  have hvalue := hmpint.value.symm.trans hn.value
  rw [← Nat.cast_inj.mp hvalue]
  decide

/-! ### Where the bit length leaves its word -/

/-- The power of 256 with `zeros` bytes behind its leading one. -/
def powerBytes (zeros : Nat) : Octets := 1 :: List.replicate zeros 0

theorem beNat_replicate_zero (zeros : Nat) : beNat (List.replicate zeros 0) = 0 := by
  induction zeros with
  | zero => rfl
  | succ zeros ih => rw [List.replicate_succ, beNat_zero_cons, ih]

theorem beNat_powerBytes (zeros : Nat) : beNat (powerBytes zeros) = 256 ^ zeros := by
  unfold powerBytes
  rw [Wire.beNat_cons, beNat_replicate_zero, List.length_replicate]
  simp

theorem size_powerBytes (zeros : Nat) : (256 ^ zeros).size = zeros * 8 + 1 := by
  rw [← beNat_powerBytes]
  unfold powerBytes
  rw [Thumb.size_beNat _ (by decide), List.length_replicate]
  rfl

theorem isMpint_powerBytes (zeros : Nat) : IsMpint (powerBytes zeros) (256 ^ zeros : Nat) := by
  rw [← beNat_powerBytes]
  exact isMpint_of_magnitude rfl

theorem powerBytes_stops {zeros : Nat} (hlo : 2 ^ 29 ≤ zeros) (hhi : zeros < 2 ^ 30) :
    ¬ Checked.Returns (Thumb.positiveMpintBitLen (powerBytes zeros)) := by
  have hlen : (powerBytes zeros).length < 2 ^ 31 := by
    unfold powerBytes
    rw [List.length_cons, List.length_replicate]
    omega
  rw [(Thumb.positiveMpintBitLen_follows (hlen.trans (by decide))).returns_iff]
  intro hfit
  have hsize := hfit rfl
  rw [beNat_powerBytes, size_powerBytes] at hsize
  unfold Thumb.W at hsize
  omega

/-- The form of `256 ^ (2 ^ 29)`: its bit length is no `u32`, and the product that would
    be it stops the device. -/
theorem huge_mpint_stops :
    ∃ n : Nat, (1 ≤ n ∧ IsMpint (powerBytes (2 ^ 29)) n) ∧ n.size = 2 ^ 29 * 8 + 1 ∧
      ¬ Checked.Returns (Thumb.positiveMpintBitLen (powerBytes (2 ^ 29))) := by
  refine ⟨_, ⟨?_, isMpint_powerBytes (2 ^ 29)⟩, size_powerBytes _, ?_⟩
  · exact Nat.pos_of_ne_zero (pow_ne_zero _ (by decide))
  · exact powerBytes_stops le_rfl (by decide)

end PicoSignet
