/-
  PicoSignet/Base64.lean
  ======================
  **Base64 with the standard alphabet and canonical padding.**

  Three bytes become four symbols; a last group of one or two bytes is padded with
  `=`.  The decoder is the strict one: it takes the padding only at the end, insists
  on it, and refuses a last symbol with bits the padding stands for.
-/
import PicoSignet.Words

set_option autoImplicit false

namespace PicoSignet.Base64

/-- The padding symbol. -/
def PAD : UInt8 := 0x3D

/-- The symbol of a six-bit value. -/
def symbol (n : Nat) : UInt8 :=
  if n < 26 then UInt8.ofNat (0x41 + n)
  else if n < 52 then UInt8.ofNat (0x61 + (n - 26))
  else if n < 62 then UInt8.ofNat (0x30 + (n - 52))
  else if n = 62 then 0x2B
  else 0x2F

/-- The value of a symbol; the padding has none. -/
def value (c : UInt8) : Option Nat :=
  if 0x41 ≤ c ∧ c ≤ 0x5A then some (c.toNat - 0x41)
  else if 0x61 ≤ c ∧ c ≤ 0x7A then some (c.toNat - 0x61 + 26)
  else if 0x30 ≤ c ∧ c ≤ 0x39 then some (c.toNat - 0x30 + 52)
  else if c = 0x2B then some 62
  else if c = 0x2F then some 63
  else none

def encode : Octets → Octets
  | a :: b :: c :: rest =>
    let n := a.toNat * 65536 + b.toNat * 256 + c.toNat
    symbol (n / 262144) :: symbol (n / 4096 % 64) :: symbol (n / 64 % 64) :: symbol (n % 64) ::
      encode rest
  | [a, b] =>
    let n := a.toNat * 65536 + b.toNat * 256
    [symbol (n / 262144), symbol (n / 4096 % 64), symbol (n / 64 % 64), PAD]
  | [a] =>
    let n := a.toNat * 65536
    [symbol (n / 262144), symbol (n / 4096 % 64), PAD, PAD]
  | [] => []

/-- The bytes of a group of 24 bits. -/
def byte0 (n : Nat) : UInt8 := UInt8.ofNat (n / 65536)
def byte1 (n : Nat) : UInt8 := UInt8.ofNat (n / 256)
def byte2 (n : Nat) : UInt8 := UInt8.ofNat n

def decode : Octets → Option Octets
  | [] => some []
  | c1 :: c2 :: c3 :: c4 :: rest =>
    match value c1, value c2 with
    | some v1, some v2 =>
      match value c3 with
      | none =>
        if c3 = PAD ∧ c4 = PAD ∧ rest = [] ∧ v2 % 16 = 0 then
          some [byte0 (v1 * 262144 + v2 * 4096)]
        else none
      | some v3 =>
        let n := v1 * 262144 + v2 * 4096 + v3 * 64
        match value c4 with
        | none =>
          if c4 = PAD ∧ rest = [] ∧ v3 % 4 = 0 then some [byte0 n, byte1 n] else none
        | some v4 =>
          match decode rest with
          | none => none
          | some bytes => some (byte0 (n + v4) :: byte1 (n + v4) :: byte2 (n + v4) :: bytes)
    | _, _ => none
  | _ => none

theorem value_symbol {n : Nat} (h : n < 64) : value (symbol n) = some n := by
  have hall : ∀ k : Fin 64, value (symbol k.val) = some k.val := by decide +kernel
  exact hall ⟨n, h⟩

theorem value_pad : value PAD = none := by decide

theorem ofNat_eq {a : UInt8} {n : Nat} (h : n % 256 = a.toNat) : UInt8.ofNat n = a := by
  apply UInt8.toNat_inj.mp
  rw [UInt8.toNat_ofNat']
  exact h

theorem byte0_group {a : UInt8} {n r : Nat} (hn : n = a.toNat * 65536 + r) (hr : r < 65536) :
    byte0 n = a := by
  have ha := a.toNat_lt
  apply ofNat_eq
  omega

theorem byte1_group {b : UInt8} {n k r : Nat} (hn : n = k * 65536 + b.toNat * 256 + r)
    (hr : r < 256) : byte1 n = b := by
  have hb := b.toNat_lt
  apply ofNat_eq
  omega

theorem byte2_group {c : UInt8} {n k : Nat} (hn : n = k * 256 + c.toNat) : byte2 n = c := by
  have hc := c.toNat_lt
  apply ofNat_eq
  omega

/-- The digits of a group put together again. -/
theorem digits_group (n : Nat) :
    n / 262144 * 262144 + n / 4096 % 64 * 4096 + n / 64 % 64 * 64 + n % 64 = n := by
  omega

/-! A group of symbols decodes to the bytes of its number. -/

section Groups

variable {c1 c2 c3 c4 : UInt8} {v1 v2 v3 v4 n : Nat}

theorem decode_four {rest bytes : Octets} (h1 : value c1 = some v1) (h2 : value c2 = some v2)
    (h3 : value c3 = some v3) (h4 : value c4 = some v4)
    (hn : v1 * 262144 + v2 * 4096 + v3 * 64 + v4 = n) (hrest : decode rest = some bytes) :
    decode (c1 :: c2 :: c3 :: c4 :: rest) = some (byte0 n :: byte1 n :: byte2 n :: bytes) := by
  unfold decode
  rw [h1, h2, h3, h4, hrest, ← hn]

theorem decode_three (h1 : value c1 = some v1) (h2 : value c2 = some v2) (h3 : value c3 = some v3)
    (hn : v1 * 262144 + v2 * 4096 + v3 * 64 = n) (hlow : v3 % 4 = 0) :
    decode [c1, c2, c3, PAD] = some [byte0 n, byte1 n] := by
  unfold decode
  rw [h1, h2, h3, value_pad, ← hn]
  exact if_pos ⟨rfl, rfl, hlow⟩

theorem decode_two (h1 : value c1 = some v1) (h2 : value c2 = some v2)
    (hn : v1 * 262144 + v2 * 4096 = n) (hlow : v2 % 16 = 0) :
    decode [c1, c2, PAD, PAD] = some [byte0 n] := by
  unfold decode
  rw [h1, h2, value_pad, ← hn]
  exact if_pos ⟨rfl, rfl, rfl, hlow⟩

end Groups

theorem decode_encode (bytes : Octets) : decode (encode bytes) = some bytes := by
  induction bytes using encode.induct with
  | case1 a b c rest ih =>
    have ha := a.toNat_lt
    have hb := b.toNat_lt
    have hc := c.toNat_lt
    unfold encode
    generalize hn : a.toNat * 65536 + b.toNat * 256 + c.toNat = n
    have h0 : byte0 n = a := byte0_group (r := b.toNat * 256 + c.toNat) (by omega) (by omega)
    have h1 : byte1 n = b := byte1_group hn.symm hc
    have h2 : byte2 n = c := byte2_group (k := a.toNat * 256 + b.toNat) (by omega)
    have hgroup := decode_four (value_symbol (n := n / 262144) (by omega))
      (value_symbol (n := n / 4096 % 64) (by omega)) (value_symbol (n := n / 64 % 64) (by omega))
      (value_symbol (n := n % 64) (by omega)) (digits_group n) ih
    rw [h0, h1, h2] at hgroup
    exact hgroup
  | case2 a b =>
    have ha := a.toNat_lt
    have hb := b.toNat_lt
    unfold encode
    generalize hn : a.toNat * 65536 + b.toNat * 256 = n
    have h0 : byte0 n = a := byte0_group hn.symm (by omega)
    have h1 : byte1 n = b := byte1_group (k := a.toNat) (r := 0) (by omega) (by omega)
    have hlow : n % 64 = 0 := by omega
    have hdigits := digits_group n
    rw [hlow, Nat.add_zero] at hdigits
    have hgroup := decode_three (value_symbol (n := n / 262144) (by omega))
      (value_symbol (n := n / 4096 % 64) (by omega)) (value_symbol (n := n / 64 % 64) (by omega))
      hdigits (by omega)
    rw [h0, h1] at hgroup
    exact hgroup
  | case3 a =>
    have ha := a.toNat_lt
    unfold encode
    generalize hn : a.toNat * 65536 = n
    have h0 : byte0 n = a := byte0_group (r := 0) (by omega) (by omega)
    have hlow : n % 64 = 0 ∧ n / 64 % 64 = 0 := by omega
    have hdigits := digits_group n
    rw [hlow.1, hlow.2, Nat.zero_mul, Nat.add_zero] at hdigits
    have hgroup := decode_two (value_symbol (n := n / 262144) (by omega))
      (value_symbol (n := n / 4096 % 64) (by omega)) hdigits (by omega)
    rw [h0] at hgroup
    exact hgroup
  | case4 => rfl

/-- Decoding never makes a text longer. -/
theorem length_decode_le {text bytes : Octets} (h : decode text = some bytes) :
    bytes.length ≤ text.length := by
  fun_induction decode text generalizing bytes with
  | case7 =>
    rename_i tail hrest ih
    cases h
    have htail := ih hrest
    simp only [List.length_cons]
    omega
  | _ =>
    cases h
    all_goals simp

/-- The text of an encoding. -/
def encodeText (bytes : Octets) : String :=
  String.ofList ((encode bytes).map fun b => Char.ofNat b.toNat)

/-- Symbols are ASCII: their text is themselves. -/
def Ascii (b : UInt8) : Prop := String.utf8EncodeChar (Char.ofNat b.toNat) = [b]

theorem ascii_symbol {n : Nat} (h : n < 64) : Ascii (symbol n) := by
  have hall : ∀ k : Fin 64, String.utf8EncodeChar (Char.ofNat (symbol k.val).toNat) = [symbol k.val] := by
    decide +kernel
  exact hall ⟨n, h⟩

theorem ascii_pad : Ascii PAD := by
  unfold Ascii
  decide

/-- An encoding consists of symbols and padding. -/
theorem forall_mem_encode {p : UInt8 → Prop} (hsymbol : ∀ n, n < 64 → p (symbol n)) (hpad : p PAD)
    (bytes : Octets) : ∀ b ∈ encode bytes, p b := by
  induction bytes using encode.induct with
  | case1 a b c rest ih =>
    have ha := a.toNat_lt
    have hb := b.toNat_lt
    have hc := c.toNat_lt
    have hlt : a.toNat * 65536 + b.toNat * 256 + c.toNat < 16777216 := by omega
    unfold encode
    simp only [List.forall_mem_cons]
    exact ⟨hsymbol _ (by omega), hsymbol _ (by omega), hsymbol _ (by omega), hsymbol _ (by omega), ih⟩
  | case2 a b =>
    have ha := a.toNat_lt
    have hb := b.toNat_lt
    unfold encode
    simp only [List.forall_mem_cons]
    exact ⟨hsymbol _ (by omega), hsymbol _ (by omega), hsymbol _ (by omega), hpad,
      fun _ hb => (nomatch hb)⟩
  | case3 a =>
    have ha := a.toNat_lt
    unfold encode
    simp only [List.forall_mem_cons]
    exact ⟨hsymbol _ (by omega), hsymbol _ (by omega), hpad, hpad, fun _ hb => (nomatch hb)⟩
  | case4 =>
    intro b hb
    cases hb

theorem ascii_encode (bytes : Octets) : ∀ b ∈ encode bytes, Ascii b :=
  forall_mem_encode (fun _ h => ascii_symbol h) ascii_pad bytes

/-- The bytes of the text are the symbols. -/
theorem utf8_encodeText (bytes : Octets) :
    (encodeText bytes).toList.flatMap String.utf8EncodeChar = encode bytes := by
  unfold encodeText
  rw [String.toList_ofList, List.flatMap_map]
  have hascii := ascii_encode bytes
  generalize encode bytes = text at hascii
  induction text with
  | nil => rfl
  | cons b rest ih =>
    obtain ⟨hhead, htail⟩ := List.forall_mem_cons.mp hascii
    rw [List.flatMap_cons, ih htail, hhead]
    rfl

end PicoSignet.Base64
