/-
  PicoSignet/Thumb.lean
  =====================
  **Key parsing as the firmware runs it.**

  `SshWire.lean` reads `hsm-core/src/sshwire.rs` with positions in the natural
  numbers, which is what a 64-bit host computes.  The firmware target `thumbv8m`
  has a 32-bit `usize`, the release profile sets `overflow-checks = true`, and a
  panic halts the device (`panic_halt` in `hsm-fw/src/main.rs`).  Here the same
  functions are written with every addition, subtraction, product and index of the
  source as a checked operation of `Checked.lean`.

  Each of them follows its unbounded counterpart exactly as long as the length
  prefixes it meets end below `2 ^ 32` and the modulus has fewer than `2 ^ 32`
  bits.
-/
import PicoSignet.Checked
import PicoSignet.KeyFields
import Mathlib.Data.Nat.Size

set_option autoImplicit false

namespace PicoSignet.Thumb

open Checked

/-- The width of `usize` and of `u32`. -/
def W : Nat := 32

/-- `Reader::read_string`. -/
def readString (r : Reader) : Prog KeyError (Octets × Reader) := do
  if r.buf.length < (← add W r.pos 4) then fail .parse
  else do
    let b0 ← index r.buf r.pos
    let b1 ← index r.buf (← add W r.pos 1)
    let b2 ← index r.buf (← add W r.pos 2)
    let b3 ← index r.buf (← add W r.pos 3)
    let len := beNat [b0, b1, b2, b3]
    let pos ← add W r.pos 4
    if r.buf.length < (← add W pos len) then fail .parse
    else do
      let s ← slice r.buf pos (← add W pos len)
      let pos ← add W pos len
      pure (s, { r with pos := pos })

/-- `positive_mpint_magnitude`. -/
def positiveMpintMagnitude (bytes : Octets) : Prog KeyError (Option Octets) := do
  if bytes.isEmpty then pure none
  else do
    let first ← index bytes 0
    if first &&& 0x80 ≠ 0 then pure none
    else if first = 0 then do
      if bytes.length = 1 then pure none
      else do
        let second ← index bytes 1
        if second &&& 0x80 = 0 then pure none
        else do
          let rest ← slice bytes 1 bytes.length
          pure (some rest)
    else pure (some bytes)

/-- `positive_mpint_u64`; a shift by eight is in range, and drops what it shifts out. -/
def positiveMpintU64 (bytes : Octets) : Prog KeyError (Option UInt64) := do
  match ← positiveMpintMagnitude bytes with
  | none => pure none
  | some magnitude =>
    if magnitude.length > 8 then pure none
    else pure (some (magnitude.foldl (fun value b => (value <<< 8) ||| b.toUInt64) 0))

/-- `u8::leading_zeros`. -/
def leadingZeros (b : UInt8) : Nat := 8 - byteBits b

/-- `positive_mpint_bit_len`. -/
def positiveMpintBitLen (bytes : Octets) : Prog KeyError (Option Nat) := do
  match ← positiveMpintMagnitude bytes with
  | none => pure none
  | some magnitude => do
    let first ← index magnitude 0
    let topBits ← sub 8 (leadingZeros first)
    let whole ← mul W (← sub (magnitude.length % 2 ^ W) 1) 8
    let bits ← add W whole topBits
    pure (some bits)

section

variable (P : Prims)

/-- The three ECDSA arms. -/
def parseEcdsa (curveName : String) (pointLen : Nat) (pointOk : Octets → Bool) (kind : KeyKind)
    (r : Reader) : Prog KeyError (KeyKind × Reader) := do
  let (curve, r) ← readString r
  let (q, r) ← readString r
  if curve ≠ Str.bytes curveName.toList then fail (.rejected "mismatched ECDSA curve")
  else
    match requireUncompressedSec1 q pointLen with
    | .error e => fail e
    | .ok () =>
      if !pointOk q then fail (.rejected "invalid ECDSA public point")
      else pure (kind, r)

/-- The ed25519 arm. -/
def parseEd25519 (r : Reader) : Prog KeyError (KeyKind × Reader) := do
  let (pk, r) ← readString r
  if pk.length ≠ 32 then fail (.rejected "malformed ed25519 key")
  else pure (.ed25519, r)

/-- The RSA arm. -/
def parseRsa (r : Reader) : Prog KeyError (KeyKind × Reader) := do
  let (eBytes, r) ← readString r
  match ← positiveMpintU64 eBytes with
  | none => fail (.rejected "malformed RSA public exponent")
  | some e =>
    if e < 3 || e % 2 == 0 then fail (.rejected "RSA public exponent must be an odd integer >= 3")
    else do
      let (n, r) ← readString r
      match ← positiveMpintBitLen n with
      | none => fail (.rejected "malformed RSA modulus")
      | some bits => pure (.rsa bits, r)

/-- The match on the algorithm name in `parse_key_kind`. -/
def parseFields (algo : String) (r : Reader) : Prog KeyError (KeyKind × Reader) :=
  if algo = "ssh-ed25519" then parseEd25519 r
  else if algo = "ssh-rsa" then parseRsa r
  else if algo = "ecdsa-sha2-nistp256" then parseEcdsa "nistp256" 65 P.p256Ok .ecdsaP256 r
  else if algo = "ecdsa-sha2-nistp384" then parseEcdsa "nistp384" 97 P.p384Ok .ecdsaP384 r
  else if algo = "ecdsa-sha2-nistp521" then parseEcdsa "nistp521" 133 P.p521Ok .ecdsaP521 r
  else fail .parse

/-- `parse_key_kind`. -/
def parseKeyKind (algo : String) (r : Reader) : Prog KeyError KeyKind := do
  let (kind, r) ← parseFields P algo r
  if !r.isEmpty then fail .trailing
  else pure kind

/-- `parse_authorized_key` from the decoded blob on. -/
def readKey (algoTok : Str) (blob : Octets) : Prog KeyError ParsedKey := do
  let (innerAlgo, r) ← readString ⟨blob, 0⟩
  if innerAlgo ≠ Str.bytes algoTok then fail .parse
  else do
    let headerLen ← add W 4 innerAlgo.length
    let keyBody ← slice blob headerLen blob.length
    let kind ← parseKeyKind P (String.ofList algoTok) r
    let certAlgo ← expect (certAlgoFor (String.ofList algoTok))
    pure { algo := String.ofList algoTok, certAlgo, keyBody, kind }

/-- `parse_authorized_key`. -/
def parseAuthorizedKey (input : Str) : Prog KeyError ParsedKey := do
  if (input.lines.filter fun l => !l.trim.isEmpty).length > 1 then fail .trailing
  else if input.trim.isEmpty then fail .parse
  else
    match findKeyType 0 input.trim.splitWhitespace with
    | .error e => fail e
    | .ok idx =>
      if idx > 0 then fail .options
      else do
        let algoTok ← index input.trim.splitWhitespace idx
        let next ← add W idx 1
        match input.trim.splitWhitespace[next]? with
        | none => fail .parse
        | some blobB64 =>
          match P.b64Decode (Str.bytes blobB64) with
          | none => fail .parse
          | some blob => readKey P algoTok blob

end

/-! ### Reading a string -/

/-- The length prefix at `pos`, where the buffer has one, ends below `2 ^ 32`. -/
def LengthFits (buf : Octets) (pos : Nat) : Prop :=
  pos + 4 ≤ buf.length → pos + 4 + beNat ((buf.drop pos).take 4) < 2 ^ W

/-- The four bytes at a position, one by one. -/
theorem four_bytes {buf : Octets} {pos : Nat} (h : pos + 4 ≤ buf.length) :
    ∃ b0 b1 b2 b3, (buf.drop pos).take 4 = [b0, b1, b2, b3] ∧ buf[pos]? = some b0 ∧
      buf[pos + 1]? = some b1 ∧ buf[pos + 2]? = some b2 ∧ buf[pos + 3]? = some b3 := by
  have hlt : ∀ i, i < 4 → pos + i < buf.length := by omega
  refine ⟨buf[pos], buf[pos + 1], buf[pos + 2], buf[pos + 3], ?_, ?_, ?_, ?_, ?_⟩
  · have hhead : pos < buf.length := by omega
    rw [List.drop_eq_getElem_cons hhead, List.drop_eq_getElem_cons (hlt 1 (by decide)),
      List.drop_eq_getElem_cons (hlt 2 (by decide)), List.drop_eq_getElem_cons (hlt 3 (by decide))]
    rfl
  all_goals exact List.getElem?_eq_getElem _

theorem readString_follows {r : Reader} (hpos : r.pos ≤ r.buf.length)
    (hbuf : r.buf.length < 2 ^ 31) :
    Follows (readString r) (LengthFits r.buf r.pos) r.readString := by
  have hword : ∀ i, i ≤ 4 → r.pos + i < 2 ^ W := by
    unfold W
    omega
  unfold readString Reader.readString
  apply Follows.then (add_run (hword 4 (by decide)))
  by_cases hshort : r.buf.length < r.pos + 4
  · rw [if_pos hshort, if_pos hshort]
    apply (follows_fail _).congr
    unfold LengthFits
    constructor
    · intro _ hfour
      omega
    · exact fun _ => trivial
  · have hfour : r.pos + 4 ≤ r.buf.length := by omega
    obtain ⟨b0, b1, b2, b3, htake, h0, h1, h2, h3⟩ := four_bytes hfour
    rw [if_neg hshort, if_neg hshort]
    apply Follows.then (index_run h0)
    apply Follows.then (add_run (hword 1 (by decide)))
    apply Follows.then (index_run h1)
    apply Follows.then (add_run (hword 2 (by decide)))
    apply Follows.then (index_run h2)
    apply Follows.then (add_run (hword 3 (by decide)))
    apply Follows.then (index_run h3)
    apply Follows.then (add_run (hword 4 (by decide)))
    have hfits : LengthFits r.buf r.pos ↔ r.pos + 4 + beNat [b0, b1, b2, b3] < 2 ^ W := by
      unfold LengthFits
      rw [htake]
      exact ⟨fun h => h hfour, fun h _ => h⟩
    rw [htake]
    generalize beNat [b0, b1, b2, b3] = len at hfits
    have hafter : r.pos + 4 + len < 2 ^ W → Follows
        (if r.buf.length < r.pos + 4 + len then fail .parse
        else do
          let s ← slice r.buf (r.pos + 4) (← add W (r.pos + 4) len)
          let pos ← add W (r.pos + 4) len
          pure (s, { r with pos := pos }) : Prog KeyError (Octets × Reader)) True
        (if r.buf.length < r.pos + 4 + len then .error .parse
        else .ok ((r.buf.drop (r.pos + 4)).take len, { r with pos := r.pos + 4 + len })) := by
      intro hlen
      by_cases hlong : r.buf.length < r.pos + 4 + len
      · rw [if_pos hlong, if_pos hlong]
        exact follows_fail _
      · rw [if_neg hlong, if_neg hlong]
        apply Follows.then (add_run hlen)
        apply Follows.then (slice_run (Nat.le_add_right _ _) (Nat.le_of_not_lt hlong))
        apply Follows.then (add_run hlen)
        rw [Nat.add_sub_cancel_left]
        exact follows_pure _
    constructor
    · intro hsafe
      have hlen := hfits.mp hsafe
      exact (Follows.then (add_run hlen) (hafter hlen)).returns trivial
    · intro hsafe
      obtain ⟨s, hs⟩ := (add_follows W (r.pos + 4) len).stops fun hlen => hsafe (hfits.mpr hlen)
      refine ⟨s, ?_⟩
      rw [ExceptT.run_bind, hs]
      rfl

/-! ### Multiple-precision integers -/

theorem positiveMpintMagnitude_run (bytes : Octets) :
    (positiveMpintMagnitude bytes).run = .ok (.ok (PicoSignet.positiveMpintMagnitude bytes)) := by
  cases bytes with
  | nil => rfl
  | cons b rest =>
    have hfollows : Follows (positiveMpintMagnitude (b :: rest)) True
        (.ok (PicoSignet.positiveMpintMagnitude (b :: rest))) := by
      unfold positiveMpintMagnitude PicoSignet.positiveMpintMagnitude
      apply Follows.then (index_run rfl)
      dsimp only
      by_cases hneg : b &&& 0x80 ≠ 0
      · rw [if_pos hneg, if_pos hneg]
        exact follows_pure _
      · rw [if_neg hneg, if_neg hneg]
        by_cases hzero : b = 0
        · rw [if_pos hzero, if_pos hzero]
          cases rest with
          | nil => exact follows_pure _
          | cons c rest =>
            have hlong : ¬ (b :: c :: rest).length = 1 := by simp
            rw [if_neg hlong]
            apply Follows.then (index_run rfl)
            by_cases hpad : c &&& 0x80 = 0
            · rw [if_pos hpad]
              dsimp only
              rw [if_pos hpad]
              exact follows_pure _
            · rw [if_neg hpad]
              dsimp only
              rw [if_neg hpad]
              apply Follows.then (slice_run (by simp) le_rfl)
              have hrest : ((b :: c :: rest).drop 1).take ((b :: c :: rest).length - 1) =
                  c :: rest := by simp
              rw [hrest]
              exact follows_pure _
        · rw [if_neg hzero, if_neg hzero]
          exact follows_pure _
    exact hfollows.returns trivial

theorem positiveMpintU64_run (bytes : Octets) :
    (positiveMpintU64 bytes).run = .ok (.ok (PicoSignet.positiveMpintU64 bytes)) := by
  unfold positiveMpintU64 PicoSignet.positiveMpintU64
  rw [run_bind_ok (positiveMpintMagnitude_run bytes)]
  cases PicoSignet.positiveMpintMagnitude bytes with
  | none => rfl
  | some magnitude =>
    dsimp only
    by_cases hlong : magnitude.length > 8
    · rw [if_pos hlong, if_pos hlong]
      rfl
    · rw [if_neg hlong, if_neg hlong]
      rfl

/-- A magnitude spells the number its bytes do, and starts with a nonzero byte. -/
theorem magnitude_spec {bytes m : Octets} (h : PicoSignet.positiveMpintMagnitude bytes = some m) :
    beNat m = beNat bytes ∧ m.length ≤ bytes.length ∧ ∃ b rest, m = b :: rest ∧ b ≠ 0 := by
  cases bytes with
  | nil => cases h
  | cons b rest =>
    unfold PicoSignet.positiveMpintMagnitude at h
    dsimp only at h
    by_cases hneg : b &&& 0x80 ≠ 0
    · rw [if_pos hneg] at h
      cases h
    rw [if_neg hneg] at h
    by_cases hzero : b = 0
    · rw [if_pos hzero] at h
      cases rest with
      | nil => cases h
      | cons c tail =>
        dsimp only at h
        by_cases hpad : c &&& 0x80 = 0
        · rw [if_pos hpad] at h
          cases h
        rw [if_neg hpad] at h
        cases h
        refine ⟨?_, Nat.le_succ _, c, tail, rfl, ?_⟩
        · unfold beNat
          rw [hzero, List.foldl_cons]
          simp
        · intro hc
          apply hpad
          rw [hc]
          decide
    · rw [if_neg hzero] at h
      cases h
      exact ⟨rfl, le_rfl, b, rest, rfl, hzero⟩

/-- What the bit length counts: the bits of the number. -/
theorem size_beNat {b : UInt8} (rest : Octets) (hb : b ≠ 0) :
    Nat.size (beNat (b :: rest)) = rest.length * 8 + byteBits b := by
  have hpos : b.toNat ≠ 0 := by
    intro h
    exact hb (UInt8.toNat_inj.mp h)
  have hval : beNat (b :: rest) = b.toNat * 2 ^ (rest.length * 8) + beNat rest := by
    rw [Wire.beNat_cons, Nat.mul_comm rest.length, pow_mul]
    rfl
  have hrest : beNat rest < 2 ^ (rest.length * 8) := by
    rw [Nat.mul_comm, pow_mul]
    exact beNat_lt rest
  have hlo : 2 ^ b.toNat.log2 ≤ b.toNat := Nat.log2_self_le hpos
  have hhi : b.toNat + 1 ≤ 2 ^ (b.toNat.log2 + 1) := Nat.lt_log2_self
  have hbits : byteBits b = b.toNat.log2 + 1 := if_neg hb
  rw [hbits, hval]
  apply le_antisymm
  · apply Nat.size_le.mpr
    calc b.toNat * 2 ^ (rest.length * 8) + beNat rest
        < (b.toNat + 1) * 2 ^ (rest.length * 8) := by
          rw [Nat.succ_mul]
          exact Nat.add_lt_add_left hrest _
      _ ≤ 2 ^ (b.toNat.log2 + 1) * 2 ^ (rest.length * 8) := Nat.mul_le_mul_right _ hhi
      _ = 2 ^ (rest.length * 8 + (b.toNat.log2 + 1)) := by rw [← pow_add, Nat.add_comm]
  · apply Nat.lt_size.mpr
    calc 2 ^ (rest.length * 8 + b.toNat.log2)
        = 2 ^ b.toNat.log2 * 2 ^ (rest.length * 8) := by rw [← pow_add, Nat.add_comm]
      _ ≤ b.toNat * 2 ^ (rest.length * 8) := Nat.mul_le_mul_right _ hlo
      _ ≤ b.toNat * 2 ^ (rest.length * 8) + beNat rest := Nat.le_add_right _ _

/-- The modulus, where it is one, has fewer than `2 ^ 32` bits. -/
def BitsFit (bytes : Octets) : Prop :=
  (PicoSignet.positiveMpintMagnitude bytes).isSome → Nat.size (beNat bytes) < 2 ^ W

theorem positiveMpintBitLen_follows {bytes : Octets} (hlen : bytes.length < 2 ^ 32) :
    Follows (positiveMpintBitLen bytes) (BitsFit bytes)
      (.ok (PicoSignet.positiveMpintBitLen bytes)) := by
  unfold positiveMpintBitLen PicoSignet.positiveMpintBitLen BitsFit
  apply Follows.then (positiveMpintMagnitude_run bytes)
  cases hmag : PicoSignet.positiveMpintMagnitude bytes with
  | none =>
    apply (follows_pure _).congr
    constructor
    · intro _ hsome
      cases hsome
    · exact fun _ => trivial
  | some m =>
    obtain ⟨hval, hle, b, rest, rfl, hb⟩ := magnitude_spec hmag
    have hbits : byteBits b ≤ 8 := by
      unfold byteBits
      rw [if_neg hb]
      have hlog : b.toNat.log2 < 8 := (Nat.log2_lt (fun h => hb (UInt8.toNat_inj.mp h))).mpr b.toNat_lt
      omega
    have hmod : (b :: rest).length % 2 ^ W = rest.length + 1 := by
      rw [List.length_cons] at hle ⊢
      apply Nat.mod_eq_of_lt
      unfold W
      omega
    have hzeros : leadingZeros b ≤ 8 := Nat.sub_le _ _
    have htop : 8 - leadingZeros b = byteBits b := by
      unfold leadingZeros
      omega
    dsimp only
    apply Follows.then (index_run rfl)
    apply Follows.then (sub_run hzeros)
    rw [hmod, htop]
    apply Follows.then (sub_run (Nat.le_add_left 1 _))
    rw [Nat.add_sub_cancel]
    have hsize := size_beNat rest hb
    rw [hval] at hsize
    refine Follows.congr (Follows.bind (mul_follows W rest.length 8) fun whole _ =>
      Follows.bind (add_follows W whole (byteBits b)) fun bits _ => follows_pure (some bits)) ?_
    rw [hsize]
    constructor
    · intro hsafe _
      exact (hsafe.2 _ rfl).1
    · intro hsafe
      have hfits := hsafe rfl
      refine ⟨by omega, fun whole hwhole => ?_⟩
      cases hwhole
      exact ⟨hfits, fun _ _ => trivial⟩

/-! ### The arms of `parse_key_kind` -/

/-- A cursor inside a buffer that an address space of 32 bits can hold. -/
structure Within (r : Reader) : Prop where
  pos : r.pos ≤ r.buf.length
  buf : r.buf.length < 2 ^ 31

theorem Within.read {r : Reader} {x : Octets × Reader} (h : Within r)
    (hread : r.readString = .ok x) : Within x.2 ∧ x.1.length < 2 ^ 31 := by
  obtain ⟨s, r'⟩ := x
  obtain ⟨-, rfl, rest, hbytes⟩ := readString_ok_iff.mp hread
  have hlen := congrArg List.length hbytes
  rw [List.length_drop, List.length_append, length_putString] at hlen
  have hpos := h.pos
  have hbuf := h.buf
  refine ⟨⟨?_, hbuf⟩, ?_⟩
  · change r.pos + 4 + s.length ≤ r.buf.length
    omega
  · change s.length < 2 ^ 31
    omega

/-- An exponent the RSA arm goes on with. -/
def GoodExponent (bytes : Octets) : Prop :=
  ∃ e, PicoSignet.positiveMpintU64 bytes = some e ∧ ¬ (e < 3 || e % 2 == 0) = true

def RsaFits (r : Reader) : Prop :=
  LengthFits r.buf r.pos ∧ ∀ x, r.readString = .ok x → GoodExponent x.1 →
    LengthFits x.2.buf x.2.pos ∧ ∀ y, x.2.readString = .ok y → BitsFit y.1

def EcdsaFits (r : Reader) : Prop :=
  LengthFits r.buf r.pos ∧ ∀ x, r.readString = .ok x → LengthFits x.2.buf x.2.pos

theorem parseEd25519_follows {r : Reader} (h : Within r) :
    Follows (parseEd25519 r) (LengthFits r.buf r.pos) (ed25519Arm r) := by
  unfold parseEd25519 ed25519Arm
  apply (readString_follows h.pos h.buf).bind_total
  intro x _
  dsimp only
  split
  · exact follows_fail _
  · exact follows_pure _

theorem parseRsa_follows {r : Reader} (h : Within r) :
    Follows (parseRsa r) (RsaFits r) (rsaArm r) := by
  unfold parseRsa rsaArm RsaFits
  apply (readString_follows h.pos h.buf).bind
  intro x hx
  obtain ⟨hwithin, -⟩ := h.read hx
  dsimp only
  apply Follows.then (positiveMpintU64_run x.1)
  have hskip : ¬ GoodExponent x.1 → ∀ {e : KeyError} {q : Prop},
      Follows (fail e : Prog KeyError (KeyKind × Reader)) (GoodExponent x.1 → q) (.error e) := by
    intro hbad e q
    exact (follows_fail e).congr ⟨fun _ hgood => absurd hgood hbad, fun _ => trivial⟩
  cases hexp : PicoSignet.positiveMpintU64 x.1 with
  | none =>
    apply hskip
    intro hgood
    obtain ⟨e, he, -⟩ := hgood
    rw [hexp] at he
    cases he
  | some e =>
    dsimp only
    by_cases hodd : (e < 3 || e % 2 == 0) = true
    · rw [if_pos hodd, if_pos hodd]
      apply hskip
      intro hgood
      obtain ⟨e', he, heven⟩ := hgood
      rw [hexp] at he
      cases he
      exact heven hodd
    · rw [if_neg hodd, if_neg hodd]
      have hgood : GoodExponent x.1 := ⟨e, hexp, hodd⟩
      refine Follows.congr (Follows.bind (readString_follows hwithin.pos hwithin.buf)
        (q := fun y => BitsFit y.1) ?_) ⟨fun hsafe _ => hsafe, fun hsafe => hsafe hgood⟩
      intro y hy
      obtain ⟨-, hlen⟩ := hwithin.read hy
      have hmodulus : ∀ bits, Follows (match bits with
          | none => fail (.rejected "malformed RSA modulus")
          | some bits => pure (.rsa bits, y.2) : Prog KeyError (KeyKind × Reader)) True
          (match bits with
          | none => .error (.rejected "malformed RSA modulus")
          | some bits => .ok (.rsa bits, y.2)) := by
        intro bits
        cases bits with
        | none => exact follows_fail _
        | some bits => exact follows_pure _
      exact (positiveMpintBitLen_follows (hlen.trans (by decide))).bind_total fun bits _ =>
        hmodulus bits

theorem parseEcdsa_follows {r : Reader} (h : Within r) (curveName : String) (pointLen : Nat)
    (pointOk : Octets → Bool) (kind : KeyKind) :
    Follows (parseEcdsa curveName pointLen pointOk kind r) (EcdsaFits r)
      (ecdsaArm curveName pointLen pointOk kind r) := by
  unfold parseEcdsa ecdsaArm EcdsaFits
  apply (readString_follows h.pos h.buf).bind
  intro x hx
  obtain ⟨hwithin, -⟩ := h.read hx
  dsimp only
  apply (readString_follows hwithin.pos hwithin.buf).bind_total
  intro q _
  split
  · exact follows_fail _
  · cases requireUncompressedSec1 q.1 pointLen with
    | error e => exact follows_fail _
    | ok u =>
      dsimp only
      split
      · exact follows_fail _
      · exact follows_pure _

/-! ### The whole parser -/

/-- What the fields of each algorithm have to keep to. -/
def FieldsFit (algo : String) (r : Reader) : Prop :=
  if algo = "ssh-ed25519" then LengthFits r.buf r.pos
  else if algo = "ssh-rsa" then RsaFits r
  else if algo = "ecdsa-sha2-nistp256" then EcdsaFits r
  else if algo = "ecdsa-sha2-nistp384" then EcdsaFits r
  else if algo = "ecdsa-sha2-nistp521" then EcdsaFits r
  else True

section

variable (P : Prims)

theorem parseKeyKind_follows {r : Reader} (h : Within r) (algo : String) :
    Follows (parseKeyKind P algo r) (FieldsFit algo r) (PicoSignet.parseKeyKind P algo r) := by
  have hfields : Follows (parseFields P algo r) (FieldsFit algo r) (keyArm P algo r) := by
    unfold parseFields FieldsFit keyArm
    split
    · exact parseEd25519_follows h
    split
    · exact parseRsa_follows h
    split
    · exact parseEcdsa_follows h _ _ _ _
    split
    · exact parseEcdsa_follows h _ _ _ _
    split
    · exact parseEcdsa_follows h _ _ _ _
    · exact follows_fail _
  rw [parseKeyKind_eq]
  unfold parseKeyKind
  apply hfields.bind_total
  intro x _
  unfold finish
  dsimp only
  split
  · exact follows_fail _
  · exact follows_pure _

/-- What a submitted blob has to keep to. -/
def KeyFits (algo : Str) (blob : Octets) : Prop :=
  LengthFits blob 0 ∧ ∀ x, Reader.readString ⟨blob, 0⟩ = .ok x → x.1 = Str.bytes algo →
    FieldsFit (String.ofList algo) x.2

theorem readKey_follows {algo : Str} {blob : Octets} (hblob : blob.length < 2 ^ 31)
    (hcert : (certAlgoFor (String.ofList algo)).isSome) :
    Follows (readKey P algo blob) (KeyFits algo blob) (PicoSignet.readKey P algo blob) := by
  have hstart : Within ⟨blob, 0⟩ := ⟨Nat.zero_le _, hblob⟩
  unfold readKey PicoSignet.readKey KeyFits
  apply (readString_follows hstart.pos hstart.buf).bind
  intro x hx
  obtain ⟨inner, r⟩ := x
  obtain ⟨hwithin, hlen⟩ := hstart.read hx
  dsimp only
  by_cases hname : inner ≠ Str.bytes algo
  · rw [if_pos hname, if_pos hname]
    exact (follows_fail _).congr ⟨fun _ heq => absurd heq hname, fun _ => trivial⟩
  · rw [if_neg hname, if_neg hname]
    have hheader : 4 + inner.length ≤ blob.length := by
      obtain ⟨-, -, rest, hbytes⟩ := readString_ok_iff.mp hx
      have hsize := congrArg List.length hbytes
      rw [List.drop_zero, List.length_append, length_putString] at hsize
      dsimp only at hsize
      omega
    have hword : 4 + inner.length < 2 ^ W := by
      unfold W
      omega
    have hbody : (blob.drop (4 + inner.length)).take (blob.length - (4 + inner.length)) =
        blob.drop (4 + inner.length) := by
      apply List.take_of_length_le
      rw [List.length_drop]
    obtain ⟨certAlgo, hcert⟩ := Option.isSome_iff_exists.mp hcert
    apply Follows.then (add_run hword)
    apply Follows.then (slice_run hheader le_rfl)
    rw [hcert, hbody]
    refine Follows.congr (Follows.bind_total (parseKeyKind_follows P hwithin _) ?_)
      ⟨fun hsafe _ => hsafe, fun hsafe => hsafe (not_not.mp hname)⟩
    intro kind _
    exact follows_pure _

/-- The text of the line is read without a stop. -/
theorem parseAuthorizedKey_run (input : Str) :
    (parseAuthorizedKey P input).run = (match submitted P input with
      | .error e => fail e
      | .ok key => readKey P key.1 key.2 : Prog KeyError ParsedKey).run := by
  unfold parseAuthorizedKey submitted
  by_cases hlines : (input.lines.filter fun l => !l.trim.isEmpty).length > 1
  · rw [if_pos hlines, if_pos hlines]
  rw [if_neg hlines, if_neg hlines]
  by_cases hempty : input.trim.isEmpty = true
  · rw [if_pos hempty, if_pos hempty]
  rw [if_neg hempty, if_neg hempty]
  cases hfind : findKeyType 0 input.trim.splitWhitespace with
  | error e => rfl
  | ok idx =>
    dsimp only
    by_cases hoptions : idx > 0
    · rw [if_pos hoptions, if_pos hoptions]
    rw [if_neg hoptions, if_neg hoptions]
    obtain rfl : idx = 0 := by omega
    obtain ⟨-, t, hget, -⟩ := findKeyType_ok hfind
    rw [Nat.sub_zero] at hget
    rw [run_bind_ok (index_run hget), run_bind_ok (add_run (by decide)), List.getD_eq_getElem?_getD,
      hget]
    cases input.trim.splitWhitespace[0 + 1]? with
    | none => rfl
    | some blobB64 =>
      dsimp only
      cases P.b64Decode (Str.bytes blobB64) <;> rfl

theorem parseAuthorizedKey_follows (hb64 : ∀ s b, P.b64Decode s = some b → b.length ≤ s.length)
    {input : Str} (hinput : (Str.bytes input).length < 2 ^ 31) :
    Follows (parseAuthorizedKey P input) (∀ algo blob, Submits P input algo blob → KeyFits algo blob)
      (PicoSignet.parseAuthorizedKey P input) := by
  have hfollows : Follows (match submitted P input with
      | .error e => fail e
      | .ok key => readKey P key.1 key.2 : Prog KeyError ParsedKey)
      (∀ algo blob, Submits P input algo blob → KeyFits algo blob)
      (PicoSignet.parseAuthorizedKey P input) := by
    rw [parseAuthorizedKey_eq]
    cases hsub : submitted P input with
    | error e =>
      apply (follows_fail e).congr
      refine ⟨fun _ algo blob hkey => ?_, fun _ => trivial⟩
      rw [(submitted_ok_iff P).mpr hkey] at hsub
      cases hsub
    | ok key =>
      obtain ⟨algo, blob⟩ := key
      have hkey := (submitted_ok_iff P).mp hsub
      have hblob := (hkey.blob_le P hb64).trans_lt hinput
      apply (readKey_follows P hblob hkey.certifiable).congr
      constructor
      · intro hfits algo' blob' hkey'
        rw [(submitted_ok_iff P).mpr hkey'] at hsub
        cases hsub
        exact hfits
      · intro hfits
        exact hfits algo blob hkey
  exact ⟨fun hsafe => (parseAuthorizedKey_run P input).trans (hfollows.returns hsafe),
    fun hsafe => by rw [parseAuthorizedKey_run]; exact hfollows.stops hsafe⟩

end

/-! ### The condition on the bytes -/

/-- A first field behind which the parser reads a second one. -/
def HasSecond (algo : String) (field : Octets) : Prop :=
  algo ≠ "ssh-ed25519" ∧ (algo = "ssh-rsa" → GoodExponent field)

/-- The length prefixes the parser meets in a blob — of the algorithm name, of the
    first field behind it and of the second — end below `2 ^ 32`, and the modulus of
    an RSA key has fewer than `2 ^ 32` bits. -/
structure BlobFits (algo : Str) (blob : Octets) : Prop where
  name : LengthFits blob 0
  first : ∀ rest, blob = putString algo.bytes ++ rest → LengthFits blob (4 + algo.bytes.length)
  second : ∀ field rest, blob = putString algo.bytes ++ (putString field ++ rest) →
    HasSecond (String.ofList algo) field → LengthFits blob (4 + algo.bytes.length + 4 + field.length)
  modulus : ∀ e n rest, blob = putString algo.bytes ++ (putString e ++ (putString n ++ rest)) →
    String.ofList algo = "ssh-rsa" → GoodExponent e → BitsFit n

theorem fieldsFit_iff {algo : String} {r : Reader} (hcert : (certAlgoFor algo).isSome) :
    FieldsFit algo r ↔ LengthFits r.buf r.pos ∧
      (∀ x, r.readString = .ok x → HasSecond algo x.1 → LengthFits x.2.buf x.2.pos) ∧
      ∀ x y, r.readString = .ok x → x.2.readString = .ok y → algo = "ssh-rsa" →
        GoodExponent x.1 → BitsFit y.1 := by
  unfold FieldsFit HasSecond
  split
  · rename_i hed
    refine ⟨fun h => ⟨h, fun _ _ hsecond => absurd hed hsecond.1, ?_⟩, fun h => h.1⟩
    intro x y _ _ hrsa
    rw [hed] at hrsa
    exact absurd hrsa (by decide)
  · rename_i hed
    split
    · rename_i hrsa
      unfold RsaFits
      constructor
      · intro h
        exact ⟨h.1, fun x hx hsecond => (h.2 x hx (hsecond.2 hrsa)).1,
          fun x y hx hy _ hgood => (h.2 x hx hgood).2 y hy⟩
      · intro h
        exact ⟨h.1, fun x hx hgood => ⟨h.2.1 x hx ⟨hed, fun _ => hgood⟩,
          fun y hy => h.2.2 x y hx hy hrsa hgood⟩⟩
    · rename_i hrsa
      have hecdsa : EcdsaFits r ↔ LengthFits r.buf r.pos ∧
          (∀ x, r.readString = .ok x → algo ≠ "ssh-ed25519" ∧ (algo = "ssh-rsa" → GoodExponent x.1) →
            LengthFits x.2.buf x.2.pos) ∧
          ∀ x y, r.readString = .ok x → x.2.readString = .ok y → algo = "ssh-rsa" →
            GoodExponent x.1 → BitsFit y.1 := by
        unfold EcdsaFits
        constructor
        · intro h
          exact ⟨h.1, fun x hx _ => h.2 x hx, fun _ _ _ _ h' => absurd h' hrsa⟩
        · intro h
          exact ⟨h.1, fun x hx => h.2.1 x hx ⟨hed, fun h' => absurd h' hrsa⟩⟩
      split
      · exact hecdsa
      split
      · exact hecdsa
      split
      · exact hecdsa
      · rename_i h256 h384 h521
        unfold certAlgoFor at hcert
        rw [if_neg hed, if_neg hrsa, if_neg h256, if_neg h384, if_neg h521] at hcert
        cases hcert

/-- A read at the end of a known prefix. -/
theorem readString_behind {blob s rest : Octets} (pre : Octets) (hblob : blob.length < 2 ^ 31)
    (h : blob = pre ++ (putString s ++ rest)) :
    Reader.readString ⟨blob, pre.length⟩ = .ok (s, ⟨blob, pre.length + 4 + s.length⟩) := by
  apply readString_ok_iff.mpr
  have hlen := congrArg List.length h
  rw [List.length_append, List.length_append, length_putString] at hlen
  refine ⟨by omega, rfl, rest, ?_⟩
  rw [h]
  exact List.drop_left

theorem behind_of_readString {blob tail : Octets} {x : Octets × Reader} (pre : Octets)
    (h : blob = pre ++ tail) (hread : Reader.readString ⟨blob, pre.length⟩ = .ok x) :
    x = (x.1, ⟨blob, pre.length + 4 + x.1.length⟩) ∧ ∃ rest, tail = putString x.1 ++ rest := by
  obtain ⟨s, r⟩ := x
  obtain ⟨-, rfl, rest, hbytes⟩ := readString_ok_iff.mp hread
  refine ⟨rfl, rest, ?_⟩
  rw [← hbytes, h]
  exact List.drop_left.symm

theorem keyFits_iff {algo : Str} {blob : Octets} (hblob : blob.length < 2 ^ 31)
    (hcert : (certAlgoFor (String.ofList algo)).isSome) : KeyFits algo blob ↔ BlobFits algo blob := by
  have hname := length_putString algo.bytes
  constructor
  · intro h
    -- With the name in place, the fields are read from behind it.
    have hfields : ∀ rest, blob = putString algo.bytes ++ rest →
        FieldsFit (String.ofList algo) ⟨blob, (putString algo.bytes).length⟩ := by
      intro rest hrest
      have hread := readString_behind [] hblob hrest
      have hfits := h.2 _ hread rfl
      rw [hname]
      rwa [List.length_nil, Nat.zero_add] at hfits
    refine ⟨h.1, fun rest hrest => ?_, fun field rest hrest hsecond => ?_,
      fun e n rest hrest hrsa hgood => ?_⟩
    · obtain ⟨hfirst, -, -⟩ := (fieldsFit_iff hcert).mp (hfields _ hrest)
      rwa [hname] at hfirst
    · obtain ⟨-, hlater, -⟩ := (fieldsFit_iff hcert).mp (hfields _ hrest)
      have hfits := hlater _ (readString_behind _ hblob hrest) hsecond
      rwa [hname] at hfits
    · obtain ⟨-, -, hmodulus⟩ := (fieldsFit_iff hcert).mp (hfields _ hrest)
      have hthird := readString_behind (putString algo.bytes ++ putString e) hblob
        (hrest.trans (List.append_assoc _ _ _).symm)
      rw [List.length_append, length_putString e, ← Nat.add_assoc] at hthird
      exact hmodulus _ _ (readString_behind _ hblob hrest) hthird hrsa hgood
  · intro h
    refine ⟨h.name, fun x hx halgo => ?_⟩
    obtain ⟨hx', rest, hrest⟩ := behind_of_readString [] rfl hx
    rw [halgo] at hx' hrest
    rw [hx', List.length_nil, Nat.zero_add, ← hname]
    apply (fieldsFit_iff hcert).mpr
    refine ⟨?_, fun y hy hsecond => ?_, fun y z hy hz hrsa hgood => ?_⟩
    · rw [hname]
      exact h.first rest hrest
    · obtain ⟨hy', rest', rfl⟩ := behind_of_readString _ hrest hy
      rw [hy', hname]
      exact h.second y.1 rest' hrest hsecond
    · obtain ⟨hy', rest', rfl⟩ := behind_of_readString _ hrest hy
      rw [hy'] at hz
      have hpre : (putString algo.bytes).length + 4 + y.1.length =
          (putString algo.bytes ++ putString y.1).length := by
        rw [List.length_append, length_putString y.1, Nat.add_assoc]
      rw [hpre] at hz
      obtain ⟨-, rest'', rfl⟩ :=
        behind_of_readString _ (hrest.trans (List.append_assoc _ _ _).symm) hz
      exact h.modulus y.1 z.1 rest'' hrest hrsa hgood

/-! ### When a request can halt the device -/

/-- Key parsing returns exactly on the lines whose blob keeps to its bounds; the cursor
    and the integer helpers return exactly where the prefix or the modulus does. -/
theorem key_parsing_returns_iff (P : Prims)
    (hb64 : ∀ s b, P.b64Decode s = some b → b.length ≤ s.length) {input : Str}
    (hinput : (Str.bytes input).length < 2 ^ 31) :
    (Returns (parseAuthorizedKey P input) ↔
      ∀ algo blob, Submits P input algo blob → BlobFits algo blob) ∧
    (∀ r, Within r → (Returns (readString r) ↔ LengthFits r.buf r.pos)) ∧
    ∀ bytes : Octets, bytes.length < 2 ^ 31 → Returns (positiveMpintU64 bytes) ∧
      (Returns (positiveMpintBitLen bytes) ↔ BitsFit bytes) := by
  refine ⟨?_, fun r h => (readString_follows h.pos h.buf).returns_iff, fun bytes hlen =>
    ⟨⟨_, positiveMpintU64_run bytes⟩,
      (positiveMpintBitLen_follows (hlen.trans (by decide))).returns_iff⟩⟩
  rw [(parseAuthorizedKey_follows P hb64 hinput).returns_iff]
  have hiff : ∀ algo blob, Submits P input algo blob → (KeyFits algo blob ↔ BlobFits algo blob) :=
    fun algo blob hkey =>
      keyFits_iff ((hkey.blob_le P hb64).trans_lt hinput) hkey.certifiable
  constructor
  · intro h algo blob hkey
    exact (hiff algo blob hkey).mp (h algo blob hkey)
  · intro h algo blob hkey
    exact (hiff algo blob hkey).mpr (h algo blob hkey)

namespace Bench

/-- A blob of nothing but the length `2 ^ 32 - 1`. -/
def hugeLine : Str := "ssh-ed25519 /////w==".toList

end Bench

/-- An ordinary key is read. -/
theorem key_parsing_returns_good : Returns (parseAuthorizedKey PicoSignet.Bench.base64 PicoSignet.Bench.keyLine) := by
  have hlength : (Str.bytes PicoSignet.Bench.keyLine).length < 2 ^ 31 := by decide +kernel
  apply (key_parsing_returns_iff PicoSignet.Bench.base64 (fun s b h => Base64.length_decode_le h)
    hlength).1.mpr
  intro algo blob hkey
  have hsub := (submitted_ok_iff PicoSignet.Bench.base64).mpr hkey
  have hgood : submitted PicoSignet.Bench.base64 PicoSignet.Bench.keyLine =
      .ok ("ssh-ed25519".toList, putString sshEd25519 ++ putString (List.replicate 32 65)) := by
    decide +kernel
  rw [hgood] at hsub
  cases hsub
  have hname : LengthFits (putString sshEd25519 ++ putString (List.replicate 32 65)) 0 := by
    unfold LengthFits
    decide +kernel
  have hfirst : LengthFits (putString sshEd25519 ++ putString (List.replicate 32 65))
      (4 + (Str.bytes "ssh-ed25519".toList).length) := by
    unfold LengthFits
    decide +kernel
  exact ⟨hname, fun _ _ => hfirst, fun _ _ _ hsecond => absurd rfl hsecond.1,
    fun _ _ _ _ hrsa _ => absurd hrsa (by decide)⟩

/-- A declared length near the end of the address space overflows the bounds check. -/
theorem huge_length_halts :
    (Str.bytes Bench.hugeLine).length < 2 ^ 31 ∧
      (parseAuthorizedKey PicoSignet.Bench.base64 Bench.hugeLine).run = .error .overflow := by
  decide +kernel

end PicoSignet.Thumb
