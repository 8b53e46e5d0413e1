/-
  PicoSignet/KeyLine.lean
  =======================
  **The grammar of a submitted key.**

  `KeyLine` says what an `authorized_keys` line is: one line with anything on it, a
  certifiable algorithm name, base64 of the blob, a comment.  `KeyFields` says what
  the blob holds behind the name, algorithm by algorithm.  Neither mentions the
  parser; `parseAuthorizedKey_eq_ok_iff` shows that it accepts these lines and no
  others, and that what it keeps of the blob is all of it.

  A `usize` has no bound in this file.  The bit length of an RSA modulus is a `u32`
  on any machine, so the checked parser of the last part refuses to go on where the
  modulus has `2 ^ 32` bits or more.
-/
import PicoSignet.CertDecode
import PicoSignet.Mpint
import Mathlib.Data.List.TakeWhile

set_option autoImplicit false

namespace PicoSignet

/-! ### Lines and tokens -/

theorem splitOnP_eq (p : Char → Bool) (s : Str) : splitOnP p s = List.splitOnP p s := by
  induction s with
  | nil => rfl
  | cons c rest ih =>
    rw [List.splitOnP_cons_eq_if_modifyHead, ← ih]
    have hne : splitOnP p rest ≠ [] := by
      rw [ih]
      exact List.splitOnP_ne_nil p rest
    rw [splitOnP]
    split
    · rfl
    · cases hpieces : splitOnP p rest with
      | nil => exact absurd hpieces hne
      | cons piece pieces => rfl

/-- **Tokens split at a space.**  The other facts about tokens follow from this one. -/
theorem splitWhitespace_append_cons {c : Char} (hc : isWhitespace c = true) (s t : Str) :
    (s ++ c :: t).splitWhitespace = s.splitWhitespace ++ t.splitWhitespace := by
  unfold Str.splitWhitespace
  rw [splitOnP_eq, List.splitOnP_append_cons s t hc, List.filter_append, ← splitOnP_eq, ← splitOnP_eq]

theorem splitWhitespace_space_append {space : Str} (h : ∀ c ∈ space, isWhitespace c = true) (s : Str) :
    (space ++ s).splitWhitespace = s.splitWhitespace := by
  induction space with
  | nil => rfl
  | cons c rest ih =>
    obtain ⟨hc, hrest⟩ := List.forall_mem_cons.mp h
    exact (splitWhitespace_append_cons hc [] (rest ++ s)).trans (ih hrest)

theorem splitWhitespace_append_space {space : Str} (h : ∀ c ∈ space, isWhitespace c = true) (s : Str) :
    (s ++ space).splitWhitespace = s.splitWhitespace := by
  cases space with
  | nil => rw [List.append_nil]
  | cons c rest =>
    obtain ⟨hc, hrest⟩ := List.forall_mem_cons.mp h
    have hnone := splitWhitespace_space_append hrest []
    rw [List.append_nil] at hnone
    rw [splitWhitespace_append_cons hc, hnone]
    exact List.append_nil _

theorem splitWhitespace_trim (s : Str) : s.trim.splitWhitespace = s.splitWhitespace := by
  have hspace : ∀ t : Str, ∀ c ∈ t.takeWhile isWhitespace, isWhitespace c = true :=
    fun t c hc => List.mem_takeWhile_imp hc
  have hlead := List.takeWhile_append_dropWhile (p := isWhitespace) (l := s)
  have htrail := List.takeWhile_append_dropWhile (p := isWhitespace)
    (l := (s.dropWhile isWhitespace).reverse)
  have hsplit := congrArg List.reverse htrail
  rw [List.reverse_append, List.reverse_reverse] at hsplit
  calc s.trim.splitWhitespace
      = (s.trim ++ ((s.dropWhile isWhitespace).reverse.takeWhile isWhitespace).reverse).splitWhitespace := by
        symm
        apply splitWhitespace_append_space
        intro c hc
        exact hspace _ c (List.mem_reverse.mp hc)
    _ = Str.splitWhitespace (s.dropWhile isWhitespace) := congrArg Str.splitWhitespace hsplit
    _ = Str.splitWhitespace (s.takeWhile isWhitespace ++ s.dropWhile isWhitespace) :=
        (splitWhitespace_space_append (hspace s) _).symm
    _ = s.splitWhitespace := by rw [hlead]

/-- A line break is a space: the tokens of a text are those of its lines. -/
theorem splitWhitespace_lines (s : Str) : s.splitWhitespace = s.lines.flatMap Str.splitWhitespace := by
  have hbehind : ∀ t s : Str, (∀ c ∈ s, (c == '\n') = false) →
      (s ++ t).splitWhitespace = (s ++ t).lines.flatMap Str.splitWhitespace := by
    intro t
    induction t with
    | nil =>
      intro s hs
      unfold Str.lines
      rw [splitOnP_eq, List.append_nil, List.splitOnP_eq_singleton hs]
      exact (List.append_nil _).symm
    | cons c rest ih =>
      intro s hs
      by_cases hc : (c == '\n') = true
      · have hspace : isWhitespace c = true := by
          rw [eq_of_beq hc]
          decide
        have hrest := ih [] (fun _ hmem => by cases hmem)
        unfold Str.lines at hrest ⊢
        rw [splitOnP_eq, List.nil_append] at hrest
        rw [splitWhitespace_append_cons hspace, hrest, splitOnP_eq,
          List.splitOnP_append_cons (p := (· == '\n')) s rest hc, List.splitOnP_eq_singleton hs]
        rfl
      · have happend : s ++ c :: rest = (s ++ [c]) ++ rest := by simp
        rw [happend]
        apply ih
        intro c' hc'
        rcases List.mem_append.mp hc' with hmem | hmem
        · exact hs c' hmem
        · rw [List.mem_singleton.mp hmem]
          exact eq_false_of_ne_true hc
  exact hbehind s [] (fun _ hmem => by cases hmem)

theorem splitWhitespace_of_blank {s : Str} (h : s.trim.isEmpty = true) : s.splitWhitespace = [] := by
  rw [← splitWhitespace_trim, List.isEmpty_iff.mp h]
  rfl

/-- A word is its own token. -/
theorem splitWhitespace_word {w : Str} (h : ∀ c ∈ w, isWhitespace c = false) (hne : w ≠ []) :
    w.splitWhitespace = [w] := by
  unfold Str.splitWhitespace
  rw [splitOnP_eq, List.splitOnP_eq_singleton h, List.filter_cons_of_pos]
  · rfl
  · cases w with
    | nil => exact absurd rfl hne
    | cons c rest => rfl

/-- The lines that say something. -/
def Str.written (s : Str) : List Str := s.lines.filter fun l => !l.trim.isEmpty

theorem splitWhitespace_written (s : Str) :
    s.splitWhitespace = s.written.flatMap Str.splitWhitespace := by
  rw [splitWhitespace_lines]
  unfold Str.written
  induction s.lines with
  | nil => rfl
  | cons line rest ih =>
    rw [List.flatMap_cons, ih]
    by_cases hblank : line.trim.isEmpty = true
    · rw [splitWhitespace_of_blank hblank, List.nil_append, List.filter_cons_of_neg]
      simp [hblank]
    · rw [List.filter_cons_of_pos, List.flatMap_cons]
      simp [hblank]

/-! ### The grammar -/

/-- An uncompressed point of the curve, of the curve's length. -/
structure IsPoint (pointLen : Nat) (pointOk : Octets → Bool) (q : Octets) : Prop where
  length : q.length = pointLen
  uncompressed : q.head? = some 0x04
  valid : pointOk q = true

/-- The fields behind an algorithm name, and the kind of key they make. -/
inductive KeyFields (P : Prims) : String → Octets → KeyKind → Prop where
  | ed25519 {key : Octets} (length : key.length = 32) :
      KeyFields P "ssh-ed25519" (putString key) .ed25519
  | rsa {e n : Nat} {eBytes nBytes : Octets} (exponent : IsMpint eBytes e) (odd : e % 2 = 1)
      (large : 3 ≤ e) (word : e < 2 ^ 64) (modulus : IsMpint nBytes n) (positive : 1 ≤ n)
      (framed : nBytes.length < 2 ^ 32) :
      KeyFields P "ssh-rsa" (putString eBytes ++ putString nBytes) (.rsa n.size)
  | ecdsaP256 {q : Octets} (point : IsPoint 65 P.p256Ok q) :
      KeyFields P "ecdsa-sha2-nistp256"
        (putString (Str.bytes "nistp256".toList) ++ putString q) .ecdsaP256
  | ecdsaP384 {q : Octets} (point : IsPoint 97 P.p384Ok q) :
      KeyFields P "ecdsa-sha2-nistp384"
        (putString (Str.bytes "nistp384".toList) ++ putString q) .ecdsaP384
  | ecdsaP521 {q : Octets} (point : IsPoint 133 P.p521Ok q) :
      KeyFields P "ecdsa-sha2-nistp521"
        (putString (Str.bytes "nistp521".toList) ++ putString q) .ecdsaP521

/-- An `authorized_keys` line and the blob it carries. -/
structure KeyLine (P : Prims) (input algo : Str) (blob : Octets) (kind : KeyKind) : Prop where
  text : ∃ line blobB64 comment, input.written = [line] ∧
    line.splitWhitespace = algo :: blobB64 :: comment ∧ P.b64Decode (Str.bytes blobB64) = some blob
  fields : ∃ body, blob = putString algo.bytes ++ body ∧ KeyFields P (String.ofList algo) body kind

section

variable {P : Prims}

/-! ### The text of the line -/

theorem submits_iff {input algo : Str} {blob : Octets} : Submits P input algo blob ↔
    (certAlgoFor (String.ofList algo)).isSome ∧
      ∃ line blobB64 comment, input.written = [line] ∧
        line.splitWhitespace = algo :: blobB64 :: comment ∧
        P.b64Decode (Str.bytes blobB64) = some blob := by
  constructor
  · intro h
    obtain ⟨hone, hcert, blobB64, comment, htokens, hdecode⟩ := h
    rw [splitWhitespace_trim, splitWhitespace_written] at htokens
    change input.written.length ≤ 1 at hone
    refine ⟨hcert, ?_⟩
    cases hwritten : input.written with
    | nil =>
      rw [hwritten] at htokens
      cases htokens
    | cons line rest =>
      rw [hwritten, List.length_cons] at hone
      have hrest : rest = [] := List.length_eq_zero_iff.mp (by omega)
      rw [hwritten, hrest, List.flatMap_singleton] at htokens
      exact ⟨line, blobB64, comment, by rw [hrest], htokens, hdecode⟩
  · intro h
    obtain ⟨hcert, line, blobB64, comment, hwritten, htokens, hdecode⟩ := h
    refine ⟨?_, hcert, blobB64, comment, ?_, hdecode⟩
    · change input.written.length ≤ 1
      rw [hwritten]
      exact le_rfl
    · rw [splitWhitespace_trim, splitWhitespace_written, hwritten, List.flatMap_singleton, htokens]

/-! ### The fields of the blob -/

/-- The bytes ahead of the cursor. -/
def Reader.rest (r : Reader) : Octets := r.buf.drop r.pos

theorem isEmpty_iff (r : Reader) : r.isEmpty = true ↔ r.rest = [] := by
  unfold Reader.isEmpty Reader.rest
  simp

theorem readString_iff {r : Reader} {s tail : Octets} :
    (∃ r', r.readString = .ok (s, r') ∧ r'.rest = tail) ↔
      s.length < 2 ^ 32 ∧ r.rest = putString s ++ tail := by
  constructor
  · intro h
    obtain ⟨r', hread, rfl⟩ := h
    exact readString_ok_split hread
  · intro h
    obtain ⟨hlen, hrest⟩ := h
    have hread : r.readString = .ok (s, { r with pos := r.pos + 4 + s.length }) :=
      readString_ok_iff.mpr ⟨hlen, rfl, tail, hrest⟩
    have hsplit := (readString_ok_split hread).2
    refine ⟨_, hread, ?_⟩
    exact List.append_cancel_left (hsplit.symm.trans hrest)

theorem bind_eq_ok_iff {ε α β : Type} {x : Except ε α} {f : α → Except ε β} {b : β} :
    x >>= f = .ok b ↔ ∃ a, x = .ok a ∧ f a = .ok b := by
  constructor
  · exact bind_eq_ok
  · intro h
    obtain ⟨a, rfl, hf⟩ := h
    exact hf

theorem finish_eq_ok_iff {x : KeyKind × Reader} {kind : KeyKind} :
    finish x = .ok kind ↔ x.1 = kind ∧ x.2.rest = [] := by
  unfold finish
  rw [← isEmpty_iff]
  cases x.2.isEmpty <;> simp

/-- The last string of a blob. -/
theorem read_last {r : Reader} {s : Octets} :
    (∃ r', r.readString = .ok (s, r') ∧ r'.rest = []) ↔ s.length < 2 ^ 32 ∧ r.rest = putString s := by
  rw [readString_iff, List.append_nil]

/-- The last two strings of a blob. -/
theorem read_last_two {r : Reader} {s t : Octets} :
    (∃ r₁ r', r.readString = .ok (s, r₁) ∧ r₁.readString = .ok (t, r') ∧ r'.rest = []) ↔
      (s.length < 2 ^ 32 ∧ t.length < 2 ^ 32) ∧ r.rest = putString s ++ putString t := by
  constructor
  · intro h
    obtain ⟨r₁, r', hs, ht, hend⟩ := h
    obtain ⟨hslen, hrest⟩ := readString_iff.mp ⟨r₁, hs, rfl⟩
    obtain ⟨htlen, hlast⟩ := read_last.mp ⟨r', ht, hend⟩
    rw [hlast] at hrest
    exact ⟨⟨hslen, htlen⟩, hrest⟩
  · intro h
    obtain ⟨⟨hslen, htlen⟩, hrest⟩ := h
    obtain ⟨r₁, hs, hr₁⟩ := readString_iff.mpr ⟨hslen, hrest⟩
    obtain ⟨r', ht, hend⟩ := read_last.mpr ⟨htlen, hr₁⟩
    exact ⟨r₁, r', hs, ht, hend⟩

theorem ed25519Arm_eq_ok_iff {r r' : Reader} {kind : KeyKind} :
    ed25519Arm r = .ok (kind, r') ↔
      ∃ key, r.readString = .ok (key, r') ∧ key.length = 32 ∧ .ed25519 = kind := by
  unfold ed25519Arm
  rw [bind_eq_ok_iff]
  constructor
  · intro h
    obtain ⟨pk, hread, h⟩ := h
    split at h
    · cases h
    · rename_i hlen
      cases h
      exact ⟨pk.1, hread, not_not.mp hlen, rfl⟩
  · intro h
    obtain ⟨key, hread, hlen, rfl⟩ := h
    refine ⟨(key, r'), hread, ?_⟩
    exact if_neg (not_not.mpr hlen)

/-- The exponents the RSA arm goes on with. -/
theorem goodExponent_iff {bytes : Octets} : Thumb.GoodExponent bytes ↔
    ∃ e : Nat, IsMpint bytes e ∧ e % 2 = 1 ∧ 3 ≤ e ∧ e < 2 ^ 64 := by
  have hodd : ∀ v : UInt64, ¬ (v < 3 || v % 2 == 0) = true ↔ v.toNat % 2 = 1 ∧ 3 ≤ v.toNat := by
    intro v
    rw [Bool.or_eq_true, decide_eq_true_iff, beq_iff_eq, UInt64.lt_iff_toNat_lt, ← UInt64.toNat_inj,
      UInt64.toNat_mod]
    change ¬ (v.toNat < 3 ∨ v.toNat % 2 = 0) ↔ _
    omega
  constructor
  · intro h
    obtain ⟨v, hv, hgood⟩ := h
    obtain ⟨m, hmag, hlt, heq⟩ := positiveMpintU64_eq_some_iff.mp hv
    obtain ⟨hmod, hlarge⟩ := (hodd v).mp hgood
    rw [heq] at hmod hlarge
    exact ⟨beNat m, isMpint_of_magnitude hmag, hmod, hlarge, hlt⟩
  · intro h
    obtain ⟨e, hmpint, hmod, hlarge, hlt⟩ := h
    obtain ⟨m, hmag, rfl⟩ := hmpint.magnitude (by omega)
    have hword : (UInt64.ofNat (beNat m)).toNat = beNat m := UInt64.toNat_ofNat_of_lt' hlt
    refine ⟨_, positiveMpintU64_eq_some_iff.mpr ⟨m, hmag, hlt, hword⟩, (hodd _).mpr ?_⟩
    rw [hword]
    exact ⟨hmod, hlarge⟩

theorem rsaArm_eq_ok_iff {r r' : Reader} {kind : KeyKind} :
    rsaArm r = .ok (kind, r') ↔
      ∃ e n bits r₁, r.readString = .ok (e, r₁) ∧ r₁.readString = .ok (n, r') ∧
        Thumb.GoodExponent e ∧ positiveMpintBitLen n = some bits ∧ .rsa bits = kind := by
  unfold rsaArm
  rw [bind_eq_ok_iff]
  constructor
  · intro h
    obtain ⟨exponent, hexponent, h⟩ := h
    split at h
    · cases h
    rename_i v hv
    split at h
    · cases h
    rename_i hgood
    obtain ⟨modulus, hmodulus, h⟩ := bind_eq_ok h
    split at h
    · cases h
    · rename_i bits hbits
      cases h
      exact ⟨exponent.1, modulus.1, bits, exponent.2, hexponent, hmodulus, ⟨v, hv, hgood⟩, hbits, rfl⟩
  · intro h
    obtain ⟨e, n, bits, r₁, hexponent, hmodulus, ⟨v, hv, hgood⟩, hbits, rfl⟩ := h
    refine ⟨(e, r₁), hexponent, ?_⟩
    dsimp only
    rw [hv]
    dsimp only
    rw [if_neg hgood, bind_eq_ok_iff]
    refine ⟨(n, r'), hmodulus, ?_⟩
    dsimp only
    rw [hbits]

theorem requireUncompressedSec1_eq_ok_iff {q : Octets} {pointLen : Nat} :
    requireUncompressedSec1 q pointLen = .ok () ↔ q.length = pointLen ∧ q.head? = some 0x04 := by
  unfold requireUncompressedSec1
  split
  · rename_i hbad
    simp only [reduceCtorEq, false_iff]
    tauto
  · rename_i hgood
    simp only [true_iff]
    tauto

theorem ecdsaArm_eq_ok_iff {curveName : String} {pointLen : Nat} {pointOk : Octets → Bool}
    {kind kind' : KeyKind} {r r' : Reader} :
    ecdsaArm curveName pointLen pointOk kind r = .ok (kind', r') ↔
      ∃ q r₁, r.readString = .ok (Str.bytes curveName.toList, r₁) ∧ r₁.readString = .ok (q, r') ∧
        IsPoint pointLen pointOk q ∧ kind = kind' := by
  unfold ecdsaArm
  rw [bind_eq_ok_iff]
  constructor
  · intro h
    obtain ⟨⟨curve, r₁⟩, hcurve, h⟩ := h
    obtain ⟨⟨q, r₂⟩, hq, h⟩ := bind_eq_ok h
    dsimp only at h
    split at h
    · cases h
    rename_i hname
    split at h
    · cases h
    rename_i hsec
    split at h
    · cases h
    rename_i hpoint
    cases h
    obtain ⟨hlen, hhead⟩ := requireUncompressedSec1_eq_ok_iff.mp hsec
    rw [not_not.mp hname] at hcurve
    exact ⟨q, r₁, hcurve, hq, ⟨hlen, hhead, by simpa using hpoint⟩, rfl⟩
  · intro h
    obtain ⟨q, r₁, hcurve, hq, ⟨hlen, hhead, hvalid⟩, rfl⟩ := h
    refine ⟨(_, r₁), hcurve, ?_⟩
    rw [bind_eq_ok_iff]
    refine ⟨(q, r'), hq, ?_⟩
    dsimp only
    rw [if_neg (not_not.mpr rfl), requireUncompressedSec1_eq_ok_iff.mpr ⟨hlen, hhead⟩]
    dsimp only
    rw [hvalid]
    rfl

theorem IsMpint.length_lt {bytes : Octets} {n : Nat} (h : IsMpint bytes n) (hn : 1 ≤ n)
    (hlt : n < 2 ^ 64) : bytes.length < 2 ^ 32 := by
  obtain ⟨m, hmag, rfl⟩ := h.magnitude hn
  have hle := length_le_magnitude hmag
  obtain ⟨-, -, b, rest, rfl, hb⟩ := Thumb.magnitude_spec hmag
  have hpow : 256 ^ rest.length < 256 ^ 8 :=
    lt_of_le_of_lt (le_beNat_cons rest hb) (lt_of_lt_of_le hlt (by decide))
  have hrest := (Nat.pow_lt_pow_iff_right (by decide)).mp hpow
  rw [List.length_cons] at hle
  omega

/-! #### The arms, read to the last byte -/

theorem ed25519Arm_finish {r : Reader} {kind : KeyKind} :
    (ed25519Arm r >>= finish) = .ok kind ↔
      ∃ key, key.length = 32 ∧ r.rest = putString key ∧ .ed25519 = kind := by
  rw [bind_eq_ok_iff]
  constructor
  · intro h
    obtain ⟨⟨k, r'⟩, harm, hfinish⟩ := h
    obtain ⟨rfl, hend⟩ := finish_eq_ok_iff.mp hfinish
    obtain ⟨key, hread, hlen, hkind⟩ := ed25519Arm_eq_ok_iff.mp harm
    exact ⟨key, hlen, (read_last.mp ⟨r', hread, hend⟩).2, hkind⟩
  · intro h
    obtain ⟨key, hlen, hrest, rfl⟩ := h
    obtain ⟨r', hread, hend⟩ := read_last.mpr ⟨by omega, hrest⟩
    exact ⟨(.ed25519, r'), ed25519Arm_eq_ok_iff.mpr ⟨key, hread, hlen, rfl⟩,
      finish_eq_ok_iff.mpr ⟨rfl, hend⟩⟩

theorem rsaArm_finish {r : Reader} {kind : KeyKind} :
    (rsaArm r >>= finish) = .ok kind ↔
      ∃ (e n : Nat) (eBytes nBytes : Octets), (IsMpint eBytes e ∧ e % 2 = 1 ∧ 3 ≤ e ∧ e < 2 ^ 64) ∧
        (1 ≤ n ∧ IsMpint nBytes n) ∧ nBytes.length < 2 ^ 32 ∧
        r.rest = putString eBytes ++ putString nBytes ∧ .rsa n.size = kind := by
  rw [bind_eq_ok_iff]
  constructor
  · intro h
    obtain ⟨⟨k, r'⟩, harm, hfinish⟩ := h
    obtain ⟨rfl, hend⟩ := finish_eq_ok_iff.mp hfinish
    obtain ⟨eBytes, nBytes, bits, r₁, hs, ht, hgood, hbits, hkind⟩ := rsaArm_eq_ok_iff.mp harm
    obtain ⟨e, hexponent⟩ := goodExponent_iff.mp hgood
    obtain ⟨m, hmag, rfl⟩ := positiveMpintBitLen_eq_some_iff.mp hbits
    obtain ⟨⟨-, hframed⟩, hrest⟩ := read_last_two.mp ⟨r₁, r', hs, ht, hend⟩
    exact ⟨e, beNat m, eBytes, nBytes, hexponent, isMpint_iff_magnitude.mpr ⟨m, hmag, rfl⟩, hframed,
      hrest, hkind⟩
  · intro h
    obtain ⟨e, n, eBytes, nBytes, hexponent, hmodulus, hframed, hrest, rfl⟩ := h
    have hshort : eBytes.length < 2 ^ 32 :=
      hexponent.1.length_lt (le_trans (by decide) hexponent.2.2.1) hexponent.2.2.2
    obtain ⟨m, hmag, rfl⟩ := isMpint_iff_magnitude.mp hmodulus
    obtain ⟨r₁, r', hs, ht, hend⟩ := read_last_two.mpr ⟨⟨hshort, hframed⟩, hrest⟩
    refine ⟨(.rsa (beNat m).size, r'), rsaArm_eq_ok_iff.mpr ?_, finish_eq_ok_iff.mpr ⟨rfl, hend⟩⟩
    exact ⟨eBytes, nBytes, _, r₁, hs, ht, goodExponent_iff.mpr ⟨e, hexponent⟩,
      positiveMpintBitLen_eq_some_iff.mpr ⟨m, hmag, rfl⟩, rfl⟩

theorem ecdsaArm_finish {curveName : String} {pointLen : Nat} {pointOk : Octets → Bool}
    {ecdsa kind : KeyKind} {r : Reader} (hcurve : (Str.bytes curveName.toList).length < 2 ^ 32)
    (hpoint : pointLen < 2 ^ 32) :
    (ecdsaArm curveName pointLen pointOk ecdsa r >>= finish) = .ok kind ↔
      ∃ q, IsPoint pointLen pointOk q ∧
        r.rest = putString (Str.bytes curveName.toList) ++ putString q ∧ ecdsa = kind := by
  rw [bind_eq_ok_iff]
  constructor
  · intro h
    obtain ⟨⟨k, r'⟩, harm, hfinish⟩ := h
    obtain ⟨rfl, hend⟩ := finish_eq_ok_iff.mp hfinish
    obtain ⟨q, r₁, hs, ht, hq, hkind⟩ := ecdsaArm_eq_ok_iff.mp harm
    exact ⟨q, hq, (read_last_two.mp ⟨r₁, r', hs, ht, hend⟩).2, hkind⟩
  · intro h
    obtain ⟨q, hq, hrest, rfl⟩ := h
    have hqlen : q.length < 2 ^ 32 := by
      rw [hq.length]
      exact hpoint
    obtain ⟨r₁, r', hs, ht, hend⟩ := read_last_two.mpr ⟨⟨hcurve, hqlen⟩, hrest⟩
    exact ⟨(ecdsa, r'), ecdsaArm_eq_ok_iff.mpr ⟨q, r₁, hs, ht, hq, rfl⟩,
      finish_eq_ok_iff.mpr ⟨rfl, hend⟩⟩

theorem parseKeyKind_eq_ok_iff {algo : String} {r : Reader} {kind : KeyKind} :
    parseKeyKind P algo r = .ok kind ↔ KeyFields P algo r.rest kind := by
  rw [parseKeyKind_eq]
  constructor
  · intro h
    unfold keyArm at h
    split at h
    · rename_i hname
      obtain ⟨key, hlen, hrest, rfl⟩ := ed25519Arm_finish.mp h
      rw [hname, hrest]
      exact .ed25519 hlen
    split at h
    · rename_i hname
      obtain ⟨e, n, eBytes, nBytes, ⟨hexponent, hodd, hlarge, hword⟩, ⟨hpositive, hmodulus⟩, hframed,
        hrest, rfl⟩ := rsaArm_finish.mp h
      rw [hname, hrest]
      exact .rsa hexponent hodd hlarge hword hmodulus hpositive hframed
    split at h
    · rename_i hname
      obtain ⟨q, hq, hrest, rfl⟩ := (ecdsaArm_finish (by decide) (by decide)).mp h
      rw [hname, hrest]
      exact .ecdsaP256 hq
    split at h
    · rename_i hname
      obtain ⟨q, hq, hrest, rfl⟩ := (ecdsaArm_finish (by decide) (by decide)).mp h
      rw [hname, hrest]
      exact .ecdsaP384 hq
    split at h
    · rename_i hname
      obtain ⟨q, hq, hrest, rfl⟩ := (ecdsaArm_finish (by decide) (by decide)).mp h
      rw [hname, hrest]
      exact .ecdsaP521 hq
    · cases h
  · intro h
    generalize hrest : r.rest = body at h
    cases h with
    | ed25519 hlen => exact ed25519Arm_finish.mpr ⟨_, hlen, hrest, rfl⟩
    | rsa hexponent hodd hlarge hword hmodulus hpositive hframed =>
      exact rsaArm_finish.mpr ⟨_, _, _, _, ⟨hexponent, hodd, hlarge, hword⟩, ⟨hpositive, hmodulus⟩,
        hframed, hrest, rfl⟩
    | ecdsaP256 hq => exact (ecdsaArm_finish (by decide) (by decide)).mpr ⟨_, hq, hrest, rfl⟩
    | ecdsaP384 hq => exact (ecdsaArm_finish (by decide) (by decide)).mpr ⟨_, hq, hrest, rfl⟩
    | ecdsaP521 hq => exact (ecdsaArm_finish (by decide) (by decide)).mpr ⟨_, hq, hrest, rfl⟩

/-! ### The parser -/

/-- The names of the grammar are the certifiable ones. -/
theorem KeyFields.certifiable {algo : String} {body : Octets} {kind : KeyKind}
    (h : KeyFields P algo body kind) :
    (certAlgoFor algo).isSome ∧ (Str.bytes algo.toList).length < 2 ^ 32 := by
  cases h <;> decide

theorem readKey_eq_ok_iff {algo : Str} {blob : Octets} {pk : ParsedKey} :
    readKey P algo blob = .ok pk ↔
      blob = putString algo.bytes ++ pk.keyBody ∧
        KeyFields P (String.ofList algo) pk.keyBody pk.kind ∧ pk.algo = String.ofList algo ∧
        pk.certAlgo = (certAlgoFor (String.ofList algo)).getD "" := by
  unfold readKey
  rw [bind_eq_ok_iff]
  constructor
  · intro h
    obtain ⟨⟨inner, r⟩, hinner, h⟩ := h
    dsimp only at h
    split at h
    · cases h
    rename_i hname
    obtain ⟨kind, hkind, h⟩ := bind_eq_ok h
    rw [not_not.mp hname] at hinner h
    obtain ⟨-, hr, -⟩ := readString_ok_iff.mp hinner
    have hrest : r.rest = blob.drop (4 + algo.bytes.length) := by
      rw [hr]
      unfold Reader.rest
      rw [Nat.zero_add]
    have hblob := (readString_ok_split hinner).2
    rw [List.drop_zero] at hblob
    cases h
    refine ⟨?_, ?_, rfl, rfl⟩
    · rw [← hrest]
      exact hblob
    · rw [← hrest]
      exact parseKeyKind_eq_ok_iff.mp hkind
  · intro h
    obtain ⟨algo', certAlgo, body, kind⟩ := pk
    obtain ⟨hblob, hfields, rfl, rfl⟩ := h
    dsimp only at hblob hfields
    have hlen := hfields.certifiable.2
    rw [String.toList_ofList] at hlen
    obtain ⟨r, hread, hrest⟩ := (readString_iff (r := ⟨blob, 0⟩)).mpr ⟨hlen, hblob⟩
    refine ⟨(algo.bytes, r), hread, ?_⟩
    dsimp only
    rw [if_neg (not_not.mpr rfl), bind_eq_ok_iff]
    refine ⟨kind, parseKeyKind_eq_ok_iff.mpr (hrest ▸ hfields), ?_⟩
    have hbody : blob.drop (4 + algo.bytes.length) = body := by
      rw [hblob, ← length_putString]
      exact List.drop_left
    rw [hbody]

/-- The parser accepts the lines of the grammar, and what it returns is read off the line. -/
theorem parseAuthorizedKey_eq_ok_iff {input : Str} {pk : ParsedKey} :
    parseAuthorizedKey P input = .ok pk ↔ ∃ algo : Str, pk.algo = String.ofList algo ∧
      pk.certAlgo = (certAlgoFor pk.algo).getD "" ∧
      KeyLine P input algo (putString algo.bytes ++ pk.keyBody) pk.kind := by
  rw [parseAuthorizedKey_eq, bind_eq_ok_iff]
  constructor
  · intro h
    obtain ⟨⟨algo, blob⟩, hsub, hread⟩ := h
    obtain ⟨-, htext⟩ := submits_iff.mp ((submitted_ok_iff P).mp hsub)
    dsimp only at hread
    obtain ⟨rfl, hfields, halgo, hcert⟩ := readKey_eq_ok_iff.mp hread
    exact ⟨algo, halgo, halgo ▸ hcert, htext, pk.keyBody, rfl, hfields⟩
  · intro h
    obtain ⟨algo, halgo, hcert, htext, body, hblob, hfields⟩ := h
    obtain rfl := List.append_cancel_left hblob
    have hsub := submits_iff.mpr ⟨hfields.certifiable.1, htext⟩
    exact ⟨(algo, _), (submitted_ok_iff P).mpr hsub,
      readKey_eq_ok_iff.mpr ⟨rfl, hfields, halgo, halgo ▸ hcert⟩⟩

/-- A text is a key line in one way. -/
theorem KeyLine.unique {input algo algo' : Str} {blob blob' : Octets} {kind kind' : KeyKind}
    (h : KeyLine P input algo blob kind) (h' : KeyLine P input algo' blob' kind') :
    algo = algo' ∧ blob = blob' := by
  obtain ⟨line, blobB64, comment, hwritten, htokens, hdecode⟩ := h.text
  obtain ⟨line', blobB64', comment', hwritten', htokens', hdecode'⟩ := h'.text
  rw [hwritten] at hwritten'
  have hline := List.head_eq_of_cons_eq hwritten'
  rw [← hline, htokens, List.cons.injEq, List.cons.injEq] at htokens'
  obtain ⟨halgo, hblob, -⟩ := htokens'
  rw [← hblob, hdecode, Option.some.injEq] at hdecode'
  exact ⟨halgo, hdecode'⟩

end

/-! ### With a `usize` of any size -/

/-- What `KeyKind` can hold: the bits of an RSA key are a `u32`. -/
def KeyKind.InWord : KeyKind → Prop
  | .rsa bits => bits < 2 ^ 32
  | _ => True

namespace Unbounded

open Checked

/-- A step that computes with nothing but `usize`. -/
def lift {α : Type} (x : Except KeyError α) : Prog KeyError α := ExceptT.mk (.ok x)

/-- The RSA arm of `parse_key_kind`. -/
def parseRsa (r : Reader) : Prog KeyError (KeyKind × Reader) := do
  let (eBytes, r) ← lift r.readString
  match ← Thumb.positiveMpintU64 eBytes with
  | none => fail (.rejected "malformed RSA public exponent")
  | some e =>
    if e < 3 || e % 2 == 0 then fail (.rejected "RSA public exponent must be an odd integer >= 3")
    else do
      let (n, r) ← lift r.readString
      match ← Thumb.positiveMpintBitLen n with
      | none => fail (.rejected "malformed RSA modulus")
      | some bits => pure (.rsa bits, r)

section

variable (P : Prims)

/-- The match in `parse_key_kind`; the other arms compare lengths and bytes only. -/
def parseFields (algo : String) (r : Reader) : Prog KeyError (KeyKind × Reader) :=
  if algo = "ssh-rsa" then parseRsa r else lift (keyArm P algo r)

/-- `parse_key_kind`. -/
def parseKeyKind (algo : String) (r : Reader) : Prog KeyError KeyKind := do
  let (kind, r) ← parseFields P algo r
  if !r.isEmpty then fail .trailing
  else pure kind

/-- `parse_authorized_key` from the decoded blob on. -/
def readKey (algoTok : Str) (blob : Octets) : Prog KeyError ParsedKey := do
  let (innerAlgo, r) ← lift (Reader.readString ⟨blob, 0⟩)
  if innerAlgo ≠ Str.bytes algoTok then fail .parse
  else do
    let keyBody ← slice blob (4 + innerAlgo.length) blob.length
    let kind ← parseKeyKind P (String.ofList algoTok) r
    let certAlgo ← expect (certAlgoFor (String.ofList algoTok))
    pure { algo := String.ofList algoTok, certAlgo, keyBody, kind }

/-- `parse_authorized_key`. -/
def parseAuthorizedKey (input : Str) : Prog KeyError ParsedKey := do
  let (algoTok, blob) ← lift (submitted P input)
  readKey P algoTok blob

end

/-! #### Acceptance, step by step -/

section

variable {α β : Type}

/-- The program comes to a value. -/
def Accepts (x : Prog KeyError α) (a : α) : Prop := x.run = .ok (.ok a)

theorem accepts_bind {x : Prog KeyError α} {f : α → Prog KeyError β} {b : β} :
    Accepts (x >>= f) b ↔ ∃ a, Accepts x a ∧ Accepts (f a) b := by
  unfold Accepts
  constructor
  · intro h
    rw [ExceptT.run_bind] at h
    cases hx : x.run with
    | error s =>
      rw [hx] at h
      cases h
    | ok r =>
      rw [hx] at h
      cases r with
      | error e => cases h
      | ok a => exact ⟨a, rfl, h⟩
  · intro h
    obtain ⟨a, hx, hf⟩ := h
    rw [run_bind_ok hx, hf]

theorem accepts_lift {x : Except KeyError α} {a : α} : Accepts (lift x) a ↔ x = .ok a := by
  unfold Accepts lift
  change (Except.ok x : Except Panic _) = .ok (.ok a) ↔ _
  rw [Except.ok.injEq]

theorem accepts_pure {a b : α} : Accepts (pure a : Prog KeyError α) b ↔ a = b := by
  unfold Accepts
  rw [ExceptT.run_pure]
  change (Except.ok (.ok a) : Except Panic (Except KeyError α)) = .ok (.ok b) ↔ _
  rw [Except.ok.injEq, Except.ok.injEq]

theorem not_accepts_fail {e : KeyError} {a : α} : ¬ Accepts (fail e : Prog KeyError α) a := by
  intro h
  cases h

theorem accepts_of_run {x : Prog KeyError α} {a b : α} (h : x.run = .ok (.ok a)) :
    Accepts x b ↔ a = b := by
  unfold Accepts
  rw [h, Except.ok.injEq, Except.ok.injEq]

end

/-- The bit length is returned where it is a `u32`. -/
theorem accepts_positiveMpintBitLen {bytes : Octets} {bits : Nat} (hlen : bytes.length < 2 ^ 32) :
    Accepts (Thumb.positiveMpintBitLen bytes) (some bits) ↔
      positiveMpintBitLen bytes = some bits ∧ bits < 2 ^ 32 := by
  have hfollows := Thumb.positiveMpintBitLen_follows hlen
  have hbits : positiveMpintBitLen bytes = some bits → (Thumb.BitsFit bytes ↔ bits < 2 ^ 32) := by
    intro hsome
    obtain ⟨m, hmag, rfl⟩ := positiveMpintBitLen_eq_some_iff.mp hsome
    unfold Thumb.BitsFit
    rw [← (Thumb.magnitude_spec hmag).1, hmag]
    exact ⟨fun h => h rfl, fun h _ => h⟩
  constructor
  · intro h
    have hsome := Except.ok.inj (hfollows.eq_of_run h)
    exact ⟨hsome.symm, (hbits hsome.symm).mp (hfollows.returns_iff.mp ⟨_, h⟩)⟩
  · intro h
    obtain ⟨hsome, hword⟩ := h
    exact (accepts_of_run (hfollows.returns ((hbits hsome).mpr hword))).mpr hsome

theorem accepts_parseRsa {r r' : Reader} {kind : KeyKind} :
    Accepts (parseRsa r) (kind, r') ↔ rsaArm r = .ok (kind, r') ∧ kind.InWord := by
  rw [rsaArm_eq_ok_iff]
  unfold parseRsa
  rw [accepts_bind]
  constructor
  · intro h
    obtain ⟨⟨eBytes, r₁⟩, hexponent, h⟩ := h
    obtain ⟨exponent, he, h⟩ := accepts_bind.mp h
    rw [accepts_of_run (Thumb.positiveMpintU64_run eBytes)] at he
    cases exponent with
    | none => exact absurd h not_accepts_fail
    | some e =>
      dsimp only at h
      split at h
      · exact absurd h not_accepts_fail
      rename_i hgood
      obtain ⟨⟨nBytes, r₂⟩, hmodulus, h⟩ := accepts_bind.mp h
      obtain ⟨modulus, hbits, h⟩ := accepts_bind.mp h
      rw [accepts_lift] at hexponent hmodulus
      cases modulus with
      | none => exact absurd h not_accepts_fail
      | some bits =>
        obtain ⟨hlen, -⟩ := readString_ok_iff.mp hmodulus
        obtain ⟨hsome, hword⟩ := (accepts_positiveMpintBitLen hlen).mp hbits
        have hresult := accepts_pure.mp h
        cases hresult
        exact ⟨⟨eBytes, nBytes, bits, r₁, hexponent, hmodulus, ⟨e, he, hgood⟩, hsome, rfl⟩, hword⟩
  · intro h
    obtain ⟨⟨eBytes, nBytes, bits, r₁, hexponent, hmodulus, ⟨e, he, hgood⟩, hsome, rfl⟩, hword⟩ := h
    obtain ⟨hlen, -⟩ := readString_ok_iff.mp hmodulus
    refine ⟨(eBytes, r₁), accepts_lift.mpr hexponent, accepts_bind.mpr ⟨some e, ?_, ?_⟩⟩
    · exact (accepts_of_run (Thumb.positiveMpintU64_run eBytes)).mpr he
    dsimp only
    rw [if_neg hgood, accepts_bind]
    refine ⟨(nBytes, r'), accepts_lift.mpr hmodulus, accepts_bind.mpr ⟨some bits, ?_, rfl⟩⟩
    exact (accepts_positiveMpintBitLen hlen).mpr ⟨hsome, hword⟩

section

variable {P : Prims}

/-- Only the RSA arm has a number to fit into a word. -/
theorem inWord_of_keyArm {algo : String} {r r' : Reader} {kind : KeyKind} (hrsa : algo ≠ "ssh-rsa")
    (h : keyArm P algo r = .ok (kind, r')) : kind.InWord := by
  unfold keyArm at h
  rw [if_neg hrsa] at h
  split at h
  · obtain ⟨_, _, _, rfl⟩ := ed25519Arm_eq_ok_iff.mp h
    trivial
  split at h
  · obtain ⟨_, _, _, _, _, rfl⟩ := ecdsaArm_eq_ok_iff.mp h
    trivial
  split at h
  · obtain ⟨_, _, _, _, _, rfl⟩ := ecdsaArm_eq_ok_iff.mp h
    trivial
  split at h
  · obtain ⟨_, _, _, _, _, rfl⟩ := ecdsaArm_eq_ok_iff.mp h
    trivial
  · cases h

theorem accepts_parseFields {algo : String} {r r' : Reader} {kind : KeyKind} :
    Accepts (parseFields P algo r) (kind, r') ↔ keyArm P algo r = .ok (kind, r') ∧ kind.InWord := by
  unfold parseFields
  by_cases hrsa : algo = "ssh-rsa"
  · have hname : keyArm P algo r = rsaArm r := by
      rw [hrsa]
      rfl
    rw [if_pos hrsa, hname]
    exact accepts_parseRsa
  · rw [if_neg hrsa, accepts_lift]
    exact ⟨fun h => ⟨h, inWord_of_keyArm hrsa h⟩, fun h => h.1⟩

theorem accepts_parseKeyKind {algo : String} {r : Reader} {kind : KeyKind} :
    Accepts (parseKeyKind P algo r) kind ↔
      PicoSignet.parseKeyKind P algo r = .ok kind ∧ kind.InWord := by
  have hend : ∀ {k : KeyKind} {r' : Reader},
      Accepts (if !r'.isEmpty then fail .trailing else pure k) kind ↔ finish (k, r') = .ok kind := by
    intro k r'
    unfold finish
    dsimp only
    split
    · exact ⟨fun h => absurd h not_accepts_fail, fun h => by cases h⟩
    · rw [accepts_pure, Except.ok.injEq]
  rw [parseKeyKind_eq, bind_eq_ok_iff]
  unfold parseKeyKind
  rw [accepts_bind]
  constructor
  · intro h
    obtain ⟨⟨k, r'⟩, hfields, hfinish⟩ := h
    obtain ⟨hkey, hword⟩ := accepts_parseFields.mp hfields
    have hfinish := hend.mp hfinish
    obtain ⟨rfl, -⟩ := finish_eq_ok_iff.mp hfinish
    exact ⟨⟨(k, r'), hkey, hfinish⟩, hword⟩
  · intro h
    obtain ⟨⟨⟨k, r'⟩, hkey, hfinish⟩, hword⟩ := h
    obtain ⟨rfl, -⟩ := finish_eq_ok_iff.mp hfinish
    exact ⟨(k, r'), accepts_parseFields.mpr ⟨hkey, hword⟩, hend.mpr hfinish⟩

theorem accepts_readKey {algo : Str} {blob : Octets} {pk : ParsedKey}
    (hcert : (certAlgoFor (String.ofList algo)).isSome) :
    Accepts (readKey P algo blob) pk ↔ PicoSignet.readKey P algo blob = .ok pk ∧ pk.kind.InWord := by
  obtain ⟨certAlgo, hcert⟩ := Option.isSome_iff_exists.mp hcert
  -- the name lies within the blob, and the slice behind it is the rest
  have hbody : ∀ {inner : Octets} {r : Reader}, Reader.readString ⟨blob, 0⟩ = .ok (inner, r) →
      (slice blob (4 + inner.length) blob.length : Prog KeyError Octets).run =
        .ok (.ok (blob.drop (4 + inner.length))) := by
    intro inner r hread
    obtain ⟨-, -, rest, hblob⟩ := readString_ok_iff.mp hread
    have hlen := congrArg List.length hblob
    rw [List.drop_zero, List.length_append, length_putString] at hlen
    dsimp only at hlen
    rw [slice_run (by omega) le_rfl, List.take_of_length_le (by rw [List.length_drop])]
  unfold readKey PicoSignet.readKey
  rw [accepts_bind, bind_eq_ok_iff, hcert]
  constructor
  · intro h
    obtain ⟨⟨inner, r⟩, hread, h⟩ := h
    rw [accepts_lift] at hread
    dsimp only at h
    split at h
    · exact absurd h not_accepts_fail
    rename_i hname
    obtain ⟨body, hslice, h⟩ := accepts_bind.mp h
    obtain ⟨kind, hkind, h⟩ := accepts_bind.mp h
    obtain ⟨hkind, hword⟩ := accepts_parseKeyKind.mp hkind
    obtain rfl := (accepts_of_run (hbody hread)).mp hslice
    obtain rfl := accepts_pure.mp h
    refine ⟨⟨(inner, r), hread, ?_⟩, hword⟩
    dsimp only
    rw [if_neg hname, hkind]
    rfl
  · intro h
    obtain ⟨⟨⟨inner, r⟩, hread, h⟩, hword⟩ := h
    dsimp only at h
    split at h
    · cases h
    rename_i hname
    obtain ⟨kind, hkind, h⟩ := bind_eq_ok h
    cases h
    refine ⟨(inner, r), accepts_lift.mpr hread, ?_⟩
    dsimp only
    rw [if_neg hname, accepts_bind]
    refine ⟨_, hbody hread, accepts_bind.mpr ⟨kind, ?_, rfl⟩⟩
    exact accepts_parseKeyKind.mpr ⟨hkind, hword⟩

theorem accepts_parseAuthorizedKey {input : Str} {pk : ParsedKey} :
    Accepts (parseAuthorizedKey P input) pk ↔
      PicoSignet.parseAuthorizedKey P input = .ok pk ∧ pk.kind.InWord := by
  unfold parseAuthorizedKey
  rw [parseAuthorizedKey_eq, accepts_bind, bind_eq_ok_iff]
  have hcert : ∀ {algo : Str} {blob : Octets}, submitted P input = .ok (algo, blob) →
      (certAlgoFor (String.ofList algo)).isSome :=
    fun hsub => ((submitted_ok_iff P).mp hsub).certifiable
  constructor
  · intro h
    obtain ⟨⟨algo, blob⟩, hsub, h⟩ := h
    rw [accepts_lift] at hsub
    obtain ⟨hkey, hword⟩ := (accepts_readKey (hcert hsub)).mp h
    exact ⟨⟨(algo, blob), hsub, hkey⟩, hword⟩
  · intro h
    obtain ⟨⟨⟨algo, blob⟩, hsub, hkey⟩, hword⟩ := h
    exact ⟨(algo, blob), accepts_lift.mpr hsub, (accepts_readKey (hcert hsub)).mpr ⟨hkey, hword⟩⟩

end

/-- **A submitted key is accepted exactly where it is a key line** whose modulus, for an RSA
    key, has fewer than `2 ^ 32` bits; its name and the body kept of it are the whole blob. -/
theorem key_lines_accepted (P : Prims) (input : Str) :
    ((∃ pk, (parseAuthorizedKey P input).run = .ok (.ok pk)) ↔
      ∃ algo blob kind, KeyLine P input algo blob kind ∧ kind.InWord) ∧
    ∀ pk algo blob kind, (parseAuthorizedKey P input).run = .ok (.ok pk) →
      KeyLine P input algo blob kind → putString algo.bytes ++ pk.keyBody = blob := by
  constructor
  · constructor
    · intro h
      obtain ⟨pk, hrun⟩ := h
      obtain ⟨hkey, hword⟩ := accepts_parseAuthorizedKey.mp hrun
      obtain ⟨algo, -, -, hline⟩ := parseAuthorizedKey_eq_ok_iff.mp hkey
      exact ⟨algo, _, pk.kind, hline, hword⟩
    · intro h
      obtain ⟨algo, blob, kind, hline, hword⟩ := h
      obtain ⟨body, rfl, -⟩ := hline.fields
      refine ⟨⟨String.ofList algo, (certAlgoFor (String.ofList algo)).getD "", body, kind⟩, ?_⟩
      exact accepts_parseAuthorizedKey.mpr
        ⟨parseAuthorizedKey_eq_ok_iff.mpr ⟨algo, rfl, rfl, hline⟩, hword⟩
  · intro pk algo blob kind hrun hline
    obtain ⟨hkey, -⟩ := accepts_parseAuthorizedKey.mp hrun
    obtain ⟨algo', -, -, hline'⟩ := parseAuthorizedKey_eq_ok_iff.mp hkey
    obtain ⟨rfl, rfl⟩ := hline.unique hline'
    rfl

end Unbounded

/-! ### A modulus whose bit length is no `u32` -/

namespace Bench

/-- The blob of an RSA key with exponent 3 and modulus `256 ^ zeros`. -/
def rsaBlob (zeros : Nat) : Octets :=
  putString (Str.bytes "ssh-rsa".toList) ++ (putString [3] ++ putString (powerBytes zeros))

/-- The blob behind its algorithm name. -/
def rsaLine (zeros : Nat) : Str :=
  "ssh-rsa".toList ++ ' ' :: (Base64.encodeText (rsaBlob zeros)).toList

theorem keyLine_rsaLine (zeros : Nat) (h : zeros + 1 < 2 ^ 32) :
    KeyLine base64 (rsaLine zeros) "ssh-rsa".toList (rsaBlob zeros) (.rsa (zeros * 8 + 1)) := by
  have hsymbols : ∀ c ∈ (Base64.encodeText (rsaBlob zeros)).toList, isWhitespace c = false := by
    have hall : ∀ k : Fin 64, isWhitespace (Char.ofNat (Base64.symbol k.val).toNat) = false := by
      decide
    unfold Base64.encodeText
    rw [String.toList_ofList, List.forall_mem_map]
    exact Base64.forall_mem_encode (fun n hn => hall ⟨n, hn⟩) (by decide) _
  have hname : ∀ c ∈ "ssh-rsa".toList, isWhitespace c = false := by
    have hall : ("ssh-rsa".toList.all fun c => !isWhitespace c) = true := rfl
    intro c hc
    simpa using List.all_eq_true.mp hall c hc
  have hdecode : base64.b64Decode (Str.bytes (Base64.encodeText (rsaBlob zeros)).toList) =
      some (rsaBlob zeros) := by
    change Base64.decode (Str.bytes (Base64.encodeText (rsaBlob zeros)).toList) = _
    unfold Str.bytes
    rw [Base64.utf8_encodeText, Base64.decode_encode]
  have hfull : (Base64.encodeText (rsaBlob zeros)).toList ≠ [] := by
    intro hnil
    rw [hnil] at hdecode
    cases hdecode
  have htokens : (rsaLine zeros).splitWhitespace =
      ["ssh-rsa".toList, (Base64.encodeText (rsaBlob zeros)).toList] := by
    unfold rsaLine
    rw [splitWhitespace_append_cons (by decide), splitWhitespace_word hname (by decide),
      splitWhitespace_word hsymbols hfull]
    rfl
  have hline : (rsaLine zeros).lines = [rsaLine zeros] := by
    unfold Str.lines
    rw [splitOnP_eq, List.splitOnP_eq_singleton]
    intro c hc
    by_contra hbreak
    rw [Bool.not_eq_false, beq_iff_eq] at hbreak
    rw [hbreak] at hc
    rcases List.mem_append.mp hc with hmem | hmem
    · exact absurd hmem (by decide)
    · rcases List.mem_cons.mp hmem with heq | hmem
      · exact absurd heq (by decide)
      · exact absurd (hsymbols _ hmem) (by decide)
  have hwritten : (rsaLine zeros).written = [rsaLine zeros] := by
    unfold Str.written
    rw [hline, List.filter_cons_of_pos]
    · rfl
    · rw [Bool.not_eq_true', ← Bool.not_eq_true]
      intro hblank
      rw [splitWhitespace_of_blank hblank] at htokens
      cases htokens
  constructor
  · exact ⟨_, _, [], hwritten, htokens, hdecode⟩
  · refine ⟨_, rfl, ?_⟩
    rw [← size_powerBytes]
    have hthree : IsMpint [3] (3 : Nat) := isMpint_of_magnitude (m := [3]) rfl
    apply KeyFields.rsa hthree (by decide) le_rfl (by decide) (isMpint_powerBytes zeros)
    · exact Nat.pos_of_ne_zero (pow_ne_zero _ (by decide))
    · unfold powerBytes
      rw [List.length_cons, List.length_replicate]
      exact h

end Bench

/-- The modulus `256 ^ (2 ^ 29)` makes a key line that is not accepted: counting its bits
    stops the device. -/
theorem huge_key_line_stops :
    (∃ algo blob kind, KeyLine Bench.base64 (Bench.rsaLine (2 ^ 29)) algo blob kind) ∧
      ¬ ∃ pk, (Unbounded.parseAuthorizedKey Bench.base64 (Bench.rsaLine (2 ^ 29))).run = .ok (.ok pk) := by
  have hline := Bench.keyLine_rsaLine (2 ^ 29) (by decide)
  refine ⟨⟨_, _, _, hline⟩, ?_⟩
  intro h
  obtain ⟨pk, hrun⟩ := h
  obtain ⟨hkey, hword⟩ := Unbounded.accepts_parseAuthorizedKey.mp hrun
  obtain ⟨body, hblob, -⟩ := hline.fields
  rw [hblob] at hline
  have hparsed : parseAuthorizedKey Bench.base64 (Bench.rsaLine (2 ^ 29)) =
      .ok ⟨"ssh-rsa", "ssh-rsa-cert-v01@openssh.com", body, .rsa (2 ^ 29 * 8 + 1)⟩ :=
    parseAuthorizedKey_eq_ok_iff.mpr ⟨"ssh-rsa".toList, rfl, rfl, hline⟩
  rw [hkey] at hparsed
  rw [Except.ok.inj hparsed] at hword
  change 2 ^ 29 * 8 + 1 < 2 ^ 32 at hword
  omega

end PicoSignet
