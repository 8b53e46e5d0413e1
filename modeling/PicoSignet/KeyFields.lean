/-
  PicoSignet/KeyFields.lean
  =========================
  **What the key parser reads.**

  The functions of `SshWire.lean` that parse a submitted key are written with the
  early returns of the source.  Here the cursor is tied to the wire grammar
  (`readString_ok_iff`: a successful read has found a `putString` of what it
  returns), and each parser gets an equation in which its reads stand one behind
  the other.
-/
import PicoSignet.Base64
import PicoSignet.Device
import PicoSignet.Wire
import Mathlib.Data.List.Flatten

set_option autoImplicit false

namespace PicoSignet

/-! ### The cursor -/

theorem putString_eq_frame (s : Octets) : putString s = Wire.frame s := rfl

@[simp] theorem length_putString (s : Octets) : (putString s).length = 4 + s.length :=
  Wire.length_frame s

/-- The cursor reads what the grammar reads from its position on. -/
theorem readString_eq (r : Reader) :
    r.readString = match Wire.string (r.buf.drop r.pos) with
      | some (s, _) => .ok (s, { r with pos := r.pos + 4 + s.length })
      | none => .error .parse := by
  rw [Wire.string_eq]
  unfold Reader.readString Wire.bytes
  by_cases hprefix : r.buf.length < r.pos + 4
  · have hshort : (r.buf.drop r.pos).length < 4 := by
      rw [List.length_drop]
      omega
    rw [if_pos hprefix, if_pos hshort]
    rfl
  · have hlong : ¬ (r.buf.drop r.pos).length < 4 := by
      rw [List.length_drop]
      omega
    rw [if_neg hprefix, if_neg hlong, Option.bind_some]
    dsimp only
    rw [List.drop_drop]
    generalize beNat ((r.buf.drop r.pos).take 4) = len
    by_cases hbody : r.buf.length < r.pos + 4 + len
    · have hshort : (r.buf.drop (r.pos + 4)).length < len := by
        rw [List.length_drop]
        omega
      rw [if_pos hbody, if_pos hshort]
    · have hfits : ¬ (r.buf.drop (r.pos + 4)).length < len := by
        rw [List.length_drop]
        omega
      have hlen : ((r.buf.drop (r.pos + 4)).take len).length = len := by
        rw [List.length_take]
        omega
      rw [if_neg hbody, if_neg hfits]
      dsimp only
      rw [hlen]

theorem readString_ok_iff {r r' : Reader} {s : Octets} :
    r.readString = .ok (s, r') ↔
      s.length < 2 ^ 32 ∧ r' = { r with pos := r.pos + 4 + s.length } ∧
        ∃ rest, r.buf.drop r.pos = putString s ++ rest := by
  rw [readString_eq]
  constructor
  · intro h
    split at h
    · rename_i s' rest hread
      cases h
      obtain ⟨hlen, hbytes⟩ := Wire.string_eq_some hread
      exact ⟨hlen, rfl, rest, hbytes⟩
    · cases h
  · intro h
    obtain ⟨hlen, rfl, rest, hbytes⟩ := h
    rw [hbytes, putString_eq_frame, Wire.reads_string hlen rest]

/-- A read takes a string off the bytes ahead of the cursor. -/
theorem readString_ok_split {r r' : Reader} {s : Octets} (h : r.readString = .ok (s, r')) :
    s.length < 2 ^ 32 ∧ r.buf.drop r.pos = putString s ++ r'.buf.drop r'.pos := by
  obtain ⟨hlen, rfl, rest, hbytes⟩ := readString_ok_iff.mp h
  have hrest : r.buf.drop (r.pos + 4 + s.length) = rest := by
    rw [Nat.add_assoc, ← List.drop_drop, hbytes, ← length_putString]
    exact List.drop_left
  refine ⟨hlen, ?_⟩
  rw [hbytes]
  change putString s ++ rest = putString s ++ r.buf.drop (r.pos + 4 + s.length)
  rw [hrest]

/-! ### The arms of `parse_key_kind` -/

def ed25519Arm (r : Reader) : Except KeyError (KeyKind × Reader) :=
  r.readString >>= fun pk =>
    if pk.1.length ≠ 32 then .error (.rejected "malformed ed25519 key") else .ok (.ed25519, pk.2)

def rsaArm (r : Reader) : Except KeyError (KeyKind × Reader) :=
  r.readString >>= fun exponent =>
    match positiveMpintU64 exponent.1 with
    | none => .error (.rejected "malformed RSA public exponent")
    | some e =>
      if e < 3 || e % 2 == 0 then
        .error (.rejected "RSA public exponent must be an odd integer >= 3")
      else
        exponent.2.readString >>= fun modulus =>
          match positiveMpintBitLen modulus.1 with
          | none => .error (.rejected "malformed RSA modulus")
          | some bits => .ok (.rsa bits, modulus.2)

def ecdsaArm (curveName : String) (pointLen : Nat) (pointOk : Octets → Bool) (kind : KeyKind)
    (r : Reader) : Except KeyError (KeyKind × Reader) :=
  r.readString >>= fun curve =>
    curve.2.readString >>= fun q =>
      if curve.1 ≠ Str.bytes curveName.toList then .error (.rejected "mismatched ECDSA curve")
      else
        match requireUncompressedSec1 q.1 pointLen with
        | .error e => .error e
        | .ok () =>
          if !pointOk q.1 then .error (.rejected "invalid ECDSA public point") else .ok (kind, q.2)

section

variable (P : Prims)

/-- The fields an algorithm name announces. -/
def keyArm (algo : String) (r : Reader) : Except KeyError (KeyKind × Reader) :=
  if algo = "ssh-ed25519" then ed25519Arm r
  else if algo = "ssh-rsa" then rsaArm r
  else if algo = "ecdsa-sha2-nistp256" then ecdsaArm "nistp256" 65 P.p256Ok .ecdsaP256 r
  else if algo = "ecdsa-sha2-nistp384" then ecdsaArm "nistp384" 97 P.p384Ok .ecdsaP384 r
  else if algo = "ecdsa-sha2-nistp521" then ecdsaArm "nistp521" 133 P.p521Ok .ecdsaP521 r
  else .error .parse

theorem parseEcdsa_eq (curveName : String) (pointLen : Nat) (pointOk : Octets → Bool)
    (kind : KeyKind) (r : Reader) :
    parseEcdsa curveName pointLen pointOk kind r = ecdsaArm curveName pointLen pointOk kind r := by
  unfold parseEcdsa ecdsaArm
  cases r.readString with
  | error e => rfl
  | ok curve =>
    simp only [bind, Except.bind, pure, Except.pure]
    cases curve.2.readString with
    | error e => rfl
    | ok q =>
      dsimp only
      by_cases hcurve : curve.1 ≠ Str.bytes curveName.toList
      · rw [if_pos hcurve, if_pos hcurve]
      · rw [if_neg hcurve, if_neg hcurve]
        cases requireUncompressedSec1 q.1 pointLen with
        | error e => rfl
        | ok u => rfl

/-- What is left after the fields is refused. -/
def finish (x : KeyKind × Reader) : Except KeyError KeyKind :=
  if !x.2.isEmpty then .error .trailing else .ok x.1

theorem parseKeyKind_eq (algo : String) (r : Reader) :
    parseKeyKind P algo r = keyArm P algo r >>= finish := by
  unfold parseKeyKind keyArm
  simp only [bind, Except.bind, pure, Except.pure, parseEcdsa_eq]
  by_cases hed : algo = "ssh-ed25519"
  · rw [if_pos hed, if_pos hed]
    unfold ed25519Arm finish
    cases r.readString with
    | error e => rfl
    | ok pk =>
      simp only [bind, Except.bind]
      split <;> rfl
  rw [if_neg hed, if_neg hed]
  by_cases hrsa : algo = "ssh-rsa"
  · rw [if_pos hrsa, if_pos hrsa]
    unfold rsaArm finish
    cases r.readString with
    | error e => rfl
    | ok exponent =>
      simp only [bind, Except.bind]
      cases positiveMpintU64 exponent.1 with
      | none => rfl
      | some e =>
        dsimp only
        by_cases hodd : (e < 3 || e % 2 == 0) = true
        · rw [if_pos hodd, if_pos hodd]
        · rw [if_neg hodd, if_neg hodd]
          cases exponent.2.readString with
          | error e => rfl
          | ok modulus =>
            dsimp only
            cases positiveMpintBitLen modulus.1 <;> rfl
  rw [if_neg hrsa, if_neg hrsa]
  split
  · rfl
  split
  · rfl
  split <;> rfl

/-! ### A submitted line -/

/-- The text of a line: the key type it declares and the blob behind it. -/
def submitted (input : Str) : Except KeyError (Str × Octets) :=
  if (input.lines.filter fun l => !l.trim.isEmpty).length > 1 then .error .trailing
  else if input.trim.isEmpty then .error .parse
  else
    match findKeyType 0 input.trim.splitWhitespace with
    | .error e => .error e
    | .ok idx =>
      if idx > 0 then .error .options
      else
        match input.trim.splitWhitespace[idx + 1]? with
        | none => .error .parse
        | some blobB64 =>
          match P.b64Decode (Str.bytes blobB64) with
          | none => .error .parse
          | some blob => .ok (input.trim.splitWhitespace.getD idx [], blob)

/-- The blob: its name repeats the declared type, and fields follow. -/
def readKey (algo : Str) (blob : Octets) : Except KeyError ParsedKey :=
  Reader.readString ⟨blob, 0⟩ >>= fun inner =>
    if inner.1 ≠ Str.bytes algo then .error .parse
    else
      parseKeyKind P (String.ofList algo) inner.2 >>= fun kind =>
        .ok { algo := String.ofList algo, certAlgo := (certAlgoFor (String.ofList algo)).getD "",
              keyBody := blob.drop (4 + inner.1.length), kind }

theorem parseAuthorizedKey_eq (input : Str) :
    parseAuthorizedKey P input = submitted P input >>= fun key => readKey P key.1 key.2 := by
  unfold parseAuthorizedKey submitted
  simp only [bind, Except.bind, pure, Except.pure]
  by_cases hlines : (input.lines.filter fun l => !l.trim.isEmpty).length > 1
  · rw [if_pos hlines, if_pos hlines]
  rw [if_neg hlines, if_neg hlines]
  by_cases hempty : input.trim.isEmpty = true
  · rw [if_pos hempty, if_pos hempty]
  rw [if_neg hempty, if_neg hempty]
  cases findKeyType 0 input.trim.splitWhitespace with
  | error e => rfl
  | ok idx =>
    dsimp only
    by_cases hoptions : idx > 0
    · rw [if_pos hoptions, if_pos hoptions]
    rw [if_neg hoptions, if_neg hoptions]
    cases input.trim.splitWhitespace[idx + 1]? with
    | none => rfl
    | some blobB64 =>
      dsimp only
      cases P.b64Decode (Str.bytes blobB64) with
      | none => rfl
      | some blob =>
        dsimp only
        unfold readKey
        cases Reader.readString ⟨blob, 0⟩ with
        | error e => rfl
        | ok inner =>
          simp only [bind, Except.bind]

theorem findKeyType_ok {i idx : Nat} {tokens : List Str} (h : findKeyType i tokens = .ok idx) :
    i ≤ idx ∧ ∃ t, tokens[idx - i]? = some t ∧ (certAlgoFor (String.ofList t)).isSome := by
  induction tokens generalizing i with
  | nil => cases h
  | cons t rest ih =>
    unfold findKeyType at h
    split at h
    · rename_i hfound
      cases h
      exact ⟨le_rfl, t, by simp, hfound⟩
    · split at h
      · cases h
      · obtain ⟨hle, t', hget, hfound⟩ := ih h
        refine ⟨by omega, t', ?_, hfound⟩
        have hidx : idx - i = idx - (i + 1) + 1 := by omega
        rw [hidx, List.getElem?_cons_succ]
        exact hget

/-- A line that gets as far as its blob: one line, a certifiable type first, base64 second. -/
structure Submits (input algo : Str) (blob : Octets) : Prop where
  oneLine : (input.lines.filter fun l => !l.trim.isEmpty).length ≤ 1
  certifiable : (certAlgoFor (String.ofList algo)).isSome
  tokens : ∃ blobB64 comment, input.trim.splitWhitespace = algo :: blobB64 :: comment ∧
    P.b64Decode (Str.bytes blobB64) = some blob

theorem submitted_ok_iff {input algo : Str} {blob : Octets} :
    submitted P input = .ok (algo, blob) ↔ Submits P input algo blob := by
  constructor
  · intro h
    unfold submitted at h
    split at h
    · cases h
    rename_i hlines
    split at h
    · cases h
    split at h
    · cases h
    rename_i idx hfind
    split at h
    · cases h
    rename_i hzero
    obtain rfl : idx = 0 := by omega
    obtain ⟨-, t, hget, hfound⟩ := findKeyType_ok hfind
    split at h
    · cases h
    rename_i blobB64 hnext
    split at h
    · cases h
    rename_i blob' hdecode
    cases htokens : input.trim.splitWhitespace with
    | nil =>
      rw [htokens] at hget
      cases hget
    | cons first rest =>
      rw [htokens] at hget hnext h
      cases hget
      cases rest with
      | nil => cases hnext
      | cons second comment =>
        cases hnext
        cases h
        exact ⟨Nat.le_of_not_lt hlines, hfound, blobB64, comment, htokens, hdecode⟩
  · intro h
    obtain ⟨hlines, hfound, blobB64, comment, htokens, hdecode⟩ := h
    have hfull : ¬ input.trim.isEmpty = true := by
      intro hempty
      rw [List.isEmpty_iff.mp hempty] at htokens
      cases htokens
    have hfind : findKeyType 0 input.trim.splitWhitespace = .ok 0 := by
      rw [htokens]
      unfold findKeyType
      rw [if_pos hfound]
    unfold submitted
    rw [if_neg (Nat.not_lt.mpr hlines), if_neg hfull, hfind]
    dsimp only
    rw [if_neg (Nat.lt_irrefl 0), htokens]
    dsimp only [List.getElem?_cons_succ, List.getElem?_cons_zero]
    rw [hdecode]
    rfl

theorem sublist_of_mem_splitOnP {p : Char → Bool} {s piece : Str} (h : piece ∈ splitOnP p s) :
    piece.Sublist s := by
  induction s generalizing piece with
  | nil =>
    rw [splitOnP, List.mem_singleton] at h
    rw [h]
  | cons c rest ih =>
    unfold splitOnP at h
    split at h
    · rcases List.mem_cons.mp h with rfl | h
      · exact List.nil_sublist _
      · exact (ih h).trans (List.sublist_cons_self c rest)
    · split at h
      · rw [List.mem_singleton] at h
        rw [h]
        exact List.Sublist.cons_cons c (List.nil_sublist rest)
      · rename_i first pieces hpieces
        rcases List.mem_cons.mp h with rfl | h
        · apply List.Sublist.cons_cons
          apply ih
          rw [hpieces]
          exact List.mem_cons_self
        · apply (ih _).trans (List.sublist_cons_self c rest)
          rw [hpieces]
          exact List.mem_cons_of_mem first h

theorem trim_sublist (s : Str) : s.trim.Sublist s := by
  unfold Str.trim
  have hinner : List.Sublist ((s.dropWhile isWhitespace).reverse.dropWhile isWhitespace)
      (s.dropWhile isWhitespace).reverse := List.dropWhile_sublist _
  have houter := hinner.reverse
  rw [List.reverse_reverse] at houter
  exact houter.trans (List.dropWhile_sublist _)

/-- The blob is no longer than the line it came in. -/
theorem Submits.blob_le {input algo : Str} {blob : Octets} (h : Submits P input algo blob)
    (hb64 : ∀ s b, P.b64Decode s = some b → b.length ≤ s.length) :
    blob.length ≤ (Str.bytes input).length := by
  obtain ⟨blobB64, comment, htokens, hdecode⟩ := h.tokens
  have hmem : blobB64 ∈ input.trim.splitWhitespace := by
    rw [htokens]
    exact List.mem_cons_of_mem algo List.mem_cons_self
  have hpiece := sublist_of_mem_splitOnP (List.mem_of_mem_filter hmem)
  have hbytes := (hpiece.trans (trim_sublist input)).flatMap String.utf8EncodeChar
  exact (hb64 _ _ hdecode).trans hbytes.length_le

end

namespace Bench

/-- The primitives with the real base64. -/
def base64 : Prims :=
  { Prims.bench [] with b64Encode := Base64.encodeText, b64Decode := Base64.decode }

/-- A well-formed ed25519 key: the byte 65, thirty-two times. -/
def keyLine : Str :=
  "ssh-ed25519 AAAAC3NzaC1lZDI1NTE5AAAAIEFBQUFBQUFBQUFBQUFBQUFBQUFBQUFBQUFBQUFBQUFB".toList

end Bench

end PicoSignet
