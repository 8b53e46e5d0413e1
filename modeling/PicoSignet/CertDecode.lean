/-
  PicoSignet/CertDecode.lean
  ==========================
  **Issued certificates, read back.**

  `cert.rs` only writes certificates.  This file states how one is read — the
  grammar of OpenSSH's `PROTOCOL.certkeys`, over the parsers of `Wire.lean` — and
  proves that a certificate built from an accepted request reads back as what was
  asked for, with nothing left over.

  The submitted key is spliced into the signed bytes as it came, so the argument
  starts at the key parser: an accepted blob is its algorithm's name followed by
  exactly the strings the grammar expects there (`keyBody_fields`).
-/
import PicoSignet.KeyFields
import PicoSignet.LineIo

set_option autoImplicit false

namespace PicoSignet

open Wire

/-! ### The grammar -/

/-- What a certificate says, field by field. -/
structure Certificate where
  algo : Octets
  nonce : Octets
  key : List Octets
  serial : Nat
  type : Nat
  keyId : Octets
  principals : List Octets
  validAfter : Nat
  validBefore : Nat
  criticalOptions : List (Octets × Octets)
  extensions : List (Octets × Octets)
  reserved : Octets
  caKey : Octets
  signature : Octets

/-- How many strings the key of a certificate type consists of. -/
def keyStrings (algo : Octets) : Option Nat :=
  if algo = Str.bytes "ssh-ed25519-cert-v01@openssh.com".toList then some 1
  else if algo = Str.bytes "ssh-rsa-cert-v01@openssh.com".toList then some 2
  else if algo = Str.bytes "ecdsa-sha2-nistp256-cert-v01@openssh.com".toList then some 2
  else if algo = Str.bytes "ecdsa-sha2-nistp384-cert-v01@openssh.com".toList then some 2
  else if algo = Str.bytes "ecdsa-sha2-nistp521-cert-v01@openssh.com".toList then some 2
  else none

/-- A flag has no data; a value is a string within its data. -/
def optionValue (data : Octets) : Option Octets :=
  if data = [] then some [] else whole string data

def certOption : Parser (Octets × Octets) := do
  let name ← string
  let value ← framed optionValue
  return (name, value)

def certKey (algo : Octets) : Parser (List Octets) :=
  match keyStrings algo with
  | none => refuse
  | some count => times string count

def certificate : Parser Certificate := do
  let algo ← string
  let nonce ← string
  let key ← certKey algo
  let serial ← uint 8
  let type ← uint 4
  let keyId ← string
  let principals ← framed (all string)
  let validAfter ← uint 8
  let validBefore ← uint 8
  let criticalOptions ← framed (all certOption)
  let extensions ← framed (all certOption)
  let reserved ← string
  let caKey ← string
  let signature ← string
  return { algo, nonce, key, serial, type, keyId, principals, validAfter, validBefore,
           criticalOptions, extensions, reserved, caKey, signature }

/-- The entries of a map, as bytes. -/
def StrMap.octets (m : StrMap) : List (Octets × Octets) := m.entries.map fun e => (e.1.bytes, e.2.bytes)

theorem bytes_eq_nil {s : Str} : s.bytes = [] ↔ s = [] := by
  cases s with
  | nil => exact ⟨fun _ => rfl, fun _ => rfl⟩
  | cons c rest =>
    unfold Str.bytes
    rw [List.flatMap_cons]
    constructor
    · intro h
      exact absurd (List.append_eq_nil_iff.mp h).1 String.utf8EncodeChar_ne_nil
    · intro h
      cases h

def marshalTuple (e : Str × Str) : Octets :=
  putString e.1.bytes ++ (if e.2.isEmpty then putString [] else putString (putString e.2.bytes))

theorem reads_marshalTuple {e : Str × Str} (hname : e.1.bytes.length < 2 ^ 32)
    (hvalue : 4 + e.2.bytes.length < 2 ^ 32) :
    Wire.Reads certOption (marshalTuple e) (e.1.bytes, e.2.bytes) := by
  unfold certOption marshalTuple
  apply (reads_string hname).bind
  apply Wire.Reads.map
  by_cases hflag : e.2.isEmpty = true
  · rw [if_pos hflag, List.isEmpty_iff.mp hflag]
    exact reads_framed (by decide) rfl
  · rw [if_neg hflag]
    apply reads_framed
    · rw [length_putString]
      exact hvalue
    · have hne : putString e.2.bytes ≠ [] := by
        intro h
        have hlen := congrArg List.length h
        rw [length_putString] at hlen
        simp at hlen
      unfold optionValue
      rw [if_neg hne]
      exact (reads_string (by omega)).whole

/-- At least what JSON spends on the entries of a map. -/
def StrMap.weight (m : StrMap) : Nat := (m.entries.map fun e => e.1.len + e.2.len + 1).sum

/-- At least what JSON spends on a list of strings. -/
def listWeight (l : List Str) : Nat := (l.map fun s => s.len + 1).sum

theorem length_flatMap_le {α : Type} {encode : α → Octets} {w : α → Nat} {k : Nat} {xs : List α}
    (h : ∀ x ∈ xs, (encode x).length ≤ k * w x) :
    (xs.flatMap encode).length ≤ k * (xs.map w).sum := by
  induction xs with
  | nil => exact Nat.zero_le _
  | cons x xs ih =>
    obtain ⟨hhere, hthere⟩ := List.forall_mem_cons.mp h
    have hrest := ih hthere
    rw [List.flatMap_cons, List.length_append, List.map_cons, List.sum_cons, Nat.mul_add]
    omega

theorem length_marshalTuple_le (e : Str × Str) :
    (marshalTuple e).length ≤ 12 * (e.1.len + e.2.len + 1) := by
  unfold marshalTuple Str.len
  rw [List.length_append, length_putString]
  split <;> simp only [length_putString, List.length_nil] <;> omega

theorem marshalTuples_read {m : StrMap} (h : m.weight < 2 ^ 28) :
    (marshalTuples m).length < 2 ^ 32 ∧ all certOption (marshalTuples m) = some m.octets := by
  have hsplit : marshalTuples m = m.entries.flatMap marshalTuple := rfl
  rw [hsplit]
  constructor
  · have hle : (m.entries.flatMap marshalTuple).length ≤ 12 * m.weight :=
      length_flatMap_le fun e _ => length_marshalTuple_le e
    omega
  · have hentry : ∀ e ∈ m.entries, e.1.len + e.2.len + 1 ≤ m.weight := fun e he =>
      List.single_le_sum (fun _ _ => Nat.zero_le _) _ (List.mem_map_of_mem he)
    apply all_flatMap
    · intro e he
      have hsmall := hentry e he
      unfold Str.len at hsmall
      exact reads_marshalTuple (by omega) (by omega)
    · intro e _ hnil
      have hlen := congrArg List.length hnil
      unfold marshalTuple at hlen
      rw [List.length_append, length_putString] at hlen
      simp at hlen

theorem marshalPrincipals_read {principals : List Str} (h : listWeight principals < 2 ^ 28) :
    (marshalPrincipals principals).length < 2 ^ 32 ∧
      all string (marshalPrincipals principals) = some (principals.map Str.bytes) := by
  constructor
  · have hle : (marshalPrincipals principals).length ≤ 4 * listWeight principals := by
      apply length_flatMap_le
      intro p _
      unfold Str.len
      rw [length_putString]
      omega
    omega
  · have hentry : ∀ p ∈ principals, p.len + 1 ≤ listWeight principals := fun p hp =>
      List.single_le_sum (fun _ _ => Nat.zero_le _) _ (List.mem_map_of_mem hp)
    apply all_flatMap
    · intro p hp
      have hsmall := hentry p hp
      unfold Str.len at hsmall
      exact reads_string (by omega)
    · intro p _ hnil
      have hlen := congrArg List.length hnil
      rw [length_putString] at hlen
      simp at hlen

/-! ### A whole certificate -/

section

variable (P : Prims)

/-- What the certificate of `p` says, for a key of the given fields and a signature. -/
def CertParams.certificate (p : CertParams) (ca : CaKey) (fields : List Octets) (sig : Octets) :
    Certificate where
  algo := Str.bytes p.certAlgo.toList
  nonce := p.nonce.toList
  key := fields
  serial := p.serial.toNat
  type := CERT_TYPE_USER
  keyId := p.keyId.bytes
  principals := p.principals.map Str.bytes
  validAfter := p.validAfter.toNat
  validBefore := p.validBefore.toNat
  criticalOptions := p.criticalOptions.octets
  extensions := p.extensions.octets
  reserved := []
  caKey := ca.publicBlob P
  signature := sig

theorem reads_u64 (n : UInt64) : Wire.Reads (uint 8) (beBytes 8 n.toNat) n.toNat := by
  apply reads_uint
  have hn := n.toNat_lt
  norm_num
  omega

theorem length_publicBlob (ca : CaKey) : (ca.publicBlob P).length = 51 := by
  unfold CaKey.publicBlob pubkeyBlob
  rw [List.length_append, length_putString, length_putString, Vector.length_toList]
  rfl

theorem length_signatureBlob (ca : CaKey) (msg : Octets) : (ca.signatureBlob P msg).length = 83 := by
  unfold CaKey.signatureBlob
  rw [List.length_append, length_putString, length_putString, Vector.length_toList]
  rfl

theorem reads_certificate {p : CertParams} {ca : CaKey} {fields : List Octets} {sig : Octets}
    (hbody : p.keyBody = fields.flatMap putString)
    (hcount : keyStrings (Str.bytes p.certAlgo.toList) = some fields.length)
    (halgo : (Str.bytes p.certAlgo.toList).length < 2 ^ 32)
    (hfields : ∀ f ∈ fields, f.length < 2 ^ 32) (hid : p.keyId.len < 2 ^ 32)
    (hprincipals : listWeight p.principals < 2 ^ 28) (hcritical : p.criticalOptions.weight < 2 ^ 28)
    (hextensions : p.extensions.weight < 2 ^ 28) (hsig : sig.length < 2 ^ 32) :
    Wire.Reads certificate (certBody P p ca ++ putString sig) (p.certificate P ca fields sig) := by
  have hkey : Wire.Reads (certKey (Str.bytes p.certAlgo.toList)) p.keyBody fields := by
    have htimes := reads_times (p := string) (f := id) fun f hf => reads_string (hfields f hf)
    rw [List.map_id] at htimes
    unfold certKey
    rw [hcount, hbody]
    exact htimes
  obtain ⟨hplen, hpread⟩ := marshalPrincipals_read hprincipals
  obtain ⟨hclen, hcread⟩ := marshalTuples_read hcritical
  obtain ⟨helen, heread⟩ := marshalTuples_read hextensions
  have hpublic : (ca.publicBlob P).length < 2 ^ 32 := by
    rw [length_publicBlob]
    decide
  unfold certBody
  simp only [List.append_assoc]
  apply (reads_string halgo).bind
  apply (reads_string (by rw [Vector.length_toList]; decide)).bind
  apply hkey.bind
  apply (reads_u64 p.serial).bind
  apply (reads_uint (by decide)).bind
  apply (reads_string hid).bind
  apply (reads_framed hplen hpread).bind
  apply (reads_u64 p.validAfter).bind
  apply (reads_u64 p.validBefore).bind
  apply (reads_framed hclen hcread).bind
  apply (reads_framed helen heread).bind
  apply (reads_string (by decide)).bind
  apply (reads_string hpublic).bind
  exact (reads_string hsig).map

/-! ### The submitted key -/

/-- What `Except`'s bind succeeded with. -/
theorem bind_eq_ok {ε α β : Type} {x : Except ε α} {f : α → Except ε β} {b : β}
    (h : x >>= f = .ok b) : ∃ a, x = .ok a ∧ f a = .ok b := by
  cases x with
  | error e => cases h
  | ok a => exact ⟨a, rfl, h⟩

/-- The suffix that turns a key type into its certificate type. -/
def CERT_SUFFIX : String := "-cert-v01@openssh.com"

/-- The certifiable key types and the strings of their keys. -/
def CERT_TYPES : List (String × Nat) :=
  [("ssh-ed25519", 1), ("ssh-rsa", 2), ("ecdsa-sha2-nistp256", 2), ("ecdsa-sha2-nistp384", 2),
    ("ecdsa-sha2-nistp521", 2)]

theorem certTypes_known : ∀ t ∈ CERT_TYPES, certAlgoFor t.1 = some (t.1 ++ CERT_SUFFIX) ∧
    keyStrings (Str.bytes (t.1 ++ CERT_SUFFIX).toList) = some t.2 ∧
    ' ' ∉ (t.1 ++ CERT_SUFFIX).toList ∧ (Str.bytes (t.1 ++ CERT_SUFFIX).toList).length < 2 ^ 32 := by
  decide +kernel

end

/-! ### Merging the two maps -/

theorem bytes_injective {s t : Str} (h : s.bytes = t.bytes) : s = t := by
  have harrays : s.utf8Encode = t.utf8Encode := by
    unfold List.utf8Encode
    exact congrArg List.toByteArray h
  have hs := List.utf8Decode?_utf8Encode (l := s)
  rw [harrays, List.utf8Decode?_utf8Encode] at hs
  exact (Array.toList_inj.mpr (Option.some.inj hs)).symm

theorem key_injective {s t : Str} (h : s.key = t.key) : s = t := by
  apply bytes_injective
  exact List.map_injective_iff.mpr (fun _ _ => UInt8.toNat_inj.mp) h

theorem mem_insertEntry_iff {k v : Str} {es : List (Str × Str)} (hfresh : ∀ e ∈ es, e.1 ≠ k)
    (e : Str × Str) : e ∈ insertEntry k v es ↔ e = (k, v) ∨ e ∈ es := by
  induction es with
  | nil => simp [insertEntry]
  | cons e' es ih =>
    obtain ⟨hhere, hthere⟩ := List.forall_mem_cons.mp hfresh
    unfold insertEntry
    split
    · exact List.mem_cons
    · rename_i hlt
      split
      · rw [List.mem_cons, ih hthere, List.mem_cons]
        tauto
      · rename_i hgt
        have heq : k.key = e'.1.key := le_antisymm (not_lt.mp hgt) (not_lt.mp hlt)
        exact absurd (key_injective heq.symm) hhere

theorem weight_insert (m : StrMap) (k v : Str) :
    (m.insert k v).weight ≤ m.weight + (k.len + v.len + 1) := by
  unfold StrMap.weight StrMap.insert
  dsimp only
  induction m.entries with
  | nil => simp [insertEntry]
  | cons e es ih =>
    unfold insertEntry
    split
    · simp only [List.map_cons, List.sum_cons]
      omega
    · split
      · simp only [List.map_cons, List.sum_cons]
        omega
      · simp only [List.map_cons, List.sum_cons]
        omega

/-- `extend`: the entries of one map after the other. -/
def StrMap.insertAll (m : StrMap) (es : List (Str × Str)) : StrMap :=
  es.foldl (fun m e => m.insert e.1 e.2) m

theorem weight_insertAll (m : StrMap) (es : List (Str × Str)) :
    (m.insertAll es).weight ≤ m.weight + (es.map fun e => e.1.len + e.2.len + 1).sum := by
  induction es generalizing m with
  | nil => simp [StrMap.insertAll]
  | cons e es ih =>
    have hone := weight_insert m e.1 e.2
    have hrest := ih (m.insert e.1 e.2)
    rw [List.map_cons, List.sum_cons]
    unfold StrMap.insertAll at hrest ⊢
    rw [List.foldl_cons]
    omega

theorem mem_insertAll {m : StrMap} {es : List (Str × Str)}
    (hdistinct : es.Pairwise fun x y => x.1 ≠ y.1)
    (hfresh : ∀ e ∈ es, ∀ e' ∈ m.entries, e'.1 ≠ e.1) (e : Str × Str) :
    e ∈ (m.insertAll es).entries ↔ e ∈ m.entries ∨ e ∈ es := by
  induction es generalizing m with
  | nil => simp [StrMap.insertAll]
  | cons e' es ih =>
    obtain ⟨hhead, htail⟩ := List.pairwise_cons.mp hdistinct
    obtain ⟨hhere, hthere⟩ := List.forall_mem_cons.mp hfresh
    have hmem : ∀ x, x ∈ (m.insert e'.1 e'.2).entries ↔ x = e' ∨ x ∈ m.entries :=
      fun x => mem_insertEntry_iff hhere x
    have hnext : ∀ x ∈ es, ∀ y ∈ (m.insert e'.1 e'.2).entries, y.1 ≠ x.1 := by
      intro x hx y hy
      rcases (hmem y).mp hy with rfl | hy
      · exact hhead x hx
      · exact hthere x hx y hy
    have hall := ih (m := m.insert e'.1 e'.2) htail hnext
    unfold StrMap.insertAll at hall ⊢
    rw [List.foldl_cons, hall, hmem, List.mem_cons]
    tauto

theorem StrMap.keys_distinct (m : StrMap) : m.entries.Pairwise fun x y => x.1 ≠ y.1 := by
  apply m.sorted.imp
  intro x y hlt heq
  rw [heq] at hlt
  exact lt_irrefl _ hlt

/-! ### An accepted request -/

section

variable (P : Prims)

/-- What `validate` has made sure of. -/
structure Accepted (req : EnclaveSigningRequest) (v : Validated) : Prop where
  key : parseAuthorizedKey P req.sshKey = .ok v.key
  nonempty : req.principals ≠ []
  few : req.principals.length ≤ MAX_PRINCIPALS
  filled : ∀ p ∈ req.principals, p.trim ≠ []
  disjoint : ∀ e ∈ req.customAttributes.entries, req.permissions.containsKey e.1 = false
  extensions : v.extensions =
    (StrMap.empty.insertAll req.permissions.entries).insertAll req.customAttributes.entries
  criticalOptions : v.criticalOptions = req.criticalOptions

/-- The extensions are the two maps together. -/
theorem Accepted.mem_extensions {req : EnclaveSigningRequest} {v : Validated} (h : Accepted P req v)
    (e : Str × Str) :
    e ∈ v.extensions.entries ↔ e ∈ req.permissions.entries ∨ e ∈ req.customAttributes.entries := by
  have hpermissions : ∀ x, x ∈ (StrMap.empty.insertAll req.permissions.entries).entries ↔
      x ∈ req.permissions.entries := by
    intro x
    rw [mem_insertAll req.permissions.keys_distinct fun _ _ e' he' => by cases he']
    simp [StrMap.empty]
  rw [h.extensions, mem_insertAll req.customAttributes.keys_distinct, hpermissions]
  intro x hx y hy heq
  have hnot := h.disjoint x hx
  have hhas : req.permissions.containsKey x.1 = true := by
    unfold StrMap.containsKey
    rw [List.any_eq_true]
    exact ⟨y, (hpermissions y).mp hy, by simpa using heq⟩
  rw [hhas] at hnot
  cases hnot

theorem Accepted.weight_extensions {req : EnclaveSigningRequest} {v : Validated}
    (h : Accepted P req v) :
    v.extensions.weight ≤ req.permissions.weight + req.customAttributes.weight := by
  rw [h.extensions]
  have hfirst := weight_insertAll StrMap.empty req.permissions.entries
  have hboth := weight_insertAll (StrMap.empty.insertAll req.permissions.entries)
    req.customAttributes.entries
  have hempty : StrMap.empty.weight = 0 := rfl
  have hp : (req.permissions.entries.map fun e => e.1.len + e.2.len + 1).sum =
      req.permissions.weight := rfl
  have hc : (req.customAttributes.entries.map fun e => e.1.len + e.2.len + 1).sum =
      req.customAttributes.weight := rfl
  omega

/-! ### The round trip -/

/-- At least what the request takes on its line: its strings, and a separator for each
    item of a list or map. -/
def EnclaveSigningRequest.size (req : EnclaveSigningRequest) : Nat :=
  req.sshKey.len + req.keyId.len + req.validity.len + listWeight req.principals +
    req.permissions.weight + req.customAttributes.weight + req.criticalOptions.weight

/-- The certificate says what the request asked for; `signed` are the bytes in front
    of the signature. -/
structure Certificate.Answers (c : Certificate) (req : EnclaveSigningRequest) (v : Validated)
    (nonce : Bytes 32) (serial : UInt64) (now : Int64) (ca : CaKey) (signed : Octets) : Prop where
  key : ∃ algo blob, Submits P req.sshKey algo blob ∧
    blob = putString algo.bytes ++ c.key.flatMap putString ∧
    c.algo = Str.bytes (String.ofList algo ++ CERT_SUFFIX).toList ∧
    (String.ofList algo, c.key.length) ∈ CERT_TYPES
  nonce : c.nonce = nonce.toList
  serial : c.serial = serial.toNat
  type : c.type = 1
  keyId : c.keyId = req.keyId.bytes
  principals : c.principals = req.principals.map Str.bytes
  count : 1 ≤ c.principals.length ∧ c.principals.length ≤ 100
  filled : ∀ p ∈ req.principals, p.trim ≠ []
  validAfter : c.validAfter = (now.toUInt64 - 300).toNat
  validBefore : c.validBefore = (now.toUInt64 + (v.durationNs / 1000000000).toUInt64).toNat
  criticalOptions : c.criticalOptions = req.criticalOptions.octets
  extensions : ∀ e, e ∈ c.extensions ↔ e ∈ req.permissions.octets ∨ e ∈ req.customAttributes.octets
  disjoint : ∀ x ∈ req.permissions.octets, ∀ y ∈ req.customAttributes.octets, x.1 ≠ y.1
  increasing : c.extensions.Pairwise fun x y => x.1.map UInt8.toNat < y.1.map UInt8.toNat
  reserved : c.reserved = []
  caKey : c.caKey = ca.publicBlob P
  signature : c.signature = ca.signatureBlob P signed

theorem mem_octets {m : StrMap} {e : Octets × Octets} :
    e ∈ m.octets ↔ ∃ x ∈ m.entries, (x.1.bytes, x.2.bytes) = e := List.mem_map

section

variable {P} {req : EnclaveSigningRequest} {v : Validated}

theorem Accepted.octets_extensions (h : Accepted P req v) (e : Octets × Octets) :
    e ∈ v.extensions.octets ↔ e ∈ req.permissions.octets ∨ e ∈ req.customAttributes.octets := by
  simp only [mem_octets, h.mem_extensions]
  constructor
  · intro hmem
    obtain ⟨x, hx | hx, heq⟩ := hmem
    · exact Or.inl ⟨x, hx, heq⟩
    · exact Or.inr ⟨x, hx, heq⟩
  · intro hmem
    rcases hmem with ⟨x, hx, heq⟩ | ⟨x, hx, heq⟩
    · exact ⟨x, Or.inl hx, heq⟩
    · exact ⟨x, Or.inr hx, heq⟩

theorem Accepted.octets_disjoint (h : Accepted P req v) :
    ∀ x ∈ req.permissions.octets, ∀ y ∈ req.customAttributes.octets, x.1 ≠ y.1 := by
  intro x hx y hy heq
  obtain ⟨p, hp, rfl⟩ := mem_octets.mp hx
  obtain ⟨c, hc, rfl⟩ := mem_octets.mp hy
  have hname : p.1 = c.1 := bytes_injective heq
  have hhas : req.permissions.containsKey c.1 = true := by
    unfold StrMap.containsKey
    rw [List.any_eq_true]
    exact ⟨p, hp, by simpa using hname⟩
  rw [h.disjoint c hc] at hhas
  cases hhas

theorem StrMap.octets_increasing (m : StrMap) :
    m.octets.Pairwise fun x y => x.1.map UInt8.toNat < y.1.map UInt8.toNat :=
  List.pairwise_map.mpr m.sorted

/-- The certificate of an accepted request says what was asked for. -/
theorem Accepted.answers (h : Accepted P req v) (nonce : Bytes 32) (serial : UInt64) (now : Int64)
    (ca : CaKey) (signed : Octets) {algo : Str} {blob : Octets} {fields : List Octets}
    (hsub : Submits P req.sshKey algo blob) (hblob : blob = putString algo.bytes ++ v.key.keyBody)
    (hbody : v.key.keyBody = fields.flatMap putString)
    (htype : (String.ofList algo, fields.length) ∈ CERT_TYPES)
    (hcert : v.key.certAlgo = String.ofList algo ++ CERT_SUFFIX) :
    ((certParams req v nonce serial now).certificate P ca fields (ca.signatureBlob P signed)).Answers
      P req v nonce serial now ca signed where
  key := by
    refine ⟨algo, blob, hsub, ?_, ?_, htype⟩
    · rw [hblob, hbody]
      rfl
    · rw [← hcert]
      rfl
  nonce := rfl
  serial := rfl
  type := rfl
  keyId := rfl
  principals := rfl
  count := by
    have hpos := List.length_pos_of_ne_nil h.nonempty
    have hfew := h.few
    change 1 ≤ (req.principals.map Str.bytes).length ∧ (req.principals.map Str.bytes).length ≤ 100
    rw [List.length_map]
    exact ⟨hpos, hfew⟩
  filled := h.filled
  validAfter := rfl
  validBefore := rfl
  criticalOptions := by
    rw [← h.criticalOptions]
    rfl
  extensions := h.octets_extensions
  disjoint := h.octets_disjoint
  increasing := v.extensions.octets_increasing
  reserved := rfl
  caKey := rfl
  signature := rfl

/-- No field of an accepted request that fits on a line outgrows its length prefix. -/
theorem Accepted.reads (h : Accepted P req v) (hsize : req.size ≤ MAX_LINE) (nonce : Bytes 32)
    (serial : UInt64) (now : Int64) (ca : CaKey) (signed : Octets) {algo : Str}
    {fields : List Octets} (hbody : v.key.keyBody = fields.flatMap putString)
    (hsmall : ∀ f ∈ fields, f.length < 2 ^ 32)
    (htype : (String.ofList algo, fields.length) ∈ CERT_TYPES)
    (hcert : v.key.certAlgo = String.ofList algo ++ CERT_SUFFIX) :
    Wire.Reads certificate
      (certBody P (certParams req v nonce serial now) ca ++ putString (ca.signatureBlob P signed))
      ((certParams req v nonce serial now).certificate P ca fields (ca.signatureBlob P signed)) := by
  obtain ⟨-, hstrings, -, hname⟩ := certTypes_known _ htype
  rw [← hcert] at hname hstrings
  have hext := h.weight_extensions
  have hcritical : v.criticalOptions.weight = req.criticalOptions.weight := by
    rw [h.criticalOptions]
  unfold EnclaveSigningRequest.size MAX_LINE at hsize
  have hid : req.keyId.len < 2 ^ 32 := by omega
  have hprincipals : listWeight req.principals < 2 ^ 28 := by omega
  have hcrit : v.criticalOptions.weight < 2 ^ 28 := by omega
  have hexts : v.extensions.weight < 2 ^ 28 := by omega
  have hsig : (ca.signatureBlob P signed).length < 2 ^ 32 := by
    rw [length_signatureBlob]
    norm_num
  exact reads_certificate P hbody hstrings hname hsmall hid hprincipals hcrit hexts hsig

end

end

namespace Bench

end Bench

end PicoSignet
