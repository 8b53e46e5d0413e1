import PicoSignet.GoDuration

/-!
# SSH wire format, certificates and request validation

Mirror of `hsm-core/src/sshwire.rs`, `cert.rs` and `validate.rs`.
-/

set_option autoImplicit false

namespace PicoSignet

/-! ### Unicode text, as Rust's `str` methods see it -/

/-- `char::is_whitespace`: the Unicode `White_Space` property. -/
def isWhitespace (c : Char) : Bool :=
  let n := c.toNat
  (0x9 ≤ n && n ≤ 0xD) || n == 0x20 || n == 0x85 || n == 0xA0 || n == 0x1680 ||
    (0x2000 ≤ n && n ≤ 0x200A) || n == 0x2028 || n == 0x2029 || n == 0x202F || n == 0x205F ||
    n == 0x3000

def Str.trim (s : Str) : Str :=
  ((s.dropWhile isWhitespace).reverse.dropWhile isWhitespace).reverse

/-- Pieces between separators, empty ones included. -/
def splitOnP (p : Char → Bool) : Str → List Str
  | [] => [[]]
  | c :: rest =>
    if p c then [] :: splitOnP p rest
    else
      match splitOnP p rest with
      | [] => [[c]]
      | piece :: pieces => (c :: piece) :: pieces

def Str.splitWhitespace (s : Str) : List Str := (splitOnP isWhitespace s).filter (!·.isEmpty)

/-- `lines()` up to the blank pieces, which its one caller drops. -/
def Str.lines (s : Str) : List Str := splitOnP (· == '\n') s

/-! ### Reading -/

inductive KeyError where
  | parse
  | options
  | trailing
  | rejected (reason : String)
deriving DecidableEq, Repr

/-- A cursor over SSH wire bytes. -/
structure Reader where
  buf : Octets
  pos : Nat

def Reader.readString (r : Reader) : Except KeyError (Octets × Reader) :=
  if r.buf.length < r.pos + 4 then .error .parse
  else
    let len := beNat ((r.buf.drop r.pos).take 4)
    let pos := r.pos + 4
    if r.buf.length < pos + len then .error .parse
    else .ok ((r.buf.drop pos).take len, { r with pos := pos + len })

def Reader.isEmpty (r : Reader) : Bool := decide (r.pos ≥ r.buf.length)

/-! ### Keys -/

inductive KeyKind where
  | ed25519
  | rsa (bits : Nat)
  | ecdsaP256
  | ecdsaP384
  | ecdsaP521
deriving DecidableEq, Repr

structure ParsedKey where
  algo : String
  certAlgo : String
  keyBody : Octets
  kind : KeyKind
deriving DecidableEq, Repr

def certAlgoFor (algo : String) : Option String :=
  if algo = "ssh-ed25519" then some "ssh-ed25519-cert-v01@openssh.com"
  else if algo = "ssh-rsa" then some "ssh-rsa-cert-v01@openssh.com"
  else if algo = "ecdsa-sha2-nistp256" then some "ecdsa-sha2-nistp256-cert-v01@openssh.com"
  else if algo = "ecdsa-sha2-nistp384" then some "ecdsa-sha2-nistp384-cert-v01@openssh.com"
  else if algo = "ecdsa-sha2-nistp521" then some "ecdsa-sha2-nistp521-cert-v01@openssh.com"
  else none

def isKnownUnsupported (tok : String) : Bool :=
  ["ssh-dss", "sk-ssh-ed25519@openssh.com", "sk-ecdsa-sha2-nistp256@openssh.com",
    "ssh-rsa-sha2-256", "ssh-rsa-sha2-512"].contains tok

def requireUncompressedSec1 (q : Octets) (expectedLen : Nat) : Except KeyError Unit :=
  if q.length ≠ expectedLen ∨ q.head? ≠ some 0x04 then
    .error (.rejected "ECDSA public point must use uncompressed SEC1 encoding")
  else .ok ()

def positiveMpintMagnitude : Octets → Option Octets
  | [] => none
  | b :: rest =>
    if b &&& 0x80 ≠ 0 then none
    else if b = 0 then
      match rest with
      | [] => none
      | c :: _ => if c &&& 0x80 = 0 then none else some rest
    else some (b :: rest)

def positiveMpintU64 (bytes : Octets) : Option UInt64 :=
  match positiveMpintMagnitude bytes with
  | none => none
  | some magnitude =>
    if magnitude.length > 8 then none
    else some (magnitude.foldl (fun value b => (value <<< 8) ||| b.toUInt64) 0)

/-- `8 - leading_zeros`. -/
def byteBits (b : UInt8) : Nat := if b = 0 then 0 else Nat.log2 b.toNat + 1

def positiveMpintBitLen (bytes : Octets) : Option Nat :=
  match positiveMpintMagnitude bytes with
  | none => none
  | some magnitude => some ((magnitude.length - 1) * 8 + byteBits (magnitude.headD 0))

section

variable (P : Prims)

/-- The three ECDSA arms, which differ in curve name, point length and decoder. -/
def parseEcdsa (curveName : String) (pointLen : Nat) (pointOk : Octets → Bool) (kind : KeyKind)
    (r : Reader) : Except KeyError (KeyKind × Reader) := do
  let (curve, r) ← r.readString
  let (q, r) ← r.readString
  if curve ≠ Str.bytes curveName.toList then .error (.rejected "mismatched ECDSA curve")
  requireUncompressedSec1 q pointLen
  if !pointOk q then .error (.rejected "invalid ECDSA public point")
  pure (kind, r)

def parseKeyKind (algo : String) (r : Reader) : Except KeyError KeyKind := do
  let (kind, r) ←
    if algo = "ssh-ed25519" then do
      let (pk, r) ← r.readString
      if pk.length ≠ 32 then .error (.rejected "malformed ed25519 key")
      pure (.ed25519, r)
    else if algo = "ssh-rsa" then do
      let (eBytes, r) ← r.readString
      let e ← match positiveMpintU64 eBytes with
        | some e => pure e
        | none => .error (.rejected "malformed RSA public exponent")
      if e < 3 || e % 2 == 0 then
        .error (.rejected "RSA public exponent must be an odd integer >= 3")
      let (n, r) ← r.readString
      let bits ← match positiveMpintBitLen n with
        | some bits => pure bits
        | none => .error (.rejected "malformed RSA modulus")
      pure (.rsa bits, r)
    else if algo = "ecdsa-sha2-nistp256" then parseEcdsa "nistp256" 65 P.p256Ok .ecdsaP256 r
    else if algo = "ecdsa-sha2-nistp384" then parseEcdsa "nistp384" 97 P.p384Ok .ecdsaP384 r
    else if algo = "ecdsa-sha2-nistp521" then parseEcdsa "nistp521" 133 P.p521Ok .ecdsaP521 r
    else .error .parse
  if !r.isEmpty then .error .trailing
  pure kind

/-- The scan for the key-type token: its index, or why the line is refused. -/
def findKeyType : (i : Nat) → List Str → Except KeyError Nat
  | _, [] => .error .parse
  | i, t :: rest =>
    if (certAlgoFor (String.ofList t)).isSome then .ok i
    else if isKnownUnsupported (String.ofList t) then
      .error (.rejected ("unsupported public key type: " ++ String.ofList t))
    else findKeyType (i + 1) rest

def parseAuthorizedKey (input : Str) : Except KeyError ParsedKey := do
  if (input.lines.filter fun l => !l.trim.isEmpty).length > 1 then .error .trailing
  let line := input.trim
  if line.isEmpty then .error .parse
  let tokens := line.splitWhitespace
  let idx ← findKeyType 0 tokens
  if idx > 0 then .error .options
  let algoTok := tokens.getD idx []
  let algo := String.ofList algoTok
  let blobB64 ← match tokens[idx + 1]? with
    | some t => pure t
    | none => .error .parse
  let blob ← match P.b64Decode (Str.bytes blobB64) with
    | some b => pure b
    | none => .error .parse
  let (innerAlgo, r) ← Reader.readString ⟨blob, 0⟩
  if innerAlgo ≠ Str.bytes algoTok then .error .parse
  let keyBody := blob.drop (4 + innerAlgo.length)
  let kind ← parseKeyKind P algo r
  pure { algo, certAlgo := (certAlgoFor algo).getD "", keyBody, kind }

end

/-! ### Certificates -/

def CERT_TYPE_USER : Nat := 1

structure CertParams where
  certAlgo : String
  keyBody : Octets
  nonce : Bytes 32
  serial : UInt64
  keyId : Str
  principals : List Str
  validAfter : UInt64
  validBefore : UInt64
  criticalOptions : StrMap
  extensions : StrMap

def marshalPrincipals (principals : List Str) : Octets :=
  principals.flatMap fun p => putString p.bytes

def marshalTuples (m : StrMap) : Octets :=
  m.entries.flatMap fun e =>
    putString e.1.bytes ++
      (if e.2.isEmpty then putString [] else putString (putString e.2.bytes))

section

variable (P : Prims)

/-- The bytes the CA signs. -/
def certBody (p : CertParams) (ca : CaKey) : Octets :=
  putString (Str.bytes p.certAlgo.toList) ++ putString p.nonce.toList ++ p.keyBody ++
    beBytes 8 p.serial.toNat ++ beBytes 4 CERT_TYPE_USER ++ putString p.keyId.bytes ++
    putString (marshalPrincipals p.principals) ++
    beBytes 8 p.validAfter.toNat ++ beBytes 8 p.validBefore.toNat ++
    putString (marshalTuples p.criticalOptions) ++ putString (marshalTuples p.extensions) ++
    putString [] ++ putString (ca.publicBlob P)

def buildCertificate (p : CertParams) (ca : CaKey) : String :=
  let body := certBody P p ca
  p.certAlgo ++ " " ++ P.b64Encode (body ++ putString (ca.signatureBlob P body))

end

/-! ### Validation -/

def MAX_PRINCIPALS : Nat := 100
def MAX_VALIDITY_NS : Int64 := 24 * 3600 * 1000000000
def MIN_RSA_BITS : Nat := 2048
def MAX_RSA_BITS : Nat := 8192

structure Validated where
  key : ParsedKey
  durationNs : Int64
  extensions : StrMap
  criticalOptions : StrMap

def mapKeyError : KeyError → String
  | .parse => "failed to parse public key: invalid authorized key"
  | .options => "public key must not carry SSH options"
  | .trailing => "public key must not carry trailing data"
  | .rejected r => "rejected public key: " ++ r

/-- The first blank principal from index `i` on. -/
def blankPrincipal : (i : Nat) → List Str → Option Nat
  | _, [] => none
  | i, p :: rest => if p.trim.isEmpty then some i else blankPrincipal (i + 1) rest

def formatted (d : Int64) : String :=
  (String.fromUTF8? ⟨(GoDuration.formatDuration d).toArray⟩).getD ""

section

variable (P : Prims)

def validateRequest (req : EnclaveSigningRequest) : Except String Int64 := do
  if req.sshKey.trim.isEmpty then .error "invalid request: SSH key cannot be empty"
  if req.keyId.trim.isEmpty then .error "invalid request: KeyID cannot be empty"
  if req.validity.trim.isEmpty then .error "invalid request: validity duration cannot be empty"
  let duration ← match GoDuration.parseDuration P.fracNanos req.validity.bytes with
    | .ok d => pure d
    | .error e => .error ("invalid request: invalid validity duration format: " ++ e)
  if req.principals.isEmpty then .error "invalid request: principals cannot be empty"
  if req.principals.length > MAX_PRINCIPALS then
    .error ("invalid request: too many principals: " ++ toString req.principals.length ++
      " (maximum: " ++ toString MAX_PRINCIPALS ++ ")")
  match blankPrincipal 0 req.principals with
  | some i => .error ("invalid request: principal at index " ++ toString i ++ " cannot be empty")
  | none => pure ()
  match req.customAttributes.entries.find? fun e => req.permissions.containsKey e.1 with
  | some e =>
    .error ("invalid request: key " ++ GoDuration.quote e.1.bytes ++
      " present in both permissions and custom_attributes")
  | none => pure ()
  pure duration

def validatePublicKey : KeyKind → Except String Unit
  | .rsa bits =>
    if bits < MIN_RSA_BITS then
      .error ("rejected public key: RSA key too small: " ++ toString bits ++ " bits (minimum " ++
        toString MIN_RSA_BITS ++ ")")
    else if bits > MAX_RSA_BITS then
      .error ("rejected public key: RSA key too large: " ++ toString bits ++ " bits (maximum " ++
        toString MAX_RSA_BITS ++ ")")
    else .ok ()
  | _ => .ok ()

def validate (req : EnclaveSigningRequest) : Except String Validated := do
  let durationNs ← validateRequest P req
  let key ← match parseAuthorizedKey P req.sshKey with
    | .ok k => pure k
    | .error e => .error (mapKeyError e)
  validatePublicKey key.kind
  if durationNs ≤ 0 then
    .error ("validity duration must be positive (got " ++ formatted durationNs ++ ")")
  if durationNs > MAX_VALIDITY_NS then
    .error ("validity duration " ++ formatted durationNs ++ " exceeds maximum allowed " ++
      formatted MAX_VALIDITY_NS)
  let extensions := req.customAttributes.entries.foldl (fun m e => m.insert e.1 e.2)
    (req.permissions.entries.foldl (fun m e => m.insert e.1 e.2) StrMap.empty)
  pure { key, durationNs, extensions, criticalOptions := req.criticalOptions }

/-- An accepted request asks for more than nothing and at most a day. -/
theorem validate_durationNs {req : EnclaveSigningRequest} {v : Validated}
    (h : validate P req = .ok v) : 0 < v.durationNs ∧ v.durationNs ≤ MAX_VALIDITY_NS := by
  unfold validate at h
  simp only [bind, Except.bind, pure, Except.pure] at h
  split at h
  · cases h
  split at h
  swap
  · cases h
  split at h
  · cases h
  split at h
  · cases h
  rename_i hpositive
  split at h
  · cases h
  rename_i hcapped
  cases h
  exact ⟨Int64.not_le.mp hpositive, Int64.not_lt.mp hcapped⟩

end

end PicoSignet
