import PicoSignet.Storage
import PicoSignet.Proto

/-!
# External code, key wrapping, CA key and DRBG

`Prims` collects what the core takes from other crates: CRC-32, Argon2id, HKDF,
ChaCha20-Poly1305, Ed25519, SHA-512, the ChaCha20 generator, base64, the NIST
curve decoders, `serde_json`, and the `f64` step of the duration parser.  The
rest mirrors `hsm-core/src/wrap.rs`, `keys.rs` and `rng.rs` over it.
-/

set_option autoImplicit false

namespace PicoSignet

structure Prims where
  crc32 : Octets → UInt32
  /-- Argon2id v0x13 with 32 bytes of output; `none` if the parameters or the
      allocation are refused. -/
  argon2id : (pin : Octets) → (salt : Bytes 16) → Argon2Params → Option (Bytes 32)
  /-- HKDF-SHA256 extract with an optional salt, then 32 bytes of expand. -/
  hkdfSha256 : (salt : Option (Bytes 32)) → (ikm : Bytes 32) → (info : String) → Bytes 32
  /-- ChaCha20-Poly1305 encryption of a 32-byte message: ciphertext and tag. -/
  aeadSeal : (key : Bytes 32) → (nonce : Bytes 12) → (aad : Octets) → (plain : Bytes 32) →
    Bytes 32 × Bytes 16
  aeadOpen : (key : Bytes 32) → (nonce : Bytes 12) → (aad : Octets) → (cipher : Bytes 32) →
    (tag : Bytes 16) → Option (Bytes 32)
  edPublic : (seed : Bytes 32) → Bytes 32
  edSign : (seed : Bytes 32) → (msg : Octets) → Bytes 64
  sha512 : Octets → Bytes 64
  Rng : Type
  rngFromSeed : Bytes 32 → Rng
  rngFill : Rng → (n : Nat) → Bytes n × Rng
  rngNextU64 : Rng → UInt64 × Rng
  b64Encode : Octets → String
  b64Decode : Octets → Option Octets
  p256Ok : Octets → Bool
  p384Ok : Octets → Bool
  p521Ok : Octets → Bool
  /-- `(f as f64 * (unit as f64 / 10^digits)) as u64`. -/
  fracNanos : (f unit digits : Nat) → UInt64
  /-- `serde_json::from_slice::<Request>`, with the text of its error. -/
  parseRequest : Octets → Except String Request
  /-- The known-answer tests of `selftest.rs`, all of them about the crates above. -/
  ed25519Kat : Bool
  sha512Kat : Bool
  aeadKat : Bool

variable (P : Prims)

/-! ### Key wrapping -/

inductive WrapError where
  | kdf
  | auth
deriving DecidableEq, Repr

def devKek (deviceSecret : Bytes 32) : Bytes 32 :=
  P.hkdfSha256 none deviceSecret "usbhsm-dev-kek-v2"

def pinKek (pin : Octets) (salt : Bytes 16) (params : Argon2Params) (deviceSecret : Bytes 32) :
    Except WrapError (Bytes 32) :=
  match P.argon2id pin salt params with
  | none => .error .kdf
  | some stretched => .ok (P.hkdfSha256 (some deviceSecret) stretched "usbhsm-prod-kek-v2")

/-- Additional data binding a blob to its wrap type and public key. -/
def aad (wrapType : WrapType) (pubkey : Bytes 32) : Octets := wrapType.toByte :: pubkey.toList

def wrapSeed (kek seed pubkey : Bytes 32) (wrapType : WrapType) (salt : Bytes 16)
    (nonce : Bytes 12) : KeyBlob :=
  let sealed := P.aeadSeal kek nonce (aad wrapType pubkey) seed
  { wrapType, aeadNonce := nonce, pubkey, ciphertext := sealed.1, tag := sealed.2, salt }

def unwrapSeed (kek : Bytes 32) (blob : KeyBlob) : Except WrapError (Bytes 32) :=
  match P.aeadOpen kek blob.aeadNonce (aad blob.wrapType blob.pubkey) blob.ciphertext blob.tag with
  | some seed => .ok seed
  | none => .error .auth

/-! ### The CA key -/

/-- A live signing key; `SigningKey::from_bytes` is determined by the seed. -/
structure CaKey where
  seed : Bytes 32
deriving DecidableEq, Repr

def CaKey.fromSeed (seed : Bytes 32) : CaKey := ⟨seed⟩

def CaKey.publicBytes (k : CaKey) : Bytes 32 := P.edPublic k.seed

/-- An SSH `string`: a big-endian length and the bytes. -/
def putString (s : Octets) : Octets := beBytes 4 s.length ++ s

def sshEd25519 : Octets := Str.bytes "ssh-ed25519".toList

def pubkeyBlob (pubkey : Bytes 32) : Octets := putString sshEd25519 ++ putString pubkey.toList

def CaKey.publicBlob (k : CaKey) : Octets := pubkeyBlob (k.publicBytes P)

def CaKey.signatureBlob (k : CaKey) (msg : Octets) : Octets :=
  putString sshEd25519 ++ putString (P.edSign k.seed msg).toList

def authorizedLineFromPubkey (pubkey : Bytes 32) (comment : String) : String :=
  if comment.isEmpty then "ssh-ed25519 " ++ P.b64Encode (pubkeyBlob pubkey)
  else "ssh-ed25519 " ++ P.b64Encode (pubkeyBlob pubkey) ++ " " ++ comment

def CaKey.authorizedLine (k : CaKey) (comment : String) : String :=
  authorizedLineFromPubkey P (k.publicBytes P) comment

/-! ### DRBG -/

def SEED_SAMPLE : Nat := 256
def RCT_CUTOFF : Nat := 24
def APT_MAX : Nat := SEED_SAMPLE / 4
def MAX_HEALTH_RETRIES : Nat := 16

/-- What one `fill_raw` of a seed buffer yields. -/
abbrev Sample := Except HalError (Bytes SEED_SAMPLE)

/-- An entropy source as the samples it will yield; a dry source errors. -/
abbrev Entropy := List Sample

/-- The longest run of equal bytes, as `health_check` counts it. -/
def maxRun : (prev : UInt8) → (run best : Nat) → Octets → Nat
  | _, _, best, [] => best
  | prev, run, best, b :: rest =>
    if b = prev then maxRun b (run + 1) (max best (run + 1)) rest else maxRun b 1 best rest

def longestRun : Octets → Nat
  | [] => 1
  | b :: rest => maxRun b 1 1 rest

/-- How often each byte value occurs. -/
def byteCounts (raw : Octets) : List Nat :=
  raw.foldl (fun counts b => counts.modify b.toNat (· + 1)) (List.replicate 256 0)

def healthCheck (raw : Octets) : Bool :=
  decide (longestRun raw < RCT_CUTOFF) && !(byteCounts raw).any fun c => decide (c > APT_MAX)

/-- `gather_healthy`: the first healthy sample of at most `tries`. -/
def gatherHealthy : (tries : Nat) → Entropy → Except HalError (Bytes SEED_SAMPLE) × Entropy
  | 0, e => (.error .entropy, e)
  | _ + 1, [] => (.error .entropy, [])
  | _ + 1, .error err :: rest => (.error err, rest)
  | tries + 1, .ok raw :: rest =>
    if healthCheck raw.toList then (.ok raw, rest) else gatherHealthy tries rest

structure Drbg where
  rng : P.Rng
  seeded : Bool
  sinceReseed : UInt64

variable {P}

def Drbg.new : Drbg P :=
  { rng := P.rngFromSeed (Vector.replicate 32 0), seeded := false, sinceReseed := 0 }

/-- Re-key from `SHA-512(domain || prev? || material)[..32]`. -/
def Drbg.reinit (d : Drbg P) (domain : String) (prev : Option (Bytes 32)) (material : Octets) :
    Drbg P :=
  let digest := P.sha512 (Str.bytes domain.toList ++ (prev.map (·.toList)).getD [] ++ material)
  { d with rng := P.rngFromSeed (sliceArray digest.toList 0 32), sinceReseed := 0 }

def Drbg.seed (d : Drbg P) (e : Entropy) : Except HalError (Drbg P) × Entropy :=
  match gatherHealthy MAX_HEALTH_RETRIES e with
  | (.error err, e') => (.error err, e')
  | (.ok raw, e') =>
    (.ok { d.reinit "usbhsm-drbg-seed-v1" none raw.toList with seeded := true }, e')

def Drbg.reseed (d : Drbg P) (e : Entropy) : Except HalError (Drbg P) × Entropy :=
  match gatherHealthy MAX_HEALTH_RETRIES e with
  | (.error err, e') => (.error err, e')
  | (.ok raw, e') =>
    let (cur, rng) := P.rngFill d.rng 32
    (.ok ({ d with rng }.reinit "usbhsm-drbg-reseed-v1" (some cur) raw.toList), e')

def Drbg.mixHost (d : Drbg P) (host : Octets) : Drbg P :=
  let (cur, rng) := P.rngFill d.rng 32
  { d with rng }.reinit "usbhsm-drbg-mix-host-v1" (some cur) host

def Drbg.bump (d : Drbg P) : Drbg P := { d with sinceReseed := satAddU d.sinceReseed 1 }

/-- `random_array::<N>` and `fill_bytes`. -/
def Drbg.randomArray (d : Drbg P) (n : Nat) : Bytes n × Drbg P :=
  let (bytes, rng) := P.rngFill d.rng n
  (bytes, { d.bump with rng })

def Drbg.nextU64 (d : Drbg P) : UInt64 × Drbg P :=
  let (v, rng) := P.rngNextU64 d.rng
  (v, { d.bump with rng })

/-- `CaKey::generate`: the seed drawn and the key it makes. -/
def CaKey.generate (d : Drbg P) : (Bytes 32 × CaKey) × Drbg P :=
  let (seed, d') := d.randomArray 32
  ((seed, CaKey.fromSeed seed), d')

end PicoSignet
