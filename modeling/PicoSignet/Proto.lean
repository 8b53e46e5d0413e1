import PicoSignet.Words
import Mathlib.Data.List.Lex
import Mathlib.Order.Defs.LinearOrder

/-!
# Wire types

Mirror of `hsm-core/src/proto.rs` and `state.rs`.  Requests keep one optional
field per variant, since a line may set several and the dispatcher counts them.
A response never has more than one field set, so it is an inductive type.
-/

set_option autoImplicit false

namespace PicoSignet

/-- A Rust `String`: Unicode scalar values. -/
abbrev Str := List Char

/-- `as_bytes`. -/
def Str.bytes (s : Str) : Octets := s.flatMap String.utf8EncodeChar

/-- `len()`, in bytes. -/
def Str.len (s : Str) : Nat := s.bytes.length

/-! ### `BTreeMap<String, String>` -/

/-- The bytes as numbers; Rust orders strings by this key. -/
def Str.key (s : Str) : List Nat := s.bytes.map UInt8.toNat

/-- A map as its entries in key order. -/
structure StrMap where
  entries : List (Str × Str)
  sorted : entries.Pairwise fun x y => x.1.key < y.1.key

def StrMap.empty : StrMap := ⟨[], List.Pairwise.nil⟩

instance : Inhabited StrMap := ⟨StrMap.empty⟩

def insertEntry (k v : Str) : List (Str × Str) → List (Str × Str)
  | [] => [(k, v)]
  | e :: rest =>
    if k.key < e.1.key then (k, v) :: e :: rest
    else if e.1.key < k.key then e :: insertEntry k v rest
    else (k, v) :: rest

theorem mem_insertEntry {k v : Str} {e : Str × Str} {es : List (Str × Str)}
    (h : e ∈ insertEntry k v es) : e = (k, v) ∨ e ∈ es := by
  induction es with
  | nil => exact Or.inl (by simpa [insertEntry] using h)
  | cons e' es ih =>
    unfold insertEntry at h
    split at h
    · simpa using h
    · split at h
      · rcases List.mem_cons.mp h with rfl | h
        · exact Or.inr List.mem_cons_self
        · exact (ih h).imp_right (List.mem_cons_of_mem _)
      · rcases List.mem_cons.mp h with rfl | h
        · exact Or.inl rfl
        · exact Or.inr (List.mem_cons_of_mem _ h)

theorem sorted_insertEntry (k v : Str) {es : List (Str × Str)}
    (h : es.Pairwise fun x y => x.1.key < y.1.key) :
    (insertEntry k v es).Pairwise fun x y => x.1.key < y.1.key := by
  induction es with
  | nil => simp [insertEntry]
  | cons e es ih =>
    obtain ⟨hhead, htail⟩ := List.pairwise_cons.mp h
    unfold insertEntry
    split
    · rename_i hlt
      refine List.pairwise_cons.mpr ⟨?_, h⟩
      intro x hx
      rcases List.mem_cons.mp hx with rfl | hx
      · exact hlt
      · exact lt_trans hlt (hhead x hx)
    · rename_i hge
      split
      · rename_i hgt
        refine List.pairwise_cons.mpr ⟨?_, ih htail⟩
        intro x hx
        rcases mem_insertEntry hx with rfl | hx
        · exact hgt
        · exact hhead x hx
      · rename_i hle
        have heq : k.key = e.1.key := le_antisymm (not_lt.mp hle) (not_lt.mp hge)
        refine List.pairwise_cons.mpr ⟨?_, htail⟩
        intro x hx
        change k.key < x.1.key
        rw [heq]
        exact hhead x hx

/-- `BTreeMap::insert`. -/
def StrMap.insert (m : StrMap) (k v : Str) : StrMap :=
  ⟨insertEntry k v m.entries, sorted_insertEntry k v m.sorted⟩

def StrMap.containsKey (m : StrMap) (k : Str) : Bool := m.entries.any fun e => e.1 == k

/-! ### Requests -/

structure EnclaveSigningRequest where
  sshKey : Str := []
  keyId : Str := []
  principals : List Str := []
  validity : Str := []
  permissions : StrMap := StrMap.empty
  customAttributes : StrMap := StrMap.empty
  criticalOptions : StrMap := StrMap.empty

structure InitReq where
  mode : Str := []
  pin : Option Str := none
  maxRetries : Option UInt8 := none
  wipeOnLockout : Option Bool := none

structure GenerateKeyReq where
  force : Bool := false

structure UnlockReq where
  pin : Str := []

structure SetTimeReq where
  unixSeconds : Int64 := 0

structure ChangePinReq where
  currentPin : Str := []
  newPin : Str := []

structure AddEntropyReq where
  hex : Str := []

structure FactoryResetReq where
  confirm : Str := []
  pin : Option Str := none

structure RebootBootloaderReq where
  pin : Option Str := none

/-- The management envelope; the empty-object commands carry `Unit`. -/
structure HsmRequest where
  init : Option InitReq := none
  generateKey : Option GenerateKeyReq := none
  getPublicKey : Option Unit := none
  unlock : Option UnlockReq := none
  lock : Option Unit := none
  setTime : Option SetTimeReq := none
  status : Option Unit := none
  changePin : Option ChangePinReq := none
  addEntropy : Option AddEntropyReq := none
  selfTest : Option Unit := none
  factoryReset : Option FactoryResetReq := none
  rebootBootloader : Option RebootBootloaderReq := none

structure Request where
  loadKeySigner : Option Unit := none
  signSshKey : Option EnclaveSigningRequest := none
  ping : Option Unit := none
  getEnclaveMetrics : Option Unit := none
  hsm : Option HsmRequest := none

/-! ### Device state -/

inductive DeviceState where
  | uninitialized
  | devReady
  | prodLocked
  | prodReady
  | lockedOut
deriving DecidableEq, Repr

def DeviceState.asStr : DeviceState → String
  | .uninitialized => "uninitialized"
  | .devReady => "devReady"
  | .prodLocked => "prodLocked"
  | .prodReady => "prodReady"
  | .lockedOut => "lockedOut"

def DeviceState.signerReady : DeviceState → Bool
  | .devReady | .prodReady => true
  | _ => false

/-! ### Responses -/

inductive ErrCode where
  | badRequest
  | alreadyInit
  | notInit
  | noKey
  | keyExists
  | locked
  | badPin
  | lockedOut
  | badMode
  | entropy
  | flash
  | busy
  | internal
deriving DecidableEq, Repr

structure HsmError where
  code : ErrCode
  message : String
  remainingAttempts : Option Nat := none
  backoffMs : Option Nat := none
deriving DecidableEq, Repr

structure StatusResp where
  state : String
  mode : String
  keyPresent : Bool
  unlocked : Bool
  clockSet : Bool
  unixSeconds : Option Int64
  uptimeMs : UInt64
  retryRemaining : Option Nat
  fwVersion : String
  serial : String
  heapFreeBytes : UInt64
  otpSecret : Bool
  glitchArmed : Bool
  secureBoot : Bool
  glitchReset : Bool
deriving DecidableEq, Repr

structure SelfTestResp where
  ok : Bool
  ed25519Kat : Bool
  sha2Kat : Bool
  aeadKat : Bool
  drbgHealth : Bool
  flashCrc : Bool
  otpSecret : Bool
deriving DecidableEq, Repr

inductive HsmResponse where
  | error (e : HsmError)
  | init (ok : Bool) (mode : String)
  | generateKey (ok : Bool) (publicKey : String)
  | getPublicKey (publicKey : String)
  | unlock (ok : Bool)
  | lock (ok : Bool)
  | setTime (ok : Bool) (uptimeMs : UInt64) (previousSet : Bool)
  | status (resp : StatusResp)
  | changePin (ok : Bool)
  | addEntropy (ok : Bool)
  | selfTest (resp : SelfTestResp)
  | factoryReset (ok : Bool)
  | rebootBootloader (ok : Bool)
deriving DecidableEq, Repr

def HsmResponse.err (code : ErrCode) (message : String) : HsmResponse := .error { code, message }

/-- `metrics::build`.  The `user` CPU slot is the uptime in seconds as an `f64`;
    it is kept here in microseconds, before that division. -/
structure EnclaveMetrics where
  userMicros : UInt64
  totalBytes : UInt64
  availableBytes : UInt64
  freeBytes : UInt64
deriving DecidableEq, Repr

inductive Response where
  | loadKeySigner (success : Bool)
  | error (message : String)
  | signSshKey (signedKey : String)
  | pong (signerLoaded : Bool)
  | enclaveMetrics (m : EnclaveMetrics)
  | hsm (resp : HsmResponse)
deriving DecidableEq, Repr

end PicoSignet
