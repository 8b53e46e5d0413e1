import PicoSignet.Pin
import PicoSignet.Clock
import PicoSignet.SshWire

/-!
# The dispatcher

Mirror of `hsm-core/src/dispatch.rs`.  A handler is a program over the session
`Hsm`; it stops early on a power cut inside a flash operation or on a panic.  The
monotonic timer stands still while one request is served.
-/

set_option autoImplicit false

namespace PicoSignet

open Crash

/-- The device session.  The HAL objects are its first three fields. -/
structure Hsm (P : Prims) where
  entropy : Entropy
  mono : UInt64
  flash : Flash
  drbg : Drbg P
  clock : Clock
  state : DeviceState
  config : Option DeviceConfig
  ca : Option CaKey
  caPubkey : Option (Bytes 32)
  wrapKek : Option (Bytes 32)
  wrapSalt : Option (Bytes 16)
  pinBackoffUntilMs : UInt64
  trustedTimeFloor : Option Int64
  trustedTimeFloorUnavailable : Bool
  physicalRecoveryAuthorized : Bool
  heapFree : UInt64
  glitchArmed : Bool
  secureBoot : Bool
  glitchReset : Bool
  rebootRequested : Bool

/-- Why a handler does not return. -/
inductive Halt where
  | powerLoss
  | panic
deriving DecidableEq, Repr

abbrev Dev (P : Prims) := EStateM Halt (Hsm P)

def DEFAULT_ARGON : Argon2Params := { mCost := 256, tCost := 14, parallelism := 1 }
def PIN_MIN : Nat := 6
def PIN_MAX : Nat := 64
def MAX_ENTROPY_HEX : Nat := 1024
def CA_COMMENT : String := "picosignet-ca"
def FW_VERSION : String := "0.3.0"
/-- `fw_version_triple()`, the parsed `FW_VERSION`. -/
def fwVersionTriple : Bytes 3 := #v[0, 3, 0]
def TOTAL_SRAM_BYTES : UInt64 := 520 * 1024

def modeDev : Str := ['d', 'e', 'v']
def modeProd : Str := ['p', 'r', 'o', 'd']
def confirmErase : Str := ['E', 'R', 'A', 'S', 'E']

/-- Seed, wrapping KEK and salt recovered by a PIN. -/
abbrev UnlockedSeed := Bytes 32 × Bytes 32 × Bytes 16

variable {P : Prims}

/-- Run code over `&mut self.flash`; a HAL error is a value, a power cut is not. -/
def onFlash {α : Type} (m : FlashM α) : Dev P (Except HalError α) := fun h =>
  match m h.flash with
  | .ok a f => .ok (.ok a) { h with flash := f }
  | .error (.hal e) f => .ok (.error e) { h with flash := f }
  | .error .powerLoss f => .error .powerLoss { h with flash := f }

/-- The timer in milliseconds. -/
def Hsm.nowMs (h : Hsm P) : UInt64 := h.mono / 1000

/-! ### Helpers -/

/-- `drop_live_secrets`. -/
def Hsm.dropLiveSecrets (h : Hsm P) : Hsm P :=
  { h with ca := none, wrapKek := none, wrapSalt := none }

/-- `enter_locked_out`. -/
def Hsm.enterLockedOut (h : Hsm P) : Hsm P := { h.dropLiveSecrets with state := .lockedOut }

def ensureSeeded : Dev P (Except HalError Unit) := do
  let h ← get
  if h.drbg.seeded then return .ok ()
  match h.drbg.seed h.entropy with
  | (.ok drbg, entropy) =>
    set { h with drbg, entropy }
    return .ok ()
  | (.error e, entropy) =>
    set { h with entropy }
    return .error e

def prepareKeygenEntropy : Dev P (Except HalError Unit) := do
  match ← ensureSeeded with
  | .error e => return .error e
  | .ok () =>
    let h ← get
    match h.drbg.reseed h.entropy with
    | (.ok drbg, entropy) =>
      set { h with drbg, entropy }
      return .ok ()
    | (.error e, entropy) =>
      set { h with entropy }
      return .error e

def randomArray (n : Nat) : Dev P (Bytes n) := do
  let h ← get
  let (bytes, drbg) := h.drbg.randomArray n
  set { h with drbg }
  return bytes

def nextU64 : Dev P UInt64 := do
  let h ← get
  let (v, drbg) := h.drbg.nextU64
  set { h with drbg }
  return v

def generateCaKey : Dev P (Bytes 32 × CaKey) := do
  let h ← get
  let (key, drbg) := CaKey.generate h.drbg
  set { h with drbg }
  return key

/-- Erase both KEY copies and confirm that no record remains, twice at most. -/
def eraseKeyVerified : (tries : Nat) → Dev P Bool
  | 0 => return false
  | tries + 1 => do
    let _ ← onFlash (note .wipe)
    let _ ← onFlash KEY.eraseBoth
    match ← onFlash (KEY.readLatest P.crc32) with
    | .ok none => return true
    | _ => eraseKeyVerified tries

/-- `reset_pin_counter_best_effort`. -/
def resetPinCounterBestEffort : (tries : Nat) → Dev P Unit
  | 0 => return ()
  | tries + 1 => do
    match ← onFlash Pin.reset with
    | .ok () => modify fun h => { h with pinBackoffUntilMs := 0 }
    | .error _ => resetPinCounterBestEffort tries

def pinError (code : ErrCode) (message : String) (remaining backoff : Nat) : HsmResponse :=
  .error { code, message, remainingAttempts := some remaining, backoffMs := some backoff }

def hexval (c : UInt8) : Option UInt8 :=
  if 0x30 ≤ c ∧ c ≤ 0x39 then some (c - 0x30)
  else if 0x61 ≤ c ∧ c ≤ 0x66 then some (c - 0x61 + 10)
  else if 0x41 ≤ c ∧ c ≤ 0x46 then some (c - 0x41 + 10)
  else none

/-- `hex_decode`; an odd length leaves a last digit alone, which is refused. -/
def hexDecode : Octets → Option Octets
  | [] => some []
  | [_] => none
  | a :: b :: rest =>
    match hexval a, hexval b, hexDecode rest with
    | some hi, some lo, some out => some ((hi <<< 4 ||| lo) :: out)
    | _, _, _ => none

def hexEncode (b : Octets) : String :=
  String.ofList (b.flatMap fun x =>
    [GoDuration.hexDigit (x.toNat / 16), GoDuration.hexDigit (x.toNat % 16)])

/-- `.ok().flatten()` of a record read, then the decoder. -/
def decodeLatest {α : Type} (decode : Octets → Option α) :
    Except HalError (Option Octets) → Option α
  | .ok payload => payload.bind decode
  | .error _ => none

/-- `.unwrap_or(0)` of a counter read. -/
def countOrZero : Except HalError Nat → Nat
  | .ok n => n
  | .error _ => 0

/-- The boot-time reading of the TIME pair: the floor, and whether it is unavailable. -/
def loadTimeFloor : Except HalError (Option Octets) → Option Int64 × Bool
  | .ok (some bytes) => if bytes.length = 8 then (some (i64FromBe bytes), false) else (none, true)
  | .ok none => (none, false)
  | .error _ => (none, true)

/-! ### Boot -/

/-- The dev branch of `load_from_flash`: without the OTP secret there is no KEK. -/
def Hsm.loadDev (h : Hsm P) (keyblob : Option KeyBlob) : Hsm P :=
  let h := { h with state := .devReady, pinBackoffUntilMs := 0 }
  match h.flash.deviceSecret with
  | .error _ => h
  | .ok secret =>
    let kek := devKek P secret
    let ca := match keyblob with
      | none => h.ca
      | some kb => match unwrapSeed P kek kb with
        | .ok seed => some (CaKey.fromSeed seed)
        | .error _ => h.ca
    { h with ca, wrapKek := some kek }

/-- The prod branch of `load_from_flash`, once the counter has been read. -/
def Hsm.loadProd (h : Hsm P) (c : DeviceConfig) (keyblob : Option KeyBlob) (attempts : Nat) :
    Hsm P :=
  let until_ :=
    if attempts > 0 then satAddU h.nowMs (UInt64.ofNat (Pin.backoffMs (attempts - 1))) else 0
  let h := { h.dropLiveSecrets with pinBackoffUntilMs := until_ }
  if keyblob.isSome && attempts ≥ c.maxRetries.toNat then h.enterLockedOut
  else { h with state := .prodLocked }

def loadFromFlash : Dev P Unit := do
  let cfg := decodeLatest DeviceConfig.fromBytes (← onFlash (CONFIG.readLatest P.crc32))
  let keyblob := decodeLatest KeyBlob.fromBytes (← onFlash (KEY.readLatest P.crc32))
  let (floor, unavailable) := loadTimeFloor (← onFlash (TIME_FLOOR.readLatestFailClosed P.crc32))
  modify fun h =>
    { h with
      trustedTimeFloor := floor
      trustedTimeFloorUnavailable := unavailable
      caPubkey := keyblob.map (·.pubkey)
      wrapSalt := none
      config := cfg }
  match cfg with
  | none =>
    modify fun h =>
      { h with state := .uninitialized, ca := none, wrapKek := none, pinBackoffUntilMs := 0 }
  | some c =>
    match c.mode with
    | .dev => modify fun h => h.loadDev keyblob
    | .prod =>
      let attempts := countOrZero (← onFlash Pin.count)
      modify fun h => h.loadProd c keyblob attempts

/-- The session before anything is loaded. -/
def Hsm.fresh (entropy : Entropy) (mono : UInt64) (flash : Flash) (drbg : Drbg P) : Hsm P :=
  { entropy, mono, flash, drbg, clock := {}, state := .uninitialized, config := none, ca := none,
    caPubkey := none, wrapKek := none, wrapSalt := none, pinBackoffUntilMs := 0,
    trustedTimeFloor := none, trustedTimeFloorUnavailable := false,
    physicalRecoveryAuthorized := false, heapFree := 0, glitchArmed := false, secureBoot := false,
    glitchReset := false, rebootRequested := false }

/-- `Hsm::boot`; a failed seeding is deferred to the first use. -/
def boot (entropy : Entropy) (mono : UInt64) (flash : Flash) :
    EStateM.Result Halt (Hsm P) Unit :=
  let (drbg, entropy) := match (Drbg.new (P := P)).seed entropy with
    | (.ok drbg, entropy) => (drbg, entropy)
    | (.error _, entropy) => (Drbg.new, entropy)
  loadFromFlash (Hsm.fresh entropy mono flash drbg)

/-! ### PIN verification -/

/-- The wrong-PIN branch of `verify_pin`. -/
def wrongPin (cfg : DeviceConfig) (attempts : Nat) : Dev P (Except HsmResponse UnlockedSeed) := do
  let max := cfg.maxRetries.toNat
  let backoff := Pin.backoffMs (attempts - 1)
  modify fun h => { h with pinBackoffUntilMs := satAddU h.nowMs (UInt64.ofNat backoff) }
  if attempts ≥ max then
    modify Hsm.enterLockedOut
    if cfg.wipeOnLockout then
      if ← eraseKeyVerified 2 then
        modify fun h => { h with caPubkey := none }
      else
        return .error (pinError .flash
          "lockout reached but key wipe failed; key material may remain" 0 backoff)
    return .error (pinError .lockedOut "too many attempts; device locked out" 0 backoff)
  else
    return .error (pinError .badPin "incorrect PIN" (max - attempts) backoff)

def verifyPin (pin : Str) : Dev P (Except HsmResponse UnlockedSeed) := do
  let h ← get
  match h.config with
  | none => throw .panic
  | some cfg =>
  match ← onFlash Pin.count with
  | .error _ => return .error (.err .flash "counter read failed")
  | .ok priorFailures =>
  if priorFailures > 0 && h.nowMs < h.pinBackoffUntilMs then
    return .error (pinError .busy "still backing off after a recent failed attempt"
      (cfg.maxRetries.toNat - priorFailures) ((h.pinBackoffUntilMs - h.nowMs).toNat % 2 ^ 32))
  match ← onFlash Pin.tick with
  | .error _ => return .error (.err .flash "counter write failed")
  | .ok attempts =>
  match ← onFlash (KEY.readLatest P.crc32) with
  | .error _ => return .error (.err .flash "key read failed")
  | .ok none => return .error (.err .noKey "no CA key present")
  | .ok (some b) =>
  match KeyBlob.fromBytes b with
  | none => return .error (.err .internal "corrupt key blob")
  | some blob =>
  match h.flash.deviceSecret with
  | .error _ => return .error (.err .internal "device secret unavailable")
  | .ok secret =>
  match pinKek P pin.bytes blob.salt cfg.argon2 secret with
  | .error _ => return .error (.err .internal "key derivation failed")
  | .ok kek =>
  match unwrapSeed P kek blob with
  | .ok seed =>
    let _ ← onFlash (note (.tried cfg.maxRetries true))
    resetPinCounterBestEffort 2
    return .ok (seed, kek, blob.salt)
  | .error _ =>
    let _ ← onFlash (note (.tried cfg.maxRetries false))
    wrongPin cfg attempts

/-! ### Signer path -/

def handlePing : Dev P Response := do
  let h ← get
  return .pong (h.state.signerReady && h.ca.isSome && h.clock.isSet)

def handleMetrics : Dev P Response := do
  let h ← get
  return .enclaveMetrics
    { userMicros := h.mono, totalBytes := TOTAL_SRAM_BYTES, availableBytes := h.heapFree,
      freeBytes := h.heapFree }

def notInitialized : Response :=
  .error "CA signer is not initialized; call LoadKeySigner first"

def handleLoadKeySigner : Dev P Response := do
  let h ← get
  if h.state.signerReady && h.ca.isSome then return .loadKeySigner true
  return notInitialized

/-- The certificate fields of an accepted request, signed at `now`. -/
def certParams (req : EnclaveSigningRequest) (v : Validated) (nonce : Bytes 32) (serial : UInt64)
    (now : Int64) : CertParams :=
  { certAlgo := v.key.certAlgo
    keyBody := v.key.keyBody
    nonce
    serial
    keyId := req.keyId
    principals := req.principals
    validAfter := now.toUInt64 - 300
    validBefore := now.toUInt64 + (v.durationNs / 1000000000).toUInt64
    criticalOptions := v.criticalOptions
    extensions := v.extensions }

def handleSign (req : EnclaveSigningRequest) : Dev P Response := do
  let h ← get
  if !h.state.signerReady || h.ca.isNone then return notInitialized
  match h.clock.nowUnix h.mono with
  | none => return .error "device clock not set; send hsm.setTime first"
  | some now =>
  match validate P req with
  | .error msg => return .error msg
  | .ok v =>
  match ← ensureSeeded with
  | .error _ => return .error "internal error: entropy unavailable"
  | .ok () =>
    let nonce ← randomArray 32
    let serial ← nextU64
    let h ← get
    match h.ca with
    | none => throw .panic
    | some ca => return .signSshKey (buildCertificate P (certParams req v nonce serial now) ca)

/-! ### Management path -/

/-- The gate that `factoryReset` and `rebootBootloader` share: `none` lets the
    command through. -/
def destructiveGate (pin : Option Str) (noPin : String) : Dev P (Option HsmResponse) := do
  let h ← get
  match h.state with
  | .prodLocked | .prodReady =>
    if h.physicalRecoveryAuthorized then return none
    match pin with
    | some pin =>
      match ← verifyPin pin with
      | .error resp => return some resp
      | .ok _ => return none
    | none => return some (.err .badRequest noPin)
  | .lockedOut =>
    if h.physicalRecoveryAuthorized then return none
    return some (.err .lockedOut "device locked out; hold physical recovery low during reset")
  | .uninitialized | .devReady => return none

def hsmRebootBootloader (req : RebootBootloaderReq) : Dev P HsmResponse := do
  match ← destructiveGate req.pin
      "rebooting into the bootloader requires a PIN or physical recovery held low during reset" with
  | some resp => return resp
  | none =>
    modify fun h => { h with rebootRequested := true }
    return .rebootBootloader true

def initDev : Dev P HsmResponse := do
  let h ← get
  match h.flash.deviceSecret with
  | .error _ => return .err .internal "device secret unavailable"
  | .ok secret =>
  let cfg : DeviceConfig :=
    { mode := .dev, argon2 := DEFAULT_ARGON, maxRetries := 0, wipeOnLockout := false,
      fwVersion := fwVersionTriple }
  match ← onFlash (CONFIG.write P.crc32 cfg.toBytes) with
  | .error _ => return .err .flash "failed to write config"
  | .ok () =>
    modify fun h =>
      { h with config := some cfg, state := .devReady, wrapKek := some (devKek P secret) }
    return .init true "dev"

def initProd (req : InitReq) : Dev P HsmResponse := do
  match req.pin with
  | none => return .err .badRequest "prod mode requires a pin"
  | some pin =>
  if ¬ (PIN_MIN ≤ pin.len ∧ pin.len ≤ PIN_MAX) then
    return .err .badRequest "pin must be 6..64 bytes"
  match ← prepareKeygenEntropy with
  | .error _ => return .err .entropy "entropy source unhealthy"
  | .ok () =>
  let salt ← randomArray 16
  let maxRetries := req.maxRetries.getD 10
  if maxRetries = 0 then return .err .badRequest "maxRetries must be between 1 and 255"
  let wipe := req.wipeOnLockout.getD false
  let h ← get
  match h.flash.deviceSecret with
  | .error _ => return .err .internal "device secret unavailable"
  | .ok secret =>
  let (seed, ca) ← generateCaKey
  let pubkey := ca.publicBytes P
  match pinKek P pin.bytes salt DEFAULT_ARGON secret with
  | .error _ => return .err .internal "key derivation failed"
  | .ok kek =>
  let nonce ← randomArray 12
  let blob := wrapSeed P kek seed pubkey .pinKek salt nonce
  -- the key first: a config found at boot then implies a key
  match ← onFlash (KEY.write P.crc32 blob.toBytes) with
  | .error _ => return .err .flash "failed to write key"
  | .ok () =>
  let cfg : DeviceConfig :=
    { mode := .prod, argon2 := DEFAULT_ARGON, maxRetries, wipeOnLockout := wipe,
      fwVersion := fwVersionTriple }
  match ← onFlash (CONFIG.write P.crc32 cfg.toBytes) with
  | .error _ => return .err .flash "failed to write config"
  | .ok () =>
  resetPinCounterBestEffort 2
  modify fun h =>
    { h with config := some cfg, caPubkey := some pubkey, ca := none, wrapKek := none,
             wrapSalt := none, pinBackoffUntilMs := 0, state := .prodLocked }
  return .init true "prod"

def hsmInit (req : InitReq) : Dev P HsmResponse := do
  let h ← get
  if h.config.isSome then
    return .err .alreadyInit "device already initialized; factory-reset first"
  if req.mode = modeDev then initDev
  else if req.mode = modeProd then initProd req
  else return .err .badMode "mode must be \"dev\" or \"prod\""

/-- The salt a rotated blob carries: the one behind the cached KEK in prod, a drawn
    one in dev; `none` where the KEK has no salt to go with it. -/
def rotationSalt (wrapType : WrapType) (wrapSalt : Option (Bytes 16)) :
    Option (Dev P (Bytes 16)) :=
  match wrapType, wrapSalt with
  | .devKek, _ => some (randomArray 16)
  | .pinKek, some s => some (pure s)
  | .pinKek, none => none

def WrapType.ofMode : Mode → WrapType
  | .dev => .devKek
  | .prod => .pinKek

/-- `hsm_generate_key` once the state and `force` are settled. -/
def generateKeyReady (h : Hsm P) : Dev P HsmResponse := do
  match h.config with
  | none => return .err .notInit "initialize the device first"
  | some cfg =>
  match h.wrapKek with
  | none => return .err .locked "unlock the device first"
  | some kek =>
  match ← prepareKeygenEntropy with
  | .error _ => return .err .entropy "entropy source unhealthy"
  | .ok () =>
  match rotationSalt (WrapType.ofMode cfg.mode) h.wrapSalt with
  | none => return .err .locked "unlock the device first"
  | some drawSalt =>
  let (seed, ca) ← generateCaKey
  let pubkey := ca.publicBytes P
  let nonce ← randomArray 12
  let salt ← drawSalt
  let blob := wrapSeed P kek seed pubkey (WrapType.ofMode cfg.mode) salt nonce
  match ← onFlash (KEY.write P.crc32 blob.toBytes) with
  | .error _ => return .err .flash "failed to write key"
  | .ok () =>
  modify fun h => { h with ca := some ca, caPubkey := some pubkey }
  return .generateKey true (ca.authorizedLine P CA_COMMENT)

def hsmGenerateKey (req : GenerateKeyReq) : Dev P HsmResponse := do
  let h ← get
  match h.state with
  | .prodLocked | .lockedOut => return .err .locked "unlock the device first"
  | .uninitialized => return .err .notInit "initialize the device first"
  | .devReady | .prodReady =>
    if h.caPubkey.isSome && !req.force then
      return .err .keyExists "key already exists; pass force=true"
    generateKeyReady h

def hsmGetPublicKey : Dev P HsmResponse := do
  let h ← get
  match h.caPubkey with
  | some pk => return .getPublicKey (authorizedLineFromPubkey P pk CA_COMMENT)
  | none => return .err .noKey "no CA key present"

def hsmUnlock (req : UnlockReq) : Dev P HsmResponse := do
  let h ← get
  match h.state with
  | .prodReady => return .unlock true
  | .prodLocked =>
    match ← verifyPin req.pin with
    | .ok (seed, kek, salt) =>
      modify fun h =>
        { h with ca := some (CaKey.fromSeed seed), wrapKek := some kek, wrapSalt := some salt,
                 state := .prodReady }
      return .unlock true
    | .error resp => return resp
  | .lockedOut => return .err .lockedOut "device locked out; factory-reset required"
  | .devReady => return .err .badMode "device is in dev mode; no unlock required"
  | .uninitialized => return .err .notInit "initialize the device first"

def hsmLock : Dev P HsmResponse := do
  let h ← get
  match h.state with
  | .prodReady =>
    modify fun h => { h.dropLiveSecrets with state := .prodLocked }
    return .lock true
  | .prodLocked | .lockedOut =>
    modify Hsm.dropLiveSecrets
    return .lock true
  | .devReady => return .err .badMode "dev mode cannot be locked"
  | .uninitialized => return .err .notInit "initialize the device first"

/-- The first-set check against the persisted floor. -/
def Hsm.floorRejects (h : Hsm P) (unixSeconds : Int64) : Bool :=
  !h.clock.isSet && !h.physicalRecoveryAuthorized &&
    match h.trustedTimeFloor with
    | some floor => Clock.tooFar unixSeconds floor
    | none => false

/-- The floor after an accepted set: a first value, or hourly monotonic progress. -/
def Hsm.nextFloor (h : Hsm P) (next : Clock) (unixSeconds : Int64) : Option Int64 :=
  if !h.clock.isSet && (h.trustedTimeFloor.isNone || h.physicalRecoveryAuthorized) then
    some unixSeconds
  else
    match h.trustedTimeFloor, next.trustedNow h.mono with
    | some floor, some now => if satSub now floor ≥ 3600 then some now else some floor
    | floor, _ => floor

def hsmSetTime (req : SetTimeReq) : Dev P HsmResponse := do
  let h ← get
  if h.trustedTimeFloorUnavailable then
    return .err .flash
      "trusted time state is unavailable; reboot or factory-reset after repairing flash"
  if h.floorRejects req.unixSeconds then
    return .err .badRequest
      "unixSeconds drifts too far from persisted trusted time; use physical recovery to re-anchor"
  match h.clock.set h.mono req.unixSeconds with
  | none =>
    return .err .badRequest
      "unixSeconds is implausible or drifts too far from the device's tracked time"
  | some (previousSet, nextClock) =>
  let oldFloor := h.trustedTimeFloor
  let nextFloor := h.nextFloor nextClock req.unixSeconds
  if nextFloor ≠ oldFloor then
    match nextFloor with
    | none => throw .panic
    | some floor =>
    match ← onFlash (TIME_FLOOR.write P.crc32 (i64ToBe floor)) with
    | .error _ => return .err .flash "failed to persist trusted time floor"
    | .ok () =>
      modify fun h => { h with clock := nextClock, trustedTimeFloor := nextFloor }
      return .setTime true h.nowMs previousSet
  else
    modify fun h => { h with clock := nextClock, trustedTimeFloor := nextFloor }
    return .setTime true h.nowMs previousSet

/-- The attempts left, for a production config. -/
def retryRemaining : Option DeviceConfig → Dev P (Option Nat)
  | none => pure none
  | some c => do
    if c.mode = .prod then
      let used := countOrZero (← onFlash Pin.count)
      pure (some (c.maxRetries.toNat - used))
    else pure none

def hsmStatus : Dev P HsmResponse := do
  let h ← get
  let mode := match h.config.map DeviceConfig.mode with
    | some .dev => "dev"
    | some .prod => "prod"
    | none => "none"
  let retryRemaining ← retryRemaining h.config
  return .status
    { state := h.state.asStr, mode, keyPresent := h.caPubkey.isSome, unlocked := h.ca.isSome,
      clockSet := h.clock.isSet, unixSeconds := h.clock.nowUnix h.mono, uptimeMs := h.nowMs,
      retryRemaining, fwVersion := FW_VERSION, serial := hexEncode h.flash.uniqueId.toList,
      heapFreeBytes := h.heapFree, otpSecret := h.flash.deviceSecret.isOk,
      glitchArmed := h.glitchArmed, secureBoot := h.secureBoot, glitchReset := h.glitchReset }

/-- The second half of `hsm_change_pin`: re-wrap the seed under a fresh salt and
    the new PIN, in one KEY record. -/
def rewrapSeed (newPin : Str) (wasReady : Bool) (seed : Bytes 32) : Dev P HsmResponse := do
  match ← prepareKeygenEntropy with
  | .error _ => return .err .entropy "entropy source unhealthy"
  | .ok () =>
  let newSalt ← randomArray 16
  let h ← get
  match h.config with
  | none => throw .panic
  | some cfg =>
  match h.flash.deviceSecret with
  | .error _ => return .err .internal "device secret unavailable"
  | .ok secret =>
  match pinKek P newPin.bytes newSalt cfg.argon2 secret with
  | .error _ => return .err .internal "key derivation failed"
  | .ok newKek =>
  match h.caPubkey with
  | none => return .err .noKey "no CA key present"
  | some pubkey =>
  let nonce ← randomArray 12
  let blob := wrapSeed P newKek seed pubkey .pinKek newSalt nonce
  match ← onFlash (KEY.write P.crc32 blob.toBytes) with
  | .error _ => return .err .flash "failed to write key"
  | .ok () =>
  resetPinCounterBestEffort 2
  if wasReady then
    modify fun h =>
      { h with ca := some (CaKey.fromSeed seed), wrapKek := some newKek,
               wrapSalt := some newSalt, state := .prodReady }
  else
    modify fun h => { h.dropLiveSecrets with state := .prodLocked }
  return .changePin true

def hsmChangePin (req : ChangePinReq) : Dev P HsmResponse := do
  let h ← get
  match h.state with
  | .lockedOut => return .err .lockedOut "device locked out; factory-reset required"
  | .devReady => return .err .badMode "dev mode has no PIN"
  | .uninitialized => return .err .notInit "initialize the device first"
  | .prodReady | .prodLocked =>
  if ¬ (PIN_MIN ≤ req.newPin.len ∧ req.newPin.len ≤ PIN_MAX) then
    return .err .badRequest "new pin must be 6..64 bytes"
  match ← verifyPin req.currentPin with
  | .error resp => return resp
  | .ok (seed, _, _) => rewrapSeed req.newPin (h.state = .prodReady) seed

def hsmAddEntropy (req : AddEntropyReq) : Dev P HsmResponse := do
  match hexDecode req.hex.bytes with
  | some b =>
    if b.length ≤ MAX_ENTROPY_HEX then
      modify fun h => { h with drbg := h.drbg.mixHost b }
      return .addEntropy true
    else return .err .badRequest "too much entropy (max 1024 bytes)"
  | none => return .err .badRequest "hex must be valid hexadecimal"

def hsmSelfTest : Dev P HsmResponse := do
  let h ← get
  let flashOk := match ← onFlash (CONFIG.readLatest P.crc32) with
    | .ok _ => true
    | .error _ => false
  let otp := h.flash.deviceSecret.isOk
  return .selfTest
    { ok := P.ed25519Kat && P.sha512Kat && P.aeadKat && flashOk && otp
      ed25519Kat := P.ed25519Kat, sha2Kat := P.sha512Kat, aeadKat := P.aeadKat
      drbgHealth := h.drbg.seeded, flashCrc := flashOk, otpSecret := otp }

/-- The erase phase of `factoryReset`: whether every region is verifiably gone. -/
def eraseEverything : Dev P Bool := do
  let keyGone ← eraseKeyVerified 2
  let cfgOk := (← onFlash CONFIG.eraseBoth).isOk
  let timeOk := (← onFlash TIME_FLOOR.eraseBoth).isOk
  let pinOk := (← onFlash Pin.reset).isOk
  let cfgGone := match ← onFlash (CONFIG.readLatest P.crc32) with
    | .ok none => true
    | _ => false
  let timeGone := match ← onFlash (TIME_FLOOR.readLatest P.crc32) with
    | .ok none => true
    | _ => false
  return keyGone && cfgOk && timeOk && pinOk && cfgGone && timeGone

def hsmFactoryReset (req : FactoryResetReq) : Dev P HsmResponse := do
  if req.confirm ≠ confirmErase then return .err .badRequest "confirm must be \"ERASE\""
  match ← destructiveGate req.pin
      "factory-reset requires a PIN or physical recovery held low during reset" with
  | some resp => return resp
  | none =>
    modify Hsm.dropLiveSecrets
    if ← eraseEverything then
      modify fun h =>
        { h with caPubkey := none, config := none, trustedTimeFloor := none,
                 trustedTimeFloorUnavailable := false, pinBackoffUntilMs := 0,
                 state := .uninitialized }
      return .factoryReset true
    else
      loadFromFlash
      return .err .flash "factory reset incomplete; key material may remain — retry"

/-- How many commands an envelope sets. -/
def HsmRequest.commands (h : HsmRequest) : Nat :=
  [h.init.isSome, h.generateKey.isSome, h.getPublicKey.isSome, h.unlock.isSome, h.lock.isSome,
    h.setTime.isSome, h.status.isSome, h.changePin.isSome, h.addEntropy.isSome,
    h.selfTest.isSome, h.factoryReset.isSome, h.rebootBootloader.isSome].count true

def exactlyOne : HsmResponse := .err .badRequest "exactly one hsm command expected"

def handleHsm (h : HsmRequest) : Dev P HsmResponse :=
  if h.commands ≠ 1 then pure exactlyOne
  else match h.init with
  | some r => hsmInit r
  | none => match h.generateKey with
  | some r => hsmGenerateKey r
  | none => match h.getPublicKey with
  | some _ => hsmGetPublicKey
  | none => match h.unlock with
  | some r => hsmUnlock r
  | none => match h.lock with
  | some _ => hsmLock
  | none => match h.setTime with
  | some r => hsmSetTime r
  | none => match h.status with
  | some _ => hsmStatus
  | none => match h.changePin with
  | some r => hsmChangePin r
  | none => match h.addEntropy with
  | some r => hsmAddEntropy r
  | none => match h.selfTest with
  | some _ => hsmSelfTest
  | none => match h.factoryReset with
  | some r => hsmFactoryReset r
  | none => match h.rebootBootloader with
  | some r => hsmRebootBootloader r
  | none => pure exactlyOne

def Request.variants (r : Request) : Nat :=
  [r.loadKeySigner.isSome, r.signSshKey.isSome, r.ping.isSome, r.getEnclaveMetrics.isSome,
    r.hsm.isSome].count true

/-- The routing half of `handle`, for a line that parsed. -/
def handleRequest (r : Request) : Dev P Response := do
  if r.variants > 1 then
    return .error "multiple request variants set; expected exactly one"
  match r.loadKeySigner with
  | some _ => handleLoadKeySigner
  | none => match r.signSshKey with
  | some s => handleSign s
  | none => match r.ping with
  | some _ => handlePing
  | none => match r.getEnclaveMetrics with
  | some _ => handleMetrics
  | none => match r.hsm with
  | some h => do
    let resp ← handleHsm h
    return .hsm resp
  | none => return .error "unexpected command"

def isJsonSpace (b : UInt8) : Bool := b == 0x20 || b == 0x09 || b == 0x0A || b == 0x0D

/-- The parsing half of `handle`: only an object is a request. -/
def parseLine (line : Octets) : Except String Request :=
  if line.find? (fun b => !isJsonSpace b) ≠ some 0x7B then
    .error "json.Unmarshal failed: request must be a JSON object"
  else
    match P.parseRequest line with
    | .ok r => .ok r
    | .error e => .error ("json.Unmarshal failed: " ++ e)

def handle (line : Octets) : Dev P Response :=
  match parseLine (P := P) line with
  | .error e => pure (.error e)
  | .ok r => handleRequest r

/-- `relock_on_transport_reset`. -/
def Hsm.relockOnTransportReset (h : Hsm P) : Hsm P :=
  let productionState := h.state = .prodLocked ∨ h.state = .prodReady ∨ h.state = .lockedOut
  let productionConfig := h.config.map DeviceConfig.mode = some .prod
  if productionState ∨ productionConfig then
    if h.state = .prodReady then { h.dropLiveSecrets with state := .prodLocked }
    else h.dropLiveSecrets
  else h

end PicoSignet
