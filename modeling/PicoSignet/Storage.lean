import PicoSignet.Hal

/-!
# Power-fail-safe flash records

Mirror of `hsm-core/src/storage.rs`.  A record is
`magic | version | seq | len | payload | crc32`, one to a sector, and every
structured value lives in an A/B pair of sectors.  The CRC comes from a library
of its own and is a parameter here.
-/

set_option autoImplicit false

namespace PicoSignet

/-- ASCII "UHSM". -/
def MAGIC : Octets := [0x55, 0x48, 0x53, 0x4D]
def VERSION : Nat := 2
/-- magic(4) + version(2) + seq(4) + len(2). -/
def HEADER : Nat := 12

section Records

variable (crc : Octets → UInt32)

/-- `parse_record`.  The source's first test, `sector.len() < HEADER + 4`, is
    settled by the sector's type. -/
def parseRecord (s : Sector) : Option (UInt32 × Octets) :=
  if s.slice 0 4 ≠ MAGIC then none
  else if beNat (s.slice 4 2) ≠ VERSION then none
  else
    let seq := UInt32.ofNat (beNat (s.slice 6 4))
    let len := beNat (s.slice 10 2)
    let fin := HEADER + len
    if fin + 4 > SECTOR_LEN then none
    else if (crc (s.slice 0 fin)).toNat ≠ beNat (s.slice fin 4) then none
    else some (seq, s.slice HEADER len)

/-- Everything the CRC covers. -/
def recordBody (seq : UInt32) (payload : Octets) : Octets :=
  MAGIC ++ beBytes 2 VERSION ++ beBytes 4 seq.toNat ++ beBytes 2 payload.length ++ payload

/-- The sector image `write_record` prepares in RAM. -/
def recordImage (seq : UInt32) (payload : Octets) : Sector :=
  Sector.ofOctets (recordBody seq payload ++ beBytes 4 (crc (recordBody seq payload)).toNat)

/-- The page loop of `write_record`: `count` pages from page `p` on. -/
def programPages (r : Region) (image : Sector) : (count p : Nat) → FlashM Unit
  | 0, _ => pure ()
  | count + 1, p => do
    program r (p * PAGE_LEN) (image.slice (p * PAGE_LEN) PAGE_LEN)
    programPages r image count (p + 1)

/-- `usize::div_ceil`. -/
def divCeil (n d : Nat) : Nat := (n + d - 1) / d

def writeRecord (r : Region) (seq : UInt32) (payload : Octets) : FlashM Unit := do
  let total := HEADER + payload.length + 4
  if total > SECTOR_LEN then
    throw (.hal .outOfRange)
  else
    let f ← get
    note (.record r (f.sector r) seq payload)
    erase r
    programPages r (recordImage crc seq payload) (divCeil total PAGE_LEN) 0

def readRecord (r : Region) : FlashM (Option (UInt32 × Octets)) := do
  let buf ← read r
  pure (parseRecord crc buf)

inductive RecordState where
  | erased
  | valid (seq : UInt32) (payload : Octets)
  | invalid
deriving DecidableEq, Repr

def Sector.isErased (s : Sector) : Bool := (s.slice 0 SECTOR_LEN).all (· == 0xFF)

/-- What a sector holds, as `read_record_state` sorts it. -/
def recordState (s : Sector) : RecordState :=
  if s.isErased then .erased
  else match parseRecord crc s with
    | some (seq, payload) => .valid seq payload
    | none => .invalid

def readRecordState (r : Region) : FlashM RecordState := do
  let buf ← read r
  pure (recordState crc buf)

end Records

/-! ### A/B pairs -/

/-- Two sectors that hold one record.  The two are never the same sector. -/
structure AbPair where
  a : Region
  b : Region
  distinct : a ≠ b

def TIME_FLOOR : AbPair := ⟨.timeA, .timeB, by decide⟩
def CONFIG : AbPair := ⟨.configA, .configB, by decide⟩
def KEY : AbPair := ⟨.keyA, .keyB, by decide⟩

section Pairs

variable (crc : Octets → UInt32)

/-- The choice `read_latest` makes between the two parsed copies. -/
def latestOf : Option (UInt32 × Octets) → Option (UInt32 × Octets) → Option Octets
  | none, none => none
  | some (_, p), none => some p
  | none, some (_, p) => some p
  | some (sa, pa), some (sb, pb) => if sa ≥ sb then some pa else some pb

def AbPair.readLatest (pair : AbPair) : FlashM (Option Octets) := do
  let ra ← readRecord crc pair.a
  let rb ← readRecord crc pair.b
  pure (latestOf ra rb)

/-- The choice `read_latest_fail_closed` makes; `none` is its `Err`. -/
def latestFailClosed : RecordState → RecordState → Option (Option Octets)
  | .valid sa pa, .valid sb pb => if sa ≥ sb then some (some pa) else some (some pb)
  | .valid _ payload, _ => some (some payload)
  | _, .valid _ payload => some (some payload)
  | .erased, .erased => some none
  | _, _ => none

def AbPair.readLatestFailClosed (pair : AbPair) : FlashM (Option Octets) := do
  let ra ← readRecordState crc pair.a
  let rb ← readRecordState crc pair.b
  match latestFailClosed ra rb with
  | some payload => pure payload
  | none => throw (.hal .flash)

/-- `seq` of a copy; a missing copy counts as 0. -/
def seqOf (record : Option (UInt32 × Octets)) : UInt32 := (record.map (·.1)).getD 0

/-- `max(existing) + 1`, wrapping. -/
def nextSeq (ra rb : Option (UInt32 × Octets)) : UInt32 := max (seqOf ra) (seqOf rb) + 1

/-- The lower-seq copy, A on a tie. -/
def AbPair.target (pair : AbPair) (ra rb : Option (UInt32 × Octets)) : Region :=
  if seqOf ra ≤ seqOf rb then pair.a else pair.b

def AbPair.write (pair : AbPair) (payload : Octets) : FlashM Unit := do
  let ra ← readRecord crc pair.a
  let rb ← readRecord crc pair.b
  writeRecord crc (pair.target ra rb) (nextSeq ra rb) payload

def AbPair.eraseBoth (pair : AbPair) : FlashM Unit := do
  erase pair.a
  erase pair.b

end Pairs

/-! ### Payloads -/

inductive Mode where
  | dev
  | prod
deriving DecidableEq, Repr

structure Argon2Params where
  mCost : UInt32
  tCost : UInt32
  parallelism : UInt8
deriving DecidableEq, Repr

structure DeviceConfig where
  mode : Mode
  argon2 : Argon2Params
  maxRetries : UInt8
  wipeOnLockout : Bool
  fwVersion : Bytes 3
deriving DecidableEq, Repr

def DeviceConfig.toBytes (c : DeviceConfig) : Octets :=
  (match c.mode with | .dev => 0 | .prod => 1) ::
    (beBytes 4 c.argon2.mCost.toNat ++ beBytes 4 c.argon2.tCost.toNat ++
      [c.argon2.parallelism, c.maxRetries, if c.wipeOnLockout then 1 else 0] ++
      c.fwVersion.toList)

/-- The `n` bytes of `b` from `off` on; callers have checked the length. -/
def sliceArray (b : Octets) (off n : Nat) : Bytes n := Vector.ofFn fun i => b.getD (off + i.val) 0

def DeviceConfig.fromBytes (b : Octets) : Option DeviceConfig :=
  if b.length < 15 then none
  else
    let rest (mode : Mode) : DeviceConfig :=
      { mode
        argon2 :=
          { mCost := UInt32.ofNat (beNat ((b.drop 1).take 4))
            tCost := UInt32.ofNat (beNat ((b.drop 5).take 4))
            parallelism := b.getD 9 0 }
        maxRetries := b.getD 10 0
        wipeOnLockout := b.getD 11 0 != 0
        fwVersion := sliceArray b 12 3 }
    if b.getD 0 0 = 0 then some (rest .dev)
    else if b.getD 0 0 = 1 then some (rest .prod)
    else none

inductive WrapType where
  | devKek
  | pinKek
deriving DecidableEq, Repr

/-- The wire discriminant; 1 and 2 are retired. -/
def WrapType.toByte : WrapType → UInt8
  | .devKek => 3
  | .pinKek => 4

structure KeyBlob where
  wrapType : WrapType
  aeadNonce : Bytes 12
  pubkey : Bytes 32
  ciphertext : Bytes 32
  tag : Bytes 16
  salt : Bytes 16
deriving DecidableEq, Repr

def KeyBlob.toBytes (k : KeyBlob) : Octets :=
  k.wrapType.toByte ::
    (k.aeadNonce.toList ++ k.pubkey.toList ++ k.ciphertext.toList ++ k.tag.toList ++
      k.salt.toList)

def KeyBlob.fromBytes (b : Octets) : Option KeyBlob :=
  if b.length < 109 then none
  else
    let rest (wrapType : WrapType) : KeyBlob :=
      { wrapType
        aeadNonce := sliceArray b 1 12
        pubkey := sliceArray b 13 32
        ciphertext := sliceArray b 45 32
        tag := sliceArray b 77 16
        salt := sliceArray b 93 16 }
    if b.getD 0 0 = 3 then some (rest .devKek)
    else if b.getD 0 0 = 4 then some (rest .pinKek)
    else none

end PicoSignet
