/-
  PicoSignet/Otp.lean
  ===================
  **The device secret in OTP** — mirror of `hsm-fw/src/otp_secret.rs`.  Two slots,
  each a page of one-time programmable rows, hold the secret that the KEKs are
  bound to; a boot loads it from the first slot that has one, or burns a fresh one
  into the first slot that is blank.

  A row is 24 raw bits and bits are only ever set.  What becomes of a write is the
  environment's choice (`Burn`): it sets the bits it was asked for, or fails or
  loses power having set some of them.  How a row reads is a function of its
  contents (`Access`), which stands for `embassy_rp::otp`.
-/
import PicoSignet.Wrap

set_option autoImplicit false

namespace PicoSignet.Otp

abbrev Raw := BitVec 24
abbrev Word := BitVec 16

/-- OTP pages reserved for the secret, tried in order (primary, fallback). -/
def SLOT_PAGES : List Nat := [61, 60]
def ROWS_PER_PAGE : Nat := 64
def SECRET_ROWS : Nat := 16
def MARKER_VALID : Word := 0xA5C3
def MARKER_VOID : Word := 0xDEAD
def LOCK1_VALUE : Raw := 0x3D3D3D

def lock1Row (page : Nat) : Nat := 0xF80 + 2 * page + 1

def baseRow (page : Nat) : Nat := page * ROWS_PER_PAGE

def markerRow (page : Nat) : Nat := baseRow page + SECRET_ROWS

def voidRow (page : Nat) : Nat := baseRow page + SECRET_ROWS + 1

/-- What the OTP driver does with a row: the code words it burns, and what its two
    reads return for given contents.  A blank row reads as zero. -/
structure Access where
  encode : Word → Raw
  readEcc : Nat → Raw → Option Word
  readRaw : Nat → Raw → Option Raw
  readEcc_blank : ∀ row, readEcc row 0 = some 0
  readRaw_eq : ∀ row x y, readRaw row x = some y → y = x

/-- What becomes of one write. -/
inductive Burn where
  | ok
  | fail (mask : Raw)
  | cut (mask : Raw)
deriving DecidableEq, Repr

/-- The rows, what happens to the next writes (they succeed when the list is
    exhausted), the entropy source of the boot, and the secrets drawn so far. -/
structure Chip where
  row : Nat → Raw
  burns : List Burn
  entropy : Entropy
  draws : List (Bytes 32)

inductive PowerLoss where
  | cut
deriving DecidableEq, Repr

abbrev OtpM := EStateM PowerLoss Chip

/-- Set bits of a row. -/
def Chip.burnt (c : Chip) (row : Nat) (bits : Raw) (burns : List Burn) : Chip :=
  { c with row := Function.update c.row row (c.row row ||| bits), burns }

/-- `write_raw_word`, and `write_ecc_word` of an encoded word. -/
def burn (row : Nat) (bits : Raw) : OtpM (Except HalError Unit) := do
  let c ← get
  match c.burns with
  | [] =>
    set (c.burnt row bits [])
    return .ok ()
  | .ok :: rest =>
    set (c.burnt row bits rest)
    return .ok ()
  | .fail mask :: rest =>
    set (c.burnt row (bits &&& mask) rest)
    return .error .secret
  | .cut mask :: rest =>
    set (c.burnt row (bits &&& mask) rest)
    throw .cut

/-! ### The secret as words -/

/-- `u16::from_le_bytes` of the two bytes of row `i`. -/
def secretWord (secret : Bytes 32) (i : Nat) : Word :=
  (secret.toList.getD (2 * i + 1) 0).toBitVec ++ (secret.toList.getD (2 * i) 0).toBitVec

/-- Byte `k` of `to_le_bytes`. -/
def wordByte (w : Word) (k : Nat) : UInt8 := ⟨w.extractLsb' (8 * k) 8⟩

def degenerate (secret : Bytes 32) : Bool :=
  secret.toList.all (· == 0x00) || secret.toList.all (· == 0xFF)

section Driver

variable (A : Access)

/-- The secret that the first `SECRET_ROWS` rows from `base` on read as. -/
def readSecret (row : Nat → Raw) (base : Nat) : Option (Bytes 32) :=
  if (List.range SECRET_ROWS).all fun i => (A.readEcc (base + i) (row (base + i))).isSome then
    some (Vector.ofFn fun j =>
      wordByte ((A.readEcc (base + j.val / 2) (row (base + j.val / 2))).getD 0) (j.val % 2))
  else none

def rowsBlank (row : Nat → Raw) (base : Nat) : Bool :=
  (List.range SECRET_ROWS).all fun i => A.readEcc (base + i) (row (base + i)) == some 0

def writeVerified (row : Nat) (value : Word) : OtpM (Except HalError Unit) := do
  match ← burn row (A.encode value) with
  | .error _ => return .error .secret
  | .ok () =>
    let c ← get
    if A.readEcc row (c.row row) = some value then return .ok ()
    else return .error .secret

/-- Whether a raw read shows every bit of the page lock. -/
def lockSet (page : Nat) (row : Nat → Raw) : Bool :=
  (A.readRaw (lock1Row page) (row (lock1Row page))).any fun v => v &&& LOCK1_VALUE == LOCK1_VALUE

def ensureHardLock (page : Nat) : OtpM (Except HalError Unit) := do
  let c ← get
  if (A.readRaw (lock1Row page) (c.row (lock1Row page))).isNone then return .error .secret
  if lockSet A page c.row then return .ok ()
  match ← burn (lock1Row page) LOCK1_VALUE with
  | .error _ => return .error .secret
  | .ok () =>
    let c ← get
    if lockSet A page c.row then return .ok ()
    else return .error .secret

/-- Best effort: mark a slot permanently abandoned. -/
def voidSlot (page : Nat) : OtpM Unit := do
  let _ ← burn (voidRow page) (A.encode MARKER_VOID)
  return ()

inductive SlotState where
  | valid (secret : Bytes 32)
  | blank
  | unusable

def tryLoad (page : Nat) : OtpM SlotState := do
  let c ← get
  match A.readEcc (markerRow page) (c.row (markerRow page)) with
  | none => return .unusable
  | some marker =>
  match A.readEcc (voidRow page) (c.row (voidRow page)) with
  | none => return .unusable
  | some void =>
  if void ≠ 0 then return .unusable
  if marker = MARKER_VALID then
    match readSecret A c.row (baseRow page) with
    | none => return .unusable
    | some secret =>
    if degenerate secret then
      voidSlot A page
      return .unusable
    match ← ensureHardLock A page with
    | .error _ =>
      voidSlot A page
      return .unusable
    | .ok () => return .valid secret
  else if marker ≠ 0 then
    voidSlot A page
    return .unusable
  else if rowsBlank A c.row (baseRow page) then
    return .blank
  else
    voidSlot A page
    return .unusable

/-- The rows from `i` on, write-and-verified one by one. -/
def burnRows (page : Nat) (secret : Bytes 32) : (count i : Nat) → OtpM (Except HalError Unit)
  | 0, _ => return .ok ()
  | count + 1, i => do
    match ← writeVerified A (baseRow page + i) (secretWord secret i) with
    | .error e => return .error e
    | .ok () => burnRows page secret count (i + 1)

variable (P : Prims)

/-- Seed a fresh DRBG and draw a secret from it. -/
def drawSecret : OtpM (Except HalError (Bytes 32)) := do
  let c ← get
  match (Drbg.new (P := P)).seed c.entropy with
  | (.error e, entropy) =>
    set { c with entropy }
    return .error e
  | (.ok drbg, entropy) =>
    let secret := (drbg.randomArray 32).1
    set { c with entropy, draws := secret :: c.draws }
    return .ok secret

def provision (page : Nat) : OtpM (Except HalError (Bytes 32)) := do
  match ← drawSecret P with
  | .error e => return .error e
  | .ok secret =>
  if degenerate secret then return .error .entropy
  match ← burnRows A page secret SECRET_ROWS 0 with
  | .error _ =>
    voidSlot A page
    return .error .secret
  | .ok () =>
  match ← writeVerified A (markerRow page) MARKER_VALID with
  | .error _ =>
    voidSlot A page
    return .error .secret
  | .ok () =>
  match ← ensureHardLock A page with
  | .error _ =>
    voidSlot A page
    return .error .secret
  | .ok () => return .ok secret

/-- Hard-lock the other pages, best effort. -/
def lockOthers (page : Nat) : List Nat → OtpM Unit
  | [] => return ()
  | p :: rest => do
    if p ≠ page then
      let _ ← ensureHardLock A p
    lockOthers page rest

/-- A secret was found in, or burned into, `page`. -/
def settle (page : Nat) (secret : Bytes 32) : OtpM (Except HalError (Bytes 32)) := do
  lockOthers A page SLOT_PAGES
  return .ok secret

def loadFrom : List Nat → OtpM (Except HalError (Bytes 32))
  | [] => return .error .secret
  | page :: rest => do
    match ← tryLoad A page with
    | .valid secret => settle A page secret
    | .unusable => loadFrom rest
    | .blank =>
      match ← provision A P page with
      | .ok secret => settle A page secret
      | .error .entropy => return .error .entropy
      | .error _ => loadFrom rest

def loadOrProvision : OtpM (Except HalError (Bytes 32)) := loadFrom A P SLOT_PAGES

/-! ### Histories of boots -/

/-- What a boot brings along. -/
structure Boot where
  burns : List Burn
  entropy : Entropy

/-- One boot: the chip it starts from, what it returns unless the power goes, and
    the chip it leaves. -/
structure Moment where
  before : Chip
  result : Option (Except HalError (Bytes 32))
  after : Chip

def Chip.boot (c : Chip) (b : Boot) : Moment :=
  let before := { c with burns := b.burns, entropy := b.entropy }
  match loadOrProvision A P before with
  | .ok r after => ⟨before, some r, after⟩
  | .error _ after => ⟨before, none, after⟩

/-- The histories, newest boot first, that lead from the given rows to a chip. -/
inductive History (rows : Nat → Raw) : List Moment → Chip → Prop
  | start : History rows [] { row := rows, burns := [], entropy := [], draws := [] }
  | boot {hist : List Moment} {c : Chip} (h : History rows hist c) (b : Boot) :
      History rows (c.boot A P b :: hist) (c.boot A P b).after

end Driver

/-- Nothing was ever burned into the rows of the two slots. -/
def BlankSlots (rows : Nat → Raw) : Prop :=
  ∀ page ∈ SLOT_PAGES, ∀ i, i < SECRET_ROWS + 2 → rows (baseRow page + i) = 0

end PicoSignet.Otp
