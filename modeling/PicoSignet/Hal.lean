import PicoSignet.Crash
import PicoSignet.Words
import Mathlib.Data.List.GetD

/-!
# Hardware abstraction layer

Mirror of `hsm-core/src/hal.rs`, with the semantics of the flash behind the
`FlashStore` trait made explicit.  A sector holds `SECTOR_LEN` bytes, an erase
sets them to `0xFF` and a page program can only clear bits.

What the hardware does with an operation is the environment's choice, so it is
data: `Flash.faults` lists what happens to the next operations, one entry per
operation, and an exhausted list means that everything succeeds.  A power cut in
the middle of an operation leaves the sector torn and stops the program.

`Flash.journal` is a ghost history, newest entry first.  Nothing in the program
reads it.
-/

set_option autoImplicit false

namespace PicoSignet

open Crash

def SECTOR_LEN : Nat := 4096
def PAGE_LEN : Nat := 256

inductive HalError where
  | flash
  | entropy
  | outOfRange
  | secret
deriving DecidableEq, Repr

inductive Region where
  | timeA
  | timeB
  | configA
  | configB
  | keyA
  | keyB
  | pinCounter
deriving DecidableEq, Repr

/-! ### Sectors -/

def Sector : Type := Fin SECTOR_LEN → UInt8

instance : DecidableEq Sector := inferInstanceAs (DecidableEq (Fin SECTOR_LEN → UInt8))

instance : Inhabited Sector := ⟨fun _ => 0xFF⟩

def Sector.erased : Sector := fun _ => 0xFF

/-- Byte `i`; callers stay within the sector. -/
def Sector.get (s : Sector) (i : Nat) : UInt8 :=
  if h : i < SECTOR_LEN then s ⟨i, h⟩ else 0xFF

/-- The `n` bytes from `off` on. -/
def Sector.slice (s : Sector) (off n : Nat) : Octets :=
  (List.range n).map fun i => s.get (off + i)

/-- A sector filled from its first byte with `bytes`, erased behind them. -/
def Sector.ofOctets (bytes : Octets) : Sector := fun i => bytes.getD i.val 0xFF

/-- NOR program: the addressed bytes are ANDed with `page`. -/
def Sector.program (s : Sector) (off : Nat) (page : Octets) : Sector := fun i =>
  if off ≤ i.val ∧ i.val < off + page.length then s i &&& page.getD (i.val - off) 0xFF else s i

/-- A program that was not completed: each addressed bit is as it was or cleared. -/
def Sector.programTorn (s : Sector) (off len : Nat) (mask : Sector) : Sector := fun i =>
  if off ≤ i.val ∧ i.val < off + len then s i &&& mask i else s i

/-! ### The store -/

/-- What the environment does with one flash operation.  `fail` and `cut` carry
    the image a torn erase leaves, or the mask of a torn program. -/
inductive Fault where
  | none
  | fail (left : Sector)
  | cut (left : Sector)

/-- Ghost history: reads that failed, erases and programs that were started,
    records whose write began (with the sector they replace), wipes of the key pair
    that began, and production KEKs that were tried against the key blob under a
    retry limit. -/
inductive Entry where
  | readError (r : Region)
  | erase (r : Region)
  | program (r : Region)
  | record (r : Region) (before : Sector) (seq : UInt32) (payload : Octets)
  | wipe
  | tried (limit : UInt8) (opened : Bool)

structure Flash where
  sector : Region → Sector
  uniqueId : Bytes 8
  deviceSecret : Except HalError (Bytes 32)
  faults : List Fault
  journal : List Entry

/-- Why a flash operation does not return `Ok`. -/
inductive Stop where
  | hal (e : HalError)
  | powerLoss
deriving DecidableEq, Repr

/-- Code that runs over `&mut F: FlashStore`; `?` is the bind. -/
abbrev FlashM := EStateM Stop Flash

def Flash.put (f : Flash) (r : Region) (s : Sector) : Flash :=
  { f with sector := Function.update f.sector r s }

def Flash.log (f : Flash) (e : Entry) : Flash := { f with journal := e :: f.journal }

def note (e : Entry) : FlashM Unit := modify fun f => f.log e

def nextFault : FlashM Fault := do
  let f ← get
  match f.faults with
  | [] => pure .none
  | fault :: rest =>
    set { f with faults := rest }
    pure fault

/-- `FlashStore::read` of a whole sector. -/
def read (r : Region) : FlashM Sector := do
  match ← nextFault with
  | .none =>
    let f ← get
    pure (f.sector r)
  | .fail _ =>
    note (.readError r)
    throw (.hal .flash)
  | .cut _ => throw .powerLoss

/-- `FlashStore::erase`. -/
def erase (r : Region) : FlashM Unit := do
  note (.erase r)
  match ← nextFault with
  | .none => modify fun f => f.put r Sector.erased
  | .fail left =>
    modify fun f => f.put r left
    throw (.hal .flash)
  | .cut left =>
    modify fun f => f.put r left
    throw .powerLoss

/-- `FlashStore::program` of one page. -/
def program (r : Region) (off : Nat) (page : Octets) : FlashM Unit := do
  if off + page.length > SECTOR_LEN then
    throw (.hal .outOfRange)
  else
    note (.program r)
    match ← nextFault with
    | .none => modify fun f => f.put r ((f.sector r).program off page)
    | .fail mask =>
      modify fun f => f.put r ((f.sector r).programTorn off page.length mask)
      throw (.hal .flash)
    | .cut mask =>
      modify fun f => f.put r ((f.sector r).programTorn off page.length mask)
      throw .powerLoss

/-! ### Sector lemmas -/

@[simp] theorem Sector.get_erased (i : Nat) : Sector.erased.get i = 0xFF := by
  unfold Sector.get
  split <;> rfl

@[simp] theorem Sector.length_slice (s : Sector) (off n : Nat) : (s.slice off n).length = n := by
  simp [Sector.slice]

theorem Sector.get_of_lt (s : Sector) {i : Nat} (h : i < SECTOR_LEN) : s.get i = s ⟨i, h⟩ := by
  simp [Sector.get, h]

theorem Sector.get_ofOctets {bytes : Octets} {i : Nat} (h : i < SECTOR_LEN) :
    (Sector.ofOctets bytes).get i = bytes.getD i 0xFF := by
  rw [Sector.get_of_lt _ h]
  rfl

/-- Reading back a slice of what was laid out in the sector. -/
theorem Sector.slice_ofOctets {bytes : Octets} {off n : Nat}
    (hbytes : off + n ≤ bytes.length) (hlen : bytes.length ≤ SECTOR_LEN) :
    (Sector.ofOctets bytes).slice off n = (bytes.drop off).take n := by
  apply List.ext_getElem
  · simp
    omega
  · intro i hi _
    rw [Sector.length_slice] at hi
    simp only [Sector.slice, List.getElem_map, List.getElem_range, List.getElem_take,
      List.getElem_drop]
    rw [Sector.get_ofOctets (by omega), List.getD_eq_getElem _ _ (by omega)]

theorem Sector.get_program (s : Sector) (off : Nat) (page : Octets) {i : Nat}
    (h : i < SECTOR_LEN) :
    (s.program off page).get i =
      if off ≤ i ∧ i < off + page.length then s.get i &&& page.getD (i - off) 0xFF
      else s.get i := by
  rw [Sector.get_of_lt _ h, Sector.get_of_lt _ h]
  rfl

end PicoSignet
