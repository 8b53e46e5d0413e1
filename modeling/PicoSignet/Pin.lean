import PicoSignet.Storage

/-!
# PIN attempt counter

Mirror of `hsm-core/src/pin.rs`: the `PinCounter` sector is a log in which each
attempt clears the next byte.
-/

set_option autoImplicit false

namespace PicoSignet.Pin

/-- The scan of `count`: how many bytes from `n` on have left `0xFF`. -/
def scan (s : Sector) : (fuel n : Nat) → Nat
  | 0, n => n
  | fuel + 1, n => if s.get n ≠ 0xFF then scan s fuel (n + 1) else n

/-- Attempts recorded in a counter sector. -/
def used (s : Sector) : Nat := scan s SECTOR_LEN 0

def count : FlashM Nat := do
  let buf ← read .pinCounter
  pure (used buf)

/-- The page `tick` programs: all ones but for the byte to clear. -/
def tickPage (within : Nat) : Octets := (List.replicate PAGE_LEN 0xFF).set within 0x00

def tick : FlashM Nat := do
  let n ← count
  if n ≥ SECTOR_LEN then
    pure n
  else
    program .pinCounter (n / PAGE_LEN * PAGE_LEN) (tickPage (n % PAGE_LEN))
    pure (n + 1)

def reset : FlashM Unit := erase .pinCounter

def BASE : Nat := 250
def CAP : Nat := 30000

def backoffMs (failedAttempts : Nat) : Nat :=
  if failedAttempts ≥ 7 then CAP else min (BASE <<< failedAttempts) CAP

end PicoSignet.Pin
