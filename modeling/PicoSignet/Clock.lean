import PicoSignet.Words

/-!
# Wall clock

Mirror of `hsm-core/src/clock.rs`.  Time is an offset over the monotonic timer:
`epoch` follows the host's latest accepted value, the trust anchor is the first
one of the boot and never moves.  A request is served at one reading of the
timer, so `now` is an argument.
-/

set_option autoImplicit false

namespace PicoSignet

def MAX_DRIFT_SECS : Int := 900
def MIN_PLAUSIBLE_UNIX : Int := 1700000000
def MAX_PLAUSIBLE_UNIX : Int := MIN_PLAUSIBLE_UNIX + 100 * 365 * 24 * 3600

structure Clock where
  epochUnix : Option Int64 := none
  epochMonoUs : UInt64 := 0
  trustAnchorUnix : Option Int64 := none
  trustAnchorMonoUs : UInt64 := 0
deriving DecidableEq, Repr

namespace Clock

/-- Whole seconds since `since`: `saturating_sub`, `/ 1_000_000`, `as i64`. -/
def elapsedSecs (now since : UInt64) : Int64 :=
  Int64.ofNat ((now.toNat - since.toNat) / 1000000)

/-- `checked_sub`, `unsigned_abs` and the comparison with `MAX_DRIFT_SECS`; an
    overflowing difference is too far. -/
def tooFar (value expected : Int64) : Bool :=
  match checkedSub value expected with
  | some delta => decide (delta.toInt.natAbs > MAX_DRIFT_SECS.toNat)
  | none => true

/-- Whether `set` refuses the value. -/
def rejects (c : Clock) (now : UInt64) (unixSeconds : Int64) : Bool :=
  match c.trustAnchorUnix with
  | none =>
    !(decide (MIN_PLAUSIBLE_UNIX ≤ unixSeconds.toInt) &&
      decide (unixSeconds.toInt ≤ MAX_PLAUSIBLE_UNIX))
  | some anchor =>
    tooFar unixSeconds (satAdd anchor (elapsedSecs now c.trustAnchorMonoUs))

/-- `Clock::set`; `none` is `Rejected`, otherwise whether a time had been set
    before and the new clock. -/
def set (c : Clock) (now : UInt64) (unixSeconds : Int64) : Option (Bool × Clock) :=
  if c.rejects now unixSeconds then none
  else
    let anchored :=
      if c.trustAnchorUnix.isNone then
        { c with trustAnchorUnix := some unixSeconds, trustAnchorMonoUs := now }
      else c
    some (c.epochUnix.isSome, { anchored with epochUnix := some unixSeconds, epochMonoUs := now })

def trustedNow (c : Clock) (now : UInt64) : Option Int64 :=
  c.trustAnchorUnix.map fun anchor => satAdd anchor (elapsedSecs now c.trustAnchorMonoUs)

/-- `now_unix`.  The source's `+` panics on overflow; `Int64` addition wraps, and
    the window theorem shows that it never has to. -/
def nowUnix (c : Clock) (now : UInt64) : Option Int64 :=
  c.epochUnix.map fun epoch => epoch + elapsedSecs now c.epochMonoUs

def isSet (c : Clock) : Bool := c.epochUnix.isSome

end Clock

end PicoSignet
