import PicoSignet.Wrap

/-!
# Go durations

Mirror of `hsm-core/src/goduration.rs`: Go's `time.ParseDuration` and
`Duration.String` over `i64` nanoseconds.  The scanner works on the bytes of the
string.  `u64` values are natural numbers; the wrapping additions of the source
are written out, the other operations are bounded by the guards around them.
-/

set_option autoImplicit false

namespace PicoSignet.GoDuration

def MICROSECOND : Nat := 1000
def MILLISECOND : Nat := 1000000
def SECOND : Nat := 1000000000
def MINUTE : Nat := 60 * SECOND
def HOUR : Nat := 3600 * SECOND
def TWO_63 : Nat := 2 ^ 63

def unitMap (u : Octets) : Option Nat :=
  if u = [0x6E, 0x73] then some 1 -- "ns"
  else if u = [0x75, 0x73] then some MICROSECOND -- "us"
  else if u = [0xC2, 0xB5, 0x73] then some MICROSECOND -- U+00B5 "s"
  else if u = [0xCE, 0xBC, 0x73] then some MICROSECOND -- U+03BC "s"
  else if u = [0x6D, 0x73] then some MILLISECOND -- "ms"
  else if u = [0x73] then some SECOND -- "s"
  else if u = [0x6D] then some MINUTE -- "m"
  else if u = [0x68] then some HOUR -- "h"
  else none

def isDigit (c : UInt8) : Bool := decide (0x30 ≤ c) && decide (c ≤ 0x39)

def DOT : UInt8 := 0x2E

def hexDigit (n : Nat) : Char := "0123456789abcdef".toList.getD n '0'

def quoteByte (b : UInt8) : List Char :=
  if b = 0x22 ∨ b = 0x5C then ['\\', Char.ofNat b.toNat]
  else if 0x20 ≤ b ∧ b ≤ 0x7F then [Char.ofNat b.toNat]
  else ['\\', 'x', hexDigit (b.toNat / 16), hexDigit (b.toNat % 16)]

/-- Go's `quote`. -/
def quote (s : Octets) : String := String.ofList ('"' :: s.flatMap quoteByte ++ ['"'])

def errInvalid (orig : Octets) : String := "time: invalid duration " ++ quote orig
def errMissingUnit (orig : Octets) : String := "time: missing unit in duration " ++ quote orig
def errUnknownUnit (u orig : Octets) : String :=
  "time: unknown unit " ++ quote u ++ " in duration " ++ quote orig

/-- `leading_int`: the value and what follows the digits, or `none` on overflow. -/
def leadingInt : (x : Nat) → Octets → Option (Nat × Octets)
  | x, [] => some (x, [])
  | x, c :: rest =>
    if isDigit c then
      if x > TWO_63 / 10 then none
      else
        let y := x * 10 + (c.toNat - 0x30)
        if y > TWO_63 then none else leadingInt y rest
    else some (x, c :: rest)

/-- `leading_fraction`: the value, the exponent of the scale, and the rest. -/
def leadingFraction : (x digits : Nat) → (overflow : Bool) → Octets → Nat × Nat × Octets
  | x, digits, _, [] => (x, digits, [])
  | x, digits, overflow, c :: rest =>
    if isDigit c then
      if overflow then leadingFraction x digits true rest
      else if x > (TWO_63 - 1) / 10 then leadingFraction x digits true rest
      else
        let y := x * 10 + (c.toNat - 0x30)
        if y > TWO_63 then leadingFraction x digits true rest
        else leadingFraction y (digits + 1) false rest
    else (x, digits, c :: rest)

def isUnitByte (c : UInt8) : Bool := !(c == DOT || isDigit c)

section Parse

variable (frac : (f unit digits : Nat) → UInt64)

/-- The value of one component, `v * unit` plus its fraction, or `none` past `1<<63`. -/
def componentNanos (v f unit digits : Nat) : Option Nat :=
  if v > TWO_63 / unit then none
  else if f > 0 then
    let w := (v * unit + (frac f unit digits).toNat) % 2 ^ 64
    if w > TWO_63 then none else some w
  else some (v * unit)

/-- The component loop; every turn that goes on consumes input, so `fuel` starts
    at the length. -/
def components (orig : Octets) : (fuel : Nat) → (s : Octets) → (d : Nat) → Except String Nat
  | _, [], d => .ok d
  | 0, _ :: _, _ => .error (errInvalid orig)
  | fuel + 1, b0 :: rest0, d =>
    let s := b0 :: rest0
    if ¬ (b0 = DOT ∨ isDigit b0) then .error (errInvalid orig)
    else
      match leadingInt 0 s with
      | none => .error (errInvalid orig)
      | some (v, s1) =>
        let pre := s1.length != s.length
        let (f, digits, s2, post) :=
          match s1 with
          | c :: tail =>
            if c = DOT then
              let (ff, dg, s2) := leadingFraction 0 0 false tail
              (ff, dg, s2, s2.length != tail.length)
            else (0, 0, s1, false)
          | [] => (0, 0, s1, false)
        if !pre && !post then .error (errInvalid orig)
        else
          let u := s2.takeWhile isUnitByte
          let s3 := s2.dropWhile isUnitByte
          if u.isEmpty then .error (errMissingUnit orig)
          else
            match unitMap u with
            | none => .error (errUnknownUnit u orig)
            | some unit =>
              match componentNanos frac v f unit digits with
              | none => .error (errInvalid orig)
              | some w =>
                let d' := (d + w) % 2 ^ 64
                if d' > TWO_63 then .error (errInvalid orig)
                else components orig fuel s3 d'

def parseDuration (orig : Octets) : Except String Int64 :=
  let (neg, s) :=
    match orig with
    | c :: rest => if c = 0x2D ∨ c = 0x2B then (decide (c = 0x2D), rest) else (false, orig)
    | [] => (false, orig)
  if s = [0x30] then .ok 0
  else if s.isEmpty then .error (errInvalid orig)
  else
    match components frac orig s.length s 0 with
    | .error e => .error e
    | .ok d =>
      if neg then .ok (-(Int64.ofNat d))
      else if d > TWO_63 - 1 then .error (errInvalid orig)
      else .ok (Int64.ofNat d)

end Parse

/-! ### Formatting, right to left -/

/-- The decimal digits of `v` in front of `acc`; `fuel` bounds their number. -/
def digitsOf : (fuel v : Nat) → (acc : Octets) → Octets
  | 0, _, acc => acc
  | fuel + 1, v, acc =>
    if v > 0 then digitsOf fuel (v / 10) (UInt8.ofNat (0x30 + v % 10) :: acc) else acc

def fmtInt (acc : Octets) (v : Nat) : Octets :=
  if v = 0 then 0x30 :: acc else digitsOf 20 v acc

def fracLoop : (prec v : Nat) → (print : Bool) → (acc : Octets) → Octets × Nat × Bool
  | 0, v, print, acc => (acc, v, print)
  | prec + 1, v, print, acc =>
    let print' := print || v % 10 != 0
    fracLoop prec (v / 10) print'
      (if print' then UInt8.ofNat (0x30 + v % 10) :: acc else acc)

def fmtFrac (acc : Octets) (v prec : Nat) : Octets × Nat :=
  let (out, v', print) := fracLoop prec v false acc
  (if print then DOT :: out else out, v')

/-- `format_duration`, as the bytes of the string. -/
def formatDuration (d : Int64) : Octets :=
  let u := d.toInt.natAbs
  if u = 0 then [0x30, 0x73]
  else
    let body :=
      if u < SECOND then
        let (unit, prec) :=
          if u < MICROSECOND then (([0x6E, 0x73] : Octets), 0)
          else if u < MILLISECOND then ([0xC2, 0xB5, 0x73], 3)
          else ([0x6D, 0x73], 6)
        let (acc, v) := fmtFrac unit u prec
        fmtInt acc v
      else
        let (acc, secs) := fmtFrac [0x73] u 9
        let acc := fmtInt acc (secs % 60)
        let mins := secs / 60
        if mins > 0 then
          let acc := fmtInt (0x6D :: acc) (mins % 60)
          let hours := mins / 60
          if hours > 0 then fmtInt (0x68 :: acc) hours else acc
        else acc
    if d.toInt < 0 then 0x2D :: body else body

end PicoSignet.GoDuration
