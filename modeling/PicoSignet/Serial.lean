/-
  PicoSignet/Serial.lean
  ======================
  **The host's end of the link** — mirror of `Serial` in `host/internal/device/device.go`,
  with the wire and the device's line loop at its other end.

  `RoundTrip` holds a mutex, so one caller at a time is between two of its calls into
  the port; a `Stage` says which two.  The bytes on the wire, the caller that gets the
  mutex, every error and every short read are chosen by the actions of a run.
-/
import PicoSignet.LineIo

set_option autoImplicit false

namespace PicoSignet

/-- The cap on an answer, its newline included. -/
def maxLine : Nat := 64 * 1024

/-- A request or an answer.  The callers of `RoundTrip` split their input at newlines or
    marshal it, and the device serialises its answers. -/
structure OneLine where
  bytes : Octets
  noNewline : newline ∉ bytes
deriving DecidableEq

/-- What goes over the wire for it. -/
def OneLine.framed (l : OneLine) : Octets := l.bytes ++ [newline]

/-- The wire and the device behind it. -/
structure Link where
  /-- Written by the host, not read by the device. -/
  down : Octets
  asm : LineAssembler
  /-- Assembled lines that the device has not answered. -/
  pending : List LineEvent
  /-- The answers so far, newest first. -/
  answered : List (LineEvent × OneLine)
  /-- Written by the device, not read by the host. -/
  up : Octets
deriving DecidableEq

def Link.write (l : Link) (bytes : Octets) : Link := { l with down := l.down ++ bytes }

/-- The host reads `n` bytes, or the port loses them. -/
def Link.skip (l : Link) (n : Nat) : Link := { l with up := l.up.drop n }

/-- A byte reaches the device. -/
def Link.deliver (l : Link) : Option Link :=
  match l.down with
  | [] => none
  | b :: down =>
    let (asm, e) := l.asm.push b
    some { l with down, asm, pending := l.pending ++ e.toList }

/-- The device answers the oldest line. -/
def Link.answer (l : Link) (resp : OneLine) : Option Link :=
  match l.pending with
  | [] => none
  | e :: pending =>
    some { l with pending, answered := (e, resp) :: l.answered, up := l.up ++ resp.framed }

/-- A call of `RoundTrip`. -/
structure Caller where
  id : Nat
  req : OneLine
deriving DecidableEq

/-- A call that returned without an error, with the link as it was when the call began to
    write and when it returned. -/
structure Return where
  caller : Caller
  resp : Octets
  before : Link
  after : Link
deriving DecidableEq

/-- Where the holder of the mutex is. -/
inductive Stage where
  | unlocked
  /-- In `reconnect`, before `serial.Open`. -/
  | reopening (caller : Caller)
  /-- In `drainStale`. -/
  | draining (caller : Caller)
  /-- Before the `SetReadTimeout` of `reconnect`. -/
  | settling (caller : Caller)
  /-- Before `port.Write`. -/
  | writing (caller : Caller)
  /-- In `ReadBytes`, with the link as it was when the write began. -/
  | reading (caller : Caller) (before : Link)
deriving DecidableEq

structure Serial where
  /-- Blocked on the mutex. -/
  waiting : List Caller
  stage : Stage
  poisoned : Bool
  /-- What the reader has read from the port and not handed out. -/
  r : Octets
  link : Link
  returned : List Return
deriving DecidableEq

/-- `Open`. -/
def Serial.open (link : Link) : Serial :=
  { waiting := [], stage := .unlocked, poisoned := false, r := [], link, returned := [] }

inductive Act where
  | enter (c : Caller)
  /-- `mu.Lock` lets the `i`-th waiting caller in. -/
  | lock (i : Nat)
  | openFails
  /-- `serial.Open` succeeds; bytes that had arrived at the old port may be gone. -/
  | opens (lost : Nat)
  /-- `drainStale` reads `n` bytes, times out, or fails. -/
  | drains (n : Nat)
  | drainQuiet
  | drainFails
  | setTimeout (ok : Bool)
  | writes
  /-- The write fails after `sent` bytes. -/
  | writeFails (sent : Nat)
  | reads (n : Nat)
  /-- A timeout is a failure too. -/
  | readFails
  /-- The reader finds a newline in what it has. -/
  | readDone
  | deliver
  | answer (resp : OneLine)

/-- `reconnect` gives up; the port is left closed and the link poisoned. -/
def Serial.giveUp (s : Serial) : Serial := { s with stage := .unlocked }

/-- An exchange fails: `poisoned` is set. -/
def Serial.poison (s : Serial) : Serial := { s with stage := .unlocked, poisoned := true }

/-- The end of `reconnect`: a fresh reader on the new port. -/
def Serial.reconnected (s : Serial) (caller : Caller) : Serial :=
  { s with stage := .writing caller, r := [], poisoned := false }

/-- `ReadBytes` returns the bytes up to the newline; a response past the cap is an error. -/
def Serial.finish (s : Serial) (caller : Caller) (before : Link) : Serial :=
  let resp := s.r.takeWhile (· ≠ newline)
  let s := { s with r := (s.r.dropWhile (· ≠ newline)).tail }
  if resp.length + 1 > maxLine then s.poison
  else
    { s with
      stage := .unlocked
      returned := ⟨caller, resp, before, s.link⟩ :: s.returned }

/-- One step of a caller, the wire or the device; `none` where it cannot be taken. -/
def Serial.step (s : Serial) : Act → Option Serial
  | .enter c => some { s with waiting := c :: s.waiting }
  | .lock i =>
    match s.stage, s.waiting[i]? with
    | .unlocked, some c =>
      let s := { s with waiting := s.waiting.eraseIdx i }
      some { s with stage := if s.poisoned then .reopening c else .writing c }
    | _, _ => none
  | .openFails =>
    match s.stage with
    | .reopening _ => some s.giveUp
    | _ => none
  | .opens lost =>
    match s.stage with
    | .reopening c => some { s with stage := .draining c, link := s.link.skip lost }
    | _ => none
  | .drains n =>
    match s.stage with
    | .draining _ => some { s with link := s.link.skip n }
    | _ => none
  | .drainQuiet =>
    match s.stage with
    | .draining c => some { s with stage := .settling c }
    | _ => none
  | .drainFails =>
    match s.stage with
    | .draining c => some { s with stage := .settling c }
    | _ => none
  | .setTimeout ok =>
    match s.stage with
    | .settling c => some (if ok then s.reconnected c else s.giveUp)
    | _ => none
  | .writes =>
    match s.stage with
    | .writing c =>
      some { s with stage := .reading c s.link, link := s.link.write c.req.framed }
    | _ => none
  | .writeFails sent =>
    match s.stage with
    | .writing c => some { s.poison with link := s.link.write (c.req.framed.take sent) }
    | _ => none
  | .reads n =>
    match s.stage with
    | .reading _ _ =>
      if newline ∈ s.r then none
      else some { s with r := s.r ++ s.link.up.take n, link := s.link.skip n }
    | _ => none
  | .readFails =>
    match s.stage with
    | .reading _ _ => if newline ∈ s.r then none else some { s.poison with r := [] }
    | _ => none
  | .readDone =>
    match s.stage with
    | .reading c before => if newline ∈ s.r then some (s.finish c before) else none
    | _ => none
  | .deliver => s.link.deliver.map fun link => { s with link }
  | .answer resp => (s.link.answer resp).map fun link => { s with link }

end PicoSignet
