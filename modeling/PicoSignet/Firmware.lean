/-
  PicoSignet/Firmware.lean
  ========================
  **The USB loop of the firmware** — mirror of the protocol future in
  `hsm-fw/src/usb.rs`.  One executor polls two futures, so a step runs the protocol
  future from one await to the next, and the bus handler runs in between.  `Pc` names
  the awaits; the bytes of the last packet that the loop has not looked at yet are
  part of them.
-/
import PicoSignet.Device
import PicoSignet.LineIo

set_option autoImplicit false

namespace PicoSignet

variable {P : Prims}

def PACKET : Nat := 64

/-- The answer to an oversize line. -/
def tooLargeText : Octets :=
  Str.bytes "\x7b\"error\":\"request too large (max 16384 bytes)\"\x7d".toList

/-- The awaits of the protocol future. -/
inductive Pc where
  /-- `led.set_state`, after the boot. -/
  | starting
  /-- `wait_connection`. -/
  | connecting
  /-- `read_packet`, with the assembler of the session. -/
  | reading (asm : LineAssembler)
  /-- `led.busy`, before `process_line`. -/
  | busy (line : Octets) (asm : LineAssembler) (rest : Octets)
  /-- `led.set_state`, after `process_line`. -/
  | showing (resp : Response) (asm : LineAssembler) (rest : Octets)
  /-- `write_packet`, with the bytes that are left and whether a request is answered. -/
  | writing (left : Octets) (answer : Bool) (asm : LineAssembler) (rest : Octets)
  /-- The pause before the reboot into the bootloader. -/
  | draining (asm : LineAssembler) (rest : Octets)
  /-- `led.set_state`, after a session has ended. -/
  | relit

/-- The firmware: without power or stopped, or at an await with the flag of the bus
    handler. -/
inductive Firmware (P : Prims) where
  | off (f : Flash)
  | on (h : Hsm P) (relockRequested : Bool) (pc : Pc)

/-- The device inside. -/
def Firmware.sys : Firmware P → Sys P
  | .off f => .off f
  | .on h _ _ => .on h

/-- What the futures wait for. -/
inductive Input where
  | power (p : PowerUp)
  | reset
  | suspended (suspended : Bool)
  | advance (mono : UInt64)
  | connected
  | packet (bytes : Octets)
  | ready (faults : List Fault)
  | ioError
  /-- The boot ROM came back from `reboot`. -/
  | rebootRefused

/-- The loop over the bytes of a packet, up to its next await. -/
def scan (h : Hsm P) (relockRequested : Bool) (asm : LineAssembler) : Octets → Firmware P
  | [] => .on h relockRequested (.reading asm)
  | b :: rest =>
    match asm.push b with
    | (asm, some (.line line)) =>
      if relockRequested then .on h.relockOnTransportReset false (.busy line asm rest)
      else .on h false (.busy line asm rest)
    | (asm, some .tooLong) =>
      .on h relockRequested (.writing (tooLargeText ++ [newline]) false asm rest)
    | (asm, none) => scan h relockRequested asm rest

/-- What `run` does when `session` returns: the flag is cleared, the device re-locked. -/
def endSession (h : Hsm P) : Firmware P := .on h.relockOnTransportReset false .relit

section Step

-- `serde_json` on a response
variable (encode : Response → Octets)

def Firmware.step : Firmware P → Input → Firmware P
  | fw, .power p =>
    match powerUp fw.sys.flash p with
    | .ok () h => .on h false .starting
    | .error _ h => .off h.flash
  | .off f, _ => .off f
  | .on h _ pc, .reset => .on h true pc
  | .on h flag pc, .suspended suspended => .on h (flag || suspended) pc
  | .on h flag pc, .advance mono => .on { h with mono := max h.mono mono } flag pc
  | .on h flag .starting, .ready _ => .on h flag .connecting
  | .on h flag .connecting, .connected => .on h flag (.reading .new)
  | .on h flag (.reading asm), .packet bytes => scan h flag asm bytes
  | .on h _ (.reading _), .ioError => endSession h
  | .on h flag (.busy line asm rest), .ready faults =>
    match handle line (h.facing faults) with
    | .ok resp h => .on h flag (.showing resp asm rest)
    | .error _ h => .off h.flash
  | .on h flag (.showing resp asm rest), .ready _ =>
    .on h flag (.writing (encode resp ++ [newline]) true asm rest)
  | .on h flag (.writing left answer asm rest), .ready _ =>
    if left.length > PACKET then .on h flag (.writing (left.drop PACKET) answer asm rest)
    else if answer && h.rebootRequested then
      .on { h with rebootRequested := false } flag (.draining asm rest)
    else scan h flag asm rest
  | .on h _ (.writing _ _ _ _), .ioError => endSession h
  | .on h _ (.draining _ _), .ready _ => .off h.flash
  | .on h flag (.draining asm rest), .rebootRefused => scan h flag asm rest
  | .on h flag .relit, .ready _ => .on h flag .connecting
  | fw, _ => fw

end Step

end PicoSignet
