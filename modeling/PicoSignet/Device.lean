import PicoSignet.Dispatch
import PicoSignet.Pairs

/-!
# The device over time

What happens to a token from the outside: it is powered up, request lines arrive,
the USB transport resets, the timer runs and the firmware reseeds.  A power cut
or a panic inside an operation takes it down until the next boot.  `Run` is a
history of such events from a flash image, with the responses.
-/

set_option autoImplicit false

namespace PicoSignet

variable {P : Prims}

/-- What one power-up finds besides the flash, as `hsm-fw/src/usb.rs` collects it. -/
structure PowerUp where
  entropy : Entropy
  mono : UInt64
  deviceSecret : Except HalError (Bytes 32)
  physicalRecovery : Bool
  glitchArmed : Bool
  secureBoot : Bool
  glitchReset : Bool
  bootNoise : Octets
  faults : List Fault

/-- The flash a power-up starts from. -/
def PowerUp.flash (p : PowerUp) (f : Flash) : Flash :=
  { f with deviceSecret := p.deviceSecret, faults := p.faults }

/-- What the firmware hands to the booted session: the latches and the boot noise. -/
def PowerUp.latch (p : PowerUp) (h : Hsm P) : Hsm P :=
  { h with
    physicalRecoveryAuthorized := p.physicalRecovery
    glitchArmed := p.glitchArmed
    secureBoot := p.secureBoot
    glitchReset := p.glitchReset
    drbg := h.drbg.mixHost p.bootNoise }

/-- The firmware's boot sequence. -/
def powerUp (f : Flash) (p : PowerUp) : EStateM.Result Halt (Hsm P) Unit :=
  match boot p.entropy p.mono (p.flash f) with
  | .ok () h => .ok () (p.latch h)
  | .error halt h => .error halt h

inductive Sys (P : Prims) where
  | off (f : Flash)
  | on (h : Hsm P)

def Sys.flash : Sys P → Flash
  | .off f => f
  | .on h => h.flash

def Sys.session : Sys P → Option (Hsm P)
  | .off _ => none
  | .on h => some h

theorem Sys.exists_session {s : Sys P} {p : Hsm P → Bool} (h : s.session.any p = true) :
    ∃ h, s = .on h ∧ p h = true := by
  cases s with
  | off f => simp [Sys.session] at h
  | on h' => exact ⟨h', rfl, by simpa [Sys.session] using h⟩

inductive Event where
  | boot (p : PowerUp)
  | line (bytes : Octets) (faults : List Fault)
  | relock
  | advance (mono : UInt64)
  | reseed
  | setHeapFree (bytes : UInt64)
  | takeRebootRequested

/-- The session in which a line is served: the faults ahead are the event's. -/
def Hsm.facing (h : Hsm P) (faults : List Fault) : Hsm P := { h with flash := h.flash.under faults }

/-- `process_line`. -/
def Hsm.processLine (h : Hsm P) (line : Octets) (faults : List Fault) : Sys P × Option Response :=
  match handle line (h.facing faults) with
  | .ok resp h' => (.on h', some resp)
  | .error _ h' => (.off h'.flash, none)

/-- `reseed`; a failed one only uses up entropy. -/
def Hsm.reseed (h : Hsm P) : Hsm P :=
  match h.drbg.reseed h.entropy with
  | (.ok drbg, entropy) => { h with drbg, entropy }
  | (.error _, entropy) => { h with entropy }

def Sys.step : Sys P → Event → Sys P × Option Response
  | s, .boot p =>
    match powerUp s.flash p with
    | .ok () h => (.on h, none)
    | .error _ h => (.off h.flash, none)
  | .off f, _ => (.off f, none)
  | .on h, .line bytes faults => h.processLine bytes faults
  | .on h, .relock => (.on h.relockOnTransportReset, none)
  | .on h, .advance mono => (.on { h with mono := max h.mono mono }, none)
  | .on h, .reseed => (.on h.reseed, none)
  | .on h, .setHeapFree bytes => (.on { h with heapFree := bytes }, none)
  | .on h, .takeRebootRequested => (.on { h with rebootRequested := false }, none)

theorem Sys.step_boot_eq (s : Sys P) (p : PowerUp) :
    s.step (.boot p) = match powerUp s.flash p with
      | .ok () h => (.on h, none)
      | .error _ h => (.off h.flash, none) := by
  cases s <;> rfl

/-- One event with the states around it. -/
structure Moment (P : Prims) where
  event : Event
  before : Sys P
  response : Option Response
  after : Sys P

/-- The histories, newest moment first, that lead from an image to a state. -/
inductive Run (image : Flash) : List (Moment P) → Sys P → Prop
  | start : Run image [] (.off image)
  | step {hist : List (Moment P)} {s : Sys P} (h : Run image hist s) (e : Event) :
      Run image (⟨e, s, (s.step e).2, (s.step e).1⟩ :: hist) (s.step e).1

/-- An invariant of every state a run reaches. -/
theorem Run.invariant {image : Flash} {hist : List (Moment P)} {s : Sys P} {I : Sys P → Prop}
    (hrun : Run image hist s) (hstart : I (.off image))
    (hstep : ∀ (s : Sys P) (e : Event), I s → I (s.step e).1) : I s := by
  induction hrun with
  | start => exact hstart
  | step _ e ih => exact hstep _ e ih

/-- The run of a list of events, the last of them first. -/
def replay (image : Flash) : List Event → List (Moment P) × Sys P
  | [] => ([], .off image)
  | e :: older =>
    let past := replay image older
    (⟨e, past.2, (past.2.step e).2, (past.2.step e).1⟩ :: past.1, (past.2.step e).1)

theorem run_replay (image : Flash) (events : List Event) :
    Run image (replay (P := P) image events).1 (replay (P := P) image events).2 := by
  induction events with
  | nil => exact .start
  | cons e older ih => exact .step ih e

theorem event_mem_of_replay {image : Flash} {events : List Event} {m : Moment P}
    (hm : m ∈ (replay image events).1) : m.event ∈ events := by
  induction events with
  | nil => simp [replay] at hm
  | cons e older ih =>
    rcases List.mem_cons.mp hm with rfl | hm
    · exact List.mem_cons_self
    · exact List.mem_cons_of_mem e (ih hm)

/-- A test of the newest moment of a replay: its response, and the sessions around it. -/
def replayEnds (p : Hsm P → Response → Hsm P → Bool) (image : Flash) (events : List Event) : Bool :=
  match (replay image events).1 with
  | ⟨_, .on h, some resp, .on h'⟩ :: _ => p h resp h'
  | _ => false

theorem exists_of_replayEnds {p : Hsm P → Response → Hsm P → Bool} {image : Flash} {e : Event}
    {older : List Event} (h : replayEnds p image (e :: older) = true) :
    ∃ m h h' resp, m.event = e ∧ m.before = .on h ∧ m.response = some resp ∧ m.after = .on h' ∧
      p h resp h' = true ∧ (replay image (e :: older)).1 = m :: (replay image older).1 ∧
      Run image (m :: (replay image older).1) (.on h') := by
  have hrun := run_replay (P := P) image (e :: older)
  have hcons : (replay image (e :: older)).1 =
      ⟨e, (replay (P := P) image older).2, ((replay image older).2.step e).2,
        ((replay image older).2.step e).1⟩ :: (replay image older).1 := rfl
  unfold replayEnds at h
  split at h
  · rename_i e' h₀ resp h' older' heq
    rw [hcons] at heq
    obtain ⟨hm, -⟩ := List.cons.inj heq
    have hafter : (replay (P := P) image (e :: older)).2 = .on h' := (Moment.mk.inj hm).2.2.2
    rw [hcons, hm, hafter] at hrun
    exact ⟨⟨e', .on h₀, some resp, .on h'⟩, h₀, h', resp, (Moment.mk.inj hm).1.symm, rfl, rfl,
      rfl, h, by rw [hcons, hm], hrun⟩
  · exact absurd h (by simp)

/-! ### A bench device

An instance that can be run on paper: the KDF mixes PIN, salt and device secret
byte by byte, the cipher is an XOR whose tag is half of the key, the generator
counts, and a line is an index into a table of requests. -/

def Prims.bench (table : List Request) : Prims where
  crc32 bytes := UInt32.ofNat (beNat bytes)
  argon2id pin salt _ :=
    some (Vector.ofFn fun i => pin.getD i.val 0 ^^^ salt.toList.getD (i.val % 16) 0)
  hkdfSha256 salt ikm _ :=
    match salt with
    | none => ikm
    | some salt => Vector.zipWith (· ^^^ ·) salt ikm
  aeadSeal key _ _ plain :=
    (Vector.zipWith (· ^^^ ·) plain key, Vector.ofFn fun i => key.toList.getD i.val 0)
  aeadOpen key _ _ cipher tag :=
    if tag = Vector.ofFn fun i => key.toList.getD i.val 0 then
      some (Vector.zipWith (· ^^^ ·) cipher key)
    else none
  edPublic seed := seed
  edSign seed _ := Vector.ofFn fun i => seed.toList.getD (i.val % 32) 0
  sha512 msg := Vector.ofFn fun i => msg.getD i.val 0
  Rng := UInt8
  rngFromSeed seed := seed.toList.getD 0 0
  rngFill r n := (Vector.replicate n r, r + 1)
  rngNextU64 r := (r.toUInt64, r + 1)
  b64Encode := hexEncode
  b64Decode := hexDecode
  p256Ok _ := true
  p384Ok _ := true
  p521Ok _ := true
  fracNanos f unit digits := UInt64.ofNat (f * unit / 10 ^ digits)
  parseRequest line :=
    match table[(line.getD 1 0).toNat]? with
    | some r => .ok r
    | none => .error "expected value"
  ed25519Kat := true
  sha512Kat := true
  aeadKat := true

namespace Bench

def deviceSecret : Bytes 32 := Vector.replicate 32 7

/-- An uneventful power-up, with entropy for two seedings. -/
def power : PowerUp where
  entropy := List.replicate 2 (.ok (Vector.ofFn fun i => UInt8.ofNat (i.val % 5)))
  mono := 0
  deviceSecret := .ok deviceSecret
  physicalRecovery := false
  glitchArmed := true
  secureBoot := true
  glitchReset := false
  bootNoise := []
  faults := []

/-- A power-up whose entropy source is dry: seeding is put off. -/
def dryPower : PowerUp := { power with entropy := [] }

/-- The line that carries request `i` of the table. -/
def send (i : UInt8) : Event := .line [0x7B, i] []

/-- A flash whose other sectors are erased. -/
def image (written : List (Region × Sector)) : Flash where
  sector r := (written.lookup r).getD Sector.erased
  uniqueId := Vector.replicate 8 0
  deviceSecret := .ok deviceSecret
  faults := []
  journal := []

def pin : Str := ['1', '2', '3', '4', '5', '6']

/-- A production configuration as `init` leaves it. -/
def config : DeviceConfig where
  mode := .prod
  argon2 := DEFAULT_ARGON
  maxRetries := 3
  wipeOnLockout := false
  fwVersion := fwVersionTriple

/-- A seed wrapped under the PIN. -/
def blob : KeyBlob :=
  wrapSeed (.bench []) ((pinKek (.bench []) pin.bytes (Vector.replicate 16 1) DEFAULT_ARGON
    deviceSecret).toOption.getD (Vector.replicate 32 0)) (Vector.replicate 32 9)
    (Vector.replicate 32 9) .pinKek (Vector.replicate 16 1) (Vector.replicate 12 2)

/-- The flash of a production device that has a key. -/
def prodImage : Flash :=
  image [(.configA, recordImage (Prims.bench []).crc32 1 config.toBytes),
    (.keyA, recordImage (Prims.bench []).crc32 1 blob.toBytes)]

def unlock (pin : Str) : Request := { hsm := some { unlock := some { pin } } }

def setTime (t : Int64) : Request := { hsm := some { setTime := some { unixSeconds := t } } }

def sign : Request where
  signSshKey := some
    { sshKey := "ssh-ed25519 ".toList ++
        (hexEncode (putString sshEd25519 ++ putString (List.replicate 32 65))).toList
      keyId := ['k']
      principals := [['r']]
      validity := ['1', 'h'] }

/-- A host that unlocks, sets the time and asks for a certificate. -/
abbrev signing : Prims := .bench [unlock pin, setTime 1700000000, sign]

def signingEvents : List Event := [send 2, send 1, send 0, .boot power]

end Bench

end PicoSignet
