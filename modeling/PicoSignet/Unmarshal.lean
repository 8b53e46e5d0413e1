/-
  PicoSignet/Unmarshal.lean
  =========================
  **Answers as the host reads them** — the responses of `host/internal/hsmproto/hsmproto.go`
  under `json.Unmarshal`, and `sendHsm` of `host/internal/cli/cli.go`.

  `Unmarshal` fills a value that is there already: `null` leaves it, a key that comes
  again goes over it, and letter case in a key does not count.  None of it shows on what
  a device answers; `sendHsm` gives the meaning of the answer back (`sendHsm_toVec`).
-/
import PicoSignet.Hsmproto

set_option autoImplicit false

namespace PicoSignet.Hsmproto

open Json

/-! ### `json.Unmarshal` -/

/-- `foldName`, on a rune: the least of those that differ in case alone, where one of
    them is in ASCII. -/
def foldChar (c : Char) : Char :=
  if c = Char.ofNat 0x17F then 'S' else if c = Char.ofNat 0x212A then 'K' else c.toUpper

/-- A key for the field of that name.  No two names of a struct fold alike, so an exact
    match need not come first. -/
def keyFor (name : String) (key : List Char) : Bool :=
  name.toList.map foldChar = key.map foldChar

section Unmarshal

variable {α β : Type}

/-- A field of a struct, with what a value does to it. -/
structure Slot (α : Type) where
  name : String
  into : α → List Token → Option α

/-- A value that `null` leaves as it is. -/
def into (read : List Token → Option α) (a : α) (v : List Token) : Option α :=
  if v = jsonNull then some a else read v

/-- A pointer, whose value is allocated when it is nil. -/
def intoPointer (zero : α) (into : α → List Token → Option α) (p : Option α) (v : List Token) :
    Option (Option α) :=
  if v = jsonNull then some none else (into (p.getD zero) v).map some

/-- A member of an object; unknown keys are ignored. -/
def intoField (slots : List (Slot α)) (a : α) (m : List Char × List Token) : Option α :=
  match slots.find? fun s => keyFor s.name m.1 with
  | none => some a
  | some s => s.into a m.2

def intoStruct (slots : List (Slot α)) : α → List Token → Option α :=
  fun a v => if v = jsonNull then some a else (members v).bind (List.foldlM (intoField slots) a)

def slot (name : String) (get : α → β) (put : α → β → α) (into : β → List Token → Option β) : Slot α where
  name
  into a v := (into (get a) v).map (put a)

def goReadString : List Token → Option Octets
  | [.atom .string raw] => some (Str.bytes (unquote raw))
  | _ => none

/-- `strconv.ParseInt` within the bounds of the field. -/
def goReadInt (lo hi : Int) : List Token → Option Int
  | [.atom .number raw] => (readInteger raw).filter fun n => decide (lo ≤ n) && decide (n ≤ hi)
  | _ => none

/-- `strconv.ParseUint`, which takes no sign. -/
def goReadUint64 : List Token → Option UInt64
  | [.atom .number raw] => ((readNat raw).filter fun n => decide (n < 2 ^ 64)).map UInt64.ofNat
  | _ => none

def intoString : Octets → List Token → Option Octets := into goReadString

def intoBool : Bool → List Token → Option Bool := into readBool

/-- An `int`, of 64 bits. -/
def intoInt : Int → List Token → Option Int := into (goReadInt (-2 ^ 63) (2 ^ 63 - 1))

def intoInt64 : Int64 → List Token → Option Int64 :=
  into fun v => (goReadInt (-2 ^ 63) (2 ^ 63 - 1) v).map Int64.ofInt

def intoUint64 : UInt64 → List Token → Option UInt64 := into goReadUint64

end Unmarshal

/-! ### Answers -/

structure Error where
  code : Octets := []
  message : Octets := []
  remainingAttempts : Option Int := none
  backoffMs : Option Int := none
deriving DecidableEq

structure InitResp where
  ok : Bool := false
  mode : Octets := []
deriving DecidableEq

structure PublicKeyResp where
  ok : Bool := false
  publicKey : Octets := []
deriving DecidableEq

structure OkResp where
  ok : Bool := false
deriving DecidableEq

structure SetTimeResp where
  ok : Bool := false
  uptimeMs : UInt64 := 0
  previousSet : Bool := false
deriving DecidableEq

structure Status where
  state : Octets := []
  mode : Octets := []
  keyPresent : Bool := false
  unlocked : Bool := false
  clockSet : Bool := false
  unixSeconds : Option Int64 := none
  uptimeMs : UInt64 := 0
  retryRemaining : Option Int := none
  fwVersion : Octets := []
  serial : Octets := []
  heapFreeBytes : UInt64 := 0
  otpSecret : Bool := false
  glitchArmed : Bool := false
  secureBoot : Bool := false
  glitchReset : Bool := false
deriving DecidableEq

structure SelfTestDetails where
  ed25519Kat : Octets := []
  sha2Kat : Octets := []
  aeadKat : Octets := []
  drbgHealth : Octets := []
  flashCrc : Octets := []
  otpSecret : Octets := []
deriving DecidableEq

structure SelfTestResp where
  ok : Bool := false
  tests : SelfTestDetails := {}
deriving DecidableEq

structure ResponseBody where
  error : Option Error := none
  init : Option InitResp := none
  generateKey : Option PublicKeyResp := none
  getPublicKey : Option PublicKeyResp := none
  unlock : Option OkResp := none
  lock : Option OkResp := none
  setTime : Option SetTimeResp := none
  status : Option Status := none
  changePin : Option OkResp := none
  addEntropy : Option OkResp := none
  selfTest : Option SelfTestResp := none
  factoryReset : Option OkResp := none
  rebootBootloader : Option OkResp := none
deriving DecidableEq

structure Response where
  hsm : Option ResponseBody := none
  error : Option Octets := none
deriving DecidableEq

def Error.slots : List (Slot Error) :=
  [slot "code" Error.code (fun e x => { e with code := x }) intoString,
    slot "message" Error.message (fun e x => { e with message := x }) intoString,
    slot "remainingAttempts" Error.remainingAttempts (fun e x => { e with remainingAttempts := x })
      (intoPointer 0 intoInt),
    slot "backoffMs" Error.backoffMs (fun e x => { e with backoffMs := x }) (intoPointer 0 intoInt)]

def InitResp.slots : List (Slot InitResp) :=
  [slot "ok" InitResp.ok (fun r x => { r with ok := x }) intoBool,
    slot "mode" InitResp.mode (fun r x => { r with mode := x }) intoString]

def PublicKeyResp.slots : List (Slot PublicKeyResp) :=
  [slot "ok" PublicKeyResp.ok (fun r x => { r with ok := x }) intoBool,
    slot "publicKey" PublicKeyResp.publicKey (fun r x => { r with publicKey := x }) intoString]

def OkResp.slots : List (Slot OkResp) :=
  [slot "ok" OkResp.ok (fun r x => { r with ok := x }) intoBool]

def SetTimeResp.slots : List (Slot SetTimeResp) :=
  [slot "ok" SetTimeResp.ok (fun r x => { r with ok := x }) intoBool,
    slot "uptimeMs" SetTimeResp.uptimeMs (fun r x => { r with uptimeMs := x }) intoUint64,
    slot "previousSet" SetTimeResp.previousSet (fun r x => { r with previousSet := x }) intoBool]

def Status.slots : List (Slot Status) :=
  [slot "state" Status.state (fun s x => { s with state := x }) intoString,
    slot "mode" Status.mode (fun s x => { s with mode := x }) intoString,
    slot "keyPresent" Status.keyPresent (fun s x => { s with keyPresent := x }) intoBool,
    slot "unlocked" Status.unlocked (fun s x => { s with unlocked := x }) intoBool,
    slot "clockSet" Status.clockSet (fun s x => { s with clockSet := x }) intoBool,
    slot "unixSeconds" Status.unixSeconds (fun s x => { s with unixSeconds := x })
      (intoPointer 0 intoInt64),
    slot "uptimeMs" Status.uptimeMs (fun s x => { s with uptimeMs := x }) intoUint64,
    slot "retryRemaining" Status.retryRemaining (fun s x => { s with retryRemaining := x })
      (intoPointer 0 intoInt),
    slot "fwVersion" Status.fwVersion (fun s x => { s with fwVersion := x }) intoString,
    slot "serial" Status.serial (fun s x => { s with serial := x }) intoString,
    slot "heapFreeBytes" Status.heapFreeBytes (fun s x => { s with heapFreeBytes := x }) intoUint64,
    slot "otpSecret" Status.otpSecret (fun s x => { s with otpSecret := x }) intoBool,
    slot "glitchArmed" Status.glitchArmed (fun s x => { s with glitchArmed := x }) intoBool,
    slot "secureBoot" Status.secureBoot (fun s x => { s with secureBoot := x }) intoBool,
    slot "glitchReset" Status.glitchReset (fun s x => { s with glitchReset := x }) intoBool]

def SelfTestDetails.slots : List (Slot SelfTestDetails) :=
  [slot "ed25519Kat" SelfTestDetails.ed25519Kat (fun d x => { d with ed25519Kat := x }) intoString,
    slot "sha2Kat" SelfTestDetails.sha2Kat (fun d x => { d with sha2Kat := x }) intoString,
    slot "aeadKat" SelfTestDetails.aeadKat (fun d x => { d with aeadKat := x }) intoString,
    slot "drbgHealth" SelfTestDetails.drbgHealth (fun d x => { d with drbgHealth := x }) intoString,
    slot "flashCrc" SelfTestDetails.flashCrc (fun d x => { d with flashCrc := x }) intoString,
    slot "otpSecret" SelfTestDetails.otpSecret (fun d x => { d with otpSecret := x }) intoString]

def SelfTestResp.slots : List (Slot SelfTestResp) :=
  [slot "ok" SelfTestResp.ok (fun r x => { r with ok := x }) intoBool,
    slot "tests" SelfTestResp.tests (fun r x => { r with tests := x })
      (intoStruct SelfTestDetails.slots)]

def ResponseBody.slots : List (Slot ResponseBody) :=
  [slot "error" ResponseBody.error (fun b x => { b with error := x })
      (intoPointer {} (intoStruct Error.slots)),
    slot "init" ResponseBody.init (fun b x => { b with init := x })
      (intoPointer {} (intoStruct InitResp.slots)),
    slot "generateKey" ResponseBody.generateKey (fun b x => { b with generateKey := x })
      (intoPointer {} (intoStruct PublicKeyResp.slots)),
    slot "getPublicKey" ResponseBody.getPublicKey (fun b x => { b with getPublicKey := x })
      (intoPointer {} (intoStruct PublicKeyResp.slots)),
    slot "unlock" ResponseBody.unlock (fun b x => { b with unlock := x })
      (intoPointer {} (intoStruct OkResp.slots)),
    slot "lock" ResponseBody.lock (fun b x => { b with lock := x })
      (intoPointer {} (intoStruct OkResp.slots)),
    slot "setTime" ResponseBody.setTime (fun b x => { b with setTime := x })
      (intoPointer {} (intoStruct SetTimeResp.slots)),
    slot "status" ResponseBody.status (fun b x => { b with status := x })
      (intoPointer {} (intoStruct Status.slots)),
    slot "changePin" ResponseBody.changePin (fun b x => { b with changePin := x })
      (intoPointer {} (intoStruct OkResp.slots)),
    slot "addEntropy" ResponseBody.addEntropy (fun b x => { b with addEntropy := x })
      (intoPointer {} (intoStruct OkResp.slots)),
    slot "selfTest" ResponseBody.selfTest (fun b x => { b with selfTest := x })
      (intoPointer {} (intoStruct SelfTestResp.slots)),
    slot "factoryReset" ResponseBody.factoryReset (fun b x => { b with factoryReset := x })
      (intoPointer {} (intoStruct OkResp.slots)),
    slot "rebootBootloader" ResponseBody.rebootBootloader (fun b x => { b with rebootBootloader := x })
      (intoPointer {} (intoStruct OkResp.slots))]

def Response.slots : List (Slot Response) :=
  [slot "hsm" Response.hsm (fun r x => { r with hsm := x })
      (intoPointer {} (intoStruct ResponseBody.slots)),
    slot "error" Response.error (fun r x => { r with error := x }) (intoPointer [] intoString)]

/-- `json.Unmarshal`, of an answer; without the limit on nesting. -/
def unmarshal (raw : Octets) : Option Response :=
  match takeValue (lex raw) with
  | some (v, []) => intoStruct Response.slots {} v
  | _ => none

/-- The errors of `sendHsm`, below those of the link. -/
inductive SendError where
  | decoding
  /-- `device: …` -/
  | device (message : Octets)
  | empty
  | refused (text : Octets)
deriving DecidableEq

/-- `CODE: message`, with the attempts left if the device says how many. -/
def Error.text (e : Error) : Octets :=
  e.code ++ ": ".toUTF8.toList ++ e.message ++
    match e.remainingAttempts with
    | some n => " (".toUTF8.toList ++ integer n ++ " attempts remaining)".toUTF8.toList
    | none => []

/-- `sendHsm`, once a line has come back. -/
def sendHsm (raw : Octets) : Except SendError ResponseBody :=
  match unmarshal raw with
  | none => .error .decoding
  | some resp =>
  match resp.error with
  | some message => .error (.device message)
  | none =>
  match resp.hsm with
  | none => .error .empty
  | some body =>
  match body.error with
  | some e => .error (.refused e.text)
  | none => .ok body

/-! ### What the device means is what the host reads -/

section Slots

variable {α β : Type} {slots : List (Slot α)} {name : String} {a : α} {v : List Token}

theorem intoStruct_serdeStruct {fields : Members} (hfields : ∀ m ∈ fields, IsValue m.2) :
    intoStruct slots a (serdeStruct fields) = fields.foldlM (intoField slots) a := by
  unfold intoStruct
  rw [if_neg (serdeStruct_ne_null fields), members_serdeStruct hfields]
  rfl

theorem intoField_field {s : Slot α} (h : slots.find? (fun s => keyFor s.name name.toList) = some s) :
    intoField slots a (field name v) = s.into a v := by
  unfold intoField field
  dsimp only
  rw [h]

theorem foldlM_field {s : Slot α} {rest : Members} {a' : α}
    (h : slots.find? (fun s => keyFor s.name name.toList) = some s) (hinto : s.into a v = some a') :
    (field name v :: rest).foldlM (intoField slots) a = rest.foldlM (intoField slots) a' := by
  rw [List.foldlM_cons, intoField_field h, hinto]
  rfl

theorem slot_into {get : α → β} {put : α → β → α} {read : β → List Token → Option β} {b : β}
    (h : read (get a) v = some b) : (slot name get put read).into a v = some (put a b) := by
  simp [slot, h]

/-- A field that may be missing, read into a nil pointer. -/
theorem foldlM_optional {γ : Type} {get : α → Option β} {put : α → Option β → α} {zero : β}
    {read : β → List Token → Option β} {write : γ → List Token} {mean : γ → β} {x : Option γ}
    {rest : Members}
    (h : slots.find? (fun s => keyFor s.name name.toList) = some (slot name get put (intoPointer zero read)))
    (hget : get a = none) (hput : put a none = a) (hnull : ∀ y, write y ≠ jsonNull)
    (hread : ∀ y, x = some y → read zero (write y) = some (mean y)) :
    (optional name (x.map write) ++ rest).foldlM (intoField slots) a =
      rest.foldlM (intoField slots) (put a (x.map mean)) := by
  cases x with
  | none =>
    simp only [optional, Option.map_none, Option.toList_none, List.nil_append]
    rw [hput]
  | some y =>
    simp only [optional, Option.map_some, Option.toList_some, List.singleton_append]
    apply foldlM_field h
    apply slot_into
    simp [intoPointer, hnull, hget, hread]

end Slots

theorem intoString_serdeString (s : Octets) (t : String) :
    intoString s (serdeString t) = some (Str.bytes t.toList) := by
  have hread : goReadString (serdeString t) = some (Str.bytes (unquote (jsonKey escapeChar t.toList))) :=
    rfl
  have hnull : serdeString t ≠ jsonNull := by simp [serdeString, jsonString, stringToken, jsonNull]
  unfold intoString into
  rw [if_neg hnull, hread, unquote_jsonKey spells_escapeChar]

theorem intoBool_jsonBool (b b' : Bool) : intoBool b (jsonBool b') = some b' := by
  simp [intoBool, into, jsonBool_ne_null]

theorem goReadInt_jsonInt {lo hi n : Int} (hlo : lo ≤ n) (hhi : n ≤ hi) :
    goReadInt lo hi (jsonInt n) = some n := by
  simp [goReadInt, jsonInt, readInteger_integer, hlo, hhi]

/-- The counts of a response are `u32`. -/
theorem intoInt_jsonInt (n : Int) {m : Nat} (h : m < 2 ^ 32) : intoInt n (jsonInt m) = some (m : Int) := by
  unfold intoInt into
  rw [if_neg (jsonInt_ne_null _), goReadInt_jsonInt (by omega) (by omega)]

theorem intoInt64_jsonInt (n m : Int64) : intoInt64 n (jsonInt m.toInt) = some m := by
  have hread : goReadInt (-2 ^ 63) (2 ^ 63 - 1) (jsonInt m.toInt) = some m.toInt :=
    goReadInt_jsonInt m.le_toInt (by have := m.toInt_lt; omega)
  unfold intoInt64 into
  rw [if_neg (jsonInt_ne_null _)]
  dsimp only
  rw [hread]
  simp

theorem intoUint64_jsonInt (n m : UInt64) : intoUint64 n (jsonInt m.toNat) = some m := by
  have hinteger : integer m.toNat = decimal m.toNat := if_neg (by omega)
  unfold intoUint64 into
  rw [if_neg (jsonInt_ne_null _)]
  simp [goReadUint64, jsonInt, hinteger, readNat_decimal, m.toNat_lt]

/-- A string of the device, in Go. -/
def goBytes (s : String) : Octets := Str.bytes s.toList

/-- The error that the host holds. -/
def Error.ofDevice (e : HsmError) : Error where
  code := goBytes e.code.text
  message := goBytes e.message
  remainingAttempts := e.remainingAttempts.map fun n : Nat => (n : Int)
  backoffMs := e.backoffMs.map fun n : Nat => (n : Int)

def Status.ofDevice (r : StatusResp) : Status where
  state := goBytes r.state
  mode := goBytes r.mode
  keyPresent := r.keyPresent
  unlocked := r.unlocked
  clockSet := r.clockSet
  unixSeconds := r.unixSeconds
  uptimeMs := r.uptimeMs
  retryRemaining := r.retryRemaining.map fun n : Nat => (n : Int)
  fwVersion := goBytes r.fwVersion
  serial := goBytes r.serial
  heapFreeBytes := r.heapFreeBytes
  otpSecret := r.otpSecret
  glitchArmed := r.glitchArmed
  secureBoot := r.secureBoot
  glitchReset := r.glitchReset

def SelfTestResp.ofDevice (r : PicoSignet.SelfTestResp) : SelfTestResp where
  ok := r.ok
  tests :=
    { ed25519Kat := goBytes (verdict r.ed25519Kat), sha2Kat := goBytes (verdict r.sha2Kat),
      aeadKat := goBytes (verdict r.aeadKat), drbgHealth := goBytes (verdict r.drbgHealth),
      flashCrc := goBytes (verdict r.flashCrc), otpSecret := goBytes (verdict r.otpSecret) }

/-- The body that the host holds. -/
def ResponseBody.ofDevice : HsmResponse → ResponseBody
  | .error e => { error := some (.ofDevice e) }
  | .init ok mode => { init := some { ok, mode := goBytes mode } }
  | .generateKey ok publicKey => { generateKey := some { ok, publicKey := goBytes publicKey } }
  | .getPublicKey publicKey => { getPublicKey := some { publicKey := goBytes publicKey } }
  | .unlock ok => { unlock := some { ok } }
  | .lock ok => { lock := some { ok } }
  | .setTime ok uptimeMs previousSet => { setTime := some { ok, uptimeMs, previousSet } }
  | .status resp => { status := some (.ofDevice resp) }
  | .changePin ok => { changePin := some { ok } }
  | .addEntropy ok => { addEntropy := some { ok } }
  | .selfTest resp => { selfTest := some (.ofDevice resp) }
  | .factoryReset ok => { factoryReset := some { ok } }
  | .rebootBootloader ok => { rebootBootloader := some { ok } }

/-- The counts that the device holds in a `u32`. -/
def counts : HsmResponse → List Nat
  | .error e => e.remainingAttempts.toList ++ e.backoffMs.toList
  | .status resp => resp.retryRemaining.toList
  | _ => []

def InRange (resp : HsmResponse) : Prop := ∀ n ∈ counts resp, n < 2 ^ 32

theorem Error.decode {e : HsmError} (h : InRange (.error e)) :
    intoStruct Error.slots {} (serdeStruct e.fields) = some (.ofDevice e) := by
  simp only [InRange, counts, List.forall_mem_append, Option.mem_toList] at h
  rw [intoStruct_serdeStruct e.isValue_fields]
  simp only [HsmError.fields, List.cons_append, List.nil_append]
  rw [foldlM_field rfl (slot_into (intoString_serdeString _ _)),
    foldlM_field rfl (slot_into (intoString_serdeString _ _)),
    foldlM_optional rfl rfl rfl (fun n => jsonInt_ne_null _) fun n hn => intoInt_jsonInt 0 (h.1 n hn),
    ← List.append_nil (optional _ _),
    foldlM_optional rfl rfl rfl (fun n => jsonInt_ne_null _) fun n hn => intoInt_jsonInt 0 (h.2 n hn)]
  rfl

theorem Status.decode {r : StatusResp} (h : InRange (.status r)) :
    intoStruct Status.slots {} (serdeStruct r.fields) = some (.ofDevice r) := by
  simp only [InRange, counts, Option.mem_toList] at h
  rw [intoStruct_serdeStruct r.isValue_fields]
  simp only [StatusResp.fields, List.append_assoc, List.cons_append, List.nil_append]
  rw [foldlM_field rfl (slot_into (intoString_serdeString _ _)),
    foldlM_field rfl (slot_into (intoString_serdeString _ _)),
    foldlM_field rfl (slot_into (intoBool_jsonBool _ _)),
    foldlM_field rfl (slot_into (intoBool_jsonBool _ _)),
    foldlM_field rfl (slot_into (intoBool_jsonBool _ _)),
    foldlM_optional rfl rfl rfl (fun n => jsonInt_ne_null _) fun n _ => intoInt64_jsonInt 0 n,
    foldlM_field rfl (slot_into (intoUint64_jsonInt _ _)),
    foldlM_optional rfl rfl rfl (fun n => jsonInt_ne_null _) fun n hn => intoInt_jsonInt 0 (h n hn),
    foldlM_field rfl (slot_into (intoString_serdeString _ _)),
    foldlM_field rfl (slot_into (intoString_serdeString _ _)),
    foldlM_field rfl (slot_into (intoUint64_jsonInt _ _)),
    foldlM_field rfl (slot_into (intoBool_jsonBool _ _)),
    foldlM_field rfl (slot_into (intoBool_jsonBool _ _)),
    foldlM_field rfl (slot_into (intoBool_jsonBool _ _)),
    foldlM_field rfl (slot_into (intoBool_jsonBool _ _))]
  simp [ofDevice, goBytes]

theorem SelfTestDetails.decode (r : PicoSignet.SelfTestResp) :
    intoStruct SelfTestDetails.slots {} (serdeStruct r.tests) = some (SelfTestResp.ofDevice r).tests := by
  rw [intoStruct_serdeStruct r.isValue_tests]
  unfold PicoSignet.SelfTestResp.tests
  rw [foldlM_field rfl (slot_into (intoString_serdeString _ _)),
    foldlM_field rfl (slot_into (intoString_serdeString _ _)),
    foldlM_field rfl (slot_into (intoString_serdeString _ _)),
    foldlM_field rfl (slot_into (intoString_serdeString _ _)),
    foldlM_field rfl (slot_into (intoString_serdeString _ _)),
    foldlM_field rfl (slot_into (intoString_serdeString _ _))]
  rfl

theorem SelfTestResp.decode (r : PicoSignet.SelfTestResp) :
    intoStruct SelfTestResp.slots {} (serdeStruct r.fields) = some (.ofDevice r) := by
  have htests : (slot "tests" SelfTestResp.tests (fun r x => { r with tests := x })
      (intoStruct SelfTestDetails.slots)).into { ok := r.ok } (serdeStruct r.tests) =
        some (.ofDevice r) := slot_into (SelfTestDetails.decode r)
  rw [intoStruct_serdeStruct r.isValue_fields]
  unfold PicoSignet.SelfTestResp.fields
  rw [foldlM_field rfl (slot_into (intoBool_jsonBool _ _)), foldlM_field rfl htests]
  rfl

theorem OkResp.decode (ok : Bool) : intoStruct OkResp.slots {} (okResp ok) = some { ok } := by
  unfold okResp
  rw [intoStruct_serdeStruct (by simp [field, isValue_jsonBool]),
    foldlM_field rfl (slot_into (intoBool_jsonBool _ _))]
  rfl

theorem InitResp.decode (ok : Bool) (mode : String) : intoStruct InitResp.slots {}
    (serdeStruct [field "ok" (jsonBool ok), field "mode" (serdeString mode)]) =
      some { ok, mode := goBytes mode } := by
  rw [intoStruct_serdeStruct (by simp [field, isValue_jsonBool, isValue_serdeString]),
    foldlM_field rfl (slot_into (intoBool_jsonBool _ _)),
    foldlM_field rfl (slot_into (intoString_serdeString _ _))]
  rfl

theorem PublicKeyResp.decode (ok : Bool) (publicKey : String) : intoStruct PublicKeyResp.slots {}
    (serdeStruct [field "ok" (jsonBool ok), field "publicKey" (serdeString publicKey)]) =
      some { ok, publicKey := goBytes publicKey } := by
  rw [intoStruct_serdeStruct (by simp [field, isValue_jsonBool, isValue_serdeString]),
    foldlM_field rfl (slot_into (intoBool_jsonBool _ _)),
    foldlM_field rfl (slot_into (intoString_serdeString _ _))]
  rfl

/-- `getPublicKey` answers without the `ok`. -/
theorem PublicKeyResp.decode_key (publicKey : String) : intoStruct PublicKeyResp.slots {}
    (serdeStruct [field "publicKey" (serdeString publicKey)]) =
      some { publicKey := goBytes publicKey } := by
  rw [intoStruct_serdeStruct (by simp [field, isValue_serdeString]),
    foldlM_field rfl (slot_into (intoString_serdeString _ _))]
  rfl

theorem SetTimeResp.decode (ok : Bool) (uptimeMs : UInt64) (previousSet : Bool) :
    intoStruct SetTimeResp.slots {} (serdeStruct [field "ok" (jsonBool ok),
      field "uptimeMs" (jsonInt uptimeMs.toNat), field "previousSet" (jsonBool previousSet)]) =
        some { ok, uptimeMs, previousSet } := by
  rw [intoStruct_serdeStruct (by simp [field, isValue_jsonBool, isValue_jsonInt]),
    foldlM_field rfl (slot_into (intoBool_jsonBool _ _)),
    foldlM_field rfl (slot_into (intoUint64_jsonInt _ _)),
    foldlM_field rfl (slot_into (intoBool_jsonBool _ _))]
  rfl

/-- The variant that is set is the pointer that is not nil. -/
theorem intoPointer_member {α : Type} {slots : List (Slot α)} {zero a : α} {fields : Members}
    (h : intoStruct slots zero (serdeStruct fields) = some a) :
    intoPointer zero (intoStruct slots) none (serdeStruct fields) = some (some a) := by
  simp [intoPointer, serdeStruct_ne_null, h]

theorem ResponseBody.decode {resp : HsmResponse} (h : InRange resp) :
    intoStruct ResponseBody.slots {} resp.json = some (.ofDevice resp) := by
  unfold HsmResponse.json
  rw [intoStruct_serdeStruct (by simp [resp.isValue_member])]
  cases resp with
  | error e => exact foldlM_field rfl (slot_into (intoPointer_member (Error.decode h)))
  | init ok mode => exact foldlM_field rfl (slot_into (intoPointer_member (InitResp.decode ok mode)))
  | generateKey ok publicKey =>
    exact foldlM_field rfl (slot_into (intoPointer_member (PublicKeyResp.decode ok publicKey)))
  | getPublicKey publicKey =>
    exact foldlM_field rfl (slot_into (intoPointer_member (PublicKeyResp.decode_key publicKey)))
  | setTime ok uptimeMs previousSet =>
    exact foldlM_field rfl
      (slot_into (intoPointer_member (SetTimeResp.decode ok uptimeMs previousSet)))
  | status r => exact foldlM_field rfl (slot_into (intoPointer_member (Status.decode h)))
  | selfTest r => exact foldlM_field rfl (slot_into (intoPointer_member (SelfTestResp.decode r)))
  | _ => exact foldlM_field rfl (slot_into (intoPointer_member (OkResp.decode _)))

/-- What `sendHsm` makes of an answer. -/
def outcome : HsmResponse → Except SendError ResponseBody
  | .error e => .error (.refused (Error.ofDevice e).text)
  | resp => .ok (.ofDevice resp)

theorem unmarshal_toVec (ryu : UInt64 → Octets) {resp : HsmResponse} (h : InRange resp) :
    unmarshal ((PicoSignet.Response.hsm resp).toVec ryu) = some { hsm := some (.ofDevice resp) } := by
  have hvalue : IsValue (serdeStruct [field "hsm" resp.json]) :=
    isValue_serdeStruct (by simp [field, resp.isValue_json])
  have hbody : intoPointer {} (intoStruct ResponseBody.slots) none resp.json =
      some (some (.ofDevice resp)) := by
    have hnull : resp.json ≠ jsonNull := serdeStruct_ne_null _
    simp [intoPointer, hnull, ResponseBody.decode h]
  have hline : (PicoSignet.Response.hsm resp).toVec ryu =
      print (serdeStruct [field "hsm" resp.json]) := rfl
  unfold unmarshal
  rw [hline, hvalue.takeValue_print]
  dsimp only
  rw [intoStruct_serdeStruct (by simp [field, resp.isValue_json])]
  exact foldlM_field rfl (slot_into hbody)

/-- The host reads from the answer what the device meant. -/
theorem sendHsm_toVec (ryu : UInt64 → Octets) {resp : HsmResponse} (h : InRange resp) :
    sendHsm ((PicoSignet.Response.hsm resp).toVec ryu) = outcome resp := by
  unfold sendHsm
  rw [unmarshal_toVec ryu h]
  cases resp <;> rfl

end PicoSignet.Hsmproto
