/-
  PicoSignet/Hsmproto.lean
  ========================
  **The host's half of the management protocol** — mirror of
  `host/internal/hsmproto/hsmproto.go` and of `sendHsm` in `host/internal/cli/cli.go`.

  A command line tool in Go and firmware in Rust agree on field names in JSON and on
  little else: the one writes with `encoding/json`'s escapes and leaves out what is
  empty, the other fills in defaults and refuses a key that comes twice.  What they
  share is shown here: the device reads from a request what the host put into it
  (`lineCommand_marshal`), the host reads from the answer what the device meant
  (`sendHsm_toVec`), and both lines are lines.
-/
import PicoSignet.Responses

set_option autoImplicit false

namespace PicoSignet.Hsmproto

open Json

/-! ### Go strings -/

/-- The characters of a Go string, with `none` for each byte that is part of none. -/
def runesUpTo : (fuel : Nat) → Octets → List (Option Char)
  | 0, _ => []
  | _, [] => []
  | fuel + 1, bs@(_ :: rest) =>
    match (bs.take 4).toByteArray.utf8DecodeChar? 0 with
    | some c => some c :: runesUpTo fuel (bs.drop c.utf8Size)
    | none => none :: runesUpTo fuel rest

def runes (s : Octets) : List (Option Char) := runesUpTo s.length s

/-- The string that the other end reads: U+FFFD stands for a byte of no character. -/
def seen (s : Octets) : Str := (runes s).map (·.getD REPLACEMENT)

/-- What `json.Marshal` escapes besides. -/
def htmlUnsafe : List Char := ['<', '>', '&', Char.ofNat 0x2028, Char.ofNat 0x2029]

/-- `appendString`, on one rune. -/
def goEscape : Option Char → Octets
  | none => unitEscape REPLACEMENT
  | some c => if c ∈ htmlUnsafe then unitEscape c else escapeChar c

theorem spells_goEscape (r : Option Char) : Spells (r.getD REPLACEMENT) (goEscape r) := by
  cases r with
  | none => exact spells_unitEscape (by decide)
  | some c =>
    simp only [goEscape, Option.getD_some]
    split
    · rename_i hunsafe
      apply spells_unitEscape
      simp only [htmlUnsafe, List.mem_cons, List.not_mem_nil, or_false] at hunsafe
      rcases hunsafe with rfl | rfl | rfl | rfl | rfl <;> decide
    · exact spells_escapeChar c

/-- A string whose bytes are those of characters is read as these. -/
theorem seen_bytes (s : Str) : seen s.bytes = s := by
  have hfuel : ∀ (s : Str) (fuel : Nat), s.bytes.length ≤ fuel →
      runesUpTo fuel s.bytes = s.map some := by
    intro s
    induction s with
    | nil => intro fuel _; cases fuel <;> rfl
    | cons c s ih =>
      intro fuel hfuel
      have hcons : Str.bytes (c :: s) = String.utf8EncodeChar c ++ Str.bytes s := rfl
      have hlen : (String.utf8EncodeChar c).length = c.utf8Size := String.length_utf8EncodeChar c
      have hpos := c.utf8Size_pos
      rw [hcons, List.length_append, hlen] at hfuel
      obtain ⟨fuel, rfl⟩ : ∃ n, fuel = n + 1 := ⟨fuel - 1, by omega⟩
      obtain ⟨b, more, heq⟩ := head_utf8EncodeChar c
      have hdecode : (((b :: (more ++ Str.bytes s)).take 4).toByteArray.utf8DecodeChar? 0) = some c := by
        rw [← List.cons_append, ← heq, List.take_append, List.take_of_length_le
          (by rw [hlen]; exact c.utf8Size_le_four), List.toByteArray_append]
        exact ByteArray.utf8DecodeChar?_utf8EncodeChar_append
      rw [hcons, heq, List.cons_append, runesUpTo, hdecode]
      dsimp only
      rw [← List.cons_append, ← heq, ← hlen, List.drop_left, ih fuel (by omega)]
      rfl
  unfold seen runes
  rw [hfuel s _ le_rfl, List.map_map]
  exact List.map_id s

def goString (s : Octets) : List Token := [stringToken ((runes s).flatMap goEscape)]

theorem spelling_runes (s : Octets) : Spelling (seen s) ((runes s).flatMap goEscape) :=
  Spelling.flatMap fun r _ => spells_goEscape r

theorem isValue_goString (s : Octets) : IsValue (goString s) := isValue_atom (spelling_runes s).wf

def nonEmpty (s : Octets) : Option Octets := if s = [] then none else some s

/-- A field of a Go struct that is left out when it is empty. -/
def omitEmpty (name : String) (s : Octets) : Members :=
  optional name ((nonEmpty s).map goString)

/-- A pointer to a struct, left out when it is nil. -/
def pointer {α : Type} (name : String) (p : Option α) (fields : α → Members) : Members :=
  optional name (p.map fun a => serdeStruct (fields a))

/-! ### Requests -/

structure InitReq where
  mode : Octets
  pin : Octets := []
  maxRetries : Option UInt8 := none
  wipeOnLockout : Option Bool := none

structure GenerateKey where
  force : Bool := false

structure PinReq where
  pin : Octets

structure SetTimeReq where
  unixSeconds : Int64

structure ChangePinReq where
  currentPin : Octets
  newPin : Octets

structure AddEntropy where
  hex : Octets

structure FactoryResetReq where
  confirm : Octets
  pin : Octets := []

structure RebootBootloader where
  pin : Octets := []

structure Request where
  init : Option InitReq := none
  generateKey : Option GenerateKey := none
  getPublicKey : Option Unit := none
  unlock : Option PinReq := none
  lock : Option Unit := none
  setTime : Option SetTimeReq := none
  status : Option Unit := none
  changePin : Option ChangePinReq := none
  addEntropy : Option AddEntropy := none
  selfTest : Option Unit := none
  factoryReset : Option FactoryResetReq := none
  rebootBootloader : Option RebootBootloader := none

def InitReq.fields (r : InitReq) : Members :=
  [field "mode" (goString r.mode)] ++ omitEmpty "pin" r.pin ++
    optional "maxRetries" (r.maxRetries.map fun n => jsonInt n.toNat) ++
    optional "wipeOnLockout" (r.wipeOnLockout.map jsonBool)

def GenerateKey.fields (r : GenerateKey) : Members :=
  if r.force then [field "force" (jsonBool true)] else []

def PinReq.fields (r : PinReq) : Members := [field "pin" (goString r.pin)]

def SetTimeReq.fields (r : SetTimeReq) : Members :=
  [field "unixSeconds" (jsonInt r.unixSeconds.toInt)]

def ChangePinReq.fields (r : ChangePinReq) : Members :=
  [field "currentPin" (goString r.currentPin), field "newPin" (goString r.newPin)]

def AddEntropy.fields (r : AddEntropy) : Members := [field "hex" (goString r.hex)]

def FactoryResetReq.fields (r : FactoryResetReq) : Members :=
  [field "confirm" (goString r.confirm)] ++ omitEmpty "pin" r.pin

def RebootBootloader.fields (r : RebootBootloader) : Members := omitEmpty "pin" r.pin

def Request.fields (r : Request) : Members :=
  pointer "init" r.init InitReq.fields ++ pointer "generateKey" r.generateKey GenerateKey.fields ++
    pointer "getPublicKey" r.getPublicKey (fun _ => []) ++ pointer "unlock" r.unlock PinReq.fields ++
    pointer "lock" r.lock (fun _ => []) ++ pointer "setTime" r.setTime SetTimeReq.fields ++
    pointer "status" r.status (fun _ => []) ++
    pointer "changePin" r.changePin ChangePinReq.fields ++
    pointer "addEntropy" r.addEntropy AddEntropy.fields ++
    pointer "selfTest" r.selfTest (fun _ => []) ++
    pointer "factoryReset" r.factoryReset FactoryResetReq.fields ++
    pointer "rebootBootloader" r.rebootBootloader RebootBootloader.fields

/-- `Marshal`, which puts the request into its `Envelope`. -/
def Request.marshal (r : Request) : Octets := print (serdeStruct [field "hsm" (serdeStruct r.fields)])

/-! ### The derived `Deserialize` -/

section Deserialize

variable {α : Type}

def readString : List Token → Option Str
  | [.atom .string raw] => unquoteStrict raw
  | _ => none

def readBool : List Token → Option Bool
  | [.atom .word raw] =>
    if raw = rawTrue then some true else if raw = rawFalse then some false else none
  | _ => none

/-- An integer within bounds; to `serde_json` a negative zero is a float. -/
def readInt (lo hi : Int) : List Token → Option Int
  | [.atom .number raw] =>
    if raw = [0x2D, 0x30] then none
    else (readInteger raw).filter fun n => decide (lo ≤ n) && decide (n ≤ hi)
  | _ => none

def readU8 (v : List Token) : Option UInt8 := (readInt 0 255 v).map fun n => UInt8.ofNat n.toNat

def readI64 (v : List Token) : Option Int64 := (readInt (-2 ^ 63) (2 ^ 63 - 1) v).map Int64.ofInt

def jsonNull : List Token := [.atom .word rawNull]

/-- An `Option`. -/
def readNullable (read : List Token → Option α) (v : List Token) : Option (Option α) :=
  if v = jsonNull then some none else (read v).map some

/-- The values under a name. -/
def found (ms : Members) (name : String) : List (List Token) := values ms name.toList

/-- A field with `#[serde(default)]`. -/
def readDefault (read : List Token → Option α) (default : α) (ms : Members) (name : String) :
    Option α :=
  match found ms name with
  | [] => some default
  | [v] => read v
  | _ => none

/-- A struct, from an object of known keys. -/
def readStruct (names : List String) (fill : Members → Option α) (v : List Token) : Option α :=
  match members v with
  | none => none
  | some ms => if ms.all fun m => (names.map String.toList).contains m.1 then fill ms else none

end Deserialize

def readEmpty : List Token → Option Unit := readStruct [] fun _ => some ()

def readInit : List Token → Option PicoSignet.InitReq :=
  readStruct ["mode", "pin", "maxRetries", "wipeOnLockout"] fun ms => do
    let mode ← readDefault readString [] ms "mode"
    let pin ← readDefault (readNullable readString) none ms "pin"
    let maxRetries ← readDefault (readNullable readU8) none ms "maxRetries"
    let wipeOnLockout ← readDefault (readNullable readBool) none ms "wipeOnLockout"
    return { mode, pin, maxRetries, wipeOnLockout }

def readGenerateKey : List Token → Option PicoSignet.GenerateKeyReq :=
  readStruct ["force"] fun ms => do
    let force ← readDefault readBool false ms "force"
    return { force }

def readUnlock : List Token → Option PicoSignet.UnlockReq :=
  readStruct ["pin"] fun ms => do
    let pin ← readDefault readString [] ms "pin"
    return { pin }

def readSetTime : List Token → Option PicoSignet.SetTimeReq :=
  readStruct ["unixSeconds"] fun ms => do
    let unixSeconds ← readDefault readI64 0 ms "unixSeconds"
    return { unixSeconds }

def readChangePin : List Token → Option PicoSignet.ChangePinReq :=
  readStruct ["currentPin", "newPin"] fun ms => do
    let currentPin ← readDefault readString [] ms "currentPin"
    let newPin ← readDefault readString [] ms "newPin"
    return { currentPin, newPin }

def readAddEntropy : List Token → Option PicoSignet.AddEntropyReq :=
  readStruct ["hex"] fun ms => do
    let hex ← readDefault readString [] ms "hex"
    return { hex }

def readFactoryReset : List Token → Option PicoSignet.FactoryResetReq :=
  readStruct ["confirm", "pin"] fun ms => do
    let confirm ← readDefault readString [] ms "confirm"
    let pin ← readDefault (readNullable readString) none ms "pin"
    return { confirm, pin }

def readRebootBootloader : List Token → Option PicoSignet.RebootBootloaderReq :=
  readStruct ["pin"] fun ms => do
    let pin ← readDefault (readNullable readString) none ms "pin"
    return { pin }

def commandNames : List String :=
  ["init", "generateKey", "getPublicKey", "unlock", "lock", "setTime", "status", "changePin",
    "addEntropy", "selfTest", "factoryReset", "rebootBootloader"]

def readHsm : List Token → Option HsmRequest :=
  readStruct commandNames fun ms => do
    let init ← readDefault (readNullable readInit) none ms "init"
    let generateKey ← readDefault (readNullable readGenerateKey) none ms "generateKey"
    let getPublicKey ← readDefault (readNullable readEmpty) none ms "getPublicKey"
    let unlock ← readDefault (readNullable readUnlock) none ms "unlock"
    let lock ← readDefault (readNullable readEmpty) none ms "lock"
    let setTime ← readDefault (readNullable readSetTime) none ms "setTime"
    let status ← readDefault (readNullable readEmpty) none ms "status"
    let changePin ← readDefault (readNullable readChangePin) none ms "changePin"
    let addEntropy ← readDefault (readNullable readAddEntropy) none ms "addEntropy"
    let selfTest ← readDefault (readNullable readEmpty) none ms "selfTest"
    let factoryReset ← readDefault (readNullable readFactoryReset) none ms "factoryReset"
    let rebootBootloader ← readDefault (readNullable readRebootBootloader) none ms "rebootBootloader"
    return { init, generateKey, getPublicKey, unlock, lock, setTime, status, changePin, addEntropy,
             selfTest, factoryReset, rebootBootloader }

/-- What is relied on of the readers behind `parseRequest`: the one for `hsm` takes what
    `readHsm` takes.  It takes more: arrays for structs, and objects with other keys. -/
def ReadsHsm (R : Readers) : Prop := ∀ v req, readHsm v = some req → R.hsm v = some (some req)

/-! ### What the host sent is what the device reads -/

def InitReq.received (r : InitReq) : PicoSignet.InitReq where
  mode := seen r.mode
  pin := (nonEmpty r.pin).map seen
  maxRetries := r.maxRetries
  wipeOnLockout := r.wipeOnLockout

def FactoryResetReq.received (r : FactoryResetReq) : PicoSignet.FactoryResetReq where
  confirm := seen r.confirm
  pin := (nonEmpty r.pin).map seen

def RebootBootloader.received (r : RebootBootloader) : PicoSignet.RebootBootloaderReq where
  pin := (nonEmpty r.pin).map seen

/-- The request as the device reads it. -/
def Request.received (r : Request) : HsmRequest where
  init := r.init.map InitReq.received
  generateKey := r.generateKey.map fun k => { force := k.force }
  getPublicKey := r.getPublicKey
  unlock := r.unlock.map fun u => { pin := seen u.pin }
  lock := r.lock
  setTime := r.setTime.map fun t => { unixSeconds := t.unixSeconds }
  status := r.status
  changePin := r.changePin.map fun c => { currentPin := seen c.currentPin, newPin := seen c.newPin }
  addEntropy := r.addEntropy.map fun a => { hex := seen a.hex }
  selfTest := r.selfTest
  factoryReset := r.factoryReset.map FactoryResetReq.received
  rebootBootloader := r.rebootBootloader.map RebootBootloader.received

section Fields

variable {α : Type} {name k : String} {ms : Members} {v : List Token}

@[simp] theorem found_nil : found [] k = [] := rfl

@[simp] theorem found_field :
    found (field name v :: ms) k = if name = k then v :: found ms k else found ms k := by
  unfold found values field
  by_cases h : name = k
  · simp [h]
  · have hne : name.toList ≠ k.toList := fun heq => h (String.toList_inj.mp heq)
    simp [h, hne]

@[simp] theorem found_append {ms' : Members} : found (ms ++ ms') k = found ms k ++ found ms' k := by
  simp [found, values]

@[simp] theorem found_optional {v : Option (List Token)} :
    found (optional name v) k = if name = k then v.toList else [] := by
  cases v with
  | none => simp [optional]
  | some ts => simp [optional]

@[simp] theorem readString_goString (s : Octets) : readString (goString s) = some (seen s) :=
  (spelling_runes s).unquoted

@[simp] theorem readBool_jsonBool (b : Bool) : readBool (jsonBool b) = some b := by
  have hwords : rawFalse ≠ rawTrue := by decide
  cases b <;> simp [readBool, jsonBool, hwords]

@[simp] theorem readInt_jsonInt {lo hi n : Int} (hlo : lo ≤ n) (hhi : n ≤ hi) :
    readInt lo hi (jsonInt n) = some n := by
  have hzero : integer n ≠ [0x2D, 0x30] := by
    intro heq
    have hread := readInteger_integer n
    rw [heq] at hread
    have hminus : readInteger [0x2D, 0x30] = some 0 := rfl
    have hn : n = 0 := Option.some.inj (hread.symm.trans hminus)
    rw [hn] at heq
    cases heq
  simp [readInt, jsonInt, hzero, readInteger_integer, hlo, hhi]

theorem readNullable_some {read : List Token → Option α} {a : α} (hnull : v ≠ jsonNull)
    (hread : read v = some a) : readNullable read v = some (some a) := by
  simp [readNullable, hnull, hread]

theorem goString_ne_null (s : Octets) : goString s ≠ jsonNull := by
  simp [goString, stringToken, jsonNull]

theorem serdeStruct_ne_null (fields : Members) : serdeStruct fields ≠ jsonNull := by
  unfold serdeStruct jsonObject
  obtain ⟨ts, hts⟩ := objectTokens_lbrace (fields.map fun m => (jsonKey escapeChar m.1, m.2))
  rw [hts]
  simp [jsonNull]

theorem readDefault_field {read : List Token → Option α} {default : α}
    (h : found ms k = [v]) : readDefault read default ms k = read v := by
  unfold readDefault
  rw [h]

/-- An optional field is read as what was written into it, or as missing. -/
theorem readDefault_optional {β : Type} {read : List Token → Option β} (write : α → List Token)
    {received : α → β} {a : Option α} (h : found ms k = (a.map write).toList)
    (hnull : ∀ x, write x ≠ jsonNull) (hread : ∀ x, a = some x → read (write x) = some (received x)) :
    readDefault (readNullable read) none ms k = some (a.map received) := by
  cases a with
  | none =>
    unfold readDefault
    rw [h]
    rfl
  | some x =>
    rw [readDefault_field h]
    exact readNullable_some (hnull x) (hread x rfl)

/-- Members with these names, each once at most in what is written here. -/
def Fits (names : List String) (ms : Members) : Prop :=
  ∀ m ∈ ms, IsValue m.2 ∧ m.1 ∈ names.map String.toList

section Fits

variable {names : List String}

@[simp] theorem fits_nil : Fits names [] := by simp [Fits]

@[simp] theorem fits_append {ms' : Members} :
    Fits names (ms ++ ms') ↔ Fits names ms ∧ Fits names ms' := List.forall_mem_append

theorem Fits.field (hv : IsValue v) (hname : name ∈ names) (hms : Fits names ms) :
    Fits names (PicoSignet.field name v :: ms) :=
  List.forall_mem_cons.mpr ⟨⟨hv, List.mem_map_of_mem hname⟩, hms⟩

theorem Fits.optional {write : α → List Token} {a : Option α} (hwrite : ∀ x, IsValue (write x))
    (hname : name ∈ names) : Fits names (PicoSignet.optional name (a.map write)) := by
  cases a with
  | none => exact fits_nil
  | some x => exact fits_nil.field (hwrite x) hname

theorem readStruct_serdeStruct {fill : Members → Option α} {fields : Members}
    (hfits : Fits names fields) : readStruct names fill (serdeStruct fields) = fill fields := by
  unfold readStruct
  rw [members_serdeStruct fun m hm => (hfits m hm).1]
  have hall : (fields.all fun m => (names.map String.toList).contains m.1) = true := by
    rw [List.all_eq_true]
    intro m hm
    rw [List.contains_iff_mem]
    exact (hfits m hm).2
  dsimp only
  rw [if_pos hall]

theorem Fits.isValue {fields : Members} (h : Fits names fields) : IsValue (serdeStruct fields) :=
  isValue_serdeStruct fun m hm => (h m hm).1

end Fits

end Fields

/-! ### Each struct is read as it was filled in -/

theorem InitReq.fits (r : InitReq) :
    Fits ["mode", "pin", "maxRetries", "wipeOnLockout"] r.fields := by
  simp only [fields, fits_append]
  refine ⟨⟨⟨fits_nil.field (isValue_goString _) (by decide), .optional isValue_goString (by decide)⟩,
    .optional (fun n => isValue_jsonInt _) (by decide)⟩, .optional isValue_jsonBool (by decide)⟩

theorem GenerateKey.fits (r : GenerateKey) : Fits ["force"] r.fields := by
  unfold fields
  split
  · exact fits_nil.field (isValue_jsonBool true) (by decide)
  · exact fits_nil

theorem PinReq.fits (r : PinReq) : Fits ["pin"] r.fields :=
  fits_nil.field (isValue_goString _) (by decide)

theorem SetTimeReq.fits (r : SetTimeReq) : Fits ["unixSeconds"] r.fields :=
  fits_nil.field (isValue_jsonInt _) (by decide)

theorem ChangePinReq.fits (r : ChangePinReq) : Fits ["currentPin", "newPin"] r.fields :=
  (fits_nil.field (isValue_goString _) (by decide)).field (isValue_goString _) (by decide)

theorem AddEntropy.fits (r : AddEntropy) : Fits ["hex"] r.fields :=
  fits_nil.field (isValue_goString _) (by decide)

theorem FactoryResetReq.fits (r : FactoryResetReq) : Fits ["confirm", "pin"] r.fields :=
  (Fits.optional isValue_goString (by decide)).field (isValue_goString _) (by decide)

theorem RebootBootloader.fits (r : RebootBootloader) : Fits ["pin"] r.fields :=
  .optional isValue_goString (by decide)

theorem readU8_jsonInt (n : UInt8) : readU8 (jsonInt n.toNat) = some n := by
  have hread : readInt 0 255 (jsonInt n.toNat) = some (n.toNat : Int) :=
    readInt_jsonInt (by omega) (by have := n.toNat_lt; omega)
  unfold readU8
  rw [hread]
  simp

theorem readI64_jsonInt (n : Int64) : readI64 (jsonInt n.toInt) = some n := by
  have hread : readInt (-2 ^ 63) (2 ^ 63 - 1) (jsonInt n.toInt) = some n.toInt :=
    readInt_jsonInt n.le_toInt (by have := n.toInt_lt; omega)
  unfold readI64
  rw [hread]
  simp

theorem jsonInt_ne_null (n : Int) : jsonInt n ≠ jsonNull := by simp [jsonInt, jsonNull]

theorem jsonBool_ne_null (b : Bool) : jsonBool b ≠ jsonNull := by cases b <;> decide

/-- A `pin` that may be left out. -/
theorem readPin {ms : Members} {pin : Octets}
    (h : found ms "pin" = ((nonEmpty pin).map goString).toList) :
    readDefault (readNullable readString) none ms "pin" = some ((nonEmpty pin).map seen) :=
  readDefault_optional goString h goString_ne_null fun s _ => readString_goString s

theorem readDefault_goString {ms : Members} {name : String} {s : Octets}
    (h : found ms name = [goString s]) : readDefault readString [] ms name = some (seen s) := by
  rw [readDefault_field h]
  exact readString_goString s

theorem InitReq.read (r : InitReq) : readInit (serdeStruct r.fields) = some r.received := by
  have hmode : readDefault readString [] r.fields "mode" = some (seen r.mode) := by
    apply readDefault_goString
    simp [fields, omitEmpty]
  have hpin : readDefault (readNullable readString) none r.fields "pin" =
      some ((nonEmpty r.pin).map seen) := by
    apply readPin
    simp [fields, omitEmpty]
  have hretries : readDefault (readNullable readU8) none r.fields "maxRetries" =
      some (r.maxRetries.map id) := by
    apply readDefault_optional fun n : UInt8 => jsonInt n.toNat
    · simp [fields, omitEmpty]
    · exact fun n => jsonInt_ne_null _
    · exact fun n _ => readU8_jsonInt n
  have hwipe : readDefault (readNullable readBool) none r.fields "wipeOnLockout" =
      some (r.wipeOnLockout.map id) := by
    apply readDefault_optional jsonBool
    · simp [fields, omitEmpty]
    · exact jsonBool_ne_null
    · exact fun b _ => readBool_jsonBool b
  unfold readInit
  rw [readStruct_serdeStruct r.fits]
  simp [hmode, hpin, hretries, hwipe, received]

theorem GenerateKey.read (r : GenerateKey) :
    readGenerateKey (serdeStruct r.fields) = some { force := r.force } := by
  have hforce : readDefault readBool false r.fields "force" = some r.force := by
    cases hf : r.force with
    | true =>
      rw [readDefault_field (v := jsonBool true)]
      · rfl
      · simp [fields, hf]
    | false => simp [readDefault, fields, hf]
  unfold readGenerateKey
  rw [readStruct_serdeStruct r.fits]
  simp [hforce]

theorem PinReq.read (r : PinReq) : readUnlock (serdeStruct r.fields) = some { pin := seen r.pin } := by
  have hpin : readDefault readString [] r.fields "pin" = some (seen r.pin) := by
    apply readDefault_goString
    simp [fields]
  unfold readUnlock
  rw [readStruct_serdeStruct r.fits]
  simp [hpin]

theorem SetTimeReq.read (r : SetTimeReq) :
    readSetTime (serdeStruct r.fields) = some { unixSeconds := r.unixSeconds } := by
  have hunix : readDefault readI64 0 r.fields "unixSeconds" = some r.unixSeconds := by
    rw [readDefault_field (v := jsonInt r.unixSeconds.toInt)]
    · exact readI64_jsonInt r.unixSeconds
    · simp [fields]
  unfold readSetTime
  rw [readStruct_serdeStruct r.fits]
  simp [hunix]

theorem ChangePinReq.read (r : ChangePinReq) : readChangePin (serdeStruct r.fields) =
    some { currentPin := seen r.currentPin, newPin := seen r.newPin } := by
  have hcurrent : readDefault readString [] r.fields "currentPin" = some (seen r.currentPin) := by
    apply readDefault_goString
    simp [fields]
  have hnew : readDefault readString [] r.fields "newPin" = some (seen r.newPin) := by
    apply readDefault_goString
    simp [fields]
  unfold readChangePin
  rw [readStruct_serdeStruct r.fits]
  simp [hcurrent, hnew]

theorem AddEntropy.read (r : AddEntropy) :
    readAddEntropy (serdeStruct r.fields) = some { hex := seen r.hex } := by
  have hhex : readDefault readString [] r.fields "hex" = some (seen r.hex) := by
    apply readDefault_goString
    simp [fields]
  unfold readAddEntropy
  rw [readStruct_serdeStruct r.fits]
  simp [hhex]

theorem FactoryResetReq.read (r : FactoryResetReq) :
    readFactoryReset (serdeStruct r.fields) = some r.received := by
  have hconfirm : readDefault readString [] r.fields "confirm" = some (seen r.confirm) := by
    apply readDefault_goString
    simp [fields, omitEmpty]
  have hpin : readDefault (readNullable readString) none r.fields "pin" =
      some ((nonEmpty r.pin).map seen) := by
    apply readPin
    simp [fields, omitEmpty]
  unfold readFactoryReset
  rw [readStruct_serdeStruct r.fits]
  simp [hconfirm, hpin, received]

theorem RebootBootloader.read (r : RebootBootloader) :
    readRebootBootloader (serdeStruct r.fields) = some r.received := by
  have hpin : readDefault (readNullable readString) none r.fields "pin" =
      some ((nonEmpty r.pin).map seen) := by
    apply readPin
    simp [fields, omitEmpty]
  unfold readRebootBootloader
  rw [readStruct_serdeStruct r.fits]
  simp [hpin, received]

theorem readEmpty_serdeStruct : readEmpty (serdeStruct []) = some () :=
  readStruct_serdeStruct fits_nil

/-! ### The request -/

section Pointer

variable {α β : Type} {name k : String} {p : Option α} {fields : α → Members} {names : List String}

@[simp] theorem found_pointer : found (pointer name p fields) k =
    if name = k then (p.map fun a => serdeStruct (fields a)).toList else [] := found_optional

theorem fits_pointer {inner : List String} (hfits : ∀ a, Fits inner (fields a)) (hname : name ∈ names) :
    Fits names (pointer name p fields) :=
  .optional (fun a => (hfits a).isValue) hname

theorem readDefault_pointer {read : List Token → Option β} {received : α → β}
    (ms : Members) (k : String) (p : Option α) (h : found ms k = (p.map fun a => serdeStruct (fields a)).toList)
    (hread : ∀ a, read (serdeStruct (fields a)) = some (received a)) :
    readDefault (readNullable read) none ms k = some (p.map received) :=
  readDefault_optional (fun a => serdeStruct (fields a)) h (fun _ => serdeStruct_ne_null _)
    fun a _ => hread a

end Pointer

theorem Request.fits (r : Request) : Fits commandNames r.fields := by
  simp only [fields, fits_append, and_assoc]
  have hempty : ∀ {name : String} {p : Option Unit}, name ∈ commandNames →
      Fits commandNames (pointer name p fun _ => []) := fun hname =>
    fits_pointer (fun _ => (fits_nil : Fits [] [])) hname
  exact ⟨fits_pointer InitReq.fits (by decide), fits_pointer GenerateKey.fits (by decide),
    hempty (by decide), fits_pointer PinReq.fits (by decide), hempty (by decide),
    fits_pointer SetTimeReq.fits (by decide), hempty (by decide),
    fits_pointer ChangePinReq.fits (by decide), fits_pointer AddEntropy.fits (by decide),
    hempty (by decide), fits_pointer FactoryResetReq.fits (by decide),
    fits_pointer RebootBootloader.fits (by decide)⟩

/-- The device reads the request that the host filled in. -/
theorem Request.read (r : Request) : readHsm (serdeStruct r.fields) = some r.received := by
  have hempty : ∀ (k : String) (p : Option Unit),
      found r.fields k = (p.map fun _ => serdeStruct []).toList →
      readDefault (readNullable readEmpty) none r.fields k = some p := by
    intro k p h
    rw [readDefault_pointer r.fields k p h fun _ => readEmpty_serdeStruct, Option.map_id']
  have hinit := readDefault_pointer r.fields "init" r.init (by simp [fields]) InitReq.read
  have hgenerate := readDefault_pointer r.fields "generateKey" r.generateKey (by simp [fields])
    GenerateKey.read
  have hpubkey := hempty "getPublicKey" r.getPublicKey (by simp [fields])
  have hunlock := readDefault_pointer r.fields "unlock" r.unlock (by simp [fields]) PinReq.read
  have hlock := hempty "lock" r.lock (by simp [fields])
  have htime := readDefault_pointer r.fields "setTime" r.setTime (by simp [fields]) SetTimeReq.read
  have hstatus := hempty "status" r.status (by simp [fields])
  have hchange := readDefault_pointer r.fields "changePin" r.changePin (by simp [fields])
    ChangePinReq.read
  have hentropy := readDefault_pointer r.fields "addEntropy" r.addEntropy (by simp [fields])
    AddEntropy.read
  have htest := hempty "selfTest" r.selfTest (by simp [fields])
  have hreset := readDefault_pointer r.fields "factoryReset" r.factoryReset (by simp [fields])
    FactoryResetReq.read
  have hreboot := readDefault_pointer r.fields "rebootBootloader" r.rebootBootloader
    (by simp [fields]) RebootBootloader.read
  unfold readHsm
  rw [readStruct_serdeStruct r.fits]
  simp [hinit, hgenerate, hpubkey, hunlock, hlock, htime, hstatus, hchange, hentropy, htest, hreset,
    hreboot, received]

/-! ### The line -/

theorem Request.isValue (r : Request) : IsValue (serdeStruct [field "hsm" (serdeStruct r.fields)]) :=
  isValue_serdeStruct (by simp [field, r.fits.isValue])

theorem Request.object_marshal (r : Request) :
    object r.marshal = some [field "hsm" (serdeStruct r.fields)] := by
  have hmembers : members (serdeStruct [field "hsm" (serdeStruct r.fields)]) =
      some [field "hsm" (serdeStruct r.fields)] :=
    members_serdeStruct (by simp [field, r.fits.isValue])
  unfold marshal object
  rw [r.isValue.lex]
  exact hmembers

theorem Request.noNewline_marshal (r : Request) : newline ∉ r.marshal := r.isValue.noNewline

variable {P : Prims}

theorem serdeStruct_lbrace (fields : Members) :
    ∃ ts, serdeStruct fields = .punct .lbrace :: ts := objectTokens_lbrace _

theorem Request.fill_marshal {R : Readers} (hreads : ReadsHsm R) (r : Request) :
    R.fill [field "hsm" (serdeStruct r.fields)] = some { hsm := some r.received } := by
  have hhsm : readField R.hsm [field "hsm" (serdeStruct r.fields)] hsmName =
      some (some r.received) := hreads _ _ r.read
  unfold Readers.fill
  rw [hhsm]
  rfl

/-- The line gives the device the request, and nothing besides. -/
theorem Request.parse_marshal {R : Readers} (hserde : Serde P R) (hreads : ReadsHsm R) (r : Request) :
    parseLine (P := P) r.marshal = .ok { hsm := some r.received } := by
  apply parseLine_eq_ok_iff.mpr
  constructor
  · obtain ⟨ts, hts⟩ := serdeStruct_lbrace [field "hsm" (serdeStruct r.fields)]
    unfold marshal
    rw [hts]
    rfl
  · apply hserde.accepts r.object_marshal _ (r.fill_marshal hreads)
    intro m hm
    rw [List.mem_singleton.mp hm]
    exact (by decide : REPLACEMENT ∉ "hsm".toList)

/-- A request on the wire is the request at the dispatcher. -/
theorem Request.handle_marshal {R : Readers} (hserde : Serde P R) (hreads : ReadsHsm R)
    (r : Request) : (handle r.marshal : Dev P Response) = do
      let resp ← handleHsm r.received
      return .hsm resp := by
  unfold handle
  rw [r.parse_marshal hserde hreads]
  exact handleRequest_hsm rfl (by simp [Request.variants])

end PicoSignet.Hsmproto
