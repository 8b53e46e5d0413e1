/-
  PicoSignet/Responses.lean
  =========================
  **Answers on the wire** — the JSON that `process_line` makes of a response, with the
  field names of `hsm-core/src/proto.rs`.

  Both ends write with `jsonObject`, which differs between them in its escapes alone;
  any escapes that spell their characters give a value (`isValue_jsonObject`), on one line
  (`IsValue.noNewline`), and the members come out of it as they went in
  (`members_jsonObject`).
-/
import PicoSignet.Firewall
import PicoSignet.JsonWrite

set_option autoImplicit false

namespace PicoSignet

open Json

/-! ### Values put together -/

theorem isValue_atom {kind : Kind} {raw : Octets} (h : (Token.atom kind raw).Wf) :
    IsValue [.atom kind raw] := by
  refine ⟨?_, List.isChain_singleton _, fun rest => rfl⟩
  intro t ht
  rw [List.mem_singleton] at ht
  rw [ht]
  exact h

def jsonBool (b : Bool) : List Token := [.atom .word (if b then rawTrue else rawFalse)]

def jsonInt (n : Int) : List Token := [.atom .number (integer n)]

theorem isValue_jsonBool (b : Bool) : IsValue (jsonBool b) := isValue_atom (bool_wf b)

theorem isValue_jsonInt (n : Int) : IsValue (jsonInt n) := isValue_atom (integer_wf n)

section Writer

variable (escape : Char → Octets)

def jsonString (s : List Char) : List Token := [stringToken (s.flatMap escape)]

/-- A key between quotes. -/
def jsonKey (name : List Char) : Octets := 0x22 :: (name.flatMap escape ++ [0x22])

def jsonObject (fields : Members) : List Token :=
  objectTokens (fields.map fun m => (jsonKey escape m.1, m.2))

variable {escape}

theorem spelling_flatMap (hescape : ∀ c, Spells c (escape c)) (s : List Char) :
    Spelling s (s.flatMap escape) := by
  have h := Spelling.flatMap (fun c (_ : c ∈ s) => hescape c)
  rwa [List.map_id'] at h

theorem isValue_jsonString (hescape : ∀ c, Spells c (escape c)) (s : List Char) :
    IsValue (jsonString escape s) := isValue_atom (spelling_flatMap hescape s).wf

theorem unquoteStrict_jsonKey (hescape : ∀ c, Spells c (escape c)) (s : List Char) :
    unquoteStrict (jsonKey escape s) = some s := (spelling_flatMap hescape s).unquoted

theorem unquote_jsonKey (hescape : ∀ c, Spells c (escape c)) (s : List Char) :
    unquote (jsonKey escape s) = s := unquote_of_strict (unquoteStrict_jsonKey hescape s)

section Fields

variable {fields : Members}

theorem isValue_jsonObject (hescape : ∀ c, Spells c (escape c))
    (hfields : ∀ m ∈ fields, IsValue m.2) : IsValue (jsonObject escape fields) := by
  have hraw : ∀ m ∈ fields.map fun m => (jsonKey escape m.1, m.2), IsValue m.2 := by
    intro m hm
    obtain ⟨m', hm', rfl⟩ := List.mem_map.mp hm
    exact hfields m' hm'
  refine ⟨?_, objectTokens_apart fun m hm => (hraw m hm).apart, ?_⟩
  · intro t ht
    rcases mem_objectTokens ht with ⟨p, rfl⟩ | ⟨m, hm, rfl | ht⟩
    · trivial
    · obtain ⟨m', hm', rfl⟩ := List.mem_map.mp hm
      exact (spelling_flatMap hescape m'.1).wf
    · exact (hraw m hm).wf t ht
  · apply takeValue_objectTokens
    intro m hm
    have hreads := (hraw m hm).reads []
    rwa [List.append_nil] at hreads

/-- The members come out as they went in. -/
theorem members_jsonObject (hescape : ∀ c, Spells c (escape c))
    (hfields : ∀ m ∈ fields, IsValue m.2) : members (jsonObject escape fields) = some fields := by
  unfold jsonObject
  rw [members_objectTokens]
  · rw [List.map_map]
    have hid : (fun m : Octets × List Token => (unquote m.1, m.2)) ∘
        (fun m : List Char × List Token => (jsonKey escape m.1, m.2)) = id := by
      funext m
      simp [unquote_jsonKey hescape]
    rw [hid, List.map_id]
  · intro m hm
    obtain ⟨m', hm', rfl⟩ := List.mem_map.mp hm
    exact (hfields m' hm').reads

end Fields

end Writer

/-- What a value prints as is cut into its tokens again. -/
theorem IsValue.lex {v : List Token} (h : IsValue v) : Json.lex (print v) = v :=
  lex_print h.wf h.apart

theorem IsValue.takeValue_print {v : List Token} (h : IsValue v) :
    takeValue (Json.lex (print v)) = some (v, []) := by
  have hreads := h.reads []
  rw [List.append_nil] at hreads
  rw [h.lex, hreads]

/-- A value is printed on one line. -/
theorem IsValue.printable {v : List Token} (h : IsValue v) : ∀ b ∈ print v, 0x20 ≤ b := by
  intro b hb
  obtain ⟨t, ht, hb⟩ := List.mem_flatMap.mp hb
  exact (h.wf t ht).printable b hb

theorem IsValue.noNewline {v : List Token} (h : IsValue v) : newline ∉ print v := by
  intro hmem
  have hge := h.printable newline hmem
  simp [newline] at hge

/-! ### `serde_json` -/

def serdeString (s : String) : List Token := jsonString escapeChar s.toList

def serdeStruct (fields : Members) : List Token := jsonObject escapeChar fields

def field (name : String) (v : List Token) : List Char × List Token := (name.toList, v)

/-- A field that is skipped when it is `None`. -/
def optional (name : String) (v : Option (List Token)) : Members := (v.map (field name)).toList

def okResp (ok : Bool) : List Token := serdeStruct [field "ok" (jsonBool ok)]

def ErrCode.text : ErrCode → String
  | .badRequest => "ERR_BAD_REQUEST"
  | .alreadyInit => "ERR_ALREADY_INIT"
  | .notInit => "ERR_NOT_INIT"
  | .noKey => "ERR_NO_KEY"
  | .keyExists => "ERR_KEY_EXISTS"
  | .locked => "ERR_LOCKED"
  | .badPin => "ERR_BAD_PIN"
  | .lockedOut => "ERR_LOCKED_OUT"
  | .badMode => "ERR_BAD_MODE"
  | .entropy => "ERR_ENTROPY"
  | .flash => "ERR_FLASH"
  | .busy => "ERR_BUSY"
  | .internal => "ERR_INTERNAL"

def HsmError.fields (e : HsmError) : Members :=
  [field "code" (serdeString e.code.text), field "message" (serdeString e.message)] ++
    optional "remainingAttempts" (e.remainingAttempts.map fun n : Nat => jsonInt n) ++
    optional "backoffMs" (e.backoffMs.map fun n : Nat => jsonInt n)

def StatusResp.fields (s : StatusResp) : Members :=
  [field "state" (serdeString s.state), field "mode" (serdeString s.mode),
      field "keyPresent" (jsonBool s.keyPresent), field "unlocked" (jsonBool s.unlocked),
      field "clockSet" (jsonBool s.clockSet)] ++
    optional "unixSeconds" (s.unixSeconds.map fun t => jsonInt t.toInt) ++
    [field "uptimeMs" (jsonInt s.uptimeMs.toNat)] ++
    optional "retryRemaining" (s.retryRemaining.map fun n : Nat => jsonInt n) ++
    [field "fwVersion" (serdeString s.fwVersion), field "serial" (serdeString s.serial),
      field "heapFreeBytes" (jsonInt s.heapFreeBytes.toNat), field "otpSecret" (jsonBool s.otpSecret),
      field "glitchArmed" (jsonBool s.glitchArmed), field "secureBoot" (jsonBool s.secureBoot),
      field "glitchReset" (jsonBool s.glitchReset)]

/-- The verdict of one self-test. -/
def verdict (pass : Bool) : String := if pass then "pass" else "fail"

def SelfTestResp.tests (r : SelfTestResp) : Members :=
  [field "ed25519Kat" (serdeString (verdict r.ed25519Kat)),
    field "sha2Kat" (serdeString (verdict r.sha2Kat)), field "aeadKat" (serdeString (verdict r.aeadKat)),
    field "drbgHealth" (serdeString (verdict r.drbgHealth)),
    field "flashCrc" (serdeString (verdict r.flashCrc)),
    field "otpSecret" (serdeString (verdict r.otpSecret))]

def SelfTestResp.fields (r : SelfTestResp) : Members :=
  [field "ok" (jsonBool r.ok), field "tests" (serdeStruct r.tests)]

/-- The variant that is set. -/
def HsmResponse.member : HsmResponse → List Char × List Token
  | .error e => field "error" (serdeStruct e.fields)
  | .init ok mode => field "init" (serdeStruct [field "ok" (jsonBool ok), field "mode" (serdeString mode)])
  | .generateKey ok publicKey =>
    field "generateKey" (serdeStruct [field "ok" (jsonBool ok), field "publicKey" (serdeString publicKey)])
  | .getPublicKey publicKey =>
    field "getPublicKey" (serdeStruct [field "publicKey" (serdeString publicKey)])
  | .unlock ok => field "unlock" (okResp ok)
  | .lock ok => field "lock" (okResp ok)
  | .setTime ok uptimeMs previousSet =>
    field "setTime" (serdeStruct [field "ok" (jsonBool ok), field "uptimeMs" (jsonInt uptimeMs.toNat),
      field "previousSet" (jsonBool previousSet)])
  | .status resp => field "status" (serdeStruct resp.fields)
  | .changePin ok => field "changePin" (okResp ok)
  | .addEntropy ok => field "addEntropy" (okResp ok)
  | .selfTest resp => field "selfTest" (serdeStruct resp.fields)
  | .factoryReset ok => field "factoryReset" (okResp ok)
  | .rebootBootloader ok => field "rebootBootloader" (okResp ok)

def HsmResponse.json (r : HsmResponse) : List Token := serdeStruct [r.member]

section Encode

-- how an `f64` is printed
variable (ryu : UInt64 → Octets)

def jsonFloat (micros : UInt64) : List Token := [.atom .number (ryu micros)]

def EnclaveMetrics.json (m : EnclaveMetrics) : List Token :=
  serdeStruct [
    field "cpu" (serdeStruct [field "user" (jsonFloat ryu m.userMicros), field "nice" (jsonFloat ryu 0),
      field "system" (jsonFloat ryu 0), field "idle" (jsonFloat ryu 0), field "iowait" (jsonFloat ryu 0),
      field "irq" (jsonFloat ryu 0), field "softirq" (jsonFloat ryu 0)]),
    field "memory" (serdeStruct [field "totalBytes" (jsonInt m.totalBytes.toNat),
      field "availableBytes" (jsonInt m.availableBytes.toNat), field "freeBytes" (jsonInt m.freeBytes.toNat),
      field "buffersBytes" (jsonInt 0), field "cachedBytes" (jsonInt 0)])]

def Response.member : Response → List Char × List Token
  | .loadKeySigner success =>
    field "loadKeySigner" (serdeStruct (if success then [field "success" (jsonBool true)] else []))
  | .error message => field "error" (serdeString message)
  | .signSshKey signedKey =>
    field "signSshKey" (serdeStruct
      (if signedKey.isEmpty then [] else [field "signed_key" (serdeString signedKey)]))
  | .pong signerLoaded => field "pong" (serdeStruct [field "signerLoaded" (jsonBool signerLoaded)])
  | .enclaveMetrics m => field "enclaveMetrics" (m.json ryu)
  | .hsm resp => field "hsm" resp.json

def Response.json (r : Response) : List Token := serdeStruct [r.member ryu]

/-- `serde_json::to_vec`. -/
def Response.toVec (r : Response) : Octets := print (r.json ryu)

end Encode

/-! ### Every response is a value -/

section Values

variable {fields : Members}

theorem isValue_serdeString (s : String) : IsValue (serdeString s) :=
  isValue_jsonString spells_escapeChar _

theorem isValue_serdeStruct (hfields : ∀ m ∈ fields, IsValue m.2) : IsValue (serdeStruct fields) :=
  isValue_jsonObject spells_escapeChar hfields

theorem members_serdeStruct (hfields : ∀ m ∈ fields, IsValue m.2) :
    members (serdeStruct fields) = some fields := members_jsonObject spells_escapeChar hfields

theorem isValue_optional {name : String} {v : Option (List Token)} (h : ∀ ts ∈ v, IsValue ts) :
    ∀ m ∈ optional name v, IsValue m.2 := by
  cases v with
  | none => simp [optional]
  | some ts => simpa [optional, field] using h

theorem isValue_optional_int {name : String} {α : Type} {f : α → Int} {v : Option α} :
    ∀ m ∈ optional name (v.map fun x => jsonInt (f x)), IsValue m.2 := by
  apply isValue_optional
  intro ts hts
  obtain ⟨x, -, rfl⟩ := Option.map_eq_some_iff.mp hts
  exact isValue_jsonInt _

theorem HsmError.isValue_fields (e : HsmError) : ∀ m ∈ e.fields, IsValue m.2 := by
  simp only [HsmError.fields, List.forall_mem_append]
  refine ⟨⟨?_, isValue_optional_int⟩, isValue_optional_int⟩
  simp [field, isValue_serdeString]

theorem StatusResp.isValue_fields (r : StatusResp) : ∀ m ∈ r.fields, IsValue m.2 := by
  simp only [StatusResp.fields, List.forall_mem_append]
  refine ⟨⟨⟨⟨?_, isValue_optional_int⟩, ?_⟩, isValue_optional_int⟩, ?_⟩
  all_goals simp [field, isValue_serdeString, isValue_jsonBool, isValue_jsonInt]

theorem SelfTestResp.isValue_tests (r : SelfTestResp) : ∀ m ∈ r.tests, IsValue m.2 := by
  simp [SelfTestResp.tests, field, isValue_serdeString]

theorem SelfTestResp.isValue_fields (r : SelfTestResp) : ∀ m ∈ r.fields, IsValue m.2 := by
  simp [SelfTestResp.fields, field, isValue_jsonBool, isValue_serdeStruct r.isValue_tests]

theorem HsmResponse.isValue_member (r : HsmResponse) : IsValue r.member.2 := by
  cases r with
  | error e => exact isValue_serdeStruct e.isValue_fields
  | status resp => exact isValue_serdeStruct resp.isValue_fields
  | selfTest resp => exact isValue_serdeStruct resp.isValue_fields
  | _ =>
    simp only [HsmResponse.member, field, okResp]
    apply isValue_serdeStruct
    simp [isValue_jsonBool, isValue_jsonInt, isValue_serdeString]

theorem HsmResponse.isValue_json (r : HsmResponse) : IsValue r.json :=
  isValue_serdeStruct (by simp [r.isValue_member])

end Values

section Lines

variable {ryu : UInt64 → Octets}

theorem EnclaveMetrics.isValue_json (hryu : ∀ x, (Token.atom .number (ryu x)).Wf)
    (m : EnclaveMetrics) : IsValue (m.json ryu) := by
  have hfloat : ∀ x, IsValue (jsonFloat ryu x) := fun x => isValue_atom (hryu x)
  apply isValue_serdeStruct
  simp only [List.forall_mem_cons, field]
  refine ⟨isValue_serdeStruct ?_, isValue_serdeStruct ?_, by simp⟩
  · simp [hfloat]
  · simp [isValue_jsonInt]

theorem Response.isValue_member (hryu : ∀ x, (Token.atom .number (ryu x)).Wf) (r : Response) :
    IsValue (r.member ryu).2 := by
  cases r with
  | loadKeySigner success =>
    apply isValue_serdeStruct
    cases success <;> simp [field, isValue_jsonBool]
  | error message => exact isValue_serdeString _
  | signSshKey signedKey =>
    apply isValue_serdeStruct
    split <;> simp [field, isValue_serdeString]
  | pong signerLoaded =>
    simp only [Response.member, field]
    apply isValue_serdeStruct
    simp [isValue_jsonBool]
  | enclaveMetrics m => exact m.isValue_json hryu
  | hsm resp => exact resp.isValue_json

theorem Response.isValue_json (hryu : ∀ x, (Token.atom .number (ryu x)).Wf) (r : Response) :
    IsValue (r.json ryu) := isValue_serdeStruct (by simp [r.isValue_member hryu])

end Lines

end PicoSignet
