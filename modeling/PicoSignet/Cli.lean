/-
  PicoSignet/Cli.lean
  ===================
  **The command line tool** — mirror of `host/internal/cli/cli.go`.

  Each command of the tool is one request and its answer, `exchange`.  With the two
  codecs back to back nothing of the wire is left (`management_over_wire`): the device
  runs the request that the tool filled in, and the tool gets the error or the body that
  the device meant.  What the tool decides on such a body, whether to ask for a PIN, is
  then a fact about the session (`prompt_matches_gate`).
-/
import PicoSignet.Backoff
import PicoSignet.Consistency
import PicoSignet.Firmware
import PicoSignet.Unmarshal

set_option autoImplicit false

namespace PicoSignet.Hsmproto

open Json

/-! ### What the device answers -/

section Answers

variable {P : Prims} {α β : Type}

/-- Whatever a computation returns has a property. -/
structure Yields (m : Dev P α) (p : α → Prop) : Prop where
  wp : ∀ h, Crash.Wp m (fun a _ => p a) (fun _ _ => True) h

section Rules

variable {p : α → Prop} {q : β → Prop}

theorem Yields.pure {a : α} (ha : p a) : Yields (Pure.pure a : Dev P α) p := ⟨fun _ => ha⟩

theorem Yields.throw (e : Halt) : Yields (throw e : Dev P α) p := ⟨fun _ => trivial⟩

theorem Yields.bind {m : Dev P α} {k : α → Dev P β} (hm : Yields m p)
    (hk : ∀ a, p a → Yields (k a) q) : Yields (m >>= k) q where
  wp h := by
    rw [Crash.Wp_bind]
    exact (hm.wp h).mono (fun a h' ha => (hk a ha).wp h') fun _ _ => id

/-- Nothing is said of the first. -/
theorem Yields.after {m : Dev P α} {k : α → Dev P β} (hk : ∀ a, Yields (k a) q) :
    Yields (m >>= k) q :=
  ⟨fun h => .bind_any h (fun a h' => (hk a).wp h') fun _ _ => trivial⟩

end Rules

/-- An error, or the variant of the command. -/
def answers : Command → HsmResponse → Prop
  | _, .error _ => True
  | .init _, .init _ _ => True
  | .generateKey _, .generateKey _ _ => True
  | .getPublicKey, .getPublicKey _ => True
  | .unlock _, .unlock _ => True
  | .lock, .lock _ => True
  | .setTime _, .setTime _ _ _ => True
  | .status, .status _ => True
  | .changePin _, .changePin _ => True
  | .addEntropy _, .addEntropy _ => True
  | .selfTest, .selfTest _ => True
  | .factoryReset _, .factoryReset _ => True
  | .rebootBootloader _, .rebootBootloader _ => True
  | _, _ => False

/-- What a handler of the command may answer. -/
def Answer (c : Command) (resp : HsmResponse) : Prop := answers c resp ∧ InRange resp

theorem answer_err (c : Command) (code : ErrCode) (message : String) : Answer c (.err code message) := by
  refine ⟨?_, by simp [InRange, counts, HsmResponse.err]⟩
  cases c <;> trivial

theorem answer_pinError (c : Command) (code : ErrCode) (message : String) {remaining backoff : Nat}
    (hremaining : remaining < 2 ^ 32) (hbackoff : backoff < 2 ^ 32) :
    Answer c (pinError code message remaining backoff) := by
  refine ⟨?_, by simp [InRange, counts, pinError]; omega⟩
  cases c <;> trivial

/-- A step of a handler whose answers are errors. -/
def Refuses (c : Command) (m : Dev P (Except HsmResponse α)) : Prop :=
  Yields m fun r => ∀ resp, r = .error resp → Answer c resp

theorem yields_wrongPin (c : Command) (cfg : DeviceConfig) (attempts : Nat) :
    Refuses c (wrongPin cfg attempts : Dev P _) := by
  have hbackoff : Pin.backoffMs (attempts - 1) < 2 ^ 32 := by
    have hcap := Pin.backoffMs_le (attempts - 1)
    omega
  have hmax := cfg.maxRetries.toNat_lt
  have herror : ∀ {code : ErrCode} {message : String} {remaining : Nat}, remaining < 2 ^ 32 →
      Refuses c (pure (.error (pinError code message remaining (Pin.backoffMs (attempts - 1)))) :
        Dev P (Except HsmResponse UnlockedSeed)) := by
    intro code message remaining hremaining
    apply Yields.pure
    rintro _ ⟨⟩
    exact answer_pinError c code message hremaining hbackoff
  unfold wrongPin
  apply Yields.after
  intro _
  split
  · apply Yields.after
    intro _
    split
    · apply Yields.after
      intro gone
      split
      · apply Yields.after
        intro _
        exact herror (by omega)
      · exact herror (by omega)
    · exact herror (by omega)
  · exact herror (by omega)

theorem yields_verifyPin (c : Command) (pin : Str) : Refuses c (verifyPin pin : Dev P _) := by
  have herr : ∀ {code : ErrCode} {message : String},
      Refuses c (pure (.error (.err code message)) : Dev P (Except HsmResponse UnlockedSeed)) := by
    intro code message
    apply Yields.pure
    rintro _ ⟨⟩
    exact answer_err c code message
  unfold verifyPin
  apply Yields.after
  intro h
  split
  · exact Yields.throw _
  rename_i cfg _
  apply Yields.after
  intro prior
  split
  · exact herr
  split
  · apply Yields.pure
    rintro _ ⟨⟩
    have hmax := cfg.maxRetries.toNat_lt
    exact answer_pinError c _ _ (by omega) (by omega)
  apply Yields.after
  intro attempts
  split
  · exact herr
  apply Yields.after
  intro record
  split
  · exact herr
  · exact herr
  split
  · exact herr
  split
  · exact herr
  split
  · exact herr
  split
  · apply Yields.after
    intro _
    apply Yields.after
    intro _
    apply Yields.pure
    rintro _ ⟨⟩
  · apply Yields.after
    intro _
    exact yields_wrongPin c _ _

theorem yields_err (c : Command) (code : ErrCode) (message : String) :
    Yields (pure (.err code message) : Dev P _) (Answer c) := Yields.pure (answer_err c code message)

theorem yields_pinGate (c : Command) (pin : Option Str) (noPin : String) :
    Yields (pinGate pin noPin : Dev P _) fun r => ∀ resp ∈ r, Answer c resp := by
  unfold pinGate
  cases pin with
  | none =>
    apply Yields.pure
    rintro _ ⟨⟩
    exact answer_err c _ _
  | some pin =>
    apply Yields.bind (yields_verifyPin c pin)
    intro r hr
    cases r with
    | error resp =>
      apply Yields.pure
      rintro _ ⟨⟩
      exact hr resp rfl
    | ok _ => exact Yields.pure (by simp)

theorem yields_destructiveGate (c : Command) (pin : Option Str) (noPin : String) :
    Yields (destructiveGate pin noPin : Dev P _) fun r => ∀ resp ∈ r, Answer c resp := by
  have hnone : Yields (pure none : Dev P _) fun r => ∀ resp ∈ r, Answer c resp :=
    Yields.pure (by simp)
  unfold destructiveGate
  apply Yields.after
  intro h
  split
  · split
    · exact hnone
    · exact yields_pinGate c pin noPin
  · split
    · exact hnone
    · exact yields_pinGate c pin noPin
  · split
    · exact hnone
    · apply Yields.pure
      rintro _ ⟨⟩
      exact answer_err c _ _
  · exact hnone
  · exact hnone

theorem yields_unlock (req : UnlockReq) : Yields (hsmUnlock req : Dev P _) (Answer (.unlock req)) := by
  have hown : Yields (pure (.unlock true) : Dev P _) (Answer (.unlock req)) :=
    Yields.pure ⟨trivial, by simp [InRange, counts]⟩
  unfold hsmUnlock
  apply Yields.after
  intro h
  split
  · exact hown
  · apply Yields.bind (yields_verifyPin (.unlock req) req.pin)
    intro r hr
    split
    · apply Yields.after
      intro _
      exact hown
    · exact Yields.pure (hr _ rfl)
  · exact yields_err _ _ _
  · exact yields_err _ _ _
  · exact yields_err _ _ _

theorem yields_changePin (req : PicoSignet.ChangePinReq) :
    Yields (hsmChangePin req : Dev P _) (Answer (.changePin req)) := by
  have hrewrap : ∀ wasReady seed,
      Yields (rewrapSeed req.newPin wasReady seed : Dev P _) (Answer (.changePin req)) := by
    intro wasReady seed
    unfold rewrapSeed
    repeat' first
      | exact yields_err _ _ _
      | exact Yields.throw _
      | exact Yields.pure ⟨trivial, by simp [InRange, counts]⟩
      | split
      | dsimp only
      | (apply Yields.after; intro _)
  unfold hsmChangePin
  apply Yields.after
  intro h
  split
  · exact yields_err _ _ _
  · exact yields_err _ _ _
  · exact yields_err _ _ _
  all_goals
    split
    · exact yields_err _ _ _
    apply Yields.bind (yields_verifyPin _ req.currentPin)
    intro r hr
    split
    · exact Yields.pure (hr _ rfl)
    · exact hrewrap _ _

theorem yields_status : Yields (hsmStatus : Dev P _) (Answer .status) := by
  have hretry : ∀ cfg : Option DeviceConfig,
      Yields (retryRemaining cfg : Dev P _) fun n => ∀ k ∈ n, k < 2 ^ 32 := by
    intro cfg
    cases cfg with
    | none => exact Yields.pure (by simp)
    | some c =>
      have hmax := c.maxRetries.toNat_lt
      unfold retryRemaining
      dsimp only
      split
      · apply Yields.after
        intro used
        apply Yields.pure
        rintro _ ⟨⟩
        omega
      · exact Yields.pure (by simp)
  unfold hsmStatus
  apply Yields.after
  intro h
  dsimp only
  apply Yields.bind (hretry h.config)
  intro n hn
  exact Yields.pure ⟨trivial, by simpa [InRange, counts] using hn⟩

/-- A command behind the gate. -/
theorem Yields.gated {c : Command} {gate : Dev P (Option HsmResponse)} {k : Dev P HsmResponse}
    (hgate : Yields gate fun r => ∀ resp ∈ r, Answer c resp) (hk : Yields k (Answer c)) :
    Yields (do
      match ← gate with
      | some resp => return resp
      | none => k) (Answer c) := by
  apply Yields.bind hgate
  intro r hr
  cases r with
  | some resp => exact Yields.pure (hr resp rfl)
  | none => exact hk

theorem yields_factoryReset (req : PicoSignet.FactoryResetReq) :
    Yields (hsmFactoryReset req : Dev P _) (Answer (.factoryReset req)) := by
  unfold hsmFactoryReset
  split
  · exact yields_err _ _ _
  apply Yields.gated (yields_destructiveGate _ _ _)
  repeat' first
    | exact yields_err _ _ _
    | exact Yields.throw _
    | exact Yields.pure ⟨trivial, by simp [InRange, counts]⟩
    | split
    | dsimp only
    | (apply Yields.after; intro _)

theorem yields_rebootBootloader (req : RebootBootloaderReq) :
    Yields (hsmRebootBootloader req : Dev P _) (Answer (.rebootBootloader req)) := by
  unfold hsmRebootBootloader
  apply Yields.gated (yields_destructiveGate _ _ _)
  apply Yields.after
  intro _
  exact Yields.pure ⟨trivial, by simp [InRange, counts]⟩

/-- Each command is answered by an error or by its own variant. -/
theorem yields_run (c : Command) : Yields (c.run : Dev P _) (Answer c) := by
  cases c with
  | unlock req => exact yields_unlock req
  | status => exact yields_status
  | changePin req => exact yields_changePin req
  | factoryReset req => exact yields_factoryReset req
  | rebootBootloader req => exact yields_rebootBootloader req
  | _ =>
    -- the others answer with what is written out in them
    simp only [Command.run, hsmInit, initDev, initProd, hsmGenerateKey, generateKeyReady,
      hsmGetPublicKey, hsmLock, hsmSetTime, hsmAddEntropy, hsmSelfTest]
    repeat' first
      | exact yields_err _ _ _
      | exact Yields.throw _
      | exact Yields.pure ⟨trivial, by simp [InRange, counts]⟩
      | split
      | dsimp only
      | (apply Yields.after; intro _)

end Answers

/-! ### The whole way -/

variable {P : Prims}

/-- The request with no wire between. -/
def served (h : Hsm P) (req : HsmRequest) (faults : List Fault) : Sys P × Option HsmResponse :=
  match handleHsm req (h.facing faults) with
  | .ok resp h' => (.on h', some resp)
  | .error _ h' => (.off h'.flash, none)

/-- The field of a body that belongs to a command. -/
def ResponseBody.has (b : ResponseBody) : Command → Bool
  | .init _ => b.init.isSome
  | .generateKey _ => b.generateKey.isSome
  | .getPublicKey => b.getPublicKey.isSome
  | .unlock _ => b.unlock.isSome
  | .lock => b.lock.isSome
  | .setTime _ => b.setTime.isSome
  | .status => b.status.isSome
  | .changePin _ => b.changePin.isSome
  | .addEntropy _ => b.addEntropy.isSome
  | .selfTest => b.selfTest.isSome
  | .factoryReset _ => b.factoryReset.isSome
  | .rebootBootloader _ => b.rebootBootloader.isSome

section Exchange

variable (ryu : UInt64 → Octets)

/-- The request on the wire, and what `sendHsm` returns; a device that loses power does
    not answer. -/
def exchange (s : Sys P) (r : Request) (faults : List Fault) :
    Sys P × Option (Except SendError ResponseBody) :=
  match lineEvent r.marshal with
  | .tooLong => (s, some (sendHsm tooLargeText))
  | .line line =>
    let (s', resp) := s.step (.line line faults)
    (s', resp.map fun resp => sendHsm (resp.toVec ryu))

/-- `request too large (max 16384 bytes)`. -/
def tooLarge : SendError := .device (goBytes "request too large (max 16384 bytes)")

theorem sendHsm_tooLargeText : sendHsm tooLargeText = .error tooLarge := by decide +kernel

theorem Request.lineEvent_marshal (r : Request) :
    lineEvent r.marshal = if r.marshal.length > MAX_LINE then .tooLong else .line r.marshal := by
  have htrim : trimCr r.marshal = r.marshal := by
    unfold trimCr
    apply if_neg
    intro hlast
    have hge := r.isValue.printable 0x0D (List.mem_of_getLast? hlast)
    exact absurd hge (by decide)
  unfold lineEvent
  rw [htrim]

theorem inRange_served {h h' : Hsm P} {req : HsmRequest} {resp : HsmResponse}
    (hrun : handleHsm req h = .ok resp h') :
    (∃ c, req.command = some c ∧ Answer c resp) ∨ resp = exactlyOne := by
  rw [handleHsm_eq] at hrun
  cases hc : req.command with
  | none =>
    rw [hc] at hrun
    cases hrun
    exact Or.inr rfl
  | some c =>
    rw [hc] at hrun
    exact Or.inl ⟨c, rfl, ((yields_run c).wp h).of_ok hrun⟩

theorem outcome_has {c : Command} {resp : HsmResponse} {body : ResponseBody} (h : answers c resp)
    (hbody : outcome resp = .ok body) : body.has c = true := by
  cases resp with
  | error e => cases hbody
  | _ =>
    cases hbody
    cases c <;> first | rfl | exact h.elim

/-- A session answers a request of the host as if there were no wire. -/
theorem exchange_on {R : Readers} (hserde : Serde P R) (hreads : ReadsHsm R) (h : Hsm P) (r : Request)
    (faults : List Fault) (hfits : r.marshal.length ≤ MAX_LINE) :
    exchange ryu (.on h) r faults =
      ((served h r.received faults).1, (served h r.received faults).2.map outcome) := by
  have hline : lineEvent r.marshal = .line r.marshal := by
    rw [r.lineEvent_marshal, if_neg (by omega)]
  have hstep : (Sys.on h).step (.line r.marshal faults) =
      ((served h r.received faults).1, (served h r.received faults).2.map .hsm) := by
    simp only [Sys.step, Hsm.processLine, r.handle_marshal hserde hreads, served, bind, EStateM.bind,
      pure, EStateM.pure]
    cases handleHsm r.received (h.facing faults) <;> rfl
  have hmeant : ∀ resp ∈ (served h r.received faults).2,
      sendHsm ((PicoSignet.Response.hsm resp).toVec ryu) = outcome resp := by
    intro resp hresp
    unfold served at hresp
    cases hrun : handleHsm r.received (h.facing faults) with
    | error e h' =>
      rw [hrun] at hresp
      cases hresp
    | ok resp' h' =>
      rw [hrun] at hresp
      cases hresp
      apply sendHsm_toVec ryu
      rcases inRange_served hrun with ⟨c, -, hanswer⟩ | rfl
      · exact hanswer.2
      · simp [InRange, counts, exactlyOne, HsmResponse.err]
  unfold exchange
  rw [hline]
  dsimp only
  rw [hstep, Option.map_map]
  exact congrArg (Prod.mk _) (Option.map_congr hmeant)

/-- **Management over the wire.**  A request of the host is one line; the device runs the
    request that the host filled in, unless the line is too long, and `sendHsm` returns
    what the device meant.  Strings arrive as they are when their bytes are characters.
    A body always has the field of the command that was sent, so no pointer that a command
    of the tool follows is nil. -/
theorem management_over_wire {R : Readers} (hserde : Serde P R) (hreads : ReadsHsm R) :
    (∀ s : Str, seen s.bytes = s) ∧ ∀ (h : Hsm P) (r : Request) (faults : List Fault),
      newline ∉ r.marshal ∧
      exchange ryu (.on h) r faults =
        (if r.marshal.length > MAX_LINE then (.on h, some (.error tooLarge))
        else ((served h r.received faults).1, (served h r.received faults).2.map outcome)) ∧
      ∀ body, (exchange ryu (.on h) r faults).2 = some (.ok body) →
        ∃ c, r.received.command = some c ∧ body.has c = true := by
  refine ⟨seen_bytes, fun h r faults => ?_⟩
  have hexchange : exchange ryu (.on h) r faults =
      if r.marshal.length > MAX_LINE then (.on h, some (.error tooLarge))
      else ((served h r.received faults).1, (served h r.received faults).2.map outcome) := by
    by_cases hlong : r.marshal.length > MAX_LINE
    · unfold exchange
      rw [if_pos hlong, r.lineEvent_marshal, if_pos hlong, ← sendHsm_tooLargeText]
    · rw [if_neg hlong]
      exact exchange_on ryu hserde hreads h r faults (by omega)
  refine ⟨r.noNewline_marshal, hexchange, ?_⟩
  intro body hbody
  rw [hexchange] at hbody
  split at hbody
  · simp at hbody
  unfold served at hbody
  cases hrun : handleHsm r.received (h.facing faults) with
  | error e h' =>
    rw [hrun] at hbody
    cases hbody
  | ok resp h' =>
    rw [hrun] at hbody
    have houtcome : outcome resp = .ok body := Option.some.inj hbody
    rcases inRange_served hrun with ⟨c, hc, hanswer⟩ | rfl
    · exact ⟨c, hc, outcome_has hanswer.1 houtcome⟩
    · cases houtcome

end Exchange

/-- Readers that take what the host writes. -/
def Readers.wired : Readers := { Readers.bench with hsm := fun v => (readHsm v).map some }

theorem readsHsm_wired : ReadsHsm Readers.wired := by
  intro v req h
  simp [Readers.wired, h]

namespace Bench

/-- A device out of the box. -/
def blank : Hsm (.filling Readers.wired) := Hsm.fresh [] 0 (PicoSignet.Bench.image []) .new

/-- `unlock` with a quotation mark in the PIN. -/
def quoted : Request := { unlock := some { pin := Str.bytes "12\"456".toList } }

end Bench

theorem management_over_wire_bench :
    (exchange (fun _ => [0x30]) (.on Bench.blank) Bench.quoted []).2 =
      some (.error (.refused (goBytes "ERR_NOT_INIT: initialize the device first"))) := by
  have hwire := (management_over_wire (fun _ => [0x30]) (serde_filling Readers.wired)
    readsHsm_wired).2 Bench.blank Bench.quoted []
  rw [hwire.2.1]
  decide +kernel

/-! ### Whether to ask for a PIN -/

/-- `devicePromptsForPin`, once the status has been asked for; no answer is an error. -/
def devicePromptsForPin (answer : Option (Except SendError ResponseBody)) : Bool :=
  match answer with
  | some (.ok body) =>
    match body.status with
    | some s => s.mode = goBytes "prod"
    | none => true
  | _ => true

section Prompt

/-- The answer to `status` names the mode of the configuration. -/
theorem wp_status (h : Hsm P) : Crash.Wp hsmStatus
    (fun resp _ => devicePromptsForPin (some (outcome resp)) = true ↔
      h.config.map DeviceConfig.mode = some .prod)
    (fun _ _ => True) h := by
  unfold hsmStatus
  rw [Crash.Wp_bind, Crash.Wp_get]
  apply Crash.Wp.bind_any
  · intro n h'
    rw [Crash.Wp_pure]
    have hnames : goBytes "dev" ≠ goBytes "prod" ∧ goBytes "none" ≠ goBytes "prod" := by decide
    simp only [outcome, ResponseBody.ofDevice, Status.ofDevice, devicePromptsForPin]
    cases h.config.map DeviceConfig.mode with
    | none => simp [hnames]
    | some mode => cases mode <;> simp [hnames]
  · exact fun _ _ => trivial

/-- The gate without a PIN looks at the state and the latched strap. -/
theorem destructiveGate_none (noPin : String) (h : Hsm P) :
    ∃ r, destructiveGate none noPin h = .ok r h ∧
      (r.isSome ↔ (h.state = .prodLocked ∨ h.state = .prodReady ∨ h.state = .lockedOut) ∧
        h.physicalRecoveryAuthorized = false) := by
  unfold destructiveGate
  simp only [bind, EStateM.bind, get, getThe, MonadStateOf.get, EStateM.get]
  cases hstate : h.state <;> cases hphysical : h.physicalRecoveryAuthorized
  all_goals exact ⟨_, rfl, by simp⟩

/-- The request of `devicePromptsForPin`. -/
def statusRequest : Request := { status := some () }

theorem statusRequest_fits : statusRequest.marshal.length ≤ MAX_LINE := by decide +kernel

variable (ryu : UInt64 → Octets)

theorem exchange_status {R : Readers} (hserde : Serde P R) (hreads : ReadsHsm R) {h h' : Hsm P}
    {faults : List Fault} (hon : (exchange ryu (.on h) statusRequest faults).1 = .on h') :
    (devicePromptsForPin (exchange ryu (.on h) statusRequest faults).2 = true ↔
      h.config.map DeviceConfig.mode = some .prod) ∧
    Within (fun _ => False) (fun _ => False) (h.facing faults) h' := by
  have hserved : served h statusRequest.received faults = match hsmStatus (h.facing faults) with
      | .ok resp h' => (.on h', some resp)
      | .error _ h' => (.off h'.flash, none) := rfl
  rw [exchange_on ryu hserde hreads h statusRequest faults statusRequest_fits, hserved] at hon ⊢
  cases hrun : hsmStatus (h.facing faults) with
  | error e g =>
    rw [hrun] at hon
    cases hon
  | ok resp g =>
    rw [hrun] at hon
    cases hon
    exact ⟨(wp_status (h.facing faults)).of_ok hrun, (stays_status (h.facing faults)).of_ok hrun⟩

/-- What the device does by itself between two lines. -/
def idle : Event → Bool
  | .relock => true
  | .advance _ => true
  | .reseed => true
  | .setHeapFree _ => true
  | .takeRebootRequested => true
  | _ => false

/-- The mode, the strap and the form of a session survive it. -/
structure SameGate (h h' : Hsm P) : Prop where
  config : h'.config = h.config
  physical : h'.physicalRecoveryAuthorized = h.physicalRecoveryAuthorized
  shaped : h'.Shaped

theorem idle_step {h : Hsm P} (hshape : h.Shaped) {e : Event} (hidle : idle e = true) :
    ∃ h', ((Sys.on h).step e).1 = .on h' ∧ SameGate h h' := by
  cases e with
  | boot p => cases hidle
  | line bytes faults => cases hidle
  | relock =>
    refine ⟨_, rfl, ?_, ?_, hshape.relock⟩
    · unfold Hsm.relockOnTransportReset
      dsimp only
      split
      · split <;> rfl
      · rfl
    · unfold Hsm.relockOnTransportReset
      dsimp only
      split
      · split <;> rfl
      · rfl
  | advance mono => exact ⟨_, rfl, rfl, rfl, hshape⟩
  | reseed =>
    refine ⟨_, rfl, ?_⟩
    unfold Hsm.reseed
    split
    · exact ⟨rfl, rfl, hshape⟩
    · exact ⟨rfl, rfl, hshape⟩
  | setHeapFree bytes => exact ⟨_, rfl, rfl, rfl, hshape⟩
  | takeRebootRequested => exact ⟨_, rfl, rfl, rfl, hshape⟩

def waits (s : Sys P) (events : List Event) : Sys P := events.foldl (fun s e => (s.step e).1) s

theorem waits_on {h : Hsm P} (hshape : h.Shaped) {events : List Event}
    (hidle : ∀ e ∈ events, idle e = true) : ∃ h', waits (.on h) events = .on h' ∧ SameGate h h' := by
  induction events generalizing h with
  | nil => exact ⟨h, rfl, rfl, rfl, hshape⟩
  | cons e events ih =>
    rw [List.forall_mem_cons] at hidle
    obtain ⟨g, hstep, hsame⟩ := idle_step hshape hidle.1
    obtain ⟨h', hrun, hlater⟩ := ih hsame.shaped hidle.2
    refine ⟨h', ?_, hlater.config.trans hsame.config, hlater.physical.trans hsame.physical,
      hlater.shaped⟩
    unfold waits
    rw [List.foldl_cons, hstep]
    exact hrun

/-- Without power it waits for a boot. -/
theorem waits_off (f : Flash) {events : List Event} (hidle : ∀ e ∈ events, idle e = true) :
    waits (.off f : Sys P) events = .off f := by
  induction events with
  | nil => rfl
  | cons e events ih =>
    rw [List.forall_mem_cons] at hidle
    have hstep : ((Sys.off f : Sys P).step e).1 = .off f := by
      cases e with
      | boot p => cases hidle.1
      | _ => rfl
    unfold waits
    rw [List.foldl_cons, hstep]
    exact ih hidle.2

/-- **The tool asks for a PIN where the device does.**  After any run, `status` tells the
    tool to ask exactly on a production device.  However long the device then waits,
    re-locked or not, a `factoryReset` or `rebootBootloader` without a PIN is turned down
    exactly when the tool asked and no recovery strap was latched at boot. -/
theorem prompt_matches_gate {R : Readers} (hserde : Serde P R) (hreads : ReadsHsm R) {image : Flash}
    {hist : List (Moment P)} {h : Hsm P} (hrun : Run image hist (.on h)) {faults : List Fault}
    {events : List Event} (hidle : ∀ e ∈ events, idle e = true) {h' : Hsm P}
    (hwaits : waits (exchange ryu (.on h) statusRequest faults).1 events = .on h') :
    (devicePromptsForPin (exchange ryu (.on h) statusRequest faults).2 = true ↔
      h'.config.map DeviceConfig.mode = some .prod) ∧
    ∀ noPin, ∃ r, destructiveGate none noPin h' = .ok r h' ∧
      (r.isSome ↔ devicePromptsForPin (exchange ryu (.on h) statusRequest faults).2 = true ∧
        h'.physicalRecoveryAuthorized = false) := by
  cases hs : (exchange ryu (.on h) statusRequest faults).1 with
  | off f =>
    rw [hs, waits_off f hidle] at hwaits
    cases hwaits
  | on g =>
    obtain ⟨hprompts, hwithin⟩ := exchange_status ryu hserde hreads hs
    have hfacing : (h.facing faults).Shaped := hrun.shaped
    have hshape : g.Shaped := hfacing.of_within hwithin ⟨id, id, id⟩
    have hconfig : g.config = h.config := hwithin.same .config id
    obtain ⟨g', hrun', hsame⟩ := waits_on hshape hidle
    rw [hs, hrun'] at hwaits
    cases hwaits
    have hmode : devicePromptsForPin (exchange ryu (.on h) statusRequest faults).2 = true ↔
        h'.config.map DeviceConfig.mode = some .prod := by
      rw [hprompts, hsame.config, hconfig]
    refine ⟨hmode, fun noPin => ?_⟩
    obtain ⟨r, hgate, hsome⟩ := destructiveGate_none noPin h'
    refine ⟨r, hgate, ?_⟩
    rw [hsome, hmode, hsame.shaped.consistent.prod]

end Prompt

/-- A locked production device that is re-locked while the operator types. -/
theorem prompt_matches_gate_bench :
    ∃ (hist : List (Moment (.filling Readers.wired))) (h h' : Hsm (.filling Readers.wired)),
      Run PicoSignet.Bench.prodImage hist (.on h) ∧
      waits (exchange (fun _ => [0x30]) (.on h) statusRequest []).1 [.relock, .advance 5] = .on h' ∧
      devicePromptsForPin (exchange (fun _ => [0x30]) (.on h) statusRequest []).2 = true ∧
      ∃ r, destructiveGate none "" h' = .ok r h' ∧ r.isSome := by
  have hrun := run_replay (P := .filling Readers.wired) PicoSignet.Bench.prodImage
    [.boot PicoSignet.Bench.power]
  have hends : (replay (P := .filling Readers.wired) PicoSignet.Bench.prodImage
      [.boot PicoSignet.Bench.power]).2.session.any (fun h =>
        (waits (exchange (fun _ => [0x30]) (.on h) statusRequest []).1
          [.relock, .advance 5]).session.any fun h' =>
            h'.config.map DeviceConfig.mode = some .prod && !h'.physicalRecoveryAuthorized) = true := by
    decide +kernel
  obtain ⟨h, hon, hends⟩ := Sys.exists_session hends
  obtain ⟨h', hwaits, hends⟩ := Sys.exists_session hends
  simp only [Bool.and_eq_true, decide_eq_true_eq, Bool.not_eq_true'] at hends
  rw [hon] at hrun
  obtain ⟨hmode, hgate⟩ := prompt_matches_gate (fun _ => [0x30]) (serde_filling Readers.wired)
    readsHsm_wired hrun (by decide : ∀ e ∈ [Event.relock, .advance 5], idle e = true) hwaits
  have hprompts := hmode.mpr hends.1
  obtain ⟨r, hrefused, hsome⟩ := hgate ""
  exact ⟨_, h, h', hrun, hwaits, hprompts, r, hrefused, hsome.mpr ⟨hprompts, hends.2⟩⟩

end PicoSignet.Hsmproto
