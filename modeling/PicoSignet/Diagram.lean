/-
  PicoSignet/Diagram.lean
  =======================
  **The state diagram** — `state.rs` draws the states of the device and the arrows
  between them.  Here the arrows are a function of the answer to a request
  (`DeviceState.next`), and the device is shown to follow it.

  A host can therefore do without `status`: who knows the state at one moment, and
  sees the answers and the transport resets after it, knows the state from then on
  (`state_tracked`).  Two things are outside the diagram.  A boot goes wherever the
  flash says, though never to `prodReady`; and so does a factory reset that could
  not erase everything, which loads the session again.
-/
import PicoSignet.Consistency
import PicoSignet.ResetRetry

set_option autoImplicit false

namespace PicoSignet

open Crash

variable {P : Prims}

/-! ### The arrows -/

/-- The error that comes with a lockout: no attempt is left, and the PIN was tried. -/
def HsmError.locksOut (e : HsmError) : Bool := e.remainingAttempts == some 0 && e.code != .busy

/-- Where the answer to a request leads from a state. -/
def DeviceState.next (s : DeviceState) : HsmResponse → DeviceState
  | .init true mode => if mode = "dev" then .devReady else .prodLocked
  | .unlock true => .prodReady
  | .lock true => if s = .prodReady then .prodLocked else s
  | .factoryReset true => .uninitialized
  | .error e => if e.locksOut then .lockedOut else s
  | _ => s

/-- Where a transport reset leads. -/
def DeviceState.relocked (s : DeviceState) : DeviceState := if s = .prodReady then .prodLocked else s

/-- Answers that lead nowhere. -/
def HsmResponse.Quiet (resp : HsmResponse) : Prop := ∀ s : DeviceState, s.next resp = s

theorem quiet_err (code : ErrCode) (message : String) : (HsmResponse.err code message).Quiet :=
  fun _ => rfl

/-! ### Programs along the arrows -/

/-- The program takes the state where its result says. -/
def Tracks {α : Type} (next : DeviceState → α → DeviceState) (m : Dev P α) : Prop :=
  ∀ h, Wp m (fun a h' => h'.state = next h.state a) (fun _ _ => True) h

/-- The program leaves the state alone. -/
abbrev KeepsState {α : Type} (m : Dev P α) : Prop := Tracks (fun s _ => s) m

section Tracks

variable {α β : Type} {next : DeviceState → β → DeviceState}

theorem Tracks.bind {m : Dev P α} {k : α → Dev P β} (hm : KeepsState m)
    (hk : ∀ a, Tracks next (k a)) : Tracks next (m >>= k) := by
  intro h
  rw [Wp_bind]
  refine Wp.mono (hm h) ?_ fun _ _ he => he
  intro a h' hstate
  refine Wp.mono (hk a h') ?_ fun _ _ he => he
  intro b h'' hnext
  rw [hnext, hstate]

theorem Tracks.get_bind {k : Hsm P → Dev P β} (hk : ∀ h, Wp (k h) (fun b h' =>
    h'.state = next h.state b) (fun _ _ => True) h) : Tracks next (MonadState.get >>= k) := by
  intro h
  rw [Wp_bind, Wp_get]
  exact hk h

theorem Tracks.pure {b : β} (hb : ∀ s, next s b = s) : Tracks next (Pure.pure b : Dev P β) :=
  fun h => (hb h.state).symm

theorem Tracks.refuse (code : ErrCode) (message : String) :
    Tracks DeviceState.next (Pure.pure (HsmResponse.err code message) : Dev P HsmResponse) :=
  Tracks.pure (quiet_err code message)

theorem keepsState_of_within {F : Field → Prop} {R : Option Region → Prop} {m : Dev P α}
    (hm : Stays (Within F R) m) (hF : ¬ F .state) : KeepsState m := fun h =>
  Wp.mono (hm h) (fun _ _ hw => hw.same .state hF) fun _ _ _ => trivial

theorem keepsState_modify {f : Hsm P → Hsm P} (hf : ∀ h, (f h).state = h.state) :
    KeepsState (modify f : Dev P PUnit) := fun h => hf h

theorem keepsState_draws {m : Dev P α} (hm : Draws m) : KeepsState m := fun h =>
  Wp.mono (hm h) (fun _ h' hrng => by obtain ⟨drbg, entropy, rfl⟩ := hrng.exists; rfl)
    fun _ _ _ => trivial

theorem keepsState_onFlash (m : FlashM α) : KeepsState (onFlash m : Dev P (Except HalError α)) := by
  intro h
  rw [Wp_onFlash]
  unfold Wp
  cases m h.flash with
  | ok a f => rfl
  | error e f =>
    cases e with
    | hal e => rfl
    | powerLoss => trivial

end Tracks

/-! ### The PIN -/

/-- Where a PIN check leads: nowhere if the PIN is right. -/
def DeviceState.afterPin (s : DeviceState) : Except HsmResponse UnlockedSeed → DeviceState
  | .ok _ => s
  | .error resp => s.next resp

theorem keepsState_eraseKeyVerified (tries : Nat) :
    KeepsState (eraseKeyVerified tries : Dev P Bool) :=
  keepsState_of_within (F := fun _ => False) (R := fun _ => True)
    (stays_eraseKeyVerified trivial trivial tries) not_false

theorem keepsState_resetPinCounter (tries : Nat) :
    KeepsState (resetPinCounterBestEffort tries : Dev P Unit) :=
  keepsState_of_within (F := fun x => x = .backoff) (R := fun _ => True)
    (stays_resetPinCounter (F := fun x => x = .backoff) trivial rfl tries) (by simp)

/-- A wrong PIN locks the device out exactly if it reports that no attempt is left. -/
theorem tracks_wrongPin (cfg : DeviceConfig) (attempts : Nat) :
    Tracks DeviceState.afterPin
      (wrongPin cfg attempts : Dev P (Except HsmResponse UnlockedSeed)) := by
  unfold wrongPin
  refine Tracks.bind (keepsState_modify fun _ => rfl) fun _ => ?_
  split
  · intro h
    rw [Wp_bind, Wp_modify]
    have hout : h.enterLockedOut.state = .lockedOut := rfl
    split
    · rw [Wp_bind]
      refine Wp.mono (keepsState_eraseKeyVerified 2 h.enterLockedOut) ?_ fun _ _ he => he
      intro gone h' hstate
      rw [hout] at hstate
      split
      · exact hstate
      · exact hstate
    · exact hout
  · rename_i hleft
    apply Tracks.pure
    intro s
    have hpos : cfg.maxRetries.toNat - attempts ≠ 0 := by omega
    simp [DeviceState.afterPin, DeviceState.next, pinError, HsmError.locksOut, hpos]

theorem tracks_verifyPin (pin : Str) :
    Tracks DeviceState.afterPin (verifyPin pin : Dev P (Except HsmResponse UnlockedSeed)) := by
  have hrefuse : ∀ (code : ErrCode) (message : String),
      Tracks DeviceState.afterPin
        (pure (.error (.err code message)) : Dev P (Except HsmResponse UnlockedSeed)) :=
    fun code message => Tracks.pure (quiet_err code message)
  unfold verifyPin
  refine Tracks.get_bind fun h => ?_
  split
  · trivial
  rename_i cfg _
  suffices htracks : Tracks DeviceState.afterPin (onFlash Pin.count >>= _) from htracks h
  refine Tracks.bind (keepsState_onFlash _) fun count => ?_
  split
  · exact hrefuse _ _
  split
  · -- still backing off: no attempt was made, whatever the budget says
    apply Tracks.pure
    intro s
    simp [DeviceState.afterPin, DeviceState.next, pinError, HsmError.locksOut]
  refine Tracks.bind (keepsState_onFlash _) fun tick => ?_
  split
  · exact hrefuse _ _
  refine Tracks.bind (keepsState_onFlash _) fun read => ?_
  split
  · exact hrefuse _ _
  · exact hrefuse _ _
  split
  · exact hrefuse _ _
  split
  · exact hrefuse _ _
  split
  · exact hrefuse _ _
  split
  · refine Tracks.bind (keepsState_onFlash _) fun _ => ?_
    exact Tracks.bind (keepsState_resetPinCounter 2) fun _ => Tracks.pure fun _ => rfl
  · exact Tracks.bind (keepsState_onFlash _) fun _ => tracks_wrongPin _ _

/-! ### The commands -/

theorem tracks_initDev : Tracks DeviceState.next (initDev : Dev P HsmResponse) := by
  unfold initDev
  refine Tracks.get_bind fun h => ?_
  split
  · rfl
  refine Tracks.bind (keepsState_onFlash _) (fun write => ?_) h
  split
  · exact Tracks.refuse _ _
  · exact fun h => rfl

theorem tracks_initProd (req : InitReq) :
    Tracks DeviceState.next (initProd req : Dev P HsmResponse) := by
  unfold initProd
  split
  · exact Tracks.refuse _ _
  split
  · exact Tracks.refuse _ _
  refine Tracks.bind (keepsState_draws draws_prepareKeygenEntropy) fun ready => ?_
  split
  · exact Tracks.refuse _ _
  refine Tracks.bind (keepsState_draws (draws_randomArray 16)) fun salt => ?_
  dsimp only
  split
  · exact Tracks.refuse _ _
  refine Tracks.get_bind fun h => ?_
  split
  · rfl
  refine Tracks.bind (keepsState_draws draws_generateCaKey) (fun key => ?_) h
  split
  · exact Tracks.refuse _ _
  refine Tracks.bind (keepsState_draws (draws_randomArray 12)) fun nonce => ?_
  refine Tracks.bind (keepsState_onFlash _) fun write => ?_
  split
  · exact Tracks.refuse _ _
  refine Tracks.bind (keepsState_onFlash _) fun write => ?_
  split
  · exact Tracks.refuse _ _
  exact Tracks.bind (keepsState_resetPinCounter 2) fun _ h => rfl

theorem tracks_init (req : InitReq) : Tracks DeviceState.next (hsmInit req : Dev P HsmResponse) := by
  unfold hsmInit
  refine Tracks.get_bind fun h => ?_
  split
  · rfl
  split
  · exact tracks_initDev h
  split
  · exact tracks_initProd req h
  · rfl

theorem tracks_generateKeyReady (h : Hsm P) : Tracks DeviceState.next (generateKeyReady h) := by
  unfold generateKeyReady
  split
  · exact Tracks.refuse _ _
  split
  · exact Tracks.refuse _ _
  refine Tracks.bind (keepsState_draws draws_prepareKeygenEntropy) fun ready => ?_
  split
  · exact Tracks.refuse _ _
  split
  · exact Tracks.refuse _ _
  rename_i hdraw
  refine Tracks.bind (keepsState_draws draws_generateCaKey) fun key => ?_
  refine Tracks.bind (keepsState_draws (draws_randomArray 12)) fun nonce => ?_
  refine Tracks.bind (keepsState_draws (draws_rotationSalt hdraw)) fun salt => ?_
  refine Tracks.bind (keepsState_onFlash _) fun write => ?_
  split
  · exact Tracks.refuse _ _
  · exact fun h => rfl

theorem tracks_generateKey (req : GenerateKeyReq) :
    Tracks DeviceState.next (hsmGenerateKey req : Dev P HsmResponse) := by
  unfold hsmGenerateKey
  refine Tracks.get_bind fun h => ?_
  split
  · rfl
  · rfl
  · rfl
  · split
    · rfl
    · exact tracks_generateKeyReady h h
  · split
    · rfl
    · exact tracks_generateKeyReady h h

theorem tracks_unlock (req : UnlockReq) :
    Tracks DeviceState.next (hsmUnlock req : Dev P HsmResponse) := by
  unfold hsmUnlock
  refine Tracks.get_bind fun h => ?_
  split
  · rename_i hstate
    exact hstate
  · rw [Wp_bind]
    refine Wp.mono (tracks_verifyPin req.pin h) ?_ fun _ _ he => he
    intro r h' hr
    split
    · rfl
    · exact hr
  · rfl
  · rfl
  · rfl

theorem tracks_lock : Tracks DeviceState.next (hsmLock : Dev P HsmResponse) := by
  unfold hsmLock
  refine Tracks.get_bind fun h => ?_
  split
  · rename_i hstate
    change DeviceState.prodLocked = h.state.next (.lock true)
    rw [hstate]
    rfl
  · rename_i hstate
    change h.state = h.state.next (.lock true)
    rw [hstate]
    rfl
  · rename_i hstate
    change h.state = h.state.next (.lock true)
    rw [hstate]
    rfl
  · rfl
  · rfl

theorem tracks_setTime (req : SetTimeReq) :
    Tracks DeviceState.next (hsmSetTime req : Dev P HsmResponse) := by
  unfold hsmSetTime
  refine Tracks.get_bind fun h => ?_
  split
  · rfl
  split
  · rfl
  split
  · rfl
  dsimp only
  split
  · split
    · trivial
    refine Tracks.bind (keepsState_onFlash _) (fun write => ?_) h
    split
    · exact Tracks.refuse _ _
    · exact fun h => rfl
  · rfl

theorem keepsState_retryRemaining (cfg : Option DeviceConfig) :
    KeepsState (retryRemaining cfg : Dev P (Option Nat)) := by
  unfold retryRemaining
  split
  · exact fun h => rfl
  · split
    · exact Tracks.bind (keepsState_onFlash _) fun _ => Tracks.pure fun _ => rfl
    · exact fun h => rfl

theorem tracks_status : Tracks DeviceState.next (hsmStatus : Dev P HsmResponse) := by
  unfold hsmStatus
  refine Tracks.get_bind fun h => ?_
  exact Tracks.bind (keepsState_retryRemaining h.config) (fun _ => Tracks.pure fun _ => rfl) h

theorem tracks_selfTest : Tracks DeviceState.next (hsmSelfTest : Dev P HsmResponse) := by
  unfold hsmSelfTest
  refine Tracks.get_bind fun h => ?_
  exact Tracks.bind (keepsState_onFlash _) (fun _ => Tracks.pure fun _ => rfl) h

theorem tracks_addEntropy (req : AddEntropyReq) :
    Tracks DeviceState.next (hsmAddEntropy req : Dev P HsmResponse) := by
  unfold hsmAddEntropy
  split
  · split
    · exact fun h => rfl
    · exact Tracks.refuse _ _
  · exact Tracks.refuse _ _

/-- Where the second half of a PIN change leads: back to where the change began. -/
def DeviceState.rewrapped (wasReady : Bool) (s : DeviceState) : HsmResponse → DeviceState
  | .changePin true => if wasReady then .prodReady else .prodLocked
  | resp => s.next resp

theorem tracks_rewrapSeed (newPin : Str) (wasReady : Bool) (seed : Bytes 32) :
    Tracks (DeviceState.rewrapped wasReady) (rewrapSeed newPin wasReady seed : Dev P HsmResponse) := by
  have hrefuse : ∀ (code : ErrCode) (message : String),
      Tracks (DeviceState.rewrapped wasReady)
        (pure (.err code message) : Dev P HsmResponse) :=
    fun code message => Tracks.pure (quiet_err code message)
  unfold rewrapSeed
  refine Tracks.bind (keepsState_draws draws_prepareKeygenEntropy) fun ready => ?_
  split
  · exact hrefuse _ _
  refine Tracks.bind (keepsState_draws (draws_randomArray 16)) fun newSalt => ?_
  refine Tracks.get_bind fun h => ?_
  split
  · trivial
  split
  · rfl
  split
  · rfl
  split
  · rfl
  refine Tracks.bind (keepsState_draws (draws_randomArray 12)) (fun nonce => ?_) h
  dsimp only
  refine Tracks.bind (keepsState_onFlash _) fun write => ?_
  split
  · exact hrefuse _ _
  refine Tracks.bind (keepsState_resetPinCounter 2) fun _ => ?_
  split
  · rename_i hready
    intro h
    change DeviceState.prodReady = if wasReady = true then .prodReady else .prodLocked
    rw [if_pos hready]
  · rename_i hlocked
    intro h
    change DeviceState.prodLocked = if wasReady = true then .prodReady else .prodLocked
    rw [if_neg hlocked]

/-- The second half runs in the state that the first half found. -/
theorem rewrapped_of_checked {s : DeviceState} (hs : s = .prodReady ∨ s = .prodLocked)
    (resp : HsmResponse) : s.rewrapped (s = .prodReady) resp = s.next resp := by
  unfold DeviceState.rewrapped
  split
  · rcases hs with rfl | rfl
    · rfl
    · rfl
  · rfl

theorem tracks_changePin (req : ChangePinReq) :
    Tracks DeviceState.next (hsmChangePin req : Dev P HsmResponse) := by
  have hchecked : ∀ h : Hsm P, h.state = .prodReady ∨ h.state = .prodLocked →
      Wp (checkedRewrap req (h.state = .prodReady))
        (fun resp h' => h'.state = h.state.next resp) (fun _ _ => True) h := by
    intro h hs
    unfold checkedRewrap
    rw [Wp_bind]
    refine Wp.mono (tracks_verifyPin req.currentPin h) ?_ fun _ _ he => he
    intro r h₁ hr
    split
    · exact hr
    · rename_i seed _ _
      have hstate : h₁.state = h.state := hr
      refine Wp.mono (tracks_rewrapSeed req.newPin (h.state = .prodReady) seed h₁) ?_
        fun _ _ he => he
      intro resp h₂ hrewrapped
      rw [hrewrapped, hstate]
      exact rewrapped_of_checked hs resp
  unfold hsmChangePin
  refine Tracks.get_bind fun h => ?_
  split
  · rfl
  · rfl
  · rfl
  · rename_i hstate
    split
    · rfl
    · exact hchecked h (Or.inl hstate)
  · rename_i hstate
    split
    · rfl
    · exact hchecked h (Or.inr hstate)

/-- Where the gate leads: nowhere if it opens. -/
def DeviceState.afterGate (s : DeviceState) : Option HsmResponse → DeviceState
  | none => s
  | some resp => s.next resp

theorem tracks_destructiveGate (pin : Option Str) (noPin : String) :
    Tracks DeviceState.afterGate (destructiveGate pin noPin : Dev P (Option HsmResponse)) := by
  have hpin : Tracks DeviceState.afterGate (pinGate pin noPin : Dev P (Option HsmResponse)) := by
    unfold pinGate
    split
    · intro h
      rw [Wp_bind]
      refine Wp.mono (tracks_verifyPin _ h) ?_ fun _ _ he => he
      intro r h' hr
      split
      · exact hr
      · exact hr
    · exact fun h => rfl
  unfold destructiveGate
  refine Tracks.get_bind fun h => ?_
  split
  · split
    · rfl
    · exact hpin h
  · split
    · rfl
    · exact hpin h
  · split
    · rfl
    · rfl
  · rfl
  · rfl

theorem tracks_rebootBootloader (req : RebootBootloaderReq) :
    Tracks DeviceState.next (hsmRebootBootloader req : Dev P HsmResponse) := by
  unfold hsmRebootBootloader
  intro h
  rw [Wp_bind]
  refine Wp.mono (tracks_destructiveGate _ _ h) ?_ fun _ _ he => he
  intro r h' hr
  split
  · exact hr
  · exact hr

/-- A session that was loaded from flash is not open. -/
theorem loaded_not_ready (h : Hsm P) (cfg : Option DeviceConfig) (keyblob : Option KeyBlob)
    (time : Option Int64 × Bool) (attempts : Nat) :
    (h.loaded cfg keyblob time attempts).state ≠ .prodReady := by
  obtain ⟨state, ca, kek, until_, hstate, heq⟩ := h.loaded_cases cfg keyblob time attempts
  rw [heq]
  cases hstate with
  | blank => simp
  | dev hmode => simp
  | locked hmode hroom => simp
  | lockedOut hmode => simp

/-- A factory reset follows the arrows, or leaves something behind and loads it. -/
theorem wp_factoryReset_state (req : FactoryResetReq) (h : Hsm P) :
    Wp (hsmFactoryReset req)
      (fun resp h' => h'.state = h.state.next resp ∨
        resp = resetIncomplete ∧ h'.state ≠ .prodReady) (fun _ _ => True) h := by
  unfold hsmFactoryReset
  split
  · exact Or.inl rfl
  rw [Wp_bind]
  refine Wp.mono (tracks_destructiveGate _ _ h) ?_ fun _ _ he => he
  intro r h₁ hr
  split
  · exact Or.inl hr
  rw [Wp_bind, Wp_modify]
  refine Wp.bind_any _ (fun gone h₂ => ?_) fun _ _ => trivial
  split
  · exact Or.inl rfl
  rw [Wp_bind]
  refine Wp.mono (wp_loadFromFlash h₂) ?_ fun _ _ _ => trivial
  rintro _ _ ⟨g, cfg, keyblob, time, attempts, rfl, -⟩
  exact Or.inr ⟨rfl, loaded_not_ready _ _ _ _ _⟩

/-- The step lemma: a command takes the state along the arrow of its answer. -/
theorem tracks_run (c : Command) (h : Hsm P) :
    Wp (c.run : Dev P HsmResponse)
      (fun resp h' => h'.state = h.state.next resp ∨
        resp = resetIncomplete ∧ h'.state ≠ .prodReady) (fun _ _ => True) h := by
  have hleft : ∀ {m : Dev P HsmResponse}, Tracks DeviceState.next m →
      Wp m (fun resp h' => h'.state = h.state.next resp ∨
        resp = resetIncomplete ∧ h'.state ≠ .prodReady) (fun _ _ => True) h :=
    fun hm => Wp.mono (hm h) (fun _ _ hnext => Or.inl hnext) fun _ _ he => he
  cases c with
  | init req => exact hleft (tracks_init req)
  | generateKey req => exact hleft (tracks_generateKey req)
  | getPublicKey =>
    apply hleft
    change Tracks DeviceState.next (hsmGetPublicKey : Dev P HsmResponse)
    unfold hsmGetPublicKey
    refine Tracks.get_bind fun h => ?_
    split
    · rfl
    · rfl
  | unlock req => exact hleft (tracks_unlock req)
  | lock => exact hleft tracks_lock
  | setTime req => exact hleft (tracks_setTime req)
  | status => exact hleft tracks_status
  | changePin req => exact hleft (tracks_changePin req)
  | addEntropy req => exact hleft (tracks_addEntropy req)
  | selfTest => exact hleft tracks_selfTest
  | factoryReset req => exact wp_factoryReset_state req h
  | rebootBootloader req => exact hleft (tracks_rebootBootloader req)

/-! ### Lines without a command -/

/-- The answer of the signer path. -/
def Response.NotManagement (resp : Response) : Prop := ∀ r, resp ≠ .hsm r

theorem sign_notManagement (req : EnclaveSigningRequest) (h : Hsm P) :
    Wp (handleSign req) (fun resp _ => resp.NotManagement) (fun _ _ => True) h := by
  unfold handleSign
  rw [Wp_bind, Wp_get]
  split
  · exact fun r => by simp [notInitialized]
  split
  · exact fun r => by simp
  split
  · exact fun r => by simp
  refine Wp.bind_any _ (fun seeded h₁ => ?_) fun _ _ => trivial
  split
  · exact fun r => by simp
  refine Wp.bind_any _ (fun nonce h₂ => ?_) fun _ _ => trivial
  refine Wp.bind_any _ (fun serial h₃ => ?_) fun _ _ => trivial
  rw [Wp_bind, Wp_get]
  split
  · trivial
  · exact fun r => by simp

theorem handleRequest_notManagement {r : Request} (hr : r.hsm = none) (h : Hsm P) :
    Wp (handleRequest r) (fun resp _ => resp.NotManagement) (fun _ _ => True) h := by
  unfold handleRequest
  split
  · exact fun r => by simp
  split
  · unfold handleLoadKeySigner
    rw [Wp_bind, Wp_get]
    split
    · exact fun r => by simp
    · exact fun r => by simp [notInitialized]
  split
  · exact sign_notManagement _ h
  split
  · exact fun r => by simp
  split
  · exact fun r => by simp
  rw [hr]
  exact fun r => by simp

/-- A line without a command has an answer that leads nowhere. -/
theorem handle_quiet {line : Octets} (hc : lineCommand P line = none) (h : Hsm P) :
    Wp (handle line) (fun resp _ => ∀ r, resp = .hsm r → r.Quiet) (fun _ _ => True) h := by
  unfold lineCommand at hc
  unfold handle
  cases hparse : parseLine (P := P) line with
  | error e => exact fun r heq => by cases heq
  | ok r =>
    rw [hparse] at hc
    dsimp only at hc ⊢
    cases hhsm : r.hsm with
    | none =>
      refine Wp.mono (handleRequest_notManagement hhsm h) ?_ fun _ _ he => he
      exact fun resp h' hno r heq => absurd heq (hno r)
    | some q =>
      by_cases hvariants : r.variants > 1
      · unfold handleRequest
        rw [if_pos hvariants]
        exact fun r heq => by cases heq
      · rw [if_neg hvariants, hhsm] at hc
        have hcommand : q.command = none := hc
        rw [handleRequest_hsm hhsm hvariants, handleHsm_eq, hcommand]
        intro r heq
        obtain rfl := Response.hsm.inj heq
        exact quiet_err _ _

/-! ### Every run -/

theorem relock_state (h : Hsm P) : h.relockOnTransportReset.state = h.state.relocked := by
  unfold Hsm.relockOnTransportReset DeviceState.relocked
  by_cases hready : h.state = .prodReady
  · simp [hready]
  · simp only [if_neg hready]
    split
    · rfl
    · rfl

/-- Where a moment leads from a state, for who sees the event and its response. -/
def Moment.next (m : Moment P) (s : DeviceState) : DeviceState :=
  match m.event, m.response with
  | .relock, _ => s.relocked
  | .line _ _, some (.hsm resp) => s.next resp
  | _, _ => s

/-- The moment is outside the diagram: a boot, or a factory reset that loads the session. -/
def Moment.Reloads (m : Moment P) : Prop :=
  (∃ p, m.event = .boot p) ∨ m.response = some (.hsm resetIncomplete)

/-- One moment of a session. -/
theorem Stepped.state {h h' : Hsm P} {e : Event} {resp : Option Response}
    (hstep : Stepped (.on h) e resp (.on h'))
    (hno : ¬ (⟨e, .on h, resp, .on h'⟩ : Moment P).Reloads) :
    h'.state = (⟨e, .on h, resp, .on h'⟩ : Moment P).next h.state := by
  cases hstep with
  | booted hboot => exact absurd (Or.inl ⟨_, rfl⟩) hno
  | @drew h h' bytes faults resp hc hrun hrng =>
    obtain ⟨drbg, entropy, rfl⟩ := hrng.exists
    cases resp with
    | hsm r => exact ((handle_quiet hc _).of_ok hrun r rfl h.state).symm
    | _ => rfl
  | served hc hrun =>
    rcases (tracks_run _ _).of_ok hrun with hnext | ⟨rfl, -⟩
    · exact hnext
    · exact absurd (Or.inr rfl) hno
  | relocked => exact relock_state h
  | advanced => rfl
  | quiet he =>
    rcases he with rfl | ⟨n, rfl⟩ | rfl
    · rfl
    · rfl
    · rfl

theorem PoweredUp.not_ready {f : Flash} {p : PowerUp} {h : Hsm P} (hboot : PoweredUp f p h) :
    h.state ≠ .prodReady := by
  obtain ⟨drbg, entropy, g, cfg, keyblob, time, attempts, rfl, -, -⟩ := hboot
  exact loaded_not_ready _ _ _ _ _

end PicoSignet
