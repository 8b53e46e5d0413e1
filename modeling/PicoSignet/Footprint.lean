import PicoSignet.Device

/-!
# Footprints of the handlers

`Within F R` says that a handler leaves every part of the session outside `F` and
every flash region outside `R` as it was.  Each handler is given the smallest
footprint the source allows, wherever it is interrupted.
-/

set_option autoImplicit false

namespace PicoSignet

open Crash

/-- What `destructiveGate` asks of a production device without physical recovery. -/
def pinGate {P : Prims} (pin : Option Str) (noPin : String) : Dev P (Option HsmResponse) :=
  match pin with
  | some pin => do
    match ← verifyPin pin with
    | .error resp => return some resp
    | .ok _ => return none
  | none => return some (.err .badRequest noPin)

/-- The end of `hsmChangePin`, from the check of the PIN on. -/
def checkedRewrap {P : Prims} (req : ChangePinReq) (wasReady : Bool) : Dev P HsmResponse := do
  match ← verifyPin req.currentPin with
  | .error resp => return resp
  | .ok (seed, _, _) => rewrapSeed req.newPin wasReady seed

/-- The parts of a session that requests can change. -/
inductive Field where
  | clock
  | floor
  | state
  | config
  | secrets
  | caPubkey
  | backoff
  | reboot
deriving DecidableEq, Repr

variable {P : Prims}

/-- The part `x` is the same in both sessions. -/
def Same : Field → Hsm P → Hsm P → Prop
  | .clock, h, h' => h'.clock = h.clock
  | .floor, h, h' => h'.trustedTimeFloor = h.trustedTimeFloor ∧
      h'.trustedTimeFloorUnavailable = h.trustedTimeFloorUnavailable
  | .state, h, h' => h'.state = h.state
  | .config, h, h' => h'.config = h.config
  | .secrets, h, h' => h'.ca = h.ca ∧ h'.wrapKek = h.wrapKek ∧ h'.wrapSalt = h.wrapSalt
  | .caPubkey, h, h' => h'.caPubkey = h.caPubkey
  | .backoff, h, h' => h'.pinBackoffUntilMs = h.pinBackoffUntilMs
  | .reboot, h, h' => h'.rebootRequested = h.rebootRequested

theorem Same.refl (x : Field) (h : Hsm P) : Same x h h := by
  cases x with
  | floor => exact ⟨rfl, rfl⟩
  | secrets => exact ⟨rfl, rfl, rfl⟩
  | _ => rfl

theorem Same.trans {x : Field} {h₁ h₂ h₃ : Hsm P} (h₁₂ : Same x h₁ h₂) (h₂₃ : Same x h₂ h₃) :
    Same x h₁ h₃ := by
  cases x with
  | floor => exact ⟨h₂₃.1.trans h₁₂.1, h₂₃.2.trans h₁₂.2⟩
  | secrets => exact ⟨h₂₃.1.trans h₁₂.1, h₂₃.2.1.trans h₁₂.2.1, h₂₃.2.2.trans h₁₂.2.2⟩
  | _ => exact Eq.trans h₂₃ h₁₂

structure Within (F : Field → Prop) (R : Option Region → Prop) (h h' : Hsm P) : Prop where
  same : ∀ x, ¬ F x → Same x h h'
  mono : h'.mono = h.mono
  physical : h'.physicalRecoveryAuthorized = h.physicalRecoveryAuthorized
  flash : FlashWithin R h.flash h'.flash

instance (F : Field → Prop) (R : Option Region → Prop) : IsPreorder (Hsm P) (Within F R) where
  refl h := ⟨fun x _ => Same.refl x h, rfl, rfl, refl_of (FlashWithin R) h.flash⟩
  trans _ _ _ h₁₂ h₂₃ :=
    ⟨fun x hx => (h₁₂.same x hx).trans (h₂₃.same x hx), h₂₃.mono.trans h₁₂.mono,
      h₂₃.physical.trans h₁₂.physical, trans_of (FlashWithin R) h₁₂.flash h₂₃.flash⟩

/-- Flash code of the session, seen from its callers. -/
theorem Wp_onFlash {α : Type} (m : FlashM α) (post : Except HalError α → Hsm P → Prop)
    (stop : Halt → Hsm P → Prop) (h : Hsm P) :
    Wp (onFlash m) post stop h ↔
      Wp m (fun a f => post (.ok a) { h with flash := f })
        (fun e f => match e with
          | .hal e => post (.error e) { h with flash := f }
          | .powerLoss => stop .powerLoss { h with flash := f }) h.flash := by
  unfold Wp onFlash
  cases m h.flash with
  | ok a f => exact Iff.rfl
  | error e f => cases e <;> exact Iff.rfl

/-! ### The generator -/

/-- Only the DRBG and its entropy source have moved. -/
def OnlyRng (h h' : Hsm P) : Prop := h' = { h with drbg := h'.drbg, entropy := h'.entropy }

instance : IsPreorder (Hsm P) OnlyRng where
  refl _ := rfl
  trans _ _ _ h₁₂ h₂₃ := by
    unfold OnlyRng at *
    rw [h₂₃, h₁₂]

/-- The program always returns, and only draws from the generator. -/
def Draws {α : Type} (m : Dev P α) : Prop :=
  ∀ h, Wp m (fun _ h' => OnlyRng h h') (fun _ _ => False) h

theorem Draws.bind {α β : Type} {m : Dev P α} {k : α → Dev P β} (hm : Draws m)
    (hk : ∀ a, Draws (k a)) : Draws (m >>= k) := by
  intro h
  rw [Wp_bind]
  refine (hm h).mono ?_ fun _ _ he => he
  intro a h' hh'
  exact (hk a h').mono (fun _ _ h'' => trans_of OnlyRng hh' h'') fun _ _ he => he

theorem Draws.pure {α : Type} (a : α) : Draws (Pure.pure a : Dev P α) := fun _ => rfl

theorem draws_ensureSeeded : Draws (ensureSeeded : Dev P (Except HalError Unit)) := by
  intro h
  unfold ensureSeeded
  rw [Wp_bind, Wp_get]
  split
  · rfl
  · split <;> rfl

theorem draws_prepareKeygenEntropy :
    Draws (prepareKeygenEntropy : Dev P (Except HalError Unit)) := by
  refine draws_ensureSeeded.bind fun r => ?_
  cases r with
  | error e => exact Draws.pure _
  | ok _ =>
    intro h
    rw [Wp_bind, Wp_get]
    split <;> rfl

theorem draws_randomArray (n : Nat) : Draws (randomArray n : Dev P (Bytes n)) := fun _ => rfl

theorem draws_nextU64 : Draws (nextU64 : Dev P UInt64) := fun _ => rfl

theorem draws_generateCaKey : Draws (generateCaKey : Dev P (Bytes 32 × CaKey)) := fun _ => rfl

section Handlers

variable {F : Field → Prop} {R : Option Region → Prop}

/-! ### Building blocks -/

theorem Within.of_onlyRng {h h' : Hsm P} (hrng : OnlyRng h h') : Within F R h h' := by
  rw [hrng]
  refine ⟨?_, rfl, rfl, refl_of (FlashWithin R) h.flash⟩
  intro x _
  cases x <;> simp [Same]

theorem Within.of_flash {h : Hsm P} {f : Flash} (hf : FlashWithin R h.flash f) :
    Within F R h { h with flash := f } := by
  refine ⟨?_, rfl, rfl, hf⟩
  intro x _
  cases x <;> simp [Same]

theorem stays_onFlash {α : Type} {m : FlashM α} (hm : Stays (FlashWithin R) m) :
    Stays (Within F R) (onFlash m : Dev P (Except HalError α)) := by
  intro h
  rw [Wp_onFlash]
  refine (hm h.flash).mono (fun _ _ hf => Within.of_flash hf) ?_
  intro e f hf
  cases e with
  | hal e => exact Within.of_flash hf
  | powerLoss => exact Within.of_flash hf

theorem Draws.stays {α : Type} {m : Dev P α} (hm : Draws m) : Stays (Within F R) m := fun h =>
  (hm h).mono (fun _ _ hrng => Within.of_onlyRng hrng) fun _ _ he => he.elim

theorem stays_modify {f : Hsm P → Hsm P} (hsame : ∀ h x, ¬ F x → Same x h (f h))
    (hmono : ∀ h, (f h).mono = h.mono)
    (hphysical : ∀ h, (f h).physicalRecoveryAuthorized = h.physicalRecoveryAuthorized)
    (hflash : ∀ h, (f h).flash = h.flash) : Stays (Within F R) (modify f : Dev P PUnit) := by
  refine Stays.modify fun h => ⟨hsame h, hmono h, hphysical h, ?_⟩
  rw [hflash h]
  exact refl_of (FlashWithin R) h.flash

theorem stays_eraseKeyVerified (hA : R (some .keyA)) (hB : R (some .keyB)) (tries : Nat) :
    Stays (Within F R) (eraseKeyVerified tries : Dev P Bool) := by
  induction tries with
  | zero => exact Stays.pure _
  | succ tries ih =>
    refine Stays.bind (stays_onFlash (stays_note hA)) fun _ => ?_
    refine Stays.bind (stays_onFlash (stays_eraseBoth hA hB)) fun _ => ?_
    refine Stays.bind (stays_onFlash (stays_readLatest _ _)) fun r => ?_
    split
    · exact Stays.pure _
    · exact ih

theorem stays_pinCount : Stays (FlashWithin R) Pin.count :=
  Stays.bind (stays_read _) fun _ => Stays.pure _

theorem stays_pinTick (hpin : R (some .pinCounter)) : Stays (FlashWithin R) Pin.tick := by
  refine Stays.bind stays_pinCount fun n => ?_
  refine Stays.ite (Stays.pure _) ?_
  exact Stays.bind (stays_program hpin _ _) fun _ => Stays.pure _

theorem stays_resetPinCounter (hpin : R (some .pinCounter)) (hbackoff : F .backoff) (tries : Nat) :
    Stays (Within F R) (resetPinCounterBestEffort tries : Dev P Unit) := by
  induction tries with
  | zero => exact Stays.pure _
  | succ tries ih =>
    refine Stays.bind (stays_onFlash (stays_erase hpin)) fun r => ?_
    split
    · refine stays_modify ?_ (fun _ => rfl) (fun _ => rfl) fun _ => rfl
      intro h x hx
      cases x <;> simp_all [Same]
    · exact ih

/-! ### PIN verification -/

/-- What a command that verifies a PIN may touch. -/
structure PinScope (F : Field → Prop) (R : Option Region → Prop) : Prop where
  keyA : R (some .keyA)
  keyB : R (some .keyB)
  pinCounter : R (some .pinCounter)
  tried : R none
  backoff : F .backoff
  state : F .state
  secrets : F .secrets
  caPubkey : F .caPubkey

section Pin

variable (hscope : PinScope F R)

include hscope

theorem stays_wrongPin (cfg : DeviceConfig) (attempts : Nat) :
    Stays (Within F R) (wrongPin cfg attempts : Dev P (Except HsmResponse UnlockedSeed)) := by
  unfold wrongPin
  refine Stays.bind ?_ fun _ => ?_
  · refine stays_modify ?_ (fun _ => rfl) (fun _ => rfl) fun _ => rfl
    intro h x hx
    cases x <;> simp_all [Same, hscope.backoff, hscope.state, hscope.secrets, hscope.caPubkey]
  · refine Stays.ite ?_ (Stays.pure _)
    refine Stays.bind ?_ fun _ => Stays.ite ?_ (Stays.pure _)
    · refine stays_modify ?_ (fun _ => rfl) (fun _ => rfl) fun _ => rfl
      intro h x hx
      cases x <;> simp_all [Same, hscope.state, hscope.secrets, Hsm.enterLockedOut, Hsm.dropLiveSecrets]
    · refine Stays.bind (stays_eraseKeyVerified hscope.keyA hscope.keyB 2) fun gone => Stays.ite ?_ (Stays.pure _)
      refine Stays.bind ?_ fun _ => Stays.pure _
      refine stays_modify ?_ (fun _ => rfl) (fun _ => rfl) fun _ => rfl
      intro h x hx
      cases x <;> simp_all [Same, hscope.backoff, hscope.state, hscope.secrets, hscope.caPubkey]

theorem stays_verifyPin (pin : Str) :
    Stays (Within F R) (verifyPin pin : Dev P (Except HsmResponse UnlockedSeed)) := by
  unfold verifyPin
  refine Stays.bind Stays.get fun h => ?_
  split
  · exact Stays.throw _
  refine Stays.bind (stays_onFlash stays_pinCount) fun count => ?_
  split
  · exact Stays.pure _
  refine Stays.ite (Stays.pure _) ?_
  refine Stays.bind (stays_onFlash (stays_pinTick hscope.pinCounter)) fun tick => ?_
  split
  · exact Stays.pure _
  refine Stays.bind (stays_onFlash (stays_readLatest _ _)) fun key => ?_
  split
  · exact Stays.pure _
  · exact Stays.pure _
  split
  · exact Stays.pure _
  split
  · exact Stays.pure _
  split
  · exact Stays.pure _
  split
  · refine Stays.bind (stays_onFlash (stays_note hscope.tried)) fun _ => ?_
    exact Stays.bind (stays_resetPinCounter hscope.pinCounter hscope.backoff 2) fun _ => Stays.pure _
  · refine Stays.bind (stays_onFlash (stays_note hscope.tried)) fun _ => ?_
    exact stays_wrongPin hscope _ _

theorem stays_destructiveGate (pin : Option Str) (noPin : String) :
    Stays (Within F R) (destructiveGate pin noPin : Dev P (Option HsmResponse)) := by
  unfold destructiveGate
  refine Stays.bind Stays.get fun h => ?_
  have hgate : Stays (Within F R) (pinGate pin noPin : Dev P (Option HsmResponse)) := by
    unfold pinGate
    split
    · refine Stays.bind
        (stays_verifyPin hscope _) fun r => ?_
      split <;> exact Stays.pure _
    · exact Stays.pure _
  split
  · exact Stays.ite (Stays.pure _) hgate
  · exact Stays.ite (Stays.pure _) hgate
  · exact Stays.ite (Stays.pure _) (Stays.pure _)
  · exact Stays.pure _
  · exact Stays.pure _

theorem stays_unlock (req : UnlockReq) : Stays (Within F R) (hsmUnlock req : Dev P HsmResponse) := by
  unfold hsmUnlock
  refine Stays.bind Stays.get fun h => ?_
  split
  · exact Stays.pure _
  · refine Stays.bind (stays_verifyPin hscope _) fun r => ?_
    split
    · refine Stays.bind ?_ fun _ => Stays.pure _
      refine stays_modify ?_ (fun _ => rfl) (fun _ => rfl) fun _ => rfl
      intro h x hx
      cases x <;> simp_all [Same, hscope.backoff, hscope.state, hscope.secrets, hscope.caPubkey]
    · exact Stays.pure _
  · exact Stays.pure _
  · exact Stays.pure _
  · exact Stays.pure _

theorem stays_rewrapSeed (newPin : Str) (wasReady : Bool) (seed : Bytes 32) :
    Stays (Within F R) (rewrapSeed newPin wasReady seed : Dev P HsmResponse) := by
  unfold rewrapSeed
  refine Stays.bind draws_prepareKeygenEntropy.stays fun _ => ?_
  split
  · exact Stays.pure _
  refine Stays.bind (draws_randomArray 16).stays fun newSalt => ?_
  refine Stays.bind Stays.get fun h => ?_
  split
  · exact Stays.throw _
  split
  · exact Stays.pure _
  split
  · exact Stays.pure _
  split
  · exact Stays.pure _
  refine Stays.bind (draws_randomArray 12).stays fun nonce => ?_
  refine Stays.bind (stays_onFlash (stays_write _ hscope.keyA hscope.keyB _)) fun r => ?_
  split
  · exact Stays.pure _
  refine Stays.bind (stays_resetPinCounter hscope.pinCounter hscope.backoff 2) fun _ => ?_
  refine Stays.ite ?_ ?_
  · refine Stays.bind ?_ fun _ => Stays.pure _
    refine stays_modify ?_ (fun _ => rfl) (fun _ => rfl) fun _ => rfl
    intro h x hx
    cases x <;> simp_all [Same, hscope.backoff, hscope.state, hscope.secrets, hscope.caPubkey]
  · refine Stays.bind ?_ fun _ => Stays.pure _
    refine stays_modify ?_ (fun _ => rfl) (fun _ => rfl) fun _ => rfl
    intro h x hx
    cases x <;> simp_all [Same, hscope.state, hscope.secrets, Hsm.dropLiveSecrets]

theorem stays_changePin (req : ChangePinReq) :
    Stays (Within F R) (hsmChangePin req : Dev P HsmResponse) := by
  unfold hsmChangePin
  refine Stays.bind Stays.get fun h => ?_
  have hrest : ∀ wasReady : Bool,
      Stays (Within F R) (checkedRewrap req wasReady : Dev P HsmResponse) := by
    intro wasReady
    refine Stays.bind (stays_verifyPin hscope _) fun r => ?_
    split
    · exact Stays.pure _
    · exact stays_rewrapSeed hscope _ _ _
  split
  · exact Stays.pure _
  · exact Stays.pure _
  · exact Stays.pure _
  · exact Stays.ite (Stays.pure _) (hrest _)
  · exact Stays.ite (Stays.pure _) (hrest _)

theorem stays_rebootBootloader (hreboot : F .reboot) (req : RebootBootloaderReq) :
    Stays (Within F R) (hsmRebootBootloader req : Dev P HsmResponse) := by
  unfold hsmRebootBootloader
  refine Stays.bind
    (stays_destructiveGate hscope _ _) fun r => ?_
  split
  · exact Stays.pure _
  · refine Stays.bind ?_ fun _ => Stays.pure _
    refine stays_modify ?_ (fun _ => rfl) (fun _ => rfl) fun _ => rfl
    intro h x hx
    cases x <;> simp_all [Same, hscope.backoff, hscope.state, hscope.secrets, hscope.caPubkey]

end Pin

/-! ### Initialization -/

section Init

variable (hscope : PinScope F R) (hcA : R (some .configA)) (hcB : R (some .configB))
  (hconfig : F .config)

include hscope hcA hcB hconfig

theorem stays_initDev : Stays (Within F R) (initDev : Dev P HsmResponse) := by
  unfold initDev
  refine Stays.bind Stays.get fun h => ?_
  split
  · exact Stays.pure _
  refine Stays.bind (stays_onFlash (stays_write _ hcA hcB _)) fun r => ?_
  split
  · exact Stays.pure _
  refine Stays.bind ?_ fun _ => Stays.pure _
  refine stays_modify ?_ (fun _ => rfl) (fun _ => rfl) fun _ => rfl
  intro h x hx
  cases x <;> simp_all [Same, hscope.state, hscope.secrets]

theorem stays_initProd (req : InitReq) : Stays (Within F R) (initProd req : Dev P HsmResponse) := by
  unfold initProd
  split
  · exact Stays.pure _
  refine Stays.ite (Stays.pure _) ?_
  refine Stays.bind draws_prepareKeygenEntropy.stays fun _ => ?_
  split
  · exact Stays.pure _
  refine Stays.bind (draws_randomArray 16).stays fun salt => ?_
  refine Stays.ite (Stays.pure _) ?_
  refine Stays.bind Stays.get fun h => ?_
  split
  · exact Stays.pure _
  refine Stays.bind draws_generateCaKey.stays ?_
  rintro ⟨seed, ca⟩
  dsimp only
  split
  · exact Stays.pure _
  refine Stays.bind (draws_randomArray 12).stays fun nonce => ?_
  refine Stays.bind (stays_onFlash (stays_write _ hscope.keyA hscope.keyB _)) fun r => ?_
  split
  · exact Stays.pure _
  refine Stays.bind (stays_onFlash (stays_write _ hcA hcB _)) fun r => ?_
  split
  · exact Stays.pure _
  refine Stays.bind (stays_resetPinCounter hscope.pinCounter hscope.backoff 2) fun _ => ?_
  refine Stays.bind ?_ fun _ => Stays.pure _
  refine stays_modify ?_ (fun _ => rfl) (fun _ => rfl) fun _ => rfl
  intro h x hx
  cases x <;> simp_all [Same, hscope.backoff, hscope.state, hscope.secrets, hscope.caPubkey]

theorem stays_init (req : InitReq) : Stays (Within F R) (hsmInit req : Dev P HsmResponse) := by
  unfold hsmInit
  refine Stays.bind Stays.get fun h => Stays.ite (Stays.pure _) ?_
  refine Stays.ite ?_ (Stays.ite ?_ (Stays.pure _))
  · exact stays_initDev hscope hcA hcB hconfig
  · exact stays_initProd hscope hcA hcB hconfig req

end Init

/-! ### The other commands -/

theorem draws_rotationSalt {wrapType : WrapType} {wrapSalt : Option (Bytes 16)}
    {draw : Dev P (Bytes 16)} (h : rotationSalt wrapType wrapSalt = some draw) : Draws draw := by
  unfold rotationSalt at h
  split at h
  · obtain rfl := Option.some.inj h
    exact draws_randomArray 16
  · obtain rfl := Option.some.inj h
    exact Draws.pure _
  · exact absurd h (by simp)

theorem stays_generateKeyReady (hA : R (some .keyA)) (hB : R (some .keyB)) (hsecrets : F .secrets)
    (hpub : F .caPubkey) (h : Hsm P) : Stays (Within F R) (generateKeyReady h) := by
  unfold generateKeyReady
  split
  · exact Stays.pure _
  split
  · exact Stays.pure _
  refine Stays.bind draws_prepareKeygenEntropy.stays fun _ => ?_
  split
  · exact Stays.pure _
  split
  · exact Stays.pure _
  rename_i hsalt
  refine Stays.bind draws_generateCaKey.stays ?_
  rintro ⟨seed, ca⟩
  refine Stays.bind (draws_randomArray 12).stays fun nonce => ?_
  refine Stays.bind (draws_rotationSalt hsalt).stays fun salt => ?_
  refine Stays.bind (stays_onFlash (stays_write _ hA hB _)) fun r => ?_
  split
  · exact Stays.pure _
  refine Stays.bind ?_ fun _ => Stays.pure _
  refine stays_modify ?_ (fun _ => rfl) (fun _ => rfl) fun _ => rfl
  intro h x hx
  cases x <;> simp_all [Same]

theorem stays_generateKey (hA : R (some .keyA)) (hB : R (some .keyB)) (hsecrets : F .secrets)
    (hpub : F .caPubkey) (req : GenerateKeyReq) :
    Stays (Within F R) (hsmGenerateKey req : Dev P HsmResponse) := by
  unfold hsmGenerateKey
  refine Stays.bind Stays.get fun h => ?_
  have hready := stays_generateKeyReady (F := F) hA hB hsecrets hpub h
  split
  · exact Stays.pure _
  · exact Stays.pure _
  · exact Stays.pure _
  · exact Stays.ite (Stays.pure _) hready
  · exact Stays.ite (Stays.pure _) hready

theorem stays_getPublicKey : Stays (Within F R) (hsmGetPublicKey : Dev P HsmResponse) := by
  unfold hsmGetPublicKey
  refine Stays.bind Stays.get fun h => ?_
  split <;> exact Stays.pure _

theorem stays_lock (hstate : F .state) (hsecrets : F .secrets) :
    Stays (Within F R) (hsmLock : Dev P HsmResponse) := by
  unfold hsmLock
  have hdrop : Stays (Within F R) (modify Hsm.dropLiveSecrets : Dev P PUnit) := by
    refine stays_modify ?_ (fun _ => rfl) (fun _ => rfl) fun _ => rfl
    intro h x hx
    cases x <;> simp_all [Same, Hsm.dropLiveSecrets]
  refine Stays.bind Stays.get fun h => ?_
  split
  · refine Stays.bind ?_ fun _ => Stays.pure _
    refine stays_modify ?_ (fun _ => rfl) (fun _ => rfl) fun _ => rfl
    intro h x hx
    cases x <;> simp_all [Same, Hsm.dropLiveSecrets]
  · exact Stays.bind hdrop fun _ => Stays.pure _
  · exact Stays.bind hdrop fun _ => Stays.pure _
  · exact Stays.pure _
  · exact Stays.pure _

theorem stays_status : Stays (Within F R) (hsmStatus : Dev P HsmResponse) := by
  unfold hsmStatus
  refine Stays.bind Stays.get fun h => Stays.bind ?_ fun _ => Stays.pure _
  unfold retryRemaining
  split
  · exact Stays.pure _
  · exact Stays.ite (Stays.bind (stays_onFlash stays_pinCount) fun _ => Stays.pure _) (Stays.pure _)

theorem stays_addEntropy (req : AddEntropyReq) :
    Stays (Within F R) (hsmAddEntropy req : Dev P HsmResponse) := by
  unfold hsmAddEntropy
  split
  · refine Stays.ite (Stays.bind ?_ fun _ => Stays.pure _) (Stays.pure _)
    refine stays_modify ?_ (fun _ => rfl) (fun _ => rfl) fun _ => rfl
    intro h x hx
    cases x <;> simp_all [Same]
  · exact Stays.pure _

theorem stays_selfTest : Stays (Within F R) (hsmSelfTest : Dev P HsmResponse) := by
  unfold hsmSelfTest
  refine Stays.bind Stays.get fun h => ?_
  exact Stays.bind (stays_onFlash (stays_readLatest _ _)) fun _ => Stays.pure _

theorem stays_setTime (hclock : F .clock) (hfloor : F .floor) (htA : R (some .timeA))
    (htB : R (some .timeB)) (req : SetTimeReq) :
    Stays (Within F R) (hsmSetTime req : Dev P HsmResponse) := by
  unfold hsmSetTime
  have hassign : ∀ (clock : Clock) (floor : Option Int64), Stays (Within F R)
      (modify fun h => { h with clock := clock, trustedTimeFloor := floor } : Dev P PUnit) := by
    intro clock floor
    refine stays_modify ?_ (fun _ => rfl) (fun _ => rfl) fun _ => rfl
    intro h x hx
    cases x <;> simp_all [Same]
  refine Stays.bind Stays.get fun h => ?_
  refine Stays.ite (Stays.pure _) (Stays.ite (Stays.pure _) ?_)
  split
  · exact Stays.pure _
  refine Stays.ite ?_ (Stays.bind (hassign _ _) fun _ => Stays.pure _)
  split
  · exact Stays.throw _
  refine Stays.bind (stays_onFlash (stays_write _ htA htB _)) fun r => ?_
  split
  · exact Stays.pure _
  · exact Stays.bind (hassign _ _) fun _ => Stays.pure _

/-! ### The signer path -/

theorem OnlyRng.ca {h h' : Hsm P} (hrng : OnlyRng h h') : h'.ca = h.ca := by
  rw [hrng]

/-- The key that was there when signing began is there when the certificate is built. -/
theorem draws_sign (req : EnclaveSigningRequest) : Draws (handleSign req : Dev P Response) := by
  intro h
  unfold handleSign
  rw [Wp_bind, Wp_get]
  split
  · rfl
  rename_i hloaded
  split
  · rfl
  split
  · rfl
  rw [Wp_bind]
  refine (draws_ensureSeeded h).mono ?_ fun _ _ he => he
  intro r h₁ hrng₁
  cases r with
  | error e => exact hrng₁
  | ok _ =>
    dsimp only
    rw [Wp_bind]
    refine (draws_randomArray 32 h₁).mono ?_ fun _ _ he => he
    intro nonce h₂ hrng₂
    rw [Wp_bind]
    refine (draws_nextU64 h₂).mono ?_ fun _ _ he => he
    intro serial h₃ hrng₃
    have hrng := trans_of OnlyRng hrng₁ (trans_of OnlyRng hrng₂ hrng₃)
    rw [Wp_bind, Wp_get]
    split
    · rename_i hnone
      rw [hrng.ca] at hnone
      simp [hnone] at hloaded
    · exact hrng

/-- A request without an `hsm` command at most draws from the generator. -/
theorem draws_handleRequest {r : Request} (hr : r.hsm = none) :
    Draws (handleRequest r : Dev P Response) := by
  unfold handleRequest
  split
  · exact Draws.pure _
  split
  · intro h
    unfold handleLoadKeySigner
    rw [Wp_bind, Wp_get]
    split <;> rfl
  split
  · exact draws_sign _
  split
  · exact fun h => rfl
  split
  · exact fun h => rfl
  rw [hr]
  exact Draws.pure _

end Handlers

/-! ### Time is kept by `setTime` and `factoryReset` alone -/

/-- Everything but the clock and its floor. -/
def NotTime (x : Field) : Prop := x ≠ .clock ∧ x ≠ .floor

/-- Every region but the TIME pair. -/
def NotTimeRegion (r : Option Region) : Prop := r ≠ some .timeA ∧ r ≠ some .timeB

instance : DecidablePred NotTime := fun x => inferInstanceAs (Decidable (x ≠ .clock ∧ x ≠ .floor))

instance : DecidablePred NotTimeRegion := fun r =>
  inferInstanceAs (Decidable (r ≠ some .timeA ∧ r ≠ some .timeB))

theorem pinScope_notTime : PinScope NotTime NotTimeRegion := by
  constructor <;> decide

end PicoSignet
