import PicoSignet.PinSpec

/-!
# What the commands do

The outcomes of the commands that write flash or change the session: one
inductive type for what each returns into and one for where the power can go
while it runs.  The theorems about the device are derived from these.
-/

set_option autoImplicit false

namespace PicoSignet

open Crash

variable {P : Prims}

theorem OnlyRng.exists {h h' : Hsm P} (hrng : OnlyRng h h') :
    ∃ drbg entropy, h' = { h with drbg := drbg, entropy := entropy } := ⟨_, _, hrng⟩

/-! ### Commands that take a PIN -/

/-- Where `verify_pin` can stop: on a missing configuration, or on a power cut. -/
def VerifyStop (pin : Str) (h : Hsm P) (e : Halt) (h' : Hsm P) : Prop :=
  e = .panic ∧ h.config = none ∧ h' = h ∨
    e = .powerLoss ∧ ∃ cfg, h.config = some cfg ∧ VerifyCut P cfg pin h.flash h'.flash

theorem wp_verifyPin_any (pin : Str) (h : Hsm P) :
    Wp (verifyPin pin) (fun r h' => ∃ cfg, h.config = some cfg ∧ Verified cfg pin h r h')
      (VerifyStop pin h) h := by
  cases hcfg : h.config with
  | none =>
    refine (wp_verifyPin_none pin h hcfg).mono (fun _ _ hf => hf.elim) ?_
    rintro e h' ⟨he, hsame⟩
    exact Or.inl ⟨he, hcfg, hsame⟩
  | some cfg =>
    refine (wp_verifyPin pin h hcfg).mono (fun _ _ hv => ⟨cfg, rfl, hv⟩) ?_
    rintro e h' ⟨he, hcut⟩
    exact Or.inr ⟨he, cfg, hcfg, hcut⟩

inductive Unlocked (req : UnlockReq) (h : Hsm P) : HsmResponse → Hsm P → Prop
  | refused {resp : HsmResponse} : Unlocked req h resp h
  | rejected {cfg : DeviceConfig} {resp : HsmResponse} {h₁ : Hsm P} (hcfg : h.config = some cfg)
      (hstate : h.state = .prodLocked) (hv : Verified cfg req.pin h (.error resp) h₁) :
      Unlocked req h resp h₁
  | opened {cfg : DeviceConfig} {seed kek : Bytes 32} {salt : Bytes 16} {h₁ : Hsm P}
      (hcfg : h.config = some cfg) (hstate : h.state = .prodLocked)
      (hv : Verified cfg req.pin h (.ok (seed, kek, salt)) h₁) :
      Unlocked req h (.unlock true)
        { h₁ with
          ca := some (CaKey.fromSeed seed), wrapKek := some kek, wrapSalt := some salt
          state := .prodReady }

theorem wp_unlock (req : UnlockReq) (h : Hsm P) :
    Wp (hsmUnlock req) (Unlocked req h)
      (fun e h' => h.state = .prodLocked ∧ VerifyStop req.pin h e h') h := by
  unfold hsmUnlock
  rw [Wp_bind, Wp_get]
  split
  · exact .refused
  · rename_i hstate
    rw [Wp_bind]
    refine Wp.mono (wp_verifyPin_any req.pin h) ?_ fun _ _ he => ⟨hstate, he⟩
    rintro r h₁ ⟨cfg, hcfg, hv⟩
    rcases r with resp | ⟨seed, kek, salt⟩
    · exact .rejected hcfg hstate hv
    · exact .opened hcfg hstate hv
  · exact .refused
  · exact .refused
  · exact .refused

/-- The ways through the gate of `factoryReset` and `rebootBootloader`, and the
    refusals. -/
inductive Gate (pin : Option Str) (h : Hsm P) : Option HsmResponse → Hsm P → Prop
  | free (hstate : h.state = .uninitialized ∨ h.state = .devReady) : Gate pin h none h
  | physical (hphysical : h.physicalRecoveryAuthorized = true) : Gate pin h none h
  | verified {cfg : DeviceConfig} {p : Str} {seed kek : Bytes 32} {salt : Bytes 16} {h₁ : Hsm P}
      (hpin : pin = some p) (hstate : h.state = .prodLocked ∨ h.state = .prodReady)
      (hcfg : h.config = some cfg) (hv : Verified cfg p h (.ok (seed, kek, salt)) h₁) :
      Gate pin h none h₁
  | refused {resp : HsmResponse} : Gate pin h (some resp) h
  | rejected {cfg : DeviceConfig} {p : Str} {resp : HsmResponse} {h₁ : Hsm P}
      (hpin : pin = some p) (hstate : h.state = .prodLocked ∨ h.state = .prodReady)
      (hcfg : h.config = some cfg) (hv : Verified cfg p h (.error resp) h₁) :
      Gate pin h (some resp) h₁

/-- Where the gate can stop: only a PIN that is verified can do that. -/
def GateStop (pin : Option Str) (h : Hsm P) (e : Halt) (h' : Hsm P) : Prop :=
  ∃ p, pin = some p ∧ (h.state = .prodLocked ∨ h.state = .prodReady) ∧ VerifyStop p h e h'

theorem wp_destructiveGate (pin : Option Str) (noPin : String) (h : Hsm P) :
    Wp (destructiveGate pin noPin) (Gate pin h) (GateStop pin h) h := by
  unfold destructiveGate
  rw [Wp_bind, Wp_get]
  have hgate : h.state = .prodLocked ∨ h.state = .prodReady →
      Wp (pinGate pin noPin) (Gate pin h) (GateStop pin h) h := by
    intro hstate
    unfold pinGate
    split
    · rename_i p
      rw [Wp_bind]
      refine Wp.mono (wp_verifyPin_any p h) ?_ fun _ _ he => ⟨p, rfl, hstate, he⟩
      rintro r h₁ ⟨cfg, hcfg, hv⟩
      rcases r with resp | ⟨seed, kek, salt⟩
      · exact .rejected rfl hstate hcfg hv
      · exact .verified rfl hstate hcfg hv
    · exact .refused
  split
  · rename_i hstate
    split
    · rename_i hphysical
      exact .physical hphysical
    · exact hgate (Or.inl hstate)
  · rename_i hstate
    split
    · rename_i hphysical
      exact .physical hphysical
    · exact hgate (Or.inr hstate)
  · split
    · rename_i hphysical
      exact .physical hphysical
    · exact .refused
  · rename_i hstate
    exact .free (Or.inl hstate)
  · rename_i hstate
    exact .free (Or.inr hstate)

theorem Verified.faults {cfg : DeviceConfig} {pin : Str} {h h' : Hsm P}
    {r : Except HsmResponse UnlockedSeed} (hv : Verified cfg pin h r h') :
    h'.flash.faults <:+ h.flash.faults := by
  cases hv with
  | refused hg => exact hg.within.faults
  | opened hg hopens hreset => exact hreset.within.faults.trans hg.within.faults
  | wrong hg hblob htick hwrong =>
    cases hwrong with
    | retry => exact hg.within.faults
    | lockout => exact hg.within.faults
    | wipe until_ g pubkey hge hwipe hg' hpubkey => exact hg'.within.faults.trans hg.within.faults

theorem Gate.faults {pin : Option Str} {h h' : Hsm P} {r : Option HsmResponse}
    (hgate : Gate pin h r h') : h'.flash.faults <:+ h.flash.faults := by
  cases hgate with
  | free => exact List.suffix_rfl
  | physical => exact List.suffix_rfl
  | verified hpin hstate hcfg hv => exact hv.faults
  | refused => exact List.suffix_rfl
  | rejected hpin hstate hcfg hv => exact hv.faults

/-- The gate refuses with an error. -/
theorem destructiveGate_isError (pin : Option Str) (noPin : String) (h : Hsm P) :
    Wp (destructiveGate pin noPin) (fun r _ => ∀ resp, r = some resp → resp.IsError)
      (fun _ _ => True) h := by
  have hnone : ∀ resp, (none : Option HsmResponse) = some resp → resp.IsError := by simp
  have herror : ∀ (code : ErrCode) (message : String) resp,
      some (HsmResponse.err code message) = some resp → resp.IsError := by
    intro code message resp heq
    exact ⟨_, (Option.some.inj heq).symm⟩
  have hgate : Wp (pinGate pin noPin)
      (fun r _ => ∀ resp, r = some resp → resp.IsError) (fun _ _ => True) h := by
    unfold pinGate
    split
    · rw [Wp_bind]
      refine Wp.mono (verifyPin_ofVerify _ h) ?_ fun _ _ _ => trivial
      intro r h₁ hr
      split
      · intro resp heq
        obtain rfl := Option.some.inj heq
        exact (hr _ rfl).isError
      · exact hnone
    · exact herror _ _
  unfold destructiveGate
  rw [Wp_bind, Wp_get]
  split
  · split
    · exact hnone
    · exact hgate
  · split
    · exact hnone
    · exact hgate
  · split
    · exact hnone
    · exact herror _ _
  · exact hnone
  · exact hnone

theorem wp_rebootBootloader (req : RebootBootloaderReq) (h : Hsm P) :
    Wp (hsmRebootBootloader req)
      (fun _ h' => (∃ resp, Gate req.pin h (some resp) h') ∨
        ∃ h₁, Gate req.pin h none h₁ ∧ h' = { h₁ with rebootRequested := true })
      (GateStop req.pin h) h := by
  unfold hsmRebootBootloader
  rw [Wp_bind]
  refine Wp.mono (wp_destructiveGate _ _ h) ?_ fun _ _ he => he
  intro r h₁ hgate
  cases r with
  | some resp => exact Or.inl ⟨resp, hgate⟩
  | none => exact Or.inr ⟨h₁, hgate, rfl⟩

/-! ### `changePin`, after the PIN was verified -/

/-- The blob `changePin` writes. -/
def NewPinBlob (h : Hsm P) (newPin : Str) (seed newKek : Bytes 32) (newSalt : Bytes 16)
    (blob : KeyBlob) : Prop :=
  ∃ cfg secret pubkey nonce, h.config = some cfg ∧ h.flash.deviceSecret = .ok secret ∧
    pinKek P newPin.bytes newSalt cfg.argon2 secret = .ok newKek ∧ h.caPubkey = some pubkey ∧
    blob = wrapSeed P newKek seed pubkey .pinKek newSalt nonce

inductive Rewrapped (newPin : Str) (wasReady : Bool) (seed : Bytes 32) (h : Hsm P) :
    HsmResponse → Hsm P → Prop
  | refused {resp : HsmResponse} {h' : Hsm P} (hrng : OnlyRng h h') (hresp : resp ≠ .changePin true) :
      Rewrapped newPin wasReady seed h resp h'
  | failed {resp : HsmResponse} {drbg : Drbg P} {entropy : Entropy} {g : Flash} {blob : KeyBlob}
      (hresp : resp ≠ .changePin true) (hg : WriteStopped P KEY blob.toBytes h.flash g)
      (hfail : ∃ left, Fault.fail left ∈ h.flash.faults) :
      Rewrapped newPin wasReady seed h resp
        { h with drbg := drbg, entropy := entropy, flash := g }
  | done {drbg : Drbg P} {entropy : Entropy} {g g' : Flash} {until_ : UInt64} {newKek : Bytes 32}
      {newSalt : Bytes 16} {blob : KeyBlob} (hblob : NewPinBlob h newPin seed newKek newSalt blob)
      (hg : Wrote P KEY blob.toBytes h.flash g) (hreset : Resets g g') :
      Rewrapped newPin wasReady seed h (.changePin true)
        { h with
          drbg := drbg, entropy := entropy, flash := g', pinBackoffUntilMs := until_
          ca := if wasReady then some (CaKey.fromSeed seed) else none
          wrapKek := if wasReady then some newKek else none
          wrapSalt := if wasReady then some newSalt else none
          state := if wasReady then .prodReady else .prodLocked }

inductive RewrapCut (newPin : Str) (seed : Bytes 32) (h : Hsm P) : Flash → Prop
  | writing {g : Flash} {newKek : Bytes 32} {newSalt : Bytes 16} {blob : KeyBlob}
      (hblob : NewPinBlob h newPin seed newKek newSalt blob)
      (hg : WriteStopped P KEY blob.toBytes h.flash g) : RewrapCut newPin seed h g
  | resetting {g g' : Flash} {newKek : Bytes 32} {newSalt : Bytes 16} {blob : KeyBlob}
      (hblob : NewPinBlob h newPin seed newKek newSalt blob)
      (hg : Wrote P KEY blob.toBytes h.flash g) (hreset : Resets g g') : RewrapCut newPin seed h g'

theorem wp_rewrapSeed (newPin : Str) (wasReady : Bool) (seed : Bytes 32) {h : Hsm P}
    (hcfg : h.config.isSome) :
    Wp (rewrapSeed newPin wasReady seed) (Rewrapped newPin wasReady seed h)
      (fun e h' => e = .powerLoss ∧ RewrapCut newPin seed h h'.flash) h := by
  unfold rewrapSeed
  rw [Wp_bind]
  refine Wp.mono (draws_prepareKeygenEntropy h) ?_ fun _ _ he => he.elim
  intro r h₁ hrng₁
  cases r with
  | error e => exact .refused hrng₁ (by simp [HsmResponse.err])
  | ok _ =>
  dsimp only
  rw [Wp_bind]
  refine Wp.mono (draws_randomArray 16 h₁) ?_ fun _ _ he => he.elim
  intro newSalt h₂ hrng₂
  have hrng := trans_of OnlyRng hrng₁ hrng₂
  obtain ⟨drbg, entropy, rfl⟩ := hrng.exists
  rw [Wp_bind, Wp_get]
  split
  · rename_i hconfig
    change h.config = none at hconfig
    simp [hconfig] at hcfg
  rename_i cfg hconfig
  split
  · exact .refused hrng (by simp [HsmResponse.err])
  rename_i secret hsecret
  split
  · exact .refused hrng (by simp [HsmResponse.err])
  rename_i newKek hkek
  split
  · exact .refused hrng (by simp [HsmResponse.err])
  rename_i pubkey hpubkey
  rw [Wp_bind]
  refine Wp.mono (draws_randomArray 12 _) ?_ fun _ _ he => he.elim
  intro nonce h₃ hrng₃
  obtain ⟨drbg', entropy', rfl⟩ := hrng₃.exists
  have hblob : NewPinBlob h newPin seed newKek newSalt
      (wrapSeed P newKek seed pubkey .pinKek newSalt nonce) :=
    ⟨cfg, secret, pubkey, nonce, hconfig, hsecret, hkek, hpubkey, rfl⟩
  rw [Wp_bind]
  refine Wp.mono (wp_onFlash_write KEY (by rw [length_keyBlob]; norm_num) _) ?_ ?_
  case refine_2 =>
    rintro e h' ⟨he, hg, -⟩
    exact ⟨he, .writing hblob hg⟩
  rintro r _ ⟨g, rfl, ⟨rfl, hg⟩ | ⟨⟨e, rfl⟩, hg, hfail⟩⟩
  case inr => exact .failed (by simp [HsmResponse.err]) hg hfail
  dsimp only
  rw [Wp_bind]
  refine Wp.mono (wp_resetPinCounter 1 _) ?_ ?_
  case refine_2 =>
    rintro e h' ⟨he, hreset⟩
    exact ⟨he, .resetting hblob hg hreset⟩
  rintro _ _ ⟨g', until_, hreset, rfl⟩
  cases wasReady with
  | true => exact .done hblob hg hreset
  | false => exact .done hblob hg hreset

inductive PinChanged (req : ChangePinReq) (h : Hsm P) : HsmResponse → Hsm P → Prop
  | refused {resp : HsmResponse} (hresp : resp ≠ .changePin true) : PinChanged req h resp h
  | rejected {cfg : DeviceConfig} {resp : HsmResponse} {h₁ : Hsm P} (hcfg : h.config = some cfg)
      (hstate : h.state = .prodLocked ∨ h.state = .prodReady)
      (hv : Verified cfg req.currentPin h (.error resp) h₁) : PinChanged req h resp h₁
  | rewrapped {cfg : DeviceConfig} {seed kek : Bytes 32} {salt : Bytes 16} {resp : HsmResponse}
      {h₁ h' : Hsm P} (hcfg : h.config = some cfg)
      (hstate : h.state = .prodLocked ∨ h.state = .prodReady)
      (hv : Verified cfg req.currentPin h (.ok (seed, kek, salt)) h₁)
      (hr : Rewrapped req.newPin (h.state = .prodReady) seed h₁ resp h') : PinChanged req h resp h'

def ChangePinStop (req : ChangePinReq) (h : Hsm P) (e : Halt) (h' : Hsm P) : Prop :=
  VerifyStop req.currentPin h e h' ∨
    e = .powerLoss ∧ ∃ cfg seed kek salt h₁, h.config = some cfg ∧
      Verified cfg req.currentPin h (.ok (seed, kek, salt)) h₁ ∧
      RewrapCut req.newPin seed h₁ h'.flash

theorem Verified.config {cfg : DeviceConfig} {pin : Str} {h h' : Hsm P}
    {r : Except HsmResponse UnlockedSeed} (hv : Verified cfg pin h r h') : h'.config = h.config := by
  cases hv with
  | refused => rfl
  | opened => rfl
  | wrong hg hblob htick hwrong => cases hwrong <;> rfl

theorem wp_changePin (req : ChangePinReq) (h : Hsm P) :
    Wp (hsmChangePin req) (PinChanged req h)
      (fun e h' => (h.state = .prodLocked ∨ h.state = .prodReady) ∧ ChangePinStop req h e h') h := by
  unfold hsmChangePin
  rw [Wp_bind, Wp_get]
  have hrest : h.state = .prodLocked ∨ h.state = .prodReady →
      Wp (checkedRewrap req (h.state = .prodReady)) (PinChanged req h)
        (fun e h' => (h.state = .prodLocked ∨ h.state = .prodReady) ∧ ChangePinStop req h e h')
        h := by
    intro hstate
    unfold checkedRewrap
    rw [Wp_bind]
    refine Wp.mono (wp_verifyPin_any req.currentPin h) ?_ fun _ _ he => ⟨hstate, Or.inl he⟩
    rintro r h₁ ⟨cfg, hcfg, hv⟩
    rcases r with resp | ⟨seed, kek, salt⟩
    · exact .rejected hcfg hstate hv
    · have hcfg₁ : h₁.config.isSome := by
        rw [hv.config, hcfg]
        rfl
      refine Wp.mono (wp_rewrapSeed req.newPin _ seed hcfg₁) ?_ ?_
      · intro resp h' hr
        exact .rewrapped hcfg hstate hv hr
      · rintro e h' ⟨he, hcut⟩
        exact ⟨hstate, Or.inr ⟨he, cfg, seed, kek, salt, h₁, hcfg, hv, hcut⟩⟩
  split
  · exact .refused (by simp [HsmResponse.err])
  · exact .refused (by simp [HsmResponse.err])
  · exact .refused (by simp [HsmResponse.err])
  · rename_i hstate
    split
    · exact .refused (by simp [HsmResponse.err])
    · exact hrest (Or.inr hstate)
  · rename_i hstate
    split
    · exact .refused (by simp [HsmResponse.err])
    · exact hrest (Or.inl hstate)

/-! ### `generateKey` -/

theorem wp_generateCaKey (h : Hsm P) :
    Wp (generateCaKey : Dev P (Bytes 32 × CaKey))
      (fun key h' => OnlyRng h h' ∧ key.2 = CaKey.fromSeed key.1) (fun _ _ => False) h := ⟨rfl, rfl⟩

/-- The blob `generateKey` writes: a fresh seed under the cached KEK. -/
def RotatedBlob (h : Hsm P) (seed : Bytes 32) (blob : KeyBlob) : Prop :=
  ∃ cfg kek salt nonce, h.config = some cfg ∧ h.wrapKek = some kek ∧
    (cfg.mode = .prod → h.wrapSalt = some salt) ∧
    blob = wrapSeed P kek seed (P.edPublic seed) (WrapType.ofMode cfg.mode) salt nonce

inductive Rotated (h : Hsm P) : HsmResponse → Hsm P → Prop
  | refused {resp : HsmResponse} {h' : Hsm P} (hrng : OnlyRng h h')
      (hresp : ∀ line, resp ≠ .generateKey true line) : Rotated h resp h'
  | failed {resp : HsmResponse} {drbg : Drbg P} {entropy : Entropy} {g : Flash} {blob : KeyBlob}
      (hresp : ∀ line, resp ≠ .generateKey true line)
      (hg : WriteStopped P KEY blob.toBytes h.flash g)
      (hfail : ∃ left, Fault.fail left ∈ h.flash.faults) :
      Rotated h resp { h with drbg := drbg, entropy := entropy, flash := g }
  | done {drbg : Drbg P} {entropy : Entropy} {g : Flash} {seed : Bytes 32} {blob : KeyBlob}
      {line : String} (hblob : RotatedBlob h seed blob) (hg : Wrote P KEY blob.toBytes h.flash g) :
      Rotated h (.generateKey true line)
        { h with
          drbg := drbg, entropy := entropy, flash := g, ca := some (CaKey.fromSeed seed)
          caPubkey := some (P.edPublic seed) }

inductive RotateCut (h : Hsm P) : Flash → Prop
  | writing {g : Flash} {seed : Bytes 32} {blob : KeyBlob} (hblob : RotatedBlob h seed blob)
      (hg : WriteStopped P KEY blob.toBytes h.flash g) : RotateCut h g

theorem rotationSalt_prod {wrapSalt : Option (Bytes 16)} {draw : Dev P (Bytes 16)}
    (h : rotationSalt .pinKek wrapSalt = some draw) : ∃ salt, wrapSalt = some salt ∧ draw = pure salt := by
  cases wrapSalt with
  | none => exact absurd h (by simp [rotationSalt])
  | some salt => exact ⟨salt, rfl, (Option.some.inj h).symm⟩

/-- Drawing the salt of a rotated blob; in prod it is the cached one. -/
theorem wp_rotationSalt {mode : Mode} {wrapSalt : Option (Bytes 16)} {draw : Dev P (Bytes 16)}
    (hdraw : rotationSalt (WrapType.ofMode mode) wrapSalt = some draw) (h : Hsm P) :
    Wp draw (fun salt h' => OnlyRng h h' ∧ (mode = .prod → wrapSalt = some salt))
      (fun _ _ => False) h := by
  cases mode with
  | dev =>
    refine (draws_rotationSalt hdraw h).mono ?_ fun _ _ he => he
    intro salt h' hrng
    exact ⟨hrng, by simp⟩
  | prod =>
    obtain ⟨salt, rfl, rfl⟩ := rotationSalt_prod hdraw
    exact ⟨rfl, fun _ => rfl⟩

theorem wp_generateKeyReady (h : Hsm P) :
    Wp (generateKeyReady h) (Rotated h) (fun e h' => e = .powerLoss ∧ RotateCut h h'.flash) h := by
  unfold generateKeyReady
  split
  · exact .refused rfl (by simp [HsmResponse.err])
  rename_i cfg hcfg
  split
  · exact .refused rfl (by simp [HsmResponse.err])
  rename_i kek hkek
  rw [Wp_bind]
  refine Wp.mono (draws_prepareKeygenEntropy h) ?_ fun _ _ he => he.elim
  intro r h₁ hrng₁
  split
  · exact .refused hrng₁ (by simp [HsmResponse.err])
  split
  · exact .refused hrng₁ (by simp [HsmResponse.err])
  rename_i draw hdraw
  rw [Wp_bind]
  refine Wp.mono (wp_generateCaKey h₁) ?_ fun _ _ he => he.elim
  rintro ⟨seed, ca⟩ h₂ ⟨hrng₂, hca⟩
  obtain rfl : ca = CaKey.fromSeed seed := hca
  rw [Wp_bind]
  refine Wp.mono (draws_randomArray 12 h₂) ?_ fun _ _ he => he.elim
  intro nonce h₃ hrng₃
  rw [Wp_bind]
  refine Wp.mono (wp_rotationSalt hdraw h₃) ?_ fun _ _ he => he.elim
  rintro salt h₄ ⟨hrng₄, hsalt⟩
  have hrng := trans_of OnlyRng (trans_of OnlyRng hrng₁ hrng₂) (trans_of OnlyRng hrng₃ hrng₄)
  obtain ⟨drbg, entropy, rfl⟩ := hrng.exists
  have hblob : RotatedBlob h seed
      (wrapSeed P kek seed (P.edPublic seed) (WrapType.ofMode cfg.mode) salt nonce) :=
    ⟨cfg, kek, salt, nonce, hcfg, hkek, hsalt, rfl⟩
  rw [Wp_bind]
  refine Wp.mono (wp_onFlash_write KEY (by rw [length_keyBlob]; norm_num) _) ?_ ?_
  case refine_2 =>
    rintro e h' ⟨he, hg, -⟩
    exact ⟨he, .writing hblob hg⟩
  rintro r _ ⟨g, rfl, ⟨rfl, hg⟩ | ⟨⟨e, rfl⟩, hg, hfail⟩⟩
  case inr => exact .failed (by simp [HsmResponse.err]) hg hfail
  exact .done hblob hg

/-- `generateKey` needs a ready device; otherwise it refuses. -/
theorem wp_generateKey (req : GenerateKeyReq) (h : Hsm P) :
    Wp (hsmGenerateKey req)
      (fun resp h' => h' = h ∧ (∀ line, resp ≠ .generateKey true line) ∨
        (h.state = .devReady ∨ h.state = .prodReady) ∧ Rotated h resp h')
      (fun e h' => e = .powerLoss ∧ (h.state = .devReady ∨ h.state = .prodReady) ∧
        RotateCut h h'.flash) h := by
  have hrefused : ∀ (code : ErrCode) (message : String),
      h = h ∧ (∀ line, HsmResponse.err code message ≠ .generateKey true line) ∨
        (h.state = .devReady ∨ h.state = .prodReady) ∧ Rotated h (.err code message) h :=
    fun code message => Or.inl ⟨rfl, by simp [HsmResponse.err]⟩
  have hready : h.state = .devReady ∨ h.state = .prodReady → Wp (generateKeyReady h)
      (fun resp h' => h' = h ∧ (∀ line, resp ≠ .generateKey true line) ∨
        (h.state = .devReady ∨ h.state = .prodReady) ∧ Rotated h resp h')
      (fun e h' => e = .powerLoss ∧ (h.state = .devReady ∨ h.state = .prodReady) ∧
        RotateCut h h'.flash) h := fun hstate =>
    (wp_generateKeyReady h).mono (fun _ _ hr => Or.inr ⟨hstate, hr⟩)
      fun _ _ he => ⟨he.1, hstate, he.2⟩
  unfold hsmGenerateKey
  rw [Wp_bind, Wp_get]
  split
  · exact hrefused _ _
  · exact hrefused _ _
  · exact hrefused _ _
  · rename_i hstate
    split
    · exact hrefused _ _
    · exact hready (Or.inl hstate)
  · rename_i hstate
    split
    · exact hrefused _ _
    · exact hready (Or.inr hstate)

/-! ### `init` -/

/-- The configuration a production init writes. -/
def prodConfig (req : InitReq) : DeviceConfig :=
  { mode := .prod, argon2 := DEFAULT_ARGON, maxRetries := req.maxRetries.getD 10
    wipeOnLockout := req.wipeOnLockout.getD false, fwVersion := fwVersionTriple }

/-- The blob a production init writes. -/
def InitBlob (P : Prims) (f : Flash) (req : InitReq) (seed : Bytes 32) (blob : KeyBlob) : Prop :=
  ∃ pin secret salt kek nonce, req.pin = some pin ∧ f.deviceSecret = .ok secret ∧
    pinKek P pin.bytes salt DEFAULT_ARGON secret = .ok kek ∧
    blob = wrapSeed P kek seed (P.edPublic seed) .pinKek salt nonce

inductive InitProd (req : InitReq) (h : Hsm P) : HsmResponse → Hsm P → Prop
  | refused {resp : HsmResponse} {h' : Hsm P} (hrng : OnlyRng h h')
      (hresp : resp ≠ .init true "prod") : InitProd req h resp h'
  | keyFailed {resp : HsmResponse} {drbg : Drbg P} {entropy : Entropy} {g : Flash} {blob : KeyBlob}
      (hresp : resp ≠ .init true "prod") (hg : WriteStopped P KEY blob.toBytes h.flash g)
      (hfail : ∃ left, Fault.fail left ∈ h.flash.faults) :
      InitProd req h resp { h with drbg := drbg, entropy := entropy, flash := g }
  | configFailed {resp : HsmResponse} {drbg : Drbg P} {entropy : Entropy} {g g' : Flash}
      {blob : KeyBlob} (hresp : resp ≠ .init true "prod") (hg : Wrote P KEY blob.toBytes h.flash g)
      (hg' : WriteStopped P CONFIG (prodConfig req).toBytes g g')
      (hfail : ∃ left, Fault.fail left ∈ h.flash.faults) :
      InitProd req h resp { h with drbg := drbg, entropy := entropy, flash := g' }
  | done {drbg : Drbg P} {entropy : Entropy} {g g' g'' : Flash} {seed : Bytes 32} {blob : KeyBlob}
      (hretries : (prodConfig req).maxRetries ≠ 0) (hblob : InitBlob P h.flash req seed blob)
      (hg : Wrote P KEY blob.toBytes h.flash g)
      (hg' : Wrote P CONFIG (prodConfig req).toBytes g g') (hreset : Resets g' g'') :
      InitProd req h (.init true "prod")
        { h with
          drbg := drbg, entropy := entropy, flash := g'', config := some (prodConfig req)
          caPubkey := some (P.edPublic seed), ca := none, wrapKek := none, wrapSalt := none
          pinBackoffUntilMs := 0, state := .prodLocked }

inductive InitProdCut (P : Prims) (req : InitReq) (f : Flash) : Flash → Prop
  | key {g : Flash} {blob : KeyBlob} (hg : WriteStopped P KEY blob.toBytes f g) :
      InitProdCut P req f g
  | config {g g' : Flash} {blob : KeyBlob} (hg : Wrote P KEY blob.toBytes f g)
      (hg' : WriteStopped P CONFIG (prodConfig req).toBytes g g') : InitProdCut P req f g'
  | resetting {g g' g'' : Flash} {blob : KeyBlob} (hg : Wrote P KEY blob.toBytes f g)
      (hg' : Wrote P CONFIG (prodConfig req).toBytes g g') (hreset : Resets g' g'') :
      InitProdCut P req f g''

/-- Where the power can go in a production init, with the blob it had made. -/
inductive InitProdWriting (P : Prims) (req : InitReq) (f : Flash) (blob : KeyBlob) : Flash → Prop
  | key {g : Flash} (hg : WriteStopped P KEY blob.toBytes f g) : InitProdWriting P req f blob g
  | config {g g' : Flash} (hg : Wrote P KEY blob.toBytes f g)
      (hg' : WriteStopped P CONFIG (prodConfig req).toBytes g g') : InitProdWriting P req f blob g'
  | resetting {g g' g'' : Flash} (hg : Wrote P KEY blob.toBytes f g)
      (hg' : Wrote P CONFIG (prodConfig req).toBytes g g') (hreset : Resets g' g'') :
      InitProdWriting P req f blob g''

theorem InitProdWriting.cut {req : InitReq} {f g : Flash} {blob : KeyBlob}
    (hcut : InitProdWriting P req f blob g) : InitProdCut P req f g := by
  cases hcut with
  | key hg => exact .key hg
  | config hg hg' => exact .config hg hg'
  | resetting hg hg' hreset => exact .resetting hg hg' hreset

theorem wp_initProd_writing (req : InitReq) (h : Hsm P) :
    Wp (initProd req) (InitProd req h)
      (fun e h' => e = .powerLoss ∧ ∃ seed blob, InitBlob P h.flash req seed blob ∧
        InitProdWriting P req h.flash blob h'.flash) h := by
  unfold initProd
  split
  · exact .refused rfl (by simp [HsmResponse.err])
  rename_i pin hpin
  split
  · exact .refused rfl (by simp [HsmResponse.err])
  rw [Wp_bind]
  refine Wp.mono (draws_prepareKeygenEntropy h) ?_ fun _ _ he => he.elim
  intro r h₁ hrng₁
  split
  · exact .refused hrng₁ (by simp [HsmResponse.err])
  rw [Wp_bind]
  refine Wp.mono (draws_randomArray 16 h₁) ?_ fun _ _ he => he.elim
  intro salt h₂ hrng₂
  have hrng₁₂ := trans_of OnlyRng hrng₁ hrng₂
  dsimp only
  split
  · exact .refused hrng₁₂ (by simp [HsmResponse.err])
  rename_i hretries
  rw [Wp_bind, Wp_get]
  split
  · exact .refused hrng₁₂ (by simp [HsmResponse.err])
  rename_i secret hsecret
  rw [Wp_bind]
  refine Wp.mono (wp_generateCaKey h₂) ?_ fun _ _ he => he.elim
  rintro ⟨seed, ca⟩ h₃ ⟨hrng₃, hca⟩
  obtain rfl : ca = CaKey.fromSeed seed := hca
  have hrng₁₃ := trans_of OnlyRng hrng₁₂ hrng₃
  dsimp only
  split
  · exact .refused hrng₁₃ (by simp [HsmResponse.err])
  rename_i kek hkek
  rw [Wp_bind]
  refine Wp.mono (draws_randomArray 12 h₃) ?_ fun _ _ he => he.elim
  intro nonce h₄ hrng₄
  obtain ⟨drbg, entropy, rfl⟩ := (trans_of OnlyRng hrng₁₃ hrng₄).exists
  have hblob : InitBlob P h.flash req seed
      (wrapSeed P kek seed (P.edPublic seed) .pinKek salt nonce) := by
    refine ⟨pin, secret, salt, kek, nonce, hpin, ?_, hkek, rfl⟩
    rw [← hsecret, hrng₁₂]
  rw [Wp_bind]
  refine Wp.mono (wp_onFlash_write KEY (by rw [length_keyBlob]; norm_num) _) ?_ ?_
  case refine_2 =>
    rintro e h' ⟨he, hg, -⟩
    exact ⟨he, seed, _, hblob, .key hg⟩
  rintro r _ ⟨g, rfl, ⟨rfl, hg⟩ | ⟨⟨e, rfl⟩, hg, hfail⟩⟩
  case inr => exact .keyFailed (by simp [HsmResponse.err]) hg hfail
  dsimp only
  rw [Wp_bind]
  have hlength : (prodConfig req).toBytes.length ≤ 4080 := by
    rw [length_deviceConfig]
    norm_num
  refine Wp.mono (wp_onFlash_write CONFIG hlength _) ?_ ?_
  case refine_2 =>
    rintro e h' ⟨he, hg', -⟩
    exact ⟨he, seed, _, hblob, .config hg hg'⟩
  rintro r _ ⟨g', rfl, ⟨rfl, hg'⟩ | ⟨⟨e, rfl⟩, hg', left, hleft⟩⟩
  case inr =>
    exact .configFailed (by simp [HsmResponse.err]) hg hg' ⟨left, hg.within.faults.subset hleft⟩
  dsimp only
  rw [Wp_bind]
  refine Wp.mono (wp_resetPinCounter 1 _) ?_ ?_
  case refine_2 =>
    rintro e h' ⟨he, hreset⟩
    exact ⟨he, seed, _, hblob, .resetting hg hg' hreset⟩
  rintro _ _ ⟨g'', until_, hreset, rfl⟩
  exact .done hretries hblob hg hg' hreset

theorem wp_initProd (req : InitReq) (h : Hsm P) :
    Wp (initProd req) (InitProd req h)
      (fun e h' => e = .powerLoss ∧ InitProdCut P req h.flash h'.flash) h := by
  refine (wp_initProd_writing req h).mono (fun _ _ hi => hi) ?_
  rintro e h' ⟨he, seed, blob, -, hcut⟩
  exact ⟨he, hcut.cut⟩

/-- The configuration a development init writes. -/
def devConfig : DeviceConfig :=
  { mode := .dev, argon2 := DEFAULT_ARGON, maxRetries := 0, wipeOnLockout := false,
    fwVersion := fwVersionTriple }

inductive InitDev (h : Hsm P) : HsmResponse → Hsm P → Prop
  | refused {resp : HsmResponse} : InitDev h resp h
  | failed {resp : HsmResponse} {g : Flash}
      (hg : WriteStopped P CONFIG devConfig.toBytes h.flash g)
      (hfail : ∃ left, Fault.fail left ∈ h.flash.faults) : InitDev h resp { h with flash := g }
  | done {g : Flash} {kek : Bytes 32} (hg : Wrote P CONFIG devConfig.toBytes h.flash g) :
      InitDev h (.init true "dev")
        { h with flash := g, config := some devConfig, state := .devReady, wrapKek := some kek }

theorem wp_initDev (h : Hsm P) :
    Wp initDev (InitDev h)
      (fun e h' => e = .powerLoss ∧
        WriteStopped P CONFIG devConfig.toBytes h.flash h'.flash) h := by
  unfold initDev
  rw [Wp_bind, Wp_get]
  split
  · exact .refused
  dsimp only
  rw [Wp_bind]
  have hlength : devConfig.toBytes.length ≤ 4080 := by
    rw [length_deviceConfig]
    norm_num
  refine Wp.mono (wp_onFlash_write CONFIG hlength h) ?_ fun _ _ he => ⟨he.1, he.2.1⟩
  rintro r _ ⟨g, rfl, ⟨rfl, hg⟩ | ⟨⟨e, rfl⟩, hg, hfail⟩⟩
  case inr => exact .failed hg hfail
  exact .done hg

/-- `init` only acts without a configuration. -/
theorem wp_init (req : InitReq) (h : Hsm P) :
    Wp (hsmInit req)
      (fun resp h' => h' = h ∨ h.config = none ∧
        (req.mode = modeDev ∧ InitDev h resp h' ∨ req.mode = modeProd ∧ InitProd req h resp h'))
      (fun e h' => e = .powerLoss ∧ h.config = none ∧
        (req.mode = modeDev ∧ WriteStopped P CONFIG devConfig.toBytes h.flash h'.flash ∨
          req.mode = modeProd ∧ InitProdCut P req h.flash h'.flash)) h := by
  unfold hsmInit
  rw [Wp_bind, Wp_get]
  split
  · exact Or.inl rfl
  rename_i hconfig
  have hnone : h.config = none := by simpa using hconfig
  split
  · rename_i hmode
    refine (wp_initDev h).mono (fun _ _ hi => Or.inr ⟨hnone, Or.inl ⟨hmode, hi⟩⟩) ?_
    rintro e h' ⟨he, hcut⟩
    exact ⟨he, hnone, Or.inl ⟨hmode, hcut⟩⟩
  split
  · rename_i hmode
    refine (wp_initProd req h).mono (fun _ _ hi => Or.inr ⟨hnone, Or.inr ⟨hmode, hi⟩⟩) ?_
    rintro e h' ⟨he, hcut⟩
    exact ⟨he, hnone, Or.inr ⟨hmode, hcut⟩⟩
  · exact Or.inl rfl

/-! ### `lock` -/

theorem wp_lock (h : Hsm P) :
    Wp hsmLock
      (fun resp h' =>
        h.state = .prodReady ∧ resp = .lock true ∧
          h' = { h.dropLiveSecrets with state := .prodLocked } ∨
        (h.state = .prodLocked ∨ h.state = .lockedOut) ∧ resp = .lock true ∧
          h' = h.dropLiveSecrets ∨
        resp ≠ .lock true ∧ h' = h)
      (fun _ _ => False) h := by
  unfold hsmLock
  rw [Wp_bind, Wp_get]
  split
  · rename_i hstate
    exact Or.inl ⟨hstate, rfl, rfl⟩
  · rename_i hstate
    exact Or.inr (Or.inl ⟨Or.inl hstate, rfl, rfl⟩)
  · rename_i hstate
    exact Or.inr (Or.inl ⟨Or.inr hstate, rfl, rfl⟩)
  · exact Or.inr (Or.inr ⟨by simp [HsmResponse.err], rfl⟩)
  · exact Or.inr (Or.inr ⟨by simp [HsmResponse.err], rfl⟩)

/-! ### `setTime` -/

/-- Whether `setTime` takes the value, before anything is written. -/
def Hsm.acceptsTime (h : Hsm P) (unixSeconds : Int64) : Bool :=
  !h.trustedTimeFloorUnavailable && !h.floorRejects unixSeconds &&
    (h.clock.set h.mono unixSeconds).isSome

inductive TimeSet (v : Int64) (h : Hsm P) : HsmResponse → Hsm P → Prop
  | refused {e : HsmError} (hno : h.acceptsTime v = false) : TimeSet v h (.error e) h
  | kept {previousSet : Bool} {clock : Clock} (hyes : h.acceptsTime v = true)
      (hset : h.clock.set h.mono v = some (previousSet, clock))
      (hfloor : h.nextFloor clock v = h.trustedTimeFloor) :
      TimeSet v h (.setTime true h.nowMs previousSet) { h with clock := clock }
  | wrote {previousSet : Bool} {clock : Clock} {floor : Int64} {g : Flash}
      (hyes : h.acceptsTime v = true) (hset : h.clock.set h.mono v = some (previousSet, clock))
      (hfloor : h.nextFloor clock v = some floor) (hne : some floor ≠ h.trustedTimeFloor)
      (hg : Wrote P TIME_FLOOR (i64ToBe floor) h.flash g) :
      TimeSet v h (.setTime true h.nowMs previousSet)
        { h with flash := g, clock := clock, trustedTimeFloor := some floor }
  | failed {previousSet : Bool} {clock : Clock} {floor : Int64} {g : Flash}
      (hyes : h.acceptsTime v = true) (hset : h.clock.set h.mono v = some (previousSet, clock))
      (hfloor : h.nextFloor clock v = some floor)
      (hg : WriteStopped P TIME_FLOOR (i64ToBe floor) h.flash g)
      (hfail : ∃ left, Fault.fail left ∈ h.flash.faults) :
      TimeSet v h (.err .flash "failed to persist trusted time floor") { h with flash := g }

/-- Where `setTime` can be cut: in the write of a new floor. -/
inductive SetTimeCut (v : Int64) (h : Hsm P) : Flash → Prop
  | writing {previousSet : Bool} {clock : Clock} {floor : Int64} {g : Flash}
      (hyes : h.acceptsTime v = true) (hset : h.clock.set h.mono v = some (previousSet, clock))
      (hfloor : h.nextFloor clock v = some floor) (hne : some floor ≠ h.trustedTimeFloor)
      (hg : WriteStopped P TIME_FLOOR (i64ToBe floor) h.flash g) : SetTimeCut v h g

/-- A floor that changes is a floor that is there, so `expect` never fires. -/
theorem Hsm.nextFloor_isSome {h : Hsm P} {clock : Clock} {v : Int64}
    (hne : h.nextFloor clock v ≠ h.trustedTimeFloor) : (h.nextFloor clock v).isSome := by
  unfold Hsm.nextFloor at hne ⊢
  by_cases hfirst : (!h.clock.isSet &&
      (h.trustedTimeFloor.isNone || h.physicalRecoveryAuthorized)) = true
  · rw [if_pos hfirst]
    rfl
  · rw [if_neg hfirst] at hne ⊢
    cases hfloor : h.trustedTimeFloor with
    | none => simp [hfloor] at hne
    | some floor =>
      cases clock.trustedNow h.mono with
      | none => rfl
      | some now =>
        dsimp only
        split <;> rfl

theorem wp_setTime (req : SetTimeReq) (h : Hsm P) :
    Wp (hsmSetTime req) (TimeSet req.unixSeconds h)
      (fun e h' => e = .powerLoss ∧ HasCut h.flash.faults ∧
        SetTimeCut req.unixSeconds h h'.flash) h := by
  unfold hsmSetTime
  rw [Wp_bind, Wp_get]
  split
  · rename_i hun
    exact .refused (by simp [Hsm.acceptsTime, hun])
  rename_i hun
  split
  · rename_i hrejects
    exact .refused (by simp [Hsm.acceptsTime, hrejects])
  rename_i hrejects
  split
  · rename_i hset
    exact .refused (by simp [Hsm.acceptsTime, hset])
  rename_i previousSet clock hset
  have hyes : h.acceptsTime req.unixSeconds = true := by
    simp [Hsm.acceptsTime, hun, hrejects, hset]
  dsimp only
  split
  · rename_i hne
    split
    · rename_i hnone
      have hsome := Hsm.nextFloor_isSome hne
      rw [hnone] at hsome
      exact absurd hsome (by simp)
    rename_i floor hfloor
    rw [hfloor] at hne
    rw [Wp_bind]
    refine Wp.mono (wp_onFlash_write TIME_FLOOR (by simp) h) ?_ ?_
    case refine_2 =>
      rintro e h' ⟨he, hg, hcut⟩
      exact ⟨he, hcut, .writing hyes hset hfloor hne hg⟩
    rintro r _ ⟨g, rfl, ⟨rfl, hg⟩ | ⟨⟨e, rfl⟩, hg, hfail⟩⟩
    case inr => exact .failed hyes hset hfloor hg hfail
    rw [hfloor]
    exact .wrote hyes hset hfloor hne hg
  · rename_i heq
    have hfloor : h.nextFloor clock req.unixSeconds = h.trustedTimeFloor := not_not.mp heq
    rw [Wp_bind, Wp_modify]
    rw [hfloor]
    exact .kept hyes hset hfloor

/-! ### `factoryReset` -/

/-- Every region, but no KEK is tried. -/
def AnyRegion (r : Option Region) : Prop := r ≠ none

/-- What the erase phase does to the flash. -/
structure Erases (f g : Flash) : Prop where
  within : FlashWithin AnyRegion f g
  noGuess : NoGuess f g

instance : IsPreorder Flash Erases where
  refl f := ⟨refl_of (FlashWithin _) f, refl_of NoGuess f⟩
  trans _ _ _ hfg hgh :=
    ⟨trans_of (FlashWithin _) hfg.within hgh.within, trans_of NoGuess hfg.noGuess hgh.noGuess⟩

theorem Erases.of_within {R : Option Region → Prop} {f g : Flash} (h : FlashWithin R f g)
    (hpin : ¬ R (some .pinCounter)) (hnone : ¬ R none) : Erases f g := by
  refine ⟨h.mono fun r hr => ?_, .of_within h hpin hnone⟩
  rintro rfl
  exact hnone hr

theorem Erases.of_resets {f g : Flash} (h : Resets f g) : Erases f g := by
  refine ⟨h.within.mono fun r hr => ?_, h.noGuess⟩
  rw [hr]
  exact Option.some_ne_none _

theorem wp_onFlash_pinReset (h : Hsm P) :
    Wp (onFlash Pin.reset) (fun _ h' => ∃ g, h' = { h with flash := g } ∧ Resets h.flash g)
      (fun e h' => e = .powerLoss ∧ ∃ g, h' = { h with flash := g } ∧ Resets h.flash g) h := by
  rw [Wp_onFlash]
  refine (wp_pinReset h.flash).mono (fun _ g hg => ⟨g, rfl, hg⟩) ?_
  intro e g hg
  cases e with
  | hal e => exact ⟨g, rfl, hg⟩
  | powerLoss => exact ⟨rfl, g, rfl, hg⟩

theorem runs_onFlash_eraseBoth (pair : AbPair) (h : Hsm P) :
    Wp (onFlash pair.eraseBoth)
      (fun r h' => ∃ g, h' = { h with flash := g } ∧
        FlashWithin (fun r => r = some pair.a ∨ r = some pair.b) h.flash g ∧
        (r.isOk → g.sector pair.a = Sector.erased ∧ g.sector pair.b = Sector.erased))
      (fun e h' => e = .powerLoss ∧ ∃ g, h' = { h with flash := g } ∧
        FlashWithin (fun r => r = some pair.a ∨ r = some pair.b) h.flash g) h := by
  rw [Wp_onFlash]
  refine Wp.mono (Wp.and (runs_eraseBoth pair h.flash)
    (stays_eraseBoth (R := fun r => r = some pair.a ∨ r = some pair.b) (Or.inl rfl) (Or.inr rfl)
      h.flash)) ?_ ?_
  · rintro _ g ⟨⟨hg, -⟩, hwithin⟩
    refine ⟨g, rfl, hwithin, fun _ => ?_⟩
    rw [hg]
    refine ⟨?_, Function.update_self _ _ _⟩
    rw [Function.update_of_ne pair.distinct, Function.update_self]
  · rintro e g ⟨-, hwithin⟩
    cases e with
    | hal e => exact ⟨g, rfl, hwithin, by simp [Except.isOk, Except.toBool]⟩
    | powerLoss => exact ⟨rfl, g, rfl, hwithin⟩

/-- The erase phase touches flash only; when it succeeds the TIME pair is blank. -/
theorem wp_eraseEverything (h : Hsm P) :
    Wp eraseEverything
      (fun gone h' => ∃ g, h' = { h with flash := g } ∧ Erases h.flash g ∧
        (gone = true → g.sector .timeA = Sector.erased ∧ g.sector .timeB = Sector.erased))
      (fun e h' => e = .powerLoss ∧ Erases h.flash h'.flash) h := by
  unfold eraseEverything
  rw [Wp_bind]
  refine Wp.mono (flashOnly_eraseKeyVerified 2 h) ?_ ?_
  case refine_2 =>
    rintro e _ ⟨he, g, rfl, hg⟩
    exact ⟨he, .of_within hg (by simp [KeyRegion]) (by simp [KeyRegion])⟩
  rintro keyGone _ ⟨g₁, rfl, hg₁⟩
  have h₁ := Erases.of_within hg₁ (by simp [KeyRegion]) (by simp [KeyRegion])
  rw [Wp_bind]
  refine Wp.mono (runs_onFlash_eraseBoth CONFIG _) ?_ ?_
  case refine_2 =>
    rintro e _ ⟨he, g, rfl, hg⟩
    exact ⟨he, trans_of Erases h₁ (.of_within hg (by simp [CONFIG]) (by simp))⟩
  rintro cfgR _ ⟨g₂, rfl, hg₂, -⟩
  have h₂ := trans_of Erases h₁ (.of_within hg₂ (by simp [CONFIG]) (by simp))
  rw [Wp_bind]
  refine Wp.mono (runs_onFlash_eraseBoth TIME_FLOOR _) ?_ ?_
  case refine_2 =>
    rintro e _ ⟨he, g, rfl, hg⟩
    exact ⟨he, trans_of Erases h₂ (.of_within hg (by simp [TIME_FLOOR]) (by simp))⟩
  rintro timeR _ ⟨g₃, rfl, hg₃, htime⟩
  have h₃ := trans_of Erases h₂ (.of_within hg₃ (by simp [TIME_FLOOR]) (by simp))
  rw [Wp_bind]
  refine Wp.mono (wp_onFlash_pinReset _) ?_ ?_
  case refine_2 =>
    rintro e _ ⟨he, g, rfl, hg⟩
    exact ⟨he, trans_of Erases h₃ (.of_resets hg)⟩
  rintro pinR _ ⟨g₄, rfl, hg₄⟩
  have h₄ := trans_of Erases h₃ (.of_resets hg₄)
  rw [Wp_bind]
  refine Wp.mono (FlashOnly.onFlash (stays_readLatest (R := fun _ => False) _ _) _) ?_ ?_
  case refine_2 =>
    rintro e _ ⟨he, g, rfl, hg⟩
    exact ⟨he, trans_of Erases h₄ (.of_within hg not_false not_false)⟩
  rintro cfgLeft _ ⟨g₅, rfl, hg₅⟩
  have h₅ := trans_of Erases h₄ (.of_within hg₅ not_false not_false)
  rw [Wp_bind]
  refine Wp.mono (FlashOnly.onFlash (stays_readLatest (R := fun _ => False) _ _) _) ?_ ?_
  case refine_2 =>
    rintro e _ ⟨he, g, rfl, hg⟩
    exact ⟨he, trans_of Erases h₅ (.of_within hg not_false not_false)⟩
  rintro timeLeft _ ⟨g₆, rfl, hg₆⟩
  refine ⟨g₆, rfl, trans_of Erases h₅ (.of_within hg₆ not_false not_false), ?_⟩
  intro hgone
  have htimeOk : timeR.isOk = true := by
    simp only [Bool.and_eq_true] at hgone
    exact hgone.1.1.1.2
  -- after the TIME pair only the counter sector was touched
  have hsame : ∀ r : Region, r ≠ .pinCounter → g₆.sector r = g₃.sector r := by
    intro r hr
    rw [hg₆.sector_eq, hg₅.sector_eq]
    exact hg₄.within.sector r fun heq => hr (Option.some.inj heq)
  rw [hsame .timeA (by decide), hsame .timeB (by decide)]
  exact htime htimeOk

/-- Without faults a flash program returns. -/
theorem wp_onFlash_faultless {α : Type} {m : FlashM α} {post : α → Flash → Prop} {h : Hsm P}
    (hm : Runs m h.flash post) (hfaults : Faultless h.flash.faults) :
    Wp (onFlash m) (fun r h' => ∃ a g, r = .ok a ∧ h' = { h with flash := g } ∧ post a g ∧
      Faultless g.faults) (fun _ _ => False) h := by
  rw [Wp_onFlash]
  refine Wp.mono hm ?_ ?_
  · rintro a g ⟨hpost, hsuffix⟩
    exact ⟨a, g, rfl, rfl, hpost, fun fault hfault => hfaults fault (hsuffix.subset hfault)⟩
  · intro e g hjust
    cases e with
    | hal e => exact absurd hjust (not_exists.mpr hfaults.no_fail)
    | powerLoss => exact hfaults.not_hasCut hjust

theorem latest_erased {pair : AbPair} {image : Region → Sector}
    (ha : image pair.a = Sector.erased) (hb : image pair.b = Sector.erased) :
    pair.latest P.crc32 image = none := by
  unfold AbPair.latest AbPair.copies
  rw [ha, hb, parseRecord_erased]
  rfl

theorem eraseKeyVerified_faultless (tries : Nat) {h : Hsm P} (hfaults : Faultless h.flash.faults) :
    Wp (eraseKeyVerified (tries + 1)) (fun gone h' => gone = true ∧ ∃ g, h' = { h with flash := g } ∧
      Faultless g.faults ∧ KEY.latest P.crc32 g.sector = none) (fun _ _ => False) h := by
  unfold eraseKeyVerified
  rw [Wp_bind]
  change Wp _ _ _ { h with flash := h.flash.log .wipe }
  rw [Wp_bind]
  refine Wp.mono (wp_onFlash_faultless (runs_eraseBoth KEY _) hfaults) ?_ fun _ _ he => he
  rintro _ _ ⟨_, g, rfl, rfl, hg, hfaults₁⟩
  rw [Wp_bind]
  refine Wp.mono (wp_onFlash_faultless (runs_readLatest P.crc32 KEY g) hfaults₁) ?_ fun _ _ he => he
  rintro _ _ ⟨_, g', rfl, rfl, ⟨rfl, hg'⟩, hfaults₂⟩
  have hnone : KEY.latest P.crc32 g.sector = none := by
    refine latest_erased ?_ ?_
    · rw [hg, Function.update_of_ne KEY.distinct, Function.update_self]
    · rw [hg, Function.update_self]
  rw [hnone]
  refine ⟨rfl, g', rfl, hfaults₂, ?_⟩
  rw [hg']
  exact hnone

/-- Without faults the erase phase succeeds. -/
theorem eraseEverything_faultless {h : Hsm P} (hfaults : Faultless h.flash.faults) :
    Wp eraseEverything (fun gone _ => gone = true) (fun _ _ => False) h := by
  unfold eraseEverything
  rw [Wp_bind]
  refine Wp.mono (eraseKeyVerified_faultless 1 hfaults) ?_ fun _ _ he => he
  rintro _ _ ⟨rfl, g, rfl, hfaults, -⟩
  rw [Wp_bind]
  refine Wp.mono (wp_onFlash_faultless (runs_eraseBoth CONFIG _) hfaults) ?_ fun _ _ he => he
  rintro _ _ ⟨_, g₁, rfl, rfl, hg₁, hfaults⟩
  rw [Wp_bind]
  refine Wp.mono (wp_onFlash_faultless (runs_eraseBoth TIME_FLOOR _) hfaults) ?_ fun _ _ he => he
  rintro _ _ ⟨_, g₂, rfl, rfl, hg₂, hfaults⟩
  rw [Wp_bind]
  refine Wp.mono (wp_onFlash_faultless (runs_erase .pinCounter _) hfaults) ?_ fun _ _ he => he
  rintro _ _ ⟨_, g₃, rfl, rfl, hg₃, hfaults⟩
  rw [Wp_bind]
  refine Wp.mono (wp_onFlash_faultless (runs_readLatest P.crc32 CONFIG _) hfaults) ?_
    fun _ _ he => he
  rintro _ _ ⟨_, g₄, rfl, rfl, ⟨rfl, hg₄⟩, hfaults⟩
  rw [Wp_bind]
  refine Wp.mono (wp_onFlash_faultless (runs_readLatest P.crc32 TIME_FLOOR _) hfaults) ?_
    fun _ _ he => he
  rintro _ _ ⟨_, g₅, rfl, rfl, ⟨rfl, -⟩, -⟩
  have hconfig : CONFIG.latest P.crc32 g₃.sector = none := by
    refine latest_erased ?_ ?_ <;> simp [hg₃, hg₂, hg₁, CONFIG, TIME_FLOOR]
  have htime : TIME_FLOOR.latest P.crc32 g₄.sector = none := by
    refine latest_erased ?_ ?_ <;> simp [hg₄, hg₃, hg₂, TIME_FLOOR]
  rw [Wp_pure, hconfig, htime]
  simp [Except.isOk, Except.toBool]

/-- A reset that went through: the session of a blank device, but for its clock. -/
def Hsm.afterReset (h : Hsm P) (g : Flash) : Hsm P :=
  { h.dropLiveSecrets with
    flash := g, caPubkey := none, config := none, trustedTimeFloor := none
    trustedTimeFloorUnavailable := false, pinBackoffUntilMs := 0, state := .uninitialized }

inductive FactoryReset (req : FactoryResetReq) (h : Hsm P) : HsmResponse → Hsm P → Prop
  | refused {resp : HsmResponse} (hresp : resp ≠ .factoryReset true) : FactoryReset req h resp h
  | gated {resp : HsmResponse} {h' : Hsm P} (hgate : Gate req.pin h (some resp) h') :
      FactoryReset req h resp h'
  | erased {h₁ : Hsm P} {g : Flash} (hgate : Gate req.pin h none h₁)
      (hg : Erases h₁.flash g) (hA : g.sector .timeA = Sector.erased)
      (hB : g.sector .timeB = Sector.erased) :
      FactoryReset req h (.factoryReset true) (h₁.afterReset g)
  | incomplete {resp : HsmResponse} {h₁ : Hsm P} {g g' : Flash} {cfg : Option DeviceConfig}
      {keyblob : Option KeyBlob} {time : Option Int64 × Bool} {attempts : Nat}
      (hresp : resp ≠ .factoryReset true) (hgate : Gate req.pin h none h₁)
      (hg : Erases h₁.flash g) (hg' : FlashWithin (fun _ => False) g g')
      (hread : Clean g g' → ReadAll P g.sector cfg keyblob time attempts)
      (hfault : ¬ Faultless h₁.flash.faults) :
      FactoryReset req h resp
        (Hsm.loaded { h₁.dropLiveSecrets with flash := g' } cfg keyblob time attempts)

/-- Where a factory reset can stop: at its gate, or while it erases or reloads. -/
def FactoryResetStop (req : FactoryResetReq) (h : Hsm P) (e : Halt) (h' : Hsm P) : Prop :=
  GateStop req.pin h e h' ∨
    e = .powerLoss ∧ ∃ h₁, Gate req.pin h none h₁ ∧ Erases h₁.flash h'.flash

theorem wp_factoryReset (req : FactoryResetReq) (h : Hsm P) :
    Wp (hsmFactoryReset req) (FactoryReset req h) (FactoryResetStop req h) h := by
  unfold hsmFactoryReset
  split
  · exact .refused (by simp [HsmResponse.err])
  rw [Wp_bind]
  refine Wp.mono (wp_destructiveGate _ _ h) ?_ fun _ _ he => Or.inl he
  intro r h₁ hgate
  cases r with
  | some resp => exact .gated hgate
  | none =>
  dsimp only
  rw [Wp_bind, Wp_modify, Wp_bind]
  have hphase : Wp eraseEverything
      (fun gone h' => (∃ g, h' = { h₁.dropLiveSecrets with flash := g } ∧ Erases h₁.flash g ∧
        (gone = true → g.sector .timeA = Sector.erased ∧ g.sector .timeB = Sector.erased)) ∧
        (gone = false → ¬ Faultless h₁.flash.faults))
      (fun e h' => e = .powerLoss ∧ Erases h₁.flash h'.flash) h₁.dropLiveSecrets := by
    by_cases hfaults : Faultless h₁.flash.faults
    · refine Wp.mono (Wp.and (wp_eraseEverything h₁.dropLiveSecrets)
        (eraseEverything_faultless hfaults)) ?_ fun _ _ he => he.2.elim
      rintro gone h' ⟨hg, rfl⟩
      exact ⟨hg, by simp⟩
    · exact Wp.mono (wp_eraseEverything h₁.dropLiveSecrets) (fun _ _ hg => ⟨hg, fun _ => hfaults⟩)
        fun _ _ he => he
  refine Wp.mono hphase ?_ ?_
  case refine_2 =>
    rintro e h' ⟨he, hg⟩
    exact Or.inr ⟨he, h₁, hgate, hg⟩
  rintro gone _ ⟨⟨g, rfl, hg, hblank⟩, hfault⟩
  cases gone with
  | true =>
    obtain ⟨hA, hB⟩ := hblank rfl
    change FactoryReset req h (.factoryReset true) (h₁.afterReset g)
    exact .erased hgate hg hA hB
  | false =>
    rw [if_neg (by simp), Wp_bind]
    refine Wp.mono (wp_loadFromFlash _) ?_ ?_
    · rintro _ _ ⟨g', cfg, keyblob, time, attempts, rfl, hg', hread⟩
      change FactoryReset req h _
        (Hsm.loaded { h₁.dropLiveSecrets with flash := g' } cfg keyblob time attempts)
      exact .incomplete (by simp [HsmResponse.err]) hgate hg hg' hread (hfault rfl)
    · rintro e h' ⟨he, -, hg'⟩
      exact Or.inr ⟨he, h₁, hgate, trans_of Erases hg (.of_within hg' not_false not_false)⟩

/-! ### Lines as commands -/

/-- One management command. -/
inductive Command where
  | init (req : InitReq)
  | generateKey (req : GenerateKeyReq)
  | getPublicKey
  | unlock (req : UnlockReq)
  | lock
  | setTime (req : SetTimeReq)
  | status
  | changePin (req : ChangePinReq)
  | addEntropy (req : AddEntropyReq)
  | selfTest
  | factoryReset (req : FactoryResetReq)
  | rebootBootloader (req : RebootBootloaderReq)

def Command.run : Command → Dev P HsmResponse
  | .init req => hsmInit req
  | .generateKey req => hsmGenerateKey req
  | .getPublicKey => hsmGetPublicKey
  | .unlock req => hsmUnlock req
  | .lock => hsmLock
  | .setTime req => hsmSetTime req
  | .status => hsmStatus
  | .changePin req => hsmChangePin req
  | .addEntropy req => hsmAddEntropy req
  | .selfTest => hsmSelfTest
  | .factoryReset req => hsmFactoryReset req
  | .rebootBootloader req => hsmRebootBootloader req

/-- The command an envelope carries, if it carries exactly one. -/
def HsmRequest.command (r : HsmRequest) : Option Command :=
  if r.commands ≠ 1 then none
  else (r.init.map .init).or <| (r.generateKey.map .generateKey).or <|
    (r.getPublicKey.map fun _ => .getPublicKey).or <| (r.unlock.map .unlock).or <|
    (r.lock.map fun _ => .lock).or <| (r.setTime.map .setTime).or <|
    (r.status.map fun _ => .status).or <| (r.changePin.map .changePin).or <|
    (r.addEntropy.map .addEntropy).or <| (r.selfTest.map fun _ => .selfTest).or <|
    (r.factoryReset.map .factoryReset).or <| r.rebootBootloader.map .rebootBootloader

theorem handleHsm_eq (r : HsmRequest) :
    (handleHsm r : Dev P HsmResponse) =
      match r.command with
      | some c => c.run
      | none => pure exactlyOne := by
  unfold handleHsm HsmRequest.command
  split
  · rfl
  cases r.init with
  | some _ => rfl
  | none =>
  cases r.generateKey with
  | some _ => rfl
  | none =>
  cases r.getPublicKey with
  | some _ => rfl
  | none =>
  cases r.unlock with
  | some _ => rfl
  | none =>
  cases r.lock with
  | some _ => rfl
  | none =>
  cases r.setTime with
  | some _ => rfl
  | none =>
  cases r.status with
  | some _ => rfl
  | none =>
  cases r.changePin with
  | some _ => rfl
  | none =>
  cases r.addEntropy with
  | some _ => rfl
  | none =>
  cases r.selfTest with
  | some _ => rfl
  | none =>
  cases r.factoryReset with
  | some _ => rfl
  | none =>
  cases r.rebootBootloader with
  | some _ => rfl
  | none => rfl

/-- The command a request line makes the device run. -/
def lineCommand (P : Prims) (line : Octets) : Option Command :=
  match parseLine (P := P) line with
  | .error _ => none
  | .ok r => if r.variants > 1 then none else r.hsm.bind HsmRequest.command

/-- With one variant set, and that one `hsm`, the request goes to the envelope. -/
theorem handleRequest_hsm {r : Request} {q : HsmRequest} (hhsm : r.hsm = some q)
    (hvariants : ¬ r.variants > 1) :
    (handleRequest r : Dev P Response) = do
      let resp ← handleHsm q
      return .hsm resp := by
  unfold handleRequest
  rw [if_neg hvariants]
  unfold Request.variants at hvariants
  rw [hhsm] at hvariants ⊢
  cases hload : r.loadKeySigner <;> cases hsign : r.signSshKey <;> cases hping : r.ping <;>
    cases hmetrics : r.getEnclaveMetrics <;>
    simp [hload, hsign, hping, hmetrics] at hvariants ⊢

/-- A line that carries a command is served by it. -/
theorem handle_command {line : Octets} {c : Command} (hc : lineCommand P line = some c) :
    (handle line : Dev P Response) = do
      let resp ← c.run
      return .hsm resp := by
  unfold lineCommand at hc
  unfold handle
  cases hparse : parseLine (P := P) line with
  | error e => simp [hparse] at hc
  | ok r =>
    rw [hparse] at hc
    dsimp only at hc ⊢
    split at hc
    · exact absurd hc (by simp)
    rename_i hvariants
    cases hhsm : r.hsm with
    | none => simp [hhsm] at hc
    | some q =>
      have hcommand : q.command = some c := by
        rw [hhsm] at hc
        exact hc
      rw [handleRequest_hsm hhsm hvariants, handleHsm_eq, hcommand]

/-- Any other line at most draws from the generator. -/
theorem draws_handle {line : Octets} (hc : lineCommand P line = none) :
    Draws (handle line : Dev P Response) := by
  unfold lineCommand at hc
  unfold handle
  cases hparse : parseLine (P := P) line with
  | error e => exact Draws.pure _
  | ok r =>
    rw [hparse] at hc
    dsimp only at hc ⊢
    cases hhsm : r.hsm with
    | none => exact draws_handleRequest hhsm
    | some q =>
      by_cases hvariants : r.variants > 1
      · unfold handleRequest
        rw [if_pos hvariants]
        exact Draws.pure _
      · rw [if_neg hvariants, hhsm] at hc
        have hcommand : q.command = none := hc
        rw [handleRequest_hsm hhsm hvariants, handleHsm_eq, hcommand]
        exact Draws.pure _

/-- What serving a line comes to: at most a draw, a command that returned, or a
    command that stopped. -/
theorem processLine_cases (h : Hsm P) (line : Octets) (faults : List Fault) :
    (lineCommand P line = none ∧ ∃ resp h', h.processLine line faults = (.on h', some resp) ∧
      handle line (h.facing faults) = .ok resp h' ∧ OnlyRng (h.facing faults) h') ∨
    (∃ c resp h', lineCommand P line = some c ∧ c.run (h.facing faults) = .ok resp h' ∧
      h.processLine line faults = (.on h', some (.hsm resp))) ∨
    (∃ c e h', lineCommand P line = some c ∧ c.run (h.facing faults) = .error e h' ∧
      h.processLine line faults = (.off h'.flash, none)) := by
  unfold Hsm.processLine
  cases hc : lineCommand P line with
  | none =>
    have hdraw := draws_handle hc (h.facing faults)
    cases hrun : handle line (h.facing faults) with
    | ok resp h' => exact Or.inl ⟨rfl, resp, h', rfl, rfl, hdraw.of_ok hrun⟩
    | error e h' => exact (hdraw.of_error hrun).elim
  | some c =>
    right
    rw [handle_command hc]
    simp only [bind, EStateM.bind, pure, EStateM.pure]
    cases hrun : c.run (h.facing faults) with
    | ok resp h' => exact Or.inl ⟨c, resp, h', rfl, hrun, rfl⟩
    | error e h' => exact Or.inr ⟨c, e, h', rfl, hrun, rfl⟩

/-! ### Certificates -/

/-- A response that carries a certificate, with what the session had to hold. -/
inductive Issued (h : Hsm P) : Response → Prop
  | cert {req : EnclaveSigningRequest} {v : Validated} {nonce : Bytes 32} {serial : UInt64}
      {now : Int64} {ca : CaKey} (hca : h.ca = some ca) (hready : h.state.signerReady = true)
      (hnow : h.clock.nowUnix h.mono = some now) (hvalid : validate P req = .ok v) :
      Issued h (.signSshKey (buildCertificate P (certParams req v nonce serial now) ca))

def Response.IsCertificate : Response → Prop
  | .signSshKey _ => True
  | _ => False

theorem wp_handleSign (req : EnclaveSigningRequest) (h : Hsm P) :
    Wp (handleSign req) (fun r _ => r.IsCertificate → Issued h r) (fun _ _ => True) h := by
  unfold handleSign
  rw [Wp_bind, Wp_get]
  split
  · exact fun hno => hno.elim
  rename_i hloaded
  have hready : h.state.signerReady = true := by
    by_contra hno
    simp [hno] at hloaded
  split
  · exact fun hno => hno.elim
  rename_i now hnow
  split
  · exact fun hno => hno.elim
  rename_i v hvalid
  rw [Wp_bind]
  refine (draws_ensureSeeded h).mono ?_ fun _ _ he => he.elim
  intro r h₁ hrng₁
  cases r with
  | error e => exact fun hno => hno.elim
  | ok _ =>
    dsimp only
    rw [Wp_bind]
    refine (draws_randomArray 32 h₁).mono ?_ fun _ _ he => he.elim
    intro nonce h₂ hrng₂
    rw [Wp_bind]
    refine (draws_nextU64 h₂).mono ?_ fun _ _ he => he.elim
    intro serial h₃ hrng₃
    have hrng := trans_of OnlyRng hrng₁ (trans_of OnlyRng hrng₂ hrng₃)
    rw [Wp_bind, Wp_get]
    split
    · trivial
    · rename_i ca hca
      rw [hrng.ca] at hca
      exact fun _ => .cert hca hready hnow hvalid

/-- What holds of the certificates of `handle_sign` holds of every certificate. -/
theorem wp_handleRequest {Q : Response → Prop} {h : Hsm P}
    (hsign : ∀ req, Wp (handleSign req) (fun r _ => r.IsCertificate → Q r) (fun _ _ => True) h)
    (r : Request) :
    Wp (handleRequest r) (fun r _ => r.IsCertificate → Q r) (fun _ _ => True) h := by
  unfold handleRequest
  split
  · exact fun hno => hno.elim
  split
  · unfold handleLoadKeySigner
    rw [Wp_bind, Wp_get]
    split <;> exact fun hno => hno.elim
  split
  · exact hsign _
  split
  · exact fun hno => hno.elim
  split
  · exact fun hno => hno.elim
  split
  · rename_i q _
    rw [Wp_bind]
    unfold Wp
    cases handleHsm q h with
    | ok a t => exact fun hno => hno.elim
    | error e t => trivial
  · exact fun hno => hno.elim

theorem certificate_of_handle {Q : Response → Prop} {line : Octets} {h h' : Hsm P}
    {resp : Response}
    (hsign : ∀ req, Wp (handleSign req) (fun r _ => r.IsCertificate → Q r) (fun _ _ => True) h)
    (hrun : handle line h = .ok resp h') (hcert : resp.IsCertificate) : Q resp := by
  unfold handle at hrun
  cases hparse : parseLine (P := P) line with
  | error e =>
    rw [hparse] at hrun
    cases hrun
    exact hcert.elim
  | ok r =>
    rw [hparse] at hrun
    exact (wp_handleRequest hsign r).of_ok hrun hcert

/-- A certificate in answer to a line was issued by the session that served it. -/
theorem issued_of_handle {line : Octets} {h h' : Hsm P} {resp : Response}
    (hrun : handle line h = .ok resp h') (hcert : resp.IsCertificate) : Issued h resp :=
  certificate_of_handle (fun req => wp_handleSign req h) hrun hcert

/-! ### Steps of the device -/

/-- Everything one event can do. -/
inductive Stepped : Sys P → Event → Option Response → Sys P → Prop
  | booted {s : Sys P} {p : PowerUp} {h : Hsm P} (hboot : PoweredUp s.flash p h) :
      Stepped s (.boot p) none (.on h)
  | bootCut {s : Sys P} {p : PowerUp} {g : Flash} (hcut : HasCut p.faults)
      (hg : FlashWithin (fun _ => False) (p.flash s.flash) g) : Stepped s (.boot p) none (.off g)
  | unpowered {f : Flash} {e : Event} (hno : ∀ p, e ≠ .boot p) : Stepped (.off f) e none (.off f)
  | drew {h h' : Hsm P} {bytes : Octets} {faults : List Fault} {resp : Response}
      (hc : lineCommand P bytes = none) (hrun : handle bytes (h.facing faults) = .ok resp h')
      (hrng : OnlyRng (h.facing faults) h') :
      Stepped (.on h) (.line bytes faults) (some resp) (.on h')
  | served {h h' : Hsm P} {bytes : Octets} {faults : List Fault} {c : Command} {resp : HsmResponse}
      (hc : lineCommand P bytes = some c) (hrun : c.run (h.facing faults) = .ok resp h') :
      Stepped (.on h) (.line bytes faults) (some (.hsm resp)) (.on h')
  | cut {h h' : Hsm P} {bytes : Octets} {faults : List Fault} {c : Command} {e : Halt}
      (hc : lineCommand P bytes = some c) (hrun : c.run (h.facing faults) = .error e h') :
      Stepped (.on h) (.line bytes faults) none (.off h'.flash)
  | relocked {h : Hsm P} : Stepped (.on h) .relock none (.on h.relockOnTransportReset)
  | advanced {h : Hsm P} {mono : UInt64} :
      Stepped (.on h) (.advance mono) none (.on { h with mono := max h.mono mono })
  | quiet {h : Hsm P} {e : Event} {drbg : Drbg P} {entropy : Entropy} {heapFree : UInt64}
      {rebootRequested : Bool} (he : e = .reseed ∨ (∃ n, e = .setHeapFree n) ∨
        e = .takeRebootRequested) :
      Stepped (.on h) e none (.on { h with drbg, entropy, heapFree, rebootRequested })

theorem stepped (s : Sys P) (e : Event) : Stepped s e (s.step e).2 (s.step e).1 := by
  cases e with
  | boot p =>
    rw [Sys.step_boot_eq]
    cases hboot : powerUp s.flash p with
    | ok _ h => exact .booted (powerUp_ok hboot)
    | error e h => exact .bootCut (powerUp_error hboot).1 (powerUp_error hboot).2
  | line bytes faults =>
    cases s with
    | off f => exact .unpowered (by simp)
    | on h =>
      have hstep : (Sys.on h).step (.line bytes faults) = h.processLine bytes faults := rfl
      rw [hstep]
      rcases processLine_cases h bytes faults with
        ⟨hc, resp, h', heq, hrun, hrng⟩ | ⟨c, resp, h', hc, hrun, heq⟩ | ⟨c, e, h', hc, hrun, heq⟩
      · rw [heq]
        exact .drew hc hrun hrng
      · rw [heq]
        exact .served hc hrun
      · rw [heq]
        exact .cut hc hrun
  | relock =>
    cases s with
    | off f => exact .unpowered (by simp)
    | on h => exact .relocked
  | advance mono =>
    cases s with
    | off f => exact .unpowered (by simp)
    | on h => exact .advanced
  | reseed =>
    cases s with
    | off f => exact .unpowered (by simp)
    | on h =>
      have hreseed : ∃ drbg entropy, h.reseed = { h with drbg, entropy } := by
        unfold Hsm.reseed
        split <;> exact ⟨_, _, rfl⟩
      obtain ⟨drbg, entropy, heq⟩ := hreseed
      have hstep : (Sys.on h).step .reseed = (.on h.reseed, none) := rfl
      rw [hstep, heq]
      exact .quiet (Or.inl rfl)
  | setHeapFree bytes =>
    cases s with
    | off f => exact .unpowered (by simp)
    | on h => exact .quiet (Or.inr (Or.inl ⟨bytes, rfl⟩))
  | takeRebootRequested =>
    cases s with
    | off f => exact .unpowered (by simp)
    | on h => exact .quiet (Or.inr (Or.inr rfl))

/-- The last moment of a run, with the states it connects. -/
theorem Run.last {image : Flash} {m : Moment P} {older : List (Moment P)} {s : Sys P}
    (hrun : Run image (m :: older) s) :
    Run image older m.before ∧ Stepped m.before m.event m.response m.after ∧ s = m.after := by
  cases hrun with
  | step h e => exact ⟨h, stepped _ e, rfl⟩

/-- Every moment of a run is a step from a run. -/
theorem Run.earlier {image : Flash} {newer older : List (Moment P)} {m : Moment P} {s : Sys P}
    (hrun : Run image (newer ++ m :: older) s) :
    Run image older m.before ∧ Stepped m.before m.event m.response m.after := by
  induction newer generalizing s with
  | nil => exact ⟨hrun.last.1, hrun.last.2.1⟩
  | cons m' newer ih => exact ih hrun.last.1

/-- An invariant over histories: it holds of the image and every step keeps it. -/
theorem Run.induct {image : Flash} {I : List (Moment P) → Sys P → Prop} (hstart : I [] (.off image))
    (hstep : ∀ (hist : List (Moment P)) (s s' : Sys P) (e : Event) (resp : Option Response),
      I hist s → Stepped s e resp s' → I (⟨e, s, resp, s'⟩ :: hist) s')
    {hist : List (Moment P)} {s : Sys P} (hrun : Run image hist s) : I hist s := by
  induction hrun with
  | start => exact hstart
  | step _ e ih => exact hstep _ _ _ e _ ih (stepped _ e)

/-- A certificate is the answer to a line, and the session that served it issued it. -/
theorem Stepped.issued {h : Hsm P} {s' : Sys P} {e : Event} {resp : Response}
    (hstep : Stepped (.on h) e (some resp) s') (hcert : resp.IsCertificate) : Issued h resp := by
  cases hstep with
  | drew hc hrun hrng =>
    obtain ⟨hca, hready, hnow, hvalid⟩ := issued_of_handle hrun hcert
    exact .cert hca hready hnow hvalid
  | served => exact hcert.elim

end PicoSignet
