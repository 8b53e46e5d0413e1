/-
  PicoSignet/KeyMoves.lean
  ========================
  **What a request makes of the CA key** — every way in which one request can change
  the KEY pair of the flash and the KEK that the session caches, said once: for a
  request that is answered (`keyMove_run`) and for one during which the power goes
  (`keyCut_run`).  The run invariants about the key are derived from these two.
-/
import PicoSignet.Mirror

set_option autoImplicit false

namespace PicoSignet

open Crash TwoCopy

variable {P : Prims}

/-! ### A new record -/

/-- The blob was written as the KEY record, and is the latest one if a number was left. -/
structure KeyWritten (P : Prims) (blob : KeyBlob) (f g : Flash) : Prop where
  step : Copies.Step (2 ^ 32) (KEY.copies P.crc32 f.sector) (some blob.toBytes)
    (KEY.copies P.crc32 g.sector)
  stored : KEY.NumberLeft P.crc32 f.sector → storedKey P g.sector = some blob

theorem SameKeySectors.refl (f : Flash) : SameKeySectors f f := ⟨rfl, rfl⟩

theorem SameKeySectors.trans {f g k : Flash} (hfg : SameKeySectors f g) (hgk : SameKeySectors g k) :
    SameKeySectors f k := ⟨hgk.keyA.trans hfg.keyA, hgk.keyB.trans hfg.keyB⟩

theorem SameKeySectors.copies {f g : Flash} (hsame : SameKeySectors f g) (crc : Octets → UInt32) :
    KEY.copies crc g.sector = KEY.copies crc f.sector :=
  AbPair.copies_congr hsame.keyA hsame.keyB

theorem SameKeySectors.storedKey {f g : Flash} (hsame : SameKeySectors f g) :
    storedKey P g.sector = storedKey P f.sector := storedKey_congr hsame.keyA hsame.keyB

theorem SameKeySectors.resets {f g : Flash} (hreset : Resets f g) : SameKeySectors f g :=
  hreset.within.sameKeySectors (by simp) (by simp)

/-- A write to another pair. -/
theorem FlashWithin.sameKey {pair : AbPair} {image : Region → Sector} {f g : Flash}
    (hw : FlashWithin (· = some (pair.nextTarget P.crc32 image)) f g)
    (hA : Region.keyA ≠ pair.a ∧ Region.keyA ≠ pair.b)
    (hB : Region.keyB ≠ pair.a ∧ Region.keyB ≠ pair.b) : SameKeySectors f g :=
  ⟨hw.beside hA.1 hA.2, hw.beside hB.1 hB.2⟩

theorem Wrote.keyWritten {blob : KeyBlob} {f f₁ g₁ g : Flash} (hg : Wrote P KEY blob.toBytes f₁ g₁)
    (hbefore : SameKeySectors f f₁) (hafter : SameKeySectors g₁ g) : KeyWritten P blob f g := by
  constructor
  · rw [← hbefore.copies, hafter.copies]
    exact hg.step (by rw [length_keyBlob]; norm_num)
  · intro hleft
    rw [hafter.storedKey]
    apply storedKey_wrote hg
    unfold AbPair.NumberLeft at hleft ⊢
    rwa [hbefore.copies]

/-! ### What a request that is answered does -/

/-- The PIN that a request gives to the device, or opens the session with; `none` for
    the response is a request during which the power went. -/
def Command.givenPin (state : DeviceState) : Command → Option HsmResponse → Option Str
  | .init req, some (.init true mode) => if mode = "prod" then req.pin else none
  | .init req, none => req.pin
  | .unlock req, some (.unlock true) => if state = .prodLocked then some req.pin else none
  | .changePin req, some (.changePin true) => some req.newPin
  | _, _ => none

theorem givenPin_of_isError {resp : HsmResponse} (herror : resp.IsError) (state : DeviceState)
    (c : Command) : c.givenPin state (some resp) = none := by
  obtain ⟨e, rfl⟩ := herror
  cases c <;> rfl

theorem givenPin_init {resp : HsmResponse} (hne : resp ≠ .init true "prod") (state : DeviceState)
    (req : InitReq) : (Command.init req).givenPin state (some resp) = none := by
  cases resp with
  | init ok mode =>
    cases ok with
    | true =>
      have hmode : mode ≠ "prod" := fun heq => hne (by rw [heq])
      exact if_neg hmode
    | false => rfl
  | _ => rfl

theorem givenPin_changePin {resp : HsmResponse} (hne : resp ≠ .changePin true) (state : DeviceState)
    (req : ChangePinReq) : (Command.changePin req).givenPin state (some resp) = none := by
  cases resp with
  | changePin ok =>
    cases ok with
    | true => exact absurd rfl hne
    | false => rfl
  | _ => rfl

theorem givenPin_unlock {state : DeviceState} (hstate : state ≠ .prodLocked) (req : UnlockReq)
    (resp : HsmResponse) : (Command.unlock req).givenPin state (some resp) = none := by
  cases resp with
  | unlock ok =>
    cases ok with
    | true => exact if_neg hstate
    | false => rfl
  | _ => rfl

/-- The session is open only if it was, and then with the KEK it had. -/
def KekKept (h h' : Hsm P) : Prop :=
  h'.state = .prodReady →
    h.state = .prodReady ∧ h'.wrapKek = h.wrapKek ∧ h'.wrapSalt = h.wrapSalt

theorem KekKept.closed {h h' : Hsm P} (hstate : h'.state ≠ .prodReady) : KekKept h h' :=
  fun hready => absurd hready hstate

/-- A production configuration was there before. -/
def ProdKept (h h' : Hsm P) : Prop :=
  ∀ cfg, h'.config = some cfg → cfg.mode = .prod → h.config = some cfg

theorem ProdKept.of_eq {h h' : Hsm P} (heq : h'.config = h.config) : ProdKept h h' :=
  fun _ hcfg _ => heq.symm.trans hcfg

/-- The key and the session's part in it are as they were. -/
structure KeySpared (h h' : Hsm P) : Prop where
  sectors : SameKeySectors h.flash h'.flash
  kek : KekKept h h'
  config : ProdKept h h'

theorem KeySpared.refl (h : Hsm P) (faults : List Fault) : KeySpared h (h.facing faults) :=
  ⟨⟨rfl, rfl⟩, fun hready => ⟨hready, rfl, rfl⟩, .of_eq rfl⟩

theorem KeySpared.of_within {F : Field → Prop} {R : Option Region → Prop} {h h' : Hsm P}
    {faults : List Fault} (hw : Within F R (h.facing faults) h')
    (hF : ¬ F .state ∧ ¬ F .secrets ∧ ¬ F .config) (hR : ¬ R (some .keyA) ∧ ¬ R (some .keyB)) :
    KeySpared h h' := by
  obtain ⟨-, hkek, hsalt⟩ := hw.same .secrets hF.2.1
  have hsame := hw.flash.sameKeySectors hR.1 hR.2
  refine ⟨⟨hsame.keyA, hsame.keyB⟩, fun hready => ⟨?_, hkek, hsalt⟩, .of_eq (hw.same .config hF.2.2)⟩
  exact (hw.same .state hF.1).symm.trans hready

theorem KeySpared.onlyRng {h h' : Hsm P} {faults : List Fault} (hrng : OnlyRng (h.facing faults) h') :
    KeySpared h h' := by
  rw [hrng]
  exact ⟨⟨rfl, rfl⟩, fun hready => ⟨hready, rfl, rfl⟩, .of_eq rfl⟩

/-- What `changePin` writes: the seed that the current PIN opened, under the new PIN. -/
structure RewrapBlob (h : Hsm P) (req : ChangePinReq) (newKek : Bytes 32) (newSalt : Bytes 16)
    (blob : KeyBlob) : Prop where
  exists_seed : ∃ cfg seed kek salt, h.config = some cfg ∧
    Opens P h.flash cfg req.currentPin seed kek salt ∧
    NewPinBlob h req.newPin seed newKek newSalt blob

/-- The ways in which an answered request treats the key. -/
inductive KeyMove (h : Hsm P) : Command → HsmResponse → Hsm P → Prop
  | kept {c : Command} {resp : HsmResponse} {h' : Hsm P} (hkept : KeySpared h h')
      (hpin : c.givenPin h.state (some resp) = none) : KeyMove h c resp h'
  | gone {c : Command} {resp : HsmResponse} {h' : Hsm P} (herased : KeyErased h'.flash)
      (hclosed : h'.state = .lockedOut ∨ h'.state = .uninitialized) (hconfig : ProdKept h h')
      (hpin : c.givenPin h.state (some resp) = none) : KeyMove h c resp h'
  | made {req : InitReq} {h' : Hsm P} {seed : Bytes 32} {blob : KeyBlob}
      (hnone : h.config = none) (hblob : InitBlob P h.flash req seed blob)
      (hwritten : KeyWritten P blob h.flash h'.flash) (hclosed : h'.state = .prodLocked)
      (hconfig : h'.config = some (prodConfig req)) : KeyMove h (.init req) (.init true "prod") h'
  | opened {req : UnlockReq} {h' : Hsm P} {cfg : DeviceConfig} {seed kek : Bytes 32}
      {salt : Bytes 16} (hstate : h.state = .prodLocked) (hcfg : h.config = some cfg)
      (hopens : Opens P h.flash cfg req.pin seed kek salt)
      (hsame : SameKeySectors h.flash h'.flash) (hkek : h'.wrapKek = some kek)
      (hsalt : h'.wrapSalt = some salt) (hconfig : h'.config = h.config) :
      KeyMove h (.unlock req) (.unlock true) h'
  | rotated {req : GenerateKeyReq} {line : String} {h' : Hsm P} {seed : Bytes 32} {blob : KeyBlob}
      (hstate : h.state = .devReady ∨ h.state = .prodReady) (hblob : RotatedBlob h seed blob)
      (hwritten : KeyWritten P blob h.flash h'.flash) (hkek : KekKept h h')
      (hconfig : h'.config = h.config) : KeyMove h (.generateKey req) (.generateKey true line) h'
  | rewrapped {req : ChangePinReq} {h' : Hsm P} {newKek : Bytes 32} {newSalt : Bytes 16}
      {blob : KeyBlob} (hblob : RewrapBlob h req newKek newSalt blob)
      (hwritten : KeyWritten P blob h.flash h'.flash)
      (hkek : h'.state = .prodReady → h'.wrapKek = some newKek ∧ h'.wrapSalt = some newSalt)
      (hconfig : h'.config = h.config) : KeyMove h (.changePin req) (.changePin true) h'

section KeyMove

variable {h h' h₁ : Hsm P} {c : Command} {resp : HsmResponse} {faults : List Fault}
  {cfg : DeviceConfig} {pin : Str}

theorem KeyMove.same (hpin : c.givenPin h.state (some resp) = none) :
    KeyMove h c resp (h.facing faults) := .kept (.refl h faults) hpin

theorem SameKeySectors.ticked (f : Flash) : SameKeySectors f f.ticked :=
  ⟨Flash.sector_ticked (by decide), Flash.sector_ticked (by decide)⟩

theorem KeySpared.accepted (h : Hsm P) (cfg : DeviceConfig) (faults : List Fault) :
    KeySpared h ((h.accepted cfg).facing faults) := by
  have hsector : ∀ r, r ≠ .pinCounter → (h.accepted cfg).flash.sector r = h.flash.sector r :=
    fun r hr => (Flash.sector_erase_of_ne hr).trans (Flash.sector_ticked hr)
  exact ⟨⟨hsector .keyA (by decide), hsector .keyB (by decide)⟩, fun hready => ⟨hready, rfl, rfl⟩,
    .of_eq rfl⟩

theorem Flash.keyErased_wiped (f : Flash) : KeyErased f.wiped := by
  unfold KeyErased Flash.wiped
  exact ⟨(Flash.sector_erase_of_ne (by decide)).trans (Flash.sector_erase_self _ _),
    Flash.sector_erase_self _ _⟩

/-- An attempt that fails ends in an error. -/
theorem Attempt.isError (hatt : Attempt cfg pin h (.error resp) h₁) : resp.IsError := by
  cases hatt with
  | busy => exact ⟨_, rfl⟩
  | unjudged hpast hwhy => cases hwhy <;> exact ⟨_, rfl⟩
  | rejected =>
    unfold Hsm.rejectedAnswer
    split <;> exact ⟨_, rfl⟩

/-- An attempt that fails leaves the key, or wipes it. -/
theorem Attempt.keyMove (hatt : Attempt cfg pin h (.error resp) h₁) :
    KeyMove h c resp (h₁.facing faults) := by
  obtain ⟨hA, hB⟩ := SameKeySectors.ticked h.flash
  have hpin := givenPin_of_isError hatt.isError h.state c
  cases hatt with
  | busy => exact .same hpin
  | unjudged => exact .kept ⟨⟨hA, hB⟩, fun hready => ⟨hready, rfl, rfl⟩, .of_eq rfl⟩ hpin
  | rejected =>
    unfold Hsm.rejected
    split
    · split
      · exact .gone (Flash.keyErased_wiped (h.delayed cfg).flash) (Or.inl rfl) (.of_eq rfl) hpin
      · exact .kept ⟨⟨hA, hB⟩, .closed (by simp [Hsm.facing, Hsm.enterLockedOut]), .of_eq rfl⟩ hpin
    · exact .kept ⟨⟨hA, hB⟩, fun hready => ⟨hready, rfl, rfl⟩, .of_eq rfl⟩ hpin

/-- The gate of the destructive commands: the attempt ended the command, or the gate
    has decided, and the key is as it was. -/
theorem KeyMove.gate (hshape : h.Shaped) (pin : Option Str) (noPin : String)
    (hands : ∀ p, pin = some p → (h.state = .prodLocked ∨ h.state = .prodReady) →
      h.physicalRecoveryAuthorized = false → Hands h c p)
    (hfaults : Faultless faults) (hrun : c.run (h.facing faults) = .ok resp h') :
    KeyMove h c resp h' ∨
      ∃ r h₁, (∀ faults', KeySpared h (h₁.facing faults')) ∧ Serves (destructiveGate pin noPin) h r h₁ := by
  by_cases hidle : (h.state = .prodLocked ∨ h.state = .prodReady) ∧
      h.physicalRecoveryAuthorized = false ∧ pin.isSome
  · obtain ⟨hstate, hphysical, hsome⟩ := hidle
    obtain ⟨p, rfl⟩ := Option.isSome_iff_exists.mp hsome
    rcases (hands p rfl hstate hphysical).ends hshape hfaults hrun with
      ⟨cfg, h₁, faults', -, hatt, rfl⟩ | ⟨cfg, seed, kek, salt, -, -, -, hserves⟩
    · exact Or.inl hatt.keyMove
    · exact Or.inr ⟨_, _, KeySpared.accepted h cfg,
        serves_destructiveGate noPin hstate hphysical hserves⟩
  · obtain ⟨r, hserves, -⟩ := serves_destructiveGate_idle pin noPin hidle
    exact Or.inr ⟨r, h, KeySpared.refl h, hserves⟩

/-- `init` announces a production device only if it has made one. -/
theorem wp_init_answer (req : InitReq) (h : Hsm P) :
    Wp (hsmInit req)
      (fun resp h' => resp = .init true "prod" → h.config = none ∧ InitProd req h resp h')
      (fun _ _ => True) h := by
  unfold hsmInit
  rw [Wp_bind, Wp_get]
  split
  · exact fun hno => by simp [HsmResponse.err] at hno
  rename_i hnone
  split
  · unfold initDev
    rw [Wp_bind, Wp_get]
    split
    · exact fun hno => by simp [HsmResponse.err] at hno
    refine Wp.bind_any _ (fun r h' => ?_) fun _ _ => trivial
    split
    · exact fun hno => by simp [HsmResponse.err] at hno
    · exact fun hno => by simp at hno
  split
  · refine (wp_initProd req h).mono (fun _ _ hi _ => ⟨by simpa using hnone, hi⟩) fun _ _ _ => trivial
  · exact fun hno => by simp [HsmResponse.err] at hno

theorem KeyMove.init {req : InitReq} (hfaults : Faultless faults)
    (hrun : hsmInit req (h.facing faults) = .ok resp h') : KeyMove h (.init req) resp h' := by
  have hno : ¬ ∃ left, Fault.fail left ∈ (h.facing faults).flash.faults :=
    not_exists.mpr hfaults.no_fail
  by_cases hmade : resp = .init true "prod"
  · obtain ⟨hnone, hprod⟩ := (wp_init_answer req (h.facing faults)).of_ok hrun hmade
    cases hprod with
    | refused hrng hresp => exact absurd hmade hresp
    | keyFailed hresp => exact absurd hmade hresp
    | configFailed hresp => exact absurd hmade hresp
    | done hretries hblob hg hg' hreset =>
      have hsame := (hg'.within.sameKey (by decide) (by decide)).trans (.resets hreset)
      have hwritten := hg.keyWritten ⟨rfl, rfl⟩ hsame
      exact .made hnone hblob ⟨hwritten.step, hwritten.stored⟩ rfl rfl
  have hpin := givenPin_init hmade h.state req
  rcases (wp_init req (h.facing faults)).of_ok hrun with
    rfl | ⟨hnone, ⟨-, hdev⟩ | ⟨-, hprod⟩⟩
  · exact .same hpin
  · cases hdev with
    | refused => exact .same hpin
    | failed hg hfail => exact absurd hfail hno
    | done hg =>
      have hsame := hg.within.sameKey (by decide) (by decide)
      refine .kept ⟨⟨hsame.keyA, hsame.keyB⟩, .closed (by simp), fun cfg hcfg hmode => ?_⟩ hpin
      obtain rfl := Option.some.inj hcfg
      exact absurd hmode (by simp [devConfig])
  · cases hprod with
    | refused hrng => exact .kept (.onlyRng hrng) hpin
    | keyFailed hresp hg hfail => exact absurd hfail hno
    | configFailed hresp hg hg' hfail => exact absurd hfail hno
    | done => exact absurd rfl hmade

theorem KeyMove.generateKey {req : GenerateKeyReq} (hfaults : Faultless faults)
    (hrun : hsmGenerateKey req (h.facing faults) = .ok resp h') :
    KeyMove h (.generateKey req) resp h' := by
  have hno : ¬ ∃ left, Fault.fail left ∈ (h.facing faults).flash.faults :=
    not_exists.mpr hfaults.no_fail
  rcases (wp_generateKey req (h.facing faults)).of_ok hrun with ⟨rfl, -⟩ | ⟨hstate, hrotated⟩
  · exact .same rfl
  cases hrotated with
  | refused hrng => exact .kept (.onlyRng hrng) rfl
  | failed hresp hg hfail => exact absurd hfail hno
  | done hblob hg =>
    have hwritten := hg.keyWritten ⟨rfl, rfl⟩ (.refl _)
    exact .rotated hstate hblob ⟨hwritten.step, hwritten.stored⟩ (fun hready => ⟨hready, rfl, rfl⟩) rfl

theorem KeyMove.unlock {req : UnlockReq} (hshape : h.Shaped) (hfaults : Faultless faults)
    (hrun : hsmUnlock req (h.facing faults) = .ok resp h') : KeyMove h (.unlock req) resp h' := by
  by_cases hstate : h.state = .prodLocked
  · have hands : Hands h (.unlock req) req.pin := .unlock hstate
    rcases hands.ends hshape hfaults hrun with
      ⟨cfg, h₁, faults', -, hatt, rfl⟩ | ⟨cfg, seed, kek, salt, hcfg, -, hopens, hserves⟩
    · exact hatt.keyMove
    · obtain ⟨rfl, faults', rfl, -⟩ := (serves_unlock hstate hserves).of_ok hfaults hrun
      have hsame := (KeySpared.accepted h cfg []).sectors
      exact .opened hstate hcfg hopens ⟨hsame.keyA, hsame.keyB⟩ rfl rfl rfl
  · cases (wp_unlock req (h.facing faults)).of_ok hrun with
    | refused => exact .same (givenPin_unlock hstate req resp)
    | rejected hcfg hlocked hv => exact absurd hlocked hstate
    | opened hcfg hlocked hv => exact absurd hlocked hstate

theorem KeyMove.lock (hrun : hsmLock (h.facing faults) = .ok resp h') : KeyMove h .lock resp h' := by
  rcases (wp_lock (h.facing faults)).of_ok hrun with
    ⟨-, -, rfl⟩ | ⟨hstate, -, rfl⟩ | ⟨-, rfl⟩
  · exact .kept ⟨⟨rfl, rfl⟩, .closed (by simp), .of_eq rfl⟩ rfl
  · refine .kept ⟨⟨rfl, rfl⟩, .closed fun hready => ?_, .of_eq rfl⟩ rfl
    rcases hstate with hstate | hstate <;> exact absurd (hstate.symm.trans hready) (by simp)
  · exact .same rfl

/-- `changePin` announces a new PIN only where it takes one. -/
theorem wp_changePin_answer (req : ChangePinReq) (h : Hsm P) :
    Wp (hsmChangePin req)
      (fun resp _ => resp = .changePin true → (h.state = .prodLocked ∨ h.state = .prodReady) ∧
        (PIN_MIN ≤ req.newPin.len ∧ req.newPin.len ≤ PIN_MAX)) (fun _ _ => True) h := by
  unfold hsmChangePin
  rw [Wp_bind, Wp_get]
  split
  · exact fun hno => by simp [HsmResponse.err] at hno
  · exact fun hno => by simp [HsmResponse.err] at hno
  · exact fun hno => by simp [HsmResponse.err] at hno
  all_goals
    rename_i hstate
    split
    · exact fun hno => by simp [HsmResponse.err] at hno
    rename_i hlen
    have hgo : (h.state = .prodLocked ∨ h.state = .prodReady) ∧
        (PIN_MIN ≤ req.newPin.len ∧ req.newPin.len ≤ PIN_MAX) := ⟨by simp [hstate], not_not.mp hlen⟩
    unfold Wp
    split
    · exact fun _ => hgo
    · trivial

theorem KeyMove.changePin {req : ChangePinReq} (hshape : h.Shaped) (hfaults : Faultless faults)
    (hrun : hsmChangePin req (h.facing faults) = .ok resp h') :
    KeyMove h (.changePin req) resp h' := by
  by_cases hgo : (h.state = .prodLocked ∨ h.state = .prodReady) ∧
      (PIN_MIN ≤ req.newPin.len ∧ req.newPin.len ≤ PIN_MAX)
  case neg =>
    have hanswer := (wp_changePin_answer req (h.facing faults)).of_ok hrun
    rw [changePin_idle hgo hrun]
    exact .same (givenPin_changePin (fun heq => hgo (hanswer heq)) h.state req)
  obtain ⟨hstate, hlen⟩ := hgo
  have hands : Hands h (.changePin req) req.currentPin := .changePin hstate hlen
  rcases hands.ends hshape hfaults hrun with
    ⟨cfg, h₁, faults', -, hatt, rfl⟩ | ⟨cfg, seed, kek, salt, hcfg, -, hopens, hserves⟩
  · exact hatt.keyMove
  obtain ⟨faults₁, hfaults₁, hrest⟩ := changePin_opened hstate hlen hserves hfaults
  rw [hrest] at hrun
  have hkept := KeySpared.accepted h cfg faults₁
  have hcfg₁ : ((h.accepted cfg).facing faults₁).config.isSome := by
    change h.config.isSome
    rw [hcfg]
    rfl
  cases (wp_rewrapSeed req.newPin (decide (h.state = .prodReady)) seed hcfg₁).of_ok hrun with
  | refused hrng hresp =>
    rw [hrng]
    exact .kept ⟨⟨hkept.sectors.keyA, hkept.sectors.keyB⟩, fun hready => ⟨hready, rfl, rfl⟩, .of_eq rfl⟩
      (givenPin_changePin hresp h.state req)
  | failed hresp hg hfail => exact absurd hfail (not_exists.mpr hfaults₁.no_fail)
  | @done drbg entropy g g' until_ newKek newSalt blob hblob hg hreset =>
    have hwritten := hg.keyWritten hkept.sectors (.resets hreset)
    obtain ⟨cfg', secret, pubkey, nonce, hcfg', hsecret, hkek, hpub, hwrap⟩ := hblob
    have hsecret' : h.flash.deviceSecret = .ok secret := (h.deviceSecret_accepted cfg).symm.trans hsecret
    refine .rewrapped ⟨cfg, seed, kek, salt, hcfg, hopens, cfg', secret, pubkey, nonce, hcfg', hsecret',
      hkek, hpub, hwrap⟩ ⟨hwritten.step, hwritten.stored⟩ ?_ rfl
    cases decide (h.state = .prodReady) with
    | true => exact fun _ => ⟨rfl, rfl⟩
    | false => exact fun hready => by simp at hready

theorem Flash.keyErased_blanked (f : Flash) : KeyErased f.blanked := by
  unfold KeyErased Flash.blanked
  obtain ⟨hA, hB⟩ := f.keyErased_wiped
  constructor
  · rw [Flash.sector_erase_of_ne (by decide), Flash.sector_erase_of_ne (by decide),
      Flash.sector_erase_of_ne (by decide), Flash.sector_erase_of_ne (by decide),
      Flash.sector_erase_of_ne (by decide), hA]
  · rw [Flash.sector_erase_of_ne (by decide), Flash.sector_erase_of_ne (by decide),
      Flash.sector_erase_of_ne (by decide), Flash.sector_erase_of_ne (by decide),
      Flash.sector_erase_of_ne (by decide), hB]

theorem KeyMove.factoryReset {req : FactoryResetReq} (hshape : h.Shaped) (hfaults : Faultless faults)
    (hrun : hsmFactoryReset req (h.facing faults) = .ok resp h') :
    KeyMove h (.factoryReset req) resp h' := by
  by_cases hconfirm : req.confirm = confirmErase
  case neg =>
    unfold hsmFactoryReset at hrun
    rw [if_pos hconfirm] at hrun
    cases hrun
    exact .same rfl
  rcases KeyMove.gate (c := .factoryReset req) hshape req.pin
    "factory-reset requires a PIN or physical recovery held low during reset"
    (fun p hp hstate hphysical => .factoryReset hconfirm hp hstate hphysical) hfaults hrun with
    hdone | ⟨r, h₁, hkept, hserves⟩
  · exact hdone
  cases r with
  | some resp' =>
    have hrefused : Serves (hsmFactoryReset req) h resp' h₁ := by
      unfold hsmFactoryReset
      rw [if_neg (not_not.mpr hconfirm)]
      exact hserves.bind (Serves.pure _ _)
    obtain ⟨-, faults', rfl, -⟩ := hrefused.of_ok hfaults hrun
    exact .kept (hkept faults') rfl
  | none =>
    obtain ⟨-, faults', rfl, -⟩ := (serves_factoryReset hconfirm hserves).of_ok hfaults hrun
    refine .gone (Flash.keyErased_blanked h₁.flash) (Or.inr rfl) (fun cfg hcfg => ?_) rfl
    exact absurd hcfg (by simp [Hsm.facing, Hsm.afterReset])

theorem KeyMove.rebootBootloader {req : RebootBootloaderReq} (hshape : h.Shaped)
    (hfaults : Faultless faults) (hrun : hsmRebootBootloader req (h.facing faults) = .ok resp h') :
    KeyMove h (.rebootBootloader req) resp h' := by
  rcases KeyMove.gate (c := .rebootBootloader req) hshape req.pin
    "rebooting into the bootloader requires a PIN or physical recovery held low during reset"
    (fun p hp hstate hphysical => .rebootBootloader hp hstate hphysical) hfaults hrun with
    hdone | ⟨r, h₁, hkept, hserves⟩
  · exact hdone
  cases r with
  | some resp' =>
    have hrefused : Serves (hsmRebootBootloader req) h resp' h₁ := hserves.bind (Serves.pure _ _)
    obtain ⟨-, faults', rfl, -⟩ := hrefused.of_ok hfaults hrun
    exact .kept (hkept faults') rfl
  | none =>
    have hopened : Serves (hsmRebootBootloader req) h (.rebootBootloader true)
        { h₁ with rebootRequested := true } :=
      hserves.bind (Serves.modify_bind (fun _ => rfl) (Serves.pure _ _))
    obtain ⟨-, faults', rfl, -⟩ := hopened.of_ok hfaults hrun
    exact .kept ⟨(hkept faults').sectors, (hkept faults').kek, (hkept faults').config⟩ rfl

/-- What a request that is answered over working flash makes of the key. -/
theorem keyMove_run (hshape : h.Shaped) (hfaults : Faultless faults)
    (hrun : c.run (h.facing faults) = .ok resp h') : KeyMove h c resp h' := by
  have hnothing : ∀ {m : Dev P HsmResponse}, Stays (Within (fun _ => False) fun _ => False) m →
      c.givenPin h.state (some resp) = none → m (h.facing faults) = .ok resp h' → KeyMove h c resp h' := by
    intro m hm hpin hrun
    exact .kept (.of_within ((hm (h.facing faults)).of_ok hrun) ⟨id, id, id⟩ ⟨id, id⟩) hpin
  cases c with
  | init req => exact .init hfaults hrun
  | generateKey req => exact .generateKey hfaults hrun
  | getPublicKey => exact hnothing stays_getPublicKey rfl hrun
  | unlock req => exact .unlock hshape hfaults hrun
  | lock => exact .lock hrun
  | setTime req =>
    have hw : Within (fun x => x = .clock ∨ x = .floor)
        (fun r => r = some .timeA ∨ r = some .timeB) (h.facing faults) h' :=
      (stays_setTime (Or.inl rfl) (Or.inr rfl) (Or.inl rfl) (Or.inr rfl) req
        (h.facing faults)).of_ok hrun
    exact .kept (.of_within hw (by simp) (by simp)) rfl
  | status => exact hnothing stays_status rfl hrun
  | changePin req => exact .changePin hshape hfaults hrun
  | addEntropy req => exact hnothing (stays_addEntropy req) rfl hrun
  | selfTest => exact hnothing stays_selfTest rfl hrun
  | factoryReset req => exact .factoryReset hshape hfaults hrun
  | rebootBootloader req => exact .rebootBootloader hshape hfaults hrun

end KeyMove

/-! ### What a request does during which the power goes -/

/-- The wrong PIN that ends the budget of a device that wipes. -/
structure Hsm.LastTry (h : Hsm P) (cfg : DeviceConfig) (pin : Str) : Prop where
  past : ¬ h.Waits
  rejects : Rejects P h.flash cfg pin
  last : cfg.maxRetries.toNat ≤ Pin.next h.attempts
  wipes : cfg.wipeOnLockout = true

theorem Hsm.LastTry.wipesFor {h : Hsm P} {cfg : DeviceConfig} {pin : Str} {c : Command}
    (hlast : h.LastTry cfg pin) (hands : Hands h c pin) (hcfg : h.config = some cfg) : h.WipesFor c :=
  ⟨pin, cfg, hands, hlast.past, hcfg, hlast.rejects, hlast.last, hlast.wipes⟩

/-- A counted attempt is the next one. -/
theorem tickResult_next {n m a : Nat} (htick : TickResult n m a) (hm : m ≤ SECTOR_LEN) :
    a = Pin.next n := by
  obtain ⟨rfl | ⟨rfl, hfull⟩, hle⟩ := htick
  · unfold Pin.next
    rw [if_neg (by omega)]
  · unfold Pin.next
    rw [if_pos hfull]

/-- A PIN check in which the power goes leaves the key alone, unless it is the last try. -/
theorem wp_verifyPin_cut {cfg : DeviceConfig} (pin : Str) (h : Hsm P) (hcfg : h.config = some cfg) :
    Wp (verifyPin pin) (fun _ _ => True)
      (fun _ h' => SameKeySectors h.flash h'.flash ∨ h.LastTry cfg pin) h := by
  have hticked : ∀ {g : Flash}, Ticks h.flash g → SameKeySectors h.flash g := fun hg =>
    ⟨hg.sector (by decide), hg.sector (by decide)⟩
  unfold verifyPin
  rw [Wp_bind, Wp_get, hcfg]
  dsimp only
  rw [Wp_bind]
  refine Wp.mono (wp_onFlash_reads (reads_pinCount h.flash)) ?_ ?_
  case refine_2 =>
    rintro e _ ⟨-, -, g, rfl, hg⟩
    exact Or.inl (hticked (Ticks.of_reads hg))
  rintro count _ ⟨g₁, rfl, hg₁, hcount, -⟩
  cases count with
  | error e => trivial
  | ok priorFailures =>
  obtain rfl := hcount _ rfl
  dsimp only
  split
  · trivial
  rename_i hbusy
  have hpast : ¬ h.Waits := by
    rintro ⟨hsome, hearly⟩
    apply hbusy
    rw [Bool.and_eq_true, decide_eq_true_eq, decide_eq_true_eq]
    exact ⟨hsome, hearly⟩
  have hticks₁ := Ticks.of_reads hg₁
  rw [Wp_bind, Wp_onFlash]
  refine Wp.mono (wp_tick g₁) ?_ ?_
  case refine_2 =>
    intro e g₂ hg₂
    cases e with
    | hal e => trivial
    | powerLoss => exact Or.inl (hticked (trans_of Ticks hticks₁ hg₂))
  rintro attempts g₂ ⟨hg₂, htick⟩
  rw [hg₁.sector_eq] at htick
  have hnext : attempts = Pin.next h.attempts := tickResult_next htick (Pin.used_le _)
  have hticks₂ := trans_of Ticks hticks₁ hg₂
  dsimp only
  rw [Wp_bind]
  refine Wp.mono (wp_onFlash_reads (reads_readLatest KEY g₂)) ?_ ?_
  case refine_2 =>
    rintro e _ ⟨-, -, g₃, rfl, hg₃⟩
    exact Or.inl (hticked (trans_of Ticks hticks₂ (Ticks.of_reads hg₃)))
  rintro key _ ⟨g₃, rfl, hg₃, hkey, -⟩
  have hticks := trans_of Ticks hticks₂ (Ticks.of_reads hg₃)
  split
  · trivial
  · trivial
  split
  · trivial
  rename_i blob hblob
  have hstored : storedKey P h.flash.sector = some blob := by
    rw [← hticks₂.storedKey]
    unfold PicoSignet.storedKey
    rw [← hkey _ rfl]
    exact hblob
  split
  · trivial
  rename_i secret hsecret
  split
  · trivial
  rename_i kek hkek
  split
  · rw [Wp_bind, Wp_onFlash]
    change Wp _ _ _ { h with flash := g₃.log (.tried cfg.maxRetries true) }
    rw [Wp_bind]
    refine Wp.mono (wp_resetPinCounter 1 _) (fun _ _ _ => trivial) ?_
    rintro e h' ⟨-, hreset⟩
    have hbefore := hticked hticks
    have hafter := SameKeySectors.resets hreset
    exact Or.inl ⟨hafter.keyA.trans hbefore.keyA, hafter.keyB.trans hbefore.keyB⟩
  · rename_i e hseed
    rw [Wp_bind, Wp_onFlash]
    change Wp _ _ _ { h with flash := g₃.log (.tried cfg.maxRetries false) }
    refine Wp.mono (wp_wrongPin cfg attempts _) (fun _ _ _ => trivial) ?_
    rintro e' h' ⟨-, hge, hwipe, -⟩
    rw [hnext] at hge
    exact Or.inr ⟨hpast, ⟨blob, secret, kek, e, hstored, hsecret, hkek, hseed⟩, hge, hwipe⟩

/-- The ways in which a request that is cut leaves the KEY pair. -/
inductive KeyCut (h : Hsm P) : Command → Flash → Prop
  | kept {c : Command} {g : Flash} (hsame : SameKeySectors h.flash g) : KeyCut h c g
  | wiping {c : Command} {g : Flash} (hwipes : h.WipesFor c ∨ ∃ req, c = .factoryReset req) :
      KeyCut h c g
  | made {req : InitReq} {g : Flash} {seed : Bytes 32} {blob : KeyBlob} (hnone : h.config = none)
      (hblob : InitBlob P h.flash req seed blob) (hcut : InitProdWriting P req h.flash blob g) :
      KeyCut h (.init req) g
  | rotated {req : GenerateKeyReq} {g : Flash} {seed : Bytes 32} {blob : KeyBlob}
      (hstate : h.state = .devReady ∨ h.state = .prodReady) (hblob : RotatedBlob h seed blob)
      (hg : WriteStopped P KEY blob.toBytes h.flash g) :
      KeyCut h (.generateKey req) g
  | rewrapped {req : ChangePinReq} {f g : Flash} {newKek : Bytes 32} {newSalt : Bytes 16}
      {blob : KeyBlob} (hblob : RewrapBlob h req newKek newSalt blob) (hf : SameKeySectors h.flash f)
      (hg : WriteStopped P KEY blob.toBytes f g ∨
        ∃ g₀, Wrote P KEY blob.toBytes f g₀ ∧ SameKeySectors g₀ g) : KeyCut h (.changePin req) g

section KeyCut

variable {h : Hsm P} {c : Command}

theorem KeyCut.of_within {F : Field → Prop} {R : Option Region → Prop} {h' : Hsm P}
    (hw : Within F R h h') (hR : ¬ R (some .keyA) ∧ ¬ R (some .keyB)) : KeyCut h c h'.flash :=
  .kept (hw.flash.sameKeySectors hR.1 hR.2)

theorem keyCut_init (req : InitReq) :
    Wp (hsmInit req) (fun _ _ => True) (fun _ h' => KeyCut h (.init req) h'.flash) h := by
  refine (wp_init_cut req h).mono (fun _ _ _ => trivial) ?_
  rintro e h' ⟨hnone, hg | ⟨seed, blob, hblob, hcut⟩⟩
  · exact .kept (hg.within.sameKey (by decide) (by decide))
  · exact .made hnone hblob hcut

theorem keyCut_generateKey (req : GenerateKeyReq) :
    Wp (hsmGenerateKey req) (fun _ _ => True) (fun _ h' => KeyCut h (.generateKey req) h'.flash) h := by
  refine (wp_generateKey req h).mono (fun _ _ _ => trivial) ?_
  rintro e h' ⟨-, hstate, hblob, hg⟩
  exact .rotated hstate hblob hg

theorem keyCut_unlock (hshape : h.Shaped) (req : UnlockReq) :
    Wp (hsmUnlock req) (fun _ _ => True) (fun _ h' => KeyCut h (.unlock req) h'.flash) h := by
  unfold hsmUnlock
  rw [Wp_bind, Wp_get]
  split
  · trivial
  · rename_i hstate
    obtain ⟨cfg, hcfg⟩ := Option.isSome_iff_exists.mp (hshape.config_isSome (Or.inl hstate))
    rw [Wp_bind]
    refine Wp.mono (wp_verifyPin_cut req.pin h hcfg) ?_ ?_
    · intro r h' _
      split <;> trivial
    · rintro e h' (hsame | hlast)
      · exact .kept hsame
      · exact .wiping (Or.inl (hlast.wipesFor (.unlock hstate) hcfg))
  · trivial
  · trivial
  · trivial

/-- The second half of `changePin`, after the PIN was verified. -/
theorem keyCut_rewrap {req : ChangePinReq} {cfg : DeviceConfig} {h₁ : Hsm P} {wasReady : Bool}
    {seed kek : Bytes 32} {salt : Bytes 16} (hcfg : h.config = some cfg)
    (hv : Verified cfg req.currentPin h (.ok (seed, kek, salt)) h₁) :
    Wp (rewrapSeed req.newPin wasReady seed) (fun _ _ => True)
      (fun _ h' => KeyCut h (.changePin req) h'.flash) h₁ := by
  cases hv with
  | @opened g₀ g until_ _ _ _ hticks hopens hreset =>
    have hticked : SameKeySectors h.flash g₀ := ⟨hticks.sector (by decide), hticks.sector (by decide)⟩
    have hafter := SameKeySectors.resets hreset
    have hsame : SameKeySectors h.flash g :=
      ⟨hafter.keyA.trans hticked.keyA, hafter.keyB.trans hticked.keyB⟩
    have hsecret : g.deviceSecret = h.flash.deviceSecret :=
      hreset.within.deviceSecret.trans hticks.within.deviceSecret
    have hblob : ∀ {newKek newSalt blob}, NewPinBlob { h with flash := g, pinBackoffUntilMs := until_ }
        req.newPin seed newKek newSalt blob → RewrapBlob h req newKek newSalt blob := by
      rintro newKek newSalt blob ⟨cfg', secret, pubkey, nonce, hcfg', hs, hkek, hpub, hwrap⟩
      exact ⟨cfg, seed, kek, salt, hcfg, hopens, cfg', secret, pubkey, nonce, hcfg', hsecret.symm.trans hs,
        hkek, hpub, hwrap⟩
    refine (wp_rewrapSeed req.newPin wasReady seed ?_).mono (fun _ _ _ => trivial) ?_
    · change h.config.isSome
      rw [hcfg]
      rfl
    · rintro e h' ⟨-, hcut⟩
      cases hcut with
      | writing hnew hg => exact .rewrapped (hblob hnew) hsame (Or.inl hg)
      | resetting hnew hg hreset' =>
        exact .rewrapped (hblob hnew) hsame (Or.inr ⟨_, hg, .resets hreset'⟩)

theorem keyCut_changePin (hshape : h.Shaped) (req : ChangePinReq) :
    Wp (hsmChangePin req) (fun _ _ => True) (fun _ h' => KeyCut h (.changePin req) h'.flash) h := by
  unfold hsmChangePin
  rw [Wp_bind, Wp_get]
  split
  · trivial
  · trivial
  · trivial
  all_goals
    rename_i hwas
    have hstate : h.state = .prodLocked ∨ h.state = .prodReady := by simp [hwas]
    split
    · trivial
    rename_i hlen
    obtain ⟨cfg, hcfg⟩ := Option.isSome_iff_exists.mp (hshape.config_isSome hstate)
    rw [Wp_bind]
    refine Wp.mono (Wp.and (wp_verifyPin req.currentPin h hcfg)
      (wp_verifyPin_cut req.currentPin h hcfg)) ?_ ?_
    · rintro r h₁ ⟨hv, -⟩
      cases r with
      | error resp => trivial
      | ok opened =>
        obtain ⟨seed, kek, salt⟩ := opened
        exact keyCut_rewrap hcfg hv
    · rintro e h' ⟨-, hsame | hlast⟩
      · exact .kept hsame
      · exact .wiping (Or.inl (hlast.wipesFor (.changePin hstate (not_not.mp hlen)) hcfg))

/-- The gate of the destructive commands touches the key only with the last try. -/
theorem wp_destructiveGate_cut (hshape : h.Shaped) (pin : Option Str) (noPin : String) :
    Wp (destructiveGate pin noPin) (fun _ _ => True)
      (fun _ h' => SameKeySectors h.flash h'.flash ∨ ∃ p cfg, pin = some p ∧
        (h.state = .prodLocked ∨ h.state = .prodReady) ∧ h.physicalRecoveryAuthorized = false ∧
        h.config = some cfg ∧ h.LastTry cfg p) h := by
  have hgate : (h.state = .prodLocked ∨ h.state = .prodReady) → h.physicalRecoveryAuthorized = false →
      Wp (pinGate pin noPin) (fun _ _ => True)
        (fun _ h' => SameKeySectors h.flash h'.flash ∨ ∃ p cfg, pin = some p ∧
          (h.state = .prodLocked ∨ h.state = .prodReady) ∧ h.physicalRecoveryAuthorized = false ∧
          h.config = some cfg ∧ h.LastTry cfg p) h := by
    intro hstate hphysical
    unfold pinGate
    split
    · rename_i p
      obtain ⟨cfg, hcfg⟩ := Option.isSome_iff_exists.mp (hshape.config_isSome hstate)
      rw [Wp_bind]
      refine Wp.mono (wp_verifyPin_cut p h hcfg) ?_ ?_
      · intro r h' _
        split <;> trivial
      · rintro e h' (hsame | hlast)
        · exact Or.inl hsame
        · exact Or.inr ⟨p, cfg, rfl, hstate, hphysical, hcfg, hlast⟩
    · trivial
  unfold destructiveGate
  rw [Wp_bind, Wp_get]
  split
  · rename_i hstate
    split
    · trivial
    · rename_i hphysical
      exact hgate (Or.inl hstate) (by simpa using hphysical)
  · rename_i hstate
    split
    · trivial
    · rename_i hphysical
      exact hgate (Or.inr hstate) (by simpa using hphysical)
  · split <;> trivial
  · trivial
  · trivial

theorem keyCut_rebootBootloader (hshape : h.Shaped) (req : RebootBootloaderReq) :
    Wp (hsmRebootBootloader req) (fun _ _ => True)
      (fun _ h' => KeyCut h (.rebootBootloader req) h'.flash) h := by
  unfold hsmRebootBootloader
  rw [Wp_bind]
  refine Wp.mono (wp_destructiveGate_cut hshape req.pin _) ?_ ?_
  · intro r h' _
    split <;> trivial
  · rintro e h' (hsame | ⟨p, cfg, hpin, hstate, hphysical, hcfg, hlast⟩)
    · exact .kept hsame
    · exact .wiping (Or.inl (hlast.wipesFor (.rebootBootloader hpin hstate hphysical) hcfg))

/-- What a request during which the power goes leaves of the KEY pair. -/
theorem keyCut_run (hshape : h.Shaped) :
    Wp (c.run : Dev P HsmResponse) (fun _ _ => True) (fun _ h' => KeyCut h c h'.flash) h := by
  have hnothing : ∀ {m : Dev P HsmResponse} {F : Field → Prop} {R : Option Region → Prop},
      Stays (Within F R) m → ¬ R (some .keyA) → ¬ R (some .keyB) →
      Wp m (fun _ _ => True) (fun _ h' => KeyCut h c h'.flash) h := by
    intro m F R hm hA hB
    exact (hm h).mono (fun _ _ _ => trivial) fun _ _ hw => .of_within hw ⟨hA, hB⟩
  cases c with
  | init req => exact keyCut_init req
  | generateKey req => exact keyCut_generateKey req
  | getPublicKey => exact hnothing (R := fun _ => False) (F := fun _ => False) stays_getPublicKey id id
  | unlock req => exact keyCut_unlock hshape req
  | lock =>
    exact hnothing (R := fun _ => False) (F := fun _ => True) (stays_lock trivial trivial) id id
  | setTime req =>
    exact hnothing (R := fun r => r = some .timeA ∨ r = some .timeB) (F := fun _ => True)
      (stays_setTime trivial trivial (Or.inl rfl) (Or.inr rfl) req) (by simp) (by simp)
  | status => exact hnothing (R := fun _ => False) (F := fun _ => False) stays_status id id
  | changePin req => exact keyCut_changePin hshape req
  | addEntropy req =>
    exact hnothing (R := fun _ => False) (F := fun _ => False) (stays_addEntropy req) id id
  | selfTest => exact hnothing (R := fun _ => False) (F := fun _ => False) stays_selfTest id id
  | factoryReset req =>
    unfold Wp
    split
    · trivial
    · exact .wiping (Or.inr ⟨req, rfl⟩)
  | rebootBootloader req => exact keyCut_rebootBootloader hshape req

end KeyCut

end PicoSignet
