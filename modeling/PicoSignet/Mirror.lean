/-
  PicoSignet/Mirror.lean
  ======================
  **Booting finds what the session has** — every command updates the session and
  up to four regions of the flash, and a boot rebuilds the session from the flash
  alone.  The two agree whenever the device is at rest (`boot_mirrors_session`): the
  configuration, the public key, the time floor, the live key of a development
  device and the seed behind the live key of a production device.  The exception
  is a pair whose sequence numbers are used up: its next record gets number 0 and
  is not the one a boot reads.
-/
import PicoSignet.Base64
import PicoSignet.Destructive
import PicoSignet.FloorPersist
import PicoSignet.PinBudget

set_option autoImplicit false

namespace PicoSignet

open Crash TwoCopy

variable {P : Prims}

/-! ### What a boot makes of the key record -/

/-- The KEK that a development session over this flash caches. -/
def cachedDevKek (P : Prims) (f : Flash) : Option (Bytes 32) :=
  match f.deviceSecret with
  | .ok secret => some (devKek P secret)
  | .error _ => none

/-- The live key of a development session over this flash. -/
def devLiveKey (P : Prims) (f : Flash) : Option CaKey :=
  match f.deviceSecret, storedKey P f.sector with
  | .ok secret, some blob =>
    match unwrapSeed P (devKek P secret) blob with
    | .ok seed => some (CaKey.fromSeed seed)
    | .error _ => none
  | _, _ => none

/-- The cached KEK opens the KEY record to the seed of the live key. -/
def Hsm.HoldsStoredSeed (h : Hsm P) : Prop :=
  ∃ blob kek ca, storedKey P h.flash.sector = some blob ∧ h.wrapKek = some kek ∧
    h.ca = some ca ∧ unwrapSeed P kek blob = .ok ca.seed

/-- The key material of the session is what the KEY record gives. -/
structure KeyMirrors (h : Hsm P) : Prop where
  pubkey : h.caPubkey = (storedKey P h.flash.sector).map KeyBlob.pubkey
  dev : h.state = .devReady → h.wrapKek = cachedDevKek P h.flash ∧ h.ca = devLiveKey P h.flash
  ready : h.state = .prodReady → h.HoldsStoredSeed

section KeyMirrors

variable {h h' : Hsm P}

theorem KeyMirrors.facing (hkeys : KeyMirrors h) (faults : List Fault) :
    KeyMirrors (h.facing faults) := ⟨hkeys.pubkey, hkeys.dev, hkeys.ready⟩

/-- The KEY record and what the session made of it are as they were. -/
theorem KeyMirrors.same (hkeys : KeyMirrors h)
    (hkey : storedKey P h'.flash.sector = storedKey P h.flash.sector)
    (hsecret : h'.flash.deviceSecret = h.flash.deviceSecret) (hpub : h'.caPubkey = h.caPubkey)
    (hstate : h'.state = h.state) (hca : h'.ca = h.ca) (hkek : h'.wrapKek = h.wrapKek) :
    KeyMirrors h' := by
  constructor
  · rw [hpub, hkey]
    exact hkeys.pubkey
  · intro hdev
    rw [hstate] at hdev
    have hwas := hkeys.dev hdev
    unfold cachedDevKek devLiveKey at hwas ⊢
    rw [hkek, hca, hsecret, hkey]
    exact hwas
  · intro hready
    rw [hstate] at hready
    obtain ⟨blob, kek, ca, hblob, hwrap, hlive, hopen⟩ := hkeys.ready hready
    exact ⟨blob, kek, ca, hkey.trans hblob, hkek.trans hwrap, hca.trans hlive, hopen⟩

/-- A session that is not ready has to know the public key only. -/
theorem KeyMirrors.closed (hpub : h.caPubkey = (storedKey P h.flash.sector).map KeyBlob.pubkey)
    (hdev : h.state ≠ .devReady) (hready : h.state ≠ .prodReady) : KeyMirrors h :=
  ⟨hpub, fun hstate => absurd hstate hdev, fun hstate => absurd hstate hready⟩

/-- Writing a pair leaves the sectors beside it alone. -/
theorem FlashWithin.beside {pair : AbPair} {image : Region → Sector} {f g : Flash} {r : Region}
    (hw : FlashWithin (· = some (pair.nextTarget P.crc32 image)) f g) (hA : r ≠ pair.a)
    (hB : r ≠ pair.b) : g.sector r = f.sector r := by
  apply hw.sector
  intro heq
  rcases pair.nextTarget_mem P.crc32 image with htarget | htarget
  · exact hA ((Option.some.inj heq).trans htarget)
  · exact hB ((Option.some.inj heq).trans htarget)

theorem storedKey_of_latest {image : Region → Sector} (hnone : KEY.latest P.crc32 image = none) :
    storedKey P image = none := by
  unfold storedKey
  rw [hnone]
  rfl

theorem storedKey_of_erased {f : Flash} (herased : KeyErased f) : storedKey P f.sector = none :=
  storedKey_of_latest (latest_erased herased.1 herased.2)

/-- A complete write of a blob is what the next boot reads, if a number was left. -/
theorem storedKey_wrote {f g : Flash} {blob : KeyBlob} (hg : Wrote P KEY blob.toBytes f g)
    (hleft : KEY.NumberLeft P.crc32 f.sector) : storedKey P g.sector = some blob := by
  unfold storedKey
  rw [hg.latest (by rw [length_keyBlob]; norm_num) hleft]
  exact KeyBlob.fromBytes_toBytes blob

/-- A footprint outside the key and the session's part in it. -/
theorem KeyMirrors.within {F : Field → Prop} {R : Option Region → Prop} (hkeys : KeyMirrors h)
    (hw : Within F R h h') (hF : ¬ F .state ∧ ¬ F .secrets ∧ ¬ F .caPubkey)
    (hR : ¬ R (some .keyA) ∧ ¬ R (some .keyB)) : KeyMirrors h' := by
  obtain ⟨hca, hkek, -⟩ := hw.same .secrets hF.2.1
  exact hkeys.same (storedKey_congr (hw.flash.sector _ hR.1) (hw.flash.sector _ hR.2))
    hw.flash.deviceSecret (hw.same .caPubkey hF.2.2) (hw.same .state hF.1) hca hkek

end KeyMirrors

/-! ### Boots -/

theorem Hsm.loadDev_ca {h : Hsm P} (hca : h.ca = none) (keyblob : Option KeyBlob) :
    (h.loadDev keyblob).ca =
      match h.flash.deviceSecret, keyblob with
      | .ok secret, some blob =>
        match unwrapSeed P (devKek P secret) blob with
        | .ok seed => some (CaKey.fromSeed seed)
        | .error _ => none
      | _, _ => none := by
  unfold Hsm.loadDev
  dsimp only
  cases h.flash.deviceSecret with
  | error e => exact hca
  | ok secret =>
    cases keyblob with
    | none => exact hca
    | some blob =>
      dsimp only
      cases unwrapSeed P (devKek P secret) blob with
      | ok seed => rfl
      | error e => exact hca

theorem Hsm.loadDev_wrapKek {h : Hsm P} (hkek : h.wrapKek = none) (keyblob : Option KeyBlob) :
    (h.loadDev keyblob).wrapKek = cachedDevKek P h.flash := by
  unfold Hsm.loadDev cachedDevKek
  dsimp only
  cases h.flash.deviceSecret with
  | error e => exact hkek
  | ok secret => rfl

theorem Hsm.loaded_caPubkey (h : Hsm P) (cfg : Option DeviceConfig) (keyblob : Option KeyBlob)
    (time : Option Int64 × Bool) (attempts : Nat) :
    (h.loaded cfg keyblob time attempts).caPubkey = keyblob.map KeyBlob.pubkey := by
  obtain ⟨state, ca, kek, until_, -, heq⟩ := h.loaded_cases cfg keyblob time attempts
  rw [heq]

/-- A load over a session without live secrets mirrors what it has read. -/
theorem keyMirrors_loaded {h : Hsm P} {cfg : Option DeviceConfig} {keyblob : Option KeyBlob}
    {time : Option Int64 × Bool} {attempts : Nat} (hca : h.ca = none) (hkek : h.wrapKek = none)
    (hkey : keyblob = storedKey P h.flash.sector) :
    KeyMirrors (h.loaded cfg keyblob time attempts) := by
  have hflash : (h.loaded cfg keyblob time attempts).flash = h.flash := by
    obtain ⟨state, ca, kek, until_, -, heq⟩ := h.loaded_cases cfg keyblob time attempts
    rw [heq]
  have hpub : (h.loaded cfg keyblob time attempts).caPubkey =
      (storedKey P (h.loaded cfg keyblob time attempts).flash.sector).map KeyBlob.pubkey := by
    rw [h.loaded_caPubkey, hflash, hkey]
  obtain ⟨state, ca, kek, until_, hstate, heq⟩ := h.loaded_cases cfg keyblob time attempts
  cases hstate with
  | blank => exact .closed hpub (by rw [heq]; simp) (by rw [heq]; simp)
  | locked hmode hroom => exact .closed hpub (by rw [heq]; simp) (by rw [heq]; simp)
  | lockedOut hmode => exact .closed hpub (by rw [heq]; simp) (by rw [heq]; simp)
  | @dev c ca kek hmode =>
    refine ⟨hpub, fun _ => ?_, fun hready => ?_⟩
    · rw [hflash]
      unfold Hsm.loaded
      dsimp only
      rw [hmode]
      dsimp only
      refine ⟨Hsm.loadDev_wrapKek ?_ keyblob, (Hsm.loadDev_ca ?_ keyblob).trans ?_⟩
      · exact hkek
      · exact hca
      · rw [hkey]
        rfl
    · rw [heq] at hready
      simp at hready

/-- What a boot without faults settles about configuration and key. -/
structure BootedKeys (f : Flash) (p : PowerUp) (h : Hsm P) : Prop where
  keys : KeyMirrors h
  config : h.config = storedConfig P f.sector
  floor : FloorKnown h
  sector : h.flash.sector = f.sector
  deviceSecret : h.flash.deviceSecret = p.deviceSecret

theorem PoweredUp.keys {f : Flash} {p : PowerUp} {h : Hsm P} (hboot : PoweredUp f p h)
    (hfaults : Faultless p.faults) : BootedKeys f p h := by
  have hclean := hboot.clean hfaults
  have hlockout := (hboot.lockout hfaults).1
  obtain ⟨drbg, entropy, g, cfg, keyblob, time, attempts, rfl, hg, hread⟩ := hboot
  have hall := hread (Or.inl hfaults.no_fail)
  have hkeys : KeyMirrors ((Hsm.fresh entropy p.mono g drbg).loaded cfg keyblob time attempts) := by
    apply keyMirrors_loaded rfl rfl
    change keyblob = storedKey P g.sector
    rw [hg.sector_eq]
    exact hall.key
  have hflash : ((Hsm.fresh entropy p.mono g drbg).loaded cfg keyblob time attempts).flash = g := by
    obtain ⟨state, ca, kek, until_, -, heq⟩ :=
      (Hsm.fresh entropy p.mono g drbg).loaded_cases cfg keyblob time attempts
    rw [heq]
    rfl
  refine ⟨⟨hkeys.pubkey, hkeys.dev, hkeys.ready⟩, hlockout, ?_, hclean.sector, ?_⟩
  · unfold FloorKnown
    rw [hclean.sector, hclean.floor, hclean.unavailable]
  · exact (congrArg Flash.deviceSecret hflash).trans hg.deviceSecret

/-! ### PIN attempts -/

section Attempts

variable {h h' h₁ : Hsm P} {c : Command} {cfg : DeviceConfig} {pin : Str} {resp : HsmResponse}
  {faults : List Fault}

theorem KeyMirrors.delayed (hkeys : KeyMirrors h) (cfg : DeviceConfig) :
    KeyMirrors (h.delayed cfg) :=
  hkeys.same (Flash.storedKey_ticked P h.flash) (Flash.deviceSecret_ticked h.flash) rfl rfl rfl rfl

theorem KeyMirrors.rejected (hkeys : KeyMirrors h) (cfg : DeviceConfig) :
    KeyMirrors (h.rejected cfg) := by
  have hdelayed := hkeys.delayed cfg
  unfold Hsm.rejected
  split
  · split
    · apply KeyMirrors.closed
      · change none = (storedKey P (h.delayed cfg).flash.wiped.sector).map KeyBlob.pubkey
        rw [storedKey_of_latest (Flash.latest_wiped P.crc32 _)]
        rfl
      · simp [Hsm.enterLockedOut]
      · simp [Hsm.enterLockedOut]
    · apply KeyMirrors.closed
      · exact hdelayed.pubkey
      · simp [Hsm.enterLockedOut]
      · simp [Hsm.enterLockedOut]
  · exact hdelayed

/-- An attempt that fails. -/
theorem KeyMirrors.attempted (hkeys : KeyMirrors h) (hatt : Attempt cfg pin h (.error resp) h₁) :
    KeyMirrors h₁ := by
  cases hatt with
  | busy => exact hkeys
  | unjudged =>
    exact hkeys.same (Flash.storedKey_ticked P h.flash) (Flash.deviceSecret_ticked h.flash) rfl rfl
      rfl rfl
  | rejected => exact hkeys.rejected cfg

theorem Hsm.storedKey_accepted (h : Hsm P) (cfg : DeviceConfig) :
    storedKey P (h.accepted cfg).flash.sector = storedKey P h.flash.sector := by
  rw [← Flash.storedKey_ticked P h.flash]
  exact storedKey_congr (Flash.sector_erase_of_ne (by decide)) (Flash.sector_erase_of_ne (by decide))

theorem Hsm.deviceSecret_accepted (h : Hsm P) (cfg : DeviceConfig) :
    (h.accepted cfg).flash.deviceSecret = h.flash.deviceSecret := Flash.deviceSecret_ticked h.flash

/-- An attempt that succeeds. -/
theorem KeyMirrors.accepted (hkeys : KeyMirrors h) (cfg : DeviceConfig) :
    KeyMirrors (h.accepted cfg) :=
  hkeys.same (h.storedKey_accepted cfg) (h.deviceSecret_accepted cfg) rfl rfl rfl rfl

/-- The gate of the destructive commands: the attempt ended the command, or the gate
    has decided, and in both cases the session still mirrors the key. -/
theorem KeyMirrors.gate (hkeys : KeyMirrors h) (hshape : h.Shaped) (pin : Option Str)
    (noPin : String)
    (hands : ∀ p, pin = some p → (h.state = .prodLocked ∨ h.state = .prodReady) →
      h.physicalRecoveryAuthorized = false → Hands h c p)
    (hfaults : Faultless faults) (hrun : c.run (h.facing faults) = .ok resp h') :
    KeyMirrors h' ∨ ∃ r h₁, KeyMirrors h₁ ∧ Serves (destructiveGate pin noPin) h r h₁ := by
  by_cases hidle : (h.state = .prodLocked ∨ h.state = .prodReady) ∧
      h.physicalRecoveryAuthorized = false ∧ pin.isSome
  · obtain ⟨hstate, hphysical, hsome⟩ := hidle
    obtain ⟨p, rfl⟩ := Option.isSome_iff_exists.mp hsome
    rcases (hands p rfl hstate hphysical).ends hshape hfaults hrun with
      ⟨cfg, h₁, faults', -, hatt, rfl⟩ | ⟨cfg, seed, kek, salt, -, -, -, hserves⟩
    · exact Or.inl ((hkeys.attempted hatt).facing faults')
    · exact Or.inr ⟨_, _, hkeys.accepted cfg, serves_destructiveGate noPin hstate hphysical hserves⟩
  · obtain ⟨r, hserves, -⟩ := serves_destructiveGate_idle pin noPin hidle
    exact Or.inr ⟨r, h, hkeys, hserves⟩

end Attempts

/-! ### Commands that make or drop a key -/

/-- How the wrapped keys of the device behave: a KEK opens what it has wrapped, and the
    development KEK opens nothing that was wrapped under a PIN. -/
structure Sealing (P : Prims) (secret : Bytes 32) : Prop where
  opens : ∀ kek seed pubkey wrapType salt nonce,
    unwrapSeed P kek (wrapSeed P kek seed pubkey wrapType salt nonce) = .ok seed
  apart : ∀ pin salt params kek seed pubkey nonce seed',
    pinKek P pin salt params secret = .ok kek →
      unwrapSeed P (devKek P secret) (wrapSeed P kek seed pubkey .pinKek salt nonce) ≠ .ok seed'

/-- The pairs the command writes have a number left. -/
def Hsm.Numbered (h : Hsm P) : Command → Prop
  | .init _ => CONFIG.NumberLeft P.crc32 h.flash.sector ∧ KEY.NumberLeft P.crc32 h.flash.sector
  | .generateKey _ => KEY.NumberLeft P.crc32 h.flash.sector
  | .changePin _ => KEY.NumberLeft P.crc32 h.flash.sector
  | .setTime _ => TIME_FLOOR.NumberLeft P.crc32 h.flash.sector
  | _ => True

/-- No key blob in either sector opens under the development KEK. -/
def DevLocked (P : Prims) (secret : Bytes 32) (f : Flash) : Prop :=
  (KEY.copies P.crc32 f.sector).All fun payload => ∀ blob seed,
    KeyBlob.fromBytes payload = some blob → unwrapSeed P (devKek P secret) blob ≠ .ok seed

theorem DevLocked.storedKey {secret : Bytes 32} {f : Flash} (hlocked : DevLocked P secret f)
    {blob : KeyBlob} (hblob : storedKey P f.sector = some blob) (seed : Bytes 32) :
    unwrapSeed P (devKek P secret) blob ≠ .ok seed := by
  obtain ⟨payload, hpayload, hbytes⟩ := Option.bind_eq_some_iff.mp hblob
  exact hlocked.newest hpayload blob seed hbytes

theorem wp_initDev_kek (h : Hsm P) :
    Wp initDev
      (fun _ h' => h'.wrapKek = h.wrapKek ∧ h'.state = h.state ∨
        ∃ secret, h.flash.deviceSecret = .ok secret ∧ h'.wrapKek = some (devKek P secret))
      (fun _ _ => True) h := by
  unfold initDev
  rw [Wp_bind, Wp_get]
  split
  · exact Or.inl ⟨rfl, rfl⟩
  rename_i secret hsecret
  dsimp only
  have hlength : devConfig.toBytes.length ≤ 4080 := by
    rw [length_deviceConfig]
    norm_num
  rw [Wp_bind]
  refine Wp.mono (wp_onFlash_write CONFIG hlength h) ?_ fun _ _ _ => trivial
  rintro r _ ⟨g, rfl, ⟨rfl, -⟩ | ⟨⟨e, rfl⟩, -⟩⟩
  · exact Or.inr ⟨secret, hsecret, rfl⟩
  · exact Or.inl ⟨rfl, rfl⟩

theorem wp_init_kek (req : InitReq) (h : Hsm P) :
    Wp (hsmInit req)
      (fun _ h' => (h'.wrapKek = h.wrapKek ∧ h'.state = h.state ∨ h'.state = .prodLocked) ∨
        ∃ secret, h.flash.deviceSecret = .ok secret ∧ h'.wrapKek = some (devKek P secret))
      (fun _ _ => True) h := by
  unfold hsmInit
  rw [Wp_bind, Wp_get]
  split
  · exact Or.inl (Or.inl ⟨rfl, rfl⟩)
  split
  · refine (wp_initDev_kek h).mono ?_ fun _ _ _ => trivial
    rintro _ h' (hsame | hkek)
    · exact Or.inl (Or.inl hsame)
    · exact Or.inr hkek
  split
  · refine (wp_initProd req h).mono ?_ fun _ _ _ => trivial
    intro _ h' hi
    cases hi with
    | refused hrng =>
      rw [hrng]
      exact Or.inl (Or.inl ⟨rfl, rfl⟩)
    | keyFailed => exact Or.inl (Or.inl ⟨rfl, rfl⟩)
    | configFailed => exact Or.inl (Or.inl ⟨rfl, rfl⟩)
    | done => exact Or.inl (Or.inr rfl)
  · exact Or.inl (Or.inl ⟨rfl, rfl⟩)

section Served

variable {h h' : Hsm P} {c : Command} {resp : HsmResponse} {faults : List Fault}
  {secret : Bytes 32}

theorem KeyMirrors.onlyRng (hkeys : KeyMirrors h) (hrng : OnlyRng h h') : KeyMirrors h' := by
  rw [hrng]
  exact ⟨hkeys.pubkey, hkeys.dev, hkeys.ready⟩

/-- A session without a configuration holds nothing. -/
theorem Hsm.Shaped.blank (hshape : h.Shaped) (hnone : h.config = none) :
    h.state = .uninitialized ∧ h.ca = none ∧ h.wrapKek = none := by
  unfold Hsm.Shaped at hshape
  rw [hnone] at hshape
  generalize h.state = state at hshape ⊢
  generalize h.ca = ca at hshape ⊢
  generalize h.wrapKek = kek at hshape ⊢
  generalize h.wrapSalt = salt at hshape
  cases hshape with
  | blank => exact ⟨rfl, rfl, rfl⟩

theorem devLiveKey_of_locked {f : Flash} (hlocked : DevLocked P secret f)
    (hsecret : ∀ s, f.deviceSecret = .ok s → s = secret) : devLiveKey P f = none := by
  unfold devLiveKey
  cases hs : f.deviceSecret with
  | error e => rfl
  | ok s =>
    obtain rfl := hsecret s hs
    cases hblob : storedKey P f.sector with
    | none => rfl
    | some blob =>
      dsimp only
      cases hopen : unwrapSeed P (devKek P s) blob with
      | ok seed => exact absurd hopen (hlocked.storedKey hblob seed)
      | error e => rfl

theorem KeyMirrors.init {req : InitReq} (hkeys : KeyMirrors h) (hshape : h.Shaped)
    (hsecret : ∀ s, h.flash.deviceSecret = .ok s → s = secret)
    (hlocked : h.config = none → DevLocked P secret h.flash) (hnum : h.Numbered (.init req))
    (hfaults : Faultless faults) (hrun : hsmInit req (h.facing faults) = .ok resp h') :
    KeyMirrors h' := by
  have hno : ¬ ∃ left, Fault.fail left ∈ (h.facing faults).flash.faults :=
    not_exists.mpr hfaults.no_fail
  have hkek := (wp_init_kek req (h.facing faults)).of_ok hrun
  rcases (wp_init req (h.facing faults)).of_ok hrun with
    rfl | ⟨hnone, ⟨-, hdev⟩ | ⟨-, hprod⟩⟩
  · exact hkeys.facing faults
  · obtain ⟨hstate, hca, -⟩ := hshape.blank hnone
    cases hdev with
    | refused => exact hkeys.facing faults
    | failed hg hfail => exact absurd hfail hno
    | @done g kek hg =>
      have hsector : storedKey P g.sector = storedKey P h.flash.sector :=
        storedKey_congr (hg.within.beside (by decide) (by decide))
          (hg.within.beside (by decide) (by decide))
      have hs : g.deviceSecret = h.flash.deviceSecret := hg.within.deviceSecret
      rcases hkek with (⟨-, hwas⟩ | hwas) | ⟨s, hs', hkek⟩
      · exact absurd (hwas.trans hstate) (by simp)
      · exact absurd hwas (by simp)
      refine ⟨?_, fun _ => ⟨?_, ?_⟩, fun hready => by simp at hready⟩
      · change h.caPubkey = (storedKey P g.sector).map KeyBlob.pubkey
        rw [hsector]
        exact hkeys.pubkey
      · refine hkek.trans ?_
        unfold cachedDevKek
        change _ = match g.deviceSecret with | .ok secret => some (devKek P secret) | .error _ => none
        rw [hs, show h.flash.deviceSecret = .ok s from hs']
      · change h.ca = devLiveKey P g
        have hwas := devLiveKey_of_locked (hlocked hnone) hsecret
        unfold devLiveKey at hwas ⊢
        rw [hs, hsector, hwas, hca]
  · cases hprod with
    | refused hrng => exact (hkeys.facing faults).onlyRng hrng
    | keyFailed hresp hg hfail => exact absurd hfail hno
    | configFailed hresp hg hg' hfail => exact absurd hfail hno
    | @done drbg entropy g g' g'' seed blob hretries hblob hg hg' hreset =>
      apply KeyMirrors.closed
      · change some (P.edPublic seed) = (storedKey P g''.sector).map KeyBlob.pubkey
        have hstored : storedKey P g.sector = some blob := storedKey_wrote hg hnum.2
        have hconfig : storedKey P g'.sector = storedKey P g.sector :=
          storedKey_congr (hg'.within.beside (by decide) (by decide))
            (hg'.within.beside (by decide) (by decide))
        have hpin : storedKey P g''.sector = storedKey P g'.sector :=
          storedKey_congr (hreset.within.sector _ (by simp)) (hreset.within.sector _ (by simp))
        rw [hpin, hconfig, hstored]
        obtain ⟨pin, s, salt, kek, nonce, -, -, -, rfl⟩ := hblob
        rfl
      · simp
      · simp

theorem KeyMirrors.generateKey {req : GenerateKeyReq} (hkeys : KeyMirrors h)
    (hseals : Sealing P secret) (hnum : h.Numbered (.generateKey req)) (hfaults : Faultless faults)
    (hrun : hsmGenerateKey req (h.facing faults) = .ok resp h') : KeyMirrors h' := by
  have hno : ¬ ∃ left, Fault.fail left ∈ (h.facing faults).flash.faults :=
    not_exists.mpr hfaults.no_fail
  rcases (wp_generateKey req (h.facing faults)).of_ok hrun with ⟨rfl, -⟩ | ⟨-, hrotated⟩
  · exact hkeys.facing faults
  cases hrotated with
  | refused hrng => exact (hkeys.facing faults).onlyRng hrng
  | failed hresp hg hfail => exact absurd hfail hno
  | @done drbg entropy g seed blob line hblob hg =>
    have hstored : storedKey P g.sector = some blob := storedKey_wrote hg hnum
    obtain ⟨cfg, kek, salt, nonce, -, hwrap, -, rfl⟩ := hblob
    have hopen := hseals.opens kek seed (P.edPublic seed) (WrapType.ofMode cfg.mode) salt nonce
    refine ⟨?_, fun hdev => ?_, fun _ => ⟨_, kek, CaKey.fromSeed seed, hstored, hwrap, rfl, hopen⟩⟩
    · change some (P.edPublic seed) = (storedKey P g.sector).map KeyBlob.pubkey
      rw [hstored]
      rfl
    · have hs : g.deviceSecret = h.flash.deviceSecret := hg.within.deviceSecret
      have hcached : h.wrapKek = cachedDevKek P h.flash := (hkeys.dev hdev).1
      refine ⟨?_, ?_⟩
      · change h.wrapKek = cachedDevKek P g
        unfold cachedDevKek at hcached ⊢
        rw [hs]
        exact hcached
      · change some (CaKey.fromSeed seed) = devLiveKey P g
        rw [show h.wrapKek = some kek from hwrap] at hcached
        unfold cachedDevKek at hcached
        unfold devLiveKey
        rw [hs, hstored]
        cases hsecret : h.flash.deviceSecret with
        | error e => simp [hsecret] at hcached
        | ok s =>
          rw [hsecret] at hcached
          dsimp only at hcached ⊢
          rw [← Option.some.inj hcached, hopen]

theorem KeyMirrors.unlock {req : UnlockReq} (hkeys : KeyMirrors h) (hshape : h.Shaped)
    (hfaults : Faultless faults) (hrun : hsmUnlock req (h.facing faults) = .ok resp h') :
    KeyMirrors h' := by
  by_cases hstate : h.state = .prodLocked
  · have hands : Hands h (.unlock req) req.pin := .unlock hstate
    rcases hands.ends hshape hfaults hrun with
      ⟨cfg, h₁, faults', -, hatt, rfl⟩ | ⟨cfg, seed, kek, salt, -, -, hopens, hserves⟩
    · exact (hkeys.attempted hatt).facing faults'
    · obtain ⟨-, faults', rfl, -⟩ := (serves_unlock hstate hserves).of_ok hfaults hrun
      obtain ⟨blob, s, hstored, -, -, -, hopen⟩ := hopens
      refine ⟨(hkeys.accepted cfg).pubkey, fun hdev => by simp [Hsm.facing] at hdev, fun _ => ?_⟩
      exact ⟨blob, kek, CaKey.fromSeed seed, (h.storedKey_accepted cfg).trans hstored, rfl, rfl,
        hopen⟩
  · cases (wp_unlock req (h.facing faults)).of_ok hrun with
    | refused => exact hkeys.facing faults
    | rejected hcfg hlocked hv => exact absurd hlocked hstate
    | opened hcfg hlocked hv => exact absurd hlocked hstate

theorem KeyMirrors.lock (hkeys : KeyMirrors h) (hrun : hsmLock (h.facing faults) = .ok resp h') :
    KeyMirrors h' := by
  rcases (wp_lock (h.facing faults)).of_ok hrun with
    ⟨-, -, rfl⟩ | ⟨hstate, -, rfl⟩ | ⟨-, rfl⟩
  · exact .closed hkeys.pubkey (by simp) (by simp)
  · apply KeyMirrors.closed
    · exact hkeys.pubkey
    · intro hdev
      rcases hstate with hstate | hstate <;> exact absurd (hstate.symm.trans hdev) (by simp)
    · intro hready
      rcases hstate with hstate | hstate <;> exact absurd (hstate.symm.trans hready) (by simp)
  · exact hkeys.facing faults

theorem Hsm.numberLeft_accepted {cfg : DeviceConfig} (hleft : KEY.NumberLeft P.crc32 h.flash.sector) :
    KEY.NumberLeft P.crc32 (h.accepted cfg).flash.sector := by
  have hsector : ∀ r, r ≠ .pinCounter → (h.accepted cfg).flash.sector r = h.flash.sector r := by
    intro r hr
    exact (Flash.sector_erase_of_ne hr).trans (Flash.sector_ticked hr)
  unfold AbPair.NumberLeft
  rw [AbPair.copies_congr (hsector _ (by decide)) (hsector _ (by decide))]
  exact hleft

theorem KeyMirrors.changePin {req : ChangePinReq} (hkeys : KeyMirrors h) (hshape : h.Shaped)
    (hseals : Sealing P secret) (hnum : h.Numbered (.changePin req)) (hfaults : Faultless faults)
    (hrun : hsmChangePin req (h.facing faults) = .ok resp h') : KeyMirrors h' := by
  by_cases hgo : (h.state = .prodLocked ∨ h.state = .prodReady) ∧
      (PIN_MIN ≤ req.newPin.len ∧ req.newPin.len ≤ PIN_MAX)
  case neg =>
    rw [changePin_idle hgo hrun]
    exact hkeys.facing faults
  obtain ⟨hstate, hlen⟩ := hgo
  have hands : Hands h (.changePin req) req.currentPin := .changePin hstate hlen
  rcases hands.ends hshape hfaults hrun with
    ⟨cfg, h₁, faults', -, hatt, rfl⟩ | ⟨cfg, seed, kek, salt, hcfg, -, -, hserves⟩
  · exact (hkeys.attempted hatt).facing faults'
  obtain ⟨faults₁, hfaults₁, hrest⟩ := changePin_opened hstate hlen hserves hfaults
  rw [hrest] at hrun
  have hkeys₁ := (hkeys.accepted cfg).facing faults₁
  have hcfg₁ : ((h.accepted cfg).facing faults₁).config.isSome := by
    change h.config.isSome
    rw [hcfg]
    rfl
  cases (wp_rewrapSeed req.newPin (decide (h.state = .prodReady)) seed hcfg₁).of_ok hrun with
  | refused hrng => exact hkeys₁.onlyRng hrng
  | failed hresp hg hfail => exact absurd hfail (not_exists.mpr hfaults₁.no_fail)
  | @done drbg entropy g g' until_ newKek newSalt blob hblob hg hreset =>
    have hstored : storedKey P g'.sector = some blob :=
      (storedKey_congr (hreset.within.sector _ (by simp)) (hreset.within.sector _ (by simp))).trans
        (storedKey_wrote hg (Hsm.numberLeft_accepted hnum))
    obtain ⟨cfg', s, pubkey, nonce, -, -, -, hpub, rfl⟩ := hblob
    have hopen := hseals.opens newKek seed pubkey .pinKek newSalt nonce
    have hpubkey : ((h.accepted cfg).facing faults₁).caPubkey =
        (storedKey P g'.sector).map KeyBlob.pubkey := by
      rw [hstored, hpub]
      rfl
    cases decide (h.state = .prodReady) with
    | true =>
      refine ⟨hpubkey, fun hdev => by simp at hdev, fun _ => ?_⟩
      exact ⟨_, newKek, CaKey.fromSeed seed, hstored, rfl, rfl, hopen⟩
    | false => exact .closed hpubkey (by simp) (by simp)

theorem KeyMirrors.factoryReset {req : FactoryResetReq} (hkeys : KeyMirrors h)
    (hshape : h.Shaped) (hfaults : Faultless faults)
    (hrun : hsmFactoryReset req (h.facing faults) = .ok resp h') : KeyMirrors h' := by
  by_cases hconfirm : req.confirm = confirmErase
  case neg =>
    unfold hsmFactoryReset at hrun
    rw [if_pos hconfirm] at hrun
    cases hrun
    exact hkeys.facing faults
  rcases hkeys.gate (c := .factoryReset req) hshape req.pin
    "factory-reset requires a PIN or physical recovery held low during reset"
    (fun p hp hstate hphysical => .factoryReset hconfirm hp hstate hphysical) hfaults hrun with
    hdone | ⟨r, h₁, hkeys₁, hserves⟩
  · exact hdone
  cases r with
  | some resp' =>
    have hrefused : Serves (hsmFactoryReset req) h resp' h₁ := by
      unfold hsmFactoryReset
      rw [if_neg (not_not.mpr hconfirm)]
      exact hserves.bind (Serves.pure _ _)
    obtain ⟨-, faults', rfl, -⟩ := hrefused.of_ok hfaults hrun
    exact hkeys₁.facing faults'
  | none =>
    obtain ⟨-, faults', rfl, -⟩ := (serves_factoryReset hconfirm hserves).of_ok hfaults hrun
    apply KeyMirrors.closed
    · change none = (storedKey P h₁.flash.blanked.sector).map KeyBlob.pubkey
      rw [storedKey_of_latest (latest_blanked P.crc32 KEY h₁.flash)]
      rfl
    · simp [Hsm.facing, Hsm.afterReset]
    · simp [Hsm.facing, Hsm.afterReset]

theorem KeyMirrors.rebootBootloader {req : RebootBootloaderReq} (hkeys : KeyMirrors h)
    (hshape : h.Shaped) (hfaults : Faultless faults)
    (hrun : hsmRebootBootloader req (h.facing faults) = .ok resp h') : KeyMirrors h' := by
  rcases hkeys.gate (c := .rebootBootloader req) hshape req.pin
    "rebooting into the bootloader requires a PIN or physical recovery held low during reset"
    (fun p hp hstate hphysical => .rebootBootloader hp hstate hphysical) hfaults hrun with
    hdone | ⟨r, h₁, hkeys₁, hserves⟩
  · exact hdone
  cases r with
  | some resp' =>
    have hrefused : Serves (hsmRebootBootloader req) h resp' h₁ :=
      hserves.bind (Serves.pure _ _)
    obtain ⟨-, faults', rfl, -⟩ := hrefused.of_ok hfaults hrun
    exact hkeys₁.facing faults'
  | none =>
    have hopened : Serves (hsmRebootBootloader req) h (.rebootBootloader true)
        { h₁ with rebootRequested := true } :=
      hserves.bind (Serves.modify_bind (fun _ => rfl) (Serves.pure _ _))
    obtain ⟨-, faults', rfl, -⟩ := hopened.of_ok hfaults hrun
    exact ⟨hkeys₁.pubkey, hkeys₁.dev, hkeys₁.ready⟩

/-- The step lemma for commands: over working flash the session goes on to mirror the key. -/
theorem KeyMirrors.served (hkeys : KeyMirrors h) (hshape : h.Shaped) (hseals : Sealing P secret)
    (hsecret : ∀ s, h.flash.deviceSecret = .ok s → s = secret)
    (hlocked : h.config = none → DevLocked P secret h.flash) (hnum : h.Numbered c)
    (hfaults : Faultless faults) (hrun : c.run (h.facing faults) = .ok resp h') :
    KeyMirrors h' := by
  have hnothing : ∀ {m : Dev P HsmResponse}, Stays (Within (fun _ => False) fun _ => False) m →
      m (h.facing faults) = .ok resp h' → KeyMirrors h' := by
    intro m hm hrun
    exact (hkeys.facing faults).within ((hm (h.facing faults)).of_ok hrun) ⟨id, id, id⟩ ⟨id, id⟩
  cases c with
  | init req => exact hkeys.init hshape hsecret hlocked hnum hfaults hrun
  | generateKey req => exact hkeys.generateKey hseals hnum hfaults hrun
  | getPublicKey => exact hnothing stays_getPublicKey hrun
  | unlock req => exact hkeys.unlock hshape hfaults hrun
  | lock => exact hkeys.lock hrun
  | setTime req =>
    have hw : Within (fun x => x = .clock ∨ x = .floor)
        (fun r => r = some .timeA ∨ r = some .timeB) (h.facing faults) h' :=
      (stays_setTime (Or.inl rfl) (Or.inr rfl) (Or.inl rfl) (Or.inr rfl) req
        (h.facing faults)).of_ok hrun
    exact (hkeys.facing faults).within hw (by simp) (by simp)
  | status => exact hnothing stays_status hrun
  | changePin req => exact hkeys.changePin hshape hseals hnum hfaults hrun
  | addEntropy req => exact hnothing (stays_addEntropy req) hrun
  | selfTest => exact hnothing stays_selfTest hrun
  | factoryReset req => exact hkeys.factoryReset hshape hfaults hrun
  | rebootBootloader req => exact hkeys.rebootBootloader hshape hfaults hrun

end Served

/-! ### The regions a command leaves alone -/

/-- Both KEY sectors are as they were. -/
structure SameKeySectors (f g : Flash) : Prop where
  keyA : g.sector .keyA = f.sector .keyA
  keyB : g.sector .keyB = f.sector .keyB

theorem FlashWithin.sameKeySectors {R : Option Region → Prop} {f g : Flash}
    (hw : FlashWithin R f g) (hA : ¬ R (some .keyA)) (hB : ¬ R (some .keyB)) :
    SameKeySectors f g := ⟨hw.sector _ hA, hw.sector _ hB⟩

theorem SameKeySectors.devLocked {secret : Bytes 32} {f g : Flash} (hsame : SameKeySectors f g)
    (hlocked : DevLocked P secret f) : DevLocked P secret g := by
  unfold DevLocked
  rw [AbPair.copies_congr hsame.keyA hsame.keyB]
  exact hlocked

theorem KeyErased.devLocked {secret : Bytes 32} {f : Flash} (herased : KeyErased f) :
    DevLocked P secret f := by
  unfold DevLocked
  rw [AbPair.copies_erased herased.1 herased.2]
  exact Copies.all_empty

section Regions

variable {c : Command} {h : Hsm P}

/-- The commands other than `init` and `factoryReset` leave the configuration alone. -/
theorem besidesConfig_run (hinit : ∀ req, c ≠ .init req) (hreset : ∀ req, c ≠ .factoryReset req) :
    Stays (Within NotConfig NotConfigRegion) (c.run : Dev P HsmResponse) := by
  have hscope := pinScope_notConfig
  cases c with
  | init req => exact absurd rfl (hinit req)
  | generateKey req =>
    exact stays_generateKey hscope.keyA hscope.keyB hscope.secrets hscope.caPubkey req
  | getPublicKey => exact stays_getPublicKey
  | unlock req => exact stays_unlock hscope req
  | lock => exact stays_lock hscope.state hscope.secrets
  | setTime req =>
    exact stays_setTime (by simp [NotConfig]) (by simp [NotConfig]) (by simp [NotConfigRegion])
      (by simp [NotConfigRegion]) req
  | status => exact stays_status
  | changePin req => exact stays_changePin hscope req
  | addEntropy req => exact stays_addEntropy req
  | selfTest => exact stays_selfTest
  | factoryReset req => exact absurd rfl (hreset req)
  | rebootBootloader req => exact stays_rebootBootloader hscope (by simp [NotConfig]) req

theorem Gate.blank {pin : Option Str} {r : Option HsmResponse} {h' : Hsm P}
    (hstate : h.state = .uninitialized) (hgate : Gate pin h r h') : h' = h := by
  have hno : ¬ (h.state = .prodLocked ∨ h.state = .prodReady) := by
    rw [hstate]
    simp
  cases hgate with
  | free => rfl
  | physical => rfl
  | refused => rfl
  | verified hpin hstate' => exact absurd hstate' hno
  | rejected hpin hstate' => exact absurd hstate' hno

/-- On a blank device only these two touch the key either, wherever they stop. -/
theorem sameKeySectors_run (hinit : ∀ req, c ≠ .init req) (hreset : ∀ req, c ≠ .factoryReset req)
    (hstate : h.state = .uninitialized) :
    Wp (c.run : Dev P HsmResponse) (fun _ h' => SameKeySectors h.flash h'.flash)
      (fun _ h' => SameKeySectors h.flash h'.flash) h := by
  have hrefl : SameKeySectors h.flash h.flash := ⟨rfl, rfl⟩
  have hno : ¬ (h.state = .prodLocked ∨ h.state = .prodReady) := by
    rw [hstate]
    simp
  have hnothing : ∀ {m : Dev P HsmResponse} {F : Field → Prop} {R : Option Region → Prop},
      Stays (Within F R) m → ¬ R (some .keyA) → ¬ R (some .keyB) →
      Wp m (fun _ h' => SameKeySectors h.flash h'.flash)
        (fun _ h' => SameKeySectors h.flash h'.flash) h := by
    intro m F R hm hA hB
    exact (hm h).mono (fun _ _ hw => hw.flash.sameKeySectors hA hB)
      fun _ _ hw => hw.flash.sameKeySectors hA hB
  cases c with
  | init req => exact absurd rfl (hinit req)
  | generateKey req =>
    have hready : ¬ (h.state = .devReady ∨ h.state = .prodReady) := by
      rw [hstate]
      simp
    refine (wp_generateKey req h).mono ?_ fun _ _ he => absurd he.2.1 hready
    rintro resp h' (⟨rfl, -⟩ | ⟨hwas, -⟩)
    · exact hrefl
    · exact absurd hwas hready
  | getPublicKey => exact hnothing (R := fun _ => False) (F := fun _ => False) stays_getPublicKey id id
  | unlock req =>
    refine (wp_unlock req h).mono ?_ fun _ _ he => absurd (Or.inl he.1) hno
    intro resp h' hu
    cases hu with
    | refused => exact hrefl
    | rejected hcfg hwas => exact absurd (Or.inl hwas) hno
    | opened hcfg hwas => exact absurd (Or.inl hwas) hno
  | lock =>
    exact hnothing (R := fun _ => False) (F := fun _ => True) (stays_lock trivial trivial) id id
  | setTime req =>
    exact hnothing (R := fun r => r = some .timeA ∨ r = some .timeB) (F := fun _ => True)
      (stays_setTime trivial trivial (Or.inl rfl) (Or.inr rfl) req) (by simp) (by simp)
  | status => exact hnothing (R := fun _ => False) (F := fun _ => False) stays_status id id
  | changePin req =>
    refine (wp_changePin req h).mono ?_ fun _ _ he => absurd he.1 hno
    intro resp h' hchanged
    cases hchanged with
    | refused => exact hrefl
    | rejected hcfg hwas => exact absurd hwas hno
    | rewrapped hcfg hwas => exact absurd hwas hno
  | addEntropy req =>
    exact hnothing (R := fun _ => False) (F := fun _ => False) (stays_addEntropy req) id id
  | selfTest => exact hnothing (R := fun _ => False) (F := fun _ => False) stays_selfTest id id
  | factoryReset req => exact absurd rfl (hreset req)
  | rebootBootloader req =>
    refine (wp_rebootBootloader req h).mono ?_ ?_
    · rintro resp h' (⟨r, hgate⟩ | ⟨h₁, hgate, rfl⟩)
      · rw [hgate.blank hstate]
        exact hrefl
      · rw [hgate.blank hstate]
        exact hrefl
    · rintro e h' ⟨p, -, hwas, -⟩
      exact absurd hwas hno

end Regions

/-! ### Erasing everything -/

/-- No flash operation ahead fails; the power may go. -/
def Unfailing (faults : List Fault) : Prop := ∀ left, Fault.fail left ∉ faults

theorem Unfailing.of_suffix {faults faults' : List Fault} (h : Unfailing faults)
    (hs : faults' <:+ faults) : Unfailing faults' := fun left hleft => h left (hs.subset hleft)

/-- One erase of the KEY pair: it is gone, or the power is. -/
theorem wp_eraseBoth_unfailing {h : Hsm P} (hfaults : Unfailing h.flash.faults) :
    Wp (onFlash KEY.eraseBoth : Dev P (Except HalError Unit))
      (fun _ h' => KeyErased h'.flash ∧ FlashWithin KeyRegion h.flash h'.flash)
      (fun _ h' => FlashWithin KeyRegion h.flash h'.flash) h := by
  rw [Wp_onFlash]
  refine Wp.mono (Wp.and (runs_eraseBoth KEY h.flash)
    (stays_eraseBoth (R := KeyRegion) (Or.inl rfl) (Or.inr rfl) h.flash)) ?_ ?_
  · rintro _ g ⟨⟨hg, -⟩, hwithin⟩
    refine ⟨⟨?_, ?_⟩, hwithin⟩
    · simp [hg, KEY]
    · simp [hg, KEY]
  · rintro e g ⟨hjust, hwithin⟩
    cases e with
    | hal e =>
      obtain ⟨left, hleft⟩ := hjust
      exact absurd hleft (hfaults left)
    | powerLoss => exact hwithin

/-- The verified erase leaves no key, unless it has no try and there was one. -/
theorem wp_eraseKeyVerified_unfailing {tries : Nat} {h : Hsm P}
    (hfaults : Unfailing h.flash.faults) (hgoal : 0 < tries ∨ KeyErased h.flash) :
    Wp (eraseKeyVerified tries : Dev P Bool) (fun _ h' => KeyErased h'.flash)
      (fun _ h' => FlashWithin KeyRegion h.flash h'.flash) h := by
  have hreads : ∀ {f g : Flash}, FlashWithin (fun _ => False) f g → FlashWithin KeyRegion f g :=
    fun hg => hg.mono fun _ hr => hr.elim
  induction tries generalizing h with
  | zero =>
    rcases hgoal with hpos | herased
    · exact absurd hpos (lt_irrefl 0)
    · exact herased
  | succ tries ih =>
    unfold eraseKeyVerified
    rw [Wp_bind, Wp_onFlash]
    change Wp _ _ _ ({ h with flash := h.flash.log .wipe } : Hsm P)
    have hlog := within_logWipe h.flash
    rw [Wp_bind]
    refine Wp.mono (wp_eraseBoth_unfailing (h := { h with flash := h.flash.log .wipe }) hfaults)
      ?_ fun _ _ hw => trans_of (FlashWithin KeyRegion) hlog hw
    rintro _ h₁ ⟨herased, hw⟩
    have hfw := trans_of (FlashWithin KeyRegion) hlog hw
    rw [Wp_bind]
    refine Wp.mono (wp_onFlash_reads (reads_readLatest KEY h₁.flash)) ?_ ?_
    · rintro r _ ⟨g, rfl, hg, -⟩
      have hfg := trans_of (FlashWithin KeyRegion) hfw (hreads hg)
      have herased' : KeyErased g :=
        ⟨(hg.sector _ id).trans herased.1, (hg.sector _ id).trans herased.2⟩
      split
      · exact herased'
      · refine (ih (h := { h₁ with flash := g }) (hfaults.of_suffix hfg.faults)
          (Or.inr herased')).mono (fun _ _ hdone => hdone) ?_
        intro e h' hstop
        exact trans_of (FlashWithin KeyRegion) hfg hstop
    · rintro e _ ⟨-, -, g, rfl, hg⟩
      exact trans_of (FlashWithin KeyRegion) hfw (hreads hg)

/-- What an interrupted factory reset leaves: the configuration goes after the key. -/
theorem wp_factoryReset_unfailing (req : FactoryResetReq) {h : Hsm P}
    (hfaults : Unfailing h.flash.faults) :
    Wp (hsmFactoryReset req) (fun _ _ => True)
      (fun _ h' => storedConfig P h'.flash.sector = storedConfig P h.flash.sector ∨
        KeyErased h'.flash) h := by
  have hconfig : ∀ {R : Option Region → Prop} {f g : Flash}, FlashWithin R f g →
      ¬ R (some .configA) → ¬ R (some .configB) →
      storedConfig P g.sector = storedConfig P f.sector := by
    intro R f g hw hA hB
    unfold storedConfig
    rw [AbPair.latest_congr (hw.sector _ hA) (hw.sector _ hB)]
  unfold hsmFactoryReset
  split
  · trivial
  rw [Wp_bind]
  refine Wp.mono (Wp.and (stays_destructiveGate pinScope_notConfig _ _ h)
    (wp_destructiveGate _ _ h)) ?_ ?_
  case refine_2 =>
    rintro e h' ⟨hw, -⟩
    exact Or.inl (hconfig hw.flash (by simp [NotConfigRegion]) (by simp [NotConfigRegion]))
  rintro r h₁ ⟨hw, hgate⟩
  have hsame : storedConfig P h₁.flash.sector = storedConfig P h.flash.sector :=
    hconfig hw.flash (by simp [NotConfigRegion]) (by simp [NotConfigRegion])
  cases r with
  | some resp => trivial
  | none =>
    dsimp only
    rw [Wp_bind, Wp_modify, Wp_bind, eraseEverything_eq, Wp_bind]
    refine Wp.mono (wp_eraseKeyVerified_unfailing (h := h₁.dropLiveSecrets)
      (hfaults.of_suffix hgate.faults) (Or.inl Nat.two_pos)) ?_ ?_
    case refine_2 =>
      intro e h' hstop
      exact Or.inl ((hconfig hstop (by simp [KeyRegion]) (by simp [KeyRegion])).trans hsame)
    intro keyGone h₂ herased
    have hkept : ∀ {R : Option Region → Prop} {g : Flash}, FlashWithin R h₂.flash g →
        ¬ R (some .keyA) → ¬ R (some .keyB) → KeyErased g := fun hg hA hB =>
      ⟨(hg.sector _ hA).trans herased.1, (hg.sector _ hB).trans herased.2⟩
    refine (flashOnly_eraseRest keyGone h₂).mono ?_ ?_
    · rintro gone _ ⟨g, rfl, hg⟩
      split
      · rw [Wp_bind, Wp_modify]
        trivial
      · rw [Wp_bind]
        refine (wp_loadFromFlash { h₂ with flash := g }).mono (fun _ _ _ => trivial) ?_
        rintro e h' ⟨-, -, hg'⟩
        have hrest := trans_of (FlashWithin fun r => r ≠ some .keyA ∧ r ≠ some .keyB) hg
          (hg'.mono fun _ hr => hr.elim)
        exact Or.inr (hkept hrest (by simp) (by simp))
    · rintro e _ ⟨-, g, rfl, hg⟩
      exact Or.inr (hkept hg (by simp) (by simp))

/-- A factory reset over working flash that went through leaves nothing; any other
    leaves the configuration alone, and on a blank device the key. -/
theorem wp_factoryReset_blanks (req : FactoryResetReq) {h : Hsm P}
    (hfaults : Faultless h.flash.faults) :
    Wp (hsmFactoryReset req)
      (fun _ h' => Within NotConfig NotConfigRegion h h' ∧
          (h.state = .uninitialized → SameKeySectors h.flash h'.flash) ∨
        h'.config = none ∧ (∀ r, h'.flash.sector r = Sector.erased) ∧
          h'.flash.deviceSecret = h.flash.deviceSecret)
      (fun _ _ => True) h := by
  have hrefl : Within NotConfig NotConfigRegion h h := refl_of (Within NotConfig NotConfigRegion) h
  unfold hsmFactoryReset
  split
  · exact Or.inl ⟨hrefl, fun _ => ⟨rfl, rfl⟩⟩
  rw [Wp_bind]
  refine Wp.mono (Wp.and (stays_destructiveGate pinScope_notConfig _ _ h)
    (wp_destructiveGate _ _ h)) ?_ fun _ _ _ => trivial
  rintro r h₁ ⟨hw, hgate⟩
  cases r with
  | some resp =>
    refine Or.inl ⟨hw, fun hstate => ?_⟩
    rw [hgate.blank hstate]
    exact ⟨rfl, rfl⟩
  | none =>
    dsimp only
    obtain ⟨faults', herase, -⟩ := serves_eraseEverything h₁.dropLiveSecrets
      h₁.dropLiveSecrets.flash.faults (hfaults.of_suffix hgate.faults)
    rw [Wp_bind, Wp_modify, Wp_bind]
    refine Wp.of_run herase ?_
    exact Or.inr ⟨rfl, fun r => Flash.sector_blanked _ r, hw.flash.deviceSecret⟩

/-! ### The flash between two boots -/

/-- A flash without a configuration has no key that a development boot could open. -/
def DevGuarded (P : Prims) (secret : Bytes 32) (f : Flash) : Prop :=
  storedConfig P f.sector = none → DevLocked P secret f

theorem storedConfig_congr {image image' : Region → Sector} (hA : image' .configA = image .configA)
    (hB : image' .configB = image .configB) : storedConfig P image' = storedConfig P image := by
  unfold storedConfig
  rw [AbPair.latest_congr hA hB]

theorem Within.storedConfig {h h' : Hsm P} (hw : Within NotConfig NotConfigRegion h h') :
    storedConfig P h'.flash.sector = storedConfig P h.flash.sector :=
  storedConfig_congr (hw.flash.sector _ (by simp [NotConfigRegion]))
    (hw.flash.sector _ (by simp [NotConfigRegion]))

/-- The session has the stored configuration, and the flash is guarded. -/
structure ConfigMirrors (secret : Bytes 32) (h : Hsm P) : Prop where
  config : h.config = storedConfig P h.flash.sector
  guarded : DevGuarded P secret h.flash

section Guard

variable {h h' : Hsm P} {c : Command} {resp : HsmResponse} {faults : List Fault}
  {secret : Bytes 32}

theorem ConfigMirrors.facing (hm : ConfigMirrors secret h) (faults : List Fault) :
    ConfigMirrors secret (h.facing faults) := ⟨hm.config, hm.guarded⟩

theorem ConfigMirrors.same (hm : ConfigMirrors secret h) (hw : Within NotConfig NotConfigRegion h h')
    (hkey : h.config = none → SameKeySectors h.flash h'.flash) : ConfigMirrors secret h' := by
  constructor
  · rw [hw.same .config (by simp [NotConfig]), hw.storedConfig]
    exact hm.config
  · intro hnone
    rw [hw.storedConfig] at hnone
    exact (hkey (hm.config.trans hnone)).devLocked (hm.guarded hnone)

theorem ConfigMirrors.init {req : InitReq} (hm : ConfigMirrors secret h)
    (hnum : h.Numbered (.init req)) (hfaults : Faultless faults)
    (hrun : hsmInit req (h.facing faults) = .ok resp h') : ConfigMirrors secret h' := by
  have hno : ¬ ∃ left, Fault.fail left ∈ (h.facing faults).flash.faults :=
    not_exists.mpr hfaults.no_fail
  have hsome : ∀ {f : Flash} {cfg : DeviceConfig}, storedConfig P f.sector = some cfg →
      DevGuarded P secret f := fun hcfg hnone => by simp [hcfg] at hnone
  rcases (wp_init req (h.facing faults)).of_ok hrun with
    rfl | ⟨hnone, ⟨-, hdev⟩ | ⟨-, hprod⟩⟩
  · exact hm.facing faults
  · cases hdev with
    | refused => exact hm.facing faults
    | failed hg hfail => exact absurd hfail hno
    | @done g kek hg =>
      have hstored : storedConfig P g.sector = some devConfig := by
        unfold storedConfig
        rw [hg.latest (by rw [length_deviceConfig]; norm_num) hnum.1]
        exact DeviceConfig.fromBytes_toBytes devConfig
      exact ⟨hstored.symm, hsome hstored⟩
  · cases hprod with
    | refused hrng =>
      rw [hrng]
      exact ⟨hm.config, hm.guarded⟩
    | keyFailed hresp hg hfail => exact absurd hfail hno
    | configFailed hresp hg hg' hfail => exact absurd hfail hno
    | @done drbg entropy g g' g'' seed blob hretries hblob hg hg' hreset =>
      have hstored : storedConfig P g''.sector = some (prodConfig req) := by
        rw [storedConfig_congr (hreset.within.sector _ (by simp)) (hreset.within.sector _ (by simp))]
        unfold storedConfig
        rw [hg'.latest (by rw [length_deviceConfig]; norm_num) (hg.numberLeft_config hnum.1)]
        exact DeviceConfig.fromBytes_toBytes (prodConfig req)
      exact ⟨hstored.symm, hsome hstored⟩

/-- The step lemma for commands over working flash. -/
theorem ConfigMirrors.served (hm : ConfigMirrors secret h) (hshape : h.Shaped)
    (hnum : h.Numbered c) (hfaults : Faultless faults)
    (hrun : c.run (h.facing faults) = .ok resp h') : ConfigMirrors secret h' := by
  by_cases hinit : ∃ req, c = .init req
  · obtain ⟨req, rfl⟩ := hinit
    exact hm.init hnum hfaults hrun
  by_cases hreset : ∃ req, c = .factoryReset req
  · obtain ⟨req, rfl⟩ := hreset
    rcases (wp_factoryReset_blanks req (h := h.facing faults) hfaults).of_ok hrun with
      ⟨hw, hkey⟩ | ⟨hnone, hblank, -⟩
    · exact (hm.facing faults).same hw fun hnone => hkey (hshape.blank hnone).1
    · have hstored : storedConfig P h'.flash.sector = none := by
        unfold storedConfig
        rw [latest_erased (hblank _) (hblank _)]
        rfl
      exact ⟨hnone.trans hstored.symm, fun _ => KeyErased.devLocked ⟨hblank _, hblank _⟩⟩
  have hinit' : ∀ req, c ≠ .init req := fun req heq => hinit ⟨req, heq⟩
  have hreset' : ∀ req, c ≠ .factoryReset req := fun req heq => hreset ⟨req, heq⟩
  apply (hm.facing faults).same ((besidesConfig_run hinit' hreset' (h.facing faults)).of_ok hrun)
  intro hnone
  exact (sameKeySectors_run hinit' hreset' (h := h.facing faults) (hshape.blank hnone).1).of_ok hrun

/-! ### Power cuts -/

theorem InitBlob.devLocked {req : InitReq} {f : Flash} {seed : Bytes 32} {blob : KeyBlob}
    (hblob : InitBlob P f req seed blob) (hseals : Sealing P secret)
    (hsecret : ∀ s, f.deviceSecret = .ok s → s = secret) :
    ∀ payload, some blob.toBytes = some payload → ∀ blob' seed',
      KeyBlob.fromBytes payload = some blob' → unwrapSeed P (devKek P secret) blob' ≠ .ok seed' := by
  intro payload hpayload blob' seed' hbytes
  obtain rfl := Option.some.inj hpayload
  rw [KeyBlob.fromBytes_toBytes] at hbytes
  obtain rfl := Option.some.inj hbytes
  obtain ⟨pin, s, salt, kek, nonce, -, hs, hkek, rfl⟩ := hblob
  obtain rfl := hsecret s hs
  exact hseals.apart _ _ _ _ _ _ _ _ hkek

theorem InitProdWriting.devLocked {req : InitReq} {f g : Flash} {seed : Bytes 32} {blob : KeyBlob}
    (hcut : InitProdWriting P req f blob g) (hblob : InitBlob P f req seed blob)
    (hseals : Sealing P secret) (hsecret : ∀ s, f.deviceSecret = .ok s → s = secret)
    (hdetected : RecordsDetected P g) (hlocked : DevLocked P secret f) : DevLocked P secret g := by
  have hpin := hblob.devLocked hseals hsecret
  have hwrote : ∀ {f₁ : Flash}, Wrote P KEY blob.toBytes f f₁ → DevLocked P secret f₁ :=
    fun hg => (hg.step (by rw [length_keyBlob]; norm_num)).all hlocked hpin
  cases hcut with
  | key hg => exact (hg.step hdetected).all hlocked hpin
  | config hg hg' =>
    have hsame : SameKeySectors _ g :=
      ⟨hg'.within.beside (by decide) (by decide), hg'.within.beside (by decide) (by decide)⟩
    exact hsame.devLocked (hwrote hg)
  | resetting hg hg' hreset =>
    have hsame : SameKeySectors _ g :=
      ⟨(hreset.within.sector _ (by simp)).trans (hg'.within.beside (by decide) (by decide)),
        (hreset.within.sector _ (by simp)).trans (hg'.within.beside (by decide) (by decide))⟩
    exact hsame.devLocked (hwrote hg)

/-- Where `init` can be cut, with the blob a production init had made. -/
theorem wp_init_cut (req : InitReq) (h : Hsm P) :
    Wp (hsmInit req) (fun _ _ => True)
      (fun _ h' => h.config = none ∧
        (WriteStopped P CONFIG devConfig.toBytes h.flash h'.flash ∨
          ∃ seed blob, InitBlob P h.flash req seed blob ∧
            InitProdWriting P req h.flash blob h'.flash)) h := by
  unfold hsmInit
  rw [Wp_bind, Wp_get]
  split
  · trivial
  rename_i hconfig
  have hnone : h.config = none := by simpa using hconfig
  split
  · refine (wp_initDev h).mono (fun _ _ _ => trivial) ?_
    rintro e h' ⟨-, hg⟩
    exact ⟨hnone, Or.inl hg⟩
  split
  · refine (wp_initProd_writing req h).mono (fun _ _ _ => trivial) ?_
    rintro e h' ⟨-, hcut⟩
    exact ⟨hnone, Or.inr hcut⟩
  · trivial

/-- In each KEY sector there is no record, or the one that was there before. -/
def KeyRecordsKept (P : Prims) (f g : Flash) : Prop :=
  ∀ r, r = .keyA ∨ r = .keyB → parseRecord P.crc32 (g.sector r) = none ∨
    parseRecord P.crc32 (g.sector r) = parseRecord P.crc32 (f.sector r)

theorem KeyRecordsKept.devLocked {f g : Flash} (hkept : KeyRecordsKept P f g)
    (hlocked : DevLocked P secret f) : DevLocked P secret g := by
  obtain ⟨ha, hb⟩ := hlocked
  constructor
  · intro n v hv
    change asCopy (parseRecord P.crc32 (g.sector .keyA)) = some (n, v) at hv
    rcases hkept .keyA (Or.inl rfl) with hnone | hsame
    · simp [hnone] at hv
    · rw [hsame] at hv
      exact ha n v hv
  · intro n v hv
    change asCopy (parseRecord P.crc32 (g.sector .keyB)) = some (n, v) at hv
    rcases hkept .keyB (Or.inr rfl) with hnone | hsame
    · simp [hnone] at hv
    · rw [hsame] at hv
      exact hb n v hv

/-- A command that is cut leaves a guarded flash. -/
theorem ConfigMirrors.cut {e : Halt} (hm : ConfigMirrors secret h) (hshape : h.Shaped)
    (hseals : Sealing P secret) (hsecret : ∀ s, h.flash.deviceSecret = .ok s → s = secret)
    (hfaults : Unfailing faults) (hrun : c.run (h.facing faults) = .error e h')
    (hdetected : RecordsDetected P h'.flash)
    (hkept : ∀ req, c = .factoryReset req → KeyRecordsKept P h.flash h'.flash) :
    DevGuarded P secret h'.flash := by
  by_cases hinit : ∃ req, c = .init req
  · obtain ⟨req, rfl⟩ := hinit
    obtain ⟨hnone, hcut⟩ := (wp_init_cut req (h.facing faults)).of_error hrun
    have hlocked := hm.guarded (hm.config.symm.trans hnone)
    rcases hcut with hg | ⟨seed, blob, hblob, hcut⟩
    · have hsame : SameKeySectors h.flash h'.flash :=
        ⟨hg.within.beside (by decide) (by decide), hg.within.beside (by decide) (by decide)⟩
      exact fun _ => hsame.devLocked hlocked
    · exact fun _ => hcut.devLocked hblob hseals hsecret hdetected hlocked
  by_cases hreset : ∃ req, c = .factoryReset req
  · obtain ⟨req, rfl⟩ := hreset
    rcases (wp_factoryReset_unfailing req (h := h.facing faults) hfaults).of_error hrun with
      hsame | herased
    · intro hnone
      exact (hkept req rfl).devLocked (hm.guarded (hsame.symm.trans hnone))
    · exact fun _ => herased.devLocked
  have hinit' : ∀ req, c ≠ .init req := fun req heq => hinit ⟨req, heq⟩
  have hreset' : ∀ req, c ≠ .factoryReset req := fun req heq => hreset ⟨req, heq⟩
  have hw := (besidesConfig_run hinit' hreset' (h.facing faults)).of_error hrun
  intro hnone
  rw [hw.storedConfig] at hnone
  have hblank : h.state = .uninitialized := (hshape.blank (hm.config.trans hnone)).1
  have hsame := (sameKeySectors_run hinit' hreset' (h := h.facing faults) hblank).of_error hrun
  exact hsame.devLocked (hm.guarded hnone)

end Guard

/-! ### Every run -/

/-- The command leaves the OTP secret as it found it. -/
theorem deviceSecret_run {c : Command} {h h' : Hsm P} {resp : HsmResponse}
    (hfaults : Faultless h.flash.faults) (hrun : c.run h = .ok resp h') :
    h'.flash.deviceSecret = h.flash.deviceSecret := by
  by_cases hinit : ∃ req, c = .init req
  · obtain ⟨req, rfl⟩ := hinit
    have hscope : PinScope (fun _ => True) (fun _ => True) := by constructor <;> trivial
    have hw := (stays_init hscope trivial trivial trivial req h).of_ok hrun
    exact hw.flash.deviceSecret
  by_cases hreset : ∃ req, c = .factoryReset req
  · obtain ⟨req, rfl⟩ := hreset
    rcases (wp_factoryReset_blanks req hfaults).of_ok hrun with ⟨hw, -⟩ | ⟨-, -, hsecret⟩
    · exact hw.flash.deviceSecret
    · exact hsecret
  have hw := (besidesConfig_run (fun req heq => hinit ⟨req, heq⟩)
    (fun req heq => hreset ⟨req, heq⟩) h).of_ok hrun
  exact hw.flash.deviceSecret

theorem floorKnown_run {c : Command} {h h' : Hsm P} {resp : HsmResponse} (hknown : FloorKnown h)
    (hnum : h.Numbered c) (hfaults : Faultless h.flash.faults) (hrun : c.run h = .ok resp h') :
    FloorKnown h' := by
  by_cases hset : ∃ req, c = .setTime req
  · obtain ⟨req, rfl⟩ := hset
    exact hknown.move hfaults hnum ((timeMove_run _ h).of_ok hrun)
  cases (timeMove_run c h).of_ok hrun with
  | kept hset' hsame => exact hknown.sameTime hsame
  | @set req => exact absurd ⟨req, rfl⟩ hset
  | erased hclock hfloor havailable hmono hphysical hA hB =>
    unfold FloorKnown
    rw [hfloor, havailable]
    exact storedFloor_erased hA hB
  | reloaded hclock hmono hphysical hfault => exact absurd hfaults hfault

/-- The session is the one a boot over its flash would find. -/
structure Mirrors (secret : Bytes 32) (h : Hsm P) : Prop where
  keys : KeyMirrors h
  config : ConfigMirrors secret h
  floor : FloorKnown h
  secret : ∀ s, h.flash.deviceSecret = .ok s → s = secret

structure MirrorInvariant (secret : Bytes 32) (s : Sys P) : Prop where
  guarded : DevGuarded P secret s.flash
  session : ∀ h, s = .on h → Mirrors secret h

theorem MirrorInvariant.on {secret : Bytes 32} {h : Hsm P} (hm : Mirrors secret h) :
    MirrorInvariant secret (.on h) := by
  refine ⟨hm.config.guarded, ?_⟩
  intro h' heq
  obtain rfl := Sys.on.inj heq
  exact hm

theorem MirrorInvariant.off {secret : Bytes 32} {f : Flash} (hguarded : DevGuarded P secret f) :
    MirrorInvariant (P := P) secret (.off f) := ⟨hguarded, fun _ heq => nomatch heq⟩

/-- Every flash operation of the moment succeeds, or the power goes during it. -/
def Moment.Works (m : Moment P) : Prop :=
  m.event.Faultless ∨ Unfailing m.event.faults ∧ ∃ f, m.after = .off f

/-- What the cut left is told from a record: by the record that was being written, and in
    a factory reset by the records that were being erased. -/
structure Moment.CutDetected (m : Moment P) : Prop where
  record : RecordsDetected P m.after.flash
  erase : ∀ bytes faults req, m.event = .line bytes faults →
    lineCommand P bytes = some (.factoryReset req) → KeyRecordsKept P m.before.flash m.after.flash

/-- The boot finds this OTP secret or none. -/
def Event.HasSecret (secret : Bytes 32) (e : Event) : Prop :=
  ∀ p s, e = .boot p → p.deviceSecret = .ok s → s = secret

/-- The pairs that the request writes have a number left. -/
def Moment.Numbered (m : Moment P) : Prop :=
  ∀ h bytes faults c, m.before = .on h → m.event = .line bytes faults →
    lineCommand P bytes = some c → h.Numbered c

section Run

variable {secret : Bytes 32} {s s' : Sys P} {e : Event} {resp : Option Response}

theorem Mirrors.relock {h : Hsm P} (hm : Mirrors secret h) (hshape : h.Shaped) :
    Mirrors secret h.relockOnTransportReset := by
  unfold Hsm.relockOnTransportReset
  dsimp only
  split
  · rename_i hprod
    split
    · exact ⟨.closed hm.keys.pubkey (by simp) (by simp), ⟨hm.config.config, hm.config.guarded⟩,
        hm.floor, hm.secret⟩
    · rename_i hready
      refine ⟨.closed hm.keys.pubkey ?_ hready, ⟨hm.config.config, hm.config.guarded⟩, hm.floor,
        hm.secret⟩
      intro hdev
      have hmode := hshape.consistent.dev.mp hdev
      rcases hprod with (hstate | hstate | hstate) | hprod
      · exact absurd (hstate.symm.trans hdev) (by simp)
      · exact absurd (hstate.symm.trans hdev) (by simp)
      · exact absurd (hstate.symm.trans hdev) (by simp)
      · exact absurd (hprod.symm.trans hmode) (by simp)
  · exact hm

theorem Mirrors.served {h h' : Hsm P} {c : Command} {r : HsmResponse} {faults : List Fault}
    (hm : Mirrors secret h) (hshape : h.Shaped) (hseals : Sealing P secret) (hnum : h.Numbered c)
    (hfaults : Faultless faults) (hrun : c.run (h.facing faults) = .ok r h') :
    Mirrors secret h' where
  keys := hm.keys.served hshape hseals hm.secret
    (fun hnone => hm.config.guarded (hm.config.config.symm.trans hnone)) hnum hfaults hrun
  config := hm.config.served hshape hnum hfaults hrun
  floor := floorKnown_run (h := h.facing faults) hm.floor hnum hfaults hrun
  secret := by
    rw [deviceSecret_run (h := h.facing faults) hfaults hrun]
    exact hm.secret

/-- The step lemma. -/
theorem MirrorInvariant.step (hinv : MirrorInvariant secret s) (hshape : ShapeInvariant s)
    (hseals : Sealing P secret) (hstep : Stepped s e resp s') (hotp : e.HasSecret secret)
    (hworks : (⟨e, s, resp, s'⟩ : Moment P).Works)
    (hdetected : ∀ f, s' = .off f → (⟨e, s, resp, s'⟩ : Moment P).CutDetected)
    (hnum : (⟨e, s, resp, s'⟩ : Moment P).Numbered) : MirrorInvariant secret s' := by
  cases hstep with
  | @booted _ p h hboot =>
    have hfaults : Faultless p.faults := by
      rcases hworks with hfaults | ⟨-, f, hoff⟩
      · exact hfaults
      · exact nomatch hoff
    have hkeys := hboot.keys hfaults
    refine .on ⟨hkeys.keys, ⟨?_, ?_⟩, hkeys.floor, ?_⟩
    · rw [hkeys.sector]
      exact hkeys.config
    · unfold DevGuarded DevLocked
      rw [hkeys.sector]
      exact hinv.guarded
    · rw [hkeys.deviceSecret]
      exact fun s' hs => hotp p s' rfl hs
  | bootCut hcut hg =>
    apply MirrorInvariant.off
    unfold DevGuarded DevLocked
    rw [hg.sector_eq]
    exact hinv.guarded
  | unpowered => exact hinv
  | drew hc hrun hrng =>
    have hm := hinv.session _ rfl
    rw [hrng]
    exact .on ⟨⟨hm.keys.pubkey, hm.keys.dev, hm.keys.ready⟩, ⟨hm.config.config, hm.config.guarded⟩,
      hm.floor, hm.secret⟩
  | @served h h' bytes faults c resp hc hrun =>
    have hfaults : Faultless faults := by
      rcases hworks with hfaults | ⟨-, f, hoff⟩
      · exact hfaults
      · exact nomatch hoff
    exact .on ((hinv.session h rfl).served (hshape h rfl) hseals (hnum h bytes faults c rfl rfl hc)
      hfaults hrun)
  | @cut h h' bytes faults c e hc hrun =>
    have hfaults : Unfailing faults := by
      rcases hworks with hfaults | ⟨hfaults, -⟩
      · exact hfaults.no_fail
      · exact hfaults
    have hcut := hdetected _ rfl
    have hm := hinv.session h rfl
    apply MirrorInvariant.off
    refine hm.config.cut (hshape h rfl) hseals hm.secret hfaults hrun hcut.record ?_
    rintro req rfl
    exact hcut.erase bytes faults req rfl hc
  | @relocked h => exact .on ((hinv.session h rfl).relock (hshape h rfl))
  | @advanced h =>
    have hm := hinv.session h rfl
    exact .on ⟨⟨hm.keys.pubkey, hm.keys.dev, hm.keys.ready⟩, ⟨hm.config.config, hm.config.guarded⟩,
      hm.floor, hm.secret⟩
  | @quiet h =>
    have hm := hinv.session h rfl
    exact .on ⟨⟨hm.keys.pubkey, hm.keys.dev, hm.keys.ready⟩, ⟨hm.config.config, hm.config.guarded⟩,
      hm.floor, hm.secret⟩

/-- A blank flash is guarded. -/
theorem MirrorInvariant.blank {image : Flash} (himage : ∀ r, image.sector r = Sector.erased) :
    MirrorInvariant (P := P) secret (.off image) :=
  .off fun _ => KeyErased.devLocked ⟨himage _, himage _⟩

theorem Run.mirrorInvariant {image : Flash} {hist : List (Moment P)} {s : Sys P}
    (hrun : Run image hist s) (himage : ∀ r, image.sector r = Sector.erased)
    (hseals : Sealing P secret) (hotp : ∀ m ∈ hist, m.event.HasSecret secret)
    (hworks : ∀ m ∈ hist, m.Works) (hdetected : ∀ m ∈ hist, ∀ f, m.after = .off f → m.CutDetected)
    (hnum : ∀ m ∈ hist, m.Numbered) : MirrorInvariant secret s ∧ ShapeInvariant s := by
  revert hotp hworks hdetected hnum
  refine Run.induct (I := fun hist s => (∀ m ∈ hist, m.event.HasSecret secret) →
    (∀ m ∈ hist, m.Works) → (∀ m ∈ hist, ∀ f, m.after = .off f → m.CutDetected) →
    (∀ m ∈ hist, m.Numbered) → MirrorInvariant secret s ∧ ShapeInvariant s) ?_ ?_ hrun
  · intro _ _ _ _
    exact ⟨.blank himage, .off⟩
  · intro hist s s' e resp ih hstep hotp hworks hdetected hnum
    obtain ⟨hinv, hshape⟩ := ih (fun m hm => hotp m (List.mem_cons_of_mem _ hm))
      (fun m hm => hworks m (List.mem_cons_of_mem _ hm))
      (fun m hm => hdetected m (List.mem_cons_of_mem _ hm))
      fun m hm => hnum m (List.mem_cons_of_mem _ hm)
    exact ⟨hinv.step hshape hseals hstep (hotp _ List.mem_cons_self) (hworks _ List.mem_cons_self)
      (hdetected _ List.mem_cons_self) (hnum _ List.mem_cons_self), hshape.step hstep⟩

end Run

/-! ### The device at rest -/

/-- A power-up of this flash, with the OTP as it is now, shows the session as it is; and
    a production session that is ready has the seed of the KEY record. -/
structure Mirrored (h : Hsm P) : Prop where
  boots : ∀ p : PowerUp, Faultless p.faults → p.deviceSecret = h.flash.deviceSecret →
    ∃ h' : Hsm P, powerUp h.flash p = .ok () h' ∧ h'.config = h.config ∧
      h'.caPubkey = h.caPubkey ∧ h'.trustedTimeFloor = h.trustedTimeFloor ∧
      (h.config.map DeviceConfig.mode = some .dev →
        h.state = .devReady ∧ h'.state = .devReady ∧ h'.ca = h.ca)
  ready : h.state = .prodReady → h.HoldsStoredSeed

theorem devLiveKey_congr {f g : Flash} (hsector : g.sector = f.sector)
    (hsecret : g.deviceSecret = f.deviceSecret) : devLiveKey P g = devLiveKey P f := by
  unfold devLiveKey
  rw [hsector, hsecret]

theorem Mirrors.mirrored {secret : Bytes 32} {h : Hsm P} (hm : Mirrors secret h)
    (hshape : h.Shaped) : Mirrored h := by
  refine ⟨fun p hfaults hotp => ?_, hm.keys.ready⟩
  obtain ⟨h', hpower, hclean⟩ := powerUp_faultless (P := P) h.flash hfaults
  have hboot := powerUp_ok hpower
  have hkeys := hboot.keys hfaults
  have hconfig : h'.config = h.config := hkeys.config.trans hm.config.config.symm
  refine ⟨h', hpower, hconfig, ?_, ?_, fun hdev => ?_⟩
  · rw [hkeys.keys.pubkey, hkeys.sector, hm.keys.pubkey]
  · rw [hclean.floor, show storedFloor P h.flash.sector = _ from hm.floor]
  · have hstate : h.state = .devReady := hshape.consistent.dev.mpr hdev
    have hstate' : h'.state = .devReady := by
      apply (shaped_boot hboot).consistent.dev.mpr
      rw [hconfig]
      exact hdev
    refine ⟨hstate, hstate', ?_⟩
    rw [(hkeys.keys.dev hstate').2, (hm.keys.dev hstate).2]
    exact devLiveKey_congr hkeys.sector (hkeys.deviceSecret.trans hotp)

/-- From a blank flash, over any requests, boots, power cuts and entropy, as long as no
    flash operation fails and every pair that is written has a number left: at rest a
    boot finds the session as it is. -/
theorem boot_mirrors_session {image : Flash} {hist : List (Moment P)} {h : Hsm P}
    {secret : Bytes 32} (hrun : Run image hist (.on h))
    (himage : ∀ r, image.sector r = Sector.erased) (hseals : Sealing P secret)
    (hotp : ∀ m ∈ hist, m.event.HasSecret secret) (hworks : ∀ m ∈ hist, m.Works)
    (hdetected : ∀ m ∈ hist, ∀ f, m.after = .off f → m.CutDetected)
    (hnum : ∀ m ∈ hist, m.Numbered) : Mirrored h := by
  obtain ⟨hinv, hshape⟩ := hrun.mirrorInvariant himage hseals hotp hworks hdetected hnum
  exact (hinv.session h rfl).mirrored (hshape h rfl)

namespace Bench

/-- A host that sets the device up, opens it, and has it make a key. -/
def owner : List Request :=
  [{ hsm := some { init := some { mode := modeProd, pin := some pin } } }, unlock pin,
    { hsm := some { generateKey := some { force := true } } }]

/-- A bench device whose development and PIN keys differ in their first byte, whose
    cipher is a tag alone, and that has the real base64.  Its owner has more requests. -/
abbrev sealing (more : List Request) : Prims :=
  { Prims.bench (owner ++ more) with
    hkdfSha256 := fun salt ikm _ =>
      salt.elim (ikm.set 0 0) fun salt => (Vector.zipWith (· ^^^ ·) salt ikm).set 0 1
    aeadSeal := fun key _ _ plain => (plain, Vector.ofFn fun i => key.toList.getD i.val 0)
    aeadOpen := fun key _ _ cipher tag =>
      if tag = Vector.ofFn fun i => key.toList.getD i.val 0 then some cipher else none
    b64Encode := Base64.encodeText
    b64Decode := Base64.decode }

theorem seals (more : List Request) : Sealing (sealing more) deviceSecret where
  opens kek seed pubkey wrapType salt nonce := by
    unfold unwrapSeed wrapSeed
    dsimp only
    rw [if_pos rfl]
  apart pin salt params kek seed pubkey nonce seed' hkek := by
    have hpin : kek.toList.getD 0 0 = 1 := by
      unfold pinKek at hkek
      dsimp only [Prims.bench] at hkek
      rw [← Except.ok.inj hkek]
      simp
    have hdev : (devKek (sealing more) deviceSecret).toList.getD 0 0 = 0 := rfl
    unfold unwrapSeed wrapSeed
    dsimp only
    rw [if_neg]
    · simp
    · intro htag
      have hbyte := congrArg (fun tag : Bytes 16 => tag[0]) htag
      simp only [Vector.getElem_ofFn] at hbyte
      rw [hpin, hdev] at hbyte
      exact absurd hbyte (by decide)

end Bench

/-- All three pairs of records of a session have a number left. -/
def Hsm.numbersLeft (h : Hsm P) : Bool :=
  decide (CONFIG.NumberLeft P.crc32 h.flash.sector) && decide (KEY.NumberLeft P.crc32 h.flash.sector) &&
    decide (TIME_FLOOR.NumberLeft P.crc32 h.flash.sector)

theorem Hsm.numbered_of_numbersLeft {h : Hsm P} (hleft : h.numbersLeft = true) (c : Command) :
    h.Numbered c := by
  unfold Hsm.numbersLeft at hleft
  simp only [Bool.and_eq_true, decide_eq_true_eq] at hleft
  obtain ⟨⟨hconfig, hkey⟩, htime⟩ := hleft
  cases c with
  | init => exact ⟨hconfig, hkey⟩
  | generateKey => exact hkey
  | changePin => exact hkey
  | setTime => exact htime
  | _ => trivial

/-- An event without faults, that finds this OTP secret if it is a boot. -/
def Event.steady (secret : Bytes 32) : Event → Bool
  | .boot p => p.faults.isEmpty && p.deviceSecret.toOption.all (· == secret)
  | .line _ faults => faults.isEmpty
  | _ => true

/-- A moment in which nothing goes wrong. -/
def Moment.steady (secret : Bytes 32) (m : Moment P) : Bool :=
  m.event.steady secret && m.before.session.all Hsm.numbersLeft && m.after.session.isSome

section Steady

variable {secret : Bytes 32} {m : Moment P}

theorem Moment.steady_iff : m.steady secret = true ↔ m.event.steady secret = true ∧
    m.before.session.all Hsm.numbersLeft = true ∧ m.after.session.isSome = true := by
  unfold Moment.steady
  rw [Bool.and_eq_true, Bool.and_eq_true, and_assoc]

theorem Moment.hasSecret_of_steady (hm : m.steady secret = true) : m.event.HasSecret secret := by
  intro p s hboot hsecret
  have hevent := (Moment.steady_iff.mp hm).1
  rw [hboot] at hevent
  simp only [Event.steady, hsecret, Bool.and_eq_true] at hevent
  simpa [Except.toOption] using hevent.2

theorem Moment.works_of_steady (hm : m.steady secret = true) : m.Works := by
  left
  have hevent := (Moment.steady_iff.mp hm).1
  have hnil : m.event.faults = [] := by
    generalize m.event = e at hevent
    cases e with
    | boot p =>
      simp only [Event.steady, Bool.and_eq_true] at hevent
      exact List.isEmpty_iff.mp hevent.1
    | line bytes faults => exact List.isEmpty_iff.mp hevent
    | _ => rfl
  unfold Event.Faultless
  rw [hnil]
  exact faultless_nil

theorem Moment.not_off_of_steady (hm : m.steady secret = true) (f : Flash) : m.after ≠ .off f := by
  intro hoff
  have hon := (Moment.steady_iff.mp hm).2.2
  rw [hoff] at hon
  cases hon

theorem Moment.numbered_of_steady (hm : m.steady secret = true) : m.Numbered := by
  intro h bytes faults c hbefore _ _
  have hleft := (Moment.steady_iff.mp hm).2.1
  rw [hbefore] at hleft
  exact Hsm.numbered_of_numbersLeft (by simpa [Sys.session] using hleft) c

end Steady

/-- On the bench: a key made in an open session is the one a boot finds. -/
theorem boot_mirrors_session_bench :
    ∃ (hist : List (Moment (Bench.sealing []))) (h : Hsm (Bench.sealing [])),
      Run (Bench.image []) hist (.on h) ∧ h.state = .prodReady ∧ h.ca.isSome ∧ Mirrored h := by
  have hends : replayEnds (P := Bench.sealing []) (fun _ _ h' => h'.state == .prodReady && h'.ca.isSome)
      (Bench.image []) [Bench.send 2, Bench.send 1, Bench.send 0, .boot Bench.power] = true := by
    decide +kernel
  have hsteady : (replay (P := Bench.sealing []) (Bench.image []) [Bench.send 2, Bench.send 1,
      Bench.send 0, .boot Bench.power]).1.all (Moment.steady Bench.deviceSecret) = true := by
    decide +kernel
  obtain ⟨m, h, h', resp, -, -, -, -, htest, hhist, hrun⟩ := exists_of_replayEnds hends
  rw [Bool.and_eq_true, beq_iff_eq] at htest
  rw [hhist, List.all_eq_true] at hsteady
  exact ⟨_, h', hrun, htest.1, htest.2, boot_mirrors_session hrun (fun r => rfl) (Bench.seals [])
    (fun m' hm' => Moment.hasSecret_of_steady (hsteady m' hm'))
    (fun m' hm' => Moment.works_of_steady (hsteady m' hm'))
    (fun m' hm' f hoff => absurd hoff (Moment.not_off_of_steady (hsteady m' hm') f))
    fun m' hm' => Moment.numbered_of_steady (hsteady m' hm')⟩

end PicoSignet
