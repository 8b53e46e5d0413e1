/-
  PicoSignet/Lockout.lean
  =======================
  **Lockout and the power switch** — a session decides on a lockout by the
  attempt it has just counted, a boot by the counter together with a key record.
  The two agree as long as the key record is there (`lockout_survives_iff`); a
  lockout that wipes the key takes the boot's evidence with it, and the device
  comes back locked but no longer locked out.
-/
import PicoSignet.Consistency
import PicoSignet.KeyGone

set_option autoImplicit false

namespace PicoSignet

open Crash

variable {P : Prims}

/-! ### What a boot makes of the flash -/

/-- A boot over this image ends locked out. -/
def LocksOut (P : Prims) (image : Region → Sector) : Prop :=
  ∃ c, storedConfig P image = some c ∧ c.mode = .prod ∧ (storedKey P image).isSome ∧
    c.maxRetries.toNat ≤ Pin.used (image .pinCounter)

theorem Hsm.loaded_lockedOut_iff (h : Hsm P) (cfg : Option DeviceConfig)
    (keyblob : Option KeyBlob) (time : Option Int64 × Bool) (attempts : Nat) :
    (h.loaded cfg keyblob time attempts).state = .lockedOut ↔
      ∃ c, cfg = some c ∧ c.mode = .prod ∧ keyblob.isSome ∧ c.maxRetries.toNat ≤ attempts := by
  unfold Hsm.loaded
  cases cfg with
  | none => simp
  | some c =>
    cases hmode : c.mode with
    | dev =>
      have hdev : ∀ h' : Hsm P, (h'.loadDev keyblob).state = .devReady := by
        intro h'
        unfold Hsm.loadDev
        dsimp only
        split <;> rfl
      simp [hmode, hdev]
    | prod =>
      simp only [hmode]
      unfold Hsm.loadProd
      dsimp only
      split
      · rename_i hout
        simp only [Bool.and_eq_true, decide_eq_true_eq] at hout
        exact ⟨fun _ => ⟨c, rfl, hmode, hout.1, hout.2⟩, fun _ => rfl⟩
      · rename_i hin
        constructor
        · intro hstate
          cases hstate
        · rintro ⟨c', hc', -, hkey, hcount⟩
          obtain rfl := Option.some.inj hc'
          exact absurd (by simp [hkey, hcount]) hin

/-- What a boot without faults settles about the lockout. -/
theorem PoweredUp.lockout {f : Flash} {p : PowerUp} {h : Hsm P} (hboot : PoweredUp f p h)
    (hfaults : Faultless p.faults) :
    h.config = storedConfig P f.sector ∧ h.flash.sector = f.sector ∧
      (h.state = .lockedOut ↔ LocksOut P f.sector) := by
  have hclean := (hboot.clean hfaults).sector
  obtain ⟨drbg, entropy, g, cfg, keyblob, time, attempts, rfl, hg, hread⟩ := hboot
  have hread := hread (Or.inl hfaults.no_fail)
  have hconfig : ((Hsm.fresh entropy p.mono g drbg).loaded cfg keyblob time attempts).config = cfg := by
    obtain ⟨state, ca, kek, until_, -, heq⟩ :=
      (Hsm.fresh entropy p.mono g drbg).loaded_cases cfg keyblob time attempts
    rw [heq]
  refine ⟨hconfig.trans hread.config, hclean, ?_⟩
  change ((Hsm.fresh entropy p.mono g drbg).loaded cfg keyblob time attempts).state = _ ↔ _
  rw [Hsm.loaded_lockedOut_iff]
  unfold LocksOut
  rw [← hread.config, ← hread.key]
  constructor
  · rintro ⟨c, hc, hmode, hkey, hcount⟩
    exact ⟨c, hc, hmode, hkey, by rw [← hread.count c hc hmode]; exact hcount⟩
  · rintro ⟨c, hc, hmode, hkey, hcount⟩
    exact ⟨c, hc, hmode, hkey, by rw [hread.count c hc hmode]; exact hcount⟩

/-! ### A locked-out session is frozen -/

/-- State and configuration, and the flash outside the TIME pair, are as they were. -/
structure Frozen (h h' : Hsm P) : Prop where
  state : h'.state = h.state
  config : h'.config = h.config
  sector : ∀ r, r ≠ .timeA → r ≠ .timeB → h'.flash.sector r = h.flash.sector r

instance : IsPreorder (Hsm P) Frozen where
  refl _ := ⟨rfl, rfl, fun _ _ _ => rfl⟩
  trans _ _ _ h₁₂ h₂₃ :=
    ⟨h₂₃.state.trans h₁₂.state, h₂₃.config.trans h₁₂.config,
      fun r hA hB => (h₂₃.sector r hA hB).trans (h₁₂.sector r hA hB)⟩

theorem Frozen.of_onlyRng {h h' : Hsm P} (hrng : OnlyRng h h') : Frozen h h' := by
  obtain ⟨drbg, entropy, rfl⟩ := hrng.exists
  exact ⟨rfl, rfl, fun _ _ _ => rfl⟩

theorem Frozen.of_reads {h : Hsm P} {g : Flash} (hg : FlashWithin (fun _ => False) h.flash g) :
    Frozen h { h with flash := g } := by
  refine ⟨rfl, rfl, fun r _ _ => ?_⟩
  change g.sector r = _
  rw [hg.sector_eq]

theorem AbPair.latest_congr {crc : Octets → UInt32} {pair : AbPair} {image image' : Region → Sector}
    (ha : image' pair.a = image pair.a) (hb : image' pair.b = image pair.b) :
    pair.latest crc image' = pair.latest crc image := by
  unfold AbPair.latest
  rw [AbPair.copies_congr ha hb]

theorem Frozen.storedConfig {h h' : Hsm P} (hf : Frozen h h') :
    storedConfig P h'.flash.sector = storedConfig P h.flash.sector := by
  unfold PicoSignet.storedConfig
  rw [AbPair.latest_congr (hf.sector _ (by decide) (by decide)) (hf.sector _ (by decide) (by decide))]

theorem Frozen.storedKey {h h' : Hsm P} (hf : Frozen h h') :
    storedKey P h'.flash.sector = storedKey P h.flash.sector := by
  unfold PicoSignet.storedKey
  rw [AbPair.latest_congr (hf.sector _ (by decide) (by decide)) (hf.sector _ (by decide) (by decide))]

theorem Frozen.locksOut {h h' : Hsm P} (hf : Frozen h h') (hout : LocksOut P h.flash.sector) :
    LocksOut P h'.flash.sector := by
  unfold LocksOut at hout ⊢
  rw [hf.storedConfig, hf.storedKey, hf.sector .pinCounter (by decide) (by decide)]
  exact hout

theorem Frozen.of_setTime {v : Int64} {h h' : Hsm P} {resp : HsmResponse} (hset : TimeSet v h resp h')
    (hfaults : Faultless h.flash.faults) : Frozen h h' := by
  cases hset with
  | refused hno => exact refl_of Frozen h
  | kept hyes hset hfloor => exact ⟨rfl, rfl, fun _ _ _ => rfl⟩
  | @wrote previousSet clock floor g hyes hset hfloor hne hg =>
    refine ⟨rfl, rfl, fun r hA hB => ?_⟩
    change g.sector r = _
    refine hg.within.sector r fun heq => ?_
    have hr := Option.some.inj heq
    rcases AbPair.nextTarget_mem P.crc32 TIME_FLOOR h.flash.sector with ht | ht
    · exact hA (hr.trans ht)
    · exact hB (hr.trans ht)
  | failed hyes hset hfloor hg hfail => exact absurd hfail (not_exists.mpr hfaults.no_fail)

theorem frozen_status {h : Hsm P} (hfaults : Faultless h.flash.faults) :
    Wp hsmStatus (fun _ h' => Frozen h h') (fun _ _ => False) h := by
  unfold hsmStatus
  rw [Wp_bind, Wp_get, Wp_bind]
  unfold retryRemaining
  split
  · exact refl_of Frozen h
  · split
    · rw [Wp_bind]
      refine Wp.mono (wp_onFlash_reads (reads_pinCount h.flash)) ?_ ?_
      · rintro r _ ⟨g, rfl, hg, -⟩
        exact .of_reads hg
      · rintro e h' ⟨-, hcut, -⟩
        exact hfaults.not_hasCut hcut
    · exact refl_of Frozen h

theorem frozen_selfTest {h : Hsm P} (hfaults : Faultless h.flash.faults) :
    Wp hsmSelfTest (fun _ h' => Frozen h h') (fun _ _ => False) h := by
  unfold hsmSelfTest
  rw [Wp_bind, Wp_get, Wp_bind]
  refine Wp.mono (wp_onFlash_reads (reads_readLatest CONFIG h.flash)) ?_ ?_
  · rintro r _ ⟨g, rfl, hg, -⟩
    exact .of_reads hg
  · rintro e h' ⟨-, hcut, -⟩
    exact hfaults.not_hasCut hcut

/-- What a command can do to a locked-out session: nothing that matters, or a reset
    that physical recovery has authorised. -/
def FrozenOrReset (h : Hsm P) (resp : HsmResponse) (h' : Hsm P) : Prop :=
  Frozen h h' ∨ resp = .factoryReset true ∧ h.physicalRecoveryAuthorized = true

/-- The gate, for a session that is locked out. -/
theorem wp_destructiveGate_lockedOut {h : Hsm P} (hstate : h.state = .lockedOut)
    (pin : Option Str) (noPin : String) :
    Wp (destructiveGate pin noPin)
      (fun r h' => h' = h ∧ (r = none → h.physicalRecoveryAuthorized = true) ∧
        ∀ resp, r = some resp → resp.IsError) (fun _ _ => False) h := by
  unfold destructiveGate
  rw [Wp_bind, Wp_get, hstate]
  dsimp only
  split
  · rename_i hphysical
    exact ⟨rfl, fun _ => hphysical, by simp⟩
  · refine ⟨rfl, by simp, ?_⟩
    intro resp heq
    obtain rfl := Option.some.inj heq
    exact HsmResponse.isError_err _ _

theorem frozen_factoryReset (req : FactoryResetReq) {h : Hsm P} (hstate : h.state = .lockedOut)
    (hfaults : Faultless h.flash.faults) :
    Wp (hsmFactoryReset req) (FrozenOrReset h) (fun _ _ => False) h := by
  unfold hsmFactoryReset
  split
  · exact Or.inl (refl_of Frozen h)
  rw [Wp_bind]
  refine Wp.mono (wp_destructiveGate_lockedOut hstate _ _) ?_ fun _ _ he => he
  rintro r h₀ ⟨hsame, hphysical, -⟩
  rw [hsame]
  cases r with
  | some resp => exact Or.inl (refl_of Frozen h)
  | none =>
    dsimp only
    rw [Wp_bind, Wp_modify, Wp_bind]
    refine Wp.mono (eraseEverything_faultless hfaults) ?_ fun _ _ he => he
    rintro gone h₁ rfl
    exact Or.inr ⟨rfl, hphysical rfl⟩

/-- Without faults a locked-out session serves every command, and stays as it is. -/
theorem frozen_run (c : Command) {h : Hsm P} (hstate : h.state = .lockedOut)
    (hconfig : h.config.isSome) (hfaults : Faultless h.flash.faults) :
    Wp (c.run : Dev P HsmResponse) (FrozenOrReset h) (fun _ _ => False) h := by
  have hsame : ∀ resp, FrozenOrReset h resp h := fun _ => Or.inl (refl_of Frozen h)
  cases c with
  | init req =>
    change Wp (hsmInit req) _ _ h
    unfold hsmInit
    rw [Wp_bind, Wp_get, if_pos hconfig]
    exact hsame _
  | generateKey req =>
    change Wp (hsmGenerateKey req) _ _ h
    unfold hsmGenerateKey
    rw [Wp_bind, Wp_get, hstate]
    exact hsame _
  | getPublicKey =>
    change Wp hsmGetPublicKey _ _ h
    unfold hsmGetPublicKey
    rw [Wp_bind, Wp_get]
    split <;> exact hsame _
  | unlock req =>
    change Wp (hsmUnlock req) _ _ h
    unfold hsmUnlock
    rw [Wp_bind, Wp_get, hstate]
    exact hsame _
  | lock =>
    change Wp hsmLock _ _ h
    unfold hsmLock
    rw [Wp_bind, Wp_get, hstate]
    exact Or.inl ⟨rfl, rfl, fun _ _ _ => rfl⟩
  | setTime req =>
    refine Wp.mono (wp_setTime req h) ?_ fun _ _ he => hfaults.not_hasCut he.2.1
    intro resp h' hset
    exact Or.inl (.of_setTime hset hfaults)
  | status => exact (frozen_status hfaults).mono (fun _ _ hf => Or.inl hf) fun _ _ he => he
  | changePin req =>
    change Wp (hsmChangePin req) _ _ h
    unfold hsmChangePin
    rw [Wp_bind, Wp_get, hstate]
    exact hsame _
  | addEntropy req =>
    change Wp (hsmAddEntropy req) _ _ h
    unfold hsmAddEntropy
    split
    · split
      · exact Or.inl ⟨rfl, rfl, fun _ _ _ => rfl⟩
      · exact hsame _
    · exact hsame _
  | selfTest => exact (frozen_selfTest hfaults).mono (fun _ _ hf => Or.inl hf) fun _ _ he => he
  | factoryReset req => exact frozen_factoryReset req hstate hfaults
  | rebootBootloader req =>
    change Wp (hsmRebootBootloader req) _ _ h
    unfold hsmRebootBootloader
    rw [Wp_bind]
    refine Wp.mono (wp_destructiveGate_lockedOut hstate _ _) ?_ fun _ _ he => he
    rintro r _ ⟨rfl, -, -⟩
    cases r with
    | some resp => exact hsame _
    | none => exact Or.inl ⟨rfl, rfl, fun _ _ _ => rfl⟩

/-! ### A lockout that holds -/

/-- Locked out, in RAM and for the next boot. -/
structure LockoutHeld (h : Hsm P) : Prop where
  state : h.state = .lockedOut
  config : h.config = storedConfig P h.flash.sector
  locksOut : LocksOut P h.flash.sector

theorem LockoutHeld.config_isSome {h : Hsm P} (hheld : LockoutHeld h) : h.config.isSome := by
  obtain ⟨c, hc, -⟩ := hheld.locksOut
  rw [hheld.config, hc]
  rfl

theorem LockoutHeld.facing {h : Hsm P} (hheld : LockoutHeld h) (faults : List Fault) :
    LockoutHeld (h.facing faults) := ⟨hheld.state, hheld.config, hheld.locksOut⟩

theorem LockoutHeld.frozen {h h' : Hsm P} (hheld : LockoutHeld h) (hf : Frozen h h') :
    LockoutHeld h' :=
  ⟨hf.state.trans hheld.state, by rw [hf.config, hheld.config, hf.storedConfig],
    hf.locksOut hheld.locksOut⟩

theorem LockoutHeld.boot {h h' : Hsm P} {p : PowerUp} (hheld : LockoutHeld h)
    (hboot : PoweredUp h.flash p h') (hfaults : Faultless p.faults) : LockoutHeld h' := by
  obtain ⟨hconfig, hsector, hout⟩ := hboot.lockout hfaults
  refine ⟨hout.mpr hheld.locksOut, ?_, ?_⟩
  · rw [hconfig, hsector]
  · rw [hsector]
    exact hheld.locksOut

theorem LockoutHeld.relock {h : Hsm P} (hheld : LockoutHeld h) :
    LockoutHeld h.relockOnTransportReset := by
  have hrelock : h.relockOnTransportReset = h.dropLiveSecrets := by
    unfold Hsm.relockOnTransportReset
    simp [hheld.state]
  rw [hrelock]
  exact ⟨hheld.state, hheld.config, hheld.locksOut⟩

/-- A factory reset that physical recovery authorised. -/
def Moment.RecoveryReset (m : Moment P) : Prop :=
  m.response = some (.hsm (.factoryReset true)) ∧
    ∃ h, m.before = .on h ∧ h.physicalRecoveryAuthorized = true

/-- The step lemma: without faults, nothing but such a reset ends a lockout that holds. -/
theorem LockoutHeld.step {h : Hsm P} {s' : Sys P} {e : Event} {resp : Option Response}
    (hheld : LockoutHeld h) (hstep : Stepped (.on h) e resp s') (hfaults : e.Faultless)
    (hreset : ¬ (⟨e, .on h, resp, s'⟩ : Moment P).RecoveryReset) :
    ∃ h', s' = .on h' ∧ LockoutHeld h' := by
  cases hstep with
  | @booted _ _ h' hboot => exact ⟨h', rfl, hheld.boot hboot hfaults⟩
  | bootCut hcut hg => exact absurd hcut hfaults.not_hasCut
  | @drew _ h' _ faults _ hc hrun hrng =>
    exact ⟨h', rfl, (hheld.facing faults).frozen (.of_onlyRng hrng)⟩
  | @served _ h' _ faults c r hc hrun =>
    have hfacing := hheld.facing faults
    have hout := (frozen_run c hfacing.state hfacing.config_isSome hfaults).of_ok hrun
    rcases hout with hfrozen | ⟨rfl, hphysical⟩
    · exact ⟨h', rfl, hfacing.frozen hfrozen⟩
    · exact absurd ⟨rfl, h, rfl, hphysical⟩ hreset
  | @cut _ h' _ faults c e hc hrun =>
    have hfacing := hheld.facing faults
    exact ((frozen_run c hfacing.state hfacing.config_isSome hfaults).of_error hrun).elim
  | relocked => exact ⟨_, rfl, hheld.relock⟩
  | advanced => exact ⟨_, rfl, hheld.state, hheld.config, hheld.locksOut⟩
  | quiet he => exact ⟨_, rfl, hheld.state, hheld.config, hheld.locksOut⟩

/-! ### How a session comes to be locked out -/

/-- The configuration is the stored one; in a lockout the counter has reached its
    limit, and the key is still stored unless it was to be wiped. -/
structure LockoutKnown (h : Hsm P) : Prop where
  config : h.config = storedConfig P h.flash.sector
  count : h.state = .lockedOut → ∀ c, h.config = some c →
    c.maxRetries.toNat ≤ Pin.used (h.flash.sector .pinCounter)
  key : h.state = .lockedOut → ∀ c, h.config = some c → c.wipeOnLockout = false →
    (storedKey P h.flash.sector).isSome

/-- Outside a lockout only the configuration matters. -/
theorem LockoutKnown.of_open {h : Hsm P} (hconfig : h.config = storedConfig P h.flash.sector)
    (hstate : h.state ≠ .lockedOut) : LockoutKnown h :=
  ⟨hconfig, fun hout => absurd hout hstate, fun hout => absurd hout hstate⟩

theorem LockoutKnown.frozen {h h' : Hsm P} (hk : LockoutKnown h) (hf : Frozen h h') :
    LockoutKnown h' where
  config := by rw [hf.config, hk.config, hf.storedConfig]
  count hout c hc := by
    rw [hf.sector .pinCounter (by decide) (by decide)]
    exact hk.count (hf.state ▸ hout) c (hf.config ▸ hc)
  key hout c hc hwipe := by
    rw [hf.storedKey]
    exact hk.key (hf.state ▸ hout) c (hf.config ▸ hc) hwipe

/-- The CONFIG pair is not among the regions. -/
def SparesConfig (R : Option Region → Prop) : Prop := ¬ R (some .configA) ∧ ¬ R (some .configB)

theorem FlashWithin.storedConfig {R : Option Region → Prop} {f g : Flash}
    (hg : FlashWithin R f g) (hR : SparesConfig R) :
    storedConfig P g.sector = storedConfig P f.sector := by
  unfold PicoSignet.storedConfig
  rw [AbPair.latest_congr (hg.sector _ hR.1) (hg.sector _ hR.2)]

theorem Wrote.storedConfig_key {payload : Octets} {f g : Flash} (hg : Wrote P KEY payload f g) :
    storedConfig P g.sector = storedConfig P f.sector := by
  refine hg.within.storedConfig ⟨?_, ?_⟩
  · intro heq
    rcases AbPair.nextTarget_mem P.crc32 KEY f.sector with ht | ht <;> rw [ht] at heq <;> cases heq
  · intro heq
    rcases AbPair.nextTarget_mem P.crc32 KEY f.sector with ht | ht <;> rw [ht] at heq <;> cases heq

theorem Wrote.storedConfig_config {c : DeviceConfig} {f g : Flash}
    (hg : Wrote P CONFIG c.toBytes f g) (hleft : CONFIG.NumberLeft P.crc32 f.sector) :
    storedConfig P g.sector = some c := by
  unfold PicoSignet.storedConfig
  rw [hg.latest (by rw [length_deviceConfig]; norm_num) hleft]
  exact DeviceConfig.fromBytes_toBytes c

theorem Ticks.storedConfig {f g : Flash} (hg : Ticks f g) :
    storedConfig P g.sector = storedConfig P f.sector :=
  hg.within.storedConfig ⟨by simp, by simp⟩

theorem Resets.storedConfig {f g : Flash} (hg : Resets f g) :
    storedConfig P g.sector = storedConfig P f.sector :=
  hg.within.storedConfig ⟨by simp, by simp⟩

theorem Wipes.storedConfig {f g : Flash} (hg : Wipes f g) :
    storedConfig P g.sector = storedConfig P f.sector :=
  hg.within.storedConfig ⟨by simp [KeyRegion], by simp [KeyRegion]⟩

/-- Whatever a PIN check finds, the lockout it leaves is known. -/
theorem LockoutKnown.of_verified {cfg : DeviceConfig} {pin : Str} {h h' : Hsm P}
    {r : Except HsmResponse UnlockedSeed} (hk : LockoutKnown h) (hcfg : h.config = some cfg)
    (hstate : h.state ≠ .lockedOut) (hv : Verified cfg pin h r h') : LockoutKnown h' := by
  cases hv with
  | refused hg => exact .of_open (hk.config.trans hg.storedConfig.symm) hstate
  | opened hg hopens hreset =>
    refine .of_open ?_ hstate
    exact hk.config.trans (hreset.storedConfig.trans hg.storedConfig).symm
  | @wrong resp g attempts h' hg hblob htick hwrong =>
    have hconfig : h.config = storedConfig P g.sector := hk.config.trans hg.storedConfig.symm
    cases hwrong with
    | retry until_ hlt => exact .of_open hconfig hstate
    | lockout until_ hge hwipe =>
      refine ⟨hconfig, fun _ c hc => ?_, fun _ c hc _ => ?_⟩
      · obtain rfl := Option.some.inj (hcfg.symm.trans hc)
        exact hge.trans htick.2
      · change (storedKey P g.sector).isSome
        rw [hg.storedKey]
        exact hblob
    | wipe until_ g' pubkey hge hwipe hg' hpubkey =>
      refine ⟨hconfig.trans hg'.storedConfig.symm, fun _ c hc => ?_, fun _ c hc hno => ?_⟩
      · obtain rfl := Option.some.inj (hcfg.symm.trans hc)
        change _ ≤ Pin.used (g'.sector .pinCounter)
        rw [hg'.within.sector .pinCounter (by simp [KeyRegion])]
        exact hge.trans htick.2
      · obtain rfl := Option.some.inj (hcfg.symm.trans hc)
        exact absurd (hno.symm.trans hwipe) (by decide)

theorem LockoutKnown.of_gate {pin : Option Str} {h h' : Hsm P} {r : Option HsmResponse}
    (hk : LockoutKnown h) (hgate : Gate pin h r h') : LockoutKnown h' := by
  have hopen : h.state = .prodLocked ∨ h.state = .prodReady → h.state ≠ .lockedOut := by
    rintro (hstate | hstate) <;> rw [hstate] <;> decide
  cases hgate with
  | free => exact hk
  | physical => exact hk
  | verified hpin hstate hcfg hv => exact hk.of_verified hcfg (hopen hstate) hv
  | refused => exact hk
  | rejected hpin hstate hcfg hv => exact hk.of_verified hcfg (hopen hstate) hv

/-- A reset that reports success has found no configuration. -/
theorem wp_eraseRest_config (keyGone : Bool) (h : Hsm P) :
    Wp (eraseRest keyGone : Dev P Bool)
      (fun gone h' => gone = true → CONFIG.latest P.crc32 h'.flash.sector = none)
      (fun _ _ => True) h := by
  unfold eraseRest
  refine Wp.bind_any _ (fun _ _ => ?_) fun _ _ => trivial
  refine Wp.bind_any _ (fun _ _ => ?_) fun _ _ => trivial
  refine Wp.bind_any _ (fun _ h₁ => ?_) fun _ _ => trivial
  rw [Wp_bind]
  refine Wp.mono (wp_onFlash_reads (reads_readLatest CONFIG h₁.flash)) ?_ fun _ _ _ => trivial
  rintro cfg _ ⟨g, rfl, hg, hvalue, -⟩
  rw [Wp_bind]
  refine Wp.mono (wp_onFlash_reads (reads_readLatest TIME_FLOOR g)) ?_ fun _ _ _ => trivial
  rintro time _ ⟨g', rfl, hg', -⟩
  rw [Wp_pure]
  intro hgone
  simp only [Bool.and_eq_true] at hgone
  have hcfg := hgone.1.2
  change CONFIG.latest P.crc32 g'.sector = none
  rw [hg'.sector_eq, hg.sector_eq]
  split at hcfg
  · exact (hvalue none rfl).symm
  · exact absurd hcfg (by simp)

theorem storedConfig_of_none {image : Region → Sector}
    (hnone : CONFIG.latest P.crc32 image = none) : storedConfig P image = none := by
  unfold PicoSignet.storedConfig
  rw [hnone]
  rfl

theorem wp_factoryReset_config (req : FactoryResetReq) (h : Hsm P) :
    Wp (hsmFactoryReset req)
      (fun resp h' => resp = .factoryReset true → CONFIG.latest P.crc32 h'.flash.sector = none)
      (fun _ _ => True) h := by
  unfold hsmFactoryReset
  split
  · exact fun hresp => absurd hresp (by simp [HsmResponse.err])
  rw [Wp_bind]
  refine Wp.mono (destructiveGate_isError _ _ h) ?_ fun _ _ _ => trivial
  intro r h₁ herror
  cases r with
  | some resp =>
    intro hresp
    obtain ⟨e, he⟩ := herror resp rfl
    rw [he] at hresp
    cases hresp
  | none =>
    dsimp only
    rw [Wp_bind, Wp_modify, Wp_bind, eraseEverything_eq]
    refine Wp.bind_any _ (fun keyGone h₂ => ?_) fun _ _ => trivial
    refine Wp.mono (wp_eraseRest_config keyGone h₂) ?_ fun _ _ _ => trivial
    intro gone h₃ hgone
    cases gone with
    | true => exact fun _ => hgone rfl
    | false =>
      refine Wp.bind_any _ (fun _ _ => ?_) fun _ _ => trivial
      exact fun hresp => absurd hresp (by simp [HsmResponse.err])

theorem LockoutKnown.of_init (req : InitReq) {h h' : Hsm P} {resp : HsmResponse}
    (hk : LockoutKnown h) (hfaults : Faultless h.flash.faults)
    (hleft : CONFIG.NumberLeft P.crc32 h.flash.sector)
    (hi : InitDev h resp h' ∨ InitProd req h resp h') : LockoutKnown h' := by
  have hno : ¬ ∃ left, Fault.fail left ∈ h.flash.faults := not_exists.mpr hfaults.no_fail
  rcases hi with hdev | hprod
  · cases hdev with
    | refused => exact hk
    | failed hg hfail => exact absurd hfail hno
    | done hg => exact .of_open (hg.storedConfig_config hleft).symm (by simp)
  · cases hprod with
    | refused hrng hresp => exact hk.frozen (.of_onlyRng hrng)
    | keyFailed hresp hg hfail => exact absurd hfail hno
    | configFailed hresp hg hg' hfail => exact absurd hfail hno
    | @done drbg entropy g g' g'' seed blob hretries hblob hg hg' hreset =>
      have hleft' : CONFIG.NumberLeft P.crc32 g.sector := by
        have hA := hg.within.sector .configA fun heq => by
          rcases AbPair.nextTarget_mem P.crc32 KEY h.flash.sector with ht | ht <;>
            rw [ht] at heq <;> cases heq
        have hB := hg.within.sector .configB fun heq => by
          rcases AbPair.nextTarget_mem P.crc32 KEY h.flash.sector with ht | ht <;>
            rw [ht] at heq <;> cases heq
        unfold AbPair.NumberLeft at hleft ⊢
        rw [AbPair.copies_congr hA hB]
        exact hleft
      refine .of_open ?_ (by simp)
      exact (hreset.storedConfig.trans (hg'.storedConfig_config hleft')).symm

theorem LockoutKnown.of_reset {req : FactoryResetReq} {h h' : Hsm P} {resp : HsmResponse}
    (hk : LockoutKnown h) (hfaults : Faultless h.flash.faults)
    (hf : FactoryReset req h resp h')
    (hgone : resp = .factoryReset true → storedConfig P h'.flash.sector = none) :
    LockoutKnown h' := by
  cases hf with
  | refused hresp => exact hk
  | gated hgate => exact hk.of_gate hgate
  | erased hgate hg hA hB => exact .of_open (hgone rfl).symm (by simp [Hsm.afterReset])
  | incomplete hresp hgate hg hg' hread hfault =>
    exact absurd (hfaults.of_suffix hgate.faults) hfault

/-- The step lemma for commands: without faults they keep what is known of a lockout. -/
theorem known_run (c : Command) {h : Hsm P} (hk : LockoutKnown h) (hfaults : Faultless h.flash.faults)
    (hleft : CONFIG.NumberLeft P.crc32 h.flash.sector) :
    Wp (c.run : Dev P HsmResponse) (fun _ h' => LockoutKnown h') (fun _ _ => True) h := by
  have hno : ¬ ∃ left, Fault.fail left ∈ h.flash.faults := not_exists.mpr hfaults.no_fail
  have hopen : h.state = .prodLocked ∨ h.state = .prodReady → h.state ≠ .lockedOut := by
    rintro (hstate | hstate) <;> rw [hstate] <;> decide
  cases c with
  | init req =>
    refine Wp.mono (wp_init req h) ?_ fun _ _ _ => trivial
    rintro resp h' (rfl | ⟨-, ⟨-, hdev⟩ | ⟨-, hprod⟩⟩)
    · exact hk
    · exact hk.of_init req hfaults hleft (Or.inl hdev)
    · exact hk.of_init req hfaults hleft (Or.inr hprod)
  | generateKey req =>
    refine Wp.mono (wp_generateKey req h) ?_ fun _ _ _ => trivial
    rintro resp h' (⟨rfl, -⟩ | ⟨hready, hr⟩)
    · exact hk
    cases hr with
    | refused hrng hresp => exact hk.frozen (.of_onlyRng hrng)
    | failed hresp hg hfail => exact absurd hfail hno
    | done hblob hg =>
      refine .of_open (hk.config.trans hg.storedConfig_key.symm) ?_
      change h.state ≠ .lockedOut
      rcases hready with hstate | hstate <;> rw [hstate] <;> decide
  | getPublicKey =>
    change Wp hsmGetPublicKey _ _ h
    unfold hsmGetPublicKey
    rw [Wp_bind, Wp_get]
    split <;> exact hk
  | unlock req =>
    refine Wp.mono (wp_unlock req h) ?_ fun _ _ _ => trivial
    intro resp h' hu
    cases hu with
    | refused => exact hk
    | rejected hcfg hstate hv => exact hk.of_verified hcfg (hopen (Or.inl hstate)) hv
    | opened hcfg hstate hv =>
      have hknown := hk.of_verified hcfg (hopen (Or.inl hstate)) hv
      exact .of_open hknown.config (by simp)
  | lock =>
    refine Wp.mono (wp_lock h) ?_ fun _ _ _ => trivial
    rintro resp h' (⟨hstate, -, rfl⟩ | ⟨hstate, -, rfl⟩ | ⟨-, rfl⟩)
    · exact .of_open hk.config (by simp)
    · exact hk.frozen ⟨rfl, rfl, fun _ _ _ => rfl⟩
    · exact hk
  | setTime req =>
    refine Wp.mono (wp_setTime req h) ?_ fun _ _ _ => trivial
    intro resp h' hset
    exact hk.frozen (.of_setTime hset hfaults)
  | status =>
    exact (frozen_status hfaults).mono (fun _ _ hf => hk.frozen hf) fun _ _ _ => trivial
  | changePin req =>
    refine Wp.mono (wp_changePin req h) ?_ fun _ _ _ => trivial
    intro resp h' hp
    cases hp with
    | refused hresp => exact hk
    | rejected hcfg hstate hv => exact hk.of_verified hcfg (hopen hstate) hv
    | rewrapped hcfg hstate hv hr =>
      have hknown := hk.of_verified hcfg (hopen hstate) hv
      cases hr with
      | refused hrng hresp => exact hknown.frozen (.of_onlyRng hrng)
      | failed hresp hg hfail =>
        exact absurd hfail (not_exists.mpr (hfaults.of_suffix hv.faults).no_fail)
      | done hblob hg hreset =>
        refine .of_open ?_ ?_
        · exact hknown.config.trans (hreset.storedConfig.trans hg.storedConfig_key).symm
        · dsimp only
          split <;> decide
  | addEntropy req =>
    change Wp (hsmAddEntropy req) _ _ h
    unfold hsmAddEntropy
    split
    · split
      · exact hk.frozen ⟨rfl, rfl, fun _ _ _ => rfl⟩
      · exact hk
    · exact hk
  | selfTest =>
    exact (frozen_selfTest hfaults).mono (fun _ _ hf => hk.frozen hf) fun _ _ _ => trivial
  | factoryReset req =>
    refine Wp.mono (Wp.and (wp_factoryReset req h) (wp_factoryReset_config req h)) ?_
      fun _ _ _ => trivial
    rintro resp h' ⟨hf, hgone⟩
    exact hk.of_reset hfaults hf fun hresp => storedConfig_of_none (hgone hresp)
  | rebootBootloader req =>
    refine Wp.mono (wp_rebootBootloader req h) ?_ fun _ _ _ => trivial
    rintro resp h' (⟨resp', hgate⟩ | ⟨h₁, hgate, rfl⟩)
    · exact hk.of_gate hgate
    · exact (hk.of_gate hgate).frozen ⟨rfl, rfl, fun _ _ _ => rfl⟩

/-! ### Every run -/

/-- The CONFIG pair has a number left wherever the device is served. -/
def Moment.ConfigNumberLeft (m : Moment P) : Prop :=
  CONFIG.NumberLeft P.crc32 m.before.flash.sector

def LockoutInvariant (s : Sys P) : Prop := ∀ h, s = .on h → LockoutKnown h

theorem LockoutInvariant.on {h : Hsm P} (hk : LockoutKnown h) : LockoutInvariant (.on h) := by
  intro h' heq
  obtain rfl := Sys.on.inj heq
  exact hk

theorem LockoutInvariant.off {f : Flash} : LockoutInvariant (P := P) (.off f) := by
  intro h heq
  cases heq

theorem LockoutKnown.of_boot {f : Flash} {p : PowerUp} {h : Hsm P} (hboot : PoweredUp f p h)
    (hfaults : Faultless p.faults) : LockoutKnown h := by
  obtain ⟨hconfig, hsector, hout⟩ := hboot.lockout hfaults
  refine ⟨by rw [hconfig, hsector], fun hstate c hc => ?_, fun hstate c hc _ => ?_⟩
  · obtain ⟨c', hc', -, -, hcount⟩ := hout.mp hstate
    rw [hconfig, hc'] at hc
    obtain rfl := Option.some.inj hc
    rw [hsector]
    exact hcount
  · obtain ⟨-, -, -, hkey, -⟩ := hout.mp hstate
    rw [hsector]
    exact hkey

theorem LockoutKnown.relock {h : Hsm P} (hk : LockoutKnown h) :
    LockoutKnown h.relockOnTransportReset := by
  unfold Hsm.relockOnTransportReset
  dsimp only
  split
  · split
    · exact .of_open hk.config (by simp)
    · exact hk.frozen ⟨rfl, rfl, fun _ _ _ => rfl⟩
  · exact hk

theorem LockoutInvariant.step {s s' : Sys P} {e : Event} {resp : Option Response}
    (hinv : LockoutInvariant s) (hstep : Stepped s e resp s') (hfaults : e.Faultless)
    (hleft : CONFIG.NumberLeft P.crc32 s.flash.sector) : LockoutInvariant s' := by
  cases hstep with
  | booted hboot => exact .on (.of_boot hboot hfaults)
  | bootCut hcut hg => exact .off
  | unpowered hno => exact .off
  | @drew h h' _ faults _ hc hrun hrng =>
    have hfacing : LockoutKnown (h.facing faults) :=
      ⟨(hinv h rfl).config, (hinv h rfl).count, (hinv h rfl).key⟩
    exact .on (hfacing.frozen (.of_onlyRng hrng))
  | @served h h' _ faults c _ hc hrun =>
    have hfacing : LockoutKnown (h.facing faults) :=
      ⟨(hinv h rfl).config, (hinv h rfl).count, (hinv h rfl).key⟩
    exact .on ((known_run c hfacing hfaults hleft).of_ok hrun)
  | cut hc hrun => exact .off
  | @relocked h => exact .on (hinv h rfl).relock
  | @advanced h mono => exact .on ((hinv h rfl).frozen ⟨rfl, rfl, fun _ _ _ => rfl⟩)
  | @quiet h => exact .on ((hinv h rfl).frozen ⟨rfl, rfl, fun _ _ _ => rfl⟩)

theorem Run.lockoutKnown {image : Flash} {hist : List (Moment P)} {h : Hsm P}
    (hrun : Run image hist (.on h)) (hfaults : ∀ m ∈ hist, m.event.Faultless)
    (hleft : ∀ m ∈ hist, m.ConfigNumberLeft) : LockoutKnown h := by
  have hinv : (∀ m ∈ hist, m.event.Faultless ∧ m.ConfigNumberLeft) → LockoutInvariant (.on h) := by
    refine hrun.induct (I := fun hist s =>
      (∀ m ∈ hist, m.event.Faultless ∧ m.ConfigNumberLeft) → LockoutInvariant s) (fun _ => .off) ?_
    intro hist s s' e resp hinv hstep hall
    have hnow := hall _ List.mem_cons_self
    exact (hinv fun m hm => hall m (List.mem_cons_of_mem _ hm)).step hstep hnow.1 hnow.2
  exact hinv (fun m hm => ⟨hfaults m hm, hleft m hm⟩) h rfl

/-- After any further requests and reboots, until a reset authorised by physical
    recovery, the device is powered and locked out. -/
def LockoutSurvives (image : Flash) (hist : List (Moment P)) : Prop :=
  ∀ (newer : List (Moment P)) (s : Sys P), Run image (newer ++ hist) s →
    (∀ m ∈ newer, m.event.Faultless ∧ ¬ m.RecoveryReset) → ∃ h, s = .on h ∧ h.state = .lockedOut

theorem Sys.step_boot {s : Sys P} {p : PowerUp} {h : Hsm P} (hpower : powerUp s.flash p = .ok () h) :
    s.step (.boot p) = (.on h, none) := by
  cases s <;> simp only [Sys.step, hpower]

/-- A history determines the state it leads to. -/
theorem Run.unique {image : Flash} {hist : List (Moment P)} {s s' : Sys P}
    (hrun : Run image hist s) (hrun' : Run image hist s') : s = s' := by
  cases hist with
  | nil =>
    cases hrun
    cases hrun'
    rfl
  | cons m older => exact hrun.last.2.2.trans hrun'.last.2.2.symm

/-- The run lemma: a lockout that holds survives everything that follows. -/
theorem LockoutHeld.survives {image : Flash} {hist newer : List (Moment P)} {h : Hsm P} {s : Sys P}
    (hhist : Run image hist (.on h)) (hheld : LockoutHeld h) (hrun : Run image (newer ++ hist) s)
    (hnewer : ∀ m ∈ newer, m.event.Faultless ∧ ¬ m.RecoveryReset) :
    ∃ h', s = .on h' ∧ LockoutHeld h' := by
  induction newer generalizing s with
  | nil => exact ⟨h, hrun.unique hhist, hheld⟩
  | cons m newer ih =>
    obtain ⟨hbefore, hstep, rfl⟩ := hrun.last
    obtain ⟨h₁, hs, hheld₁⟩ := ih hbefore fun m' hm' => hnewer m' (List.mem_cons_of_mem _ hm')
    obtain ⟨hfaults, hreset⟩ := hnewer m List.mem_cons_self
    obtain ⟨e, before, resp, after⟩ := m
    obtain rfl : before = .on h₁ := hs
    exact hheld₁.step hstep hfaults hreset

/-- A lockout survives exactly when the key record is still stored, and it is
    unless the configuration wipes the key. -/
theorem lockout_survives_iff {image : Flash} {hist : List (Moment P)} {h : Hsm P}
    (hrun : Run image hist (.on h)) (hfaults : ∀ m ∈ hist, m.event.Faultless)
    (hleft : ∀ m ∈ hist, m.ConfigNumberLeft) (hlocked : h.state = .lockedOut) :
    (LockoutSurvives image hist ↔ (storedKey P h.flash.sector).isSome) ∧
      ∀ c, h.config = some c → c.wipeOnLockout = false → (storedKey P h.flash.sector).isSome := by
  have hknown := hrun.lockoutKnown hfaults hleft
  refine ⟨⟨?_, ?_⟩, hknown.key hlocked⟩
  · intro hsurvives
    -- the next boot is enough to tell
    obtain ⟨h', hpower, -⟩ := powerUp_faultless (P := P) h.flash (p := Bench.dryPower) faultless_nil
    have hboot := Run.step hrun (.boot Bench.dryPower)
    rw [Sys.step_boot (s := .on h) hpower] at hboot
    obtain ⟨h'', heq, hout⟩ := hsurvives [⟨.boot Bench.dryPower, .on h, none, .on h'⟩] _ hboot (by
      intro m hm
      obtain rfl := List.mem_singleton.mp hm
      exact ⟨faultless_nil, fun hreset => by cases hreset.1⟩)
    obtain rfl := Sys.on.inj heq
    obtain ⟨-, -, hiff⟩ := (powerUp_ok hpower).lockout faultless_nil
    obtain ⟨-, -, -, hkey, -⟩ := hiff.mp hout
    exact hkey
  · intro hkey
    have hmode := hrun.shaped.consistent.prod.mp (Or.inr (Or.inr hlocked))
    obtain ⟨c, hc, hprod⟩ := Option.map_eq_some_iff.mp hmode
    have hheld : LockoutHeld h :=
      ⟨hlocked, hknown.config, c, hknown.config.symm.trans hc, hprod, hkey, hknown.count hlocked c hc⟩
    intro newer s hrun' hnewer
    obtain ⟨h', rfl, hheld'⟩ := hheld.survives hrun hrun' hnewer
    exact ⟨h', rfl, hheld'.state⟩

namespace Bench

/-- A production device that locks out on the first wrong PIN. -/
def oneTryImage (wipe : Bool) : Flash :=
  image [(.configA, recordImage (Prims.bench []).crc32 1
      { config with maxRetries := 1, wipeOnLockout := wipe }.toBytes),
    (.keyA, recordImage (Prims.bench []).crc32 1 blob.toBytes)]

def wrongPin : Str := ['6', '5', '4', '3', '2', '1']

/-- A host that unlocks with a wrong PIN. -/
abbrev guessOnce : Prims := .bench [unlock wrongPin]

def guessEvents : List Event := [send 0, .boot power]

end Bench

/-- The wrong PIN locks the device out for good when it does not wipe. -/
theorem lockout_survives_iff_kept :
    ∃ (hist : List (Moment Bench.guessOnce)) (h : Hsm Bench.guessOnce),
      Run (Bench.oneTryImage false) hist (.on h) ∧ h.state = .lockedOut ∧
        LockoutSurvives (Bench.oneTryImage false) hist := by
  have hends : replayEnds (P := Bench.guessOnce)
      (fun _ _ h' => h'.state == .lockedOut && (storedKey Bench.guessOnce h'.flash.sector).isSome)
      (Bench.oneTryImage false) Bench.guessEvents = true := by decide +kernel
  have hnumbers : (replay (P := Bench.guessOnce) (Bench.oneTryImage false) Bench.guessEvents).1.all
      (fun m => CONFIG.NumberLeft Bench.guessOnce.crc32 m.before.flash.sector) = true := by
    decide +kernel
  obtain ⟨m, h, h', resp, -, -, -, -, htest, hhist, hrun⟩ := exists_of_replayEnds hends
  rw [Bool.and_eq_true, beq_iff_eq] at htest
  rw [← hhist] at hrun
  refine ⟨_, h', hrun, htest.1, ?_⟩
  refine (lockout_survives_iff hrun (fun _ => faultless_of_replay (by decide)) ?_ htest.1).1.mpr
    htest.2
  intro m hm
  have hleft := List.all_eq_true.mp hnumbers m hm
  rw [decide_eq_true_eq] at hleft
  exact hleft

/-- With `wipe_on_lockout` the next boot finds no key and asks for a PIN again. -/
theorem wiping_lockout_ends_at_boot :
    ∃ (hist : List (Moment Bench.guessOnce)) (h h' : Hsm Bench.guessOnce),
      Run (Bench.oneTryImage true) hist (.on h) ∧ (∀ m ∈ hist, m.event.Faultless) ∧
      h.state = .lockedOut ∧
      Run (Bench.oneTryImage true) (⟨.boot Bench.power, .on h, none, .on h'⟩ :: hist) (.on h') ∧
      h'.state = .prodLocked := by
  have hends : replayEnds (P := Bench.guessOnce) (fun _ _ h => h.state == .lockedOut &&
      match (powerUp h.flash Bench.power : EStateM.Result Halt (Hsm Bench.guessOnce) Unit) with
      | .ok () h' => h'.state == .prodLocked
      | .error _ _ => false) (Bench.oneTryImage true) Bench.guessEvents = true := by decide +kernel
  obtain ⟨m, h, h', resp, -, -, -, -, htest, hhist, hrun⟩ := exists_of_replayEnds hends
  rw [Bool.and_eq_true, beq_iff_eq] at htest
  obtain ⟨hlocked, hboot⟩ := htest
  rw [← hhist] at hrun
  split at hboot
  · rename_i h'' hpower
    have hnext := Run.step hrun (.boot Bench.power)
    rw [Sys.step_boot (s := .on h') hpower] at hnext
    exact ⟨_, h', h'', hrun, fun _ => faultless_of_replay (by decide), hlocked, hnext,
      by simpa using hboot⟩
  · exact absurd hboot (by simp)

end PicoSignet
