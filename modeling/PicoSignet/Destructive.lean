/-
  PicoSignet/Destructive.lean
  ===========================
  **What destroys a production device** — its configuration, its key and the jump
  to the bootloader are behind one gate, which decides by the session in RAM.
  `ConfigTracked` keeps that session in step with the CONFIG record of the flash, so
  the gate decides by the record; the only other way to lose the key is the wrong
  PIN that ends the budget of a device which wipes.
-/
import PicoSignet.Backoff
import PicoSignet.Lockout
import PicoSignet.TimeSpec

set_option autoImplicit false

namespace PicoSignet

open Crash TwoCopy

variable {P : Prims}

/-! ### What a command spares -/

/-- The PIN or the latch opens the gate; in a lockout only the latch does. -/
def GateOpens (h : Hsm P) (pin : Option Str) : Prop :=
  Authorised h pin ∧ (h.state = .lockedOut → h.physicalRecoveryAuthorized = true)

/-- The command is one of the two behind the gate, and the gate opens. -/
def Hsm.Permits (h : Hsm P) : Command → Prop
  | .factoryReset req => GateOpens h req.pin
  | .rebootBootloader req => GateOpens h req.pin
  | _ => False

/-- The command carries the wrong PIN that ends the budget of a device which wipes. -/
def Hsm.WipesFor (h : Hsm P) (c : Command) : Prop :=
  ∃ pin cfg, Hands h c pin ∧ ¬ h.Waits ∧ h.config = some cfg ∧ Rejects P h.flash cfg pin ∧
    cfg.maxRetries.toNat ≤ Pin.next h.attempts ∧ cfg.wipeOnLockout = true

/-- A KEY record can be read. -/
def HasKeyRecord (P : Prims) (f : Flash) : Prop := (KEY.latest P.crc32 f.sector).isSome

/-- The CONFIG pair, the configuration and the request for a reboot are as they were. -/
structure ConfigSpared (h h' : Hsm P) : Prop where
  configA : h'.flash.sector .configA = h.flash.sector .configA
  configB : h'.flash.sector .configB = h.flash.sector .configB
  config : h'.config = h.config
  reboot : h'.rebootRequested = h.rebootRequested

/-- The fields and regions that `ConfigSpared` leaves open. -/
def BesidesConfig (x : Field) : Prop := x ≠ .config ∧ x ≠ .reboot

theorem pinScope_besidesConfig : PinScope BesidesConfig NotConfigRegion := by
  constructor <;> simp [BesidesConfig, NotConfigRegion]

theorem Within.configSpared {h h' : Hsm P} (hw : Within BesidesConfig NotConfigRegion h h') :
    ConfigSpared h h' where
  configA := hw.flash.sector _ (by simp [NotConfigRegion])
  configB := hw.flash.sector _ (by simp [NotConfigRegion])
  config := hw.same .config (by simp [BesidesConfig])
  reboot := hw.same .reboot (by simp [BesidesConfig])

theorem ConfigSpared.storedConfig {h h' : Hsm P} (hs : ConfigSpared h h') :
    storedConfig P h'.flash.sector = storedConfig P h.flash.sector := by
  unfold PicoSignet.storedConfig
  rw [AbPair.latest_congr hs.configA hs.configB]

theorem hasKeyRecord_congr {f g : Flash} (hA : g.sector .keyA = f.sector .keyA)
    (hB : g.sector .keyB = f.sector .keyB) : HasKeyRecord P g ↔ HasKeyRecord P f := by
  unfold HasKeyRecord
  rw [AbPair.latest_congr hA hB]

theorem FlashWithin.hasKeyRecord {R : Option Region → Prop} {f g : Flash} (h : FlashWithin R f g)
    (hA : ¬ R (some .keyA)) (hB : ¬ R (some .keyB)) : HasKeyRecord P g ↔ HasKeyRecord P f :=
  hasKeyRecord_congr (h.sector _ hA) (h.sector _ hB)

theorem newest_isSome {α : Type} (c : Copies α) : c.newest.isSome ↔ c.a.isSome ∨ c.b.isSome := by
  obtain ⟨a, b⟩ := c
  rcases a with _ | ⟨m, v⟩ <;> rcases b with _ | ⟨n, w⟩ <;> simp [Copies.newest]
  split <;> simp

/-- A record that was written can be read, whatever number it got. -/
theorem Wrote.hasKeyRecord {payload : Octets} {f g : Flash} (hg : Wrote P KEY payload f g)
    (hpayload : payload.length ≤ 4080) : HasKeyRecord P g := by
  unfold HasKeyRecord AbPair.latest
  rw [AbPair.step_done hpayload hg.sector, newest_isSome]
  unfold Copies.replace
  split <;> simp

/-! ### One command -/

/-- What a command does to what is worth destroying. -/
inductive DestroyStep (h : Hsm P) (c : Command) (h' : Hsm P) : Prop
  | permitted (hpermits : h.Permits c) : DestroyStep h c h'
  | wiped (hwipes : h.WipesFor c) (hs : ConfigSpared h h') : DestroyStep h c h'
  | spared (hs : ConfigSpared h h') (hkey : HasKeyRecord P h.flash → HasKeyRecord P h'.flash) :
      DestroyStep h c h'

section Step

variable {h h' : Hsm P} {c : Command} {resp : HsmResponse} {faults : List Fault}

theorem DestroyStep.same : DestroyStep h c (h.facing faults) :=
  .spared ⟨rfl, rfl, rfl, rfl⟩ id

theorem DestroyStep.of_within {F : Field → Prop} {R : Option Region → Prop}
    (hw : Within F R (h.facing faults) h') (hF : ¬ F .config ∧ ¬ F .reboot)
    (hconfig : ¬ R (some .configA) ∧ ¬ R (some .configB))
    (hkey : ¬ R (some .keyA) ∧ ¬ R (some .keyB)) : DestroyStep h c h' :=
  .spared ⟨hw.flash.sector _ hconfig.1, hw.flash.sector _ hconfig.2, hw.same .config hF.1,
    hw.same .reboot hF.2⟩ (hw.flash.hasKeyRecord hkey.1 hkey.2).mpr

theorem hasKeyRecord_ticked (f : Flash) : HasKeyRecord P f.ticked ↔ HasKeyRecord P f :=
  hasKeyRecord_congr (Flash.sector_ticked (by decide)) (Flash.sector_ticked (by decide))

theorem Hsm.rejected_spares (h : Hsm P) (cfg : DeviceConfig) : ConfigSpared h (h.rejected cfg) := by
  have hsector : ∀ r, r ≠ .pinCounter → h.flash.ticked.sector r = h.flash.sector r :=
    fun r hr => Flash.sector_ticked hr
  unfold Hsm.rejected
  split
  · split <;> exact ⟨hsector _ (by decide), hsector _ (by decide), rfl, rfl⟩
  · exact ⟨hsector _ (by decide), hsector _ (by decide), rfl, rfl⟩

/-- An attempt that fails costs the key only where it ends the budget of a device that wipes. -/
theorem Attempt.destroys {cfg : DeviceConfig} {pin : Str} {h₁ : Hsm P} (hands : Hands h c pin)
    (hcfg : h.config = some cfg) (hatt : Attempt cfg pin h (.error resp) h₁) :
    DestroyStep h c (h₁.facing faults) := by
  cases hatt with
  | busy => exact .same
  | unjudged =>
    refine .spared ⟨Flash.sector_ticked (by decide), Flash.sector_ticked (by decide), rfl, rfl⟩ ?_
    exact (hasKeyRecord_ticked h.flash).mpr
  | rejected hpast hrejects =>
    have hs : ConfigSpared h ((h.rejected cfg).facing faults) := by
      obtain ⟨hA, hB, hconfig, hreboot⟩ := h.rejected_spares cfg
      exact ⟨hA, hB, hconfig, hreboot⟩
    by_cases hwipe : cfg.maxRetries.toNat ≤ Pin.next h.attempts ∧ cfg.wipeOnLockout = true
    · exact .wiped ⟨pin, cfg, hands, hpast, hcfg, hrejects, hwipe⟩ hs
    · refine .spared hs fun hkey => ?_
      change HasKeyRecord P (h.rejected cfg).flash
      unfold Hsm.rejected
      split
      · rename_i hge
        rw [if_neg fun hyes => hwipe ⟨hge, hyes⟩]
        exact (hasKeyRecord_ticked h.flash).mpr hkey
      · exact (hasKeyRecord_ticked h.flash).mpr hkey

theorem hasKeyRecord_accepted (h : Hsm P) (cfg : DeviceConfig) :
    HasKeyRecord P (h.accepted cfg).flash ↔ HasKeyRecord P h.flash := by
  refine Iff.trans (hasKeyRecord_congr ?_ ?_) (hasKeyRecord_ticked h.flash)
  · exact Flash.sector_erase_of_ne (by decide)
  · exact Flash.sector_erase_of_ne (by decide)

theorem not_lockedOut_of_takes (hstate : h.state = .prodLocked ∨ h.state = .prodReady) :
    h.state ≠ .lockedOut := by
  rcases hstate with hstate | hstate <;> rw [hstate] <;> decide

theorem Owned.gateOpens_of_opens (howned : Owned h) {cfg : DeviceConfig} {pin : Str}
    {seed kek : Bytes 32} {salt : Bytes 16}
    (hstate : h.state = .prodLocked ∨ h.state = .prodReady) (hcfg : h.config = some cfg)
    (hopens : Opens P h.flash cfg pin seed kek salt) : GateOpens h (some pin) :=
  ⟨Or.inr ⟨pin, cfg, seed, kek, salt, rfl, howned.stored.symm.trans hcfg, hopens⟩,
    fun hout => absurd hout (not_lockedOut_of_takes hstate)⟩

theorem Owned.gateOpens (howned : Owned h) {pin : Option Str} {h₁ : Hsm P}
    (hgate : Gate pin h none h₁) : GateOpens h pin := by
  refine ⟨howned.gate hgate, fun hout => ?_⟩
  cases hgate with
  | free hstate =>
    rw [hout] at hstate
    simp at hstate
  | physical hphysical => exact hphysical
  | verified hpin hstate => exact absurd hout (not_lockedOut_of_takes hstate)

/-- The gate of a production device: a failed attempt, a refusal, or an authorised request. -/
theorem Owned.gate_cases (howned : Owned h) (pin : Option Str) (noPin : String)
    (hands : ∀ p, pin = some p → (h.state = .prodLocked ∨ h.state = .prodReady) →
      h.physicalRecoveryAuthorized = false → Hands h c p)
    (hfaults : Faultless faults) (hrun : c.run (h.facing faults) = .ok resp h') :
    DestroyStep h c h' ∨ GateOpens h pin ∨
      ∃ resp', Serves (destructiveGate pin noPin) h (some resp') h := by
  by_cases hidle : (h.state = .prodLocked ∨ h.state = .prodReady) ∧
      h.physicalRecoveryAuthorized = false ∧ pin.isSome
  · obtain ⟨hstate, hphysical, hsome⟩ := hidle
    obtain ⟨p, rfl⟩ := Option.isSome_iff_exists.mp hsome
    have hhands := hands p rfl hstate hphysical
    rcases hhands.ends howned.shape hfaults hrun with
      ⟨cfg, h₁, faults', hcfg, hatt, rfl⟩ | ⟨cfg, seed, kek, salt, hcfg, -, hopens, -⟩
    · exact Or.inl (hatt.destroys hhands hcfg)
    · exact Or.inr (Or.inl (howned.gateOpens_of_opens hstate hcfg hopens))
  · obtain ⟨r, hserves, -⟩ := serves_destructiveGate_idle pin noPin hidle
    cases r with
    | some resp' => exact Or.inr (Or.inr ⟨resp', hserves⟩)
    | none =>
      obtain ⟨faults', hgate, -⟩ := hserves faults hfaults
      have hpast := (wp_destructiveGate pin noPin (h.facing faults)).of_ok hgate
      exact Or.inr (Or.inl ((howned.facing faults).gateOpens hpast))

theorem DestroyStep.unlock {req : UnlockReq} (howned : Owned h) (hfaults : Faultless faults)
    (hrun : hsmUnlock req (h.facing faults) = .ok resp h') : DestroyStep h (.unlock req) h' := by
  by_cases hstate : h.state = .prodLocked
  · have hands : Hands h (.unlock req) req.pin := .unlock hstate
    rcases hands.ends howned.shape hfaults hrun with
      ⟨cfg, h₁, faults', hcfg, hatt, rfl⟩ | ⟨cfg, seed, kek, salt, -, -, -, hserves⟩
    · exact hatt.destroys hands hcfg
    · have hs : ConfigSpared (h.facing faults) h' :=
        ((stays_unlock pinScope_besidesConfig req (h.facing faults)).of_ok hrun).configSpared
      obtain ⟨-, faults', rfl, -⟩ := (serves_unlock hstate hserves).of_ok hfaults hrun
      exact .spared ⟨hs.configA, hs.configB, hs.config, hs.reboot⟩
        (hasKeyRecord_accepted h cfg).mpr
  · cases (wp_unlock req (h.facing faults)).of_ok hrun with
    | refused => exact .same
    | rejected hcfg hlocked hv => exact absurd hlocked hstate
    | opened hcfg hlocked hv => exact absurd hlocked hstate

theorem DestroyStep.changePin {req : ChangePinReq} (howned : Owned h) (hfaults : Faultless faults)
    (hrun : hsmChangePin req (h.facing faults) = .ok resp h') :
    DestroyStep h (.changePin req) h' := by
  by_cases hgo : (h.state = .prodLocked ∨ h.state = .prodReady) ∧
      (PIN_MIN ≤ req.newPin.len ∧ req.newPin.len ≤ PIN_MAX)
  · obtain ⟨hstate, hlen⟩ := hgo
    have hands : Hands h (.changePin req) req.currentPin := .changePin hstate hlen
    rcases hands.ends howned.shape hfaults hrun with
      ⟨cfg, h₁, faults', hcfg, hatt, rfl⟩ | ⟨cfg, seed, kek, salt, hcfg, -, -, hserves⟩
    · exact hatt.destroys hands hcfg
    · have hs : ConfigSpared (h.facing faults) h' :=
        ((stays_changePin pinScope_besidesConfig req (h.facing faults)).of_ok hrun).configSpared
      obtain ⟨faults₁, hfaults₁, hrest⟩ := changePin_opened hstate hlen hserves hfaults
      rw [hrest] at hrun
      have hcfg₁ : ((h.accepted cfg).facing faults₁).config.isSome := by
        change h.config.isSome
        rw [hcfg]
        rfl
      refine .spared ⟨hs.configA, hs.configB, hs.config, hs.reboot⟩ fun hkey => ?_
      cases (wp_rewrapSeed req.newPin (decide (h.state = .prodReady)) seed hcfg₁).of_ok hrun with
      | refused hrng =>
        rw [hrng]
        exact (hasKeyRecord_accepted h cfg).mpr hkey
      | failed hresp hg hfail => exact absurd hfail (not_exists.mpr hfaults₁.no_fail)
      | done hblob hg hreset =>
        have hwrote := hg.hasKeyRecord (length_keyBlob_le _)
        exact (hreset.within.hasKeyRecord (by simp) (by simp)).mpr hwrote
  · rw [changePin_idle hgo hrun]
    exact .same

/-- The step lemma for commands: the configuration, the key and the reboot of a
    production device are spared, or the command had the means. -/
theorem destroyStep (howned : Owned h) (hfaults : Faultless faults)
    (hrun : c.run (h.facing faults) = .ok resp h') : DestroyStep h c h' := by
  have hno : ¬ ∃ left, Fault.fail left ∈ (h.facing faults).flash.faults :=
    not_exists.mpr hfaults.no_fail
  have hnothing : ∀ {m : Dev P HsmResponse}, Stays (Within (fun _ => False) fun _ => False) m →
      m (h.facing faults) = .ok resp h' → DestroyStep h c h' := by
    intro m hm hrun
    exact .of_within ((hm (h.facing faults)).of_ok hrun) ⟨id, id⟩ ⟨id, id⟩ ⟨id, id⟩
  cases c with
  | init req =>
    rcases (wp_init req (h.facing faults)).of_ok hrun with rfl | ⟨hnone, -⟩
    · exact .same
    · have hmode := howned.mode
      rw [show h.config = none from hnone] at hmode
      cases hmode
  | generateKey req =>
    have hs : ConfigSpared (h.facing faults) h' :=
      ((stays_generateKey pinScope_besidesConfig.keyA pinScope_besidesConfig.keyB
        pinScope_besidesConfig.secrets pinScope_besidesConfig.caPubkey req
        (h.facing faults)).of_ok hrun).configSpared
    refine .spared ⟨hs.configA, hs.configB, hs.config, hs.reboot⟩ fun hkey => ?_
    rcases (wp_generateKey req (h.facing faults)).of_ok hrun with ⟨rfl, -⟩ | ⟨-, hrotated⟩
    · exact hkey
    · cases hrotated with
      | refused hrng =>
        rw [hrng]
        exact hkey
      | failed hresp hg hfail => exact absurd hfail hno
      | done hblob hg => exact hg.hasKeyRecord (length_keyBlob_le _)
  | getPublicKey => exact hnothing stays_getPublicKey hrun
  | unlock req => exact .unlock howned hfaults hrun
  | lock =>
    have hw : Within (fun x => x = .state ∨ x = .secrets) (fun _ => False) (h.facing faults) h' :=
      (stays_lock (Or.inl rfl) (Or.inr rfl) (h.facing faults)).of_ok hrun
    exact .of_within hw (by simp) ⟨id, id⟩ ⟨id, id⟩
  | setTime req =>
    have hw : Within (fun x => x = .clock ∨ x = .floor)
        (fun r => r = some .timeA ∨ r = some .timeB) (h.facing faults) h' :=
      (stays_setTime (Or.inl rfl) (Or.inr rfl) (Or.inl rfl) (Or.inr rfl) req
        (h.facing faults)).of_ok hrun
    exact .of_within hw (by simp) (by simp) (by simp)
  | status => exact hnothing stays_status hrun
  | changePin req => exact .changePin howned hfaults hrun
  | addEntropy req => exact hnothing (stays_addEntropy req) hrun
  | selfTest => exact hnothing stays_selfTest hrun
  | factoryReset req =>
    by_cases hconfirm : req.confirm = confirmErase
    · rcases howned.gate_cases (c := .factoryReset req) req.pin
        "factory-reset requires a PIN or physical recovery held low during reset"
        (fun p hp hstate hphysical => .factoryReset hconfirm hp hstate hphysical) hfaults hrun with
        hstep | hauth | ⟨resp', hserves⟩
      · exact hstep
      · exact .permitted hauth
      · have hdone : Serves (hsmFactoryReset req) h resp' h := by
          unfold hsmFactoryReset
          rw [if_neg (not_not.mpr hconfirm)]
          exact hserves.bind (Serves.pure _ _)
        obtain ⟨-, faults', rfl, -⟩ := hdone.of_ok hfaults hrun
        exact .same
    · change hsmFactoryReset req (h.facing faults) = _ at hrun
      unfold hsmFactoryReset at hrun
      rw [if_pos hconfirm] at hrun
      cases hrun
      exact .same
  | rebootBootloader req =>
    rcases howned.gate_cases (c := .rebootBootloader req) req.pin
      "rebooting into the bootloader requires a PIN or physical recovery held low during reset"
      (fun p hp hstate hphysical => .rebootBootloader hp hstate hphysical) hfaults hrun with
      hstep | hauth | ⟨resp', hserves⟩
    · exact hstep
    · exact .permitted hauth
    · have hdone : Serves (hsmRebootBootloader req) h resp' h := hserves.bind (Serves.pure _ _)
      obtain ⟨-, faults', rfl, -⟩ := hdone.of_ok hfaults hrun
      exact .same

end Step

/-! ### The session knows the record -/

/-- Without a stored configuration the CONFIG pair can take one. -/
def ConfigWritable (P : Prims) (f : Flash) : Prop :=
  storedConfig P f.sector = none → CONFIG.NumberLeft P.crc32 f.sector

theorem configWritable_of_none {f : Flash} (hnone : CONFIG.latest P.crc32 f.sector = none) :
    ConfigWritable P f := by
  intro _
  have hempty : ∀ c : Copies Octets, c.newest = none → c.next < 2 ^ 32 := by
    intro c hc
    have hno : ¬ (c.a.isSome ∨ c.b.isSome) := by
      rw [← newest_isSome, hc]
      simp
    obtain ⟨a, b⟩ := c
    cases a <;> cases b <;> simp_all [Copies.next]
  exact hempty _ hnone

theorem configWritable_congr {f g : Flash} (hA : g.sector .configA = f.sector .configA)
    (hB : g.sector .configB = f.sector .configB) (hf : ConfigWritable P f) : ConfigWritable P g := by
  unfold ConfigWritable storedConfig AbPair.NumberLeft AbPair.latest at *
  rw [AbPair.copies_congr hA hB]
  exact hf

/-- The session has the stored configuration. -/
structure ConfigTracked (h : Hsm P) : Prop where
  writable : ConfigWritable P h.flash
  config : h.config = storedConfig P h.flash.sector

theorem ConfigTracked.spared {h h' : Hsm P} (ht : ConfigTracked h) (hA : h'.flash.sector .configA =
    h.flash.sector .configA) (hB : h'.flash.sector .configB = h.flash.sector .configB)
    (hconfig : h'.config = h.config) : ConfigTracked h' := by
  refine ⟨configWritable_congr hA hB ht.writable, ?_⟩
  have hlatest : CONFIG.latest P.crc32 h'.flash.sector = CONFIG.latest P.crc32 h.flash.sector :=
    AbPair.latest_congr hA hB
  rw [hconfig, ht.config]
  unfold storedConfig
  rw [hlatest]

/-- What a command over working flash does to the configuration. -/
inductive ConfigStep (h : Hsm P) : HsmResponse → Hsm P → Prop
  | kept {resp : HsmResponse} {h' : Hsm P}
      (hA : h'.flash.sector .configA = h.flash.sector .configA)
      (hB : h'.flash.sector .configB = h.flash.sector .configB) (hconfig : h'.config = h.config) :
      ConfigStep h resp h'
  | provisioned {resp : HsmResponse} {h' : Hsm P} {cfg : DeviceConfig} (hnone : h.config = none)
      (hconfig : h'.config = some cfg)
      (hstored : CONFIG.NumberLeft P.crc32 h.flash.sector →
        storedConfig P h'.flash.sector = some cfg) : ConfigStep h resp h'
  | reset {h' : Hsm P} (hconfig : h'.config = none)
      (hnone : CONFIG.latest P.crc32 h'.flash.sector = none) :
      ConfigStep h (.factoryReset true) h'

theorem Within.configStep {h h' : Hsm P} {resp : HsmResponse}
    (hw : Within NotConfig NotConfigRegion h h') : ConfigStep h resp h' :=
  .kept (hw.flash.sector _ (by simp [NotConfigRegion]))
    (hw.flash.sector _ (by simp [NotConfigRegion])) (hw.same .config (by simp [NotConfig]))

/-- A write to another pair leaves the CONFIG pair alone. -/
theorem Wrote.numberLeft_config {payload : Octets} {f g : Flash} (hg : Wrote P KEY payload f g)
    (hleft : CONFIG.NumberLeft P.crc32 f.sector) : CONFIG.NumberLeft P.crc32 g.sector := by
  have hspared : ∀ r, r = .configA ∨ r = .configB → g.sector r = f.sector r := by
    intro r hr
    refine hg.within.sector r fun heq => ?_
    rcases KEY.nextTarget_mem P.crc32 f.sector with htarget | htarget <;>
      rw [htarget] at heq <;> obtain rfl := Option.some.inj heq <;> simp [KEY] at hr
  unfold AbPair.NumberLeft at hleft ⊢
  rwa [AbPair.copies_congr (hspared _ (Or.inl rfl)) (hspared _ (Or.inr rfl))]

theorem configStep_init (req : InitReq) {h : Hsm P} (hfaults : Faultless h.flash.faults) :
    Wp (hsmInit req) (ConfigStep h) (fun _ _ => True) h := by
  have hno : ¬ ∃ left, Fault.fail left ∈ h.flash.faults := not_exists.mpr hfaults.no_fail
  refine Wp.mono (wp_init req h) ?_ fun _ _ _ => trivial
  rintro resp h' (rfl | ⟨hnone, ⟨-, hdev⟩ | ⟨-, hprod⟩⟩)
  · exact .kept rfl rfl rfl
  · cases hdev with
    | refused => exact .kept rfl rfl rfl
    | failed hg hfail => exact absurd hfail hno
    | done hg => exact .provisioned hnone rfl hg.storedConfig_config
  · cases hprod with
    | refused hrng =>
      obtain ⟨drbg, entropy, rfl⟩ := hrng.exists
      exact .kept rfl rfl rfl
    | keyFailed hresp hg hfail => exact absurd hfail hno
    | configFailed hresp hg hg' hfail => exact absurd hfail hno
    | done hretries hblob hg hg' hreset =>
      refine .provisioned hnone rfl fun hleft => ?_
      exact hreset.storedConfig.trans (hg'.storedConfig_config (hg.numberLeft_config hleft))

theorem wp_eraseEverything_config (h : Hsm P) :
    Wp eraseEverything
      (fun gone h' => gone = true → CONFIG.latest P.crc32 h'.flash.sector = none)
      (fun _ _ => True) h := by
  rw [eraseEverything_eq]
  exact Wp.bind_any _ (fun keyGone h₁ => wp_eraseRest_config keyGone h₁) fun _ _ => trivial

theorem configStep_factoryReset (req : FactoryResetReq) {h : Hsm P}
    (hfaults : Faultless h.flash.faults) :
    Wp (hsmFactoryReset req) (ConfigStep h) (fun _ _ => True) h := by
  unfold hsmFactoryReset
  split
  · exact .kept rfl rfl rfl
  rw [Wp_bind]
  refine Wp.mono (Wp.and (stays_destructiveGate pinScope_notConfig _ _ h)
    (wp_destructiveGate _ _ h)) ?_ fun _ _ _ => trivial
  rintro r h₁ ⟨hwithin, hgate⟩
  cases r with
  | some resp => exact hwithin.configStep
  | none =>
    dsimp only
    rw [Wp_bind, Wp_modify, Wp_bind]
    have hfaults₁ : Faultless h₁.dropLiveSecrets.flash.faults := hfaults.of_suffix hgate.faults
    refine Wp.mono (Wp.and (eraseEverything_faultless hfaults₁) (wp_eraseEverything_config _)) ?_
      fun _ _ _ => trivial
    rintro _ h₂ ⟨rfl, hgone⟩
    exact .reset rfl (hgone rfl)

/-- The step lemma for the configuration. -/
theorem configStep_run (c : Command) {h : Hsm P} (hfaults : Faultless h.flash.faults) :
    Wp (c.run : Dev P HsmResponse) (ConfigStep h) (fun _ _ => True) h := by
  have hscope := pinScope_notConfig
  have hspared : ∀ {m : Dev P HsmResponse}, Stays (Within NotConfig NotConfigRegion) m →
      Wp m (ConfigStep h) (fun _ _ => True) h := by
    intro m hm
    exact (hm h).mono (fun _ _ hw => hw.configStep) fun _ _ _ => trivial
  cases c with
  | init req => exact configStep_init req hfaults
  | generateKey req =>
    exact hspared (stays_generateKey hscope.keyA hscope.keyB hscope.secrets hscope.caPubkey req)
  | getPublicKey => exact hspared stays_getPublicKey
  | unlock req => exact hspared (stays_unlock hscope req)
  | lock => exact hspared (stays_lock hscope.state hscope.secrets)
  | setTime req =>
    exact hspared (stays_setTime (by simp [NotConfig]) (by simp [NotConfig])
      (by simp [NotConfigRegion]) (by simp [NotConfigRegion]) req)
  | status => exact hspared stays_status
  | changePin req => exact hspared (stays_changePin hscope req)
  | addEntropy req => exact hspared (stays_addEntropy req)
  | selfTest => exact hspared stays_selfTest
  | factoryReset req => exact configStep_factoryReset req hfaults
  | rebootBootloader req => exact hspared (stays_rebootBootloader hscope (by simp [NotConfig]) req)

/-- The invariant of every state: the CONFIG pair can take a configuration where it has
    none, and the session that runs has the stored one. -/
def ConfigInvariant (s : Sys P) : Prop :=
  ConfigWritable P s.flash ∧ ∀ h, s = .on h → ConfigTracked h

theorem ConfigInvariant.on {h : Hsm P} (ht : ConfigTracked h) : ConfigInvariant (.on h) := by
  refine ⟨ht.writable, ?_⟩
  rintro _ ⟨⟩
  exact ht

/-- What an event over working flash leaves of the stored configuration. -/
structure ConfigMove (m : Moment P) : Prop where
  invariant : ConfigInvariant m.after
  kept : ∀ cfg, storedConfig P m.before.flash.sector = some cfg →
    m.response ≠ some (.hsm (.factoryReset true)) →
    storedConfig P m.after.flash.sector = some cfg

/-- The CONFIG pair and the configuration as they were. -/
theorem ConfigMove.of_kept {h h' : Hsm P} {e : Event} {resp : Option Response}
    (ht : ConfigTracked h) (hA : h'.flash.sector .configA = h.flash.sector .configA)
    (hB : h'.flash.sector .configB = h.flash.sector .configB) (hconfig : h'.config = h.config) :
    ConfigMove ⟨e, .on h, resp, .on h'⟩ := by
  have ht' := ht.spared hA hB hconfig
  refine ⟨.on ht', fun cfg hcfg _ => ?_⟩
  change storedConfig P h'.flash.sector = some cfg
  rw [← ht'.config, hconfig, ht.config]
  exact hcfg

/-- The step lemma. -/
theorem ConfigInvariant.step {s s' : Sys P} {e : Event} {resp : Option Response}
    (hinv : ConfigInvariant s) (hshape : ShapeInvariant s) (hstep : Stepped s e resp s')
    (hfaults : e.Faultless) : ConfigMove ⟨e, s, resp, s'⟩ := by
  obtain ⟨hwritable, htracked⟩ := hinv
  cases hstep with
  | @booted s p h hboot =>
    obtain ⟨hconfig, hsector, -⟩ := hboot.lockout hfaults
    have hsame : h.flash.sector = s.flash.sector := hsector
    refine ⟨.on ⟨?_, ?_⟩, fun cfg hcfg _ => ?_⟩
    · unfold ConfigWritable
      rw [hsame]
      exact hwritable
    · rw [hsame]
      exact hconfig
    · change storedConfig P h.flash.sector = some cfg
      rw [hsame]
      exact hcfg
  | bootCut hcut => exact absurd hcut hfaults.not_hasCut
  | unpowered => exact ⟨⟨hwritable, by simp⟩, fun cfg hcfg _ => hcfg⟩
  | @drew h h' bytes faults resp hc hrun hrng =>
    obtain ⟨drbg, entropy, rfl⟩ := hrng.exists
    exact .of_kept (htracked h rfl) rfl rfl rfl
  | @served h h' bytes faults c resp hc hrun =>
    have ht := htracked h rfl
    have hdone := (configStep_run c (h := h.facing faults) hfaults).of_ok hrun
    cases hdone with
    | kept hA hB hconfig => exact .of_kept ht hA hB hconfig
    | provisioned hnone hconfig hstored =>
      have hempty : storedConfig P h.flash.sector = none := ht.config.symm.trans hnone
      have hnew := hstored (ht.writable hempty)
      refine ⟨.on ⟨fun hno => ?_, hconfig.trans hnew.symm⟩, fun cfg hcfg _ => ?_⟩
      · exact absurd (hnew.symm.trans hno) (by simp)
      · exact absurd (hempty.symm.trans hcfg) (by simp)
    | reset hconfig hnone =>
      refine ⟨.on ⟨configWritable_of_none hnone, ?_⟩, fun cfg _ hresp => absurd rfl hresp⟩
      rw [hconfig, storedConfig_of_none hnone]
  | @cut h h' bytes faults c e hc hrun =>
    obtain ⟨resp, h₁, hanswer, -⟩ := (hshape h rfl).answers c (show Faultless faults from hfaults)
    rw [hanswer] at hrun
    cases hrun
  | @relocked h =>
    have hkept : h.relockOnTransportReset.flash = h.flash ∧
        h.relockOnTransportReset.config = h.config := by
      unfold Hsm.relockOnTransportReset
      dsimp only
      split
      · split <;> exact ⟨rfl, rfl⟩
      · exact ⟨rfl, rfl⟩
    refine .of_kept (htracked h rfl) ?_ ?_ hkept.2 <;> rw [hkept.1]
  | @advanced h => exact .of_kept (htracked h rfl) rfl rfl rfl
  | @quiet h => exact .of_kept (htracked h rfl) rfl rfl rfl

theorem Run.configInvariant {image : Flash} {hist : List (Moment P)} {s : Sys P}
    (hrun : Run image hist s) (hfaults : ∀ m ∈ hist, m.event.Faultless)
    (himage : ConfigWritable P image) : ConfigInvariant s := by
  induction hrun with
  | start => exact ⟨himage, by simp⟩
  | @step hist s hrun e ih =>
    have hinv := ih fun m hm => hfaults m (List.mem_cons_of_mem _ hm)
    have hshape : ShapeInvariant s := by
      rintro h rfl
      exact hrun.shaped
    exact (hinv.step hshape (stepped s e) (hfaults _ List.mem_cons_self)).invariant

/-! ### The latch -/

/-- The latch of the boot that the newest session came from. -/
def latched : List (Moment P) → Bool
  | [] => false
  | m :: older =>
    match m.event with
    | .boot p => p.physicalRecovery
    | _ => latched older

theorem TimeMove.physical {h h' : Hsm P} {c : Command} {resp : HsmResponse}
    (hmove : TimeMove h c resp h') :
    h'.physicalRecoveryAuthorized = h.physicalRecoveryAuthorized := by
  cases hmove with
  | kept hset hsame => exact hsame.physical
  | set ht => cases ht <;> rfl
  | erased _ _ _ _ hphysical => exact hphysical
  | reloaded _ _ hphysical => exact hphysical

theorem relock_physical (h : Hsm P) :
    h.relockOnTransportReset.physicalRecoveryAuthorized = h.physicalRecoveryAuthorized :=
  (relock_settled h).physical

theorem Run.latched {image : Flash} {hist : List (Moment P)} {h : Hsm P}
    (hrun : Run image hist (.on h)) : h.physicalRecoveryAuthorized = latched hist := by
  refine hrun.induct (I := fun hist s => ∀ h, s = Sys.on h →
    h.physicalRecoveryAuthorized = PicoSignet.latched hist) (by simp) ?_ h rfl
  intro hist s s' e resp ih hstep h' hs'
  cases hstep with
  | booted hboot =>
    obtain rfl := Sys.on.inj hs'
    obtain ⟨drbg, entropy, g, cfg, keyblob, time, attempts, rfl, -⟩ := hboot
    rfl
  | bootCut => cases hs'
  | unpowered => cases hs'
  | @drew h _ _ _ _ _ _ hrng =>
    obtain rfl := Sys.on.inj hs'
    obtain ⟨drbg, entropy, rfl⟩ := hrng.exists
    exact ih h rfl
  | @served h _ _ faults c _ _ hrun =>
    obtain rfl := Sys.on.inj hs'
    have hmove := (timeMove_run c (h.facing faults)).of_ok hrun
    exact hmove.physical.trans (ih h rfl)
  | cut => cases hs'
  | @relocked h =>
    obtain rfl := Sys.on.inj hs'
    exact (relock_physical h).trans (ih h rfl)
  | @advanced h =>
    obtain rfl := Sys.on.inj hs'
    exact ih h rfl
  | @quiet h _ _ _ _ _ he =>
    obtain rfl := Sys.on.inj hs'
    rcases he with rfl | ⟨n, rfl⟩ | rfl <;> exact ih h rfl

/-! ### Over whole runs -/

/-- A request changes the CONFIG pair, or makes the firmware reboot into the bootloader. -/
inductive Moment.Destroys (m : Moment P) : Prop
  | config {r : Region} (hr : r = .configA ∨ r = .configB)
      (hchanged : m.after.flash.sector r ≠ m.before.flash.sector r) : m.Destroys
  | reboot {h h' : Hsm P} (hbefore : m.before = .on h) (hafter : m.after = .on h')
      (hno : h.rebootRequested = false) (hyes : h'.rebootRequested = true) : m.Destroys

/-- A request leaves no readable KEY record where there was one. -/
def Moment.LosesKey (m : Moment P) : Prop :=
  HasKeyRecord P m.before.flash ∧ ¬ HasKeyRecord P m.after.flash

theorem ConfigSpared.not_destroys {h h' : Hsm P} {e : Event} {resp : Option Response}
    (hs : ConfigSpared h h') : ¬ (⟨e, .on h, resp, .on h'⟩ : Moment P).Destroys := by
  intro hd
  cases hd with
  | config hr hchanged =>
    rcases hr with rfl | rfl
    · exact hchanged hs.configA
    · exact hchanged hs.configB
  | reboot hbefore hafter hno hyes =>
    obtain rfl := Sys.on.inj hbefore
    obtain rfl := Sys.on.inj hafter
    rw [hs.reboot, hno] at hyes
    cases hyes

/-- What a request to a production device had to be for what it did. -/
structure Answerable (m : Moment P) (h : Hsm P) (bytes : Octets) : Prop where
  destroys : m.Destroys → ∃ c, lineCommand P bytes = some c ∧ h.Permits c
  losesKey : m.LosesKey → ∃ c, lineCommand P bytes = some c ∧ (h.Permits c ∨ h.WipesFor c)
  untried : h.state = .lockedOut → Untried h.flash m.after.flash

theorem Stepped.answerable {h : Hsm P} {s' : Sys P} {bytes : Octets} {faults : List Fault}
    {resp : Option Response} (howned : Owned h)
    (hstep : Stepped (.on h) (.line bytes faults) resp s') (hfaults : Faultless faults) :
    Answerable ⟨.line bytes faults, .on h, resp, s'⟩ h bytes := by
  cases hstep with
  | drew hc hrun hrng =>
    have huntried := (CounterKept.of_onlyRng hrng).of_facing.untried
    obtain ⟨drbg, entropy, rfl⟩ := hrng.exists
    have hs : ConfigSpared h { h.facing faults with drbg, entropy } := ⟨rfl, rfl, rfl, rfl⟩
    exact ⟨fun hd => absurd hd hs.not_destroys, fun hlost => absurd hlost.1 hlost.2,
      fun _ => huntried⟩
  | @served _ h' _ _ c _ hc hrun =>
    have huntried : h.state = .lockedOut → Untried h.flash h'.flash := by
      intro hout
      rcases (counterStep howned.shape hfaults hrun).attempts with huntried | ⟨pin, hands, -⟩
      · exact huntried
      · exact absurd hout (not_lockedOut_of_takes hands.state)
    cases destroyStep howned hfaults hrun with
    | permitted hpermits =>
      exact ⟨fun _ => ⟨c, hc, hpermits⟩, fun _ => ⟨c, hc, Or.inl hpermits⟩, huntried⟩
    | wiped hwipes hs =>
      exact ⟨fun hd => absurd hd hs.not_destroys, fun _ => ⟨c, hc, Or.inr hwipes⟩, huntried⟩
    | spared hs hkey =>
      exact ⟨fun hd => absurd hd hs.not_destroys, fun hlost => absurd (hkey hlost.1) hlost.2,
        huntried⟩
  | @cut _ h' _ _ c _ hc hrun =>
    obtain ⟨resp, h₁, hanswer, -⟩ := howned.shape.answers c hfaults
    rw [hanswer] at hrun
    cases hrun
  | quiet he => rcases he with he | ⟨n, he⟩ | he <;> cases he

theorem Run.newest {image : Flash} {m : Moment P} {hist : List (Moment P)} {s : Sys P}
    (hrun : Run image (m :: hist) s) :
    Run image hist m.before ∧ m.before.step m.event = (m.after, m.response) := by
  cases hrun with
  | step hprev e => exact ⟨hprev, rfl⟩

/-- The mode of a stored configuration stays while no reset succeeds. -/
theorem storedConfig_between {image : Flash} {hist newer : List (Moment P)} {s s' : Sys P}
    {cfg : DeviceConfig} (hrun : Run image hist s) (hfaults : ∀ m ∈ hist, m.event.Faultless)
    (himage : ConfigWritable P image) (hcfg : storedConfig P s.flash.sector = some cfg)
    (hrun' : Run image (newer ++ hist) s') (hnewer : ∀ m ∈ newer, m.event.Faultless)
    (hno : ∀ m ∈ newer, m.response ≠ some (.hsm (.factoryReset true))) :
    storedConfig P s'.flash.sector = some cfg := by
  induction newer generalizing s' with
  | nil =>
    obtain rfl := hrun.unique hrun'
    exact hcfg
  | cons m newer ih =>
    cases hrun' with
    | step hprev e =>
      rename_i s₁
      have hbefore := ih hprev (fun m hm => hnewer m (List.mem_cons_of_mem _ hm))
        fun m hm => hno m (List.mem_cons_of_mem _ hm)
      have hall : ∀ m ∈ newer ++ hist, m.event.Faultless := by
        intro m hm
        rcases List.mem_append.mp hm with hm | hm
        · exact hnewer m (List.mem_cons_of_mem _ hm)
        · exact hfaults m hm
      have hinv := hprev.configInvariant hall himage
      have hshape : ShapeInvariant s₁ := by
        rintro h rfl
        exact hprev.shaped
      exact (hinv.step hshape (stepped s₁ e) (hnewer _ List.mem_cons_self)).kept cfg hbefore
        (hno _ List.mem_cons_self)

/-- Over working flash, on a device whose CONFIG record is a production one: a request
    changes that record or reboots into the bootloader only as a `factoryReset` or
    `rebootBootloader` that the latch of this boot or a PIN that opens the stored key
    authorised; it loses the key only so, or as the wrong PIN that ends the budget of a
    device which wipes; in a lockout no PIN is looked at.  And between two stored
    configurations of different modes a factory reset has succeeded. -/
theorem destruction_authorised {image : Flash} {hist : List (Moment P)} {s : Sys P}
    (hrun : Run image hist s) (hfaults : ∀ m ∈ hist, m.event.Faultless)
    (himage : ConfigWritable P image) :
    (∀ h cfg, s = .on h → storedConfig P h.flash.sector = some cfg → cfg.mode = .prod →
      h.physicalRecoveryAuthorized = latched hist ∧
      ∀ bytes faults, Faultless faults →
        let m : Moment P := ⟨.line bytes faults, s, (s.step (.line bytes faults)).2,
          (s.step (.line bytes faults)).1⟩
        (m.Destroys → ∃ c, lineCommand P bytes = some c ∧ h.Permits c) ∧
        (m.LosesKey → ∃ c, lineCommand P bytes = some c ∧ (h.Permits c ∨ h.WipesFor c)) ∧
        (h.state = .lockedOut → Untried h.flash m.after.flash ∧
          ∀ c pin, lineCommand P bytes = some c → ¬ Hands h c pin)) ∧
    ∀ newer s' cfg cfg', Run image (newer ++ hist) s' → (∀ m ∈ newer, m.event.Faultless) →
      storedConfig P s.flash.sector = some cfg → storedConfig P s'.flash.sector = some cfg' →
      cfg'.mode ≠ cfg.mode → ∃ m ∈ newer, m.response = some (.hsm (.factoryReset true)) := by
  have hinv := hrun.configInvariant hfaults himage
  constructor
  · rintro h cfg rfl hstored hmode
    have ht := hinv.2 h rfl
    have howned : Owned h := by
      refine ⟨hrun.shaped, ht.config, ?_⟩
      rw [ht.config, hstored, ← hmode]
      rfl
    refine ⟨hrun.latched, fun bytes faults hclean => ?_⟩
    obtain ⟨hdestroys, hloses, huntried⟩ :=
      (stepped (.on h) (.line bytes faults)).answerable howned hclean
    refine ⟨hdestroys, hloses, fun hout => ⟨huntried hout, ?_⟩⟩
    intro c pin _ hands
    exact not_lockedOut_of_takes hands.state hout
  · intro newer s' cfg cfg' hrun' hnewer hcfg hcfg' hmode
    by_contra hno
    have hsame := storedConfig_between hrun hfaults himage hcfg hrun' hnewer
      fun m hm hresp => hno ⟨m, hm, hresp⟩
    apply hmode
    rw [Option.some.inj (hcfg'.symm.trans hsame)]

namespace Bench

/-- A host that asks for the bootloader with the right PIN. -/
abbrev rebooting : Prims :=
  .bench [{ hsm := some { rebootBootloader := some { pin := some pin } } }]

end Bench

/-- The bootloader request of a production device had the PIN. -/
theorem destruction_authorised_reboot :
    ∃ (hist : List (Moment Bench.rebooting)) (h h' : Hsm Bench.rebooting) (resp : Response),
      Run Bench.prodImage hist (.on h) ∧
      (Sys.on h).step (Bench.send 0) = (.on h', some resp) ∧
      h.rebootRequested = false ∧ h'.rebootRequested = true ∧
      ∃ c, lineCommand Bench.rebooting [0x7B, 0] = some c ∧ h.Permits c := by
  have hends : replayEnds (P := Bench.rebooting) (fun h _ h' =>
      storedConfig Bench.rebooting h.flash.sector == some Bench.config &&
        h.rebootRequested == false && h'.rebootRequested == true)
      Bench.prodImage [Bench.send 0, .boot Bench.power] = true := by decide +kernel
  obtain ⟨m, h, h', resp, he, hbefore, hresp, hafter, htest, hhist, hrun⟩ :=
    exists_of_replayEnds hends
  simp only [Bool.and_eq_true, beq_iff_eq] at htest
  obtain ⟨⟨hstored, hno⟩, hyes⟩ := htest
  obtain ⟨hprev, hstep⟩ := hrun.newest
  rw [he, hbefore, hafter, hresp] at hstep
  rw [hbefore] at hprev
  have hwritable : ConfigWritable Bench.rebooting Bench.prodImage := by
    intro hnone
    exact absurd hnone (by decide +kernel)
  obtain ⟨hall, -⟩ := destruction_authorised hprev (fun _ => faultless_of_replay (by decide))
    hwritable
  obtain ⟨-, hrequest⟩ := hall h Bench.config rfl hstored rfl
  obtain ⟨hdestroys, -⟩ := hrequest [0x7B, 0] [] faultless_nil
  refine ⟨_, h, h', resp, hprev, hstep, hno, hyes, hdestroys ?_⟩
  exact .reboot rfl (congrArg Prod.fst hstep) hno hyes

end PicoSignet
