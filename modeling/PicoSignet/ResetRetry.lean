/-
  PicoSignet/ResetRetry.lean
  ==========================
  **Retrying an incomplete factory reset** — a reset that could not erase
  everything, or that the power interrupted, asks to be sent again.  The retry is
  authorised anew, and with a PIN that means unwrapping the key record: the first
  thing the reset erases.

  Physical recovery authorises every retry (`reset_retry_iff`).  A PIN authorises
  the retry exactly when the key is still there and the device is not locked out,
  or when no production configuration is left; so on every production device a cut
  between the KEY and the CONFIG erase makes the same request fail for good.
-/
import PicoSignet.FailClosed

set_option autoImplicit false

namespace PicoSignet

open Crash

variable {P : Prims}

/-! ### Flash programs wait for their faults -/

abbrev FlashPatient {α : Type} (m : FlashM α) : Prop := Patient Flash.under Fault.none m

theorem Flash.under_under (f : Flash) (l l' : List Fault) : (f.under l).under l' = f.under l' := rfl

theorem patient_nextFault : FlashPatient nextFault := by
  intro f
  refine ⟨rfl, 1, fun rest => ?_⟩
  rfl

theorem patient_note (e : Entry) : FlashPatient (note e) :=
  Patient.modify Flash.under_under fun _ _ => rfl

theorem patient_read (r : Region) : FlashPatient (read r) := by
  refine Patient.bind patient_nextFault fun fault => ?_
  cases fault with
  | none => exact Patient.get_bind (fun _ _ => rfl) fun f => Patient.pure Flash.under_under _
  | fail left => exact Patient.bind (patient_note _) fun _ => Patient.throw Flash.under_under _
  | cut left => exact Patient.throw Flash.under_under _

theorem patient_put (r : Region) (s : Flash → Sector) (hs : ∀ f l, s (f.under l) = s f) :
    FlashPatient (modify fun f => f.put r (s f)) := by
  refine Patient.modify Flash.under_under fun f l => ?_
  rw [hs]
  rfl

theorem patient_erase (r : Region) : FlashPatient (erase r) := by
  refine Patient.bind (patient_note _) fun _ => Patient.bind patient_nextFault fun fault => ?_
  cases fault with
  | none => exact patient_put r _ fun _ _ => rfl
  | fail left =>
    exact Patient.bind (patient_put r _ fun _ _ => rfl) fun _ => Patient.throw Flash.under_under _
  | cut left =>
    exact Patient.bind (patient_put r _ fun _ _ => rfl) fun _ => Patient.throw Flash.under_under _

theorem patient_program (r : Region) (off : Nat) (page : Octets) :
    FlashPatient (program r off page) := by
  unfold program
  split
  · exact Patient.throw Flash.under_under _
  refine Patient.bind (patient_note _) fun _ => Patient.bind patient_nextFault fun fault => ?_
  cases fault with
  | none => exact patient_put r _ fun _ _ => rfl
  | fail left =>
    exact Patient.bind (patient_put r _ fun _ _ => rfl) fun _ => Patient.throw Flash.under_under _
  | cut left =>
    exact Patient.bind (patient_put r _ fun _ _ => rfl) fun _ => Patient.throw Flash.under_under _

theorem patient_readLatest (crc : Octets → UInt32) (pair : AbPair) :
    FlashPatient (pair.readLatest crc) := by
  have hrecord : ∀ r, FlashPatient (readRecord crc r) := fun r =>
    Patient.bind (patient_read r) fun _ => Patient.pure Flash.under_under _
  exact Patient.bind (hrecord _) fun _ => Patient.bind (hrecord _) fun _ =>
    Patient.pure Flash.under_under _

theorem patient_eraseBoth (pair : AbPair) : FlashPatient pair.eraseBoth :=
  Patient.bind (patient_erase _) fun _ => patient_erase _

theorem patient_count : FlashPatient Pin.count :=
  Patient.bind (patient_read _) fun _ => Patient.pure Flash.under_under _

theorem patient_tick : FlashPatient Pin.tick := by
  refine Patient.bind patient_count fun n => ?_
  split
  · exact Patient.pure Flash.under_under _
  · exact Patient.bind (patient_program _ _ _) fun _ => Patient.pure Flash.under_under _

/-! ### So do the handlers -/

abbrev DevPatient {α : Type} (m : Dev P α) : Prop := Patient Hsm.facing Fault.none m

theorem Hsm.facing_facing (h : Hsm P) (l l' : List Fault) : (h.facing l).facing l' = h.facing l' := rfl

/-- What the session makes of the end of a flash program. -/
def Hsm.fromFlash {α : Type} (h : Hsm P) :
    EStateM.Result Stop Flash α → EStateM.Result Halt (Hsm P) (Except HalError α)
  | .ok a f => .ok (.ok a) { h with flash := f }
  | .error (.hal e) f => .ok (.error e) { h with flash := f }
  | .error .powerLoss f => .error .powerLoss { h with flash := f }

theorem requeue_fromFlash {α : Type} (h : Hsm P) (rest : List Fault)
    (r : EStateM.Result Stop Flash α) :
    requeue Hsm.facing rest (h.fromFlash r) = h.fromFlash (requeue Flash.under rest r) := by
  rcases r with ⟨a, f⟩ | ⟨⟨e⟩ | _, f⟩ <;> rfl

theorem patient_onFlash {α : Type} {m : FlashM α} (hm : FlashPatient m) :
    DevPatient (onFlash m : Dev P (Except HalError α)) := by
  intro h
  obtain ⟨hempty, k, hk⟩ := hm h.flash
  have hflash : ∀ l, onFlash m (h.facing l) = h.fromFlash (m (h.flash.under l)) := by
    intro l
    unfold onFlash Hsm.fromFlash
    rfl
  refine ⟨?_, k, fun rest => ?_⟩
  · rw [hflash, requeue_fromFlash, hempty]
  · rw [hflash, hflash, requeue_fromFlash, hk]

theorem patient_eraseKeyVerified (tries : Nat) : DevPatient (eraseKeyVerified tries : Dev P Bool) := by
  induction tries with
  | zero => exact Patient.pure Hsm.facing_facing _
  | succ tries ih =>
    refine Patient.bind (patient_onFlash (patient_note _)) fun _ => ?_
    refine Patient.bind (patient_onFlash (patient_eraseBoth KEY)) fun _ => ?_
    refine Patient.bind (patient_onFlash (patient_readLatest _ KEY)) fun r => ?_
    split
    · exact Patient.pure Hsm.facing_facing _
    · exact ih

theorem patient_resetPinCounter (tries : Nat) :
    DevPatient (resetPinCounterBestEffort tries : Dev P Unit) := by
  induction tries with
  | zero => exact Patient.pure Hsm.facing_facing _
  | succ tries ih =>
    refine Patient.bind (patient_onFlash (patient_erase _)) fun r => ?_
    cases r with
    | ok _ => exact Patient.modify Hsm.facing_facing fun _ _ => rfl
    | error e => exact ih

theorem patient_wrongPin (cfg : DeviceConfig) (attempts : Nat) :
    DevPatient (wrongPin cfg attempts : Dev P (Except HsmResponse UnlockedSeed)) := by
  refine Patient.bind (Patient.modify Hsm.facing_facing fun _ _ => rfl) fun _ => ?_
  split
  · refine Patient.bind (Patient.modify Hsm.facing_facing fun _ _ => rfl) fun _ => ?_
    split
    · refine Patient.bind (patient_eraseKeyVerified 2) fun gone => ?_
      split
      · exact Patient.bind (Patient.modify Hsm.facing_facing fun _ _ => rfl) fun _ =>
          Patient.pure Hsm.facing_facing _
      · exact Patient.pure Hsm.facing_facing _
    · exact Patient.pure Hsm.facing_facing _
  · exact Patient.pure Hsm.facing_facing _

theorem patient_verifyPin (pin : Str) :
    DevPatient (verifyPin pin : Dev P (Except HsmResponse UnlockedSeed)) := by
  refine Patient.get_bind (fun _ _ => rfl) fun h => ?_
  split
  · exact Patient.throw Hsm.facing_facing _
  refine Patient.bind (patient_onFlash patient_count) fun count => ?_
  split
  · exact Patient.pure Hsm.facing_facing _
  split
  · exact Patient.pure Hsm.facing_facing _
  refine Patient.bind (patient_onFlash patient_tick) fun tick => ?_
  split
  · exact Patient.pure Hsm.facing_facing _
  refine Patient.bind (patient_onFlash (patient_readLatest _ KEY)) fun key => ?_
  split
  · exact Patient.pure Hsm.facing_facing _
  · exact Patient.pure Hsm.facing_facing _
  split
  · exact Patient.pure Hsm.facing_facing _
  split
  · exact Patient.pure Hsm.facing_facing _
  split
  · exact Patient.pure Hsm.facing_facing _
  split
  · refine Patient.bind (patient_onFlash (patient_note _)) fun _ => ?_
    exact Patient.bind (patient_resetPinCounter 2) fun _ => Patient.pure Hsm.facing_facing _
  · refine Patient.bind (patient_onFlash (patient_note _)) fun _ => ?_
    exact patient_wrongPin _ _

theorem patient_destructiveGate (pin : Option Str) (noPin : String) :
    DevPatient (destructiveGate pin noPin : Dev P (Option HsmResponse)) := by
  have hgate : DevPatient (pinGate pin noPin : Dev P (Option HsmResponse)) := by
    unfold pinGate
    split
    · refine Patient.bind (patient_verifyPin _) fun r => ?_
      split <;> exact Patient.pure Hsm.facing_facing _
    · exact Patient.pure Hsm.facing_facing _
  refine Patient.get_bind (fun _ _ => rfl) fun h => ?_
  split
  · split
    · exact Patient.pure Hsm.facing_facing _
    · exact hgate
  · split
    · exact Patient.pure Hsm.facing_facing _
    · exact hgate
  · split <;> exact Patient.pure Hsm.facing_facing _
  · exact Patient.pure Hsm.facing_facing _
  · exact Patient.pure Hsm.facing_facing _

/-! ### A PIN that opens the key, over a flash that works -/

theorem runs_count (f : Flash) :
    Runs Pin.count f fun n g => n = Pin.used (f.sector .pinCounter) ∧ g.sector = f.sector := by
  refine (runs_read .pinCounter f).bind ?_
  rintro s g ⟨rfl, hg⟩
  exact Runs.pure ⟨rfl, hg⟩

theorem runs_tick (f : Flash) :
    Runs Pin.tick f fun _ g => ∀ r, r ≠ .pinCounter → g.sector r = f.sector r := by
  refine (runs_count f).bind ?_
  rintro n g ⟨rfl, hg⟩
  by_cases hfull : SECTOR_LEN ≤ Pin.used (f.sector .pinCounter)
  · rw [if_pos hfull]
    refine Runs.pure fun r _ => ?_
    rw [hg]
  · rw [if_neg hfull]
    have hfits : Pin.used (f.sector .pinCounter) / PAGE_LEN * PAGE_LEN +
        (Pin.tickPage (Pin.used (f.sector .pinCounter) % PAGE_LEN)).length ≤ SECTOR_LEN := by
      rw [Pin.length_tickPage]
      unfold PAGE_LEN SECTOR_LEN at *
      omega
    refine (runs_program .pinCounter g hfits).bind ?_
    intro _ g' hg'
    refine Runs.pure fun r hr => ?_
    rw [hg', Function.update_of_ne hr, hg]

theorem resetPinCounter_faultless (tries : Nat) {h : Hsm P} (hfaults : Faultless h.flash.faults) :
    Wp (resetPinCounterBestEffort (tries + 1) : Dev P Unit) (fun _ _ => True) (fun _ _ => False) h := by
  unfold resetPinCounterBestEffort
  rw [Wp_bind]
  refine Wp.mono (wp_onFlash_faultless (runs_erase .pinCounter _) hfaults) ?_ fun _ _ he => he
  rintro _ _ ⟨_, g, rfl, rfl, -, -⟩
  exact trivial

theorem verifyPin_opens {cfg : DeviceConfig} {pin : Str} {seed kek : Bytes 32} {salt : Bytes 16}
    {h : Hsm P} (hcfg : h.config = some cfg) (hfaults : Faultless h.flash.faults)
    (hopens : Opens P h.flash cfg pin seed kek salt) (hover : h.pinBackoffUntilMs ≤ h.nowMs) :
    Wp (verifyPin pin) (fun r _ => r = .ok (seed, kek, salt)) (fun _ _ => False) h := by
  obtain ⟨blob, secret, hkey, hsecret, rfl, hkek, hseed⟩ := hopens
  unfold verifyPin
  rw [Wp_bind, Wp_get, hcfg]
  dsimp only
  rw [Wp_bind]
  refine Wp.mono (wp_onFlash_faultless (runs_count _) hfaults) ?_ fun _ _ he => he
  rintro _ _ ⟨n, g₁, rfl, rfl, ⟨rfl, hg₁⟩, hfaults₁⟩
  dsimp only
  rw [if_neg (by
    rw [Bool.and_eq_true, decide_eq_true_eq, decide_eq_true_eq]
    exact fun hbusy => absurd hbusy.2 (UInt64.not_lt.mpr hover)), Wp_bind]
  refine Wp.mono (wp_onFlash_faultless (runs_tick _) hfaults₁) ?_ fun _ _ he => he
  rintro _ _ ⟨attempts, g₂, rfl, rfl, hg₂, hfaults₂⟩
  dsimp only at hg₂ ⊢
  rw [Wp_bind]
  refine Wp.mono (wp_onFlash_faultless (runs_readLatest P.crc32 KEY _) hfaults₂) ?_ fun _ _ he => he
  rintro _ _ ⟨_, g₃, rfl, rfl, ⟨rfl, hg₃⟩, hfaults₃⟩
  -- the tick leaves the key record alone
  have hlatest : KEY.latest P.crc32 g₂.sector = KEY.latest P.crc32 h.flash.sector := by
    rw [AbPair.latest_congr (hg₂ _ (by decide)) (hg₂ _ (by decide)), hg₁]
  have hstored : storedKey P h.flash.sector = some blob := hkey
  unfold storedKey at hstored
  obtain ⟨bytes, hbytes, hblob⟩ := Option.bind_eq_some_iff.mp hstored
  dsimp only
  rw [hlatest, hbytes]
  dsimp only
  rw [hblob]
  dsimp only
  rw [hsecret]
  dsimp only
  rw [hkek]
  dsimp only
  rw [hseed]
  dsimp only
  rw [Wp_bind, Wp_onFlash]
  change Wp _ _ _ { h with flash := g₃.log (.tried cfg.maxRetries true) }
  rw [Wp_bind]
  exact Wp.mono (resetPinCounter_faultless 1 hfaults₃) (fun _ _ _ => rfl) fun _ _ he => he

/-! ### When a reset goes through -/

/-- The reset succeeds and leaves the device blank. -/
def ResetSucceeds (h : Hsm P) (req : FactoryResetReq) : Prop :=
  ∃ h', hsmFactoryReset req (h.facing []) = .ok (.factoryReset true) h' ∧ h'.state = .uninitialized

/-- The PIN opens the stored key under the configuration of the session. -/
def PinOpens (h : Hsm P) (pin : Option Str) : Prop :=
  ∃ p cfg seed kek salt, pin = some p ∧ h.config = some cfg ∧ Opens P h.flash cfg p seed kek salt

/-- What lets a reset through the gate. -/
def ResetAllowed (h : Hsm P) (pin : Option Str) : Prop :=
  h.physicalRecoveryAuthorized = true ∨ h.config.map DeviceConfig.mode ≠ some .prod ∨
    h.state ≠ .lockedOut ∧ PinOpens h pin

theorem Gate.allowed {pin : Option Str} {h h₁ : Hsm P} (hshape : h.Shaped)
    (hgate : Gate pin h none h₁) : ResetAllowed h pin := by
  cases hgate with
  | free hstate =>
    refine Or.inr (Or.inl fun hmode => ?_)
    have hprod := hshape.consistent.prod.mpr hmode
    rcases hstate with hstate | hstate <;> rw [hstate] at hprod <;> simp at hprod
  | physical hphysical => exact Or.inl hphysical
  | verified hpin hstate hcfg hv =>
    refine Or.inr (Or.inr ⟨?_, _, _, _, _, _, hpin, hcfg, hv.opens.1⟩)
    rcases hstate with hstate | hstate <;> rw [hstate] <;> decide

theorem wp_pinGate {cfg : DeviceConfig} {pin : Str} {seed kek : Bytes 32} {salt : Bytes 16}
    {h : Hsm P} (hcfg : h.config = some cfg) (hfaults : Faultless h.flash.faults)
    (hopens : Opens P h.flash cfg pin seed kek salt) (hover : h.pinBackoffUntilMs ≤ h.nowMs) :
    Wp (do
      match ← verifyPin pin with
      | .error resp => return some resp
      | .ok _ => return none : Dev P (Option HsmResponse))
      (fun r _ => r = none) (fun _ _ => False) h := by
  rw [Wp_bind]
  refine Wp.mono (verifyPin_opens hcfg hfaults hopens hover) ?_ fun _ _ he => he
  rintro _ h₁ rfl
  exact rfl

theorem gate_of_allowed {pin : Option Str} {h : Hsm P} (hshape : h.Shaped)
    (hfaults : Faultless h.flash.faults) (hover : h.pinBackoffUntilMs ≤ h.nowMs)
    (hallowed : ResetAllowed h pin) (noPin : String) :
    Wp (destructiveGate pin noPin) (fun r _ => r = none) (fun _ _ => False) h := by
  unfold destructiveGate
  rw [Wp_bind, Wp_get]
  cases hphysical : h.physicalRecoveryAuthorized with
  | true => split <;> exact rfl
  | false =>
    -- in a production state only the PIN is left
    have hopens : h.state = .prodLocked ∨ h.state = .prodReady ∨ h.state = .lockedOut →
        h.state ≠ .lockedOut ∧ PinOpens h pin := by
      intro hstate
      have hmode := hshape.consistent.prod.mp hstate
      rcases hallowed with hyes | hno | hpin
      · exact absurd (hphysical.symm.trans hyes) (by decide)
      · exact absurd hmode hno
      · exact hpin
    split
    · rename_i hstate
      rw [if_neg (by decide)]
      obtain ⟨-, p, cfg, seed, kek, salt, rfl, hcfg, hpin⟩ := hopens (Or.inl hstate)
      exact wp_pinGate hcfg hfaults hpin hover
    · rename_i hstate
      rw [if_neg (by decide)]
      obtain ⟨-, p, cfg, seed, kek, salt, rfl, hcfg, hpin⟩ := hopens (Or.inr (Or.inl hstate))
      exact wp_pinGate hcfg hfaults hpin hover
    · rename_i hstate
      exact absurd hstate (hopens (Or.inr (Or.inr hstate))).1
    · exact rfl
    · exact rfl

/-- Over a flash that works and after the backoff, a reset succeeds exactly when it
    is allowed. -/
theorem resetSucceeds_iff {req : FactoryResetReq} {h : Hsm P} (hshape : h.Shaped)
    (hconfirm : req.confirm = confirmErase) (hover : h.pinBackoffUntilMs ≤ h.nowMs) :
    ResetSucceeds h req ↔ ResetAllowed h req.pin := by
  have hfacing : (h.facing []).Shaped := hshape
  constructor
  · rintro ⟨h', hrun, -⟩
    have hwp : Wp (hsmFactoryReset req)
        (fun resp _ => resp = .factoryReset true → ResetAllowed (h.facing []) req.pin)
        (fun _ _ => True) (h.facing []) := by
      unfold hsmFactoryReset
      rw [if_neg (not_not.mpr hconfirm), Wp_bind]
      refine Wp.mono (Wp.and (wp_destructiveGate _ _ _) (destructiveGate_isError _ _ _)) ?_
        fun _ _ _ => trivial
      rintro r h₁ ⟨hgate, herror⟩
      cases r with
      | none =>
        have hallowed := hgate.allowed hfacing
        unfold Wp
        split
        · exact fun _ => hallowed
        · trivial
      | some resp =>
        intro hresp
        obtain ⟨e, he⟩ := herror resp rfl
        rw [he] at hresp
        cases hresp
    exact hwp.of_ok hrun rfl
  · intro hallowed
    have hwp : Wp (hsmFactoryReset req)
        (fun resp h' => resp = .factoryReset true ∧ h'.state = .uninitialized)
        (fun _ _ => False) (h.facing []) := by
      unfold hsmFactoryReset
      rw [if_neg (not_not.mpr hconfirm), Wp_bind]
      refine Wp.mono (Wp.and (gate_of_allowed hfacing faultless_nil hover hallowed _)
        (wp_destructiveGate _ _ _)) ?_ fun _ _ he => he.1
      rintro _ h₁ ⟨rfl, hgate⟩
      dsimp only
      rw [Wp_bind, Wp_modify, Wp_bind]
      have hfaults₁ : Faultless h₁.dropLiveSecrets.flash.faults := by
        refine Faultless.of_suffix faultless_nil ?_
        exact hgate.faults
      refine Wp.mono (eraseEverything_faultless hfaults₁) ?_ fun _ _ he => he
      rintro _ h₂ rfl
      exact ⟨rfl, rfl⟩
    unfold Wp at hwp
    split at hwp
    · rename_i resp h' hrun
      obtain ⟨rfl, hstate⟩ := hwp
      exact ⟨h', hrun, hstate⟩
    · exact hwp.elim

/-! ### Sessions in which a retry is sent -/

/-- The answer of a reset that could not erase everything. -/
def resetIncomplete : HsmResponse :=
  .err .flash "factory reset incomplete; key material may remain — retry"

/-- The sessions in which the request can be sent again: the one that reported the
    failure, one booted after the power went, and later ones while the timer runs. -/
inductive Incomplete (h : Hsm P) (req : FactoryResetReq) : Hsm P → Prop
  | failed {faults : List Fault} {h' : Hsm P}
      (hrun : hsmFactoryReset req (h.facing faults) = .ok resetIncomplete h') : Incomplete h req h'
  | cut {faults : List Fault} {p : PowerUp} {h' h₁ : Hsm P}
      (hrun : hsmFactoryReset req (h.facing faults) = .error .powerLoss h')
      (hfaults : p.faults = []) (hphysical : p.physicalRecovery = h.physicalRecoveryAuthorized)
      (hsecret : p.deviceSecret = h.flash.deviceSecret) (hboot : powerUp h'.flash p = .ok () h₁) :
      Incomplete h req h₁
  | waited {h' : Hsm P} (mono : UInt64) (hi : Incomplete h req h') (hmono : h'.mono ≤ mono) :
      Incomplete h req { h' with mono }

/-- After its backoff the request succeeds in each of these sessions. -/
def Retryable (h : Hsm P) (req : FactoryResetReq) : Prop :=
  ∀ h', Incomplete h req h' → h'.pinBackoffUntilMs ≤ h'.nowMs → ResetSucceeds h' req

theorem Verified.physical {cfg : DeviceConfig} {pin : Str} {h h' : Hsm P}
    {r : Except HsmResponse UnlockedSeed} (hv : Verified cfg pin h r h') :
    h'.physicalRecoveryAuthorized = h.physicalRecoveryAuthorized := by
  cases hv with
  | refused => rfl
  | opened => rfl
  | wrong hg hblob htick hwrong => cases hwrong <;> rfl

theorem Gate.latch {pin : Option Str} {h h' : Hsm P} {r : Option HsmResponse}
    (hgate : Gate pin h r h') : h'.physicalRecoveryAuthorized = h.physicalRecoveryAuthorized := by
  cases hgate with
  | free => rfl
  | physical => rfl
  | verified hpin hstate hcfg hv => exact hv.physical
  | refused => rfl
  | rejected hpin hstate hcfg hv => exact hv.physical

theorem FactoryReset.latch {req : FactoryResetReq} {h h' : Hsm P} {resp : HsmResponse}
    (hreset : FactoryReset req h resp h') :
    h'.physicalRecoveryAuthorized = h.physicalRecoveryAuthorized := by
  cases hreset with
  | refused => rfl
  | gated hgate => exact hgate.latch
  | erased hgate => exact hgate.latch
  | @incomplete _ h₁ g g' cfg keyblob time attempts hresp hgate =>
    obtain ⟨state, ca, kek, until_, -, heq⟩ :=
      Hsm.loaded_cases { h₁.dropLiveSecrets with flash := g' } cfg keyblob time attempts
    rw [heq]
    exact hgate.latch

theorem Incomplete.session {h h' : Hsm P} {req : FactoryResetReq} (hi : Incomplete h req h')
    (hshape : h.Shaped) :
    h'.Shaped ∧ h'.physicalRecoveryAuthorized = h.physicalRecoveryAuthorized := by
  induction hi with
  | @failed faults h' hrun =>
    have hfacing : (h.facing faults).Shaped := hshape
    exact ⟨(shaped_run (.factoryReset req) hfacing).of_ok hrun,
      ((wp_factoryReset req (h.facing faults)).of_ok hrun).latch⟩
  | @cut faults p h' h₁ hrun hfaults hphysical hsecret hboot =>
    have hup := powerUp_ok hboot
    refine ⟨shaped_boot hup, ?_⟩
    rw [← hphysical]
    exact (hup.clean (by rw [hfaults]; exact faultless_nil)).physical
  | waited mono hi hmono ih => exact ih

/-! ### The cut between KEY and CONFIG -/

theorem erase_of_cut {f : Flash} {left : Sector} {rest : List Fault} (r : Region)
    (hfaults : f.faults = .cut left :: rest) :
    erase r f = .error .powerLoss
      (Flash.put { f with faults := rest, journal := .erase r :: f.journal } r left) := by
  obtain ⟨sector, uniqueId, deviceSecret, faults, journal⟩ := f
  obtain rfl : faults = .cut left :: rest := hfaults
  rfl

/-- A power cut at the first CONFIG erase. -/
theorem wp_eraseRest_cut (keyGone : Bool) {h : Hsm P} {left : Sector}
    (hfaults : h.flash.faults = [.cut left]) :
    Wp (eraseRest keyGone : Dev P Bool) (fun _ _ => False)
      (fun e h' => e = .powerLoss ∧
        h'.flash.sector = Function.update h.flash.sector .configA left) h := by
  unfold eraseRest
  rw [Wp_bind, Wp_onFlash]
  unfold AbPair.eraseBoth
  rw [Wp_bind]
  have herase : erase CONFIG.a h.flash = _ := erase_of_cut .configA hfaults
  unfold Wp
  rw [herase]
  exact ⟨rfl, rfl⟩

/-- A working flash lets the key be erased; nothing else of it changes. -/
theorem eraseKeyVerified_done {h : Hsm P} (hfaults : Faultless h.flash.faults) :
    ∃ h', eraseKeyVerified 2 h = .ok true h' ∧ KEY.latest P.crc32 h'.flash.sector = none ∧
      ∀ r, r ≠ .keyA → r ≠ .keyB → h'.flash.sector r = h.flash.sector r := by
  have hwp : Wp (eraseKeyVerified 2 : Dev P Bool)
      (fun gone h' => (gone = true ∧ KEY.latest P.crc32 h'.flash.sector = none) ∧
        ∀ r, r ≠ .keyA → r ≠ .keyB → h'.flash.sector r = h.flash.sector r)
      (fun _ _ => False) h := by
    refine Wp.mono (Wp.and (flashOnly_eraseKeyVerified 2 h) (eraseKeyVerified_faultless 1 hfaults)) ?_
      fun _ _ he => he.2
    rintro gone h' ⟨⟨g, hh', hg⟩, hgone, g', rfl, -, hnone⟩
    obtain rfl : g' = g := congrArg Hsm.flash hh'
    refine ⟨⟨hgone, hnone⟩, fun r hA hB => hg.sector r ?_⟩
    rintro (heq | heq)
    · exact hA (Option.some.inj heq)
    · exact hB (Option.some.inj heq)
  unfold Wp at hwp
  split at hwp
  · rename_i gone h' hrun
    obtain ⟨⟨rfl, hnone⟩, hsame⟩ := hwp
    exact ⟨h', hrun, hnone, hsame⟩
  · exact hwp.elim

/-- A reset that goes through has passed the gate. -/
theorem ResetSucceeds.gate {h : Hsm P} {req : FactoryResetReq} (hreset : ResetSucceeds h req) :
    req.confirm = confirmErase ∧ ∃ h₁, destructiveGate req.pin
      "factory-reset requires a PIN or physical recovery held low during reset" (h.facing []) =
        .ok none h₁ := by
  obtain ⟨h', hrun, -⟩ := hreset
  unfold hsmFactoryReset at hrun
  by_cases hconfirm : req.confirm = confirmErase
  · refine ⟨hconfirm, ?_⟩
    rw [if_neg (not_not.mpr hconfirm)] at hrun
    simp only [bind, EStateM.bind] at hrun
    split at hrun
    · rename_i r h₁ hgate
      cases r with
      | none => exact ⟨h₁, hgate⟩
      | some resp =>
        obtain ⟨e, rfl⟩ := (destructiveGate_isError _ _ _).of_ok hgate resp rfl
        cases hrun
    · cases hrun
  · rw [if_pos hconfirm] at hrun
    cases hrun

/-- On every production device a reset that was authorised by the PIN can be cut
    with the key gone and the configuration still there. -/
theorem reset_cut_after_key {h : Hsm P} {req : FactoryResetReq} (hreset : ResetSucceeds h req) :
    ∃ faults h', hsmFactoryReset req (h.facing faults) = .error .powerLoss h' ∧
      storedConfig P h'.flash.sector = storedConfig P h.flash.sector ∧
      KEY.latest P.crc32 h'.flash.sector = none := by
  obtain ⟨hconfirm, h₁, hgate⟩ := hreset.gate
  obtain ⟨hempty₁, k₁, hk₁⟩ := patient_destructiveGate req.pin
    "factory-reset requires a PIN or physical recovery held low during reset" h
  rw [hgate] at hempty₁ hk₁
  have hh₁ : h₁.facing [] = h₁ := (EStateM.Result.ok.inj hempty₁).2
  have hsettled : Settled (h.facing []) h₁ :=
    ((stays_destructiveGate pinScope_notConfig _ _ (h.facing [])).of_ok hgate).settled
  have hfaults₁ : Faultless h₁.dropLiveSecrets.flash.faults := by
    change Faultless h₁.flash.faults
    rw [← hh₁]
    exact faultless_nil
  obtain ⟨h₂, hkey, hnone, hsame⟩ := eraseKeyVerified_done hfaults₁
  obtain ⟨-, k₂, hk₂⟩ := patient_eraseKeyVerified (P := P) 2 h₁.dropLiveSecrets
  have hdrop : h₁.dropLiveSecrets.facing [] = h₁.dropLiveSecrets := congrArg Hsm.dropLiveSecrets hh₁
  rw [hdrop, hkey] at hk₂
  have hwp : Wp (hsmFactoryReset req) (fun _ _ => False)
      (fun e h' => e = .powerLoss ∧ h'.flash.sector =
        Function.update h₂.flash.sector .configA (h₁.flash.sector .configA))
      (h.facing (List.replicate k₁ .none ++ (List.replicate k₂ .none ++
        [.cut (h₁.flash.sector .configA)]))) := by
    unfold hsmFactoryReset
    rw [if_neg (not_not.mpr hconfirm), Wp_bind]
    refine Wp.of_run (hk₁ _) ?_
    dsimp only
    rw [Wp_bind, Wp_modify, Wp_bind, eraseEverything_eq, Wp_bind]
    refine Wp.of_run (hk₂ _) ?_
    exact Wp.mono (wp_eraseRest_cut true rfl) (fun _ _ he => he.elim) fun _ _ he => he
  unfold Wp at hwp
  split at hwp
  · exact hwp.elim
  · rename_i e h' hrun
    obtain ⟨rfl, hsector⟩ := hwp
    -- the sector whose erase was cut is as it was
    have hsector : h'.flash.sector = h₂.flash.sector := by
      rw [hsector]
      have hA := hsame .configA (by decide) (by decide)
      change _ = h₁.flash.sector .configA at hA
      rw [← hA, Function.update_eq_self]
    refine ⟨_, h', hrun, ?_, ?_⟩
    · refine Eq.trans ?_ hsettled.stored
      unfold storedConfig
      rw [hsector]
      rw [AbPair.latest_congr (hsame _ (by decide) (by decide)) (hsame _ (by decide) (by decide))]
      rfl
    · rw [hsector]
      exact hnone

/-- The backoff of a session booted at time zero is short. -/
theorem Hsm.loaded_backoff (h : Hsm P) (cfg : Option DeviceConfig) (keyblob : Option KeyBlob)
    (time : Option Int64 × Bool) (attempts : Nat) (hmono : h.mono = 0) :
    (h.loaded cfg keyblob time attempts).pinBackoffUntilMs.toNat ≤ Pin.CAP := by
  have hcap : ∀ n, Pin.backoffMs n ≤ Pin.CAP := by
    intro n
    unfold Pin.backoffMs
    split
    · exact le_rfl
    · exact min_le_right _ _
  unfold Hsm.loaded
  cases cfg with
  | none => exact Nat.zero_le _
  | some c =>
    cases hmode : c.mode with
    | dev =>
      simp only [hmode]
      unfold Hsm.loadDev
      dsimp only
      split <;> exact Nat.zero_le _
    | prod =>
      simp only [hmode]
      have huntil : ∀ n, (satAddU (0 / 1000) (UInt64.ofNat (Pin.backoffMs n))).toNat ≤ Pin.CAP := by
        intro n
        have hn := hcap n
        rw [toNat_satAddU, UInt64.toNat_ofNat']
        simp only [Pin.CAP] at hn ⊢
        have hzero : ((0 : UInt64) / 1000).toNat = 0 := by decide
        omega
      unfold Hsm.loadProd Hsm.nowMs
      dsimp only
      rw [hmono]
      split <;> dsimp only [Hsm.enterLockedOut, Hsm.dropLiveSecrets] <;> split
      · exact huntil _
      · exact Nat.zero_le _
      · exact huntil _
      · exact Nat.zero_le _

/-- With the key gone and a production configuration left, no PIN is right. -/
theorem not_allowed_without_key {h : Hsm P} {pin : Option Str}
    (hphysical : h.physicalRecoveryAuthorized = false)
    (hmode : h.config.map DeviceConfig.mode = some .prod)
    (hkey : KEY.latest P.crc32 h.flash.sector = none) : ¬ ResetAllowed h pin := by
  rintro (hyes | hno | ⟨-, p, cfg, seed, kek, salt, -, -, blob, secret, hstored, -⟩)
  · exact absurd (hphysical.symm.trans hyes) (by decide)
  · exact hno hmode
  · unfold storedKey at hstored
    rw [hkey] at hstored
    cases hstored

theorem exists_unretryable {h : Hsm P} {req : FactoryResetReq} (howned : Owned h)
    (hreset : ResetSucceeds h req) (hphysical : h.physicalRecoveryAuthorized = false) :
    ∃ h', Incomplete h req h' ∧ h'.pinBackoffUntilMs ≤ h'.nowMs ∧ ¬ ResetAllowed h' req.pin := by
  obtain ⟨faults, h', hrun, hstored, hkey⟩ := reset_cut_after_key hreset
  let p : PowerUp := { Bench.dryPower with
    physicalRecovery := h.physicalRecoveryAuthorized, deviceSecret := h.flash.deviceSecret }
  obtain ⟨h₁, hpower, hclean⟩ := powerUp_faultless (P := P) h'.flash (p := p) faultless_nil
  have hi : Incomplete h req h₁ := .cut hrun rfl rfl rfl hpower
  have hup := powerUp_ok hpower
  obtain ⟨hconfig, hsector, -⟩ := hup.lockout faultless_nil
  have hback : h₁.pinBackoffUntilMs.toNat ≤ Pin.CAP := by
    obtain ⟨drbg, entropy, g, cfg, keyblob, time, attempts, rfl, -, -⟩ := hup
    exact Hsm.loaded_backoff (Hsm.fresh entropy p.mono g drbg) cfg keyblob time attempts rfl
  -- late enough, whatever the backoff
  refine ⟨_, hi.waited 30000000 (by rw [hclean.mono]; exact UInt64.zero_le), ?_, ?_⟩
  · change h₁.pinBackoffUntilMs ≤ 30000000 / 1000
    rw [UInt64.le_iff_toNat_le]
    exact hback
  · refine not_allowed_without_key ?_ ?_ ?_
    · exact hclean.physical.trans hphysical
    · change h₁.config.map _ = _
      rw [hconfig, hstored, ← howned.stored]
      exact howned.mode
    · change KEY.latest P.crc32 h₁.flash.sector = none
      rw [hsector]
      exact hkey

/-- An incomplete reset of a production device is retryable, whatever failed, exactly
    when physical recovery authorised it; after a given failure the retry succeeds
    exactly when what is left allows it. -/
theorem reset_retry_iff {h : Hsm P} {req : FactoryResetReq} (howned : Owned h)
    (hreset : ResetSucceeds h req) :
    (Retryable h req ↔ h.physicalRecoveryAuthorized = true) ∧
      ∀ h', Incomplete h req h' → h'.pinBackoffUntilMs ≤ h'.nowMs →
        (ResetSucceeds h' req ↔ ResetAllowed h' req.pin) := by
  have hiff : ∀ h', Incomplete h req h' → h'.pinBackoffUntilMs ≤ h'.nowMs →
      (ResetSucceeds h' req ↔ ResetAllowed h' req.pin) := by
    intro h' hi hover
    exact resetSucceeds_iff (hi.session howned.shape).1 hreset.gate.1 hover
  refine ⟨⟨?_, ?_⟩, hiff⟩
  · intro hretry
    by_contra hno
    rw [Bool.not_eq_true] at hno
    obtain ⟨h', hi, hover, hnot⟩ := exists_unretryable howned hreset hno
    exact hnot ((hiff h' hi hover).mp (hretry h' hi hover))
  · intro hphysical h' hi hover
    refine (hiff h' hi hover).mpr (Or.inl ?_)
    exact (hi.session howned.shape).2.trans hphysical

theorem PoweredUp.deviceSecret {f : Flash} {p : PowerUp} {h : Hsm P} (hboot : PoweredUp f p h) :
    h.flash.deviceSecret = p.deviceSecret := by
  obtain ⟨drbg, entropy, g, cfg, keyblob, time, attempts, rfl, hg, -⟩ := hboot
  obtain ⟨state, ca, kek, until_, -, heq⟩ :=
    (Hsm.fresh entropy p.mono g drbg).loaded_cases cfg keyblob time attempts
  rw [heq]
  exact hg.deviceSecret

/-- A device booted without faults over a production image is owned. -/
theorem Owned.of_boot {f : Flash} {p : PowerUp} {h : Hsm P} (hpower : powerUp f p = .ok () h)
    (hfaults : Faultless p.faults)
    (hmode : h.config.map DeviceConfig.mode = some .prod) : Owned h :=
  ⟨shaped_boot (powerUp_ok hpower), (LockoutKnown.of_boot (powerUp_ok hpower) hfaults).config, hmode⟩

namespace Bench

def resetWithPin : FactoryResetReq := { confirm := confirmErase, pin := some pin }

/-- The power goes at the erase of CONFIG_A, after the ten operations before it. -/
def cutAtConfig : List Fault :=
  List.replicate 10 .none ++ [.cut (recordImage (Prims.bench []).crc32 1 config.toBytes)]

end Bench

/-- With the recovery button held, whatever the reset left can be reset again. -/
theorem reset_retry_iff_physical :
    ∃ h : Hsm (.bench []),
      powerUp Bench.prodImage { Bench.power with physicalRecovery := true } = .ok () h ∧
      Retryable h Bench.resetWithPin := by
  have htest : (match powerUp (P := .bench []) Bench.prodImage
      { Bench.power with physicalRecovery := true } with
    | .ok () h => h.config.map DeviceConfig.mode == some .prod && h.physicalRecoveryAuthorized &&
        match hsmFactoryReset Bench.resetWithPin (h.facing []) with
        | .ok resp h' => resp == .factoryReset true && h'.state == .uninitialized
        | .error _ _ => false
    | .error _ _ => false) = true := by decide +kernel
  split at htest
  · rename_i h hpower
    split at htest
    · rename_i resp h' hrun
      simp only [Bool.and_eq_true, beq_iff_eq] at htest
      obtain ⟨⟨hmode, hphysical⟩, rfl, hstate⟩ := htest
      exact ⟨h, hpower, (reset_retry_iff (.of_boot hpower faultless_nil hmode)
        ⟨h', hrun, hstate⟩).1.mpr hphysical⟩
    · simp at htest
  · simp at htest

/-- A reset under the right PIN loses power at the first CONFIG erase; after the
    reboot the same request is answered `ERR_NO_KEY`. -/
theorem cut_reset_not_retryable :
    ∃ h h' h₁ h₂ : Hsm (.bench []),
      Owned h ∧ ResetSucceeds h Bench.resetWithPin ∧
      hsmFactoryReset Bench.resetWithPin (h.facing Bench.cutAtConfig) = .error .powerLoss h' ∧
      powerUp h'.flash Bench.power = .ok () h₁ ∧ h₁.pinBackoffUntilMs ≤ h₁.nowMs ∧
      hsmFactoryReset Bench.resetWithPin (h₁.facing []) = .ok (.err .noKey "no CA key present") h₂ ∧
      ¬ Retryable h Bench.resetWithPin := by
  have htest : (match powerUp (P := .bench []) Bench.prodImage Bench.power with
    | .ok () h => h.config.map DeviceConfig.mode == some .prod &&
        (match hsmFactoryReset Bench.resetWithPin (h.facing []) with
        | .ok resp h' => resp == .factoryReset true && h'.state == .uninitialized
        | .error _ _ => false) &&
        match hsmFactoryReset Bench.resetWithPin (h.facing Bench.cutAtConfig) with
        | .ok _ _ => false
        | .error e h' => e == .powerLoss &&
          match powerUp (P := .bench []) h'.flash Bench.power with
          | .error _ _ => false
          | .ok () h₁ => decide (h₁.pinBackoffUntilMs ≤ h₁.nowMs) &&
            match hsmFactoryReset Bench.resetWithPin (h₁.facing []) with
            | .ok resp _ => resp == .err .noKey "no CA key present"
            | .error _ _ => false
    | .error _ _ => false) = true := by decide +kernel
  split at htest
  · rename_i h hpower
    rw [Bool.and_eq_true, Bool.and_eq_true] at htest
    obtain ⟨⟨hmode, hgoes⟩, hcut⟩ := htest
    have howned : Owned h := .of_boot hpower faultless_nil (by simpa using hmode)
    have hreset : ResetSucceeds h Bench.resetWithPin := by
      split at hgoes
      · rename_i resp h' hrun
        simp only [Bool.and_eq_true, beq_iff_eq] at hgoes
        obtain ⟨rfl, hstate⟩ := hgoes
        exact ⟨h', hrun, hstate⟩
      · simp at hgoes
    split at hcut
    · simp at hcut
    · rename_i e h' hrun
      rw [Bool.and_eq_true, beq_iff_eq] at hcut
      obtain ⟨rfl, hcut⟩ := hcut
      split at hcut
      · simp at hcut
      · rename_i h₁ hboot
        rw [Bool.and_eq_true, decide_eq_true_eq] at hcut
        obtain ⟨hover, hcut⟩ := hcut
        split at hcut
        · rename_i resp h₂ hretry
          rw [beq_iff_eq] at hcut
          subst hcut
          refine ⟨h, h', h₁, h₂, howned, hreset, hrun, hboot, hover, hretry, ?_⟩
          intro hretryable
          have hphysical : Bench.power.physicalRecovery = h.physicalRecoveryAuthorized :=
            ((powerUp_ok hpower).clean faultless_nil).physical.symm
          have hsecret : Bench.power.deviceSecret = h.flash.deviceSecret :=
            (powerUp_ok hpower).deviceSecret.symm
          obtain ⟨h₃, hagain, -⟩ := hretryable h₁ (.cut hrun rfl hphysical hsecret hboot) hover
          rw [hretry] at hagain
          cases hagain
        · simp at hcut
  · simp at htest

end PicoSignet
