/-
  PicoSignet/FailClosed.lean
  ==========================
  **Booting over reads that fail** — `load_from_flash` turns a failed read of the
  CONFIG or KEY pair into an absent record, and a failed read of the counter into
  zero attempts.  `BootReads` says which of these reads fail during one boot;
  `boot_fails_closed_iff` says for which of them the booted device is still as
  closed as it would have been.

  A lost configuration opens the device: it boots as a blank one, and a blank one
  can be reset, rebooted and initialized by anybody.  A lost key record or a lost
  counter turns a lockout into a locked device that takes PINs again.
-/
import PicoSignet.Lockout

set_option autoImplicit false

namespace PicoSignet

open Crash

variable {P : Prims}

/-! ### The reads of a boot -/

/-- How reading the two copies of a pair goes. -/
inductive PairRead where
  | ok
  | errorA
  | errorB
deriving DecidableEq, Repr

/-- What the environment does with the operations of one such read. -/
def PairRead.faults : PairRead → List Fault
  | .ok => [.none, .none]
  | .errorA => [.fail Sector.erased]
  | .errorB => [.none, .fail Sector.erased]

/-- Which reads of a boot fail; those of the TIME pair succeed. -/
structure BootReads where
  config : PairRead
  key : PairRead
  counterError : Bool
deriving DecidableEq, Repr

def BootReads.faults (reads : BootReads) : List Fault :=
  reads.config.faults ++ (reads.key.faults ++ ([.none, .none] ++
    [if reads.counterError then .fail Sector.erased else .none]))

/-- A value that is only there when the read succeeded. -/
def PairRead.keep {α : Type} (r : PairRead) (v : Option α) : Option α :=
  if r = .ok then v else none

def BootReads.count (reads : BootReads) (n : Nat) : Nat := if reads.counterError then 0 else n

theorem read_of_none {f : Flash} {rest : List Fault} (r : Region) (hfaults : f.faults = .none :: rest) :
    read r f = .ok (f.sector r) { f with faults := rest } := by
  obtain ⟨sector, uniqueId, deviceSecret, faults, journal⟩ := f
  obtain rfl : faults = .none :: rest := hfaults
  rfl

theorem read_of_fail {f : Flash} {left : Sector} {rest : List Fault} (r : Region)
    (hfaults : f.faults = .fail left :: rest) :
    read r f = .error (.hal .flash)
      { f with faults := rest, journal := .readError r :: f.journal } := by
  obtain ⟨sector, uniqueId, deviceSecret, faults, journal⟩ := f
  obtain rfl : faults = .fail left :: rest := hfaults
  rfl

/-- The session after a flash program that changed no sector. -/
def Reread (h : Hsm P) (rest : List Fault) (h' : Hsm P) : Prop :=
  ∃ g, h' = { h with flash := g } ∧ g.sector = h.flash.sector ∧ g.deviceSecret = h.flash.deviceSecret ∧
    g.faults = rest

theorem wp_onFlash_pairRead (pair : AbPair) (r : PairRead) {rest : List Fault} {h : Hsm P}
    (hfaults : h.flash.faults = r.faults ++ rest) :
    Wp (onFlash (pair.readLatest P.crc32))
      (fun v h' => Reread h rest h' ∧ (r = .ok → v = .ok (pair.latest P.crc32 h.flash.sector)) ∧
        (r ≠ .ok → v = .error .flash)) (fun _ _ => False) h := by
  rw [Wp_onFlash]
  unfold AbPair.readLatest readRecord Wp
  cases r with
  | ok =>
    have hA := read_of_none pair.a hfaults
    have hB := read_of_none (f := { h.flash with faults := .none :: rest }) pair.b rfl
    simp only [bind, EStateM.bind, pure, EStateM.pure, hA]
    rw [show ([Fault.none].append rest) = .none :: rest from rfl, hB]
    refine ⟨⟨_, rfl, rfl, rfl, rfl⟩, fun _ => ?_, fun hno => absurd rfl hno⟩
    rw [latestOf_eq_newest]
    rfl
  | errorA =>
    have hA := read_of_fail pair.a hfaults
    simp only [bind, EStateM.bind, hA]
    exact ⟨⟨_, rfl, rfl, rfl, rfl⟩, fun hok => absurd hok (by decide), fun _ => trivial⟩
  | errorB =>
    have hA := read_of_none pair.a hfaults
    have hB := read_of_fail (f := { h.flash with faults := .fail Sector.erased :: rest }) pair.b rfl
    simp only [bind, EStateM.bind, pure, EStateM.pure, hA]
    rw [show ([Fault.fail Sector.erased].append rest) = .fail Sector.erased :: rest from rfl, hB]
    exact ⟨⟨_, rfl, rfl, rfl, rfl⟩, fun hok => absurd hok (by decide), fun _ => rfl⟩

theorem wp_onFlash_counterRead (error : Bool) {h : Hsm P}
    (hfaults : h.flash.faults = [if error then .fail Sector.erased else .none]) :
    Wp (onFlash Pin.count)
      (fun v h' => Reread h [] h' ∧
        countOrZero v = if error then 0 else Pin.used (h.flash.sector .pinCounter))
      (fun _ _ => False) h := by
  rw [Wp_onFlash]
  unfold Pin.count Wp
  cases error with
  | true =>
    have hread := read_of_fail .pinCounter hfaults
    simp only [bind, EStateM.bind, hread]
    exact ⟨⟨_, rfl, rfl, rfl, rfl⟩, rfl⟩
  | false =>
    have hread := read_of_none .pinCounter hfaults
    simp only [bind, EStateM.bind, pure, EStateM.pure, hread]
    exact ⟨⟨_, rfl, rfl, rfl, rfl⟩, rfl⟩

theorem wp_onFlash_timeRead {rest : List Fault} {h : Hsm P}
    (hfaults : h.flash.faults = [.none, .none] ++ rest) :
    Wp (onFlash (TIME_FLOOR.readLatestFailClosed P.crc32)) (fun _ h' => Reread h rest h')
      (fun _ _ => False) h := by
  have hread : ∀ (r : Region) (f : Flash) (rest : List Fault), f.faults = .none :: rest →
      Wp (readRecordState P.crc32 r) (fun _ g => g = { f with faults := rest }) (fun _ _ => False) f := by
    intro r f rest hf
    unfold readRecordState
    rw [Wp_bind]
    unfold Wp
    rw [read_of_none r hf]
    exact rfl
  rw [Wp_onFlash]
  unfold AbPair.readLatestFailClosed
  rw [Wp_bind]
  refine Wp.mono (hread _ _ (.none :: rest) hfaults) ?_ fun _ _ he => he.elim
  rintro ra _ rfl
  rw [Wp_bind]
  refine Wp.mono (hread _ _ rest rfl) ?_ fun _ _ he => he.elim
  rintro rb _ rfl
  split
  · exact ⟨_, rfl, rfl, rfl, rfl⟩
  · exact ⟨_, rfl, rfl, rfl, rfl⟩

theorem decodeLatest_keep {α : Type} {decode : Octets → Option α} {r : PairRead}
    {v : Except HalError (Option Octets)} {payload : Option Octets}
    (hok : r = .ok → v = .ok payload) (herror : r ≠ .ok → v = .error .flash) :
    decodeLatest decode v = r.keep (payload.bind decode) := by
  unfold PairRead.keep
  by_cases h : r = .ok
  · rw [if_pos h, hok h]
    rfl
  · rw [if_neg h, herror h]
    rfl

/-- What a load over these reads leaves. -/
theorem wp_loadFromFlash_reads (reads : BootReads) {h : Hsm P} (hfaults : h.flash.faults = reads.faults) :
    Wp loadFromFlash
      (fun _ h' => ∃ g time, g.sector = h.flash.sector ∧
        h' = Hsm.loaded { h with flash := g } (reads.config.keep (storedConfig P h.flash.sector))
          (reads.key.keep (storedKey P h.flash.sector)) time
          (reads.count (Pin.used (h.flash.sector .pinCounter))))
      (fun _ _ => False) h := by
  unfold loadFromFlash
  rw [Wp_bind]
  refine Wp.mono (wp_onFlash_pairRead CONFIG reads.config hfaults) ?_ fun _ _ he => he
  rintro rc _ ⟨⟨g₁, rfl, hs₁, -, hf₁⟩, hok₁, herr₁⟩
  rw [Wp_bind]
  refine Wp.mono (wp_onFlash_pairRead KEY reads.key hf₁) ?_ fun _ _ he => he
  rintro rk _ ⟨⟨g₂, rfl, hs₂, -, hf₂⟩, hok₂, herr₂⟩
  rw [Wp_bind]
  refine Wp.mono (wp_onFlash_timeRead hf₂) ?_ fun _ _ he => he
  rintro rt _ ⟨g₃, rfl, hs₃, -, hf₃⟩
  have hsector : g₃.sector = h.flash.sector := hs₃.trans (hs₂.trans hs₁)
  have hkey : decodeLatest KeyBlob.fromBytes rk = reads.key.keep (storedKey P h.flash.sector) := by
    rw [decodeLatest_keep hok₂ herr₂]
    change reads.key.keep ((KEY.latest P.crc32 g₁.sector).bind _) = _
    rw [hs₁]
    rfl
  have hconfig : decodeLatest DeviceConfig.fromBytes rc =
      reads.config.keep (storedConfig P h.flash.sector) := decodeLatest_keep hok₁ herr₁
  rw [Wp_bind, Wp_modify]
  rw [hkey, hconfig]
  cases hcfg : reads.config.keep (storedConfig P h.flash.sector) with
  | none => exact ⟨g₃, loadTimeFloor rt, hsector, rfl⟩
  | some c =>
    cases hmode : c.mode with
    | dev =>
      dsimp only
      rw [hmode, Wp_modify]
      refine ⟨g₃, loadTimeFloor rt, hsector, ?_⟩
      simp only [Hsm.loaded, hmode]
    | prod =>
      dsimp only
      rw [hmode, Wp_bind]
      refine Wp.mono (wp_onFlash_counterRead reads.counterError hf₃) ?_ fun _ _ he => he
      rintro rp _ ⟨⟨g₄, rfl, hs₄, -, hf₄⟩, hcount⟩
      rw [Wp_modify]
      refine ⟨g₄, loadTimeFloor rt, hs₄.trans hsector, ?_⟩
      simp only [Hsm.loaded, hmode]
      rw [hcount]
      dsimp only
      rw [hsector]
      rfl

/-- What a power-up over these reads ends in. -/
theorem powerUp_reads (f : Flash) (p : PowerUp) (reads : BootReads) :
    ∃ (h h₀ : Hsm P) (time : Option Int64 × Bool),
      powerUp f { p with faults := reads.faults } = .ok () h ∧
      h = { p with faults := reads.faults }.latch (h₀.loaded
        (reads.config.keep (storedConfig P f.sector)) (reads.key.keep (storedKey P f.sector)) time
        (reads.count (Pin.used (f.sector .pinCounter)))) ∧
      h₀.flash.sector = f.sector := by
  have hboot : ∀ (entropy : Entropy) (drbg : Drbg P), ∃ g time, g.sector = f.sector ∧
      loadFromFlash (Hsm.fresh entropy p.mono ({ p with faults := reads.faults }.flash f) drbg) =
        .ok () ((Hsm.fresh entropy p.mono g drbg).loaded
          (reads.config.keep (storedConfig P f.sector)) (reads.key.keep (storedKey P f.sector)) time
          (reads.count (Pin.used (f.sector .pinCounter)))) := by
    intro entropy drbg
    have hload := wp_loadFromFlash_reads reads
      (h := Hsm.fresh entropy p.mono ({ p with faults := reads.faults }.flash f) drbg) rfl
    unfold Wp at hload
    split at hload
    · rename_i h' hrun
      obtain ⟨g, time, hsector, rfl⟩ := hload
      exact ⟨g, time, hsector, hrun⟩
    · exact hload.elim
  unfold powerUp boot
  obtain ⟨r, entropy⟩ := (Drbg.new (P := P)).seed p.entropy
  cases r with
  | ok drbg =>
    obtain ⟨g, time, hsector, hrun⟩ := hboot entropy drbg
    dsimp only
    rw [hrun]
    exact ⟨_, _, time, rfl, rfl, hsector⟩
  | error e =>
    obtain ⟨g, time, hsector, hrun⟩ := hboot entropy Drbg.new
    dsimp only
    rw [hrun]
    exact ⟨_, _, time, rfl, rfl, hsector⟩

/-! ### After the boot -/

/-- The configuration, in RAM and in flash, and the latch are as they were. -/
structure Settled (h h' : Hsm P) : Prop where
  config : h'.config = h.config
  stored : storedConfig P h'.flash.sector = storedConfig P h.flash.sector
  physical : h'.physicalRecoveryAuthorized = h.physicalRecoveryAuthorized

instance : IsPreorder (Hsm P) Settled where
  refl _ := ⟨rfl, rfl, rfl⟩
  trans _ _ _ h₁₂ h₂₃ :=
    ⟨h₂₃.config.trans h₁₂.config, h₂₃.stored.trans h₁₂.stored, h₂₃.physical.trans h₁₂.physical⟩

def NotConfig (x : Field) : Prop := x ≠ .config

def NotConfigRegion (r : Option Region) : Prop := r ≠ some .configA ∧ r ≠ some .configB

theorem pinScope_notConfig : PinScope NotConfig NotConfigRegion := by
  constructor <;> simp [NotConfig, NotConfigRegion]

theorem Within.settled {h h' : Hsm P} (hw : Within NotConfig NotConfigRegion h h') : Settled h h' :=
  ⟨hw.same .config (by simp [NotConfig]),
    hw.flash.storedConfig ⟨by simp [NotConfigRegion], by simp [NotConfigRegion]⟩, hw.physical⟩

/-- A response that hands the device to whoever sent the request. -/
def HsmResponse.HandsOver (resp : HsmResponse) : Prop :=
  resp = .factoryReset true ∨ ∃ mode, resp = .init true mode

theorem settled_init (req : InitReq) {h : Hsm P} (hfaults : Faultless h.flash.faults) :
    Wp (hsmInit req) (fun resp h' => Settled h h' ∨ resp.HandsOver) (fun _ _ => True) h := by
  have hno : ¬ ∃ left, Fault.fail left ∈ h.flash.faults := not_exists.mpr hfaults.no_fail
  refine Wp.mono (wp_init req h) ?_ fun _ _ _ => trivial
  rintro resp h' (rfl | ⟨-, ⟨-, hdev⟩ | ⟨-, hprod⟩⟩)
  · exact Or.inl (refl_of Settled h')
  · cases hdev with
    | refused => exact Or.inl (refl_of Settled h)
    | failed hg hfail => exact absurd hfail hno
    | done hg => exact Or.inr (Or.inr ⟨_, rfl⟩)
  · cases hprod with
    | refused hrng hresp =>
      obtain ⟨drbg, entropy, rfl⟩ := hrng.exists
      exact Or.inl ⟨rfl, rfl, rfl⟩
    | keyFailed hresp hg hfail => exact absurd hfail hno
    | configFailed hresp hg hg' hfail => exact absurd hfail hno
    | done => exact Or.inr (Or.inr ⟨_, rfl⟩)

theorem settled_factoryReset (req : FactoryResetReq) {h : Hsm P} (hfaults : Faultless h.flash.faults) :
    Wp (hsmFactoryReset req) (fun resp h' => Settled h h' ∨ resp.HandsOver) (fun _ _ => True) h := by
  unfold hsmFactoryReset
  split
  · exact Or.inl (refl_of Settled h)
  rw [Wp_bind]
  refine Wp.mono (Wp.and (stays_destructiveGate pinScope_notConfig _ _ h)
    (wp_destructiveGate _ _ h)) ?_ fun _ _ _ => trivial
  rintro r h₁ ⟨hwithin, hgate⟩
  cases r with
  | some resp => exact Or.inl hwithin.settled
  | none =>
    dsimp only
    rw [Wp_bind, Wp_modify, Wp_bind]
    have hfaults₁ : Faultless h₁.dropLiveSecrets.flash.faults := hfaults.of_suffix hgate.faults
    refine Wp.mono (eraseEverything_faultless hfaults₁) ?_ fun _ _ _ => trivial
    rintro _ h₂ rfl
    exact Or.inr (Or.inl rfl)

/-- The step lemma for commands: the owner of the device changes by a reset or an
    `init` only. -/
theorem settled_run (c : Command) {h : Hsm P} (hfaults : Faultless h.flash.faults) :
    Wp (c.run : Dev P HsmResponse) (fun resp h' => Settled h h' ∨ resp.HandsOver)
      (fun _ _ => True) h := by
  have hscope := pinScope_notConfig
  have hspared : ∀ {m : Dev P HsmResponse}, Stays (Within NotConfig NotConfigRegion) m →
      Wp m (fun resp h' => Settled h h' ∨ resp.HandsOver) (fun _ _ => True) h := by
    intro m hm
    exact (hm h).mono (fun _ _ hw => Or.inl hw.settled) fun _ _ _ => trivial
  cases c with
  | init req => exact settled_init req hfaults
  | generateKey req =>
    exact hspared (stays_generateKey hscope.keyA hscope.keyB hscope.secrets hscope.caPubkey req)
  | getPublicKey => exact hspared stays_getPublicKey
  | unlock req => exact hspared (stays_unlock hscope req)
  | lock => exact hspared (stays_lock hscope.state hscope.secrets)
  | setTime req =>
    exact hspared (stays_setTime (by simp [NotConfig]) (by simp [NotConfig])
      (by simp [NotConfigRegion]) (by simp [NotConfigRegion]) req)
  | status => exact hspared stays_status
  | changePin req => exact hspared (stays_changePin hscope req)
  | addEntropy req => exact hspared (stays_addEntropy req)
  | selfTest => exact hspared stays_selfTest
  | factoryReset req => exact settled_factoryReset req hfaults
  | rebootBootloader req => exact hspared (stays_rebootBootloader hscope (by simp [NotConfig]) req)

/-- The sessions that follow without a reboot, until the device is handed over. -/
inductive After (h : Hsm P) : Hsm P → Prop
  | start : After h h
  | step {h₁ h₂ : Hsm P} {e : Event} {resp : Option Response} (hafter : After h h₁)
      (hfaults : e.Faultless) (hboot : ∀ p, e ≠ .boot p)
      (hstep : (Sys.on h₁).step e = (.on h₂, resp))
      (hkept : ∀ r, resp = some (.hsm r) → ¬ r.HandsOver) : After h h₂

theorem relock_settled (h : Hsm P) : Settled h h.relockOnTransportReset := by
  unfold Hsm.relockOnTransportReset
  dsimp only
  split
  · split <;> exact ⟨rfl, rfl, rfl⟩
  · exact refl_of Settled h

theorem Stepped.settled {h h' : Hsm P} {e : Event} {resp : Option Response}
    (hstep : Stepped (.on h) e resp (.on h')) (hfaults : e.Faultless) (hboot : ∀ p, e ≠ .boot p)
    (hkept : ∀ r, resp = some (.hsm r) → ¬ r.HandsOver) : Settled h h' := by
  generalize hs' : Sys.on h' = s' at hstep
  cases hstep with
  | booted => exact absurd rfl (hboot _)
  | bootCut => exact absurd rfl (hboot _)
  | drew hc hrun hrng =>
    obtain ⟨drbg, entropy, rfl⟩ := hrng.exists
    obtain rfl := Sys.on.inj hs'
    exact ⟨rfl, rfl, rfl⟩
  | @served _ _ _ faults c r hc hrun =>
    obtain rfl := Sys.on.inj hs'
    rcases (settled_run c (h := h.facing faults) hfaults).of_ok hrun with hsettled | hover
    · exact ⟨hsettled.config, hsettled.stored, hsettled.physical⟩
    · exact absurd hover (hkept r rfl)
  | cut => exact absurd hs' (by simp)
  | relocked =>
    obtain rfl := Sys.on.inj hs'
    exact relock_settled h
  | advanced =>
    obtain rfl := Sys.on.inj hs'
    exact ⟨rfl, rfl, rfl⟩
  | quiet =>
    obtain rfl := Sys.on.inj hs'
    exact ⟨rfl, rfl, rfl⟩

/-- The run lemma: whoever owned the device at boot still does, and the session
    keeps its form. -/
theorem After.settled {h h' : Hsm P} (hafter : After h h') (hshape : h.Shaped) :
    Settled h h' ∧ h'.Shaped := by
  induction hafter with
  | start => exact ⟨refl_of Settled h, hshape⟩
  | @step h₁ h₂ e resp _ hfaults hboot hstep hkept ih =>
    obtain ⟨hsettled, hshape₁⟩ := ih
    have hstepped := stepped (.on h₁) e
    rw [hstep] at hstepped
    refine ⟨trans_of Settled hsettled (hstepped.settled hfaults hboot hkept), ?_⟩
    have hinv := ShapeInvariant.step (.on hshape₁) hstepped
    exact hinv h₂ rfl

/-! ### What a closed device refuses -/

/-- Physical recovery was held, or the PIN opens the stored key. -/
def Authorised (h : Hsm P) (pin : Option Str) : Prop :=
  h.physicalRecoveryAuthorized = true ∨
    ∃ p cfg seed kek salt, pin = some p ∧ storedConfig P h.flash.sector = some cfg ∧
      Opens P h.flash cfg p seed kek salt

/-- Without authorisation `factoryReset`, `rebootBootloader` and `init` answer an error. -/
structure Guarded (h : Hsm P) : Prop where
  factoryReset : ∀ (req : FactoryResetReq) (resp : HsmResponse) (h' : Hsm P),
    hsmFactoryReset req (h.facing []) = .ok resp h' → ¬ Authorised h req.pin → resp.IsError
  rebootBootloader : ∀ (req : RebootBootloaderReq) (resp : HsmResponse) (h' : Hsm P),
    hsmRebootBootloader req (h.facing []) = .ok resp h' → ¬ Authorised h req.pin → resp.IsError
  init : ∀ (req : InitReq) (resp : HsmResponse) (h' : Hsm P),
    hsmInit req (h.facing []) = .ok resp h' → ¬ Authorised h req.pin → resp.IsError

/-- What `unlock` and `changePin` answer from the state alone. -/
def stateRefusals : List HsmResponse :=
  [.err .lockedOut "device locked out; factory-reset required",
    .err .notInit "initialize the device first",
    .err .badMode "device is in dev mode; no unlock required", .err .badMode "dev mode has no PIN"]

/-- No command gets as far as `verify_pin`. -/
structure ConsultsNoPin (h : Hsm P) : Prop where
  unlock : ∀ req : UnlockReq, ∃ resp ∈ stateRefusals,
    hsmUnlock req (h.facing []) = .ok resp (h.facing [])
  changePin : ∀ req : ChangePinReq, ∃ resp ∈ stateRefusals,
    hsmChangePin req (h.facing []) = .ok resp (h.facing [])
  gate : ∀ (pin : Str) (noPin : String),
    destructiveGate (some pin) noPin (h.facing []) = destructiveGate none noPin (h.facing [])

/-- A production device that knows its stored configuration. -/
structure Owned (h : Hsm P) : Prop where
  shape : h.Shaped
  stored : h.config = storedConfig P h.flash.sector
  mode : h.config.map DeviceConfig.mode = some .prod

theorem Owned.facing {h : Hsm P} (howned : Owned h) (faults : List Fault) :
    Owned (h.facing faults) := ⟨howned.shape, howned.stored, howned.mode⟩

theorem Owned.after {h h' : Hsm P} (howned : Owned h) (hafter : After h h') : Owned h' := by
  obtain ⟨hsettled, hshape⟩ := hafter.settled howned.shape
  exact ⟨hshape, by rw [hsettled.config, hsettled.stored, howned.stored],
    by rw [hsettled.config, howned.mode]⟩

theorem Owned.gate {h h₁ : Hsm P} {pin : Option Str} (howned : Owned h)
    (hgate : Gate pin h none h₁) : Authorised h pin := by
  cases hgate with
  | free hstate =>
    have hprod := howned.shape.consistent.prod.mpr howned.mode
    rcases hstate with hstate | hstate <;> rw [hstate] at hprod <;> simp at hprod
  | physical hphysical => exact Or.inl hphysical
  | verified hpin hstate hcfg hv =>
    exact Or.inr ⟨_, _, _, _, _, hpin, howned.stored.symm.trans hcfg, hv.opens.1⟩

theorem Owned.guarded {h : Hsm P} (howned : Owned h) : Guarded h where
  factoryReset req resp h' hrun hno := by
    have hwp : Wp (hsmFactoryReset req) (fun resp _ => resp.IsError) (fun _ _ => True)
        (h.facing []) := by
      unfold hsmFactoryReset
      split
      · exact HsmResponse.isError_err _ _
      rw [Wp_bind]
      refine Wp.mono (Wp.and (wp_destructiveGate _ _ _) (destructiveGate_isError _ _ _)) ?_
        fun _ _ _ => trivial
      rintro r h₁ ⟨hgate, herror⟩
      cases r with
      | some resp => exact herror resp rfl
      | none => exact absurd ((howned.facing []).gate hgate) hno
    exact hwp.of_ok hrun
  rebootBootloader req resp h' hrun hno := by
    have hwp : Wp (hsmRebootBootloader req) (fun resp _ => resp.IsError) (fun _ _ => True)
        (h.facing []) := by
      unfold hsmRebootBootloader
      rw [Wp_bind]
      refine Wp.mono (Wp.and (wp_destructiveGate _ _ _) (destructiveGate_isError _ _ _)) ?_
        fun _ _ _ => trivial
      rintro r h₁ ⟨hgate, herror⟩
      cases r with
      | some resp => exact herror resp rfl
      | none => exact absurd ((howned.facing []).gate hgate) hno
    exact hwp.of_ok hrun
  init req resp h' hrun hno := by
    have hsome : (h.facing []).config.isSome := by
      obtain ⟨c, hc, -⟩ := Option.map_eq_some_iff.mp howned.mode
      change h.config.isSome
      rw [hc]
      rfl
    have hwp : Wp (hsmInit req) (fun resp _ => resp.IsError) (fun _ _ => True) (h.facing []) := by
      unfold hsmInit
      rw [Wp_bind, Wp_get, if_pos hsome]
      exact HsmResponse.isError_err _ _
    exact hwp.of_ok hrun

theorem guarded_of_physical {h : Hsm P} (hphysical : h.physicalRecoveryAuthorized = true) :
    Guarded h :=
  ⟨fun _ _ _ _ hno => absurd (Or.inl hphysical) hno, fun _ _ _ _ hno => absurd (Or.inl hphysical) hno,
    fun _ _ _ _ hno => absurd (Or.inl hphysical) hno⟩

/-- A blank device takes a reset from anybody. -/
theorem blank_not_guarded {h : Hsm P} (hstate : h.state = .uninitialized)
    (hphysical : h.physicalRecoveryAuthorized = false) : ¬ Guarded h := by
  intro hguarded
  have hwp : Wp (hsmFactoryReset { confirm := confirmErase })
      (fun resp _ => resp = .factoryReset true) (fun _ _ => False) (h.facing []) := by
    unfold hsmFactoryReset destructiveGate
    rw [if_neg (by simp), Wp_bind, Wp_bind, Wp_get]
    rw [show (h.facing []).state = .uninitialized from hstate]
    dsimp only
    rw [Wp_pure]
    dsimp only
    rw [Wp_bind, Wp_modify, Wp_bind]
    refine Wp.mono (eraseEverything_faultless faultless_nil) ?_ fun _ _ he => he
    rintro _ h₁ rfl
    exact rfl
  unfold Wp at hwp
  split at hwp
  · rename_i resp h' hrun
    have hno : ¬ Authorised h none := by
      rintro (hyes | ⟨_, _, _, _, _, hpin, -⟩)
      · exact absurd (hphysical.symm.trans hyes) (by decide)
      · cases hpin
    obtain ⟨e, he⟩ := hguarded.factoryReset _ resp h' hrun hno
    rw [hwp] at he
    cases he
  · exact hwp.elim

theorem consultsNoPin_of_lockedOut {h : Hsm P} (hstate : h.state = .lockedOut) : ConsultsNoPin h := by
  have hfacing : (h.facing []).state = .lockedOut := hstate
  refine ⟨fun req => ⟨_, List.mem_cons_self, ?_⟩, fun req => ⟨_, List.mem_cons_self, ?_⟩, ?_⟩
  · simp only [hsmUnlock, bind, EStateM.bind, get, getThe, MonadStateOf.get, EStateM.get, hfacing]
    rfl
  · simp only [hsmChangePin, bind, EStateM.bind, get, getThe, MonadStateOf.get, EStateM.get, hfacing]
    rfl
  · intro pin noPin
    simp only [destructiveGate, bind, EStateM.bind, get, getThe, MonadStateOf.get, EStateM.get, hfacing]

theorem consultsNoPin_of_blank {h : Hsm P} (hstate : h.state = .uninitialized) : ConsultsNoPin h := by
  have hfacing : (h.facing []).state = .uninitialized := hstate
  have hmem : HsmResponse.err .notInit "initialize the device first" ∈ stateRefusals := by
    simp [stateRefusals]
  refine ⟨fun req => ⟨_, hmem, ?_⟩, fun req => ⟨_, hmem, ?_⟩, ?_⟩
  · simp only [hsmUnlock, bind, EStateM.bind, get, getThe, MonadStateOf.get, EStateM.get, hfacing]
    rfl
  · simp only [hsmChangePin, bind, EStateM.bind, get, getThe, MonadStateOf.get, EStateM.get, hfacing]
    rfl
  · intro pin noPin
    simp only [destructiveGate, bind, EStateM.bind, get, getThe, MonadStateOf.get, EStateM.get, hfacing]

/-- A locked device hands the PIN to `verify_pin`, whose answers are its own. -/
theorem ConsultsNoPin.not_locked {h : Hsm P} (hconsults : ConsultsNoPin h) :
    h.state ≠ .prodLocked := by
  intro hstate
  obtain ⟨resp, hmem, hrun⟩ := hconsults.unlock { pin := [] }
  have hwp : Wp (hsmUnlock { pin := [] }) (fun resp _ => resp = .unlock true ∨ resp.OfVerify)
      (fun _ _ => True) (h.facing []) := by
    unfold hsmUnlock
    rw [Wp_bind, Wp_get, show (h.facing []).state = .prodLocked from hstate]
    dsimp only
    rw [Wp_bind]
    refine Wp.mono (verifyPin_ofVerify _ _) ?_ fun _ _ _ => trivial
    intro r h₁ hr
    cases r with
    | error resp => exact Or.inr (hr resp rfl)
    | ok opened => exact Or.inl rfl
  have hanswer := hwp.of_ok hrun
  simp only [stateRefusals, List.mem_cons, List.not_mem_nil, or_false] at hmem
  rcases hanswer with rfl | ⟨e, rfl, he⟩
  · simp [HsmResponse.err] at hmem
  · simp only [HsmResponse.err, HsmResponse.error.injEq] at hmem
    rcases hmem with rfl | rfl | rfl | rfl <;> simp [verifyMessages] at he

/-! ### The boot and what follows it -/

theorem Hsm.loaded_not_ready (h : Hsm P) (cfg : Option DeviceConfig) (keyblob : Option KeyBlob)
    (time : Option Int64 × Bool) (attempts : Nat) :
    (h.loaded cfg keyblob time attempts).state ≠ .prodReady := by
  obtain ⟨state, ca, kek, until_, hstate, heq⟩ := h.loaded_cases cfg keyblob time attempts
  rw [heq]
  cases hstate <;> simp

/-- The session a power-up over these reads ends in. -/
theorem powerUp_reads_session (f : Flash) (p : PowerUp) (reads : BootReads) :
    ∃ h : Hsm P, powerUp f { p with faults := reads.faults } = .ok () h ∧ h.Shaped ∧
      h.config = reads.config.keep (storedConfig P f.sector) ∧ h.flash.sector = f.sector ∧
      h.physicalRecoveryAuthorized = p.physicalRecovery ∧ h.state ≠ .prodReady ∧
      (h.state = .lockedOut ↔ ∃ c, reads.config.keep (storedConfig P f.sector) = some c ∧
        c.mode = .prod ∧ (reads.key.keep (storedKey P f.sector)).isSome ∧
        c.maxRetries.toNat ≤ reads.count (Pin.used (f.sector .pinCounter))) := by
  obtain ⟨h, h₀, time, hpower, rfl, hsector⟩ := powerUp_reads (P := P) f p reads
  generalize reads.config.keep (storedConfig P f.sector) = cfg at hpower ⊢
  generalize reads.key.keep (storedKey P f.sector) = keyblob at hpower ⊢
  generalize reads.count (Pin.used (f.sector .pinCounter)) = attempts at hpower ⊢
  obtain ⟨state, ca, kek, until_, -, heq⟩ := h₀.loaded_cases cfg keyblob time attempts
  refine ⟨_, hpower, shaped_loaded (h := h₀) cfg keyblob time attempts, ?_, ?_, rfl,
    h₀.loaded_not_ready cfg keyblob time attempts, h₀.loaded_lockedOut_iff cfg keyblob time attempts⟩
  · rw [heq]
    rfl
  · rw [heq]
    exact hsector

/-- The device booted over these reads is as closed as one that booted without
    faults: what that one guards stays guarded, and where it is locked out no PIN is
    looked at, in every session that follows. -/
def FailsClosed (P : Prims) (f : Flash) (p : PowerUp) (reads : BootReads) : Prop :=
  ∀ h₀ h : Hsm P, powerUp f { p with faults := [] } = .ok () h₀ →
    powerUp f { p with faults := reads.faults } = .ok () h →
    (h₀.state = .prodLocked ∨ h₀.state = .lockedOut → ∀ h', After h h' → Guarded h') ∧
    (h₀.state = .lockedOut → ∀ h', After h h' → ConsultsNoPin h')

theorem LockoutHeld.after {h h' : Hsm P} (hheld : LockoutHeld h) (hafter : After h h') :
    LockoutHeld h' := by
  induction hafter with
  | start => exact hheld
  | @step h₁ h₂ e resp _ hfaults hboot hstep hkept ih =>
    have hstepped := stepped (.on h₁) e
    rw [hstep] at hstepped
    obtain ⟨h', heq, hheld'⟩ := ih.step hstepped hfaults fun hreset =>
      hkept _ hreset.1 (Or.inl rfl)
    obtain rfl := Sys.on.inj heq
    exact hheld'

/-- A boot without faults guards the device exactly when production mode is stored. -/
theorem powerUp_guards_iff {f : Flash} {p : PowerUp} {h : Hsm P}
    (hpower : powerUp f { p with faults := [] } = .ok () h) :
    (h.state = .prodLocked ∨ h.state = .lockedOut) ↔
      ∃ c, storedConfig P f.sector = some c ∧ c.mode = .prod := by
  have hboot := powerUp_ok hpower
  obtain ⟨hconfig, -, -⟩ := hboot.lockout faultless_nil
  have hprod := (shaped_boot hboot).consistent.prod
  rw [hconfig, Option.map_eq_some_iff] at hprod
  rw [← hprod]
  constructor
  · rintro (hstate | hstate)
    · exact Or.inl hstate
    · exact Or.inr (Or.inr hstate)
  · rintro (hstate | hready | hstate)
    · exact Or.inl hstate
    · obtain ⟨drbg, entropy, g, cfg, keyblob, time, attempts, rfl, -, -⟩ := hboot
      exact absurd hready (Hsm.loaded_not_ready _ cfg keyblob time attempts)
    · exact Or.inr hstate

/-- A boot over failing reads keeps a production device closed exactly when the
    configuration was read or physical recovery was held, and a lockout exactly when
    the key and the counter were read as well. -/
theorem boot_fails_closed_iff (f : Flash) (p : PowerUp) (reads : BootReads) :
    FailsClosed P f p reads ↔ ∀ c, storedConfig P f.sector = some c → c.mode = .prod →
      (reads.config = .ok ∨ p.physicalRecovery = true) ∧
      (LocksOut P f.sector → reads.config = .ok →
        reads.key = .ok ∧ (reads.counterError = false ∨ c.maxRetries = 0)) := by
  obtain ⟨h₀, hpower₀, -⟩ := powerUp_faultless (P := P) f (p := { p with faults := [] }) faultless_nil
  obtain ⟨h, hpower, hshape, hconfig, hsector, hphysical, hnotReady, hout⟩ :=
    powerUp_reads_session (P := P) f p reads
  have hguards := powerUp_guards_iff hpower₀
  have hout₀ := ((powerUp_ok hpower₀).lockout faultless_nil).2.2
  constructor
  · intro hcloses c hc hmode
    obtain ⟨hguarded, hconsults⟩ := hcloses h₀ h hpower₀ hpower
    have hguarded := hguarded (hguards.mpr ⟨c, hc, hmode⟩) h .start
    constructor
    · by_contra hno
      rw [not_or, Bool.not_eq_true] at hno
      have hnone : h.config = none := by
        rw [hconfig, PairRead.keep, if_neg hno.1]
      exact blank_not_guarded (hshape.consistent.blank.mpr hnone) (hphysical.trans hno.2) hguarded
    · intro hlocks hok
      have hno := (hconsults (hout₀.mpr hlocks) h .start).not_locked
      rw [hok, hc] at hconfig hout
      -- the session is a production one, and it is not waiting for a PIN
      have hlocked : h.state = .lockedOut := by
        have hprod := hshape.consistent.prod.mpr (by
          rw [hconfig]
          exact congrArg some hmode)
        rcases hprod with hstate | hready | hstate
        · exact absurd hstate hno
        · exact absurd hready hnotReady
        · exact hstate
      obtain ⟨c', hc', -, hkey, hcount⟩ := hout.mp hlocked
      obtain rfl : c = c' := Option.some.inj hc'
      constructor
      · by_contra hbad
        rw [PairRead.keep, if_neg hbad] at hkey
        cases hkey
      · unfold BootReads.count at hcount
        cases hcounter : reads.counterError with
        | false => exact Or.inl rfl
        | true =>
          rw [hcounter, if_pos rfl] at hcount
          right
          apply UInt8.toNat_inj.mp
          exact Nat.le_zero.mp hcount
  · intro hcond h₀' h' hpower₀' hpower'
    rw [hpower₀] at hpower₀'
    rw [hpower] at hpower'
    obtain rfl : h₀ = h₀' := by injection hpower₀'
    obtain rfl : h = h' := by injection hpower'
    constructor
    · intro hprod h' hafter
      obtain ⟨c, hc, hmode⟩ := hguards.mp hprod
      obtain ⟨hopen, -⟩ := hcond c hc hmode
      rcases hopen with hok | hheld
      · rw [hok, hc] at hconfig
        have howned : Owned h := by
          refine ⟨hshape, ?_, ?_⟩
          · rw [hsector, hc]
            exact hconfig
          · rw [hconfig]
            exact congrArg some hmode
        exact (howned.after hafter).guarded
      · obtain ⟨hsettled, -⟩ := hafter.settled hshape
        exact guarded_of_physical (hsettled.physical.trans (hphysical.trans hheld))
    · intro hlocked h' hafter
      have hlocks := hout₀.mp hlocked
      obtain ⟨c, hc, hmode, hkey, hcount⟩ := id hlocks
      obtain ⟨-, hread⟩ := hcond c hc hmode
      by_cases hok : reads.config = .ok
      · obtain ⟨hkeyOk, hcounter⟩ := hread hlocks hok
        rw [hok, hc] at hconfig hout
        rw [hkeyOk] at hout
        have hstate : h.state = .lockedOut := by
          refine hout.mpr ⟨c, rfl, hmode, hkey, ?_⟩
          unfold BootReads.count
          rcases hcounter with hcounter | hzero
          · rw [hcounter]
            exact hcount
          · rw [hzero]
            exact Nat.zero_le _
        have hheld : LockoutHeld h := by
          refine ⟨hstate, ?_, ?_⟩
          · rw [hsector, hc]
            exact hconfig
          · rw [hsector]
            exact hlocks
        exact consultsNoPin_of_lockedOut (hheld.after hafter).state
      · have hnone : h.config = none := by
          rw [hconfig, PairRead.keep, if_neg hok]
        obtain ⟨hsettled, hshape'⟩ := hafter.settled hshape
        exact consultsNoPin_of_blank (hshape'.consistent.blank.mpr (hsettled.config.trans hnone))

namespace Bench

/-- The first read of CONFIG fails, the others succeed. -/
def configError : BootReads := { config := .errorA, key := .ok, counterError := false }

end Bench

/-- A production device whose CONFIG read fails at boot takes a reset without a PIN. -/
theorem config_error_opens_device :
    ∃ h₀ h h' : Hsm (.bench []),
      powerUp Bench.prodImage { Bench.power with faults := [] } = .ok () h₀ ∧
      h₀.state = .prodLocked ∧
      powerUp Bench.prodImage { Bench.power with faults := Bench.configError.faults } = .ok () h ∧
      ¬ Authorised h none ∧
      hsmFactoryReset { confirm := confirmErase } (h.facing []) = .ok (.factoryReset true) h' ∧
      ¬ FailsClosed (.bench []) Bench.prodImage Bench.power Bench.configError := by
  have htest : (match powerUp (P := .bench []) Bench.prodImage { Bench.power with faults := [] },
      powerUp (P := .bench []) Bench.prodImage
        { Bench.power with faults := Bench.configError.faults } with
    | .ok () h₀, .ok () h => h₀.state == .prodLocked && h.physicalRecoveryAuthorized == false &&
        match hsmFactoryReset { confirm := confirmErase } (h.facing []) with
        | .ok resp _ => resp == .factoryReset true
        | .error _ _ => false
    | _, _ => false) = true := by decide +kernel
  split at htest
  · rename_i h₀ h hpower₀ hpower
    split at htest
    · rename_i resp h' hrun
      simp only [Bool.and_eq_true, beq_iff_eq] at htest
      obtain ⟨⟨hstate, hphysical⟩, rfl⟩ := htest
      have hno : ¬ Authorised h none := by
        rintro (hyes | ⟨_, _, _, _, _, hpin, -⟩)
        · exact absurd (hphysical.symm.trans hyes) (by decide)
        · cases hpin
      refine ⟨h₀, h, h', hpower₀, hstate, hpower, hno, hrun, ?_⟩
      intro hcloses
      have hguarded := (hcloses h₀ h hpower₀ hpower).1 (Or.inl hstate) h .start
      obtain ⟨e, he⟩ := hguarded.factoryReset _ _ h' hrun hno
      cases he
    · simp at htest
  · simp at htest

end PicoSignet
