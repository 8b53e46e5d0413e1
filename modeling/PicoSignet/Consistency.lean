/-
  PicoSignet/Consistency.lean
  ===========================
  **The session is consistent** — whatever the flash holds, whatever requests
  arrive and whichever flash operations fail, the fields of the session agree
  with each other: the state names the mode of the configuration, and live
  secrets exist in ready states only.

  `Shape` lists the four forms a session can take.  Each command moves from one
  of them to another, so the forms are an invariant of every run
  (`session_consistent`); the `expect` calls of the handlers only ask for what
  they provide.
-/
import PicoSignet.Session

set_option autoImplicit false

namespace PicoSignet

open Crash

variable {P : Prims}

/-! ### The invariant -/

/-- How state, configuration and live secrets belong together. -/
structure Consistent (h : Hsm P) : Prop where
  blank : h.state = .uninitialized ↔ h.config = none
  dev : h.state = .devReady ↔ h.config.map DeviceConfig.mode = some .dev
  prod : (h.state = .prodLocked ∨ h.state = .prodReady ∨ h.state = .lockedOut) ↔
    h.config.map DeviceConfig.mode = some .prod
  live : h.ca.isSome ∨ h.wrapKek.isSome → h.state = .devReady ∨ h.state = .prodReady
  salt : h.wrapSalt.isSome → h.state = .prodReady
  ready : h.state = .prodReady → h.ca.isSome ∧ h.wrapKek.isSome ∧ h.wrapSalt.isSome

/-- The forms of a session. -/
inductive Shape : DeviceState → Option DeviceConfig → Option CaKey → Option (Bytes 32) →
    Option (Bytes 16) → Prop
  | blank : Shape .uninitialized none none none none
  | dev {c : DeviceConfig} {ca : Option CaKey} {kek : Option (Bytes 32)} (hmode : c.mode = .dev) :
      Shape .devReady (some c) ca kek none
  | locked {c : DeviceConfig} (hmode : c.mode = .prod) : Shape .prodLocked (some c) none none none
  | lockedOut {c : DeviceConfig} (hmode : c.mode = .prod) :
      Shape .lockedOut (some c) none none none
  | ready {c : DeviceConfig} {key : CaKey} {kek : Bytes 32} {salt : Bytes 16}
      (hmode : c.mode = .prod) : Shape .prodReady (some c) (some key) (some kek) (some salt)

def Hsm.Shaped (h : Hsm P) : Prop := Shape h.state h.config h.ca h.wrapKek h.wrapSalt

theorem Hsm.Shaped.consistent {h : Hsm P} (hshape : h.Shaped) : Consistent h := by
  unfold Hsm.Shaped at hshape
  generalize hstate : h.state = state at hshape
  generalize hconfig : h.config = config at hshape
  generalize hca : h.ca = ca at hshape
  generalize hkek : h.wrapKek = kek at hshape
  generalize hsalt : h.wrapSalt = salt at hshape
  cases hshape with
  | blank => constructor <;> simp [hstate, hconfig, hca, hkek, hsalt]
  | dev hmode => constructor <;> simp [hstate, hconfig, hsalt, hmode]
  | locked hmode => constructor <;> simp [hstate, hconfig, hca, hkek, hsalt, hmode]
  | lockedOut hmode => constructor <;> simp [hstate, hconfig, hca, hkek, hsalt, hmode]
  | ready hmode => constructor <;> simp [hstate, hconfig, hca, hkek, hsalt, hmode]

/-- A production state has a configuration, so the `expect`s on it hold. -/
theorem Hsm.Shaped.config_isSome {h : Hsm P} (hshape : h.Shaped)
    (hstate : h.state = .prodLocked ∨ h.state = .prodReady) : h.config.isSome := by
  cases hcfg : h.config with
  | some c => rfl
  | none =>
    have hblank := hshape.consistent.blank.mpr hcfg
    rcases hstate with hstate | hstate <;> exact absurd (hblank.symm.trans hstate) (by decide)

theorem Hsm.Shaped.mode_prod {h : Hsm P} {c : DeviceConfig} (hshape : h.Shaped)
    (hstate : h.state = .prodLocked ∨ h.state = .prodReady) (hcfg : h.config = some c) :
    c.mode = .prod := by
  have hmode := hshape.consistent.prod.mp (hstate.imp_right Or.inl)
  rw [hcfg] at hmode
  exact Option.some.inj hmode

/-- Changes outside the session keep its form. -/
theorem Hsm.Shaped.of_same {h h' : Hsm P} (hshape : h.Shaped) (hstate : h'.state = h.state)
    (hconfig : h'.config = h.config)
    (hsecrets : h'.ca = h.ca ∧ h'.wrapKek = h.wrapKek ∧ h'.wrapSalt = h.wrapSalt) : h'.Shaped := by
  unfold Hsm.Shaped at hshape ⊢
  rw [hstate, hconfig, hsecrets.1, hsecrets.2.1, hsecrets.2.2]
  exact hshape

theorem Hsm.Shaped.of_within {F : Field → Prop} {R : Option Region → Prop} {h h' : Hsm P}
    (hshape : h.Shaped) (hw : Within F R h h') (hF : ¬ F .state ∧ ¬ F .config ∧ ¬ F .secrets) :
    h'.Shaped :=
  hshape.of_same (hw.same .state hF.1) (hw.same .config hF.2.1) (hw.same .secrets hF.2.2)

theorem Hsm.Shaped.of_onlyRng {h h' : Hsm P} (hshape : h.Shaped) (hrng : OnlyRng h h') :
    h'.Shaped := by
  obtain ⟨drbg, entropy, rfl⟩ := hrng.exists
  exact hshape

/-! ### What boot leaves -/

/-- A load over a session without live secrets leaves a shaped one; the dev branch
    relies on its caller for that. -/
theorem shaped_loaded {h : Hsm P} (cfg : Option DeviceConfig) (keyblob : Option KeyBlob)
    (time : Option Int64 × Bool) (attempts : Nat) :
    (h.loaded cfg keyblob time attempts).Shaped := by
  obtain ⟨state, ca, kek, until_, hstate, heq⟩ := h.loaded_cases cfg keyblob time attempts
  rw [heq]
  unfold Hsm.Shaped
  cases hstate with
  | blank => exact .blank
  | dev hmode => exact .dev hmode
  | locked hmode hroom => exact .locked hmode
  | lockedOut hmode => exact .lockedOut hmode

theorem shaped_boot {f : Flash} {p : PowerUp} {h : Hsm P} (hboot : PoweredUp f p h) : h.Shaped := by
  obtain ⟨drbg, entropy, g, cfg, keyblob, time, attempts, rfl, -, -⟩ := hboot
  exact shaped_loaded cfg keyblob time attempts

theorem Hsm.Shaped.relock {h : Hsm P} (hshape : h.Shaped) : h.relockOnTransportReset.Shaped := by
  unfold Hsm.relockOnTransportReset
  dsimp only
  split
  · rename_i hprod
    have hmode : h.config.map DeviceConfig.mode = some .prod := by
      rcases hprod with hstate | hmode
      · apply hshape.consistent.prod.mp
        rcases hstate with hstate | hstate | hstate
        · exact Or.inl hstate
        · exact Or.inr (Or.inl hstate)
        · exact Or.inr (Or.inr hstate)
      · exact hmode
    obtain ⟨c, hcfg, hc⟩ := Option.map_eq_some_iff.mp hmode
    split
    · change Shape .prodLocked h.config none none none
      rw [hcfg]
      exact .locked hc
    · rename_i hready
      change Shape h.state h.config none none none
      rw [hcfg]
      rcases hshape.consistent.prod.mpr hmode with hstate | hstate | hstate
      · rw [hstate]
        exact .locked hc
      · exact absurd hstate hready
      · rw [hstate]
        exact .lockedOut hc
  · exact hshape

/-! ### What the commands leave -/

theorem Hsm.Shaped.of_rejected {h h' : Hsm P} {cfg : DeviceConfig} {pin : Str}
    {resp : HsmResponse} (hshape : h.Shaped)
    (hstate : h.state = .prodLocked ∨ h.state = .prodReady) (hcfg : h.config = some cfg)
    (hv : Verified cfg pin h (.error resp) h') : h'.Shaped := by
  have hmode := hshape.mode_prod hstate hcfg
  cases hv with
  | refused hg => exact hshape
  | wrong hg hblob htick hwrong =>
    cases hwrong with
    | retry => exact hshape
    | lockout =>
      change Shape .lockedOut h.config none none none
      rw [hcfg]
      exact .lockedOut hmode
    | wipe =>
      change Shape .lockedOut h.config none none none
      rw [hcfg]
      exact .lockedOut hmode

theorem Hsm.Shaped.of_gated {h h' : Hsm P} {pin : Option Str} {r : Option HsmResponse}
    (hshape : h.Shaped) (hgate : Gate pin h r h') : h'.Shaped := by
  cases hgate with
  | free => exact hshape
  | physical => exact hshape
  | verified hpin hstate hcfg hv =>
    obtain ⟨-, g, until_, rfl⟩ := hv.opens
    exact hshape
  | refused => exact hshape
  | rejected hpin hstate hcfg hv => exact hshape.of_rejected hstate hcfg hv

theorem Hsm.Shaped.of_rewrapped {h h' : Hsm P} {newPin : Str} {wasReady : Bool} {seed : Bytes 32}
    {resp : HsmResponse} (hshape : h.Shaped)
    (hstate : h.state = .prodLocked ∨ h.state = .prodReady)
    (hr : Rewrapped newPin wasReady seed h resp h') : h'.Shaped := by
  cases hr with
  | refused hrng hresp => exact hshape.of_onlyRng hrng
  | failed hresp hg hfail => exact hshape
  | done hblob hg hreset =>
    obtain ⟨cfg, secret, pubkey, nonce, hcfg, -⟩ := hblob
    have hmode := hshape.mode_prod hstate hcfg
    unfold Hsm.Shaped
    dsimp only
    rw [hcfg]
    cases wasReady with
    | true => exact .ready hmode
    | false => exact .locked hmode

theorem Hsm.Shaped.of_rotated {h h' : Hsm P} {resp : HsmResponse} (hshape : h.Shaped)
    (hready : h.state = .devReady ∨ h.state = .prodReady) (hr : Rotated h resp h') : h'.Shaped := by
  cases hr with
  | refused hrng hresp => exact hshape.of_onlyRng hrng
  | failed hresp hg hfail => exact hshape
  | done hblob hg =>
    unfold Hsm.Shaped at hshape ⊢
    dsimp only
    generalize h.state = state at hshape hready ⊢
    generalize h.config = config at hshape ⊢
    generalize h.ca = ca at hshape
    generalize h.wrapKek = kek at hshape ⊢
    generalize h.wrapSalt = salt at hshape ⊢
    cases hshape with
    | dev hmode => exact .dev hmode
    | ready hmode => exact .ready hmode
    | blank => simp at hready
    | locked hmode => simp at hready
    | lockedOut hmode => simp at hready

/-- `init` runs on a blank session; a dev init leaves its cached secrets to `Shape.blank`. -/
theorem Hsm.Shaped.of_initDev {h h' : Hsm P} {resp : HsmResponse} (hshape : h.Shaped)
    (hcfg : h.config = none) (hi : InitDev h resp h') : h'.Shaped := by
  cases hi with
  | refused => exact hshape
  | failed hg hfail => exact hshape
  | @done g kek hg =>
    have hsalt : h.wrapSalt = none := by
      rw [Option.eq_none_iff_forall_ne_some]
      intro salt hsalt
      have hready := hshape.consistent.salt (by rw [hsalt]; rfl)
      have hblank := hshape.consistent.blank.mpr hcfg
      exact absurd (hblank.symm.trans hready) (by decide)
    change Shape .devReady (some devConfig) h.ca (some kek) h.wrapSalt
    rw [hsalt]
    exact .dev rfl

theorem Hsm.Shaped.of_initProd {req : InitReq} {h h' : Hsm P} {resp : HsmResponse}
    (hshape : h.Shaped) (hi : InitProd req h resp h') : h'.Shaped := by
  cases hi with
  | refused hrng hresp => exact hshape.of_onlyRng hrng
  | keyFailed hresp hg hfail => exact hshape
  | configFailed hresp hg hg' hfail => exact hshape
  | done hretries hblob hg hg' hreset => exact .locked rfl

theorem Hsm.Shaped.of_lock {h : Hsm P} (hshape : h.Shaped)
    (hstate : h.state = .prodLocked ∨ h.state = .lockedOut) : h.dropLiveSecrets.Shaped := by
  have hmode : h.config.map DeviceConfig.mode = some .prod := by
    apply hshape.consistent.prod.mp
    rcases hstate with hstate | hstate
    · exact Or.inl hstate
    · exact Or.inr (Or.inr hstate)
  obtain ⟨c, hcfg, hc⟩ := Option.map_eq_some_iff.mp hmode
  change Shape h.state h.config none none none
  rw [hcfg]
  rcases hstate with hstate | hstate
  · rw [hstate]
    exact .locked hc
  · rw [hstate]
    exact .lockedOut hc

/-- A PIN check only stops for the power. -/
theorem Hsm.Shaped.not_panic {h h' : Hsm P} {pin : Str} {e : Halt} (hshape : h.Shaped)
    (hstate : h.state = .prodLocked ∨ h.state = .prodReady) (hstop : VerifyStop pin h e h') :
    e = .powerLoss := by
  rcases hstop with ⟨-, hnone, -⟩ | ⟨he, -⟩
  · have hcfg := hshape.config_isSome hstate
    rw [hnone] at hcfg
    exact absurd hcfg (by simp)
  · exact he

theorem FlashOnly.get {rel : Flash → Flash → Prop} [IsPreorder Flash rel] :
    FlashOnly rel (MonadState.get : Dev P (Hsm P)) := fun h => ⟨h.flash, rfl, refl_of rel h.flash⟩

theorem flashOnly_status :
    FlashOnly (FlashWithin fun _ => False) (hsmStatus : Dev P HsmResponse) := by
  unfold hsmStatus
  refine FlashOnly.bind FlashOnly.get fun h => FlashOnly.bind ?_ fun _ => FlashOnly.pure _
  unfold retryRemaining
  split
  · exact FlashOnly.pure _
  · split
    · exact FlashOnly.bind (FlashOnly.onFlash stays_pinCount) fun _ => FlashOnly.pure _
    · exact FlashOnly.pure _

theorem flashOnly_selfTest :
    FlashOnly (FlashWithin fun _ => False) (hsmSelfTest : Dev P HsmResponse) := by
  unfold hsmSelfTest
  refine FlashOnly.bind FlashOnly.get fun h => ?_
  exact FlashOnly.bind (FlashOnly.onFlash (stays_readLatest _ _)) fun _ => FlashOnly.pure _

theorem Hsm.Shaped.flashOnly {rel : Flash → Flash → Prop} {m : Dev P HsmResponse} {h : Hsm P}
    (hshape : h.Shaped) (hm : FlashOnly rel m) :
    Wp m (fun _ h' => h'.Shaped) (fun e _ => e = .powerLoss) h := by
  refine Wp.mono (hm h) ?_ fun _ _ he => he.1
  rintro resp _ ⟨g, rfl, -⟩
  exact hshape

/-- The step lemma: a command keeps the form of the session, and what stops it is
    a power cut. -/
theorem shaped_run (c : Command) {h : Hsm P} (hshape : h.Shaped) :
    Wp (c.run : Dev P HsmResponse) (fun _ h' => h'.Shaped) (fun e _ => e = .powerLoss) h := by
  cases c with
  | init req =>
    refine Wp.mono (wp_init req h) ?_ fun _ _ he => he.1
    rintro resp h' (rfl | ⟨hcfg, ⟨-, hdev⟩ | ⟨-, hprod⟩⟩)
    · exact hshape
    · exact hshape.of_initDev hcfg hdev
    · exact hshape.of_initProd hprod
  | generateKey req =>
    refine Wp.mono (wp_generateKey req h) ?_ fun _ _ he => he.1
    rintro resp h' (⟨rfl, -⟩ | ⟨hready, hr⟩)
    · exact hshape
    · exact hshape.of_rotated hready hr
  | getPublicKey =>
    have hreads : FlashOnly (FlashWithin fun _ => False) (hsmGetPublicKey : Dev P HsmResponse) := by
      refine FlashOnly.bind FlashOnly.get fun h => ?_
      split <;> exact FlashOnly.pure _
    exact hshape.flashOnly hreads
  | unlock req =>
    refine Wp.mono (wp_unlock req h) ?_ fun _ _ he => hshape.not_panic (Or.inl he.1) he.2
    intro resp h' hu
    cases hu with
    | refused => exact hshape
    | rejected hcfg hstate hv => exact hshape.of_rejected (Or.inl hstate) hcfg hv
    | opened hcfg hstate hv =>
      have hmode := hshape.mode_prod (Or.inl hstate) hcfg
      obtain ⟨-, g, until_, rfl⟩ := hv.opens
      unfold Hsm.Shaped
      dsimp only
      rw [hcfg]
      exact .ready hmode
  | lock =>
    refine Wp.mono (wp_lock h) ?_ fun _ _ he => he.elim
    rintro resp h' (⟨hstate, -, rfl⟩ | ⟨hstate, -, rfl⟩ | ⟨-, rfl⟩)
    · obtain ⟨c, hcfg⟩ := Option.isSome_iff_exists.mp (hshape.config_isSome (Or.inr hstate))
      change Shape .prodLocked h.config none none none
      rw [hcfg]
      exact .locked (hshape.mode_prod (Or.inr hstate) hcfg)
    · exact hshape.of_lock hstate
    · exact hshape
  | setTime req =>
    refine Wp.mono (wp_setTime req h) ?_ fun _ _ he => he.1
    intro resp h' ht
    cases ht <;> exact hshape
  | status => exact hshape.flashOnly flashOnly_status
  | changePin req =>
    refine Wp.mono (wp_changePin req h) ?_ ?_
    · intro resp h' hp
      cases hp with
      | refused hresp => exact hshape
      | rejected hcfg hstate hv => exact hshape.of_rejected hstate hcfg hv
      | rewrapped hcfg hstate hv hr =>
        obtain ⟨-, g, until_, rfl⟩ := hv.opens
        refine Hsm.Shaped.of_rewrapped ?_ ?_ hr
        · exact hshape
        · exact hstate
    · rintro e h' ⟨hstate, hstop | ⟨he, -⟩⟩
      · exact hshape.not_panic hstate hstop
      · exact he
  | addEntropy req =>
    change Wp (hsmAddEntropy req) _ _ h
    unfold hsmAddEntropy
    split
    · split <;> exact hshape
    · exact hshape
  | selfTest => exact hshape.flashOnly flashOnly_selfTest
  | factoryReset req =>
    refine Wp.mono (wp_factoryReset req h) ?_ ?_
    · intro resp h' hf
      cases hf with
      | refused => exact hshape
      | gated hgate => exact hshape.of_gated hgate
      | erased hgate => exact .blank
      | incomplete => exact shaped_loaded _ _ _ _
    · rintro e h' (⟨p, -, hstate, hstop⟩ | ⟨he, -⟩)
      · exact hshape.not_panic hstate hstop
      · exact he
  | rebootBootloader req =>
    refine Wp.mono (wp_rebootBootloader req h) ?_ ?_
    · rintro resp h' (⟨resp', hgate⟩ | ⟨h₁, hgate, rfl⟩)
      · exact hshape.of_gated hgate
      · have hshape₁ := hshape.of_gated hgate
        exact hshape₁
    · rintro e h' ⟨p, -, hstate, hstop⟩
      exact hshape.not_panic hstate hstop

/-! ### Every run -/

/-- While powered, the session has one of the forms. -/
def ShapeInvariant (s : Sys P) : Prop := ∀ h, s = .on h → h.Shaped

theorem ShapeInvariant.on {h : Hsm P} (hshape : h.Shaped) : ShapeInvariant (.on h) := by
  intro h' heq
  obtain rfl := Sys.on.inj heq
  exact hshape

theorem ShapeInvariant.off {f : Flash} : ShapeInvariant (P := P) (.off f) := by
  intro h heq
  cases heq

theorem ShapeInvariant.step {s s' : Sys P} {e : Event} {resp : Option Response}
    (hinv : ShapeInvariant s) (hstep : Stepped s e resp s') : ShapeInvariant s' := by
  cases hstep with
  | booted hboot => exact .on (shaped_boot hboot)
  | bootCut hcut hg => exact .off
  | unpowered hno => exact .off
  | @drew h h' _ faults _ hc hrun hrng =>
    have hfacing : (h.facing faults).Shaped := hinv h rfl
    exact .on (hfacing.of_onlyRng hrng)
  | @served h h' _ faults c _ hc hrun =>
    have hfacing : (h.facing faults).Shaped := hinv h rfl
    exact .on ((shaped_run c hfacing).of_ok hrun)
  | cut hc hrun => exact .off
  | @relocked h => exact .on (hinv h rfl).relock
  | @advanced h mono =>
    have hshape := hinv h rfl
    exact .on hshape
  | @quiet h e _ _ _ _ he =>
    have hshape := hinv h rfl
    exact .on hshape

theorem Run.shaped {image : Flash} {hist : List (Moment P)} {h : Hsm P}
    (hrun : Run image hist (.on h)) : h.Shaped := by
  have hinv : ShapeInvariant (.on h) :=
    Run.induct (I := fun _ s => ShapeInvariant s) .off (fun _ _ _ _ _ h hs => h.step hs) hrun
  exact hinv h rfl

/-- A shaped session never panics, whatever line it is sent. -/
theorem Hsm.Shaped.handle_ne_panic {h : Hsm P} (hshape : h.Shaped) (line : Octets) (h' : Hsm P) :
    handle line h ≠ .error .panic h' := by
  intro hrun
  cases hc : lineCommand P line with
  | none => exact (draws_handle hc h).of_error hrun
  | some c =>
    rw [handle_command hc] at hrun
    have hstop := shaped_run c hshape
    simp only [bind, EStateM.bind, pure, EStateM.pure] at hrun
    cases hcmd : c.run h with
    | ok resp h₁ =>
      rw [hcmd] at hrun
      cases hrun
    | error e h₁ =>
      rw [hcmd] at hrun
      cases hrun
      exact absurd (hstop.of_error hcmd) (by decide)

/-- Over any image, after any requests, relocks, reseeds and faults, the session is
    consistent, and no `expect` of a handler fails on the next line. -/
theorem session_consistent {image : Flash} {hist : List (Moment P)} {h : Hsm P}
    (hrun : Run image hist (.on h)) :
    Consistent h ∧
      ∀ (line : Octets) (faults : List Fault) (h' : Hsm P),
        handle line (h.facing faults) ≠ .error .panic h' := by
  have hshape := hrun.shaped
  constructor
  · exact hshape.consistent
  · intro line faults h'
    have hfacing : (h.facing faults).Shaped := hshape
    exact hfacing.handle_ne_panic line h'

/-- A session that `unlock` has opened. -/
theorem session_consistent_unlocked :
    ∃ (hist : List (Moment Bench.signing)) (h : Hsm Bench.signing),
      Run Bench.prodImage hist (.on h) ∧ h.state = .prodReady ∧ Consistent h := by
  have hends : replayEnds (P := Bench.signing) (fun _ _ h' => h'.state == .prodReady)
      Bench.prodImage [Bench.send 0, .boot Bench.power] = true := by decide +kernel
  obtain ⟨m, h, h', resp, -, -, -, -, hready, -, hrun⟩ := exists_of_replayEnds hends
  exact ⟨_, h', hrun, by simpa using hready, (session_consistent hrun).1⟩

end PicoSignet
