/-
  PicoSignet/PinBudget.lean
  =========================
  **The PIN guess budget survives power loss.**  A wrong PIN costs a counter byte
  before it is tried, so the guesses since the last erase of the counter never
  outnumber the cleared bytes; and a session only takes a PIN while fewer guesses
  than the limit are on record.  Four commands share the counter and every one of
  them can be cut at any flash operation.

  `Budgeted` is the invariant of a powered device, `Counted` its part that lives
  in flash and survives a cut.  `Accounted` follows the erases of the counter.
-/
import PicoSignet.Commands

set_option autoImplicit false

namespace PicoSignet

open Crash

variable {P : Prims}

/-! ### The invariant -/

/-- Guesses are covered by the counter and by the limit of the newest one. -/
structure Counted (f : Flash) : Prop where
  used : (wrongTries f.journal).length ≤ Pin.used (f.sector .pinCounter)
  bounded : ∀ limit, (wrongTries f.journal).head? = some limit →
    (wrongTries f.journal).length ≤ limit.toNat

theorem Counted.of_none {f : Flash} (h : wrongTries f.journal = []) : Counted f := by
  constructor <;> simp [h]

theorem Counted.noGuess {f g : Flash} (hf : Counted f) (hg : NoGuess f g) : Counted g := by
  rcases hg with hnone | ⟨hsame, hle⟩
  · exact .of_none hnone
  · constructor
    · rw [hsame]
      exact le_trans hf.used hle
    · rw [hsame]
      exact hf.bounded

/-- The session would derive a KEK from a PIN. -/
def Hsm.TakesPins (h : Hsm P) : Prop :=
  h.state = .prodReady ∨ h.state = .prodLocked ∧ (storedKey P h.flash.sector).isSome

structure Budgeted (h : Hsm P) : Prop where
  counted : Counted h.flash
  room : h.TakesPins → ∀ cfg, h.config = some cfg →
    (wrongTries h.flash.journal).length < cfg.maxRetries.toNat

/-- Without a guess the budget is kept, as long as the session is no readier than it was. -/
theorem Budgeted.noGuess {h h' : Hsm P} (hb : Budgeted h) (hg : NoGuess h.flash h'.flash)
    (htakes : h'.TakesPins → h.TakesPins) (hconfig : h'.config = h.config) : Budgeted h' := by
  refine ⟨hb.counted.noGuess hg, fun ht cfg hcfg => ?_⟩
  have hroom := hb.room (htakes ht) cfg (hconfig ▸ hcfg)
  rcases hg with hnone | ⟨hsame, -⟩
  · rw [hnone]
    exact Nat.zero_lt_of_lt hroom
  · rwa [hsame]

/-- With no guess on record and a positive limit there is room. -/
theorem Budgeted.of_none {h : Hsm P} (hnone : wrongTries h.flash.journal = [])
    (hlimit : ∀ cfg, h.config = some cfg → 0 < cfg.maxRetries.toNat) : Budgeted h := by
  refine ⟨.of_none hnone, fun _ cfg hcfg => ?_⟩
  rw [hnone]
  exact hlimit cfg hcfg

/-- A session that takes no PINs only owes the flash part. -/
theorem Budgeted.of_closed {h : Hsm P} (hcounted : Counted h.flash) (hno : ¬ h.TakesPins) :
    Budgeted h := ⟨hcounted, fun ht => absurd ht hno⟩

theorem not_takesPins {h : Hsm P} (hready : h.state ≠ .prodReady) (hlocked : h.state ≠ .prodLocked) :
    ¬ h.TakesPins := by
  rintro (h₁ | ⟨h₁, -⟩)
  · exact hready h₁
  · exact hlocked h₁

/-! ### One guess -/

/-- A wrong PIN is counted before it is tried, and stays within the limit. -/
theorem Counted.guess {f g : Flash} {cfg : DeviceConfig} {attempts : Nat} (hf : Counted f)
    (hticks : Ticks f g) (hroom : (wrongTries f.journal).length < cfg.maxRetries.toNat)
    (htick : TickResult (Pin.used (f.sector .pinCounter)) (Pin.used (g.sector .pinCounter))
      attempts) :
    Counted (g.log (.tried cfg.maxRetries false)) ∧
      (wrongTries (g.log (.tried cfg.maxRetries false)).journal).length ≤ attempts := by
  have hsame : wrongTries g.journal = wrongTries f.journal ∨ wrongTries g.journal = [] :=
    hticks.noGuess.elim Or.inr fun h => Or.inl h.1
  have hle : (wrongTries g.journal).length ≤ (wrongTries f.journal).length := by
    rcases hsame with h | h
    · rw [h]
    · simp [h]
  have hlog : wrongTries (g.log (.tried cfg.maxRetries false)).journal =
      cfg.maxRetries :: wrongTries g.journal := rfl
  have hused := hf.used
  have hmax : cfg.maxRetries.toNat < 256 := cfg.maxRetries.toNat_lt
  obtain ⟨hattempts, hm⟩ := htick
  -- the counter is full only far above any limit
  have hcovered : (wrongTries g.journal).length + 1 ≤ attempts := by
    unfold SECTOR_LEN at hattempts
    omega
  refine ⟨⟨?_, ?_⟩, ?_⟩
  · rw [hlog, List.length_cons]
    exact le_trans hcovered hm
  · rintro limit hlimit
    rw [hlog] at hlimit ⊢
    obtain rfl := Option.some.inj hlimit
    rw [List.length_cons]
    omega
  · rw [hlog, List.length_cons]
    exact hcovered

theorem Wipes.noGuess {f g : Flash} (h : Wipes f g) : NoGuess f g :=
  .of_within h.within (by simp [KeyRegion]) (by simp [KeyRegion])

/-- A wrong PIN leaves room, or no session that would take another. -/
theorem WrongPin.budgeted {cfg : DeviceConfig} {attempts : Nat} {h h' : Hsm P}
    (hwrong : WrongPin cfg attempts h h') (hcfg : h.config = some cfg)
    (hcounted : Counted h.flash) (hle : (wrongTries h.flash.journal).length ≤ attempts) :
    Budgeted h' := by
  cases hwrong with
  | retry until_ hlt =>
    refine ⟨hcounted, fun _ cfg' hcfg' => ?_⟩
    change h.config = some cfg' at hcfg'
    rw [hcfg] at hcfg'
    obtain rfl := Option.some.inj hcfg'
    exact lt_of_le_of_lt hle hlt
  | lockout until_ hge hwipe =>
    exact .of_closed hcounted (not_takesPins (by simp [Hsm.enterLockedOut])
      (by simp [Hsm.enterLockedOut]))
  | wipe until_ g pubkey hge hwipe hg hpubkey =>
    exact .of_closed (hcounted.noGuess hg.noGuess) (not_takesPins (by simp [Hsm.enterLockedOut])
      (by simp [Hsm.enterLockedOut]))

/-! ### Sectors of the key -/

theorem storedKey_congr {f g : Flash} (hA : g.sector .keyA = f.sector .keyA)
    (hB : g.sector .keyB = f.sector .keyB) : storedKey P g.sector = storedKey P f.sector := by
  unfold storedKey AbPair.latest
  rw [AbPair.copies_congr hA hB]

theorem storedKey_within {R : Option Region → Prop} {f g : Flash} (h : FlashWithin R f g)
    (hA : ¬ R (some .keyA)) (hB : ¬ R (some .keyB)) :
    storedKey P g.sector = storedKey P f.sector := storedKey_congr (h.sector _ hA) (h.sector _ hB)

theorem Resets.storedKey {f g : Flash} (h : Resets f g) :
    storedKey P g.sector = storedKey P f.sector :=
  storedKey_within h.within (by simp) (by simp)

theorem Hsm.TakesPins.of_same {h h' : Hsm P} (ht : h'.TakesPins) (hstate : h'.state = h.state)
    (hkey : storedKey P h'.flash.sector = storedKey P h.flash.sector) : h.TakesPins := by
  rcases ht with ht | ⟨ht, hsome⟩
  · exact Or.inl (hstate ▸ ht)
  · exact Or.inr ⟨hstate ▸ ht, hkey ▸ hsome⟩

/-! ### `verify_pin` -/

theorem Opens.isSome {f : Flash} {cfg : DeviceConfig} {pin : Str} {seed kek : Bytes 32}
    {salt : Bytes 16} (h : Opens P f cfg pin seed kek salt) : (storedKey P f.sector).isSome := by
  obtain ⟨blob, secret, hkey, -⟩ := h
  rw [hkey]
  rfl

theorem takesPins_of_key {h : Hsm P} (hstate : h.state = .prodLocked ∨ h.state = .prodReady)
    (hkey : (storedKey P h.flash.sector).isSome) : h.TakesPins :=
  hstate.elim (fun hlocked => Or.inr ⟨hlocked, hkey⟩) Or.inl

theorem NoGuess.of_opened {f g g' : Flash} {limit : UInt8}
    (hreset : Resets (g.log (.tried limit true)) g') : NoGuess f g' := Or.inl hreset.wrongTries

theorem storedKey_opened {f g g' : Flash} {limit : UInt8} (hg : Ticks f g)
    (hreset : Resets (g.log (.tried limit true)) g') :
    storedKey P g'.sector = storedKey P f.sector :=
  hreset.storedKey.trans hg.storedKey

theorem Verified.budgeted {cfg : DeviceConfig} {pin : Str} {h h' : Hsm P}
    {r : Except HsmResponse UnlockedSeed} (hv : Verified cfg pin h r h')
    (hcfg : h.config = some cfg) (hstate : h.state = .prodLocked ∨ h.state = .prodReady)
    (hb : Budgeted h) : Budgeted h' := by
  cases hv with
  | refused hg =>
    exact hb.noGuess hg.noGuess (fun ht => ht.of_same rfl hg.storedKey) rfl
  | opened hg hopens hreset =>
    exact hb.noGuess (.of_opened hreset)
      (fun ht => ht.of_same rfl (storedKey_opened hg hreset)) rfl
  | wrong hg hblob htick hwrong =>
    have hroom := hb.room (takesPins_of_key hstate hblob) cfg hcfg
    obtain ⟨hcounted, hle⟩ := hb.counted.guess hg hroom htick
    exact hwrong.budgeted hcfg hcounted hle

theorem VerifyCut.counted {cfg : DeviceConfig} {pin : Str} {h : Hsm P} {g : Flash}
    (hcut : VerifyCut P cfg pin h.flash g) (hcfg : h.config = some cfg)
    (hstate : h.state = .prodLocked ∨ h.state = .prodReady) (hb : Budgeted h) : Counted g := by
  cases hcut with
  | ticking hg => exact hb.counted.noGuess hg.noGuess
  | resetting hg hopens hreset => exact .of_none hreset.wrongTries
  | wiping hg hblob htick hge hwipe hg' =>
    have hroom := hb.room (takesPins_of_key hstate hblob) cfg hcfg
    exact (hb.counted.guess hg hroom htick).1.noGuess hg'.noGuess

theorem VerifyStop.counted {pin : Str} {h h' : Hsm P} {e : Halt} (hstop : VerifyStop pin h e h')
    (hstate : h.state = .prodLocked ∨ h.state = .prodReady) (hb : Budgeted h) :
    Counted h'.flash := by
  rcases hstop with ⟨-, -, rfl⟩ | ⟨-, cfg, hcfg, hcut⟩
  · exact hb.counted
  · exact hcut.counted hcfg hstate hb

theorem Gate.budgeted {pin : Option Str} {h h' : Hsm P} {r : Option HsmResponse}
    (hgate : Gate pin h r h') (hb : Budgeted h) : Budgeted h' := by
  cases hgate with
  | free => exact hb
  | physical => exact hb
  | verified hpin hstate hcfg hv => exact hv.budgeted hcfg hstate hb
  | refused => exact hb
  | rejected hpin hstate hcfg hv => exact hv.budgeted hcfg hstate hb

theorem GateStop.counted {pin : Option Str} {h h' : Hsm P} {e : Halt}
    (hstop : GateStop pin h e h') (hb : Budgeted h) : Counted h'.flash := by
  obtain ⟨p, -, hstate, hstop⟩ := hstop
  exact hstop.counted hstate hb

/-! ### The commands -/

/-- A pair that does not hold the counter. -/
def AbPair.SparesCounter (pair : AbPair) : Prop := pair.a ≠ .pinCounter ∧ pair.b ≠ .pinCounter

theorem spares_key : KEY.SparesCounter := by constructor <;> decide
theorem spares_config : CONFIG.SparesCounter := by constructor <;> decide

/-- A write to another pair goes to another sector. -/
theorem AbPair.SparesCounter.target {pair : AbPair} (hpair : pair.SparesCounter)
    (image : Region → Sector) : some .pinCounter ≠ some (pair.nextTarget P.crc32 image) := by
  intro heq
  rcases pair.nextTarget_mem P.crc32 image with htarget | htarget
  · exact hpair.1 (htarget.symm.trans (Option.some.inj heq).symm)
  · exact hpair.2 (htarget.symm.trans (Option.some.inj heq).symm)

theorem Wrote.noGuess {pair : AbPair} {payload : Octets} {f g : Flash}
    (h : Wrote P pair payload f g) (hpair : pair.SparesCounter) : NoGuess f g :=
  .of_within h.within (hpair.target _) (by simp)

theorem WriteStopped.noGuess {pair : AbPair} {payload : Octets} {f g : Flash}
    (h : WriteStopped P pair payload f g) (hpair : pair.SparesCounter) : NoGuess f g :=
  .of_within h.within (hpair.target _) (by simp)

theorem OnlyRng.budgeted {h h' : Hsm P} (hrng : OnlyRng h h') (hb : Budgeted h) : Budgeted h' := by
  obtain ⟨drbg, entropy, rfl⟩ := hrng.exists
  exact ⟨hb.counted, hb.room⟩

/-- A footprint without the counter and the key, in a session whose state and
    configuration stay. -/
theorem Within.budgeted {F : Field → Prop} {R : Option Region → Prop} {h h' : Hsm P}
    (hw : Within F R h h') (hF : ¬ F .state ∧ ¬ F .config)
    (hR : ¬ R none ∧ ¬ R (some .pinCounter) ∧ ¬ R (some .keyA) ∧ ¬ R (some .keyB))
    (hb : Budgeted h) : Budgeted h' :=
  hb.noGuess (.of_within hw.flash hR.2.1 hR.1)
    (fun ht => ht.of_same (hw.same .state hF.1) (storedKey_within hw.flash hR.2.2.1 hR.2.2.2))
    (hw.same .config hF.2)

theorem Rewrapped.budgeted {newPin : Str} {wasReady : Bool} {seed : Bytes 32} {h h' : Hsm P}
    {resp : HsmResponse} (hr : Rewrapped newPin wasReady seed h resp h') (htakes : h.TakesPins)
    (hb : Budgeted h) : Budgeted h' := by
  cases hr with
  | refused hrng hresp => exact hrng.budgeted hb
  | failed hresp hg hfail => exact hb.noGuess (hg.noGuess spares_key) (fun _ => htakes) rfl
  | done hblob hg hreset =>
    exact hb.noGuess (trans_of NoGuess (hg.noGuess spares_key) hreset.noGuess) (fun _ => htakes) rfl

theorem RewrapCut.counted {newPin : Str} {seed : Bytes 32} {h : Hsm P} {g : Flash}
    (hcut : RewrapCut newPin seed h g) (hb : Budgeted h) : Counted g := by
  cases hcut with
  | writing hblob hg => exact hb.counted.noGuess (hg.noGuess spares_key)
  | resetting hblob hg hreset => exact .of_none hreset.wrongTries

/-- After a verified PIN the session still takes PINs. -/
theorem Verified.takesPins {cfg : DeviceConfig} {pin : Str} {h h' : Hsm P} {seed kek : Bytes 32}
    {salt : Bytes 16} (hv : Verified cfg pin h (.ok (seed, kek, salt)) h')
    (hstate : h.state = .prodLocked ∨ h.state = .prodReady) : h'.TakesPins := by
  cases hv with
  | opened hg hopens hreset =>
    refine takesPins_of_key hstate ?_
    rw [storedKey_opened hg hreset]
    exact hopens.isSome

theorem InitProd.budgeted {req : InitReq} {h h' : Hsm P} {resp : HsmResponse}
    (hi : InitProd req h resp h') (hnone : h.config = none) (hb : Budgeted h) : Budgeted h' := by
  -- without a configuration there is no limit to keep
  have hfree : ∀ h' : Hsm P, h'.config = none → Counted h'.flash → Budgeted h' :=
    fun h' hnone' hcounted => ⟨hcounted, fun _ cfg hcfg => absurd (hnone'.symm.trans hcfg) (by simp)⟩
  cases hi with
  | refused hrng hresp => exact hrng.budgeted hb
  | keyFailed hresp hg hfail => exact hfree _ hnone (hb.counted.noGuess (hg.noGuess spares_key))
  | configFailed hresp hg hg' hfail =>
    exact hfree _ hnone (hb.counted.noGuess
      (trans_of NoGuess (hg.noGuess spares_key) (hg'.noGuess spares_config)))
  | done hretries hblob hg hg' hreset =>
    refine .of_none hreset.wrongTries fun cfg hcfg => ?_
    obtain rfl := Option.some.inj hcfg
    exact Nat.pos_of_ne_zero fun h0 => hretries (UInt8.toNat_inj.mp h0)

theorem InitProdCut.counted {req : InitReq} {f g : Flash} (hcut : InitProdCut P req f g)
    (hf : Counted f) : Counted g := by
  cases hcut with
  | key hg => exact hf.noGuess (hg.noGuess spares_key)
  | config hg hg' =>
    exact hf.noGuess (trans_of NoGuess (hg.noGuess spares_key) (hg'.noGuess spares_config))
  | resetting hg hg' hreset => exact .of_none hreset.wrongTries

/-- A session loaded from flash takes PINs only while the counter is below the limit. -/
theorem budgeted_loaded {h : Hsm P} {f : Flash} {cfg : Option DeviceConfig}
    {keyblob : Option KeyBlob} {time : Option Int64 × Bool} {attempts : Nat} (hf : Counted f)
    (hg : FlashWithin (fun _ => False) f h.flash)
    (hread : ReadAll P f.sector cfg keyblob time attempts) :
    Budgeted (h.loaded cfg keyblob time attempts) := by
  have hcounted := hf.noGuess (.of_within hg not_false not_false)
  obtain ⟨state, ca, kek, until_, hstate, heq⟩ := h.loaded_cases cfg keyblob time attempts
  rw [heq]
  cases hstate with
  | blank => exact .of_closed hcounted (not_takesPins (by simp) (by simp))
  | dev hmode => exact .of_closed hcounted (not_takesPins (by simp) (by simp))
  | lockedOut hmode => exact .of_closed hcounted (not_takesPins (by simp) (by simp))
  | locked hmode hroom =>
    refine ⟨hcounted, fun ht c' hc' => ?_⟩
    obtain rfl := Option.some.inj hc'
    have hkey : keyblob.isSome := by
      rcases ht with ht | ⟨-, hsome⟩
      · exact absurd ht (by simp)
      · rw [hread.key, ← hg.sector_eq]
        exact hsome
    have hused := hcounted.used
    rw [hg.sector_eq, ← hread.count _ rfl hmode] at hused
    exact lt_of_le_of_lt hused (hroom hkey)

theorem FactoryReset.budgeted {req : FactoryResetReq} {h h' : Hsm P} {resp : HsmResponse}
    (hf : FactoryReset req h resp h') (hok : ReadsOk h'.flash) (hb : Budgeted h) : Budgeted h' := by
  cases hf with
  | refused hresp => exact hb
  | gated hgate => exact hgate.budgeted hb
  | erased hgate hg hA hB =>
    exact .of_closed ((hgate.budgeted hb).counted.noGuess hg.noGuess)
      (not_takesPins (by simp [Hsm.afterReset]) (by simp [Hsm.afterReset]))
  | @incomplete _ h₁ g g' cfg keyblob time attempts hresp hgate hg hg' hread hfault =>
    refine budgeted_loaded ((hgate.budgeted hb).counted.noGuess hg.noGuess) hg' (hread (Or.inr ?_))
    obtain ⟨_, _, _, _, -, heq⟩ := Hsm.loaded_cases { h₁.dropLiveSecrets with flash := g' } cfg
      keyblob time attempts
    rw [heq] at hok
    exact hok

theorem FactoryResetStop.counted {req : FactoryResetReq} {h h' : Hsm P} {e : Halt}
    (hstop : FactoryResetStop req h e h') (hb : Budgeted h) : Counted h'.flash := by
  rcases hstop with hstop | ⟨-, h₁, hgate, hg⟩
  · exact hstop.counted hb
  · exact (hgate.budgeted hb).counted.noGuess hg.noGuess

/-- Every command keeps the budget, returned or cut. -/
theorem budgeted_run (c : Command) {h : Hsm P} (hb : Budgeted h) :
    Wp (c.run : Dev P HsmResponse) (fun _ h' => ReadsOk h'.flash → Budgeted h')
      (fun _ h' => Counted h'.flash) h := by
  -- commands whose footprint spares state, configuration, counter and key
  have hspared : ∀ {m : Dev P HsmResponse}, Stays (Within (fun x => x ≠ .state ∧ x ≠ .config)
      (fun r => r = some .timeA ∨ r = some .timeB)) m →
      Wp m (fun _ h' => ReadsOk h'.flash → Budgeted h') (fun _ h' => Counted h'.flash) h := by
    intro m hm
    refine (hm h).mono ?_ ?_
    · intro _ h' hw _
      exact hw.budgeted (by simp) (by simp) hb
    · intro _ h' hw
      exact (hw.budgeted (by simp) (by simp) hb).counted
  cases c with
  | init req =>
    refine (wp_init req h).mono ?_ ?_
    · rintro resp h' (rfl | ⟨hnone, ⟨-, hdev⟩ | ⟨-, hprod⟩⟩) -
      · exact hb
      · cases hdev with
        | refused => exact hb
        | failed hg hfail =>
          refine ⟨hb.counted.noGuess (hg.noGuess spares_config), fun _ cfg hcfg => ?_⟩
          exact absurd (hnone.symm.trans hcfg) (by simp)
        | done hg =>
          exact .of_closed (hb.counted.noGuess (hg.noGuess spares_config))
            (not_takesPins (by simp) (by simp))
      · exact hprod.budgeted hnone hb
    · rintro e h' ⟨-, -, ⟨-, hg⟩ | ⟨-, hcut⟩⟩
      · exact hb.counted.noGuess (hg.noGuess spares_config)
      · exact hcut.counted hb.counted
  | generateKey req =>
    refine (wp_generateKey req h).mono ?_ ?_
    · rintro resp h' (⟨rfl, -⟩ | ⟨hready, hr⟩) -
      · exact hb
      · have htakes : ∀ h' : Hsm P, h'.state = h.state → h'.TakesPins → h.TakesPins := by
          intro h' hstate ht
          rcases hready with hdev | hready
          · exact absurd ht (not_takesPins (by simp [hstate, hdev]) (by simp [hstate, hdev]))
          · exact Or.inl hready
        cases hr with
        | refused hrng hresp => exact hrng.budgeted hb
        | failed hresp hg hfail => exact hb.noGuess (hg.noGuess spares_key) (htakes _ rfl) rfl
        | done hblob hg => exact hb.noGuess (hg.noGuess spares_key) (htakes _ rfl) rfl
    · rintro e h' ⟨-, -, ⟨hblob, hg⟩⟩
      exact hb.counted.noGuess (hg.noGuess spares_key)
  | getPublicKey => exact hspared stays_getPublicKey
  | unlock req =>
    refine (wp_unlock req h).mono ?_ ?_
    · rintro resp h' hu -
      cases hu with
      | refused => exact hb
      | rejected hcfg hstate hv => exact hv.budgeted hcfg (Or.inl hstate) hb
      | opened hcfg hstate hv =>
        have hb₁ := hv.budgeted hcfg (Or.inl hstate) hb
        exact hb₁.noGuess (refl_of NoGuess _) (fun _ => hv.takesPins (Or.inl hstate)) rfl
    · rintro e h' ⟨hstate, hstop⟩
      exact hstop.counted (Or.inl hstate) hb
  | lock =>
    refine (wp_lock h).mono ?_ fun _ _ he => he.elim
    rintro resp h' (⟨hstate, -, rfl⟩ | ⟨hstate, -, rfl⟩ | ⟨-, rfl⟩) -
    · exact hb.noGuess (refl_of NoGuess _) (fun _ => Or.inl hstate) rfl
    · exact hb.noGuess (refl_of NoGuess _) (fun ht => ht.of_same rfl rfl) rfl
    · exact hb
  | setTime req => exact hspared (stays_setTime (by simp) (by simp) (by simp) (by simp) req)
  | status => exact hspared stays_status
  | changePin req =>
    refine (wp_changePin req h).mono ?_ ?_
    · rintro resp h' hp -
      cases hp with
      | refused hresp => exact hb
      | rejected hcfg hstate hv => exact hv.budgeted hcfg hstate hb
      | rewrapped hcfg hstate hv hr =>
        exact hr.budgeted (hv.takesPins hstate) (hv.budgeted hcfg hstate hb)
    · rintro e h' ⟨hstate, hstop | ⟨-, cfg, seed, kek, salt, h₁, hcfg, hv, hcut⟩⟩
      · exact hstop.counted hstate hb
      · exact hcut.counted (hv.budgeted hcfg hstate hb)
  | addEntropy req => exact hspared (stays_addEntropy req)
  | selfTest => exact hspared stays_selfTest
  | factoryReset req =>
    refine (wp_factoryReset req h).mono ?_ ?_
    · intro resp h' hf hok
      exact hf.budgeted hok hb
    · intro e h' hstop
      exact hstop.counted hb
  | rebootBootloader req =>
    refine (wp_rebootBootloader req h).mono ?_ ?_
    · rintro resp h' (⟨resp', hgate⟩ | ⟨h₁, hgate, rfl⟩) -
      · exact hgate.budgeted hb
      · have hb₁ := hgate.budgeted hb
        exact ⟨hb₁.counted, hb₁.room⟩
    · intro e h' hstop
      exact hstop.counted hb

/-! ### Erases of the counter -/

/-- Between `f` and `g` an erase of the counter was started only after a PIN that
    opened the key, unless `authorised` excuses it. -/
def Accounted (authorised : Prop) (f g : Flash) : Prop :=
  ∃ seg, g.journal = seg ++ f.journal ∧ ∀ newer older,
    seg = newer ++ .erase .pinCounter :: older → authorised ∨ ∃ limit, .tried limit true ∈ older

/-- A PIN opened the key between `f` and `g`. -/
def OpenedBetween (f g : Flash) : Prop :=
  ∃ seg limit, g.journal = seg ++ f.journal ∧ Entry.tried limit true ∈ seg

section Accounted

variable {authorised : Prop}

theorem Accounted.of_within {R : Option Region → Prop} {f g : Flash} (h : FlashWithin R f g)
    (hpin : ¬ R (some .pinCounter)) : Accounted authorised f g := by
  obtain ⟨seg, hseg, hin⟩ := h.journal
  refine ⟨seg, hseg, ?_⟩
  rintro newer older rfl
  exact absurd (hin (.erase .pinCounter) (by simp)) hpin

theorem Accounted.of_authorised {R : Option Region → Prop} {f g : Flash} (hauth : authorised)
    (h : FlashWithin R f g) : Accounted authorised f g := by
  obtain ⟨seg, hseg, -⟩ := h.journal
  exact ⟨seg, hseg, fun _ _ _ => Or.inl hauth⟩

theorem Ticks.accounted {f g : Flash} (h : Ticks f g) : Accounted authorised f g := by
  obtain ⟨seg, hseg, hin⟩ := h.journal
  refine ⟨seg, hseg, ?_⟩
  rintro newer older rfl
  exact absurd (hin (.erase .pinCounter) (by simp)) (by simp)

/-- An erase in a joined history is in one of its parts. -/
theorem split_erase {new seg newer older : List Entry} {e : Entry}
    (h : new ++ seg = newer ++ e :: older) :
    (∃ mid, seg = mid ++ e :: older) ∨ ∃ mid, new = newer ++ e :: mid ∧ older = mid ++ seg := by
  rcases List.append_eq_append_iff.mp h with ⟨mid, -, hold⟩ | ⟨mid, hnew, hold⟩
  · exact Or.inl ⟨mid, hold⟩
  · cases mid with
    | nil => exact Or.inl ⟨[], hold.symm⟩
    | cons e' mid =>
      obtain ⟨rfl, hrest⟩ := List.cons.inj hold
      exact Or.inr ⟨mid, hnew, hrest⟩

theorem Accounted.trans {f g h : Flash} (hfg : Accounted authorised f g)
    (hgh : Accounted authorised g h) : Accounted authorised f h := by
  obtain ⟨seg, hseg, hall⟩ := hfg
  obtain ⟨new, hnew, hall'⟩ := hgh
  refine ⟨new ++ seg, by rw [hnew, hseg, List.append_assoc], fun newer older heq => ?_⟩
  rcases split_erase heq with ⟨mid, hmid⟩ | ⟨mid, hmid, rfl⟩
  · exact hall mid older hmid
  · exact (hall' newer mid hmid).imp_right fun ⟨limit, hmem⟩ =>
      ⟨limit, List.mem_append_left _ hmem⟩

/-- Once a PIN has opened the key, whatever follows is accounted for. -/
theorem Accounted.after_opened {R : Option Region → Prop} {f g h : Flash}
    (hfg : Accounted authorised f g) (hopened : OpenedBetween f g) (hgh : FlashWithin R g h) :
    Accounted authorised f h := by
  obtain ⟨seg, hseg, hall⟩ := hfg
  obtain ⟨seg', limit, hseg', hmem⟩ := hopened
  obtain rfl := List.append_cancel_right (hseg'.symm.trans hseg)
  obtain ⟨new, hnew, -⟩ := hgh.journal
  refine ⟨new ++ seg', by rw [hnew, hseg, List.append_assoc], fun newer older heq => ?_⟩
  rcases split_erase heq with ⟨mid, hmid⟩ | ⟨mid, hmid, rfl⟩
  · exact hall mid older hmid
  · exact Or.inr ⟨limit, List.mem_append_right _ hmem⟩

theorem openedBetween_of_resets {f g g' : Flash} {limit : UInt8} (hg : Ticks f g)
    (hreset : Resets (g.log (.tried limit true)) g') : OpenedBetween f g' := by
  obtain ⟨seg, hseg, -⟩ := hg.journal
  obtain ⟨n, hn⟩ := hreset.journal
  refine ⟨List.replicate (n + 1) (.erase .pinCounter) ++ .tried limit true :: seg, limit, ?_,
    by simp⟩
  rw [hn]
  simp [Flash.log, hseg]

theorem accounted_opened {f g g' : Flash} {limit : UInt8} (hg : Ticks f g)
    (hreset : Resets (g.log (.tried limit true)) g') : Accounted authorised f g' := by
  obtain ⟨seg, hseg, hin⟩ := hg.journal
  have hlog : Accounted authorised f (g.log (.tried limit true)) := by
    refine ⟨.tried limit true :: seg, by simp [Flash.log, hseg], fun newer older heq => ?_⟩
    have hmem : Entry.erase .pinCounter ∈ .tried limit true :: seg := by
      rw [heq]
      simp
    rcases List.mem_cons.mp hmem with h | h
    · exact absurd h (by simp)
    · exact absurd (hin _ h) (by simp)
  refine hlog.after_opened ⟨.tried limit true :: seg, limit, ?_, List.mem_cons_self⟩ hreset.within
  simp [Flash.log, hseg]

theorem accounted_wrong {f g : Flash} {limit : UInt8} (hg : Ticks f g) :
    Accounted authorised f (g.log (.tried limit false)) := by
  have hinside : Entry.Inside (fun r => r = none) (.tried limit false) := rfl
  exact hg.accounted.trans (.of_within (FlashWithin.log hinside g) (by simp))

theorem Wipes.accounted {f g : Flash} (h : Wipes f g) : Accounted authorised f g :=
  .of_within h.within (by simp [KeyRegion])

theorem WrongPin.accounted {cfg : DeviceConfig} {attempts : Nat} {h h' : Hsm P}
    (hwrong : WrongPin cfg attempts h h') : Accounted authorised h.flash h'.flash := by
  cases hwrong with
  | retry => exact .of_within (refl_of (FlashWithin fun _ => False) _) not_false
  | lockout => exact .of_within (refl_of (FlashWithin fun _ => False) _) not_false
  | wipe until_ g pubkey hge hwipe hg hpubkey => exact hg.accounted

theorem Verified.accounted {cfg : DeviceConfig} {pin : Str} {h h' : Hsm P}
    {r : Except HsmResponse UnlockedSeed} (hv : Verified cfg pin h r h') :
    Accounted authorised h.flash h'.flash := by
  cases hv with
  | refused hg => exact hg.accounted
  | opened hg hopens hreset => exact accounted_opened hg hreset
  | wrong hg hblob htick hwrong => exact (accounted_wrong hg).trans hwrong.accounted

theorem Verified.openedBetween {cfg : DeviceConfig} {pin : Str} {h h' : Hsm P}
    {seed kek : Bytes 32} {salt : Bytes 16}
    (hv : Verified cfg pin h (.ok (seed, kek, salt)) h') : OpenedBetween h.flash h'.flash := by
  cases hv with
  | opened hg hopens hreset => exact openedBetween_of_resets hg hreset

theorem VerifyStop.accounted {pin : Str} {h h' : Hsm P} {e : Halt}
    (hstop : VerifyStop pin h e h') : Accounted authorised h.flash h'.flash := by
  rcases hstop with ⟨-, -, rfl⟩ | ⟨-, cfg, -, hcut⟩
  · exact .of_within (refl_of (FlashWithin fun _ => False) _) not_false
  · cases hcut with
    | ticking hg => exact hg.accounted
    | resetting hg hopens hreset => exact accounted_opened hg hreset
    | wiping hg hblob htick hge hwipe hg' => exact (accounted_wrong hg).trans hg'.accounted

theorem Wrote.accounted {pair : AbPair} {payload : Octets} {f g : Flash}
    (h : Wrote P pair payload f g) (hpair : pair.SparesCounter) : Accounted authorised f g :=
  .of_within h.within (hpair.target _)

theorem WriteStopped.accounted {pair : AbPair} {payload : Octets} {f g : Flash}
    (h : WriteStopped P pair payload f g) (hpair : pair.SparesCounter) : Accounted authorised f g :=
  .of_within h.within (hpair.target _)

end Accounted

/-- The session lets a `factoryReset` through without a PIN. -/
def Hsm.ResetAuthorised (h : Hsm P) : Prop :=
  h.physicalRecoveryAuthorized = true ∨ h.state = .uninitialized ∨ h.state = .devReady

/-- The commands that may start an erase of the counter without a PIN. -/
def Command.Authorised (h : Hsm P) : Command → Prop
  | .init req => req.mode = modeProd ∧ h.config = none
  | .factoryReset req => req.confirm = confirmErase ∧ h.ResetAuthorised
  | _ => False

/-- Behind the gate of a `factoryReset` everything is accounted for. -/
theorem Gate.accounted {pin : Option Str} {h h₁ : Hsm P} {r : Option HsmResponse}
    {authorised : Prop} (hgate : Gate pin h r h₁) : Accounted authorised h.flash h₁.flash := by
  cases hgate with
  | free => exact .of_within (refl_of (FlashWithin fun _ => False) _) not_false
  | physical => exact .of_within (refl_of (FlashWithin fun _ => False) _) not_false
  | verified hpin hstate hcfg hv => exact hv.accounted
  | refused => exact .of_within (refl_of (FlashWithin fun _ => False) _) not_false
  | rejected hpin hstate hcfg hv => exact hv.accounted

theorem Gate.erases_accounted {pin : Option Str} {h h₁ : Hsm P} {g : Flash} {authorised : Prop}
    (hgate : Gate pin h none h₁) (hauth : h.ResetAuthorised → authorised) (hg : Erases h₁.flash g) :
    Accounted authorised h.flash g := by
  cases hgate with
  | free hstate => exact .of_authorised (hauth (Or.inr hstate)) hg.within
  | physical hphysical => exact .of_authorised (hauth (Or.inl hphysical)) hg.within
  | verified hpin hstate hcfg hv => exact hv.accounted.after_opened hv.openedBetween hg.within

theorem wp_factoryReset_unconfirmed {req : FactoryResetReq} (hconfirm : req.confirm ≠ confirmErase)
    (h : Hsm P) : Wp (hsmFactoryReset req) (fun _ h' => h' = h) (fun _ _ => False) h := by
  unfold hsmFactoryReset
  rw [if_pos hconfirm]
  rfl

theorem Hsm.flash_loaded (h : Hsm P) (cfg : Option DeviceConfig) (keyblob : Option KeyBlob)
    (time : Option Int64 × Bool) (attempts : Nat) :
    (h.loaded cfg keyblob time attempts).flash = h.flash := by
  obtain ⟨_, _, _, _, -, heq⟩ := h.loaded_cases cfg keyblob time attempts
  rw [heq]

theorem accounted_factoryReset (req : FactoryResetReq) (h : Hsm P) :
    Wp (hsmFactoryReset req)
      (fun _ h' => Accounted (Command.Authorised h (.factoryReset req)) h.flash h'.flash)
      (fun _ h' => Accounted (Command.Authorised h (.factoryReset req)) h.flash h'.flash) h := by
  have hrefl : ∀ auth : Prop, Accounted auth h.flash h.flash := fun _ =>
    .of_within (refl_of (FlashWithin fun _ => False) _) not_false
  by_cases hconfirm : req.confirm = confirmErase
  · have hauth : h.ResetAuthorised → Command.Authorised h (.factoryReset req) := fun ha =>
      ⟨hconfirm, ha⟩
    refine (wp_factoryReset req h).mono ?_ ?_
    · intro resp h' hf
      cases hf with
      | refused => exact hrefl _
      | gated hgate => exact hgate.accounted
      | erased hgate hg hA hB => exact hgate.erases_accounted hauth hg
      | incomplete hresp hgate hg hg' hread hfault =>
        rw [Hsm.flash_loaded]
        exact (hgate.erases_accounted hauth hg).trans (.of_within hg' not_false)
    · rintro e h' (⟨p, -, -, hstop⟩ | ⟨-, h₁, hgate, hg⟩)
      · exact hstop.accounted
      · exact hgate.erases_accounted hauth hg
  · refine (wp_factoryReset_unconfirmed hconfirm h).mono ?_ fun _ _ he => he.elim
    rintro _ _ rfl
    exact hrefl _

theorem Rewrapped.within {newPin : Str} {wasReady : Bool} {seed : Bytes 32} {h h' : Hsm P}
    {resp : HsmResponse} (hr : Rewrapped newPin wasReady seed h resp h') :
    FlashWithin (fun _ => True) h.flash h'.flash := by
  cases hr with
  | refused hrng hresp =>
    obtain ⟨drbg, entropy, rfl⟩ := hrng.exists
    exact refl_of (FlashWithin _) _
  | failed hresp hg hfail => exact hg.within.mono fun _ _ => trivial
  | done hblob hg hreset =>
    exact trans_of (FlashWithin _) (hg.within.mono fun _ _ => trivial)
      (hreset.within.mono fun _ _ => trivial)

theorem RewrapCut.within {newPin : Str} {seed : Bytes 32} {h : Hsm P} {g : Flash}
    (hcut : RewrapCut newPin seed h g) : FlashWithin (fun _ => True) h.flash g := by
  cases hcut with
  | writing hblob hg => exact hg.within.mono fun _ _ => trivial
  | resetting hblob hg hreset =>
    exact trans_of (FlashWithin _) (hg.within.mono fun _ _ => trivial)
      (hreset.within.mono fun _ _ => trivial)

/-- No command starts an erase of the counter that is not accounted for. -/
theorem accounted_run (c : Command) (h : Hsm P) :
    Wp (c.run : Dev P HsmResponse) (fun _ h' => Accounted (c.Authorised h) h.flash h'.flash)
      (fun _ h' => Accounted (c.Authorised h) h.flash h'.flash) h := by
  have hrefl : ∀ auth : Prop, Accounted auth h.flash h.flash := fun _ =>
    .of_within (refl_of (FlashWithin fun _ => False) _) not_false
  have hspared : ∀ {m : Dev P HsmResponse},
      Stays (Within (fun _ => True) fun r => r ≠ some .pinCounter) m →
      Wp m (fun _ h' => Accounted (c.Authorised h) h.flash h'.flash)
        (fun _ h' => Accounted (c.Authorised h) h.flash h'.flash) h := fun hm =>
    (hm h).mono (fun _ _ hw => .of_within hw.flash (by simp))
      fun _ _ hw => .of_within hw.flash (by simp)
  cases c with
  | init req =>
    by_cases hauth : req.mode = modeProd ∧ h.config = none
    · refine (stays_init (F := fun _ => True) (R := fun _ => True) (by constructor <;> trivial)
        trivial trivial trivial req h).mono ?_ ?_ <;>
        exact fun _ _ hw => .of_authorised hauth hw.flash
    · refine (wp_init req h).mono ?_ ?_
      · rintro resp h' (rfl | ⟨hnone, ⟨-, hdev⟩ | ⟨hmode, -⟩⟩)
        · exact hrefl _
        · cases hdev with
          | refused => exact hrefl _
          | failed hg hfail => exact hg.accounted spares_config
          | done hg => exact Wrote.accounted hg spares_config
        · exact absurd ⟨hmode, hnone⟩ hauth
      · rintro e h' ⟨-, hnone, ⟨-, hg⟩ | ⟨hmode, -⟩⟩
        · exact hg.accounted spares_config
        · exact absurd ⟨hmode, hnone⟩ hauth
  | generateKey req => exact hspared (stays_generateKey (by simp) (by simp) trivial trivial req)
  | getPublicKey => exact hspared stays_getPublicKey
  | unlock req =>
    refine (wp_unlock req h).mono ?_ fun _ _ hstop => hstop.2.accounted
    intro resp h' hu
    cases hu with
    | refused => exact hrefl _
    | rejected hcfg hstate hv => exact hv.accounted
    | opened hcfg hstate hv => exact hv.accounted
  | lock => exact hspared (stays_lock trivial trivial)
  | setTime req => exact hspared (stays_setTime trivial trivial (by simp) (by simp) req)
  | status => exact hspared stays_status
  | changePin req =>
    refine (wp_changePin req h).mono ?_ ?_
    · intro resp h' hp
      cases hp with
      | refused hresp => exact hrefl _
      | rejected hcfg hstate hv => exact hv.accounted
      | rewrapped hcfg hstate hv hr =>
        exact hv.accounted.after_opened hv.openedBetween hr.within
    · rintro e h' ⟨-, hstop | ⟨-, cfg, seed, kek, salt, h₁, hcfg, hv, hcut⟩⟩
      · exact hstop.accounted
      · exact hv.accounted.after_opened hv.openedBetween hcut.within
  | addEntropy req => exact hspared (stays_addEntropy req)
  | selfTest => exact hspared stays_selfTest
  | factoryReset req => exact accounted_factoryReset req h
  | rebootBootloader req =>
    refine (wp_rebootBootloader req h).mono ?_ ?_
    · rintro resp h' (⟨resp', hgate⟩ | ⟨h₁, hgate, rfl⟩)
      · exact hgate.accounted
      · exact hgate.accounted
    · rintro e h' ⟨p, -, -, hstop⟩
      exact hstop.accounted

/-! ### Every run -/

/-- The invariant of a run, powered or not, as long as no read has failed. -/
def BudgetInvariant (s : Sys P) : Prop :=
  ReadsOk s.flash → Counted s.flash ∧ ∀ h, s = .on h → Budgeted h

theorem BudgetInvariant.on {h : Hsm P} (hb : ReadsOk h.flash → Budgeted h) :
    BudgetInvariant (.on h) := by
  intro hok
  refine ⟨(hb hok).counted, ?_⟩
  rintro _ heq
  obtain rfl := Sys.on.inj heq
  exact hb hok

theorem BudgetInvariant.off {f : Flash} (hf : ReadsOk f → Counted f) :
    BudgetInvariant (P := P) (.off f) := fun hok => ⟨hf hok, fun _ heq => nomatch heq⟩

theorem Accounted.journal_subset {authorised : Prop} {f g : Flash} (h : Accounted authorised f g) :
    f.journal ⊆ g.journal := by
  obtain ⟨seg, hseg, -⟩ := h
  rw [hseg]
  exact List.subset_append_right _ _

theorem Budgeted.facing {h : Hsm P} (hb : Budgeted h) (faults : List Fault) :
    Budgeted (h.facing faults) := ⟨⟨hb.counted.used, hb.counted.bounded⟩, hb.room⟩

/-- A relocked session takes no PIN that the session before did not take. -/
theorem Budgeted.relock {h : Hsm P} (hb : Budgeted h) : Budgeted h.relockOnTransportReset := by
  unfold Hsm.relockOnTransportReset
  dsimp only
  split
  · split
    · rename_i hready
      exact hb.noGuess (refl_of NoGuess _) (fun _ => Or.inl hready) rfl
    · exact hb.noGuess (refl_of NoGuess _) (fun ht => ht.of_same rfl rfl) rfl
  · exact hb

theorem BudgetInvariant.step {s s' : Sys P} {e : Event} {resp : Option Response}
    (hinv : BudgetInvariant s) (hstep : Stepped s e resp s') : BudgetInvariant s' := by
  cases hstep with
  | @booted s p h hboot =>
    obtain ⟨drbg, entropy, g, cfg, keyblob, time, attempts, rfl, hg, hread⟩ := hboot
    refine .on fun hok => ?_
    have hokg : ReadsOk g := by
      change ReadsOk ((Hsm.fresh entropy p.mono g drbg).loaded cfg keyblob time attempts).flash at hok
      rwa [Hsm.flash_loaded] at hok
    have hf : Counted (p.flash s.flash) := by
      obtain ⟨hcounted, -⟩ := hinv (hokg.older hg.journal_subset)
      exact ⟨hcounted.used, hcounted.bounded⟩
    have hloaded := budgeted_loaded (h := Hsm.fresh entropy p.mono g drbg) hf hg
      (hread (Or.inr hokg))
    exact ⟨hloaded.counted, hloaded.room⟩
  | @bootCut s p g hcut hg =>
    refine .off fun hok => ?_
    obtain ⟨hcounted, -⟩ := hinv (hok.older hg.journal_subset)
    have hf : Counted (p.flash s.flash) := ⟨hcounted.used, hcounted.bounded⟩
    exact hf.noGuess (.of_within hg not_false not_false)
  | unpowered hno => exact hinv
  | @drew h h' _ faults _ hc hrun hrng =>
    refine .on fun hok => ?_
    obtain ⟨drbg, entropy, rfl⟩ := hrng.exists
    have hb := (hinv hok).2 h rfl
    exact ⟨(hb.facing faults).counted, (hb.facing faults).room⟩
  | @served h h' _ faults c _ hc hrun =>
    refine .on fun hok => ?_
    have hold := hok.older ((accounted_run c (h.facing faults)).of_ok hrun).journal_subset
    have hb := (hinv hold).2 h rfl
    exact (budgeted_run c (hb.facing faults)).of_ok hrun hok
  | @cut h h' _ faults c _ hc hrun =>
    refine .off fun hok => ?_
    have hold := hok.older ((accounted_run c (h.facing faults)).of_error hrun).journal_subset
    have hb := (hinv hold).2 h rfl
    exact (budgeted_run c (hb.facing faults)).of_error hrun
  | @relocked h =>
    refine .on fun hok => ?_
    have hflash : h.relockOnTransportReset.flash = h.flash := by
      unfold Hsm.relockOnTransportReset
      dsimp only
      split
      · split <;> rfl
      · rfl
    rw [hflash] at hok
    exact ((hinv hok).2 h rfl).relock
  | @advanced h =>
    refine .on fun hok => ?_
    have hb := (hinv hok).2 h rfl
    exact ⟨hb.counted, hb.room⟩
  | @quiet h =>
    refine .on fun hok => ?_
    have hb := (hinv hok).2 h rfl
    exact ⟨hb.counted, hb.room⟩

/-- A moment in which an erase of the counter may start without a PIN: a
    production init of a blank device, or an authorised factory reset. -/
def Moment.MayErase (m : Moment P) : Prop :=
  ∃ h bytes faults c, m.before = .on h ∧ m.event = .line bytes faults ∧
    lineCommand P bytes = some c ∧ c.Authorised h

theorem Stepped.accounted {s s' : Sys P} {e : Event} {resp : Option Response}
    (hstep : Stepped s e resp s') :
    Accounted (Moment.MayErase ⟨e, s, resp, s'⟩) s.flash s'.flash := by
  have hsame : ∀ {auth : Prop} {f g : Flash}, g.journal = f.journal → Accounted auth f g := by
    intro auth f g heq
    exact ⟨[], heq, fun newer older h => by simp at h⟩
  cases hstep with
  | @booted s p h hboot =>
    obtain ⟨drbg, entropy, g, cfg, keyblob, time, attempts, rfl, hg, hread⟩ := hboot
    have hflash : (Sys.on (p.latch ((Hsm.fresh entropy p.mono g drbg).loaded cfg keyblob time
        attempts))).flash = g := Hsm.flash_loaded _ _ _ _ _
    rw [hflash]
    exact .of_within (f := p.flash s.flash) hg not_false
  | @bootCut s p g hcut hg => exact .of_within (f := p.flash s.flash) hg not_false
  | unpowered hno => exact hsame rfl
  | @drew h h' _ faults _ hc hrun hrng =>
    obtain ⟨drbg, entropy, rfl⟩ := hrng.exists
    exact hsame rfl
  | @served h h' bytes faults c _ hc hrun =>
    obtain ⟨seg, hseg, hall⟩ := (accounted_run c (h.facing faults)).of_ok hrun
    refine ⟨seg, hseg, fun newer older heq => (hall newer older heq).imp_left fun hauth => ?_⟩
    exact ⟨h, bytes, faults, c, rfl, rfl, hc, by cases c <;> exact hauth⟩
  | @cut h h' bytes faults c _ hc hrun =>
    obtain ⟨seg, hseg, hall⟩ := (accounted_run c (h.facing faults)).of_error hrun
    refine ⟨seg, hseg, fun newer older heq => (hall newer older heq).imp_left fun hauth => ?_⟩
    exact ⟨h, bytes, faults, c, rfl, rfl, hc, by cases c <;> exact hauth⟩
  | @relocked h =>
    refine hsame ?_
    change h.relockOnTransportReset.flash.journal = h.flash.journal
    unfold Hsm.relockOnTransportReset
    dsimp only
    split
    · split <;> rfl
    · rfl
  | advanced => exact hsame rfl
  | quiet he => exact hsame rfl

/-- Along every run whose reads do not fail, the wrong PINs tried since the last
    started erase of the counter are at most the retry limit in force at the newest
    of them, and a session that would try another has fewer than its configuration
    allows.  Such an erase starts only after a PIN that opened the key, in a
    production init, or in an authorised factory reset. -/
theorem pin_guess_budget {image : Flash} {hist : List (Moment P)} {s : Sys P}
    (hrun : Run image hist s) (himage : image.journal = []) (hreads : ReadsOk s.flash) :
    (∀ limit, (wrongTries s.flash.journal).head? = some limit →
      (wrongTries s.flash.journal).length ≤ limit.toNat) ∧
    (∀ h cfg, s = .on h → h.TakesPins → h.config = some cfg →
      (wrongTries h.flash.journal).length < cfg.maxRetries.toNat) ∧
    ∀ m ∈ hist, ∀ seg newer older, m.after.flash.journal = seg ++ m.before.flash.journal →
      seg = newer ++ .erase .pinCounter :: older →
      m.MayErase ∨ ∃ limit, .tried limit true ∈ older := by
  have hinv : BudgetInvariant s := by
    refine hrun.induct (I := fun _ s => BudgetInvariant s) (.off fun _ => ?_) ?_
    · exact .of_none (by rw [himage]; rfl)
    · intro _ _ _ _ _ hinv hstep
      exact hinv.step hstep
  refine ⟨(hinv hreads).1.bounded, ?_, ?_⟩
  · intro h cfg hs htakes hcfg
    exact ((hinv hreads).2 h hs).room htakes cfg hcfg
  · refine hrun.induct (I := fun hist _ => ∀ m ∈ hist, ∀ seg newer older,
      m.after.flash.journal = seg ++ m.before.flash.journal →
      seg = newer ++ .erase .pinCounter :: older →
      m.MayErase ∨ ∃ limit, .tried limit true ∈ older) (by simp) ?_
    intro hist s s' e resp hall hstep m hm seg newer older hseg hsplit
    rcases List.mem_cons.mp hm with rfl | hm
    · obtain ⟨seg', hseg', hacc⟩ := hstep.accounted
      obtain rfl := List.append_cancel_right (hseg.symm.trans hseg')
      exact hacc newer older hsplit
    · exact hall m hm seg newer older hseg hsplit

/-- A bench host that guesses a wrong PIN. -/
abbrev Bench.guessing : Prims := .bench [Bench.unlock ['0', '0', '0', '0', '0', '0']]

def Bench.guess : List (Moment Bench.guessing) × Sys Bench.guessing :=
  replay Bench.prodImage [Bench.send 0, .boot Bench.dryPower]

/-- One wrong guess on the bench device counts against its limit of three. -/
theorem pin_guess_budget_bench :
    wrongTries Bench.guess.2.flash.journal = [3] ∧
      (wrongTries Bench.guess.2.flash.journal).length ≤ (3 : UInt8).toNat := by
  obtain ⟨htries, hok⟩ : wrongTries Bench.guess.2.flash.journal = [3] ∧
      Bench.guess.2.flash.journal.all (fun e => !e.isReadError) = true := by decide +kernel
  have hrun : Run Bench.prodImage Bench.guess.1 Bench.guess.2 := run_replay _ _
  exact ⟨htries, (pin_guess_budget hrun rfl (readsOk_of_all hok)).1 3 (by rw [htries]; rfl)⟩

end PicoSignet
