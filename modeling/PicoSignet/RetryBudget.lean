/-
  PicoSignet/RetryBudget.lean
  ===========================
  **The retry budget that is reported** — `status` reads it off the counter sector,
  the lockout is a state in RAM.  A wrong PIN moves the two together and a boot
  brings them together; an attempt that is counted and then not judged moves only
  the counter.  `BudgetAgrees` is what holds of a production session as long as no
  such attempt spends the last of the budget.
-/
import PicoSignet.Backoff
import PicoSignet.Lockout
import PicoSignet.PinBudget

set_option autoImplicit false

namespace PicoSignet

open Crash

variable {P : Prims}

/-! ### Sessions that take PINs -/

theorem Hsm.IsProd.takesPins_or {h : Hsm P} (hprod : h.IsProd) (hshape : h.Shaped)
    (hkey : (storedKey P h.flash.sector).isSome) : h.state = .lockedOut ∨ h.TakesPins := by
  rcases hshape.consistent.prod.mpr hprod with hstate | hstate | hstate
  · exact Or.inr (Or.inr ⟨hstate, hkey⟩)
  · exact Or.inr (Or.inl hstate)
  · exact Or.inl hstate

theorem Hsm.TakesPins.not_lockedOut {h : Hsm P} (ht : h.TakesPins) : h.state ≠ .lockedOut := by
  rcases ht with hstate | ⟨hstate, -⟩ <;> rw [hstate] <;> decide

theorem Verified.takesPins_of {cfg : DeviceConfig} {pin : Str} {h h' : Hsm P}
    {r : Except HsmResponse UnlockedSeed} (hv : Verified cfg pin h r h')
    (hstate : h.state = .prodLocked ∨ h.state = .prodReady) (ht : h'.TakesPins) : h.TakesPins := by
  cases hv with
  | refused hg => exact ht.of_same rfl hg.storedKey
  | opened hg hopens hreset => exact takesPins_of_key hstate hopens.isSome
  | wrong hg hblob htick hwrong => exact takesPins_of_key hstate hblob

theorem Gate.takesPins_of {pin : Option Str} {h h' : Hsm P} {r : Option HsmResponse}
    (hgate : Gate pin h r h') (ht : h'.TakesPins) : h.TakesPins := by
  cases hgate with
  | free hstate => exact ht
  | physical hphysical => exact ht
  | verified hpin hstate hcfg hv => exact hv.takesPins_of hstate ht
  | refused => exact ht
  | rejected hpin hstate hcfg hv => exact hv.takesPins_of hstate ht

theorem Within.takesPins_of {F : Field → Prop} {R : Option Region → Prop} {h h' : Hsm P}
    (hw : Within F R h h') (hF : ¬ F .state) (hA : ¬ R (some .keyA)) (hB : ¬ R (some .keyB))
    (ht : h'.TakesPins) : h.TakesPins :=
  ht.of_same (hw.same .state hF) (storedKey_within hw.flash hA hB)

theorem OnlyRng.takesPins_of {h h' : Hsm P} (hrng : OnlyRng h h') (ht : h'.TakesPins) :
    h.TakesPins := by
  rw [hrng] at ht
  exact ht

/-- Over working flash no command makes a production session take PINs. -/
theorem takesPins_of_run {c : Command} {h h' : Hsm P} {resp : HsmResponse}
    (hshape : h.Shaped) (hprod : h.IsProd) (hfaults : Faultless h.flash.faults)
    (hrun : c.run h = .ok resp h') (ht : h'.TakesPins) : h.TakesPins := by
  have hno : ¬ ∃ left, Fault.fail left ∈ h.flash.faults := not_exists.mpr hfaults.no_fail
  cases c with
  | init req =>
    rcases (wp_init req h).of_ok hrun with rfl | ⟨hnone, -⟩
    · exact ht
    · rw [Hsm.IsProd, hnone] at hprod
      cases hprod
  | generateKey req =>
    rcases (wp_generateKey req h).of_ok hrun with ⟨rfl, -⟩ | ⟨hdev | hready, -⟩
    · exact ht
    · have hmode := hshape.consistent.dev.mp hdev
      rw [Hsm.IsProd, hmode] at hprod
      cases hprod
    · exact Or.inl hready
  | getPublicKey =>
    exact ((stays_getPublicKey h).of_ok hrun : Within (fun _ => False) (fun _ => False) h h')
      |>.takesPins_of id id id ht
  | unlock req =>
    cases (wp_unlock req h).of_ok hrun with
    | refused => exact ht
    | rejected hcfg hstate hv => exact hv.takesPins_of (Or.inl hstate) ht
    | opened hcfg hstate hv =>
      cases hv with
      | opened hg hopens hreset => exact takesPins_of_key (Or.inl hstate) hopens.isSome
  | lock =>
    rcases (wp_lock h).of_ok hrun with ⟨hready, -⟩ | ⟨-, -, rfl⟩ | ⟨-, rfl⟩
    · exact Or.inl hready
    · exact ht
    · exact ht
  | setTime req =>
    have hw : Within (fun x => x = .clock ∨ x = .floor)
        (fun r => r = some .timeA ∨ r = some .timeB) h h' :=
      (stays_setTime (Or.inl rfl) (Or.inr rfl) (Or.inl rfl) (Or.inr rfl) req h).of_ok hrun
    exact hw.takesPins_of (by simp) (by simp) (by simp) ht
  | status =>
    exact ((stays_status h).of_ok hrun : Within (fun _ => False) (fun _ => False) h h')
      |>.takesPins_of id id id ht
  | changePin req =>
    cases (wp_changePin req h).of_ok hrun with
    | refused => exact ht
    | rejected hcfg hstate hv => exact hv.takesPins_of hstate ht
    | rewrapped hcfg hstate hv hr =>
      cases hv with
      | opened hg hopens hreset => exact takesPins_of_key hstate hopens.isSome
  | addEntropy req =>
    exact ((stays_addEntropy req h).of_ok hrun : Within (fun _ => False) (fun _ => False) h h')
      |>.takesPins_of id id id ht
  | selfTest =>
    exact ((stays_selfTest h).of_ok hrun : Within (fun _ => False) (fun _ => False) h h')
      |>.takesPins_of id id id ht
  | factoryReset req =>
    cases (wp_factoryReset req h).of_ok hrun with
    | refused => exact ht
    | gated hgate => exact hgate.takesPins_of ht
    | erased hgate hg hA hB => exact absurd ht (not_takesPins (by simp [Hsm.afterReset]) (by simp [Hsm.afterReset]))
    | incomplete hresp hgate hg hg' hread hfault => exact absurd (hfaults.of_suffix hgate.faults) hfault
  | rebootBootloader req =>
    rcases (wp_rebootBootloader req h).of_ok hrun with ⟨resp, hgate⟩ | ⟨h₁, hgate, rfl⟩
    · exact hgate.takesPins_of ht
    · exact hgate.takesPins_of ht

/-! ### The invariant -/

/-- The lockout is where the budget ends: a locked-out session has used it up, and one
    that takes PINs has not. -/
def BudgetAgrees (h : Hsm P) : Prop :=
  ∀ cfg, h.config = some cfg → cfg.mode = .prod →
    (h.state = .lockedOut → cfg.maxRetries.toNat ≤ h.attempts) ∧
      (h.TakesPins → h.attempts < cfg.maxRetries.toNat)

theorem BudgetAgrees.not_prod {h : Hsm P} (hno : ¬ h.IsProd) : BudgetAgrees h := by
  intro cfg hcfg hmode
  exfalso
  apply hno
  rw [Hsm.IsProd, hcfg, ← hmode]
  rfl

/-- The PIN is not judged, and counting it spends the last of the budget. -/
def Hsm.WastesLast (h : Hsm P) (pin : Str) : Prop :=
  h.TakesPins ∧ ∃ cfg resp, h.config = some cfg ∧ Unjudged P cfg pin h.flash resp ∧
    cfg.maxRetries.toNat ≤ Pin.next h.attempts

/-- No attempt of this moment spends the last of the budget without being judged. -/
def Moment.KeepsLast (m : Moment P) : Prop :=
  ∀ h bytes faults c pin, m.before = .on h → m.event = .line bytes faults →
    lineCommand P bytes = some c → Hands h c pin → ¬ h.Waits → ¬ h.WastesLast pin

theorem Hsm.attempts_rejected {h : Hsm P} (hfilled : Pin.Filled (h.flash.sector .pinCounter))
    (cfg : DeviceConfig) : (h.rejected cfg).attempts = Pin.next h.attempts := by
  obtain ⟨-, -, hsector, -⟩ := h.rejected_delay cfg
  unfold Hsm.attempts
  rw [hsector]
  exact (Flash.filled_ticked hfilled).1

theorem Hsm.config_rejected (h : Hsm P) (cfg : DeviceConfig) : (h.rejected cfg).config = h.config := by
  unfold Hsm.rejected
  split
  · split <;> rfl
  · rfl

/-- A wrong PIN locks the session out exactly when it is the last of the budget. -/
theorem Hsm.rejected_lockedOut_iff {h : Hsm P} (cfg : DeviceConfig) (hopen : h.state ≠ .lockedOut) :
    (h.rejected cfg).state = .lockedOut ↔ cfg.maxRetries.toNat ≤ Pin.next h.attempts := by
  unfold Hsm.rejected
  split
  · rename_i hge
    split <;> exact iff_of_true rfl hge
  · rename_i hlt
    exact iff_of_false hopen hlt

section Step

variable {h h' : Hsm P} {c : Command} {resp : HsmResponse}

theorem BudgetAgrees.kept (hb : BudgetAgrees h) (hkept : CounterKept h h')
    (htakes : h.IsProd → h'.TakesPins → h.TakesPins) : BudgetAgrees h' := by
  intro cfg hcfg hmode
  have hprod : h'.config.map DeviceConfig.mode = some .prod := by
    rw [hcfg, ← hmode]
    rfl
  obtain ⟨hconfig, -, hlocked⟩ := hkept.session hprod
  have hattempts : h'.attempts = h.attempts := congrArg Pin.used hkept.sector
  obtain ⟨hout, hroom⟩ := hb cfg (hconfig ▸ hcfg) hmode
  rw [hattempts]
  refine ⟨fun hstate => hout (hlocked.mp hstate), fun ht => hroom (htakes ?_ ht)⟩
  rw [Hsm.IsProd, ← hconfig]
  exact hprod

theorem BudgetAgrees.cleared (hb : BudgetAgrees h) (hclear : CounterCleared h h')
    (hwhy : StartsOver h c h') : BudgetAgrees h' := by
  intro cfg hcfg hmode
  have hattempts : h'.attempts = 0 := by
    unfold Hsm.attempts
    rw [hclear.erased]
    exact Pin.used_erased
  refine ⟨fun hstate => absurd hstate hclear.state, fun _ => ?_⟩
  rw [hattempts]
  cases hwhy with
  | opened hatt hkey hconfig =>
    rcases hconfig with hconfig | hconfig
    · obtain ⟨pin, hands, -⟩ := hatt
      have hroom := (hb cfg (hconfig ▸ hcfg) hmode).2 (takesPins_of_key hands.state hkey)
      exact Nat.zero_lt_of_lt hroom
    · rw [hconfig] at hcfg
      cases hcfg
  | reset huntried hconfig =>
    rw [hconfig] at hcfg
    cases hcfg
  | provisioned huntried hnone hretries => exact hretries cfg hcfg

theorem BudgetAgrees.failed (hb : BudgetAgrees h)
    (hfilled : Pin.Filled (h.flash.sector .pinCounter)) {pin : Str} {cfg : DeviceConfig}
    (hands : Hands h c pin) (hcfg : h.config = some cfg)
    (hatt : Attempt cfg pin h (.error resp) h') (hlast : ¬ h.Waits → ¬ h.WastesLast pin) :
    BudgetAgrees h' := by
  have hopen : h.state ≠ .lockedOut := by
    rcases hands.state with hstate | hstate <;> rw [hstate] <;> decide
  intro cfg' hcfg' hmode
  cases hatt with
  | busy hwaits => exact hb cfg' hcfg' hmode
  | unjudged hpast hwhy =>
    have hsame : h.ticked.TakesPins → h.TakesPins := fun ht =>
      ht.of_same rfl (Flash.storedKey_ticked P h.flash)
    obtain rfl := Option.some.inj (hcfg.symm.trans hcfg')
    refine ⟨fun hstate => absurd hstate hopen, fun ht => ?_⟩
    rw [Hsm.attempts_ticked hfilled]
    by_contra hge
    exact hlast hpast ⟨hsame ht, cfg, resp, hcfg, hwhy, Nat.not_lt.mp hge⟩
  | rejected hpast hrejects =>
    rw [Hsm.config_rejected] at hcfg'
    obtain rfl := Option.some.inj (hcfg.symm.trans hcfg')
    rw [Hsm.attempts_rejected hfilled]
    have hiff := Hsm.rejected_lockedOut_iff cfg hopen
    refine ⟨hiff.mp, fun ht => ?_⟩
    exact Nat.not_le.mp fun hge => ht.not_lockedOut (hiff.mpr hge)

end Step

theorem PoweredUp.not_prodReady {f : Flash} {p : PowerUp} {h : Hsm P} (hboot : PoweredUp f p h) :
    h.state ≠ .prodReady := by
  obtain ⟨drbg, entropy, g, cfg, keyblob, time, attempts, rfl, -, -⟩ := hboot
  obtain ⟨state, ca, kek, until_, hstate, heq⟩ :=
    (Hsm.fresh entropy p.mono g drbg).loaded_cases cfg keyblob time attempts
  rw [heq]
  change state ≠ .prodReady
  cases hstate <;> decide

theorem BudgetAgrees.booted {f : Flash} {p : PowerUp} {h : Hsm P} (hboot : PoweredUp f p h)
    (hfaults : Faultless p.faults) : BudgetAgrees h := by
  obtain ⟨hconfig, hsector, hiff⟩ := hboot.lockout hfaults
  intro c hc hmode
  unfold Hsm.attempts
  rw [hsector]
  refine ⟨fun hout => ?_, fun ht => ?_⟩
  · obtain ⟨c', hc', -, -, hspent⟩ := hiff.mp hout
    obtain rfl := Option.some.inj (hc'.symm.trans (hconfig.symm.trans hc))
    exact hspent
  · by_contra hge
    apply ht.not_lockedOut
    apply hiff.mpr
    refine ⟨c, hconfig.symm.trans hc, hmode, ?_, Nat.not_lt.mp hge⟩
    rw [← hsector]
    rcases ht with hready | ⟨-, hkey⟩
    · exact absurd hready hboot.not_prodReady
    · exact hkey

/-- The counter has no gap, and the budget agrees in the session that runs. -/
def LedgerInvariant (s : Sys P) : Prop :=
  Pin.Filled (s.flash.sector .pinCounter) ∧ ∀ h, s = .on h → BudgetAgrees h

theorem LedgerInvariant.on {h : Hsm P} (hfilled : Pin.Filled (h.flash.sector .pinCounter))
    (hb : BudgetAgrees h) : LedgerInvariant (.on h) := by
  refine ⟨hfilled, ?_⟩
  rintro _ ⟨⟩
  exact hb

theorem CounterStep.filled {h h' : Hsm P} {c : Command} {resp : HsmResponse}
    (hstep : CounterStep h c resp h') (hfilled : Pin.Filled (h.flash.sector .pinCounter)) :
    Pin.Filled (h'.flash.sector .pinCounter) := by
  cases hstep with
  | kept hkept =>
    rw [hkept.sector]
    exact hfilled
  | cleared hclear =>
    rw [hclear.erased]
    exact Pin.filled_erased
  | @failed _ cfg _ h₁ faults hands hcfg hatt =>
    change Pin.Filled (h₁.flash.sector .pinCounter)
    cases hatt with
    | busy => exact hfilled
    | unjudged => exact (Flash.filled_ticked hfilled).2
    | rejected =>
      obtain ⟨-, -, hsector, -⟩ := h.rejected_delay cfg
      rw [hsector]
      exact (Flash.filled_ticked hfilled).2

theorem takesPins_of_relock {h : Hsm P} (ht : h.relockOnTransportReset.TakesPins) :
    h.TakesPins := by
  unfold Hsm.relockOnTransportReset at ht
  dsimp only at ht
  split at ht
  · split at ht
    · rename_i hready
      exact Or.inl hready
    · exact ht
  · exact ht

/-- The step lemma. -/
theorem LedgerInvariant.step {s s' : Sys P} {e : Event} {resp : Option Response}
    (hinv : LedgerInvariant s) (hshape : ShapeInvariant s) (hstep : Stepped s e resp s')
    (hfaults : e.Faultless) (hlast : (⟨e, s, resp, s'⟩ : Moment P).KeepsLast) :
    LedgerInvariant s' := by
  obtain ⟨hfilled, hagrees⟩ := hinv
  cases hstep with
  | booted hboot =>
    refine .on ?_ (.booted hboot hfaults)
    rw [(hboot.clean hfaults).sector]
    exact hfilled
  | bootCut hcut hg => exact absurd hcut hfaults.not_hasCut
  | unpowered hno => exact ⟨hfilled, by simp⟩
  | @drew h h' bytes faults resp hc hrun hrng =>
    have hkept : CounterKept h h' := (CounterKept.of_onlyRng hrng).of_facing
    refine .on ?_ ((hagrees h rfl).kept hkept fun _ => hrng.takesPins_of)
    rw [hkept.sector]
    exact hfilled
  | @served h h' bytes faults c resp hc hrun =>
    have hb := hagrees h rfl
    have hcounter := counterStep (hshape h rfl) hfaults hrun
    refine .on (hcounter.filled hfilled) ?_
    cases hcounter with
    | kept hkept =>
      refine hb.kept hkept fun hprod ht => ?_
      exact takesPins_of_run (h := h.facing faults) (hshape h rfl) hprod hfaults hrun ht
    | cleared hclear hwhy => exact hb.cleared hclear hwhy
    | @failed pin cfg _ h₁ faults' hands hcfg hatt =>
      have hb₁ : BudgetAgrees h₁ :=
        hb.failed hfilled hands hcfg hatt (hlast h bytes faults c pin rfl rfl hc hands)
      exact hb₁
  | @cut h h' bytes faults c e hc hrun =>
    obtain ⟨resp, h₁, hanswer, -⟩ := (hshape h rfl).answers c (show Faultless faults from hfaults)
    rw [hanswer] at hrun
    cases hrun
  | @relocked h =>
    have hkept := CounterKept.relock h
    refine .on ?_ ((hagrees h rfl).kept hkept fun _ => takesPins_of_relock)
    rw [hkept.sector]
    exact hfilled
  | @advanced h mono => exact .on hfilled (hagrees h rfl)
  | @quiet h => exact .on hfilled (hagrees h rfl)

theorem Run.ledger {image : Flash} {hist : List (Moment P)} {s : Sys P} (hrun : Run image hist s)
    (hfaults : ∀ m ∈ hist, m.event.Faultless) (hlast : ∀ m ∈ hist, m.KeepsLast)
    (himage : Pin.Filled (image.sector .pinCounter)) : LedgerInvariant s := by
  induction hrun with
  | start => exact ⟨himage, by simp⟩
  | @step hist s hrun e ih =>
    have hinv := ih (fun m hm => hfaults m (List.mem_cons_of_mem _ hm))
      fun m hm => hlast m (List.mem_cons_of_mem _ hm)
    have hshape : ShapeInvariant s := by
      rintro h rfl
      exact hrun.shaped
    exact hinv.step hshape (stepped s e) (hfaults _ List.mem_cons_self)
      (hlast _ List.mem_cons_self)

/-! ### What is reported -/

/-- `status` answers this budget. -/
def Hsm.Reports (h : Hsm P) (n : Nat) : Prop :=
  ∀ faults, Faultless faults → ∃ st h', Command.status.run (h.facing faults) = .ok (.status st) h' ∧
    st.retryRemaining = some n

theorem reports_iff {h : Hsm P} {cfg : DeviceConfig} (hcfg : h.config = some cfg)
    (hmode : cfg.mode = .prod) (n : Nat) : h.Reports n ↔ n = cfg.maxRetries.toNat - h.attempts := by
  have hserves : Serves (retryRemaining h.config : Dev P (Option Nat)) h
      (some (cfg.maxRetries.toNat - h.attempts)) h := by
    rw [hcfg]
    unfold retryRemaining
    dsimp only
    rw [if_pos hmode]
    exact (works_pinCount h.flash).serves.bind (Serves.pure _ _)
  have hreport : h.Reports (cfg.maxRetries.toNat - h.attempts) := by
    intro faults hfaults
    obtain ⟨faults', hrun, -⟩ := hserves faults hfaults
    have hstatus : ∃ st, Command.status.run (h.facing faults) =
        .ok (.status st) (h.facing faults') ∧
        st.retryRemaining = some (cfg.maxRetries.toNat - h.attempts) := by
      change ∃ st, hsmStatus (h.facing faults) = _ ∧ _
      unfold hsmStatus
      have hget : (h.facing faults).config = h.config := rfl
      simp only [Bind.bind, EStateM.bind, get, getThe, MonadStateOf.get, EStateM.get, hget, hrun,
        Pure.pure, EStateM.pure]
      exact ⟨_, rfl, rfl⟩
    obtain ⟨st, hanswer, hst⟩ := hstatus
    exact ⟨st, _, hanswer, hst⟩
  constructor
  · intro hn
    obtain ⟨st, h', hrun, hst⟩ := hn [] faultless_nil
    obtain ⟨st', h'', hrun', hst'⟩ := hreport [] faultless_nil
    rw [hrun] at hrun'
    injection hrun' with hresp
    obtain rfl := HsmResponse.status.inj hresp
    exact Option.some.inj (hst.symm.trans hst')
  · rintro rfl
    exact hreport

/-! ### Wrong PINs in a row -/

/-- The event hands a PIN past the deadline. -/
def Hsm.AttemptIn (h : Hsm P) (e : Event) : Prop :=
  ∃ bytes faults c, e = .line bytes faults ∧ lineCommand P bytes = some c ∧ Attempts h c

/-- The event hands a wrong PIN past the deadline. -/
def Hsm.WrongPinIn (h : Hsm P) (e : Event) : Prop :=
  ∃ bytes faults c pin cfg, e = .line bytes faults ∧ Faultless faults ∧
    lineCommand P bytes = some c ∧ Hands h c pin ∧ ¬ h.Waits ∧ h.config = some cfg ∧
    Rejects P h.flash cfg pin

/-- After `n` wrong PINs, with anything in between that is no attempt and keeps the
    configuration. -/
inductive WrongPins (h : Hsm P) : Nat → Hsm P → Prop
  | start : WrongPins h 0 h
  | between {n : Nat} {g g' : Hsm P} {e : Event} {resp : Option Response} (hg : WrongPins h n g)
      (hfaults : e.Faultless) (hidle : ¬ g.AttemptIn e) (hconfig : g'.config = g.config)
      (hstep : (Sys.on g).step e = (.on g', resp)) : WrongPins h n g'
  | wrong {n : Nat} {g g' : Hsm P} {e : Event} {resp : Option Response} (hg : WrongPins h n g)
      (hwrong : g.WrongPinIn e) (hstep : (Sys.on g).step e = (.on g', resp)) :
      WrongPins h (n + 1) g'

theorem Rejects.judged {cfg : DeviceConfig} {pin : Str} {f : Flash}
    (hrejects : Rejects P f cfg pin) (resp : HsmResponse) : ¬ Unjudged P cfg pin f resp := by
  obtain ⟨blob, secret, kek, e, hkey, hsecret, hkek, -⟩ := hrejects
  intro hwhy
  cases hwhy with
  | noKey hnone =>
    unfold storedKey at hkey
    rw [hnone] at hkey
    cases hkey
  | corrupt hsome hblob =>
    unfold storedKey at hkey
    rw [hsome] at hkey
    exact absurd (hblob.symm.trans hkey) (by simp)
  | secret _ hno => exact absurd (hsecret.symm.trans hno) (by simp)
  | kdf hkey' hsecret' hno =>
    obtain rfl := Option.some.inj (hkey.symm.trans hkey')
    obtain rfl := Except.ok.inj (hsecret.symm.trans hsecret')
    exact absurd (hkek.symm.trans hno) (by simp)

theorem Attempt.of_rejects {cfg : DeviceConfig} {pin : Str} {h h' : Hsm P}
    {r : Except HsmResponse UnlockedSeed} (hatt : Attempt cfg pin h r h') (hpast : ¬ h.Waits)
    (hrejects : Rejects P h.flash cfg pin) :
    r = .error (h.rejectedAnswer cfg) ∧ h' = h.rejected cfg := by
  cases hatt with
  | busy hwaits => exact absurd hwaits hpast
  | unjudged _ hwhy => exact absurd hwhy (hrejects.judged _)
  | accepted _ hopens =>
    obtain ⟨blob, secret, kek, e, hkey, hsecret, hkek, hunwrap⟩ := hrejects
    obtain ⟨blob', secret', hkey', hsecret', rfl, hkek', hunwrap'⟩ := hopens
    obtain rfl := Option.some.inj (hkey.symm.trans hkey')
    obtain rfl := Except.ok.inj (hsecret.symm.trans hsecret')
    obtain rfl := Except.ok.inj (hkek.symm.trans hkek')
    exact absurd (hunwrap.symm.trans hunwrap') (by simp)
  | rejected => exact ⟨rfl, rfl⟩

theorem Hands.pin_unique {h : Hsm P} {c : Command} {pin pin' : Str} (hands : Hands h c pin)
    (hands' : Hands h c pin') : pin' = pin := by
  cases hands with
  | unlock => cases hands'; rfl
  | changePin => cases hands'; rfl
  | factoryReset _ hpin =>
    cases hands' with
    | factoryReset _ hpin' => exact Option.some.inj (hpin'.symm.trans hpin)
  | rebootBootloader hpin =>
    cases hands' with
    | rebootBootloader hpin' => exact Option.some.inj (hpin'.symm.trans hpin)

theorem step_of_run {h h' : Hsm P} {bytes : Octets} {faults : List Fault} {c : Command}
    {resp : HsmResponse} (hc : lineCommand P bytes = some c)
    (hrun : c.run (h.facing faults) = .ok resp h') :
    (Sys.on h).step (.line bytes faults) = (.on h', some (.hsm resp)) := by
  change h.processLine bytes faults = _
  rcases processLine_cases h bytes faults with
    ⟨hnone, -⟩ | ⟨c', resp', h'', hc', hrun', heq⟩ | ⟨c', e, h'', hc', hrun', -⟩
  · exact absurd (hnone.symm.trans hc) (by simp)
  · obtain rfl := Option.some.inj (hc'.symm.trans hc)
    rw [hrun] at hrun'
    cases hrun'
    exact heq
  · obtain rfl := Option.some.inj (hc'.symm.trans hc)
    rw [hrun] at hrun'
    cases hrun'

/-- What one wrong PIN gets. -/
theorem Hsm.WrongPinIn.answers {g : Hsm P} {e : Event} (hwrong : g.WrongPinIn e) :
    ∃ cfg faults', g.config = some cfg ∧ (Sys.on g).step e =
      (.on ((g.rejected cfg).facing faults'), some (.hsm (g.rejectedAnswer cfg))) := by
  obtain ⟨bytes, faults, c, pin, cfg, rfl, hfaults, hc, hands, hpast, hcfg, hrejects⟩ := hwrong
  obtain ⟨r, h₁, hserves, hatt⟩ := serves_verifyPin hcfg pin
  obtain ⟨rfl, rfl⟩ := hatt.of_rejects hpast hrejects
  obtain ⟨faults', hrun, -⟩ := hands.serves_error hserves faults hfaults
  exact ⟨cfg, faults', hcfg, step_of_run hc hrun⟩

theorem Hsm.WrongPinIn.keepsLast {g : Hsm P} {e : Event} (hwrong : g.WrongPinIn e)
    (resp : Option Response) (s' : Sys P) : (⟨e, .on g, resp, s'⟩ : Moment P).KeepsLast := by
  obtain ⟨bytes, faults, c, pin, cfg, rfl, -, hc, hands, -, hcfg, hrejects⟩ := hwrong
  intro g' bytes' faults' c' pin' hg he hc' hands' _ hwastes
  obtain rfl := Sys.on.inj hg
  obtain ⟨rfl, rfl⟩ := Event.line.inj he
  obtain rfl := Option.some.inj (hc.symm.trans hc')
  obtain rfl := hands.pin_unique hands'
  obtain ⟨-, cfg', r, hcfg', hwhy, -⟩ := hwastes
  obtain rfl := Option.some.inj (hcfg.symm.trans hcfg')
  exact hrejects.judged r hwhy

theorem Hsm.WrongPinIn.takesPins {g : Hsm P} {e : Event} (hwrong : g.WrongPinIn e) :
    g.TakesPins := by
  obtain ⟨bytes, faults, c, pin, cfg, -, -, -, hands, -, -, hrejects⟩ := hwrong
  obtain ⟨blob, secret, kek, e, hkey, -⟩ := hrejects
  apply takesPins_of_key hands.state
  rw [hkey]
  rfl

theorem Hsm.WrongPinIn.faultless {g : Hsm P} {e : Event} (hwrong : g.WrongPinIn e) :
    e.Faultless := by
  obtain ⟨bytes, faults, c, pin, cfg, rfl, hfaults, -⟩ := hwrong
  exact hfaults

theorem keepsLast_of_idle {g : Hsm P} {e : Event} (hidle : ¬ g.AttemptIn e)
    (resp : Option Response) (s' : Sys P) : (⟨e, .on g, resp, s'⟩ : Moment P).KeepsLast := by
  intro g' bytes faults c pin hg he hc hands hpast _
  obtain rfl := Sys.on.inj hg
  exact hidle ⟨bytes, faults, c, he, hc, pin, hands, hpast⟩

/-- What is no attempt and keeps the configuration keeps the count. -/
theorem attempts_between {g g' : Hsm P} {e : Event} {resp : Option Response} (hshape : g.Shaped)
    (hprod : g.IsProd) (hfaults : e.Faultless) (hidle : ¬ g.AttemptIn e)
    (hconfig : g'.config = g.config) (hstep : Stepped (.on g) e resp (.on g')) :
    g'.attempts = g.attempts := by
  generalize hs' : Sys.on g' = s' at hstep
  cases hstep with
  | booted hboot =>
    obtain rfl := Sys.on.inj hs'
    exact congrArg (fun sector => Pin.used (sector .pinCounter)) (hboot.clean hfaults).sector
  | bootCut hcut => exact absurd hcut hfaults.not_hasCut
  | drew hc hrun hrng =>
    obtain rfl := Sys.on.inj hs'
    exact congrArg Pin.used (CounterKept.of_onlyRng hrng).of_facing.sector
  | @served _ _ bytes faults c resp hc hrun =>
    obtain rfl := Sys.on.inj hs'
    cases counterStep hshape hfaults hrun with
    | kept hkept => exact congrArg Pin.used hkept.sector
    | cleared hclear hwhy =>
      exfalso
      cases hwhy with
      | opened hatt => exact hidle ⟨bytes, faults, c, rfl, hc, hatt⟩
      | reset _ hnone =>
        rw [Hsm.IsProd, ← hconfig, hnone] at hprod
        cases hprod
      | provisioned _ hnone =>
        rw [Hsm.IsProd, hnone] at hprod
        cases hprod
    | failed hands hcfg hatt =>
      cases hatt with
      | busy => rfl
      | unjudged hpast => exact absurd ⟨bytes, faults, c, rfl, hc, _, hands, hpast⟩ hidle
      | rejected hpast => exact absurd ⟨bytes, faults, c, rfl, hc, _, hands, hpast⟩ hidle
  | cut => cases hs'
  | relocked =>
    obtain rfl := Sys.on.inj hs'
    exact congrArg Pin.used (CounterKept.relock g).sector
  | advanced =>
    obtain rfl := Sys.on.inj hs'
    rfl
  | quiet =>
    obtain rfl := Sys.on.inj hs'
    rfl

/-- What is known `n` wrong PINs later. -/
structure Counting (h : Hsm P) (n : Nat) (g : Hsm P) : Prop where
  config : g.config = h.config
  attempts : g.attempts = h.attempts + n
  ledger : LedgerInvariant (.on g)
  shape : g.Shaped

theorem Counting.room {h g : Hsm P} {n : Nat} (hcount : Counting h n g) {cfg : DeviceConfig}
    (hcfg : h.config = some cfg) (hmode : cfg.mode = .prod) (ht : g.TakesPins) :
    h.attempts + n < cfg.maxRetries.toNat := by
  rw [← hcount.attempts]
  exact (hcount.ledger.2 g rfl cfg (hcount.config.trans hcfg) hmode).2 ht

theorem Pin.next_of_lt {n : Nat} {limit : UInt8} (h : n < limit.toNat) : Pin.next n = n + 1 := by
  have hlimit := limit.toNat_lt
  unfold Pin.next SECTOR_LEN
  rw [if_neg (by omega)]

theorem WrongPins.counting {h g : Hsm P} {n : Nat} (hpins : WrongPins h n g)
    (hledger : LedgerInvariant (.on h)) (hshape : h.Shaped) {cfg : DeviceConfig}
    (hcfg : h.config = some cfg) (hmode : cfg.mode = .prod) : Counting h n g := by
  induction hpins with
  | start => exact ⟨rfl, rfl, hledger, hshape⟩
  | @between n g g' e resp hg hfaults hidle hconfig hstep ih =>
    have hstepped : Stepped (.on g) e resp (.on g') := by
      have := stepped (.on g) e
      rwa [hstep] at this
    have hprod : g.IsProd := by
      rw [Hsm.IsProd, ih.config, hcfg, ← hmode]
      rfl
    have hinv := ShapeInvariant.on ih.shape
    exact ⟨hconfig.trans ih.config,
      (attempts_between ih.shape hprod hfaults hidle hconfig hstepped).trans ih.attempts,
      ih.ledger.step hinv hstepped hfaults (keepsLast_of_idle hidle _ _),
      hinv.step hstepped g' rfl⟩
  | @wrong n g g' e resp hg hwrong hstep ih =>
    have hstepped : Stepped (.on g) e resp (.on g') := by
      have := stepped (.on g) e
      rwa [hstep] at this
    have hinv := ShapeInvariant.on ih.shape
    have hroom := ih.room hcfg hmode hwrong.takesPins
    obtain ⟨cfg', faults', hcfg', hanswer⟩ := hwrong.answers
    rw [hstep] at hanswer
    obtain rfl := Sys.on.inj (Prod.mk.inj hanswer).1
    refine ⟨?_, ?_, ih.ledger.step hinv hstepped hwrong.faultless (hwrong.keepsLast _ _),
      hinv.step hstepped _ rfl⟩
    · exact (Hsm.config_rejected g cfg').trans ih.config
    · have hnext : (g.rejected cfg').attempts = Pin.next g.attempts :=
        Hsm.attempts_rejected ih.ledger.1 cfg'
      change (g.rejected cfg').attempts = _
      rw [hnext, ih.attempts, Pin.next_of_lt hroom, Nat.add_assoc]

/-! ### The budget is the real one -/

/-- As long as no attempt spends the last of the budget without being judged: a
    production device with a key reports an empty budget exactly when it is locked
    out, and of the wrong PINs that follow the `i`-th answers the reported budget less
    `i`, where the last one locks the device out. -/
theorem retry_budget_agrees {image : Flash} {hist : List (Moment P)} {h : Hsm P}
    (hrun : Run image hist (.on h)) (hfaults : ∀ m ∈ hist, m.event.Faultless)
    (himage : Pin.Filled (image.sector .pinCounter)) (hlast : ∀ m ∈ hist, m.KeepsLast)
    (hprod : h.IsProd) (hkey : (storedKey P h.flash.sector).isSome) :
    (h.Reports 0 ↔ h.state = .lockedOut) ∧
    ∀ r n g e, h.Reports r → WrongPins h n g → g.WrongPinIn e → n < r ∧
      ∃ code message backoff g', (Sys.on g).step e =
          (.on g', some (.hsm (pinError code message (r - (n + 1)) backoff))) ∧
        (g'.state = .lockedOut ↔ n + 1 = r) := by
  have hledger := hrun.ledger hfaults hlast himage
  obtain ⟨cfg, hcfg, hmode⟩ := Option.map_eq_some_iff.mp hprod
  have hagrees := hledger.2 h rfl cfg hcfg hmode
  constructor
  · rw [reports_iff hcfg hmode]
    constructor
    · intro hzero
      rcases hprod.takesPins_or hrun.shaped hkey with hout | ht
      · exact hout
      · have hroom := hagrees.2 ht
        omega
    · intro hout
      have hspent := hagrees.1 hout
      omega
  · intro r n g e hreports hpins hwrong
    obtain rfl := (reports_iff hcfg hmode r).mp hreports
    have hcount := hpins.counting hledger hrun.shaped hcfg hmode
    have hroom := hcount.room hcfg hmode hwrong.takesPins
    have hnext : Pin.next g.attempts = h.attempts + n + 1 := by
      rw [hcount.attempts]
      exact Pin.next_of_lt hroom
    obtain ⟨cfg', faults', hcfg', hanswer⟩ := hwrong.answers
    obtain rfl := Option.some.inj (hcfg'.symm.trans (hcount.config.trans hcfg))
    have hiff := Hsm.rejected_lockedOut_iff cfg' hwrong.takesPins.not_lockedOut
    rw [hnext] at hiff
    refine ⟨by omega, ?_⟩
    unfold Hsm.rejectedAnswer at hanswer
    rw [hnext] at hanswer
    by_cases hend : h.attempts + n + 1 ≥ cfg'.maxRetries.toNat
    · rw [if_pos hend] at hanswer
      have hleft : cfg'.maxRetries.toNat - h.attempts - (n + 1) = 0 := by omega
      refine ⟨.lockedOut, "too many attempts; device locked out", g.penaltyMs,
        (g.rejected cfg').facing faults', ?_, hiff.trans (by omega)⟩
      rw [hleft]
      exact hanswer
    · rw [if_neg hend] at hanswer
      have hleft : cfg'.maxRetries.toNat - h.attempts - (n + 1) =
          cfg'.maxRetries.toNat - (h.attempts + n + 1) := by omega
      refine ⟨.badPin, "incorrect PIN", g.penaltyMs, (g.rejected cfg').facing faults', ?_,
        hiff.trans (by omega)⟩
      rw [hleft]
      exact hanswer

namespace Bench

/-- A boot that cannot read the device secret. -/
def blindPower : PowerUp := { power with deviceSecret := .error .flash }

/-- Three attempts with the device secret out of reach. -/
def blindEvents : List Event := [send 0, send 0, send 0, .boot blindPower]

/-- Whether the KEK of a PIN fails to open the stored key. -/
def rejects (P : Prims) (f : Flash) (cfg : DeviceConfig) (pin : Str) : Bool :=
  match storedKey P f.sector, f.deviceSecret with
  | some blob, .ok secret =>
    match pinKek P pin.bytes blob.salt cfg.argon2 secret with
    | .ok kek =>
      match unwrapSeed P kek blob with
      | .error _ => true
      | .ok _ => false
    | .error _ => false
  | _, _ => false

theorem rejects_of_test {P : Prims} {f : Flash} {cfg : DeviceConfig} {pin : Str}
    (htest : rejects P f cfg pin = true) : Rejects P f cfg pin := by
  unfold rejects at htest
  split at htest
  · rename_i blob secret hkey hsecret
    split at htest
    · rename_i kek hkek
      split at htest
      · rename_i e hunwrap
        exact ⟨blob, secret, kek, e, hkey, hsecret, hkek, hunwrap⟩
      · cases htest
    · cases htest
  · cases htest

end Bench

/-- From a budget of three, a wrong PIN leaves two. -/
theorem retry_budget_agrees_three :
    ∃ (hist : List (Moment Bench.oneWrong)) (h g' : Hsm Bench.oneWrong) (code : ErrCode)
      (message : String) (backoff : Nat),
      Run Bench.prodImage hist (.on h) ∧ h.Reports 3 ∧ (h.Reports 0 ↔ h.state = .lockedOut) ∧
      (Sys.on h).step (Bench.send 0) = (.on g', some (.hsm (pinError code message 2 backoff))) ∧
      g'.state ≠ .lockedOut := by
  have htest : (match powerUp (P := Bench.oneWrong) Bench.prodImage Bench.power with
      | .ok () h => decide (h.config = some Bench.config) && h.state == .prodLocked &&
        (storedKey Bench.oneWrong h.flash.sector).isSome && h.attempts == 0 &&
        Bench.rejects Bench.oneWrong h.flash Bench.config ['0', '0', '0', '0', '0', '0']
      | .error _ _ => false) = true := by decide +kernel
  have hline : lineCommand Bench.oneWrong [0x7B, 0] =
      some (.unlock { pin := ['0', '0', '0', '0', '0', '0'] }) := rfl
  split at htest
  swap
  · cases htest
  rename_i h hpower
  simp only [Bool.and_eq_true, beq_iff_eq, decide_eq_true_eq] at htest
  obtain ⟨⟨⟨⟨hconfig, hlocked⟩, hkey⟩, hattempts⟩, hrejects⟩ := htest
  have hrun := Run.step (.start : Run (P := Bench.oneWrong) Bench.prodImage [] _)
    (.boot Bench.power)
  rw [Sys.step_boot (s := .off Bench.prodImage) hpower] at hrun
  have hprod : h.IsProd := by
    unfold Hsm.IsProd
    rw [hconfig]
    rfl
  have hpast : ¬ h.Waits := by
    rintro ⟨hpos, -⟩
    rw [hattempts] at hpos
    exact absurd hpos (by decide)
  have hreports : h.Reports 3 := by
    rw [reports_iff hconfig rfl, hattempts]
    rfl
  obtain ⟨hzero, hwrong⟩ := retry_budget_agrees hrun
    (by
      intro m hm
      obtain rfl := List.mem_singleton.mp hm
      exact faultless_nil)
    Pin.filled_erased
    (by
      intro m hm
      obtain rfl := List.mem_singleton.mp hm
      intro h' bytes faults c pin _ he
      cases he)
    hprod hkey
  obtain ⟨-, code, message, backoff, g', hstep, hiff⟩ := hwrong 3 0 h (Bench.send 0) hreports .start
    ⟨[0x7B, 0], [], .unlock { pin := ['0', '0', '0', '0', '0', '0'] }, _, Bench.config, rfl,
      faultless_nil, hline, .unlock hlocked, hpast, hconfig, Bench.rejects_of_test hrejects⟩
  exact ⟨_, h, g', code, message, backoff, hrun, hreports, hzero, hstep,
    fun hout => absurd (hiff.mp hout) (by decide)⟩

/-- Attempts without the device secret use the budget up and lock nothing. -/
theorem blind_attempts_spend_budget :
    ∃ (hist : List (Moment Bench.oneWrong)) (h : Hsm Bench.oneWrong),
      Run Bench.prodImage hist (.on h) ∧ (∀ m ∈ hist, m.event.Faultless) ∧ h.IsProd ∧
      (storedKey Bench.oneWrong h.flash.sector).isSome ∧
      ¬ (h.Reports 0 ↔ h.state = .lockedOut) := by
  have hends : replayEnds (P := Bench.oneWrong) (fun _ _ h =>
      decide (h.config = some Bench.config) && h.state == .prodLocked &&
        (storedKey Bench.oneWrong h.flash.sector).isSome && h.attempts == 3)
      Bench.prodImage Bench.blindEvents = true := by decide +kernel
  obtain ⟨m, h, h', resp, -, -, -, -, htest, hhist, hrun⟩ := exists_of_replayEnds hends
  simp only [Bool.and_eq_true, beq_iff_eq, decide_eq_true_eq] at htest
  obtain ⟨⟨⟨hconfig, hlocked⟩, hkey⟩, hattempts⟩ := htest
  rw [← hhist] at hrun
  have hprod : h'.IsProd := by
    unfold Hsm.IsProd
    rw [hconfig]
    rfl
  have hreports : h'.Reports 0 := by
    rw [reports_iff hconfig rfl, hattempts]
    rfl
  refine ⟨_, h', hrun, fun _ => faultless_of_replay (by decide), hprod, hkey, fun hiff => ?_⟩
  exact absurd (hlocked.symm.trans (hiff.mp hreports)) (by decide)

end PicoSignet
