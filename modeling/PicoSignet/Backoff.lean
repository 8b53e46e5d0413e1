/-
  PicoSignet/Backoff.lean
  =======================
  **The delay after a wrong PIN** — the deadline is kept in RAM and rebuilt at boot
  from the counter sector, so the delay that is due depends on the attempts recorded
  there and on the later of the wrong PIN and the boot.  `sinceMs` says when that
  was, along a history; `Timed` is the invariant that ties the deadline to it.
-/
import PicoSignet.Attempts

set_option autoImplicit false

namespace PicoSignet

open Crash

variable {P : Prims}

/-! ### The counter sector -/

/-- A counter as the device writes it: cleared bytes, and nothing behind them. -/
def Pin.Filled (s : Sector) : Prop := ∀ i, Pin.used s ≤ i → i < SECTOR_LEN → s.get i = 0xFF

theorem Pin.used_erased : Pin.used Sector.erased = 0 := by
  unfold Pin.used SECTOR_LEN Pin.scan
  rw [if_neg]
  rw [Sector.get_erased]
  simp

theorem Pin.filled_erased : Pin.Filled Sector.erased := fun i _ _ => Sector.get_erased i

theorem and_ff (x : UInt8) : x &&& 0xFF = x := by
  apply UInt8.toBitVec_inj.mp
  exact BitVec.and_allOnes

theorem Pin.tickPage_of_ne {within i : Nat} (h : i ≠ within) :
    (Pin.tickPage within).getD i 0xFF = 0xFF := by
  unfold Pin.tickPage
  rw [List.getD_eq_getElem?_getD, List.getElem?_set_ne (Ne.symm h), List.getElem?_replicate]
  split <;> rfl

theorem Pin.get_tick (s : Sector) {i : Nat} (hi : i < SECTOR_LEN) (hne : i ≠ Pin.used s) :
    (s.program (Pin.used s / PAGE_LEN * PAGE_LEN) (Pin.tickPage (Pin.used s % PAGE_LEN))).get i =
      s.get i := by
  rw [Sector.get_program _ _ _ hi]
  split
  · have hwithin : i - Pin.used s / PAGE_LEN * PAGE_LEN ≠ Pin.used s % PAGE_LEN := by
      unfold PAGE_LEN at *
      omega
    rw [Pin.tickPage_of_ne hwithin]
    exact and_ff _
  · rfl

/-- A tick of a counter as the device writes it adds one attempt and no gap. -/
theorem Pin.filled_tick {s : Sector} (hs : Pin.Filled s) (hroom : Pin.used s < SECTOR_LEN) :
    let t := s.program (Pin.used s / PAGE_LEN * PAGE_LEN) (Pin.tickPage (Pin.used s % PAGE_LEN))
    Pin.used t = Pin.used s + 1 ∧ Pin.Filled t := by
  intro t
  have hge : Pin.used s + 1 ≤ Pin.used t := Pin.used_tick s hroom
  have hle : Pin.used t ≤ Pin.used s + 1 := by
    by_contra hgt
    have hmore : Pin.used s + 1 + 1 ≤ Pin.used t := by omega
    have hbound : Pin.used s + 1 + 1 ≤ SECTOR_LEN := hmore.trans (Pin.used_le t)
    have hset := (Pin.le_used_iff t hbound).mp hmore (Pin.used s + 1) (by omega)
    rw [Pin.get_tick s (by omega) (by omega)] at hset
    exact hset (hs _ (by omega) (by omega))
  refine ⟨by omega, ?_⟩
  intro i hi hlt
  rw [Pin.get_tick s hlt (by omega)]
  exact hs i (by omega) hlt

theorem Flash.filled_ticked {f : Flash} (hf : Pin.Filled (f.sector .pinCounter)) :
    Pin.used (f.ticked.sector .pinCounter) = Pin.next (Pin.used (f.sector .pinCounter)) ∧
      Pin.Filled (f.ticked.sector .pinCounter) := by
  unfold Flash.ticked Pin.next
  by_cases hfull : Pin.used (f.sector .pinCounter) ≥ SECTOR_LEN
  · rw [if_pos hfull, if_pos hfull]
    exact ⟨rfl, hf⟩
  · rw [if_neg hfull, if_neg hfull]
    have htick := Pin.filled_tick hf (by omega)
    simpa [Flash.put] using htick

/-! ### The delay -/

theorem Pin.backoffMs_eq (n : Nat) : Pin.backoffMs n = min (250 * 2 ^ n) 30000 := by
  unfold Pin.backoffMs Pin.BASE Pin.CAP
  split
  · rename_i hn
    have hpow : 2 ^ 7 ≤ 2 ^ n := Nat.pow_le_pow_right (by decide) hn
    omega
  · rw [Nat.shiftLeft_eq]

theorem Pin.backoffMs_le (n : Nat) : Pin.backoffMs n ≤ 30000 := by
  rw [Pin.backoffMs_eq]
  exact min_le_right _ _

/-- The timer in milliseconds leaves room for every delay. -/
theorem Hsm.toNat_deadline (h : Hsm P) (n : Nat) :
    (satAddU h.nowMs (UInt64.ofNat (Pin.backoffMs n))).toNat =
      h.nowMs.toNat + Pin.backoffMs n := by
  have hdelay := Pin.backoffMs_le n
  have hnow : h.nowMs.toNat = h.mono.toNat / 1000 := UInt64.toNat_div _ _
  have hmono := h.mono.toNat_lt
  have hdelayNat : (UInt64.ofNat (Pin.backoffMs n)).toNat = Pin.backoffMs n := by
    rw [UInt64.toNat_ofNat', Nat.mod_eq_of_lt (by omega)]
  rw [toNat_satAddU, hdelayNat]
  omega

/-! ### When the delay started -/

/-- Whether the attempt that the journal records last is a PIN that was rejected. -/
def lastWrong : List Entry → Bool
  | [] => false
  | .tried _ opened :: _ => !opened
  | .program .pinCounter :: _ => false
  | .erase .pinCounter :: _ => false
  | _ :: older => lastWrong older

def Entry.isWrong : Entry → Bool
  | .tried _ false => true
  | _ => false

/-- A PIN was rejected at this moment. -/
def Moment.wrongPin (m : Moment P) : Bool :=
  m.before.flash.journal.countP Entry.isWrong < m.after.flash.journal.countP Entry.isWrong

def Event.isBoot : Event → Bool
  | .boot _ => true
  | _ => false

/-- The timer, in milliseconds, at the later of the last wrong PIN and the last boot. -/
def sinceMs : List (Moment P) → Nat
  | [] => 0
  | m :: older =>
    if m.event.isBoot || m.wrongPin then
      (m.after.session.map fun h => h.nowMs.toNat).getD 0
    else sinceMs older

/-- Entries that neither count an attempt, judge one nor erase the counter. -/
def Entry.Aside (e : Entry) : Prop :=
  e ≠ .program .pinCounter ∧ e ≠ .erase .pinCounter ∧ ∀ limit opened, e ≠ .tried limit opened

theorem lastWrong_append {seg older : List Entry} (h : ∀ e ∈ seg, e.Aside) :
    lastWrong (seg ++ older) = lastWrong older := by
  induction seg with
  | nil => rfl
  | cons e seg ih =>
    obtain ⟨hprogram, herase, htried⟩ := h e List.mem_cons_self
    have hrest := ih fun e he => h e (List.mem_cons_of_mem _ he)
    cases e with
    | readError r => exact hrest
    | erase r =>
      cases r with
      | pinCounter => exact absurd rfl herase
      | _ => exact hrest
    | program r =>
      cases r with
      | pinCounter => exact absurd rfl hprogram
      | _ => exact hrest
    | record r before seq payload => exact hrest
    | wipe => exact hrest
    | tried limit opened => exact absurd rfl (htried limit opened)

theorem countP_isWrong_append {seg older : List Entry} (h : ∀ e ∈ seg, e.Aside) :
    (seg ++ older).countP Entry.isWrong = older.countP Entry.isWrong := by
  rw [List.countP_append]
  have hzero : seg.countP Entry.isWrong = 0 := by
    apply List.countP_eq_zero.mpr
    intro e he hwrong
    cases e with
    | tried limit opened => exact (h _ he).2.2 limit opened rfl
    | _ => simp [Entry.isWrong] at hwrong
  omega

/-- A footprint without the counter, in which no KEK is tried, adds only such entries. -/
theorem FlashWithin.aside {R : Option Region → Prop} {f g : Flash} (h : FlashWithin R f g)
    (hpin : ¬ R (some .pinCounter)) (hnone : ¬ R none) :
    ∃ seg, g.journal = seg ++ f.journal ∧ ∀ e ∈ seg, e.Aside := by
  obtain ⟨seg, hseg, hin⟩ := h.journal
  refine ⟨seg, hseg, fun e he => ⟨?_, ?_, ?_⟩⟩
  · rintro rfl
    exact hpin (hin _ he)
  · rintro rfl
    exact hpin (hin _ he)
  · rintro limit opened rfl
    exact hnone (hin _ he)

/-! ### What a command does to the counter -/

/-- The counter is erased. -/
def Hsm.CounterErased (h : Hsm P) : Prop := h.flash.sector .pinCounter = Sector.erased

theorem wp_resetPinCounter_erased (tries : Nat) {h : Hsm P} (hfaults : Faultless h.flash.faults) :
    Wp (resetPinCounterBestEffort (tries + 1) : Dev P Unit) (fun _ h' => h'.CounterErased)
      (fun _ _ => False) h := by
  unfold resetPinCounterBestEffort
  rw [Wp_bind]
  refine Wp.mono (wp_onFlash_faultless (runs_erase .pinCounter _) hfaults) ?_ fun _ _ he => he
  rintro _ _ ⟨_, g, rfl, rfl, hg, -⟩
  change g.sector .pinCounter = Sector.erased
  rw [hg, Function.update_self]

theorem length_keyBlob_le (k : KeyBlob) : k.toBytes.length ≤ 4080 := by
  rw [length_keyBlob]
  norm_num

theorem length_deviceConfig_le (c : DeviceConfig) : c.toBytes.length ≤ 4080 := by
  rw [length_deviceConfig]
  norm_num

/-- Writing a pair over working flash, whatever comes after it. -/
theorem Wp.write_faultless {α : Type} {pair : AbPair} {payload : Octets} {h : Hsm P}
    {k : Except HalError Unit → Dev P α} {post : α → Hsm P → Prop} {stop : Halt → Hsm P → Prop}
    (hpayload : payload.length ≤ 4080) (hfaults : Faultless h.flash.faults)
    (hk : ∀ g, Faultless g.faults → Wp (k (.ok ())) post stop { h with flash := g }) :
    Wp (onFlash (pair.write P.crc32 payload) >>= k) post stop h := by
  rw [Wp_bind]
  refine Wp.mono (wp_onFlash_faultless (runs_write P.crc32 pair _ hpayload) hfaults) ?_
    fun _ _ he => he.elim
  rintro _ _ ⟨_, g, rfl, rfl, -, hfaults'⟩
  exact hk g hfaults'

theorem Wp.draws {α β : Type} {m : Dev P α} {k : α → Dev P β} {h : Hsm P}
    {post : β → Hsm P → Prop} {stop : Halt → Hsm P → Prop} (hm : Draws m)
    (hk : ∀ a h', h'.flash = h.flash → Wp (k a) post stop h') : Wp (m >>= k) post stop h := by
  rw [Wp_bind]
  refine Wp.mono (hm h) ?_ fun _ _ he => he.elim
  intro a h' hrng
  refine hk a h' ?_
  rw [hrng]

theorem rewrapSeed_erases (newPin : Str) (wasReady : Bool) (seed : Bytes 32) {h : Hsm P}
    (hfaults : Faultless h.flash.faults) :
    Wp (rewrapSeed newPin wasReady seed)
      (fun resp h' => resp = .changePin true → h'.CounterErased) (fun _ _ => True) h := by
  unfold rewrapSeed
  refine Wp.draws draws_prepareKeygenEntropy fun r h₁ hflash₁ => ?_
  split
  · nofun
  refine Wp.draws (draws_randomArray 16) fun newSalt h₂ hflash₂ => ?_
  rw [Wp_bind, Wp_get]
  split
  · trivial
  split
  · nofun
  split
  · nofun
  split
  · nofun
  refine Wp.draws (draws_randomArray 12) fun nonce h₃ hflash₃ => ?_
  have hfaults₃ : Faultless h₃.flash.faults := by
    rw [hflash₃, hflash₂, hflash₁]
    exact hfaults
  refine Wp.write_faultless (length_keyBlob_le _) hfaults₃ fun g hg => ?_
  dsimp only
  rw [Wp_bind]
  refine Wp.mono (wp_resetPinCounter_erased 1 hg) ?_ fun _ _ he => he.elim
  intro _ h₄ herased
  split <;> exact fun _ => herased

theorem initProd_erases (req : InitReq) {h : Hsm P} (hfaults : Faultless h.flash.faults) :
    Wp (initProd req) (fun resp h' => resp = .init true "prod" → h'.CounterErased)
      (fun _ _ => True) h := by
  unfold initProd
  split
  · nofun
  split
  · nofun
  refine Wp.draws draws_prepareKeygenEntropy fun r h₁ hflash₁ => ?_
  split
  · nofun
  refine Wp.draws (draws_randomArray 16) fun salt h₂ hflash₂ => ?_
  dsimp only
  split
  · nofun
  rw [Wp_bind, Wp_get]
  split
  · nofun
  refine Wp.draws draws_generateCaKey fun key h₃ hflash₃ => ?_
  split
  · nofun
  refine Wp.draws (draws_randomArray 12) fun nonce h₄ hflash₄ => ?_
  have hfaults₄ : Faultless h₄.flash.faults := by
    rw [hflash₄, hflash₃, hflash₂, hflash₁]
    exact hfaults
  refine Wp.write_faultless (length_keyBlob_le _) hfaults₄ fun g hg => ?_
  dsimp only
  refine Wp.write_faultless (length_deviceConfig_le _) hg fun g' hg' => ?_
  dsimp only
  rw [Wp_bind]
  refine Wp.mono (wp_resetPinCounter_erased 1 hg') ?_ fun _ _ he => he.elim
  intro _ h₅ herased
  exact fun _ => herased

/-- The counter, its deadline and the lockout are as they were, as far as they matter. -/
structure CounterKept (h h' : Hsm P) : Prop where
  mono : h'.mono = h.mono
  sector : h'.flash.sector .pinCounter = h.flash.sector .pinCounter
  journal : ∃ seg, h'.flash.journal = seg ++ h.flash.journal ∧ ∀ e ∈ seg, e.Aside
  session : h'.config.map DeviceConfig.mode = some .prod →
    h'.config = h.config ∧ h'.pinBackoffUntilMs = h.pinBackoffUntilMs ∧
      (h'.state = .lockedOut ↔ h.state = .lockedOut)

/-- The counter starts over. -/
structure CounterCleared (h h' : Hsm P) : Prop where
  mono : h'.mono = h.mono
  erased : h'.CounterErased
  journal : lastWrong h'.flash.journal = false
  state : h'.state ≠ .lockedOut

/-- No KEK was tried against the key blob between `f` and `g`. -/
def Untried (f g : Flash) : Prop :=
  ∃ seg, g.journal = seg ++ f.journal ∧ ∀ limit opened, Entry.tried limit opened ∉ seg

/-- The command hands a PIN to `verify_pin`, and the deadline lets the attempt through. -/
def Attempts (h : Hsm P) (c : Command) : Prop := ∃ pin, Hands h c pin ∧ ¬ h.Waits

/-- Why the counter starts over: a PIN opened the stored key, or the configuration
    comes or goes. -/
inductive StartsOver (h : Hsm P) (c : Command) (h' : Hsm P) : Prop
  | opened (hatt : Attempts h c) (hkey : (storedKey P h.flash.sector).isSome)
      (hconfig : h'.config = h.config ∨ h'.config = none) : StartsOver h c h'
  | reset (huntried : Untried h.flash h'.flash) (hconfig : h'.config = none) : StartsOver h c h'
  | provisioned (huntried : Untried h.flash h'.flash) (hnone : h.config = none)
      (hretries : ∀ cfg, h'.config = some cfg → 0 < cfg.maxRetries.toNat) : StartsOver h c h'

/-- What a command does to the counter: a failed attempt, a new start, or nothing. -/
inductive CounterStep (h : Hsm P) (c : Command) : HsmResponse → Hsm P → Prop
  | failed {pin : Str} {cfg : DeviceConfig} {resp : HsmResponse} {h₁ : Hsm P} {faults : List Fault}
      (hands : Hands h c pin) (hcfg : h.config = some cfg)
      (hatt : Attempt cfg pin h (.error resp) h₁) : CounterStep h c resp (h₁.facing faults)
  | cleared {resp : HsmResponse} {h' : Hsm P} (hclear : CounterCleared h h')
      (hwhy : StartsOver h c h') : CounterStep h c resp h'
  | kept {resp : HsmResponse} {h' : Hsm P} (hkept : CounterKept h h') : CounterStep h c resp h'

theorem CounterKept.refl (h : Hsm P) : CounterKept h h :=
  ⟨rfl, rfl, ⟨[], rfl, by simp⟩, fun _ => ⟨rfl, rfl, Iff.rfl⟩⟩

theorem CounterKept.facing (h : Hsm P) (faults : List Fault) : CounterKept h (h.facing faults) :=
  ⟨rfl, rfl, ⟨[], rfl, by simp⟩, fun _ => ⟨rfl, rfl, Iff.rfl⟩⟩

theorem CounterKept.of_facing {h h' : Hsm P} {faults : List Fault}
    (hkept : CounterKept (h.facing faults) h') : CounterKept h h' :=
  ⟨hkept.mono, hkept.sector, hkept.journal, hkept.session⟩

/-- The fields and regions that have nothing to do with the counter. -/
def BesidesCounter (x : Field) : Prop := x ≠ .backoff ∧ x ≠ .config ∧ x ≠ .state
def BesidesCounterRegion (r : Option Region) : Prop := r ≠ some .pinCounter ∧ r ≠ none

theorem CounterKept.of_within {h h' : Hsm P}
    (hw : Within BesidesCounter BesidesCounterRegion h h') : CounterKept h h' := by
  have hno : ∀ x, x = .backoff ∨ x = .config ∨ x = .state → ¬ BesidesCounter x := by
    rintro x hx ⟨h₁, h₂, h₃⟩
    rcases hx with hx | hx | hx
    · exact h₁ hx
    · exact h₂ hx
    · exact h₃ hx
  refine ⟨hw.mono, hw.flash.sector _ fun hr => hr.1 rfl,
    hw.flash.aside (fun hr => hr.1 rfl) fun hr => hr.2 rfl, fun _ => ?_⟩
  have hstate : h'.state = h.state := hw.same .state (hno _ (Or.inr (Or.inr rfl)))
  refine ⟨hw.same .config (hno _ (Or.inr (Or.inl rfl))), hw.same .backoff (hno _ (Or.inl rfl)), ?_⟩
  rw [hstate]

theorem CounterKept.of_onlyRng {h h' : Hsm P} (hrng : OnlyRng h h') : CounterKept h h' :=
  .of_within (.of_onlyRng hrng)

theorem Untried.of_within {R : Option Region → Prop} {f g : Flash} (h : FlashWithin R f g)
    (hnone : ¬ R none) : Untried f g := by
  obtain ⟨seg, hseg, hin⟩ := h.journal
  exact ⟨seg, hseg, fun limit opened htried => hnone (hin _ htried)⟩

/-- A command with a footprint beside the counter. -/
theorem CounterStep.of_stays {h h' : Hsm P} {c : Command} {resp : HsmResponse} {faults : List Fault}
    {m : Dev P HsmResponse} (hm : Stays (Within BesidesCounter BesidesCounterRegion) m)
    (hrun : m (h.facing faults) = .ok resp h') : CounterStep h c resp h' :=
  .kept (CounterKept.of_facing (.of_within ((hm (h.facing faults)).of_ok hrun)))

theorem CounterCleared.of_accepted {h h' : Hsm P} (cfg : DeviceConfig)
    (hmono : h'.mono = h.mono) (hflash : h'.flash.sector = (h.accepted cfg).flash.sector)
    (hjournal : h'.flash.journal = (h.accepted cfg).flash.journal) (hstate : h'.state ≠ .lockedOut) :
    CounterCleared h h' := by
  refine ⟨hmono, ?_, ?_, hstate⟩
  · unfold Hsm.CounterErased
    rw [hflash]
    exact Flash.sector_erase_self _ _
  · rw [hjournal]
    rfl

theorem CounterCleared.of_blanked {h h' : Hsm P} {f : Flash} (hmono : h'.mono = h.mono)
    (hsector : h'.flash.sector = f.blanked.sector) (hjournal : h'.flash.journal = f.blanked.journal)
    (hstate : h'.state ≠ .lockedOut) : CounterCleared h h' := by
  refine ⟨hmono, ?_, ?_, hstate⟩
  · unfold Hsm.CounterErased
    rw [hsector, Flash.sector_blanked]
  · rw [hjournal]
    rfl

/-- An attempt over working flash: it fails and ends the command, or it opens the key. -/
theorem Hands.ends {h h' : Hsm P} {c : Command} {pin : Str} {resp : HsmResponse}
    {faults : List Fault} (hshape : h.Shaped) (hands : Hands h c pin) (hfaults : Faultless faults)
    (hrun : c.run (h.facing faults) = .ok resp h') :
    (∃ cfg h₁ faults', h.config = some cfg ∧ Attempt cfg pin h (.error resp) h₁ ∧
      h' = h₁.facing faults') ∨
    ∃ cfg seed kek salt, h.config = some cfg ∧ ¬ h.Waits ∧ Opens P h.flash cfg pin seed kek salt ∧
      Serves (verifyPin pin) h (.ok (seed, kek, salt)) (h.accepted cfg) := by
  obtain ⟨cfg, hcfg⟩ := Option.isSome_iff_exists.mp (hshape.config_isSome hands.state)
  obtain ⟨r, h₁, hserves, hatt⟩ := serves_verifyPin hcfg pin
  cases r with
  | error resp' =>
    obtain ⟨rfl, faults', rfl, -⟩ := (hands.serves_error hserves).of_ok hfaults hrun
    exact Or.inl ⟨cfg, h₁, faults', hcfg, hatt, rfl⟩
  | ok opened =>
    obtain ⟨seed, kek, salt⟩ := opened
    cases hatt with
    | accepted hpast hopens => exact Or.inr ⟨cfg, seed, kek, salt, hcfg, hpast, hopens, hserves⟩

theorem Hands.attempt {h h' : Hsm P} {c : Command} {pin : Str} {resp : HsmResponse}
    {faults : List Fault} (hshape : h.Shaped) (hands : Hands h c pin) (hfaults : Faultless faults)
    (hrun : c.run (h.facing faults) = .ok resp h') :
    CounterStep h c resp h' ∨
      ∃ cfg seed kek salt, h.config = some cfg ∧ ¬ h.Waits ∧
        (storedKey P h.flash.sector).isSome ∧
        Serves (verifyPin pin) h (.ok (seed, kek, salt)) (h.accepted cfg) := by
  rcases hands.ends hshape hfaults hrun with
    ⟨cfg, h₁, faults', hcfg, hatt, rfl⟩ | ⟨cfg, seed, kek, salt, hcfg, hpast, hopens, hserves⟩
  · exact Or.inl (.failed hands hcfg hatt)
  · obtain ⟨blob, -, hkey, -⟩ := hopens
    exact Or.inr ⟨cfg, seed, kek, salt, hcfg, hpast, by simp [hkey], hserves⟩

/-- `unlock` with the right PIN. -/
theorem serves_unlock {req : UnlockReq} {h h₁ : Hsm P} {seed kek : Bytes 32} {salt : Bytes 16}
    (hstate : h.state = .prodLocked)
    (hv : Serves (verifyPin req.pin) h (.ok (seed, kek, salt)) h₁) :
    Serves (hsmUnlock req) h (.unlock true)
      { h₁ with
        ca := some (CaKey.fromSeed seed), wrapKek := some kek, wrapSalt := some salt
        state := .prodReady } := by
  refine Serves.get_bind fun faults => ?_
  rw [show (h.facing faults).state = .prodLocked from hstate]
  exact hv.bind (Serves.modify_bind (fun _ => rfl) (Serves.pure _ _))

/-- `changePin` with the right PIN goes on to wrap the seed again. -/
theorem changePin_opened {req : ChangePinReq} {h h₁ : Hsm P} {seed kek : Bytes 32}
    {salt : Bytes 16} {faults : List Fault}
    (hstate : h.state = .prodLocked ∨ h.state = .prodReady)
    (hlen : PIN_MIN ≤ req.newPin.len ∧ req.newPin.len ≤ PIN_MAX)
    (hv : Serves (verifyPin req.currentPin) h (.ok (seed, kek, salt)) h₁)
    (hfaults : Faultless faults) :
    ∃ faults₁, Faultless faults₁ ∧ hsmChangePin req (h.facing faults) =
      rewrapSeed req.newPin (decide (h.state = .prodReady)) seed (h₁.facing faults₁) := by
  obtain ⟨faults₁, hopened, hfaults₁⟩ := hv faults hfaults
  refine ⟨faults₁, hfaults₁, ?_⟩
  unfold hsmChangePin
  have hget : (h.facing faults).state = h.state := rfl
  rcases hstate with hstate | hstate <;>
  · simp only [Bind.bind, EStateM.bind, get, getThe, MonadStateOf.get, EStateM.get, hget, hstate,
      if_neg (not_not.mpr hlen), hopened]

/-- `changePin` where it looks at no PIN. -/
theorem changePin_idle {req : ChangePinReq} {h h' : Hsm P} {resp : HsmResponse}
    {faults : List Fault} (hidle : ¬ ((h.state = .prodLocked ∨ h.state = .prodReady) ∧
      (PIN_MIN ≤ req.newPin.len ∧ req.newPin.len ≤ PIN_MAX)))
    (hrun : hsmChangePin req (h.facing faults) = .ok resp h') : h' = h.facing faults := by
  unfold hsmChangePin at hrun
  have hget : (h.facing faults).state = h.state := rfl
  simp only [Bind.bind, EStateM.bind, get, getThe, MonadStateOf.get, EStateM.get, hget] at hrun
  cases hstate : h.state with
  | prodLocked =>
    rw [hstate] at hrun
    dsimp only at hrun
    rw [if_pos (fun hlen => hidle ⟨Or.inl hstate, hlen⟩)] at hrun
    cases hrun
    rfl
  | prodReady =>
    rw [hstate] at hrun
    dsimp only at hrun
    rw [if_pos (fun hlen => hidle ⟨Or.inr hstate, hlen⟩)] at hrun
    cases hrun
    rfl
  | _ =>
    rw [hstate] at hrun
    cases hrun
    rfl

/-- The gate over working flash: a failed attempt, or through from a session whose
    counter is as it was or starts over. -/
theorem counterStep_gate {h h' : Hsm P} {c : Command} (pin : Option Str) (noPin : String)
    {resp : HsmResponse} {faults : List Fault} (hshape : h.Shaped) (hfaults : Faultless faults)
    (hands : ∀ p, pin = some p → (h.state = .prodLocked ∨ h.state = .prodReady) →
      h.physicalRecoveryAuthorized = false → Hands h c p)
    (hrun : c.run (h.facing faults) = .ok resp h') :
    CounterStep h c resp h' ∨ ∃ r h₁, Serves (destructiveGate pin noPin) h r h₁ ∧
      (h₁ = h ∨ r = none ∧ (h.state = .prodLocked ∨ h.state = .prodReady) ∧ Attempts h c ∧
        (storedKey P h.flash.sector).isSome ∧ ∃ cfg, h₁ = h.accepted cfg) := by
  by_cases hidle : (h.state = .prodLocked ∨ h.state = .prodReady) ∧
      h.physicalRecoveryAuthorized = false ∧ pin.isSome
  · obtain ⟨hstate, hphysical, hsome⟩ := hidle
    obtain ⟨p, hp⟩ := Option.isSome_iff_exists.mp hsome
    rcases (hands p hp hstate hphysical).attempt hshape hfaults hrun with
      hstep | ⟨cfg, seed, kek, salt, -, hpast, hkey, hserves⟩
    · exact Or.inl hstep
    · rw [hp]
      exact Or.inr ⟨none, h.accepted cfg, serves_destructiveGate noPin hstate hphysical hserves,
        Or.inr ⟨rfl, hstate, ⟨p, hands p hp hstate hphysical, hpast⟩, hkey, cfg, rfl⟩⟩
  · obtain ⟨r, hserves, -⟩ := serves_destructiveGate_idle pin noPin hidle
    exact Or.inr ⟨r, h, hserves, Or.inl rfl⟩

theorem CounterStep.unlock {req : UnlockReq} {h h' : Hsm P} {resp : HsmResponse}
    {faults : List Fault} (hshape : h.Shaped) (hfaults : Faultless faults)
    (hrun : hsmUnlock req (h.facing faults) = .ok resp h') :
    CounterStep h (.unlock req) resp h' := by
  by_cases hstate : h.state = .prodLocked
  · rcases Hands.attempt (c := .unlock req) hshape (.unlock hstate) hfaults hrun with
      hstep | ⟨cfg, seed, kek, salt, -, hpast, hkey, hserves⟩
    · exact hstep
    · obtain ⟨-, faults', rfl, -⟩ := (serves_unlock hstate hserves).of_ok hfaults hrun
      exact .cleared (.of_accepted cfg rfl rfl rfl (by simp [Hsm.facing]))
        (.opened ⟨req.pin, .unlock hstate, hpast⟩ hkey (Or.inl rfl))
  · have hout := (wp_unlock req (h.facing faults)).of_ok hrun
    cases hout with
    | refused => exact .kept (.facing h faults)
    | rejected hcfg hlocked hv => exact absurd hlocked hstate
    | opened hcfg hlocked hv => exact absurd hlocked hstate

theorem CounterStep.changePin {req : ChangePinReq} {h h' : Hsm P} {resp : HsmResponse}
    {faults : List Fault} (hshape : h.Shaped) (hfaults : Faultless faults)
    (hrun : hsmChangePin req (h.facing faults) = .ok resp h') :
    CounterStep h (.changePin req) resp h' := by
  by_cases hgo : (h.state = .prodLocked ∨ h.state = .prodReady) ∧
      (PIN_MIN ≤ req.newPin.len ∧ req.newPin.len ≤ PIN_MAX)
  · obtain ⟨hstate, hlen⟩ := hgo
    rcases Hands.attempt (c := .changePin req) hshape (.changePin hstate hlen) hfaults hrun with
      hstep | ⟨cfg, seed, kek, salt, hcfg, hpast, hkey, hserves⟩
    · exact hstep
    · have htries : Attempts h (.changePin req) := ⟨req.currentPin, .changePin hstate hlen, hpast⟩
      -- the counter is erased before the seed is wrapped again
      obtain ⟨faults₁, hfaults₁, hrest⟩ := changePin_opened hstate hlen hserves hfaults
      rw [hrest] at hrun
      have hcfg₁ : ((h.accepted cfg).facing faults₁).config.isSome := by
        change h.config.isSome
        rw [hcfg]
        rfl
      have hdone := (wp_rewrapSeed req.newPin (decide (h.state = .prodReady)) seed hcfg₁).of_ok hrun
      have herased := (rewrapSeed_erases req.newPin (decide (h.state = .prodReady)) seed
        (h := (h.accepted cfg).facing faults₁) hfaults₁).of_ok hrun
      cases hdone with
      | refused hrng =>
        rw [hrng]
        refine .cleared (.of_accepted cfg rfl rfl rfl ?_) (.opened htries hkey (Or.inl rfl))
        change h.state ≠ .lockedOut
        rcases hstate with hstate | hstate <;> rw [hstate] <;> decide
      | failed hresp hg hfail => exact absurd hfail (not_exists.mpr hfaults₁.no_fail)
      | done hblob hg hreset =>
        refine .cleared ⟨rfl, herased rfl, ?_, ?_⟩ (.opened htries hkey (Or.inl rfl))
        · obtain ⟨n, hn⟩ := hreset.journal
          dsimp only
          rw [hn]
          rfl
        · dsimp only
          split <;> decide
  · rw [changePin_idle hgo hrun]
    exact .kept (.facing h faults)

theorem CounterStep.factoryReset {req : FactoryResetReq} {h h' : Hsm P} {resp : HsmResponse}
    {faults : List Fault} (hshape : h.Shaped) (hfaults : Faultless faults)
    (hrun : hsmFactoryReset req (h.facing faults) = .ok resp h') :
    CounterStep h (.factoryReset req) resp h' := by
  by_cases hconfirm : req.confirm = confirmErase
  swap
  · unfold hsmFactoryReset at hrun
    rw [if_pos hconfirm] at hrun
    cases hrun
    exact .kept (.facing h faults)
  have hgate := counterStep_gate (c := .factoryReset req) req.pin
    "factory-reset requires a PIN or physical recovery held low during reset"
    hshape hfaults (fun p hp hstate hphysical => .factoryReset hconfirm hp hstate hphysical) hrun
  rcases hgate with hstep | ⟨r, h₁, hserves, hcases⟩
  · exact hstep
  cases r with
  | some resp' =>
    have hdone : Serves (hsmFactoryReset req) h resp' h₁ := by
      unfold hsmFactoryReset
      rw [if_neg (not_not.mpr hconfirm)]
      exact hserves.bind (Serves.pure _ _)
    obtain ⟨-, faults', rfl, -⟩ := hdone.of_ok hfaults hrun
    rcases hcases with rfl | ⟨hnone, -⟩
    · exact .kept (.facing _ _)
    · cases hnone
  | none =>
    obtain ⟨-, faults', rfl, -⟩ := (serves_factoryReset hconfirm hserves).of_ok hfaults hrun
    have hmono : h₁.mono = h.mono := by
      rcases hcases with rfl | ⟨-, -, -, -, cfg, rfl⟩ <;> rfl
    refine .cleared (.of_blanked (f := h₁.flash) hmono rfl rfl (by simp [Hsm.facing, Hsm.afterReset])) ?_
    rcases hcases with rfl | ⟨-, -, htries, hkey, -⟩
    · refine .reset ⟨[.erase .pinCounter, .erase .timeB, .erase .timeA, .erase .configB,
        .erase .configA, .erase .keyB, .erase .keyA, .wipe], rfl, by simp⟩ rfl
    · exact .opened htries hkey (Or.inr rfl)

theorem CounterStep.rebootBootloader {req : RebootBootloaderReq} {h h' : Hsm P} {resp : HsmResponse}
    {faults : List Fault} (hshape : h.Shaped) (hfaults : Faultless faults)
    (hrun : hsmRebootBootloader req (h.facing faults) = .ok resp h') :
    CounterStep h (.rebootBootloader req) resp h' := by
  have hgate := counterStep_gate (c := .rebootBootloader req) req.pin
    "rebooting into the bootloader requires a PIN or physical recovery held low during reset"
    hshape hfaults (fun p hp hstate hphysical => .rebootBootloader hp hstate hphysical) hrun
  rcases hgate with hstep | ⟨r, h₁, hserves, hcases⟩
  · exact hstep
  have hdone : Serves (hsmRebootBootloader req) h (r.getD (.rebootBootloader true))
      (if r.isSome then h₁ else { h₁ with rebootRequested := true }) := by
    refine hserves.bind ?_
    cases r with
    | some resp' => exact Serves.pure _ _
    | none => exact Serves.modify_bind (fun _ => rfl) (Serves.pure _ _)
  obtain ⟨-, faults', rfl, -⟩ := hdone.of_ok hfaults hrun
  rcases hcases with rfl | ⟨rfl, hstate, htries, hkey, cfg, rfl⟩
  · refine .kept ?_
    split
    · exact .facing _ _
    · exact ⟨rfl, rfl, ⟨[], rfl, by simp⟩, fun _ => ⟨rfl, rfl, Iff.rfl⟩⟩
  · refine .cleared (.of_accepted cfg rfl rfl rfl ?_) (.opened htries hkey (Or.inl rfl))
    change h.state ≠ .lockedOut
    rcases hstate with hstate | hstate <;> rw [hstate] <;> decide

theorem Wrote.besides {pair : AbPair} {payload : Octets} {f g : Flash}
    (hg : Wrote P pair payload f g) (ha : pair.a ≠ .pinCounter) (hb : pair.b ≠ .pinCounter) :
    FlashWithin BesidesCounterRegion f g := by
  refine hg.within.mono fun r hr => ?_
  rw [hr]
  refine ⟨fun heq => ?_, Option.some_ne_none _⟩
  rcases pair.nextTarget_mem P.crc32 f.sector with htarget | htarget <;> rw [htarget] at heq
  · exact ha (Option.some.inj heq)
  · exact hb (Option.some.inj heq)

theorem CounterStep.init {req : InitReq} {h h' : Hsm P} {resp : HsmResponse}
    {faults : List Fault} (hfaults : Faultless faults)
    (hrun : hsmInit req (h.facing faults) = .ok resp h') : CounterStep h (.init req) resp h' := by
  have hno : ¬ ∃ left, Fault.fail left ∈ (h.facing faults).flash.faults :=
    not_exists.mpr hfaults.no_fail
  rcases (wp_init req (h.facing faults)).of_ok hrun with rfl | ⟨hcfg, ⟨hmode, hdev⟩ | ⟨hmode, hprod⟩⟩
  · exact .kept (.facing h faults)
  · have hkept : CounterKept (h.facing faults) h' := by
      cases hdev with
      | refused => exact .refl _
      | failed hg hfail => exact absurd hfail hno
      | done hg =>
        have hbeside := hg.besides (by decide) (by decide)
        refine ⟨rfl, hbeside.sector _ fun hr => hr.1 rfl,
          hbeside.aside (fun hr => hr.1 rfl) (fun hr => hr.2 rfl), ?_⟩
        intro hprod
        cases hprod
    exact .kept hkept.of_facing
  · -- the counter is erased last
    have hprodRun : initProd req (h.facing faults) = .ok resp h' := by
      unfold hsmInit at hrun
      have hget : (h.facing faults).config.isSome = false := by
        rw [hcfg]
        rfl
      have hmodeDev : ¬ req.mode = modeDev := by
        rw [hmode]
        decide
      simp only [Bind.bind, EStateM.bind, get, getThe, MonadStateOf.get, EStateM.get, hget,
        Bool.false_eq_true, if_false, if_neg hmodeDev, if_pos hmode] at hrun
      exact hrun
    have herased := (initProd_erases req (h := h.facing faults) hfaults).of_ok hprodRun
    cases hprod with
    | refused hrng => exact .kept (CounterKept.of_facing (.of_onlyRng hrng))
    | keyFailed hresp hg hfail => exact absurd hfail hno
    | configFailed hresp hg hg' hfail => exact absurd hfail hno
    | @done _ _ g g' g'' _ _ hretries hblob hg hg' hreset =>
      have hwithin := trans_of (FlashWithin (· ≠ none))
        (trans_of (FlashWithin (· ≠ none))
          (hg.within.mono fun r hr => by rw [hr]; exact Option.some_ne_none _)
          (hg'.within.mono fun r hr => by rw [hr]; exact Option.some_ne_none _))
        (hreset.within.mono fun r hr => by rw [hr]; exact Option.some_ne_none _)
      have huntried : Untried (h.facing faults).flash g'' := .of_within hwithin (not_not.mpr rfl)
      refine .cleared ⟨rfl, herased rfl, ?_, by simp⟩ (.provisioned huntried hcfg ?_)
      swap
      · intro cfg heq
        obtain rfl := Option.some.inj heq
        exact Nat.pos_of_ne_zero fun hzero => hretries (UInt8.toNat_inj.mp hzero)
      obtain ⟨n, hn⟩ := hreset.journal
      dsimp only
      rw [hn]
      rfl

/-- The step lemma: over working flash a command is a failed attempt, starts the
    counter over, or leaves it alone. -/
theorem counterStep {c : Command} {h h' : Hsm P} {resp : HsmResponse} {faults : List Fault}
    (hshape : h.Shaped) (hfaults : Faultless faults)
    (hrun : c.run (h.facing faults) = .ok resp h') : CounterStep h c resp h' := by
  have hregion : ∀ r : Region, r ≠ .pinCounter → BesidesCounterRegion (some r) :=
    fun r hr => ⟨fun heq => hr (Option.some.inj heq), Option.some_ne_none r⟩
  have hfield : ∀ x, x ≠ .backoff → x ≠ .config → x ≠ .state → BesidesCounter x :=
    fun x h₁ h₂ h₃ => ⟨h₁, h₂, h₃⟩
  cases c with
  | init req => exact .init hfaults hrun
  | generateKey req =>
    exact .of_stays (stays_generateKey (hregion _ (by decide)) (hregion _ (by decide))
      (hfield _ (by decide) (by decide) (by decide)) (hfield _ (by decide) (by decide) (by decide))
      req) hrun
  | getPublicKey => exact .of_stays stays_getPublicKey hrun
  | unlock req => exact .unlock hshape hfaults hrun
  | lock =>
    have hlock := (wp_lock (h.facing faults)).of_ok hrun
    rcases hlock with ⟨hstate, -, rfl⟩ | ⟨-, -, rfl⟩ | ⟨-, rfl⟩
    · refine .kept ⟨rfl, rfl, ⟨[], rfl, by simp⟩, fun _ => ⟨rfl, rfl, ?_⟩⟩
      have hready : h.state = .prodReady := hstate
      simp [hready]
    · exact .kept ⟨rfl, rfl, ⟨[], rfl, by simp⟩, fun _ => ⟨rfl, rfl, Iff.rfl⟩⟩
    · exact .kept (.facing h faults)
  | setTime req =>
    exact .of_stays (stays_setTime (hfield _ (by decide) (by decide) (by decide))
      (hfield _ (by decide) (by decide) (by decide)) (hregion _ (by decide))
      (hregion _ (by decide)) req) hrun
  | status => exact .of_stays stays_status hrun
  | changePin req => exact .changePin hshape hfaults hrun
  | addEntropy req => exact .of_stays (stays_addEntropy req) hrun
  | selfTest => exact .of_stays stays_selfTest hrun
  | factoryReset req => exact .factoryReset hshape hfaults hrun
  | rebootBootloader req => exact .rebootBootloader hshape hfaults hrun

/-! ### The deadline along a run -/

def Hsm.IsProd (h : Hsm P) : Prop := h.config.map DeviceConfig.mode = some .prod

/-- The deadline of a production session is the delay that is due, counted from the
    later of the last wrong PIN and the boot. -/
structure Timed (hist : List (Moment P)) (h : Hsm P) : Prop where
  filled : Pin.Filled (h.flash.sector .pinCounter)
  since : sinceMs hist ≤ h.nowMs.toNat
  deadline : h.IsProd → 0 < h.attempts → lastWrong h.flash.journal = true →
    h.pinBackoffUntilMs.toNat = sinceMs hist + Pin.backoffMs (h.attempts - 1)

theorem sinceMs_kept {e : Event} {s s' : Sys P} {resp : Option Response} {hist : List (Moment P)}
    (hboot : e.isBoot = false)
    (hcount : s'.flash.journal.countP Entry.isWrong = s.flash.journal.countP Entry.isWrong) :
    sinceMs (⟨e, s, resp, s'⟩ :: hist) = sinceMs hist := by
  rw [sinceMs, if_neg]
  simp [hboot, Moment.wrongPin, hcount]

theorem sinceMs_restart {e : Event} {s : Sys P} {h' : Hsm P} {resp : Option Response}
    (hist : List (Moment P))
    (hnew : e.isBoot = true ∨ (⟨e, s, resp, .on h'⟩ : Moment P).wrongPin = true) :
    sinceMs (⟨e, s, resp, .on h'⟩ :: hist) = h'.nowMs.toNat := by
  have hor : (e.isBoot || (⟨e, s, resp, .on h'⟩ : Moment P).wrongPin) = true := by
    rcases hnew with hnew | hnew <;> simp [hnew]
  rw [sinceMs, if_pos hor]
  rfl

/-- A moment moves the start of the delay to its own end, or leaves it. -/
theorem sinceMs_le {e : Event} {s : Sys P} {h' : Hsm P} {resp : Option Response}
    {hist : List (Moment P)} (hle : sinceMs hist ≤ h'.nowMs.toNat) :
    sinceMs (⟨e, s, resp, .on h'⟩ :: hist) ≤ h'.nowMs.toNat := by
  rw [sinceMs]
  split
  · exact le_rfl
  · exact hle

theorem Hsm.nowMs_congr {h h' : Hsm P} (hmono : h'.mono = h.mono) : h'.nowMs = h.nowMs := by
  unfold Hsm.nowMs
  rw [hmono]

section Step

variable {hist : List (Moment P)} {h h' : Hsm P} {e : Event} {resp : Option Response}

theorem Timed.kept (ht : Timed hist h) (hkept : CounterKept h h') (hboot : e.isBoot = false) :
    Timed (⟨e, .on h, resp, .on h'⟩ :: hist) h' := by
  have hnow := Hsm.nowMs_congr hkept.mono
  obtain ⟨seg, hseg, haside⟩ := hkept.journal
  have hsince : sinceMs (⟨e, .on h, resp, .on h'⟩ :: hist) = sinceMs hist := by
    apply sinceMs_kept hboot
    change h'.flash.journal.countP _ = h.flash.journal.countP _
    rw [hseg, countP_isWrong_append haside]
  constructor
  · rw [hkept.sector]
    exact ht.filled
  · rw [hsince, hnow]
    exact ht.since
  · intro hprod hpos hwrong
    obtain ⟨hconfig, huntil, -⟩ := hkept.session hprod
    have hattempts : h'.attempts = h.attempts := congrArg Pin.used hkept.sector
    rw [hseg, lastWrong_append haside] at hwrong
    rw [hattempts] at hpos
    rw [hsince, huntil, hattempts]
    refine ht.deadline ?_ hpos hwrong
    unfold Hsm.IsProd at hprod ⊢
    rw [← hconfig]
    exact hprod

theorem Timed.cleared (ht : Timed hist h) (hclear : CounterCleared h h') :
    Timed (⟨e, .on h, resp, .on h'⟩ :: hist) h' := by
  have hnow := Hsm.nowMs_congr hclear.mono
  constructor
  · rw [hclear.erased]
    exact Pin.filled_erased
  · apply sinceMs_le
    rw [hnow]
    exact ht.since
  · intro _ _ hwrong
    rw [hclear.journal] at hwrong
    cases hwrong

theorem Hsm.attempts_ticked (hfilled : Pin.Filled (h.flash.sector .pinCounter)) :
    h.ticked.attempts = Pin.next h.attempts := (Flash.filled_ticked hfilled).1

theorem Timed.unjudged (ht : Timed hist h) (hboot : e.isBoot = false) (faults : List Fault) :
    Timed (⟨e, .on h, resp, .on (h.ticked.facing faults)⟩ :: hist) (h.ticked.facing faults) := by
  by_cases hfull : Pin.used (h.flash.sector .pinCounter) ≥ SECTOR_LEN
  · have hsame : h.flash.ticked = h.flash := if_pos hfull
    have hticked : h.ticked = h := by
      unfold Hsm.ticked
      rw [hsame]
    rw [hticked]
    exact ht.kept (.facing h faults) hboot
  · have hjournal : (h.ticked.facing faults).flash.journal =
        .program .pinCounter :: h.flash.journal := by
      change h.flash.ticked.journal = _
      unfold Flash.ticked
      rw [if_neg hfull]
      rfl
    constructor
    · exact (Flash.filled_ticked ht.filled).2
    · exact sinceMs_le ht.since
    · intro _ _ hwrong
      rw [hjournal] at hwrong
      cases hwrong

/-- What a wrong PIN leaves: the deadline, the counter and the entry in the journal. -/
theorem Hsm.rejected_delay (h : Hsm P) (cfg : DeviceConfig) :
    (h.rejected cfg).mono = h.mono ∧
      (h.rejected cfg).pinBackoffUntilMs = satAddU h.nowMs (UInt64.ofNat h.penaltyMs) ∧
      (h.rejected cfg).flash.sector .pinCounter = h.flash.ticked.sector .pinCounter ∧
      lastWrong (h.rejected cfg).flash.journal = true ∧
      h.flash.journal.countP Entry.isWrong < (h.rejected cfg).flash.journal.countP Entry.isWrong := by
  have hcount : h.flash.ticked.journal.countP Entry.isWrong = h.flash.journal.countP Entry.isWrong := by
    unfold Flash.ticked
    split <;> rfl
  have hentry : ∀ journal, List.countP Entry.isWrong (.tried cfg.maxRetries false :: journal) =
      List.countP Entry.isWrong journal + 1 :=
    fun journal => List.countP_cons_of_pos rfl
  unfold Hsm.rejected
  split
  · split
    · refine ⟨rfl, rfl, rfl, rfl, ?_⟩
      change _ < List.countP Entry.isWrong
        (.erase .keyB :: .erase .keyA :: .wipe :: .tried cfg.maxRetries false :: h.flash.ticked.journal)
      rw [show ∀ l, List.countP Entry.isWrong (.erase .keyB :: .erase .keyA :: .wipe :: l) =
        List.countP Entry.isWrong l from fun _ => rfl, hentry, hcount]
      exact Nat.lt_succ_self _
    · refine ⟨rfl, rfl, rfl, rfl, ?_⟩
      change _ < List.countP Entry.isWrong (.tried cfg.maxRetries false :: h.flash.ticked.journal)
      rw [hentry, hcount]
      exact Nat.lt_succ_self _
  · refine ⟨rfl, rfl, rfl, rfl, ?_⟩
    change _ < List.countP Entry.isWrong (.tried cfg.maxRetries false :: h.flash.ticked.journal)
    rw [hentry, hcount]
    exact Nat.lt_succ_self _

theorem Timed.rejected (ht : Timed hist h) (cfg : DeviceConfig) (faults : List Fault) :
    Timed (⟨e, .on h, resp, .on ((h.rejected cfg).facing faults)⟩ :: hist)
      ((h.rejected cfg).facing faults) := by
  obtain ⟨hmono, huntil, hsector, -, hcount⟩ := h.rejected_delay cfg
  obtain ⟨hused, hfilled⟩ := Flash.filled_ticked ht.filled
  have hwrong : (⟨e, .on h, resp, .on ((h.rejected cfg).facing faults)⟩ : Moment P).wrongPin = true := by
    unfold Moment.wrongPin
    exact decide_eq_true hcount
  have hsince := sinceMs_restart hist (Or.inr hwrong)
  have hnow : ((h.rejected cfg).facing faults).nowMs = h.nowMs := Hsm.nowMs_congr hmono
  have hattempts : ((h.rejected cfg).facing faults).attempts = Pin.next h.attempts := by
    change Pin.used ((h.rejected cfg).flash.sector .pinCounter) = _
    rw [hsector]
    exact hused
  constructor
  · change Pin.Filled ((h.rejected cfg).flash.sector .pinCounter)
    rw [hsector]
    exact hfilled
  · exact le_of_eq hsince
  · intro _ _ _
    rw [hsince, hnow, hattempts]
    change (h.rejected cfg).pinBackoffUntilMs.toNat = _
    rw [huntil]
    exact h.toNat_deadline _

end Step

/-- The deadline that a boot without faults rebuilds. -/
theorem PoweredUp.deadline {f : Flash} {p : PowerUp} {h : Hsm P} (hboot : PoweredUp f p h)
    (hfaults : Faultless p.faults) (hprod : h.IsProd) (hpos : 0 < h.attempts) :
    h.pinBackoffUntilMs =
      satAddU h.nowMs (UInt64.ofNat (Pin.backoffMs (h.attempts - 1))) := by
  have hsector := (hboot.clean hfaults).sector
  have hattempts : h.attempts = Pin.used (f.sector .pinCounter) := by
    unfold Hsm.attempts
    rw [hsector]
  obtain ⟨drbg, entropy, g, cfg, keyblob, time, attempts, rfl, -, hread⟩ := hboot
  have hread := hread (Or.inl hfaults.no_fail)
  rw [hattempts] at hpos ⊢
  cases cfg with
  | none => cases hprod
  | some c =>
    have hmode : c.mode = .prod := by
      unfold Hsm.IsProd PowerUp.latch Hsm.loaded at hprod
      cases hmode : c.mode with
      | prod => rfl
      | dev =>
        simp only [hmode, Hsm.loadDev] at hprod
        split at hprod <;> simp [hmode] at hprod
    have hcount := hread.count c rfl hmode
    unfold PowerUp.latch Hsm.loaded
    simp only [hmode, Hsm.loadProd]
    rw [← hcount] at hpos ⊢
    rw [if_pos hpos]
    split <;> rfl

theorem CounterKept.relock (h : Hsm P) : CounterKept h h.relockOnTransportReset := by
  unfold Hsm.relockOnTransportReset
  dsimp only
  split
  · split
    · rename_i hready
      refine ⟨rfl, rfl, ⟨[], rfl, by simp⟩, fun _ => ⟨rfl, rfl, ?_⟩⟩
      simp [hready]
    · exact ⟨rfl, rfl, ⟨[], rfl, by simp⟩, fun _ => ⟨rfl, rfl, Iff.rfl⟩⟩
  · exact .refl h

theorem Hsm.nowMs_le_advance (h : Hsm P) (mono : UInt64) :
    h.nowMs.toNat ≤ ({ h with mono := max h.mono mono } : Hsm P).nowMs.toNat := by
  have hle : h.mono.toNat ≤ (max h.mono mono).toNat := UInt64.le_iff_toNat_le.mp (le_max_micros _ _)
  have hnow : ∀ h : Hsm P, h.nowMs.toNat = h.mono.toNat / 1000 := fun h => UInt64.toNat_div _ _
  rw [hnow, hnow]
  exact Nat.div_le_div_right hle

/-- The invariant of every state: the counter has no gap, and the deadline is timed. -/
def TimedInvariant (hist : List (Moment P)) (s : Sys P) : Prop :=
  Pin.Filled (s.flash.sector .pinCounter) ∧ ∀ h, s = .on h → Timed hist h

theorem TimedInvariant.on {hist : List (Moment P)} {h : Hsm P} (ht : Timed hist h) :
    TimedInvariant hist (.on h) := by
  refine ⟨ht.filled, ?_⟩
  rintro _ ⟨⟩
  exact ht

theorem Timed.booted {hist : List (Moment P)} {s : Sys P} {h : Hsm P} {p : PowerUp}
    {resp : Option Response} (hfilled : Pin.Filled (s.flash.sector .pinCounter))
    (hboot : PoweredUp s.flash p h) (hfaults : Faultless p.faults) :
    Timed (⟨.boot p, s, resp, .on h⟩ :: hist) h := by
  have hsince : sinceMs (⟨.boot p, s, resp, .on h⟩ :: hist) = h.nowMs.toNat :=
    sinceMs_restart hist (Or.inl rfl)
  constructor
  · rw [(hboot.clean hfaults).sector]
    exact hfilled
  · exact le_of_eq hsince
  · intro hprod hpos _
    rw [hsince, hboot.deadline hfaults hprod hpos]
    exact h.toNat_deadline _

/-- The step lemma. -/
theorem TimedInvariant.step {hist : List (Moment P)} {s s' : Sys P} {e : Event}
    {resp : Option Response} (hinv : TimedInvariant hist s) (hshape : ShapeInvariant s)
    (hstep : Stepped s e resp s') (hfaults : e.Faultless) :
    TimedInvariant (⟨e, s, resp, s'⟩ :: hist) s' := by
  obtain ⟨hfilled, htimed⟩ := hinv
  cases hstep with
  | booted hboot => exact .on (.booted hfilled hboot hfaults)
  | bootCut hcut hg => exact absurd hcut hfaults.not_hasCut
  | unpowered hno => exact ⟨hfilled, by simp⟩
  | @drew h h' _ faults _ hc hrun hrng =>
    have hkept : CounterKept (h.facing faults) h' := .of_onlyRng hrng
    exact .on ((htimed h rfl).kept hkept.of_facing rfl)
  | @served h h' _ faults c _ hc hrun =>
    have ht := htimed h rfl
    cases counterStep (hshape h rfl) hfaults hrun with
    | kept hkept => exact .on (ht.kept hkept rfl)
    | cleared hclear => exact .on (ht.cleared hclear)
    | failed hands hcfg hatt =>
      cases hatt with
      | busy hwaits => exact .on (ht.kept (.facing h _) rfl)
      | unjudged hpast hwhy => exact .on (ht.unjudged rfl _)
      | rejected hpast hrejects => exact .on (ht.rejected _ _)
  | @cut h h' _ faults c e hc hrun =>
    obtain ⟨resp, h₁, hanswer, -⟩ := (hshape h rfl).answers c (show Faultless faults from hfaults)
    rw [hanswer] at hrun
    cases hrun
  | @relocked h => exact .on ((htimed h rfl).kept (.relock h) rfl)
  | @advanced h mono =>
    have ht := htimed h rfl
    have hsince : sinceMs (⟨.advance mono, .on h, none, .on { h with mono := max h.mono mono }⟩ ::
        hist) = sinceMs hist := sinceMs_kept rfl rfl
    refine .on ⟨ht.filled, ?_, ?_⟩
    · rw [hsince]
      exact ht.since.trans (h.nowMs_le_advance mono)
    · rw [hsince]
      exact ht.deadline
  | @quiet h e drbg entropy heapFree rebootRequested he =>
    refine .on ((htimed h rfl).kept ⟨rfl, rfl, ⟨[], rfl, by simp⟩, fun _ => ⟨rfl, rfl, Iff.rfl⟩⟩ ?_)
    rcases he with rfl | ⟨n, rfl⟩ | rfl <;> rfl

/-! ### No attempt before its time -/

theorem Run.timed {image : Flash} {hist : List (Moment P)} {s : Sys P} (hrun : Run image hist s)
    (hfaults : ∀ m ∈ hist, m.event.Faultless)
    (himage : Pin.Filled (image.sector .pinCounter)) : TimedInvariant hist s := by
  induction hrun with
  | start => exact ⟨himage, by simp⟩
  | @step hist s hrun e ih =>
    have hinv := ih fun m hm => hfaults m (List.mem_cons_of_mem _ hm)
    have hshape : ShapeInvariant s := by
      rintro h rfl
      exact hrun.shaped
    exact hinv.step hshape (stepped s e) (hfaults _ List.mem_cons_self)

/-- A KEK was tried against the key blob at this moment. -/
def Moment.TriesPin (m : Moment P) : Prop :=
  ∃ seg limit opened, m.after.flash.journal = seg ++ m.before.flash.journal ∧
    Entry.tried limit opened ∈ seg

theorem Untried.not_tries {f g : Flash} (huntried : Untried f g) {seg : List Entry}
    (hseg : g.journal = seg ++ f.journal) (limit : UInt8) (opened : Bool) :
    Entry.tried limit opened ∉ seg := by
  obtain ⟨seg', hseg', hno⟩ := huntried
  obtain rfl : seg = seg' := List.append_cancel_right (hseg.symm.trans hseg')
  exact hno limit opened

theorem CounterKept.untried {h h' : Hsm P} (hkept : CounterKept h h') :
    Untried h.flash h'.flash := by
  obtain ⟨seg, hseg, haside⟩ := hkept.journal
  exact ⟨seg, hseg, fun limit opened htried => (haside _ htried).2.2 limit opened rfl⟩

/-- A KEK is tried by commands that hand a PIN past the deadline. -/
theorem CounterStep.attempts {h h' : Hsm P} {c : Command} {resp : HsmResponse}
    (hstep : CounterStep h c resp h') :
    Untried h.flash h'.flash ∨ Attempts h c := by
  cases hstep with
  | kept hkept => exact Or.inl hkept.untried
  | cleared hclear hwhy =>
    cases hwhy with
    | opened hatt => exact Or.inr hatt
    | reset huntried => exact Or.inl huntried
    | provisioned huntried => exact Or.inl huntried
  | @failed pin cfg _ h₁ faults hands hcfg hatt =>
    cases hatt with
    | busy hwaits => exact Or.inl ⟨[], rfl, by simp⟩
    | unjudged hpast hwhy => exact Or.inr ⟨pin, hands, hpast⟩
    | rejected hpast hrejects => exact Or.inr ⟨pin, hands, hpast⟩

theorem PoweredUp.untried {f : Flash} {p : PowerUp} {h : Hsm P} (hboot : PoweredUp f p h) :
    Untried f h.flash := by
  obtain ⟨drbg, entropy, g, cfg, keyblob, time, attempts, rfl, hg, -⟩ := hboot
  obtain ⟨state, ca, kek, until_, -, heq⟩ :=
    (Hsm.fresh entropy p.mono g drbg).loaded_cases cfg keyblob time attempts
  rw [heq]
  exact Untried.of_within (f := p.flash f) hg (by simp)

/-- While the delay lasts, whatever the event is, no KEK is tried. -/
theorem Stepped.untried_of_waits {h : Hsm P} {s' : Sys P} {e : Event} {resp : Option Response}
    (hstep : Stepped (.on h) e resp s') (hshape : h.Shaped) (hclean : e.Faultless)
    (hwaits : h.Waits) : Untried h.flash s'.flash := by
  cases hstep with
  | booted hboot => exact hboot.untried
  | bootCut hcut => exact absurd hcut hclean.not_hasCut
  | drew hc hrun hrng => exact (CounterKept.of_onlyRng hrng).of_facing.untried
  | served hc hrun =>
    rcases (counterStep hshape hclean hrun).attempts with huntried | ⟨pin, hands, hpast⟩
    · exact huntried
    · exact absurd hwaits hpast
  | @cut _ h' bytes faults c e hc hrun =>
    obtain ⟨resp, h₁, hanswer, -⟩ := hshape.answers c (show Faultless faults from hclean)
    rw [hanswer] at hrun
    cases hrun
  | relocked => exact (CounterKept.relock h).untried
  | advanced => exact ⟨[], rfl, by simp⟩
  | quiet => exact ⟨[], rfl, by simp⟩

/-- The delay that is due: so many milliseconds after the later of the wrong PIN and the boot. -/
def dueMs (hist : List (Moment P)) (h : Hsm P) : Nat :=
  sinceMs hist + min (250 * 2 ^ (h.attempts - 1)) 30000

theorem Timed.due {hist : List (Moment P)} {h : Hsm P} (ht : Timed hist h) (hprod : h.IsProd)
    (hpos : 0 < h.attempts) (hwrong : lastWrong h.flash.journal = true) :
    h.pinBackoffUntilMs.toNat = dueMs hist h := by
  unfold dueMs
  rw [← Pin.backoffMs_eq]
  exact ht.deadline hprod hpos hwrong

/-- On a production device with working flash, whose last recorded attempt was a wrong
    PIN: no KEK is tried before the delay of the attempts recorded has passed since the
    later of that attempt and the boot, and until then an attempt answers `ERR_BUSY`
    with the time that is left and leaves the flash alone. -/
theorem backoff_not_skipped {image : Flash} {hist : List (Moment P)} {h : Hsm P}
    (hrun : Run image hist (.on h)) (hfaults : ∀ m ∈ hist, m.event.Faultless)
    (himage : Pin.Filled (image.sector .pinCounter)) (hprod : h.IsProd) (hpos : 0 < h.attempts)
    (hwrong : lastWrong h.flash.journal = true) :
    (∀ e : Event, e.Faultless →
      (⟨e, .on h, ((Sys.on h).step e).2, ((Sys.on h).step e).1⟩ : Moment P).TriesPin →
        dueMs hist h ≤ h.nowMs.toNat) ∧
    (h.nowMs.toNat < dueMs hist h → ∀ (c : Command) (pin : Str) (faults : List Fault),
      Hands h c pin → Faultless faults → ∃ cfg faults', h.config = some cfg ∧
        c.run (h.facing faults) =
          .ok (pinError .busy "still backing off after a recent failed attempt"
            (cfg.maxRetries.toNat - h.attempts) (dueMs hist h - h.nowMs.toNat))
            (h.facing faults')) := by
  have ht := (hrun.timed hfaults himage).2 h rfl
  have hshape := hrun.shaped
  have hdue := ht.due hprod hpos hwrong
  have hwaits : h.nowMs.toNat < dueMs hist h → h.Waits :=
    fun hearly => ⟨hpos, UInt64.lt_iff_toNat_lt.mpr (by rw [hdue]; exact hearly)⟩
  constructor
  · intro e hclean htries
    by_contra hearly
    have hwaits := hwaits (Nat.not_le.mp hearly)
    obtain ⟨seg, limit, opened, hseg, htried⟩ := htries
    exact ((stepped (.on h) e).untried_of_waits hshape hclean hwaits).not_tries hseg limit opened htried
  · intro hearly c pin faults hands hclean
    obtain ⟨cfg, hcfg⟩ := Option.isSome_iff_exists.mp (hshape.config_isSome hands.state)
    obtain ⟨r, h₁, hserves, hatt⟩ := serves_verifyPin hcfg pin
    cases hatt with
    | busy hw =>
      obtain ⟨faults', hanswer, -⟩ := hands.serves_error hserves faults hclean
      refine ⟨cfg, faults', hcfg, ?_⟩
      rw [hanswer]
      have hleft : (h.pinBackoffUntilMs - h.nowMs).toNat % 2 ^ 32 = dueMs hist h - h.nowMs.toNat := by
        have hsub : (h.pinBackoffUntilMs - h.nowMs).toNat =
            h.pinBackoffUntilMs.toNat - h.nowMs.toNat :=
          UInt64.toNat_sub_of_le _ _ (UInt64.le_iff_toNat_le.mpr (by rw [hdue]; omega))
        have hsince := ht.since
        rw [hsub, hdue]
        apply Nat.mod_eq_of_lt
        unfold dueMs
        omega
      unfold Hsm.busyAnswer
      rw [hleft]
    | unjudged hpast => exact absurd (hwaits hearly) hpast
    | accepted hpast => exact absurd (hwaits hearly) hpast
    | rejected hpast => exact absurd (hwaits hearly) hpast

namespace Bench

/-- A bench host that unlocks with a PIN that is not the device's. -/
abbrev oneWrong : Prims := .bench [unlock ['0', '0', '0', '0', '0', '0']]

def oneWrongEvents : List Event := [send 0, .boot power]

end Bench

/-- A quarter of a second is due after one wrong PIN, and an attempt right behind it is told so. -/
theorem backoff_not_skipped_at_once :
    ∃ (hist : List (Moment Bench.oneWrong)) (h : Hsm Bench.oneWrong),
      Run Bench.prodImage hist (.on h) ∧ dueMs hist h = 250 ∧ h.nowMs = 0 ∧
      ∀ faults, Faultless faults → ∃ faults',
        (Command.unlock { pin := Bench.pin }).run (h.facing faults) =
          .ok (pinError .busy "still backing off after a recent failed attempt" 2 250)
            (h.facing faults') := by
  have hends : replayEnds (P := Bench.oneWrong) (fun _ _ h =>
      decide (h.config = some Bench.config) && h.state == .prodLocked && h.attempts == 1 &&
        lastWrong h.flash.journal && h.nowMs == 0) Bench.prodImage Bench.oneWrongEvents = true := by
    decide +kernel
  have hsince : sinceMs (replay (P := Bench.oneWrong) Bench.prodImage Bench.oneWrongEvents).1 = 0 := by
    decide +kernel
  obtain ⟨m, h, h', resp, -, -, -, -, htest, hhist, hrun⟩ := exists_of_replayEnds hends
  simp only [Bool.and_eq_true, beq_iff_eq, decide_eq_true_eq] at htest
  obtain ⟨⟨⟨⟨hconfig, hlocked⟩, hattempts⟩, hwrong⟩, hnow⟩ := htest
  rw [← hhist] at hrun
  change Run _ (replay Bench.prodImage Bench.oneWrongEvents).1 _ at hrun
  have hprod : h'.IsProd := by
    unfold Hsm.IsProd
    rw [hconfig]
    rfl
  have hdue : dueMs (replay (P := Bench.oneWrong) Bench.prodImage Bench.oneWrongEvents).1 h' = 250 := by
    unfold dueMs
    rw [hsince, hattempts]
    rfl
  obtain ⟨-, hbusy⟩ := backoff_not_skipped hrun (fun _ => faultless_of_replay (by decide))
    Pin.filled_erased hprod (by rw [hattempts]; exact Nat.one_pos) hwrong
  refine ⟨_, h', hrun, hdue, hnow, fun faults hfaults => ?_⟩
  obtain ⟨cfg, faults', hcfg, hanswer⟩ :=
    hbusy (by rw [hdue, hnow]; decide) (.unlock { pin := Bench.pin }) Bench.pin faults
      (.unlock hlocked) hfaults
  obtain rfl := Option.some.inj (hconfig.symm.trans hcfg)
  refine ⟨faults', ?_⟩
  rw [hanswer, hdue, hattempts, hnow]
  rfl

end PicoSignet
