import PicoSignet.Specs

/-!
# What `verify_pin` does

Everything before the KEK is tried only adds ticks to the counter (`Ticks`).
After that the code either resets the counter, or applies the backoff and
possibly the lockout with its wipe.
-/

set_option autoImplicit false

namespace PicoSignet

open Crash

variable {P : Prims}

/-! ### The counter sector -/

theorem Pin.le_scan (s : Sector) (fuel n : Nat) : n ≤ Pin.scan s fuel n := by
  induction fuel generalizing n with
  | zero => exact le_rfl
  | succ fuel ih =>
    unfold Pin.scan
    split
    · exact le_trans (Nat.le_succ n) (ih (n + 1))
    · exact le_rfl

/-- The scan counts as long as it meets cleared bytes, and stops at the first other. -/
theorem Pin.le_scan_iff (s : Sector) {fuel n m : Nat} (hn : n ≤ m) (hm : m ≤ n + fuel) :
    m ≤ Pin.scan s fuel n ↔ ∀ i, n ≤ i → i < m → s.get i ≠ 0xFF := by
  induction fuel generalizing n with
  | zero =>
    constructor
    · intro _ i hi hlt
      omega
    · intro _
      unfold Pin.scan
      omega
  | succ fuel ih =>
    unfold Pin.scan
    rcases Nat.eq_or_lt_of_le hn with rfl | hlt
    · constructor
      · intro _ i hi hlt
        omega
      · intro _
        split
        · exact le_trans (Nat.le_succ n) (Pin.le_scan s fuel (n + 1))
        · exact le_rfl
    · split
      · rename_i hhead
        rw [ih hlt (by omega)]
        constructor
        · intro h i hi him
          rcases Nat.eq_or_lt_of_le hi with rfl | hi'
          · exact hhead
          · exact h i hi' him
        · intro h i hi him
          exact h i (by omega) him
      · rename_i hhead
        constructor
        · intro h
          omega
        · intro h
          exact absurd (h n le_rfl hlt) hhead

theorem Pin.le_used_iff (s : Sector) {m : Nat} (hm : m ≤ SECTOR_LEN) :
    m ≤ Pin.used s ↔ ∀ i, i < m → s.get i ≠ 0xFF := by
  unfold Pin.used
  rw [Pin.le_scan_iff s (Nat.zero_le m) (by omega)]
  exact ⟨fun h i hi => h i (Nat.zero_le i) hi, fun h i _ hi => h i hi⟩

theorem Pin.scan_le (s : Sector) (fuel n : Nat) : Pin.scan s fuel n ≤ n + fuel := by
  induction fuel generalizing n with
  | zero => exact le_rfl
  | succ fuel ih =>
    unfold Pin.scan
    split
    · have := ih (n + 1)
      omega
    · omega

theorem Pin.used_le (s : Sector) : Pin.used s ≤ SECTOR_LEN := by
  have := Pin.scan_le s SECTOR_LEN 0
  unfold Pin.used
  omega

/-- Clearing bits never takes an attempt back. -/
theorem Pin.used_mono {s s' : Sector} (h : ∀ i, i < SECTOR_LEN → s.get i ≠ 0xFF → s'.get i ≠ 0xFF) :
    Pin.used s ≤ Pin.used s' := by
  rw [Pin.le_used_iff s' (Pin.used_le s)]
  intro i hi
  have hle := Pin.used_le s
  exact h i (by omega) ((Pin.le_used_iff s hle).mp le_rfl i hi)

theorem Pin.used_program (s : Sector) (off : Nat) (page : Octets) :
    Pin.used s ≤ Pin.used (s.program off page) := by
  refine Pin.used_mono fun i hi hne => ?_
  rw [Sector.get_program s off page hi]
  split
  · exact fun h => hne (and_eq_ff h).1
  · exact hne

theorem Pin.used_programTorn (s : Sector) (off len : Nat) (mask : Sector) :
    Pin.used s ≤ Pin.used (s.programTorn off len mask) := by
  refine Pin.used_mono fun i hi hne => ?_
  rw [Sector.get_of_lt _ hi] at hne ⊢
  unfold Sector.programTorn
  split
  · exact fun h => hne (and_eq_ff h).1
  · exact hne

theorem Pin.length_tickPage (within : Nat) : (Pin.tickPage within).length = PAGE_LEN := by
  simp [Pin.tickPage]

theorem Pin.tickPage_self {within : Nat} (h : within < PAGE_LEN) :
    (Pin.tickPage within).getD within 0xFF = 0 := by
  rw [List.getD_eq_getElem _ _ (by rw [Pin.length_tickPage]; exact h)]
  exact List.getElem_set_self _

/-- A completed tick is counted. -/
theorem Pin.used_tick (s : Sector) (h : Pin.used s < SECTOR_LEN) :
    Pin.used s + 1 ≤ Pin.used (s.program (Pin.used s / PAGE_LEN * PAGE_LEN)
      (Pin.tickPage (Pin.used s % PAGE_LEN))) := by
  have hold := Pin.used_program s (Pin.used s / PAGE_LEN * PAGE_LEN)
    (Pin.tickPage (Pin.used s % PAGE_LEN))
  have hmod : Pin.used s % PAGE_LEN < PAGE_LEN := Nat.mod_lt _ (by decide)
  have hsplit : Pin.used s / PAGE_LEN * PAGE_LEN + Pin.used s % PAGE_LEN = Pin.used s := by
    rw [Nat.mul_comm]
    exact Nat.div_add_mod _ _
  rw [Pin.le_used_iff _ h]
  intro i hi
  rcases Nat.lt_succ_iff_lt_or_eq.mp hi with hlt | rfl
  · exact (Pin.le_used_iff _ (le_of_lt h)).mp hold i hlt
  · have hwithin : Pin.used s - Pin.used s / PAGE_LEN * PAGE_LEN = Pin.used s % PAGE_LEN := by
      omega
    rw [Sector.get_program _ _ _ h, Pin.length_tickPage, if_pos (by omega), hwithin,
      Pin.tickPage_self hmod]
    intro hff
    exact absurd (and_eq_ff hff).2 (by decide)

/-! ### Ticks -/

/-- The counter may have been ticked; nothing else happened. -/
structure Ticks (f g : Flash) : Prop where
  within : FlashWithin (· = some .pinCounter) f g
  journal : ∃ seg, g.journal = seg ++ f.journal ∧
    ∀ e ∈ seg, e = .program .pinCounter ∨ ∃ r, e = .readError r
  used : Pin.used (f.sector .pinCounter) ≤ Pin.used (g.sector .pinCounter)

instance : IsPreorder Flash Ticks where
  refl f := ⟨refl_of (FlashWithin _) f, ⟨[], rfl, by simp⟩, le_rfl⟩
  trans := by
    rintro f g h ⟨hfg, ⟨seg, hseg, hin⟩, hle⟩ ⟨hgh, ⟨seg', hseg', hin'⟩, hle'⟩
    refine ⟨trans_of (FlashWithin _) hfg hgh, ⟨seg' ++ seg, ?_, ?_⟩, le_trans hle hle'⟩
    · rw [hseg', hseg, List.append_assoc]
    · intro e he
      rcases List.mem_append.mp he with he | he
      · exact hin' e he
      · exact hin e he

theorem Ticks.of_reads {f g : Flash} (h : FlashWithin (fun _ => False) f g) : Ticks f g := by
  obtain ⟨seg, hseg, hin⟩ := h.journal
  refine ⟨h.mono fun _ hr => hr.elim, ⟨seg, hseg, ?_⟩, ?_⟩
  · intro e he
    have hinside := hin e he
    cases e with
    | readError r => exact Or.inr ⟨r, rfl⟩
    | _ => exact hinside.elim
  · rw [h.sector_eq]

theorem Ticks.sector {f g : Flash} (h : Ticks f g) {r : Region} (hr : r ≠ .pinCounter) :
    g.sector r = f.sector r :=
  h.within.sector r fun heq => hr (Option.some.inj heq)

theorem Ticks.storedKey {f g : Flash} (h : Ticks f g) :
    storedKey P g.sector = storedKey P f.sector := by
  unfold PicoSignet.storedKey AbPair.latest
  rw [AbPair.copies_congr (h.sector (by decide)) (h.sector (by decide))]

theorem ticks_nextFault : Stays Ticks nextFault := by
  intro f
  unfold nextFault
  rw [Wp_bind, Wp_get]
  split
  · exact refl_of Ticks f
  · rename_i fault rest hfaults
    refine ⟨⟨fun _ _ => rfl, rfl, rfl, ?_, [], rfl, by simp⟩, ⟨[], rfl, by simp⟩, le_rfl⟩
    rw [hfaults]
    exact List.suffix_cons fault rest

theorem ticks_read (r : Region) : Stays Ticks (read r) := by
  refine Stays.bind ticks_nextFault fun fault => ?_
  cases fault with
  | none => exact Stays.bind Stays.get fun _ => Stays.pure _
  | fail left =>
    refine Stays.bind (Stays.modify fun f => ⟨?_, ⟨[.readError r], rfl, by simp⟩, le_rfl⟩)
      fun _ => Stays.throw _
    exact FlashWithin.log (e := .readError r) trivial f
  | cut left => exact Stays.throw _

theorem ticks_put {s : Sector → Sector} (hs : ∀ x, Pin.used x ≤ Pin.used (s x)) :
    Stays Ticks (modify fun f => f.put .pinCounter (s (f.sector .pinCounter)) : FlashM PUnit) := by
  refine Stays.modify fun f => ⟨?_, ⟨[], rfl, by simp⟩, ?_⟩
  · exact FlashWithin.put (R := (· = some .pinCounter)) rfl f _
  · exact hs _

theorem ticks_program (off : Nat) (page : Octets) :
    Stays Ticks (program .pinCounter off page) := by
  refine Stays.ite (Stays.throw _) ?_
  refine Stays.bind (Stays.modify fun f => ⟨?_, ⟨[.program .pinCounter], rfl, by simp⟩, le_rfl⟩)
    fun _ => Stays.bind ticks_nextFault fun fault => ?_
  · exact FlashWithin.log (R := (· = some .pinCounter)) (e := .program .pinCounter) rfl f
  cases fault with
  | none => exact ticks_put fun x => Pin.used_program x off page
  | fail mask =>
    exact Stays.bind (ticks_put fun x => Pin.used_programTorn x off page.length mask) fun _ =>
      Stays.throw _
  | cut mask =>
    exact Stays.bind (ticks_put fun x => Pin.used_programTorn x off page.length mask) fun _ =>
      Stays.throw _

theorem ticks_pinCount : Stays Ticks Pin.count := Stays.bind (ticks_read _) fun _ => Stays.pure _

theorem ticks_readLatest (crc : Octets → UInt32) (pair : AbPair) :
    Stays Ticks (pair.readLatest crc) := by
  have hrecord : ∀ r, Stays Ticks (readRecord crc r) := fun r =>
    Stays.bind (ticks_read r) fun _ => Stays.pure _
  exact Stays.bind (hrecord _) fun _ => Stays.bind (hrecord _) fun _ => Stays.pure _

/-- What `tick` returns, for a counter at `n` before and `m` after it. -/
def TickResult (n m a : Nat) : Prop := (a = n + 1 ∨ a = n ∧ SECTOR_LEN ≤ n) ∧ a ≤ m

theorem wp_tick (f : Flash) :
    Wp Pin.tick
      (fun a g => Ticks f g ∧
        TickResult (Pin.used (f.sector .pinCounter)) (Pin.used (g.sector .pinCounter)) a)
      (fun _ g => Ticks f g) f := by
  unfold Pin.tick
  rw [Wp_bind]
  refine Wp.mono (Wp.and (reads_pinCount f) (ticks_pinCount f)) ?_ fun _ _ he => he.2
  rintro n g ⟨⟨rfl, hg⟩, hfg⟩
  have hsector : g.sector .pinCounter = f.sector .pinCounter := by rw [hg.sector_eq]
  split
  · rename_i hfull
    rw [Wp_pure, hsector]
    exact ⟨hfg, Or.inr ⟨rfl, hfull⟩, le_rfl⟩
  · rename_i hroom
    rw [Wp_bind]
    have hlt : Pin.used (f.sector .pinCounter) < SECTOR_LEN := not_le.mp hroom
    have hfits : Pin.used (f.sector .pinCounter) / PAGE_LEN * PAGE_LEN +
        (Pin.tickPage (Pin.used (f.sector .pinCounter) % PAGE_LEN)).length ≤ SECTOR_LEN := by
      rw [Pin.length_tickPage]
      unfold PAGE_LEN SECTOR_LEN at *
      omega
    refine Wp.mono (Wp.and (runs_program .pinCounter g hfits) (ticks_program _ _ g)) ?_
      fun _ _ he => trans_of Ticks hfg he.2
    rintro _ g' ⟨⟨hsector', -⟩, hgg'⟩
    rw [Wp_pure]
    refine ⟨trans_of Ticks hfg hgg', Or.inl rfl, ?_⟩
    rw [hsector', Function.update_self, hsector]
    exact Pin.used_tick _ hlt

/-! ### Resets and wipes -/

/-- At least one erase of the counter was started; nothing else happened. -/
structure Resets (f g : Flash) : Prop where
  within : FlashWithin (· = some .pinCounter) f g
  journal : ∃ n, g.journal = List.replicate (n + 1) (.erase .pinCounter) ++ f.journal

theorem wp_pinReset (f : Flash) :
    Wp Pin.reset (fun _ g => Resets f g) (fun _ g => Resets f g) f := by
  have hframe := stays_erase (R := (· = some .pinCounter)) rfl f
  have hlog : Wp (erase .pinCounter) (fun _ g => g.journal = .erase .pinCounter :: f.journal)
      (fun _ g => g.journal = .erase .pinCounter :: f.journal) f := by
    unfold erase nextFault note
    simp only [Wp_bind, Wp_get, Wp_modify]
    cases (f.log (.erase .pinCounter)).faults with
    | nil => rfl
    | cons fault rest => cases fault <;> rfl
  refine Wp.mono (Wp.and hframe hlog) ?_ ?_
  · rintro _ g ⟨hg, hj⟩
    exact ⟨hg, 0, hj⟩
  · rintro _ g ⟨hg, hj⟩
    exact ⟨hg, 0, hj⟩

theorem Resets.trans {f g h : Flash} (hfg : Resets f g) (hgh : Resets g h) : Resets f h := by
  obtain ⟨n, hn⟩ := hfg.journal
  obtain ⟨m, hm⟩ := hgh.journal
  refine ⟨trans_of (FlashWithin _) hfg.within hgh.within, m + 1 + n, ?_⟩
  rw [hm, hn, ← List.append_assoc, List.replicate_append_replicate]
  congr 2

/-- The best-effort reset: it starts an erase, and keeps the session but for the backoff. -/
theorem wp_resetPinCounter (tries : Nat) (h : Hsm P) :
    Wp (resetPinCounterBestEffort (tries + 1))
      (fun _ h' => ∃ g until_, Resets h.flash g ∧
        h' = { h with flash := g, pinBackoffUntilMs := until_ })
      (fun e h' => e = .powerLoss ∧ Resets h.flash h'.flash) h := by
  induction tries generalizing h with
  | zero =>
    unfold resetPinCounterBestEffort
    rw [Wp_bind, Wp_onFlash]
    refine (wp_pinReset h.flash).mono ?_ ?_
    · intro _ g hg
      exact ⟨g, 0, hg, rfl⟩
    · intro e g hg
      cases e with
      | hal e => exact ⟨g, h.pinBackoffUntilMs, hg, rfl⟩
      | powerLoss => exact ⟨rfl, hg⟩
  | succ tries ih =>
    unfold resetPinCounterBestEffort
    rw [Wp_bind, Wp_onFlash]
    refine (wp_pinReset h.flash).mono ?_ ?_
    · intro _ g hg
      exact ⟨g, 0, hg, rfl⟩
    · intro e g hg
      cases e with
      | hal e =>
        refine (ih { h with flash := g }).mono ?_ ?_
        · rintro _ _ ⟨g', until_, hg', rfl⟩
          exact ⟨g', until_, hg.trans hg', rfl⟩
        · rintro e h' ⟨he, hg'⟩
          exact ⟨he, hg.trans hg'⟩
      | powerLoss => exact ⟨rfl, hg⟩

/-! ### Guesses -/

/-- The wrong PINs tried since an erase of the counter was last started, as the
    retry limits in force at each, newest first. -/
def wrongTries : List Entry → List UInt8
  | [] => []
  | .erase .pinCounter :: _ => []
  | .tried limit false :: older => limit :: wrongTries older
  | _ :: older => wrongTries older

/-- No wrong PIN was tried, and the counter lost no attempt unless its erase is on record. -/
def NoGuess (f g : Flash) : Prop :=
  wrongTries g.journal = [] ∨ wrongTries g.journal = wrongTries f.journal ∧
    Pin.used (f.sector .pinCounter) ≤ Pin.used (g.sector .pinCounter)

instance : IsPreorder Flash NoGuess where
  refl f := Or.inr ⟨rfl, le_rfl⟩
  trans := by
    rintro f g h hfg (hh | ⟨hgh, hle'⟩)
    · exact Or.inl hh
    · rcases hfg with hg | ⟨hfg, hle⟩
      · exact Or.inl (hgh.trans hg)
      · exact Or.inr ⟨hgh.trans hfg, le_trans hle hle'⟩

/-- Entries that neither try a PIN nor erase the counter do not change the guesses. -/
theorem wrongTries_append {seg older : List Entry}
    (h : ∀ e ∈ seg, e ≠ .erase .pinCounter ∧ ∀ limit, e ≠ .tried limit false) :
    wrongTries (seg ++ older) = wrongTries older := by
  induction seg with
  | nil => rfl
  | cons e seg ih =>
    obtain ⟨herase, htried⟩ := h e List.mem_cons_self
    have hrest := ih fun e he => h e (List.mem_cons_of_mem _ he)
    cases e with
    | readError r => exact hrest
    | erase r =>
      cases r with
      | pinCounter => exact absurd rfl herase
      | _ => exact hrest
    | program r => exact hrest
    | record r before seq payload => exact hrest
    | wipe => exact hrest
    | tried limit opened =>
      cases opened with
      | true => exact hrest
      | false => exact absurd rfl (htried limit)

/-- A footprint without the counter, in which no KEK is tried. -/
theorem NoGuess.of_within {R : Option Region → Prop} {f g : Flash} (h : FlashWithin R f g)
    (hpin : ¬ R (some .pinCounter)) (hnone : ¬ R none) : NoGuess f g := by
  obtain ⟨seg, hseg, hin⟩ := h.journal
  refine Or.inr ⟨?_, by rw [h.sector _ hpin]⟩
  rw [hseg]
  refine wrongTries_append fun e he => ⟨?_, ?_⟩
  · rintro rfl
    exact hpin (hin _ he)
  · rintro limit rfl
    exact hnone (hin _ he)

theorem Ticks.noGuess {f g : Flash} (h : Ticks f g) : NoGuess f g := by
  obtain ⟨seg, hseg, hin⟩ := h.journal
  refine Or.inr ⟨?_, h.used⟩
  rw [hseg]
  refine wrongTries_append fun e he => ⟨?_, ?_⟩
  · rintro rfl
    exact absurd (hin _ he) (by simp)
  · rintro limit rfl
    exact absurd (hin _ he) (by simp)

theorem Resets.wrongTries {f g : Flash} (h : Resets f g) : wrongTries g.journal = [] := by
  obtain ⟨n, hn⟩ := h.journal
  rw [hn]
  rfl

theorem Resets.noGuess {f g : Flash} (h : Resets f g) : NoGuess f g := Or.inl h.wrongTries

/-- The region set of the KEY pair. -/
def KeyRegion (r : Option Region) : Prop := r = some .keyA ∨ r = some .keyB

/-- A wipe of the KEY pair was started, and nothing else was touched. -/
structure Wipes (f g : Flash) : Prop where
  within : FlashWithin KeyRegion f g
  started : Entry.wipe ∈ g.journal

/-- One round of the verified erase, without its note. -/
theorem flashOnly_eraseRound {again : Dev P Bool} (h : FlashOnly (FlashWithin KeyRegion) again) :
    FlashOnly (FlashWithin KeyRegion) (do
      let _ ← onFlash KEY.eraseBoth
      match ← onFlash (KEY.readLatest P.crc32) with
      | .ok none => return true
      | _ => again : Dev P Bool) := by
  refine FlashOnly.bind (FlashOnly.onFlash (stays_eraseBoth (Or.inl rfl) (Or.inr rfl))) fun _ => ?_
  refine FlashOnly.bind (FlashOnly.onFlash (stays_readLatest _ _)) fun r => ?_
  split
  · exact FlashOnly.pure _
  · exact h

theorem within_logWipe (f : Flash) : FlashWithin KeyRegion f (f.log .wipe) := by
  have hinside : Entry.wipe.Inside KeyRegion := Or.inl rfl
  exact FlashWithin.log hinside f

theorem flashOnly_eraseKeyVerified (tries : Nat) :
    FlashOnly (FlashWithin KeyRegion) (eraseKeyVerified tries : Dev P Bool) := by
  induction tries with
  | zero => exact FlashOnly.pure _
  | succ tries ih =>
    refine FlashOnly.bind (FlashOnly.onFlash (Stays.modify within_logWipe)) fun _ => ?_
    exact flashOnly_eraseRound ih

theorem wp_eraseKeyVerified (tries : Nat) (h : Hsm P) :
    Wp (eraseKeyVerified (tries + 1))
      (fun _ h' => ∃ g, h' = { h with flash := g } ∧ Wipes h.flash g)
      (fun e h' => e = .powerLoss ∧ Wipes h.flash h'.flash) h := by
  have hwipes : ∀ g, FlashWithin KeyRegion (h.flash.log .wipe) g → Wipes h.flash g := by
    intro g hg
    exact ⟨trans_of (FlashWithin _) (within_logWipe h.flash) hg,
      hg.journal_subset List.mem_cons_self⟩
  have hround := flashOnly_eraseRound (flashOnly_eraseKeyVerified tries)
    { h with flash := h.flash.log .wipe }
  refine Wp.mono hround ?_ ?_
  · rintro _ _ ⟨g, rfl, hg⟩
    exact ⟨g, rfl, hwipes g hg⟩
  · rintro e _ ⟨he, g, rfl, hg⟩
    exact ⟨he, hwipes g hg⟩

/-! ### The two outcomes of a try -/

/-- The PIN derives a KEK that unwraps the stored key blob. -/
def Opens (P : Prims) (f : Flash) (cfg : DeviceConfig) (pin : Str) (seed kek : Bytes 32)
    (salt : Bytes 16) : Prop :=
  ∃ blob secret, storedKey P f.sector = some blob ∧ f.deviceSecret = .ok secret ∧
    blob.salt = salt ∧ pinKek P pin.bytes salt cfg.argon2 secret = .ok kek ∧
    unwrapSeed P kek blob = .ok seed

/-- What a wrong PIN leaves, at `attempts` counted attempts. -/
inductive WrongPin (cfg : DeviceConfig) (attempts : Nat) (h : Hsm P) : Hsm P → Prop
  | retry (until_ : UInt64) (hlt : attempts < cfg.maxRetries.toNat) :
      WrongPin cfg attempts h { h with pinBackoffUntilMs := until_ }
  | lockout (until_ : UInt64) (hge : cfg.maxRetries.toNat ≤ attempts)
      (hwipe : cfg.wipeOnLockout = false) :
      WrongPin cfg attempts h { h.enterLockedOut with pinBackoffUntilMs := until_ }
  | wipe (until_ : UInt64) (g : Flash) (pubkey : Option (Bytes 32))
      (hge : cfg.maxRetries.toNat ≤ attempts) (hwipe : cfg.wipeOnLockout = true)
      (hg : Wipes h.flash g) (hpubkey : pubkey = none ∨ pubkey = h.caPubkey) :
      WrongPin cfg attempts h
        { h.enterLockedOut with pinBackoffUntilMs := until_, flash := g, caPubkey := pubkey }

theorem wp_wrongPin (cfg : DeviceConfig) (attempts : Nat) (h : Hsm P) :
    Wp (wrongPin cfg attempts)
      (fun r h' => (∃ resp, r = .error resp) ∧ WrongPin cfg attempts h h')
      (fun e h' => e = .powerLoss ∧ cfg.maxRetries.toNat ≤ attempts ∧ cfg.wipeOnLockout = true ∧
        Wipes h.flash h'.flash) h := by
  unfold wrongPin
  rw [Wp_bind, Wp_modify]
  split
  · rename_i hge
    rw [Wp_bind, Wp_modify]
    cases hwipe : cfg.wipeOnLockout with
    | false => exact ⟨⟨_, rfl⟩, WrongPin.lockout _ hge hwipe⟩
    | true =>
      rw [if_pos rfl, Wp_bind]
      refine Wp.mono (wp_eraseKeyVerified 1 _) ?_ ?_
      · rintro gone _ ⟨g, rfl, hg⟩
        cases gone with
        | true => exact ⟨⟨_, rfl⟩, WrongPin.wipe _ g none hge hwipe hg (Or.inl rfl)⟩
        | false => exact ⟨⟨_, rfl⟩, WrongPin.wipe _ g h.caPubkey hge hwipe hg (Or.inr rfl)⟩
      · rintro e h' ⟨he, hg⟩
        exact ⟨he, hge, rfl, hg⟩
  · rename_i hlt
    exact ⟨⟨_, rfl⟩, WrongPin.retry _ (not_le.mp hlt)⟩

/-- The outcomes of `verify_pin`. -/
inductive Verified (cfg : DeviceConfig) (pin : Str) (h : Hsm P) :
    Except HsmResponse UnlockedSeed → Hsm P → Prop
  | refused {resp : HsmResponse} {g : Flash} (hg : Ticks h.flash g) :
      Verified cfg pin h (.error resp) { h with flash := g }
  | opened {g g' : Flash} {until_ : UInt64} {seed kek : Bytes 32} {salt : Bytes 16}
      (hg : Ticks h.flash g) (hopens : Opens P h.flash cfg pin seed kek salt)
      (hreset : Resets (g.log (.tried cfg.maxRetries true)) g') :
      Verified cfg pin h (.ok (seed, kek, salt))
        { h with flash := g', pinBackoffUntilMs := until_ }
  | wrong {resp : HsmResponse} {g : Flash} {attempts : Nat} {h' : Hsm P} (hg : Ticks h.flash g)
      (hblob : (storedKey P h.flash.sector).isSome)
      (htick : TickResult (Pin.used (h.flash.sector .pinCounter))
        (Pin.used (g.sector .pinCounter)) attempts)
      (hwrong : WrongPin cfg attempts { h with flash := g.log (.tried cfg.maxRetries false) } h') :
      Verified cfg pin h (.error resp) h'

/-- Where the power can go while `verify_pin` runs. -/
inductive VerifyCut (P : Prims) (cfg : DeviceConfig) (pin : Str) (f : Flash) : Flash → Prop
  | ticking {g : Flash} (hg : Ticks f g) : VerifyCut P cfg pin f g
  | resetting {g g' : Flash} {seed kek : Bytes 32} {salt : Bytes 16} (hg : Ticks f g)
      (hopens : Opens P f cfg pin seed kek salt)
      (hreset : Resets (g.log (.tried cfg.maxRetries true)) g') : VerifyCut P cfg pin f g'
  | wiping {g g' : Flash} {attempts : Nat} (hg : Ticks f g)
      (hblob : (storedKey P f.sector).isSome)
      (htick : TickResult (Pin.used (f.sector .pinCounter))
        (Pin.used (g.sector .pinCounter)) attempts)
      (hge : cfg.maxRetries.toNat ≤ attempts) (hwipe : cfg.wipeOnLockout = true)
      (hg' : Wipes (g.log (.tried cfg.maxRetries false)) g') : VerifyCut P cfg pin f g'

theorem wp_verifyPin {cfg : DeviceConfig} (pin : Str) (h : Hsm P) (hcfg : h.config = some cfg) :
    Wp (verifyPin pin) (Verified cfg pin h)
      (fun e h' => e = .powerLoss ∧ VerifyCut P cfg pin h.flash h'.flash) h := by
  unfold verifyPin
  rw [Wp_bind, Wp_get, hcfg]
  dsimp only
  rw [Wp_bind]
  refine Wp.mono (FlashOnly.onFlash (stays_pinCount (R := fun _ => False)) h) ?_ ?_
  case refine_2 =>
    rintro e _ ⟨he, g, rfl, hg⟩
    exact ⟨he, .ticking (Ticks.of_reads hg)⟩
  rintro count _ ⟨g₁, rfl, hg₁⟩
  have hticks₁ := Ticks.of_reads hg₁
  cases count with
  | error e => exact .refused hticks₁
  | ok priorFailures =>
  dsimp only
  split
  · exact .refused hticks₁
  rw [Wp_bind, Wp_onFlash]
  refine Wp.mono (wp_tick g₁) ?_ ?_
  case refine_2 =>
    intro e g₂ hg₂
    have hticks₂ := trans_of Ticks hticks₁ hg₂
    cases e with
    | hal e => exact .refused hticks₂
    | powerLoss => exact ⟨rfl, .ticking hticks₂⟩
  rintro attempts g₂ ⟨hg₂, htick⟩
  rw [hg₁.sector_eq] at htick
  have hticks₂ := trans_of Ticks hticks₁ hg₂
  dsimp only
  rw [Wp_bind]
  refine Wp.mono (wp_onFlash_reads (reads_readLatest KEY g₂)) ?_ ?_
  case refine_2 =>
    rintro e _ ⟨he, -, g₃, rfl, hg₃⟩
    exact ⟨he, .ticking (trans_of Ticks hticks₂ (Ticks.of_reads hg₃))⟩
  rintro key _ ⟨g₃, rfl, hg₃, hkey, -⟩
  have hticks := trans_of Ticks hticks₂ (Ticks.of_reads hg₃)
  rw [← hg₃.sector_eq] at htick
  split
  · exact .refused hticks
  · exact .refused hticks
  rename_i bytes
  split
  · exact .refused hticks
  rename_i blob hblob
  have hstored : storedKey P h.flash.sector = some blob := by
    rw [← hticks₂.storedKey]
    unfold PicoSignet.storedKey
    rw [← hkey _ rfl]
    exact hblob
  split
  · exact .refused hticks
  rename_i secret hsecret
  split
  · exact .refused hticks
  rename_i kek hkek
  split
  · rename_i seed hseed
    have hopens : Opens P h.flash cfg pin seed kek blob.salt :=
      ⟨blob, secret, hstored, hsecret, rfl, hkek, hseed⟩
    rw [Wp_bind, Wp_onFlash]
    change Wp _ _ _ { h with flash := g₃.log (.tried cfg.maxRetries true) }
    rw [Wp_bind]
    refine Wp.mono (wp_resetPinCounter 1 _) ?_ ?_
    · rintro _ _ ⟨g', until_, hg', rfl⟩
      exact .opened hticks hopens hg'
    · rintro e h' ⟨he, hg'⟩
      exact ⟨he, .resetting hticks hopens hg'⟩
  · have hblob' : (storedKey P h.flash.sector).isSome := by
      rw [hstored]
      rfl
    rw [Wp_bind, Wp_onFlash]
    change Wp _ _ _ { h with flash := g₃.log (.tried cfg.maxRetries false) }
    refine Wp.mono (wp_wrongPin cfg attempts _) ?_ ?_
    · rintro _ h' ⟨⟨resp, rfl⟩, hwrong⟩
      exact .wrong hticks hblob' htick hwrong
    · rintro e h' ⟨he, hge, hwipe, hg'⟩
      exact ⟨he, .wiping hticks hblob' htick hge hwipe hg'⟩

def HsmResponse.IsError (resp : HsmResponse) : Prop := ∃ e, resp = .error e

theorem HsmResponse.isError_err (code : ErrCode) (message : String) :
    (HsmResponse.err code message).IsError := ⟨_, rfl⟩

/-- The texts with which `verify_pin` refuses. -/
def verifyMessages : List String :=
  ["counter read failed", "still backing off after a recent failed attempt",
    "counter write failed", "key read failed", "no CA key present", "corrupt key blob",
    "device secret unavailable", "key derivation failed",
    "lockout reached but key wipe failed; key material may remain",
    "too many attempts; device locked out", "incorrect PIN"]

/-- An error of `verify_pin`. -/
def HsmResponse.OfVerify (resp : HsmResponse) : Prop :=
  ∃ e, resp = .error e ∧ e.message ∈ verifyMessages

theorem HsmResponse.OfVerify.isError {resp : HsmResponse} (h : resp.OfVerify) : resp.IsError := by
  obtain ⟨e, he, -⟩ := h
  exact ⟨e, he⟩

/-- The postcondition of a refusal. -/
theorem ofVerify_of_mem {resp' : HsmResponse} (h : resp'.OfVerify) :
    ∀ resp, (Except.error resp' : Except HsmResponse UnlockedSeed) = .error resp →
      resp.OfVerify := by
  intro resp heq
  obtain rfl := Except.error.inj heq
  exact h

theorem wrongPin_ofVerify (cfg : DeviceConfig) (attempts : Nat) (h : Hsm P) :
    Wp (wrongPin cfg attempts) (fun r _ => ∀ resp, r = .error resp → resp.OfVerify)
      (fun _ _ => True) h := by
  unfold wrongPin
  rw [Wp_bind, Wp_modify]
  split
  · rw [Wp_bind, Wp_modify]
    split
    · refine Wp.bind_any _ (fun gone h' => ?_) fun _ _ => trivial
      split <;> exact ofVerify_of_mem ⟨_, rfl, by simp [verifyMessages]⟩
    · exact ofVerify_of_mem ⟨_, rfl, by simp [verifyMessages]⟩
  · exact ofVerify_of_mem ⟨_, rfl, by simp [verifyMessages]⟩

/-- A PIN that is not verified is answered with one of these errors. -/
theorem verifyPin_ofVerify (pin : Str) (h : Hsm P) :
    Wp (verifyPin pin) (fun r _ => ∀ resp, r = .error resp → resp.OfVerify) (fun _ _ => True) h := by
  unfold verifyPin
  rw [Wp_bind, Wp_get]
  split
  · trivial
  refine Wp.bind_any _ (fun count _ => ?_) fun _ _ => trivial
  split
  · exact ofVerify_of_mem ⟨_, rfl, by simp [verifyMessages]⟩
  split
  · exact ofVerify_of_mem ⟨_, rfl, by simp [verifyMessages]⟩
  refine Wp.bind_any _ (fun tick _ => ?_) fun _ _ => trivial
  split
  · exact ofVerify_of_mem ⟨_, rfl, by simp [verifyMessages]⟩
  refine Wp.bind_any _ (fun key _ => ?_) fun _ _ => trivial
  split
  · exact ofVerify_of_mem ⟨_, rfl, by simp [verifyMessages]⟩
  · exact ofVerify_of_mem ⟨_, rfl, by simp [verifyMessages]⟩
  split
  · exact ofVerify_of_mem ⟨_, rfl, by simp [verifyMessages]⟩
  split
  · exact ofVerify_of_mem ⟨_, rfl, by simp [verifyMessages]⟩
  split
  · exact ofVerify_of_mem ⟨_, rfl, by simp [verifyMessages]⟩
  split
  · refine Wp.bind_any _ (fun _ _ => ?_) fun _ _ => trivial
    refine Wp.bind_any _ (fun _ _ => ?_) fun _ _ => trivial
    intro resp heq
    cases heq
  · refine Wp.bind_any _ (fun _ h' => ?_) fun _ _ => trivial
    exact wrongPin_ofVerify _ _ h'

/-- Without a configuration `verify_pin` panics before it does anything. -/
theorem wp_verifyPin_none (pin : Str) (h : Hsm P) (hcfg : h.config = none) :
    Wp (verifyPin pin) (fun _ _ => False) (fun e h' => e = .panic ∧ h' = h) h := by
  unfold verifyPin
  rw [Wp_bind, Wp_get, hcfg]
  exact ⟨rfl, rfl⟩

end PicoSignet
