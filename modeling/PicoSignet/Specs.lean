import PicoSignet.Footprint

/-!
# What the shared code of the handlers does

One lemma for each piece that several commands run: loading the session from
flash, the attempt counter, and `verify_pin` with both of its outcomes.  The
handlers' own properties are read off these, without unfolding the code again.
-/

set_option autoImplicit false

namespace PicoSignet

open Crash TwoCopy

variable {P : Prims}

/-! ### Reads that cannot have failed -/

/-- No read has failed so far. -/
def ReadsOk (f : Flash) : Prop := ∀ r, Entry.readError r ∉ f.journal

theorem ReadsOk.older {f g : Flash} (hg : ReadsOk g) (hsub : f.journal ⊆ g.journal) : ReadsOk f :=
  fun r hr => hg r (hsub hr)

def Entry.isReadError : Entry → Bool
  | .readError _ => true
  | _ => false

theorem readsOk_of_all {f : Flash} (h : f.journal.all (fun e => !e.isReadError) = true) :
    ReadsOk f := by
  intro r hr
  have := List.all_eq_true.mp h _ hr
  simp [Entry.isReadError] at this

/-- Between `f` and `f'` no read failed: none could, or none was recorded. -/
def Clean (f f' : Flash) : Prop :=
  (∀ left, Fault.fail left ∉ f.faults) ∨ ∀ r, Entry.readError r ∉ f'.journal

theorem Clean.within {R R' : Option Region → Prop} {f g g' f' : Flash} (h : Clean f f')
    (hfg : FlashWithin R f g) (hgf : FlashWithin R' g' f') : Clean g g' := by
  rcases h with h | h
  · exact Or.inl fun left hleft => h left (hfg.faults.subset hleft)
  · obtain ⟨seg, hseg, -⟩ := hgf.journal
    refine Or.inr fun r hr => h r ?_
    rw [hseg]
    exact List.mem_append_right _ hr

/-- The power goes in one of the operations ahead. -/
def HasCut (faults : List Fault) : Prop := ∃ left, Fault.cut left ∈ faults

theorem HasCut.of_suffix {faults faults' : List Fault} (h : HasCut faults') (hs : faults' <:+ faults) :
    HasCut faults := h.imp fun _ hleft => hs.subset hleft

theorem not_hasCut_nil : ¬ HasCut [] := by simp [HasCut]

/-- A program that only reads: it returns `v`, or the read that failed is on record. -/
def Reads {α : Type} (m : FlashM α) (f : Flash) (v : α) : Prop :=
  Wp m (fun a g => a = v ∧ FlashWithin (fun _ => False) f g)
    (fun e g => FlashWithin (fun _ => False) f g ∧
      (e = .powerLoss ∧ HasCut f.faults ∨ (∃ e', e = .hal e') ∧ ¬ Clean f g)) f

theorem wp_read_error (r : Region) (f : Flash) :
    Wp (read r) (fun _ _ => True)
      (fun e g => e = .powerLoss ∧ HasCut f.faults ∨ (∃ e', e = .hal e') ∧ ¬ Clean f g) f := by
  unfold read nextFault
  simp only [Wp_bind, Wp_get]
  cases hfaults : f.faults with
  | nil => exact trivial
  | cons fault rest =>
    cases fault with
    | none => exact trivial
    | fail left =>
      refine Or.inr ⟨⟨_, rfl⟩, ?_⟩
      rintro (h | h)
      · exact h left (by rw [hfaults]; exact List.mem_cons_self)
      · exact h r List.mem_cons_self
    | cut left => exact Or.inl ⟨rfl, left, List.mem_cons_self⟩

theorem reads_read (r : Region) (f : Flash) : Reads (read r) f (f.sector r) := by
  have hframe := stays_read (R := fun _ => False) r f
  refine Wp.mono (Wp.and (Wp.and (runs_read r f) hframe) (wp_read_error r f)) ?_ ?_
  · rintro s g ⟨⟨⟨⟨rfl, -⟩, -⟩, hg⟩, -⟩
    exact ⟨rfl, hg⟩
  · rintro e g ⟨⟨-, hg⟩, he⟩
    exact ⟨hg, he⟩

theorem FlashWithin.sector_eq {f g : Flash} (h : FlashWithin (fun _ => False) f g) :
    g.sector = f.sector := funext fun r => h.sector r not_false

theorem Reads.pure {α : Type} (v : α) (f : Flash) : Reads (Pure.pure v) f v :=
  ⟨rfl, refl_of (FlashWithin _) f⟩

/-- Reading on: what the second part returns may only depend on the sectors. -/
theorem Reads.bind {α β : Type} {m : FlashM α} {k : α → FlashM β} {f : Flash} {v : α} {w : β}
    (hm : Reads m f v) (hk : ∀ g : Flash, g.sector = f.sector → Reads (k v) g w) :
    Reads (m >>= k) f w := by
  unfold Reads
  rw [Wp_bind]
  refine Wp.mono hm ?_ fun _ _ he => he
  rintro a g ⟨rfl, hg⟩
  refine (hk g hg.sector_eq).mono ?_ ?_
  · rintro b g' ⟨rfl, hg'⟩
    exact ⟨rfl, trans_of (FlashWithin _) hg hg'⟩
  · rintro e g' ⟨hg', he⟩
    refine ⟨trans_of (FlashWithin _) hg hg', ?_⟩
    rcases he with ⟨he, hcut⟩ | ⟨he, hclean⟩
    · exact Or.inl ⟨he, hcut.of_suffix hg.faults⟩
    · exact Or.inr ⟨he, fun h => hclean (h.within hg (refl_of (FlashWithin fun _ => False) g'))⟩

theorem reads_readLatest (pair : AbPair) (f : Flash) :
    Reads (pair.readLatest P.crc32) f (pair.latest P.crc32 f.sector) := by
  unfold AbPair.readLatest readRecord AbPair.latest AbPair.copies
  refine Reads.bind (v := parseRecord P.crc32 (f.sector pair.a)) ?_ fun g hg => ?_
  · exact (reads_read pair.a f).bind fun g _ => Reads.pure _ g
  refine Reads.bind (v := parseRecord P.crc32 (f.sector pair.b)) ?_ fun g' hg' => ?_
  · rw [← hg]
    exact (reads_read pair.b g).bind fun g _ => Reads.pure _ g
  rw [← latestOf_eq_newest]
  exact Reads.pure _ g'

theorem reads_pinCount (f : Flash) : Reads Pin.count f (Pin.used (f.sector .pinCounter)) :=
  (reads_read .pinCounter f).bind fun g _ => Reads.pure _ g

/-- What the fail-closed reader makes of the pair: `none` is its error. -/
def AbPair.failClosed (crc : Octets → UInt32) (pair : AbPair) (image : Region → Sector) :
    Option (Option Octets) :=
  latestFailClosed (recordState crc (image pair.a)) (recordState crc (image pair.b))

/-- The `Result` of a fail-closed read that no fault touched. -/
def AbPair.failClosedResult (crc : Octets → UInt32) (pair : AbPair) (image : Region → Sector) :
    Except HalError (Option Octets) :=
  match pair.failClosed crc image with
  | some v => .ok v
  | none => .error .flash

theorem reads_readRecordState (r : Region) (f : Flash) :
    Reads (readRecordState P.crc32 r) f (recordState P.crc32 (f.sector r)) :=
  (reads_read r f).bind fun g _ => Reads.pure _ g

theorem wp_failClosed (pair : AbPair) (f : Flash) :
    Wp (pair.readLatestFailClosed P.crc32)
      (fun v g => FlashWithin (fun _ => False) f g ∧
        Except.ok v = pair.failClosedResult P.crc32 f.sector)
      (fun e g => FlashWithin (fun _ => False) f g ∧ (e = .powerLoss → HasCut f.faults) ∧
        ∀ e', e = .hal e' → Clean f g →
          Except.error e' = pair.failClosedResult P.crc32 f.sector) f := by
  -- a stop inside one of the two reads is a power loss or leaves its mark
  have hstop : ∀ {g g' : Flash} {e : Stop}, FlashWithin (fun _ => False) f g →
      FlashWithin (fun _ => False) g g' →
      (e = .powerLoss ∧ HasCut g.faults ∨ (∃ e', e = .hal e') ∧ ¬ Clean g g') →
      FlashWithin (fun _ => False) f g' ∧ (e = .powerLoss → HasCut f.faults) ∧
        ∀ e', e = .hal e' → Clean f g' →
          Except.error e' = pair.failClosedResult P.crc32 f.sector := by
    intro g g' e hfg hgg' he
    refine ⟨trans_of (FlashWithin _) hfg hgg', ?_⟩
    rcases he with ⟨rfl, hcut⟩ | ⟨⟨e', rfl⟩, he⟩
    · exact ⟨fun _ => hcut.of_suffix hfg.faults, by simp⟩
    · refine ⟨by simp, fun _ _ hclean => ?_⟩
      exact absurd (hclean.within hfg (refl_of (FlashWithin fun _ => False) g')) he
  unfold AbPair.readLatestFailClosed
  rw [Wp_bind]
  refine Wp.mono (reads_readRecordState pair.a f) ?_
    fun _ _ he => hstop (refl_of (FlashWithin _) f) he.1 he.2
  rintro ra g ⟨hra, hg⟩
  rw [Wp_bind]
  refine Wp.mono (reads_readRecordState pair.b g) ?_ fun _ _ he => hstop hg he.1 he.2
  rintro rb g' ⟨hrb, hg'⟩
  rw [hg.sector_eq] at hrb
  have hfg' := trans_of (FlashWithin _) hg hg'
  have hresult : pair.failClosed P.crc32 f.sector = latestFailClosed ra rb := by
    rw [hra, hrb]
    rfl
  unfold AbPair.failClosedResult
  rw [hresult]
  cases latestFailClosed ra rb with
  | some v =>
    rw [Wp_pure]
    exact ⟨hfg', rfl⟩
  | none =>
    rw [Wp_throw]
    refine ⟨hfg', by simp, ?_⟩
    rintro e' he' -
    obtain rfl := Stop.hal.inj he'
    rfl

/-! ### Loading the session -/

/-- The configuration a flash image holds. -/
def storedConfig (P : Prims) (image : Region → Sector) : Option DeviceConfig :=
  (CONFIG.latest P.crc32 image).bind DeviceConfig.fromBytes

/-- The key blob a flash image holds. -/
def storedKey (P : Prims) (image : Region → Sector) : Option KeyBlob :=
  (KEY.latest P.crc32 image).bind KeyBlob.fromBytes

/-- The time floor a flash image holds, and whether it is unavailable. -/
def storedFloor (P : Prims) (image : Region → Sector) : Option Int64 × Bool :=
  loadTimeFloor (TIME_FLOOR.failClosedResult P.crc32 image)

/-- The session `load_from_flash` leaves, from what it has read. -/
def Hsm.loaded (h : Hsm P) (cfg : Option DeviceConfig) (keyblob : Option KeyBlob)
    (time : Option Int64 × Bool) (attempts : Nat) : Hsm P :=
  let h := { h with
    trustedTimeFloor := time.1, trustedTimeFloorUnavailable := time.2,
    caPubkey := keyblob.map KeyBlob.pubkey, wrapSalt := none, config := cfg }
  match cfg with
  | none => { h with state := .uninitialized, ca := none, wrapKek := none, pinBackoffUntilMs := 0 }
  | some c =>
    match c.mode with
    | .dev => h.loadDev keyblob
    | .prod => h.loadProd c keyblob attempts

/-- The states a load can end in, with the secrets it leaves. -/
inductive LoadedState (keyblob : Option KeyBlob) (attempts : Nat) :
    Option DeviceConfig → DeviceState → Option CaKey → Option (Bytes 32) → Prop
  | blank : LoadedState keyblob attempts none .uninitialized none none
  | dev {c : DeviceConfig} {ca : Option CaKey} {kek : Option (Bytes 32)} (hmode : c.mode = .dev) :
      LoadedState keyblob attempts (some c) .devReady ca kek
  | locked {c : DeviceConfig} (hmode : c.mode = .prod)
      (hroom : keyblob.isSome → attempts < c.maxRetries.toNat) :
      LoadedState keyblob attempts (some c) .prodLocked none none
  | lockedOut {c : DeviceConfig} (hmode : c.mode = .prod) :
      LoadedState keyblob attempts (some c) .lockedOut none none

/-- What a load sets; the clock and the latches are not among it. -/
theorem Hsm.loaded_cases (h : Hsm P) (cfg : Option DeviceConfig) (keyblob : Option KeyBlob)
    (time : Option Int64 × Bool) (attempts : Nat) :
    ∃ state ca kek until_, LoadedState keyblob attempts cfg state ca kek ∧
      h.loaded cfg keyblob time attempts =
        { h with
          trustedTimeFloor := time.1, trustedTimeFloorUnavailable := time.2
          caPubkey := keyblob.map KeyBlob.pubkey, wrapSalt := none, config := cfg
          state := state, ca := ca, wrapKek := kek, pinBackoffUntilMs := until_ } := by
  unfold Hsm.loaded
  cases cfg with
  | none => exact ⟨_, _, _, _, .blank, rfl⟩
  | some c =>
    dsimp only
    cases hmode : c.mode with
    | dev =>
      dsimp only
      unfold Hsm.loadDev
      dsimp only
      split <;> exact ⟨_, _, _, _, .dev hmode, rfl⟩
    | prod =>
      dsimp only
      unfold Hsm.loadProd
      dsimp only
      split
      · exact ⟨_, _, _, _, .lockedOut hmode, rfl⟩
      · rename_i hopen
        refine ⟨_, _, _, _, .locked hmode fun hkey => ?_, rfl⟩
        simpa [hkey] using hopen

/-- The program changes nothing but the flash, along `rel`, and cannot panic. -/
def FlashOnly {α : Type} (rel : Flash → Flash → Prop) (m : Dev P α) : Prop :=
  ∀ h, Wp m (fun _ h' => ∃ g, h' = { h with flash := g } ∧ rel h.flash g)
    (fun e h' => e = .powerLoss ∧ ∃ g, h' = { h with flash := g } ∧ rel h.flash g) h

theorem FlashOnly.onFlash {α : Type} {rel : Flash → Flash → Prop} {m : FlashM α}
    (hm : Stays rel m) : FlashOnly rel (onFlash m : Dev P (Except HalError α)) := by
  intro h
  rw [Wp_onFlash]
  refine (hm h.flash).mono (fun _ g hg => ⟨g, rfl, hg⟩) ?_
  intro e g hg
  cases e with
  | hal e => exact ⟨g, rfl, hg⟩
  | powerLoss => exact ⟨rfl, g, rfl, hg⟩

section FlashOnly

variable {rel : Flash → Flash → Prop} [IsPreorder Flash rel]

theorem FlashOnly.pure {α : Type} (a : α) : FlashOnly rel (Pure.pure a : Dev P α) := fun h =>
  ⟨h.flash, rfl, refl_of rel h.flash⟩

theorem FlashOnly.bind {α β : Type} {m : Dev P α} {k : α → Dev P β} (hm : FlashOnly rel m)
    (hk : ∀ a, FlashOnly rel (k a)) : FlashOnly rel (m >>= k) := by
  intro h
  rw [Wp_bind]
  refine (hm h).mono ?_ fun _ _ he => he
  rintro a _ ⟨g, rfl, hg⟩
  refine (hk a _).mono ?_ ?_
  · rintro b _ ⟨g', rfl, hg'⟩
    exact ⟨g', rfl, trans_of rel hg hg'⟩
  · rintro e _ ⟨he, g', rfl, hg'⟩
    exact ⟨he, g', rfl, trans_of rel hg hg'⟩

end FlashOnly

theorem FlashWithin.journal_subset {R : Option Region → Prop} {f g : Flash}
    (h : FlashWithin R f g) : f.journal ⊆ g.journal := by
  obtain ⟨seg, hseg, -⟩ := h.journal
  rw [hseg]
  exact List.subset_append_right _ _

theorem wp_onFlash_reads {α : Type} {m : FlashM α} {v : α} {h : Hsm P}
    (hm : Reads m h.flash v) :
    Wp (onFlash m)
      (fun r h' => ∃ g, h' = { h with flash := g } ∧ FlashWithin (fun _ => False) h.flash g ∧
        (∀ a, r = .ok a → a = v) ∧ (Clean h.flash g → r = .ok v))
      (fun e h' => e = .powerLoss ∧ HasCut h.flash.faults ∧
        ∃ g, h' = { h with flash := g } ∧ FlashWithin (fun _ => False) h.flash g) h := by
  rw [Wp_onFlash]
  refine Wp.mono hm ?_ ?_
  · rintro a g ⟨rfl, hg⟩
    exact ⟨g, rfl, hg, fun _ ha => (Except.ok.inj ha).symm, fun _ => rfl⟩
  · rintro e g ⟨hg, ⟨rfl, hcut⟩ | ⟨⟨e', rfl⟩, hclean⟩⟩
    · exact ⟨rfl, hcut, g, rfl, hg⟩
    · exact ⟨g, rfl, hg, by simp, fun h => absurd h hclean⟩

theorem wp_onFlash_failClosed (pair : AbPair) (h : Hsm P) :
    Wp (onFlash (pair.readLatestFailClosed P.crc32))
      (fun r h' => ∃ g, h' = { h with flash := g } ∧ FlashWithin (fun _ => False) h.flash g ∧
        (Clean h.flash g → r = pair.failClosedResult P.crc32 h.flash.sector))
      (fun e h' => e = .powerLoss ∧ HasCut h.flash.faults ∧
        ∃ g, h' = { h with flash := g } ∧ FlashWithin (fun _ => False) h.flash g) h := by
  rw [Wp_onFlash]
  refine Wp.mono (wp_failClosed pair h.flash) ?_ ?_
  · rintro v g ⟨hg, hv⟩
    exact ⟨g, rfl, hg, fun _ => hv⟩
  · rintro e g ⟨hg, hcut, he⟩
    cases e with
    | hal e => exact ⟨g, rfl, hg, fun hclean => he e rfl hclean⟩
    | powerLoss => exact ⟨rfl, hcut rfl, g, rfl, hg⟩

/-- What a load has read, when no read failed: the contents of the flash. -/
structure ReadAll (P : Prims) (image : Region → Sector) (cfg : Option DeviceConfig)
    (keyblob : Option KeyBlob) (time : Option Int64 × Bool) (attempts : Nat) : Prop where
  config : cfg = storedConfig P image
  key : keyblob = storedKey P image
  floor : time = storedFloor P image
  count : ∀ c, cfg = some c → c.mode = .prod → attempts = Pin.used (image .pinCounter)

theorem wp_loadFromFlash (h : Hsm P) :
    Wp loadFromFlash
      (fun _ h' => ∃ g cfg keyblob time attempts,
        h' = Hsm.loaded { h with flash := g } cfg keyblob time attempts ∧
        FlashWithin (fun _ => False) h.flash g ∧
        (Clean h.flash g → ReadAll P h.flash.sector cfg keyblob time attempts))
      (fun e h' => e = .powerLoss ∧ HasCut h.flash.faults ∧
        FlashWithin (fun _ => False) h.flash h'.flash) h := by
  unfold loadFromFlash
  rw [Wp_bind]
  refine Wp.mono (wp_onFlash_reads (reads_readLatest CONFIG h.flash)) ?_ ?_
  case refine_2 =>
    rintro e _ ⟨rfl, hcut, g, rfl, hg⟩
    exact ⟨rfl, hcut, hg⟩
  rintro rc _ ⟨g₁, rfl, hg₁, -, hrc⟩
  rw [Wp_bind]
  refine Wp.mono (wp_onFlash_reads (reads_readLatest KEY g₁)) ?_ ?_
  case refine_2 =>
    rintro e _ ⟨rfl, hcut, g, rfl, hg⟩
    exact ⟨rfl, hcut.of_suffix hg₁.faults, trans_of (FlashWithin _) hg₁ hg⟩
  rintro rk _ ⟨g₂, rfl, hg₂, -, hrk⟩
  have h02 := trans_of (FlashWithin _) hg₁ hg₂
  rw [Wp_bind]
  refine Wp.mono (wp_onFlash_failClosed TIME_FLOOR _) ?_ ?_
  case refine_2 =>
    rintro e _ ⟨rfl, hcut, g, rfl, hg⟩
    exact ⟨rfl, hcut.of_suffix h02.faults, trans_of (FlashWithin _) h02 hg⟩
  rintro rt _ ⟨g₃, rfl, hg₃, hrt⟩
  have h03 := trans_of (FlashWithin _) h02 hg₃
  have h13 := trans_of (FlashWithin _) hg₂ hg₃
  -- the values read, in terms of the image the load started from
  have hread : ∀ g, FlashWithin (fun _ => False) g₃ g → Clean h.flash g →
      decodeLatest DeviceConfig.fromBytes rc = storedConfig P h.flash.sector ∧
      decodeLatest KeyBlob.fromBytes rk = storedKey P h.flash.sector ∧
      loadTimeFloor rt = storedFloor P h.flash.sector := by
    intro g hg hclean
    rw [hrc (hclean.within (refl_of (FlashWithin fun _ => False) _)
        (trans_of (FlashWithin _) h13 hg)),
      hrk (hclean.within hg₁ (trans_of (FlashWithin _) hg₃ hg)), hrt (hclean.within h02 hg)]
    dsimp only
    rw [hg₂.sector_eq, hg₁.sector_eq]
    exact ⟨rfl, rfl, rfl⟩
  rw [Wp_bind, Wp_modify]
  cases hcfg : decodeLatest DeviceConfig.fromBytes rc with
  | none =>
    refine ⟨g₃, none, decodeLatest KeyBlob.fromBytes rk, loadTimeFloor rt, 0, rfl, h03, ?_⟩
    intro hclean
    obtain ⟨hc, hk, ht⟩ := hread g₃ (refl_of (FlashWithin _) g₃) hclean
    exact ⟨hcfg.symm.trans hc, hk, ht, by simp⟩
  | some c =>
    cases hmode : c.mode with
    | dev =>
      dsimp only
      rw [hmode, Wp_modify]
      refine ⟨g₃, some c, decodeLatest KeyBlob.fromBytes rk, loadTimeFloor rt, 0, ?_, h03, ?_⟩
      · simp only [Hsm.loaded, hmode]
      · intro hclean
        obtain ⟨hc, hk, ht⟩ := hread g₃ (refl_of (FlashWithin _) g₃) hclean
        refine ⟨hcfg.symm.trans hc, hk, ht, ?_⟩
        rintro c' hc' hprod
        obtain rfl := Option.some.inj hc'
        rw [hmode] at hprod
        exact absurd hprod (by decide)
    | prod =>
      dsimp only
      rw [hmode, Wp_bind]
      refine Wp.mono (wp_onFlash_reads (reads_pinCount _)) ?_ ?_
      case refine_2 =>
        rintro e _ ⟨rfl, hcut, g, rfl, hg⟩
        exact ⟨rfl, hcut.of_suffix h03.faults, trans_of (FlashWithin _) h03 hg⟩
      rintro rp _ ⟨g₄, rfl, hg₄, -, hrp⟩
      rw [Wp_modify]
      refine ⟨g₄, some c, decodeLatest KeyBlob.fromBytes rk, loadTimeFloor rt, countOrZero rp, ?_,
        trans_of (FlashWithin _) h03 hg₄, ?_⟩
      · simp only [Hsm.loaded, hmode]
      · intro hclean
        obtain ⟨hc, hk, ht⟩ := hread g₄ hg₄ hclean
        refine ⟨hcfg.symm.trans hc, hk, ht, ?_⟩
        rintro c' - -
        have hrp' := hrp (hclean.within h03 (refl_of (FlashWithin fun _ => False) g₄))
        rw [hrp', ← h03.sector_eq]
        rfl

/-! ### Power-up -/

/-- A session that a power-up reaches: loaded into a fresh one, then latched. -/
def PoweredUp (f : Flash) (p : PowerUp) (h : Hsm P) : Prop :=
  ∃ (drbg : Drbg P) (entropy : Entropy) (g : Flash) (cfg : Option DeviceConfig)
    (keyblob : Option KeyBlob) (time : Option Int64 × Bool) (attempts : Nat),
    h = p.latch ((Hsm.fresh entropy p.mono g drbg).loaded cfg keyblob time attempts) ∧
    FlashWithin (fun _ => False) (p.flash f) g ∧
    (Clean (p.flash f) g → ReadAll P f.sector cfg keyblob time attempts)

theorem wp_boot (entropy : Entropy) (mono : UInt64) (f : Flash) :
    match (boot entropy mono f : EStateM.Result Halt (Hsm P) Unit) with
    | .ok () h => ∃ (drbg : Drbg P) (entropy' : Entropy) (g : Flash) (cfg : Option DeviceConfig)
        (keyblob : Option KeyBlob) (time : Option Int64 × Bool) (attempts : Nat),
        h = (Hsm.fresh entropy' mono g drbg).loaded cfg keyblob time attempts ∧
        FlashWithin (fun _ => False) f g ∧
        (Clean f g → ReadAll P f.sector cfg keyblob time attempts)
    | .error _ h => HasCut f.faults ∧ FlashWithin (fun _ => False) f h.flash := by
  unfold boot
  dsimp only
  split
  · rename_i h heq
    obtain ⟨g, cfg, keyblob, time, attempts, rfl, hg, hread⟩ := (wp_loadFromFlash _).of_ok heq
    exact ⟨_, _, g, cfg, keyblob, time, attempts, rfl, hg, hread⟩
  · rename_i e h heq
    exact ((wp_loadFromFlash _).of_error heq).2

theorem powerUp_ok {f : Flash} {p : PowerUp} {h : Hsm P} (hboot : powerUp f p = .ok () h) :
    PoweredUp f p h := by
  have hspec := wp_boot (P := P) p.entropy p.mono (p.flash f)
  unfold powerUp at hboot
  cases hrun : (boot p.entropy p.mono (p.flash f) : EStateM.Result Halt (Hsm P) Unit) with
  | ok _ h₀ =>
    rw [hrun] at hboot hspec
    obtain ⟨drbg, entropy, g, cfg, keyblob, time, attempts, rfl, hg, hread⟩ := hspec
    cases hboot
    exact ⟨drbg, entropy, g, cfg, keyblob, time, attempts, rfl, hg, hread⟩
  | error e h₀ =>
    rw [hrun] at hboot
    cases hboot

theorem powerUp_error {f : Flash} {p : PowerUp} {h : Hsm P} {e : Halt}
    (hboot : powerUp f p = .error e h) :
    HasCut p.faults ∧ FlashWithin (fun _ => False) (p.flash f) h.flash := by
  have hspec := wp_boot (P := P) p.entropy p.mono (p.flash f)
  unfold powerUp at hboot
  cases hrun : (boot p.entropy p.mono (p.flash f) : EStateM.Result Halt (Hsm P) Unit) with
  | ok _ h₀ =>
    rw [hrun] at hboot
    cases hboot
  | error e h₀ =>
    rw [hrun] at hboot hspec
    cases hboot
    exact hspec

/-- Every flash operation ahead succeeds. -/
def Faultless (faults : List Fault) : Prop := ∀ fault ∈ faults, fault = .none

theorem faultless_nil : Faultless [] := by simp [Faultless]

theorem Faultless.not_hasCut {faults : List Fault} (h : Faultless faults) : ¬ HasCut faults := by
  rintro ⟨left, hleft⟩
  exact absurd (h _ hleft) (by simp)

theorem Faultless.no_fail {faults : List Fault} (h : Faultless faults) (left : Sector) :
    Fault.fail left ∉ faults := by
  intro hleft
  exact absurd (h _ hleft) (by simp)

theorem Faultless.of_suffix {faults faults' : List Fault} (h : Faultless faults)
    (hs : faults' <:+ faults) : Faultless faults' := fun fault hfault => h fault (hs.subset hfault)

def Event.faults : Event → List Fault
  | .boot p => p.faults
  | .line _ faults => faults
  | _ => []

def Event.Faultless (e : Event) : Prop := PicoSignet.Faultless e.faults

theorem faultless_of_replay {image : Flash} {events : List Event}
    (h : events.all (fun e => e.faults.isEmpty) = true) {m : Moment P}
    (hm : m ∈ (replay image events).1) : m.event.Faultless := by
  have := List.all_eq_true.mp h _ (event_mem_of_replay hm)
  unfold Event.Faultless
  rw [List.isEmpty_iff.mp this]
  exact faultless_nil

/-- What a power-up without faults finds out about the time. -/
structure BootedClean (f : Flash) (p : PowerUp) (h : Hsm P) : Prop where
  floor : h.trustedTimeFloor = (storedFloor P f.sector).1
  unavailable : h.trustedTimeFloorUnavailable = (storedFloor P f.sector).2
  clock : h.clock = {}
  mono : h.mono = p.mono
  physical : h.physicalRecoveryAuthorized = p.physicalRecovery
  sector : h.flash.sector = f.sector

theorem PoweredUp.of_clean {f : Flash} {p : PowerUp} {h : Hsm P} (hboot : PoweredUp f p h)
    (hclean : Clean (p.flash f) h.flash) : BootedClean f p h := by
  obtain ⟨drbg, entropy, g, cfg, keyblob, time, attempts, rfl, hg, hread⟩ := hboot
  obtain ⟨state, ca, kek, until_, -, heq⟩ :=
    (Hsm.fresh entropy p.mono g drbg).loaded_cases cfg keyblob time attempts
  rw [heq] at hclean ⊢
  have hfloor := (hread hclean).floor
  exact ⟨congrArg Prod.fst hfloor, congrArg Prod.snd hfloor, rfl, rfl, rfl, hg.sector_eq⟩

theorem PoweredUp.clean {f : Flash} {p : PowerUp} {h : Hsm P} (hboot : PoweredUp f p h)
    (hfaults : Faultless p.faults) : BootedClean f p h := hboot.of_clean (Or.inl hfaults.no_fail)

theorem powerUp_faultless (f : Flash) {p : PowerUp} (hfaults : Faultless p.faults) :
    ∃ h : Hsm P, powerUp f p = .ok () h ∧ BootedClean f p h := by
  cases hboot : (powerUp f p : EStateM.Result Halt (Hsm P) Unit) with
  | ok _ h => exact ⟨h, rfl, (powerUp_ok hboot).clean hfaults⟩
  | error e h => exact absurd (powerUp_error hboot).1 hfaults.not_hasCut

/-! ### Writing a pair -/

/-- The payload was written as the latest record of the pair. -/
structure Wrote (P : Prims) (pair : AbPair) (payload : Octets) (f g : Flash) : Prop where
  within : FlashWithin (· = some (pair.nextTarget P.crc32 f.sector)) f g
  sector : g.sector = Function.update f.sector (pair.nextTarget P.crc32 f.sector)
    (recordImage P.crc32 (pair.nextNumber P.crc32 f.sector) payload)

/-- A write that did not return: it had not begun its record, or it is the last
    one that was begun. -/
structure WriteStopped (P : Prims) (pair : AbPair) (payload : Octets) (f g : Flash) : Prop where
  within : FlashWithin (· = some (pair.nextTarget P.crc32 f.sector)) f g
  begun : g.sector = f.sector ∨
    lastRecord g.journal = some (pair.nextTarget P.crc32 f.sector,
      f.sector (pair.nextTarget P.crc32 f.sector), pair.nextNumber P.crc32 f.sector, payload)

/-- The sector in which a record was last begun holds nothing that was never written. -/
def RecordsDetected (P : Prims) (f : Flash) : Prop :=
  ∀ record ∈ lastRecord f.journal,
    TornDetected P.crc32 record.2.1 (f.sector record.1) record.2.2.1 record.2.2.2

instance (f : Flash) : Decidable (RecordsDetected P f) :=
  inferInstanceAs (Decidable (∀ record ∈ lastRecord f.journal, _ ∨ _ ∨ _))

theorem WriteStopped.step {pair : AbPair} {payload : Octets} {f g : Flash}
    (hg : WriteStopped P pair payload f g) (hdetected : RecordsDetected P g) :
    Copies.Step (2 ^ 32) (pair.copies P.crc32 f.sector) (some payload)
      (pair.copies P.crc32 g.sector) := by
  rcases hg.begun with hsame | hlast
  · rw [hsame]
    exact Copies.Step.kept _ _
  · exact AbPair.step_cut (fun r hr => hg.within.sector r fun heq => hr (Option.some.inj heq))
      (hdetected _ hlast)

theorem Wrote.step {pair : AbPair} {payload : Octets} {f g : Flash}
    (hg : Wrote P pair payload f g) (hpayload : payload.length ≤ 4080) :
    Copies.Step (2 ^ 32) (pair.copies P.crc32 f.sector) (some payload)
      (pair.copies P.crc32 g.sector) := by
  rw [AbPair.step_done hpayload hg.sector]
  exact Copies.Step.done _ _

/-- The pair has a number left for one more record. -/
def AbPair.NumberLeft (crc : Octets → UInt32) (pair : AbPair) (image : Region → Sector) : Prop :=
  (pair.copies crc image).next < 2 ^ 32

instance (crc : Octets → UInt32) (pair : AbPair) (image : Region → Sector) :
    Decidable (pair.NumberLeft crc image) := inferInstanceAs (Decidable (_ < _))

/-- A complete write is read back, if a number was left for it. -/
theorem Wrote.latest {pair : AbPair} {payload : Octets} {f g : Flash}
    (hg : Wrote P pair payload f g) (hpayload : payload.length ≤ 4080)
    (hleft : pair.NumberLeft P.crc32 f.sector) : pair.latest P.crc32 g.sector = some payload := by
  unfold AbPair.latest
  rw [AbPair.step_done hpayload hg.sector, Nat.mod_eq_of_lt hleft, Copies.newest_write]

theorem wp_write (pair : AbPair) {payload : Octets} (hpayload : payload.length ≤ 4080) (f : Flash) :
    Wp (pair.write P.crc32 payload) (fun _ g => Wrote P pair payload f g)
      (fun e g => WriteStopped P pair payload f g ∧ e.Justified f.faults) f := by
  refine Wp.mono (Wp.and (wp_write_footprint P.crc32 pair payload f)
    (Wp.and (runs_write P.crc32 pair f hpayload) (wp_write_last P.crc32 pair f hpayload))) ?_ ?_
  · rintro _ g ⟨hwithin, ⟨hsector, -⟩, -⟩
    exact ⟨hwithin, hsector⟩
  · rintro e g ⟨hwithin, hjust, hbegun⟩
    exact ⟨⟨hwithin, hbegun⟩, hjust⟩

theorem wp_onFlash_write (pair : AbPair) {payload : Octets} (hpayload : payload.length ≤ 4080)
    (h : Hsm P) :
    Wp (onFlash (pair.write P.crc32 payload))
      (fun r h' => ∃ g, h' = { h with flash := g } ∧
        (r = .ok () ∧ Wrote P pair payload h.flash g ∨
          (∃ e, r = .error e) ∧ WriteStopped P pair payload h.flash g ∧
            ∃ left, Fault.fail left ∈ h.flash.faults))
      (fun e h' => e = .powerLoss ∧ WriteStopped P pair payload h.flash h'.flash ∧
        HasCut h.flash.faults) h := by
  rw [Wp_onFlash]
  refine (wp_write pair hpayload h.flash).mono (fun _ g hg => ⟨g, rfl, Or.inl ⟨rfl, hg⟩⟩) ?_
  rintro e g ⟨hg, hjust⟩
  cases e with
  | hal e => exact ⟨g, rfl, Or.inr ⟨⟨e, rfl⟩, hg, hjust⟩⟩
  | powerLoss => exact ⟨rfl, hg, hjust⟩

theorem AbPair.nextTarget_mem (crc : Octets → UInt32) (pair : AbPair) (image : Region → Sector) :
    pair.nextTarget crc image = pair.a ∨ pair.nextTarget crc image = pair.b := by
  unfold AbPair.nextTarget AbPair.target
  split
  · exact Or.inl rfl
  · exact Or.inr rfl

theorem length_keyBlob (k : KeyBlob) : k.toBytes.length = 109 := by
  simp [KeyBlob.toBytes]

theorem length_deviceConfig (c : DeviceConfig) : c.toBytes.length = 15 := by
  simp [DeviceConfig.toBytes]

end PicoSignet
