/-
  PicoSignet/KeyGone.lean
  =======================
  **What a reported wipe means** — `erase_key_verified` ignores what `erase_both`
  returns and asks only whether a record can still be read.  So its `true` means
  that both KEY sectors are erased just when every erase that fails leaves a
  readable record behind (`key_gone_iff`): a sector that holds a torn record, or
  that the failing erase has damaged, passes the check with its bytes in place.
-/
import Mathlib
import PicoSignet.Commands
import PicoSignet.EraseCut

set_option autoImplicit false

namespace PicoSignet

open Crash TwoCopy

variable {P : Prims}

/-! ### The verified erase -/

/-- Both KEY sectors read back all `0xFF`. -/
def KeyErased (f : Flash) : Prop :=
  f.sector .keyA = Sector.erased ∧ f.sector .keyB = Sector.erased

/-- Every operation that fails leaves its sector in `L`. -/
def FailsLeave (L : Sector → Prop) (faults : List Fault) : Prop :=
  ∀ left, Fault.fail left ∈ faults → L left

theorem FailsLeave.of_suffix {L : Sector → Prop} {faults faults' : List Fault}
    (h : FailsLeave L faults) (hs : faults' <:+ faults) : FailsLeave L faults' :=
  fun left hleft => h left (hs.subset hleft)

theorem AbPair.latest_isSome {crc : Octets → UInt32} {pair : AbPair} {image : Region → Sector}
    (h : (parseRecord crc (image pair.a)).isSome ∨ (parseRecord crc (image pair.b)).isSome) :
    pair.latest crc image ≠ none := by
  unfold AbPair.latest AbPair.copies
  cases ha : parseRecord crc (image pair.a) with
  | none =>
    cases hb : parseRecord crc (image pair.b) with
    | none => simp [ha, hb] at h
    | some rb => simp [asCopy, Copies.newest]
  | some ra =>
    cases hb : parseRecord crc (image pair.b) with
    | none => simp [asCopy, Copies.newest]
    | some rb =>
      simp only [asCopy, Option.map_some, Copies.newest]
      split <;> simp

section Readable

variable {L : Sector → Prop} (hL : ∀ left, L left → (parseRecord P.crc32 left).isSome)

include hL

/-- One round of erasing: both sectors are gone, or a record can still be read. -/
theorem wp_eraseBoth_readable {h : Hsm P} (hfails : FailsLeave L h.flash.faults) :
    Wp (onFlash KEY.eraseBoth)
      (fun _ h' => (KeyErased h'.flash ∨ KEY.latest P.crc32 h'.flash.sector ≠ none) ∧
        h'.flash.faults <:+ h.flash.faults)
      (fun _ _ => True) h := by
  rw [Wp_onFlash]
  refine Wp.mono (Wp.and (KEY.wp_eraseBoth h.flash)
    (stays_eraseBoth (R := fun _ => True) trivial trivial h.flash)) ?_ ?_
  · rintro _ g ⟨hg, hwithin⟩
    refine ⟨Or.inl ⟨?_, ?_⟩, hwithin.faults⟩
    · rw [hg]
      exact Function.update_of_ne (by decide) _ _
    · rw [hg]
      exact Function.update_self _ _ _
  · rintro e g ⟨⟨left, hleft, hg⟩, hwithin⟩
    cases e with
    | powerLoss => trivial
    | hal e =>
      have hparse := hL left (hfails left hleft)
      refine ⟨Or.inr ?_, hwithin.faults⟩
      apply AbPair.latest_isSome
      rcases hg with hg | hg
      · left
        rw [hg, Function.update_self]
        exact hparse
      · right
        rw [hg, Function.update_self]
        exact hparse

theorem wp_eraseKeyVerified_readable (tries : Nat) {h : Hsm P}
    (hfails : FailsLeave L h.flash.faults) :
    Wp (eraseKeyVerified tries : Dev P Bool) (fun gone h' => gone = true → KeyErased h'.flash)
      (fun _ _ => True) h := by
  -- by induction on the tries; a round that leaves a record is not the last
  induction tries generalizing h with
  | zero => exact fun hgone => absurd hgone (by simp)
  | succ tries ih =>
    unfold eraseKeyVerified
    rw [Wp_bind]
    change Wp _ _ _ { h with flash := h.flash.log .wipe }
    rw [Wp_bind]
    refine Wp.mono (wp_eraseBoth_readable hL hfails) ?_ fun _ _ _ => trivial
    rintro _ h₁ ⟨hround, hsuffix⟩
    rw [Wp_bind]
    refine Wp.mono (wp_onFlash_reads (reads_readLatest KEY h₁.flash)) ?_ fun _ _ _ => trivial
    rintro r _ ⟨g, rfl, hg, hvalue, -⟩
    split
    · rw [Wp_pure]
      intro _
      have hnone := hvalue none rfl
      rcases hround with herased | hsome
      · unfold KeyErased at herased ⊢
        dsimp only
        rw [hg.sector_eq]
        exact herased
      · exact absurd hnone.symm hsome
    · exact ih ((hfails.of_suffix hsuffix).of_suffix hg.faults)

end Readable

/-! ### The rest of the erase phase -/

/-- What `factoryReset` erases and checks besides the key. -/
def eraseRest (keyGone : Bool) : Dev P Bool := do
  let cfgOk := (← onFlash CONFIG.eraseBoth).isOk
  let timeOk := (← onFlash TIME_FLOOR.eraseBoth).isOk
  let pinOk := (← onFlash Pin.reset).isOk
  let cfgGone := match ← onFlash (CONFIG.readLatest P.crc32) with
    | .ok none => true
    | _ => false
  let timeGone := match ← onFlash (TIME_FLOOR.readLatest P.crc32) with
    | .ok none => true
    | _ => false
  return keyGone && cfgOk && timeOk && pinOk && cfgGone && timeGone

theorem eraseEverything_eq :
    (eraseEverything : Dev P Bool) = eraseKeyVerified 2 >>= fun keyGone => eraseRest keyGone := rfl

theorem flashOnly_eraseRest (keyGone : Bool) :
    FlashOnly (FlashWithin fun r => r ≠ some .keyA ∧ r ≠ some .keyB)
      (eraseRest keyGone : Dev P Bool) := by
  unfold eraseRest
  refine FlashOnly.bind (FlashOnly.onFlash (stays_eraseBoth (by decide) (by decide))) fun _ => ?_
  refine FlashOnly.bind (FlashOnly.onFlash (stays_eraseBoth (by decide) (by decide))) fun _ => ?_
  refine FlashOnly.bind (FlashOnly.onFlash (stays_erase (by decide))) fun _ => ?_
  refine FlashOnly.bind (FlashOnly.onFlash (stays_readLatest _ _)) fun _ => ?_
  exact FlashOnly.bind (FlashOnly.onFlash (stays_readLatest _ _)) fun _ => FlashOnly.pure _

/-- Success is only reported when the key was found gone. -/
theorem wp_eraseRest_value (keyGone : Bool) (h : Hsm P) :
    Wp (eraseRest keyGone : Dev P Bool) (fun gone _ => gone = true → keyGone = true)
      (fun _ _ => True) h := by
  unfold eraseRest
  refine Wp.bind_any _ (fun _ _ => ?_) fun _ _ => trivial
  refine Wp.bind_any _ (fun _ _ => ?_) fun _ _ => trivial
  refine Wp.bind_any _ (fun _ _ => ?_) fun _ _ => trivial
  refine Wp.bind_any _ (fun _ _ => ?_) fun _ _ => trivial
  refine Wp.bind_any _ (fun _ _ => ?_) fun _ _ => trivial
  intro hgone
  simp only [Bool.and_eq_true] at hgone
  exact hgone.1.1.1.1.1

/-- Without faults the answer is whether the key was found gone. -/
theorem eraseRest_faultless (keyGone : Bool) {h : Hsm P} (hfaults : Faultless h.flash.faults) :
    Wp (eraseRest keyGone : Dev P Bool) (fun gone _ => gone = keyGone) (fun _ _ => False) h := by
  unfold eraseRest
  rw [Wp_bind]
  refine Wp.mono (wp_onFlash_faultless (runs_eraseBoth CONFIG _) hfaults) ?_ fun _ _ he => he
  rintro _ _ ⟨_, g₁, rfl, rfl, hg₁, hfaults⟩
  rw [Wp_bind]
  refine Wp.mono (wp_onFlash_faultless (runs_eraseBoth TIME_FLOOR _) hfaults) ?_ fun _ _ he => he
  rintro _ _ ⟨_, g₂, rfl, rfl, hg₂, hfaults⟩
  rw [Wp_bind]
  refine Wp.mono (wp_onFlash_faultless (runs_erase .pinCounter _) hfaults) ?_ fun _ _ he => he
  rintro _ _ ⟨_, g₃, rfl, rfl, hg₃, hfaults⟩
  rw [Wp_bind]
  refine Wp.mono (wp_onFlash_faultless (runs_readLatest P.crc32 CONFIG _) hfaults) ?_
    fun _ _ he => he
  rintro _ _ ⟨_, g₄, rfl, rfl, ⟨rfl, hg₄⟩, hfaults⟩
  rw [Wp_bind]
  refine Wp.mono (wp_onFlash_faultless (runs_readLatest P.crc32 TIME_FLOOR _) hfaults) ?_
    fun _ _ he => he
  rintro _ _ ⟨_, g₅, rfl, rfl, ⟨rfl, -⟩, -⟩
  have hconfig : CONFIG.latest P.crc32 g₃.sector = none := by
    refine latest_erased ?_ ?_ <;> simp [hg₃, hg₂, hg₁, CONFIG, TIME_FLOOR]
  have htime : TIME_FLOOR.latest P.crc32 g₄.sector = none := by
    refine latest_erased ?_ ?_ <;> simp [hg₄, hg₃, hg₂, TIME_FLOOR]
  rw [Wp_pure, hconfig, htime]
  simp [Except.isOk, Except.toBool]

/-! ### What the answers promise -/

/-- `factoryReset` reports success, or a lockout wipe does not report `ERR_FLASH`,
    only with both KEY sectors erased, when failing operations leave their sectors
    in `L`. -/
def WipeTruthful (P : Prims) (L : Sector → Prop) : Prop :=
  ∀ h : Hsm P, FailsLeave L h.flash.faults →
    (∀ (req : FactoryResetReq) (h' : Hsm P),
      hsmFactoryReset req h = .ok (.factoryReset true) h' → KeyErased h'.flash) ∧
    (∀ (pin : Str) (cfg : DeviceConfig) (e : HsmError) (h' : Hsm P), h.config = some cfg →
      cfg.wipeOnLockout = true → h.state ≠ .lockedOut →
      verifyPin pin h = .ok (.error (.error e)) h' → h'.state = .lockedOut → e.code ≠ .flash →
      KeyErased h'.flash)

section Readable

variable {L : Sector → Prop} (hL : ∀ left, L left → (parseRecord P.crc32 left).isSome)

include hL

theorem wp_eraseEverything_readable {h : Hsm P} (hfails : FailsLeave L h.flash.faults) :
    Wp (eraseEverything : Dev P Bool) (fun gone h' => gone = true → KeyErased h'.flash)
      (fun _ _ => True) h := by
  rw [eraseEverything_eq, Wp_bind]
  refine Wp.mono (wp_eraseKeyVerified_readable hL 2 hfails) ?_ fun _ _ _ => trivial
  intro keyGone h₁ hkey
  refine Wp.mono (Wp.and (flashOnly_eraseRest keyGone h₁) (wp_eraseRest_value keyGone h₁)) ?_
    fun _ _ _ => trivial
  rintro gone _ ⟨⟨g, rfl, hg⟩, hvalue⟩ hgone
  obtain ⟨hA, hB⟩ := hkey (hvalue hgone)
  constructor
  · rw [← hA]
    exact hg.sector _ (by simp)
  · rw [← hB]
    exact hg.sector _ (by simp)

theorem factoryReset_truthful (req : FactoryResetReq) {h : Hsm P}
    (hfails : FailsLeave L h.flash.faults) :
    Wp (hsmFactoryReset req) (fun resp h' => resp = .factoryReset true → KeyErased h'.flash)
      (fun _ _ => True) h := by
  unfold hsmFactoryReset
  split
  · exact fun hresp => absurd hresp (by simp [HsmResponse.err])
  rw [Wp_bind]
  refine Wp.mono (Wp.and (stays_destructiveGate (F := fun _ => True) (R := fun _ => True)
    (by constructor <;> trivial) _ _ h) (destructiveGate_isError _ _ h)) ?_ fun _ _ _ => trivial
  rintro r h₁ ⟨hwithin, herror⟩
  cases r with
  | some resp =>
    intro hresp
    obtain ⟨e, he⟩ := herror resp rfl
    rw [he] at hresp
    cases hresp
  | none =>
    dsimp only
    rw [Wp_bind, Wp_modify, Wp_bind]
    refine Wp.mono (wp_eraseEverything_readable hL (hfails.of_suffix hwithin.flash.faults)) ?_
      fun _ _ _ => trivial
    intro gone h₂ hgone
    cases gone with
    | true => exact fun _ => hgone rfl
    | false =>
      refine Wp.bind_any _ (fun _ _ => ?_) fun _ _ => trivial
      exact fun hresp => absurd hresp (by simp [HsmResponse.err])

theorem wrongPin_truthful (cfg : DeviceConfig) (attempts : Nat) {h : Hsm P}
    (hfails : FailsLeave L h.flash.faults) (hwipe : cfg.wipeOnLockout = true)
    (hstate : h.state ≠ .lockedOut) :
    Wp (wrongPin cfg attempts)
      (fun r h' => ∀ e, r = .error (.error e) → h'.state = .lockedOut → e.code ≠ .flash →
        KeyErased h'.flash) (fun _ _ => True) h := by
  unfold wrongPin
  rw [Wp_bind, Wp_modify]
  split
  · rw [Wp_bind, Wp_modify]
    dsimp only
    rw [Wp_bind]
    refine Wp.mono (wp_eraseKeyVerified_readable hL 2 hfails) ?_ fun _ _ _ => trivial
    intro gone h₁ hkey
    cases gone with
    | true => exact fun _ _ _ _ => hkey rfl
    | false =>
      intro e he _ hcode
      obtain rfl := HsmResponse.error.inj (Except.error.inj he)
      exact absurd rfl hcode
  · exact fun _ _ hlocked _ => absurd hlocked hstate

theorem verifyPin_truthful (pin : Str) {cfg : DeviceConfig} {h : Hsm P}
    (hfails : FailsLeave L h.flash.faults) (hcfg : h.config = some cfg)
    (hwipe : cfg.wipeOnLockout = true) (hstate : h.state ≠ .lockedOut) :
    Wp (verifyPin pin)
      (fun r h' => ∀ e, r = .error (.error e) → h'.state = .lockedOut → e.code ≠ .flash →
        KeyErased h'.flash) (fun _ _ => True) h := by
  -- what a refusal before the KEK is tried leaves is not a lockout
  have hkept : ∀ {r : Except HsmResponse UnlockedSeed} {g : Flash}, ∀ e, r = .error (.error e) →
      ({ h with flash := g } : Hsm P).state = .lockedOut → e.code ≠ .flash →
      KeyErased ({ h with flash := g } : Hsm P).flash := fun _ _ hlocked => absurd hlocked hstate
  unfold verifyPin
  rw [Wp_bind, Wp_get, hcfg]
  dsimp only
  rw [Wp_bind]
  refine Wp.mono (FlashOnly.onFlash (stays_pinCount (R := fun _ => True)) h) ?_ fun _ _ _ => trivial
  rintro count _ ⟨g₁, rfl, hg₁⟩
  split
  · exact hkept
  split
  · exact hkept
  rw [Wp_bind]
  refine Wp.mono (FlashOnly.onFlash (stays_pinTick (R := fun _ => True) trivial) _) ?_
    fun _ _ _ => trivial
  rintro tick _ ⟨g₂, rfl, hg₂⟩
  split
  · exact hkept
  rw [Wp_bind]
  refine Wp.mono (FlashOnly.onFlash (stays_readLatest (R := fun _ => True) _ _) _) ?_
    fun _ _ _ => trivial
  rintro key _ ⟨g₃, rfl, hg₃⟩
  split
  · exact hkept
  · exact hkept
  split
  · exact hkept
  split
  · exact hkept
  split
  · exact hkept
  split
  · refine Wp.bind_any _ (fun _ _ => ?_) fun _ _ => trivial
    refine Wp.bind_any _ (fun _ _ => ?_) fun _ _ => trivial
    intro e he
    cases he
  · rw [Wp_bind]
    change Wp _ _ _ { h with flash := g₃.log (.tried cfg.maxRetries false) }
    refine wrongPin_truthful hL cfg _ ?_ hwipe hstate
    have hsuffix := (hg₃.faults.trans hg₂.faults).trans hg₁.faults
    exact hfails.of_suffix hsuffix

end Readable

/-! ### A wipe that is not one -/

theorem erase_of_fail {f : Flash} {left : Sector} {rest : List Fault} (r : Region)
    (hfaults : f.faults = .fail left :: rest) :
    erase r f = .error (.hal .flash)
      (Flash.put { f with faults := rest, journal := .erase r :: f.journal } r left) := by
  obtain ⟨sector, uniqueId, deviceSecret, faults, journal⟩ := f
  obtain rfl : faults = .fail left :: rest := hfaults
  rfl

theorem wp_eraseBoth_fail {h : Hsm P} {left : Sector} (hfaults : h.flash.faults = [.fail left]) :
    Wp (onFlash KEY.eraseBoth)
      (fun _ h' => ∃ g, h' = { h with flash := g } ∧
        g.sector = Function.update h.flash.sector .keyA left ∧ g.faults = [])
      (fun _ _ => False) h := by
  rw [Wp_onFlash]
  unfold AbPair.eraseBoth
  rw [Wp_bind]
  have herase : erase KEY.a h.flash = _ := erase_of_fail .keyA hfaults
  unfold Wp
  rw [herase]
  exact ⟨_, rfl, rfl, rfl⟩

/-- A failing erase whose remainder cannot be read passes the check when the other
    sector cannot be read either, and that one was not touched. -/
theorem eraseKeyVerified_unread (tries : Nat) {h : Hsm P} {left : Sector}
    (hfaults : h.flash.faults = [.fail left]) (hleft : parseRecord P.crc32 left = none)
    (hB : parseRecord P.crc32 (h.flash.sector .keyB) = none) :
    Wp (eraseKeyVerified (tries + 1) : Dev P Bool)
      (fun gone h' => gone = true ∧ h'.flash.sector .keyB = h.flash.sector .keyB ∧
        Faultless h'.flash.faults) (fun _ _ => False) h := by
  unfold eraseKeyVerified
  rw [Wp_bind]
  change Wp _ _ _ { h with flash := h.flash.log .wipe }
  rw [Wp_bind]
  refine Wp.mono (wp_eraseBoth_fail hfaults) ?_ fun _ _ he => he
  rintro _ _ ⟨g, rfl, hg, hnil⟩
  rw [Wp_bind]
  have hfaultless : Faultless g.faults := by
    rw [hnil]
    exact faultless_nil
  refine Wp.mono (wp_onFlash_faultless (runs_readLatest P.crc32 KEY g) hfaultless) ?_
    fun _ _ he => he
  rintro _ _ ⟨_, g', rfl, rfl, ⟨rfl, hg'⟩, hfaults'⟩
  have hgB : g.sector .keyB = h.flash.sector .keyB := by
    rw [hg]
    exact Function.update_of_ne (by decide) _ _
  have hnone : KEY.latest P.crc32 g.sector = none := by
    change Copies.newest ⟨asCopy (parseRecord P.crc32 (g.sector .keyA)),
      asCopy (parseRecord P.crc32 (g.sector .keyB))⟩ = none
    rw [hgB, hB, hg, Function.update_self, hleft]
    rfl
  rw [hnone]
  refine ⟨rfl, ?_, hfaults'⟩
  dsimp only
  rw [hg', hgB]

theorem factoryReset_unread {h : Hsm P} {left : Sector} (hstate : h.state = .uninitialized)
    (hfaults : h.flash.faults = [.fail left]) (hleft : parseRecord P.crc32 left = none)
    (hB : parseRecord P.crc32 (h.flash.sector .keyB) = none) :
    Wp (hsmFactoryReset { confirm := confirmErase })
      (fun resp h' => resp = .factoryReset true ∧
        h'.flash.sector .keyB = h.flash.sector .keyB) (fun _ _ => False) h := by
  have hgate : destructiveGate none
      "factory-reset requires a PIN or physical recovery held low during reset" h = .ok none h := by
    unfold destructiveGate
    simp only [bind, EStateM.bind, get, getThe, MonadStateOf.get, EStateM.get, hstate]
    rfl
  unfold hsmFactoryReset
  rw [if_neg (by simp), Wp_bind]
  unfold Wp
  rw [hgate]
  change Wp _ _ _ h
  rw [Wp_bind, Wp_modify, Wp_bind, eraseEverything_eq, Wp_bind]
  refine Wp.mono (eraseKeyVerified_unread 1 hfaults hleft hB) ?_ fun _ _ he => he
  rintro keyGone h₁ ⟨rfl, hB₁, hfaultless⟩
  refine Wp.mono (Wp.and (flashOnly_eraseRest true h₁) (eraseRest_faultless true hfaultless)) ?_
    fun _ _ he => he.2
  rintro gone _ ⟨⟨g, rfl, hg⟩, rfl⟩
  refine ⟨rfl, ?_⟩
  change g.sector .keyB = _
  rw [hg.sector .keyB (by simp), hB₁]
  rfl

/-- A sector that was overwritten with zeros; it holds no record. -/
def Sector.zeros : Sector := fun _ => 0

theorem parseRecord_zeros (crc : Octets → UInt32) : parseRecord crc Sector.zeros = none := by
  unfold parseRecord
  exact if_pos (by decide)

/-- A blank device whose second KEY sector was overwritten, and whose next erase fails. -/
def failingBlank (left : Sector) : Flash := (Flash.blank.put .keyB Sector.zeros).under [.fail left]

theorem failingBlank_keyB (left : Sector) : (failingBlank left).sector .keyB = Sector.zeros := by
  unfold failingBlank Flash.put
  rw [Flash.sector_under]
  exact Function.update_self Region.keyB Sector.zeros Flash.blank.sector

/-- The answers are truthful exactly when every erase that fails leaves a record
    that can be read. -/
theorem key_gone_iff (P : Prims) (L : Sector → Prop) :
    WipeTruthful P L ↔ ∀ left, L left → (parseRecord P.crc32 left).isSome := by
  constructor
  · intro htruthful left hleft
    by_contra hno
    have hnone : parseRecord P.crc32 left = none := by simpa using hno
    have hfails : FailsLeave L (failingBlank left).faults := by
      intro left' hmem
      obtain rfl := Fault.fail.inj (List.mem_singleton.mp hmem)
      exact hleft
    have hB := failingBlank_keyB left
    have hreset := factoryReset_unread (h := Hsm.fresh (P := P) [] 0 (failingBlank left) Drbg.new)
      rfl rfl hnone (by rw [← parseRecord_zeros P.crc32, ← hB]; rfl)
    unfold Wp at hreset
    split at hreset
    · rename_i resp h' hrun
      obtain ⟨rfl, hkept⟩ := hreset
      obtain ⟨-, herased⟩ := (htruthful _ hfails).1 _ _ hrun
      change _ = (failingBlank left).sector .keyB at hkept
      rw [hkept, hB] at herased
      exact absurd (congrFun herased ⟨0, by decide⟩) (by decide)
    · exact hreset
  · intro hL h hfails
    constructor
    · intro req h' hrun
      exact (factoryReset_truthful hL req hfails).of_ok hrun rfl
    · intro pin cfg e h' hcfg hwipe hstate hrun hlocked hcode
      exact (verifyPin_truthful hL pin hfails hcfg hwipe hstate).of_ok hrun e rfl hlocked hcode

namespace Bench

/-- A KEY sector in which a production init was cut before the CRC was programmed. -/
def tornKey : Sector := Sector.ofOctets (recordBody 1 blob.toBytes)

def reset : Request := { hsm := some { factoryReset := some { confirm := confirmErase } } }

end Bench

/-- A reset whose erase of the torn KEY sector fails and leaves it as it was: the
    answer is `ok: true`, and the encrypted seed is still there. -/
theorem reset_reports_key_gone :
    ∃ (hist : List (Moment (.bench [Bench.reset]))) (h h' : Hsm (.bench [Bench.reset])),
      Run (Bench.image [(.keyA, Bench.tornKey)])
        (⟨.line [0x7B, 0] [.fail Bench.tornKey], .on h, some (.hsm (.factoryReset true)), .on h'⟩ ::
          hist) (.on h') ∧
      (h'.flash.sector .keyA).slice 57 32 = Bench.blob.ciphertext.toList ∧ ¬ KeyErased h'.flash := by
  have hends : replayEnds (P := .bench [Bench.reset])
      (fun _ resp h' => resp == .hsm (.factoryReset true) &&
        (h'.flash.sector .keyA).slice 57 32 == Bench.blob.ciphertext.toList)
      (Bench.image [(.keyA, Bench.tornKey)])
      [.line [0x7B, 0] [.fail Bench.tornKey], .boot Bench.power] = true := by decide +kernel
  obtain ⟨⟨event, before, response, after⟩, h, h', resp, hevent, hbefore, hresponse, hafter, htest, -, hrun⟩ :=
    exists_of_replayEnds hends
  simp only at hevent hbefore hresponse hafter
  rw [Bool.and_eq_true, beq_iff_eq, beq_iff_eq] at htest
  obtain ⟨hresp, hslice⟩ := htest
  subst hevent hbefore hafter hresp
  rw [hresponse] at hrun
  refine ⟨_, h, h', hrun, hslice, ?_⟩
  rintro ⟨hA, -⟩
  rw [hA] at hslice
  exact absurd hslice (by decide +kernel)

end PicoSignet
