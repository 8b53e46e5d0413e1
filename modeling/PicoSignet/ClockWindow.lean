/-
  PicoSignet/ClockWindow.lean
  ===========================
  **The clock and the certificate window within one boot.**  The epoch follows the
  host and the trust anchor stays where the first accepted value put it; each is
  read with its own truncation to whole seconds.  `Clock.Anchored` is the
  invariant of a set clock, from which the distance between the two readings, the
  absence of overflow and the bounds of every certificate follow.
-/
import PicoSignet.TimeSpec

set_option autoImplicit false

namespace PicoSignet

open Crash

/-! ### One clock -/

namespace Clock

/-- Whole seconds from one reading of the timer to another. -/
def secsBetween (since now : UInt64) : Int := ((now.toNat - since.toNat) / 1000000 : Nat)

theorem toInt_elapsedSecs (now since : UInt64) :
    (elapsedSecs now since).toInt = secsBetween since now := by
  have hlt := now.toNat_lt
  unfold elapsedSecs secsBetween
  exact toInt_ofNat_of_lt (by omega)

theorem secsBetween_nonneg (since now : UInt64) : 0 ≤ secsBetween since now := by
  unfold secsBetween
  omega

theorem secsBetween_le (since now : UInt64) : secsBetween since now ≤ 2 ^ 45 := by
  have hlt := now.toNat_lt
  unfold secsBetween
  omega

/-- Splitting an interval loses at most one second. -/
theorem secsBetween_split {a b c : UInt64} (hab : a ≤ b) (hbc : b ≤ c) :
    secsBetween a b + secsBetween b c ≤ secsBetween a c ∧
      secsBetween a c ≤ secsBetween a b + secsBetween b c + 1 := by
  have hab' := UInt64.le_iff_toNat_le.mp hab
  have hbc' := UInt64.le_iff_toNat_le.mp hbc
  unfold secsBetween
  omega

theorem tooFar_eq_false_iff {v expected : Int64} : tooFar v expected = false ↔
    -900 ≤ v.toInt - expected.toInt ∧ v.toInt - expected.toInt ≤ 900 := by
  unfold tooFar checkedSub
  split
  · rename_i delta hdelta
    split at hdelta
    · rename_i hrange
      obtain rfl := Option.some.inj hdelta
      rw [decide_eq_false_iff_not, Int64.toInt_ofInt_of_le (by omega) (by omega)]
      unfold MAX_DRIFT_SECS
      omega
    · exact absurd hdelta (by simp)
  · rename_i hdelta
    split at hdelta
    · exact absurd hdelta (by simp)
    · simp only [Bool.true_eq_false, false_iff]
      omega

/-- A set clock: the anchor is plausible, and the last accepted value was within the
    drift allowance of the time the anchor gave. -/
structure Anchored (c : Clock) (now : UInt64) (epoch anchor : Int64) : Prop where
  epochUnix : c.epochUnix = some epoch
  anchorUnix : c.trustAnchorUnix = some anchor
  inRange : MIN_PLAUSIBLE_UNIX ≤ anchor.toInt ∧ anchor.toInt ≤ MAX_PLAUSIBLE_UNIX
  anchorMono : c.trustAnchorMonoUs ≤ c.epochMonoUs
  epochMono : c.epochMonoUs ≤ now
  drift : -900 ≤ epoch.toInt - (anchor.toInt + secsBetween c.trustAnchorMonoUs c.epochMonoUs) ∧
    epoch.toInt - (anchor.toInt + secsBetween c.trustAnchorMonoUs c.epochMonoUs) ≤ 900

/-- A clock is unset or anchored. -/
def Sound (c : Clock) (now : UInt64) : Prop :=
  (c.epochUnix = none ∧ c.trustAnchorUnix = none) ∨ ∃ epoch anchor, c.Anchored now epoch anchor

variable {c c' : Clock} {now now' : UInt64} {epoch anchor : Int64}

theorem Sound.advance (h : c.Sound now) (hle : now ≤ now') : c.Sound now' := by
  rcases h with h | ⟨epoch, anchor, h⟩
  · exact Or.inl h
  · exact Or.inr ⟨epoch, anchor, h.epochUnix, h.anchorUnix, h.inRange, h.anchorMono,
      UInt64.le_trans h.epochMono hle, h.drift⟩

theorem Anchored.trustedNow (h : c.Anchored now epoch anchor) :
    ∃ trusted, c.trustedNow now = some trusted ∧
      trusted.toInt = anchor.toInt + secsBetween c.trustAnchorMonoUs now := by
  refine ⟨satAdd anchor (elapsedSecs now c.trustAnchorMonoUs), ?_, ?_⟩
  · unfold Clock.trustedNow
    rw [h.anchorUnix]
    rfl
  · have hlo := secsBetween_nonneg c.trustAnchorMonoUs now
    have hhi := secsBetween_le c.trustAnchorMonoUs now
    have hplausible := h.inRange
    rw [toInt_satAdd, toInt_elapsedSecs]
    simp only [MIN_PLAUSIBLE_UNIX, MAX_PLAUSIBLE_UNIX] at hplausible
    omega

/-- The epoch of an anchored clock is a plausible time. -/
theorem Anchored.epoch_range (h : c.Anchored now epoch anchor) :
    MIN_PLAUSIBLE_UNIX - 900 ≤ epoch.toInt ∧ epoch.toInt ≤ MAX_PLAUSIBLE_UNIX + 900 + 2 ^ 45 := by
  have hlo := secsBetween_nonneg c.trustAnchorMonoUs c.epochMonoUs
  have hhi := secsBetween_le c.trustAnchorMonoUs c.epochMonoUs
  have hplausible := h.inRange
  have hdrift := h.drift
  omega

/-- `now_unix` adds without overflow. -/
theorem Anchored.nowUnix (h : c.Anchored now epoch anchor) :
    ∃ t, c.nowUnix now = some t ∧ t.toInt = epoch.toInt + secsBetween c.epochMonoUs now := by
  refine ⟨epoch + elapsedSecs now c.epochMonoUs, ?_, ?_⟩
  · unfold Clock.nowUnix
    rw [h.epochUnix]
    rfl
  · have hrange := h.epoch_range
    have hlo := secsBetween_nonneg c.epochMonoUs now
    have hhi := secsBetween_le c.epochMonoUs now
    simp only [MIN_PLAUSIBLE_UNIX, MAX_PLAUSIBLE_UNIX] at hrange
    rw [toInt_add_exact, toInt_elapsedSecs] <;> rw [toInt_elapsedSecs] <;> omega

/-- The two readings of an anchored clock stay together. -/
theorem Anchored.window {t trusted : Int64} (h : c.Anchored now epoch anchor)
    (ht : c.nowUnix now = some t) (htrusted : c.trustedNow now = some trusted) :
    -901 ≤ t.toInt - trusted.toInt ∧ t.toInt - trusted.toInt ≤ 900 := by
  obtain ⟨t', ht', hnow⟩ := h.nowUnix
  obtain ⟨trusted', htrusted', hanchor⟩ := h.trustedNow
  obtain rfl := Option.some.inj (ht.symm.trans ht')
  obtain rfl := Option.some.inj (htrusted.symm.trans htrusted')
  have hsplit := secsBetween_split h.anchorMono h.epochMono
  have hdrift := h.drift
  omega

theorem sound_unset : Sound {} now := Or.inl ⟨rfl, rfl⟩

/-- An accepted value keeps the clock sound. -/
theorem Sound.set {v : Int64} {previousSet : Bool} (h : c.Sound now)
    (hset : c.set now v = some (previousSet, c')) : c'.Sound now := by
  unfold Clock.set at hset
  split at hset
  · exact absurd hset (by simp)
  rename_i hrejects
  obtain ⟨-, rfl⟩ := Prod.mk.inj (Option.some.inj hset)
  right
  rcases h with ⟨hepoch, hanchor⟩ | ⟨epoch, anchor, h⟩
  · -- the first value of the boot becomes the anchor
    rw [hanchor]
    simp only [rejects, hanchor, Bool.not_eq_true, Bool.not_eq_false', Bool.and_eq_true,
      decide_eq_true_eq] at hrejects
    refine ⟨v, v, rfl, rfl, hrejects, UInt64.le_refl now, UInt64.le_refl now, ?_⟩
    simp [secsBetween]
  · rw [h.anchorUnix]
    simp only [rejects, h.anchorUnix, Bool.not_eq_true] at hrejects
    have hdrift := tooFar_eq_false_iff.mp hrejects
    obtain ⟨trusted, htrusted, htoInt⟩ := h.trustedNow
    have heq : satAdd anchor (elapsedSecs now c.trustAnchorMonoUs) = trusted := by
      unfold Clock.trustedNow at htrusted
      rw [h.anchorUnix] at htrusted
      exact Option.some.inj htrusted
    rw [heq, htoInt] at hdrift
    exact ⟨v, anchor, rfl, h.anchorUnix, h.inRange,
      UInt64.le_trans h.anchorMono h.epochMono, UInt64.le_refl now, hdrift⟩

end Clock

/-! ### Sessions -/

variable {P : Prims}

/-- The clock of a powered device is sound at its timer. -/
def ClockInvariant (s : Sys P) : Prop := ∀ h, s = .on h → h.clock.Sound h.mono

theorem TimeMove.sound {h h' : Hsm P} {c : Command} {resp : HsmResponse}
    (hmove : TimeMove h c resp h') (hsound : h.clock.Sound h.mono) : h'.clock.Sound h'.mono := by
  cases hmove with
  | kept hset hsame =>
    rw [hsame.clock, hsame.mono]
    exact hsound
  | set ht =>
    cases ht with
    | refused => exact hsound
    | kept hyes hset hfloor => exact hsound.set hset
    | wrote hyes hset hfloor hne hg => exact hsound.set hset
    | failed => exact hsound
  | erased hclock hfloor havailable hmono hphysical hA hB =>
    rw [hclock, hmono]
    exact hsound
  | reloaded hclock hmono hphysical hfault =>
    rw [hclock, hmono]
    exact hsound

theorem ClockInvariant.on {h : Hsm P} (hsound : h.clock.Sound h.mono) :
    ClockInvariant (.on h) := by
  rintro _ heq
  obtain rfl := Sys.on.inj heq
  exact hsound

theorem ClockInvariant.off {f : Flash} : ClockInvariant (P := P) (.off f) := fun _ heq => nomatch heq

theorem relock_time (h : Hsm P) : SameTime h h.relockOnTransportReset := by
  unfold Hsm.relockOnTransportReset
  dsimp only
  split
  · split <;> exact ⟨rfl, rfl, rfl, rfl, rfl, rfl, rfl⟩
  · exact refl_of SameTime h

theorem ClockInvariant.step {s s' : Sys P} {e : Event} {resp : Option Response}
    (hinv : ClockInvariant s) (hstep : Stepped s e resp s') : ClockInvariant s' := by
  cases hstep with
  | booted hboot =>
    obtain ⟨drbg, entropy, g, cfg, keyblob, time, attempts, rfl, -, -⟩ := hboot
    obtain ⟨_, _, _, _, -, heq⟩ :=
      (Hsm.fresh entropy _ g drbg).loaded_cases cfg keyblob time attempts
    rw [heq]
    exact .on Clock.sound_unset
  | bootCut hcut hg => exact .off
  | unpowered hno => exact .off
  | @drew h h' _ faults _ hc hrun hrng =>
    obtain ⟨drbg, entropy, rfl⟩ := hrng.exists
    exact .on (hinv h rfl)
  | @served h h' _ faults c _ hc hrun =>
    exact .on (((timeMove_run c (h.facing faults)).of_ok hrun).sound (hinv h rfl))
  | cut hc hrun => exact .off
  | @relocked h =>
    refine .on ?_
    rw [(relock_time h).clock, (relock_time h).mono]
    exact hinv h rfl
  | @advanced h mono =>
    exact .on ((hinv h rfl).advance (le_max_micros h.mono mono))
  | @quiet h => exact .on (hinv h rfl)

/-- The bench device after its first `setTime`. -/
def Bench.timed : List (Moment Bench.signing) × Sys Bench.signing :=
  replay Bench.prodImage [Bench.send 1, .boot Bench.dryPower]

end PicoSignet
