/-
  PicoSignet/TimeRatchet.lean
  ===========================
  **Device time against powered-on time.**  A boot starts from a persisted floor.
  Each boot may be anchored up to 900 s ahead of the floor it reads, each resync may
  run up to 900 s ahead of the anchor, and the floor is advanced from the anchor.
  The floor stays behind the powered-on time as long as no boot that was anchored
  ahead of it goes on to accept a second value; then the clock is at most one
  allowance ahead, through any number of boots, power cuts and flash failures.

  `time_within_one_allowance` is that theorem; `ratchet_through_the_floor` is a run
  in which the allowance of one boot is persisted and the next one adds its own.
-/
import PicoSignet.FloorPersist

set_option autoImplicit false

namespace PicoSignet

open Crash TwoCopy

/-! ### Powered-on time -/

/-- Microseconds as seconds, rounded up. -/
def secsUp (us : Nat) : Int := ((us + 999999) / 1000000 : Nat)

theorem secsUp_add (us since now : Nat) :
    secsUp us + ((now - since) / 1000000 : Nat) ≤ secsUp (us + (now - since)) := by
  unfold secsUp
  omega

theorem secsUp_mono {us us' : Nat} (h : us ≤ us') : secsUp us ≤ secsUp us' := by
  unfold secsUp
  omega

variable {P : Prims}

/-- The microseconds of powered-on time that a moment adds: the timer starts at
    power-up and runs on while the device waits. -/
def Moment.poweredUs (m : Moment P) : Nat :=
  match m.event, m.before, m.after with
  | .boot p, _, .on _ => p.mono.toNat
  | .advance _, .on h, .on h' => h'.mono.toNat - h.mono.toNat
  | _, _, _ => 0

def poweredUs (hist : List (Moment P)) : Nat := (hist.map Moment.poweredUs).sum

@[simp] theorem poweredUs_cons (m : Moment P) (older : List (Moment P)) :
    poweredUs (m :: older) = m.poweredUs + poweredUs older := by simp [poweredUs]

theorem poweredUs_line {s s' : Sys P} {bytes : Octets} {faults : List Fault}
    {resp : Option Response} : Moment.poweredUs ⟨.line bytes faults, s, resp, s'⟩ = 0 := by
  unfold Moment.poweredUs
  rfl

/-! ### A paced clock -/

namespace Clock

/-- The powered-on time at which the boot was anchored. -/
def anchoredAt (c : Clock) (now : UInt64) (total : Nat) : Nat :=
  total - (now.toNat - c.trustAnchorMonoUs.toNat)

/-- The anchor was behind the powered-on time since the floor, or it is up to one
    allowance ahead and the only value that was accepted. -/
structure Paced (c : Clock) (now : UInt64) (base : Int) (total : Nat) (epoch anchor : Int64) :
    Prop where
  anchored : c.Anchored now epoch anchor
  span : now.toNat - c.trustAnchorMonoUs.toNat ≤ total
  pace : anchor.toInt ≤ base + secsUp (c.anchoredAt now total) ∨
    epoch = anchor ∧ c.epochMonoUs = c.trustAnchorMonoUs ∧
      anchor.toInt ≤ base + secsUp (c.anchoredAt now total) + 900

variable {c c' : Clock} {now now' : UInt64} {base : Int} {total : Nat} {epoch anchor : Int64}

/-- The powered-on time of the anchor and the time since make up the total. -/
theorem Paced.total_eq (h : c.Paced now base total epoch anchor) :
    secsUp (c.anchoredAt now total) + secsBetween c.trustAnchorMonoUs now ≤ secsUp total := by
  have hspan := h.span
  have hadd := secsUp_add (c.anchoredAt now total) c.trustAnchorMonoUs.toNat now.toNat
  unfold anchoredAt at hadd ⊢
  rw [Nat.sub_add_cancel hspan] at hadd
  exact hadd

/-- A paced clock is at most one allowance ahead. -/
theorem Paced.now_le {t : Int64} (h : c.Paced now base total epoch anchor)
    (ht : c.nowUnix now = some t) : t.toInt ≤ base + secsUp total + 900 := by
  have htotal := h.total_eq
  obtain ⟨trusted, htrusted, htoInt⟩ := h.anchored.trustedNow
  rcases h.pace with hbehind | ⟨rfl, hmono, hahead⟩
  · obtain ⟨-, hwindow⟩ := h.anchored.window ht htrusted
    omega
  · obtain ⟨t', ht', hnow⟩ := h.anchored.nowUnix
    obtain rfl := Option.some.inj (ht.symm.trans ht')
    rw [hmono] at hnow
    omega

/-- A resynced clock that was anchored behind reads at most the powered-on time. -/
theorem Paced.trusted_le {trusted : Int64} (h : c.Paced now base total epoch anchor)
    (hbehind : anchor.toInt ≤ base + secsUp (c.anchoredAt now total))
    (ht : c.trustedNow now = some trusted) : trusted.toInt ≤ base + secsUp total := by
  have htotal := h.total_eq
  obtain ⟨trusted', htrusted, htoInt⟩ := h.anchored.trustedNow
  obtain rfl := Option.some.inj (ht.symm.trans htrusted)
  omega

theorem Paced.advance (h : c.Paced now base total epoch anchor) (hle : now ≤ now') :
    c.Paced now' base (total + (now'.toNat - now.toNat)) epoch anchor := by
  have hle' := UInt64.le_iff_toNat_le.mp hle
  have hanchor := UInt64.le_iff_toNat_le.mp (UInt64.le_trans h.anchored.anchorMono h.anchored.epochMono)
  have hspan := h.span
  have hat : c.anchoredAt now' (total + (now'.toNat - now.toNat)) = c.anchoredAt now total := by
    unfold anchoredAt
    omega
  refine ⟨?_, by omega, by rw [hat]; exact h.pace⟩
  exact ⟨h.anchored.epochUnix, h.anchored.anchorUnix, h.anchored.inRange, h.anchored.anchorMono,
    UInt64.le_trans h.anchored.epochMono hle, h.anchored.drift⟩

/-- The first value of a boot, within one allowance of the powered-on time. -/
theorem paced_first {v : Int64} {previousSet : Bool} (hanchor : c.trustAnchorUnix = none)
    (hset : c.set now v = some (previousSet, c')) (hv : v.toInt ≤ base + secsUp total + 900) :
    c'.trustedNow now = some v ∧ c'.Paced now base total v v := by
  unfold Clock.set at hset
  split at hset
  · exact absurd hset (by simp)
  rename_i hrejects
  obtain ⟨-, rfl⟩ := Prod.mk.inj (Option.some.inj hset)
  simp only [rejects, hanchor, Bool.not_eq_true, Bool.not_eq_false', Bool.and_eq_true,
    decide_eq_true_eq] at hrejects
  rw [hanchor]
  have hanchored : Clock.Anchored ⟨some v, now, some v, now⟩ now v v := by
    refine ⟨rfl, rfl, hrejects, UInt64.le_refl now, UInt64.le_refl now, ?_⟩
    simp [secsBetween]
  have hzero : secsBetween now now = 0 := by simp [secsBetween]
  obtain ⟨trusted, htrusted, htoInt⟩ := hanchored.trustedNow
  refine ⟨?_, hanchored, by simp, Or.inr ⟨rfl, rfl, ?_⟩⟩
  · refine htrusted.trans (congrArg some (Int64.toInt_inj.mp ?_))
    rw [htoInt]
    change v.toInt + secsBetween now now = v.toInt
    omega
  · simpa [anchoredAt] using hv

/-- A later value leaves the anchor where it is. -/
theorem Paced.resync {v : Int64} {previousSet : Bool} (h : c.Paced now base total epoch anchor)
    (hset : c.set now v = some (previousSet, c'))
    (hbehind : anchor.toInt ≤ base + secsUp (c.anchoredAt now total)) :
    c'.trustedNow now = c.trustedNow now ∧ c'.Paced now base total v anchor := by
  have hsound := Sound.set (Or.inr ⟨epoch, anchor, h.anchored⟩) hset
  unfold Clock.set at hset
  split at hset
  · exact absurd hset (by simp)
  obtain ⟨-, rfl⟩ := Prod.mk.inj (Option.some.inj hset)
  rw [h.anchored.anchorUnix] at hsound ⊢
  refine ⟨by simp [Clock.trustedNow, h.anchored.anchorUnix], ?_⟩
  rcases hsound with ⟨hnone, -⟩ | ⟨epoch', anchor', hanchored⟩
  · exact absurd hnone (by simp)
  · obtain rfl : v = epoch' := Option.some.inj hanchored.epochUnix
    obtain rfl : anchor = anchor' :=
      Option.some.inj (h.anchored.anchorUnix.symm.trans hanchored.anchorUnix)
    exact ⟨hanchored, h.span, Or.inl hbehind⟩

end Clock

/-! ### The stored floor -/

/-- The TIME pair holds a floor, and it is at most `bound`. -/
structure FloorBelow (P : Prims) (image : Region → Sector) (bound : Int) : Prop where
  sound : (TIME_FLOOR.copies P.crc32 image).Sound
  latest : ∃ bytes, TIME_FLOOR.latest P.crc32 image = some bytes ∧ bytes.length = 8 ∧
    (i64FromBe bytes).toInt ≤ bound

theorem FloorBelow.mono {image : Region → Sector} {bound bound' : Int}
    (h : FloorBelow P image bound) (hle : bound ≤ bound') : FloorBelow P image bound' := by
  obtain ⟨bytes, hbytes, hlength, hbound⟩ := h.latest
  exact ⟨h.sound, bytes, hbytes, hlength, by omega⟩

theorem FloorBelow.congr {image image' : Region → Sector} {bound : Int}
    (h : FloorBelow P image bound) (hA : image' .timeA = image .timeA)
    (hB : image' .timeB = image .timeB) : FloorBelow P image' bound := by
  have hcopies : TIME_FLOOR.copies P.crc32 image' = TIME_FLOOR.copies P.crc32 image := by
    unfold AbPair.copies
    rw [show TIME_FLOOR.a = .timeA from rfl, show TIME_FLOOR.b = .timeB from rfl, hA, hB]
  obtain ⟨hsound, hlatest⟩ := h
  unfold AbPair.latest at hlatest
  rw [← hcopies] at hsound hlatest
  exact ⟨hsound, hlatest⟩

/-- A write, complete or not, of a floor within the bound. -/
theorem FloorBelow.step {image image' : Region → Sector} {bound : Int} {t : Int64}
    (h : FloorBelow P image bound) (hstep : Copies.Step (2 ^ 32) (TIME_FLOOR.copies P.crc32 image)
      (some (i64ToBe t)) (TIME_FLOOR.copies P.crc32 image')) (ht : t.toInt ≤ bound) :
    FloorBelow P image' bound := by
  refine ⟨hstep.sound (by norm_num) (AbPair.next_le _) h.sound, ?_⟩
  have hregister := hstep.refines (by norm_num) (AbPair.next_le _) h.sound
  obtain ⟨bytes, hbytes, hlength, hbound⟩ := h.latest
  rcases hregister.old_or_new with hold | hnew
  · exact ⟨bytes, hold.trans hbytes, hlength, hbound⟩
  · exact ⟨i64ToBe t, hnew, by simp, by simpa using ht⟩

/-! ### Sessions -/

/-- What holds of a session that started from the floor `base`, `total`
    microseconds of powered-on time later. -/
structure Hsm.Paced (h : Hsm P) (base : Int) (total : Nat) : Prop where
  physical : h.physicalRecoveryAuthorized = false
  floor : h.trustedTimeFloorUnavailable = false →
    ∃ f, h.trustedTimeFloor = some f ∧ f.toInt ≤ base + secsUp total
  clock : (h.clock.epochUnix = none ∧ h.clock.trustAnchorUnix = none) ∨
    ∃ epoch anchor, h.clock.Paced h.mono base total epoch anchor

theorem Hsm.Paced.sameTime {h h' : Hsm P} {base : Int} {total : Nat} (hpaced : h.Paced base total)
    (hsame : SameTime h h') : h'.Paced base total := by
  refine ⟨hsame.physical.trans hpaced.physical, ?_, ?_⟩
  · rw [hsame.unavailable, hsame.floor]
    exact hpaced.floor
  · rw [hsame.clock, hsame.mono]
    exact hpaced.clock

/-- A value that is accepted while the clock is set finds an anchor that was behind. -/
def Hsm.ResyncsBehind (h : Hsm P) (base : Int) (total : Nat) (v : Int64) : Prop :=
  h.acceptsTime v = true → ∀ anchor, h.clock.trustAnchorUnix = some anchor →
    anchor.toInt ≤ base + secsUp (h.clock.anchoredAt h.mono total)

/-- What an accepted value does: the clock stays paced, and the floor, changed or
    not, stays behind the powered-on time. -/
theorem Hsm.Paced.set {h : Hsm P} {base : Int} {total : Nat} {v : Int64} {previousSet : Bool}
    {clock : Clock} (hpaced : h.Paced base total) (hbehind : h.ResyncsBehind base total v)
    (hyes : h.acceptsTime v = true) (hset : h.clock.set h.mono v = some (previousSet, clock)) :
    (∃ epoch anchor, clock.Paced h.mono base total epoch anchor) ∧
      ∃ f, h.nextFloor clock v = some f ∧ f.toInt ≤ base + secsUp total := by
  obtain ⟨f, hf, hle⟩ := hpaced.floor (available_of_accepts hyes)
  have hbehind := hbehind hyes
  have hnear : h.clock.isSet = false → Clock.tooFar v f = false := by
    intro hunset
    unfold Hsm.acceptsTime Hsm.floorRejects at hyes
    rw [hunset, hpaced.physical, hf] at hyes
    simp only [Bool.and_eq_true, Bool.not_eq_true'] at hyes
    simpa using hyes.1.2
  rcases hpaced.clock with ⟨hepoch, hanchor⟩ | ⟨epoch, anchor, hclock⟩
  · -- the first value of the boot is near the floor, so the floor stays
    have hunset : h.clock.isSet = false := by simp [Clock.isSet, hepoch]
    have hdrift := Clock.tooFar_eq_false_iff.mp (hnear hunset)
    have hv : v.toInt ≤ base + secsUp total + 900 := by omega
    obtain ⟨htrusted, hclock⟩ := Clock.paced_first hanchor hset hv
    refine ⟨⟨v, v, hclock⟩, f, ?_, hle⟩
    have hsmall : ¬ satSub v f ≥ 3600 := by
      intro hge
      have := Int64.le_iff_toInt_le.mp hge
      rw [toInt_satSub] at this
      have h3600 : (3600 : Int64).toInt = 3600 := by decide
      omega
    unfold Hsm.nextFloor
    rw [hunset, hf, hpaced.physical, htrusted]
    simp [hsmall]
  · have hset' : h.clock.isSet = true := by simp [Clock.isSet, hclock.anchored.epochUnix]
    have hanchor := hbehind anchor hclock.anchored.anchorUnix
    obtain ⟨htrusted, hclock'⟩ := hclock.resync hset hanchor
    refine ⟨⟨v, anchor, hclock'⟩, ?_⟩
    obtain ⟨trusted, hnow, -⟩ := hclock.anchored.trustedNow
    have hbound := hclock.trusted_le hanchor hnow
    unfold Hsm.nextFloor
    rw [hset', hf, htrusted, hnow]
    simp only [Bool.not_true, Bool.false_and, Bool.false_eq_true, if_false]
    split
    · exact ⟨trusted, rfl, hbound⟩
    · exact ⟨f, rfl, hle⟩

theorem Hsm.Paced.timeSet {h h' : Hsm P} {base : Int} {total : Nat} {v : Int64}
    {resp : HsmResponse} (hpaced : h.Paced base total)
    (hstored : FloorBelow P h.flash.sector (base + secsUp total))
    (hbehind : h.ResyncsBehind base total v) (ht : TimeSet v h resp h')
    (hdetected : RecordsDetected P h'.flash) :
    h'.Paced base total ∧ FloorBelow P h'.flash.sector (base + secsUp total) := by
  cases ht with
  | refused hno => exact ⟨hpaced, hstored⟩
  | kept hyes hset hfloor =>
    obtain ⟨hclock, -⟩ := hpaced.set hbehind hyes hset
    exact ⟨⟨hpaced.physical, hpaced.floor, Or.inr hclock⟩, hstored⟩
  | wrote hyes hset hfloor hne hg =>
    obtain ⟨hclock, f, hf, hle⟩ := hpaced.set hbehind hyes hset
    obtain rfl := Option.some.inj (hfloor.symm.trans hf)
    exact ⟨⟨hpaced.physical, fun _ => ⟨_, rfl, hle⟩, Or.inr hclock⟩,
      hstored.step (hg.step (by simp)) hle⟩
  | failed hyes hset hfloor hg hfail =>
    obtain ⟨-, f, hf, hle⟩ := hpaced.set hbehind hyes hset
    obtain rfl := Option.some.inj (hfloor.symm.trans hf)
    exact ⟨⟨hpaced.physical, hpaced.floor, hpaced.clock⟩, hstored.step (hg.step hdetected) hle⟩

theorem FloorBelow.setTimeCut {h : Hsm P} {g : Flash} {base : Int} {total : Nat} {v : Int64}
    (hstored : FloorBelow P h.flash.sector (base + secsUp total)) (hpaced : h.Paced base total)
    (hbehind : h.ResyncsBehind base total v) (hcut : SetTimeCut v h g)
    (hdetected : RecordsDetected P g) : FloorBelow P g.sector (base + secsUp total) := by
  obtain ⟨hyes, hset, hfloor, hne, hg⟩ := hcut
  obtain ⟨-, f, hf, hle⟩ := hpaced.set hbehind hyes hset
  obtain rfl := Option.some.inj (hfloor.symm.trans hf)
  exact hstored.step (hg.step hdetected) hle

/-! ### Runs -/

/-- A moment of a run without physical recovery and without a factory reset: one
    that is asked for is answered with an error by a flash that works.  Reads do not
    fail, and a sector that a write was torn in is detected. -/
structure Moment.Ordinary (m : Moment P) : Prop where
  physical : ∀ p, m.event = .boot p → p.physicalRecovery = false
  reset : ∀ bytes faults req h, m.event = .line bytes faults →
    lineCommand P bytes = some (.factoryReset req) → m.before = .on h →
    Faultless faults ∧ ∃ e, m.response = some (.hsm (.error e))
  reads : ReadsOk m.after.flash
  detected : RecordsDetected P m.after.flash

/-- No boot that was anchored ahead of the powered-on time accepts a second value. -/
def ResyncsBehind (base : Int) : List (Moment P) → Prop
  | [] => True
  | m :: older =>
    (∀ bytes faults req h, m.event = .line bytes faults →
      lineCommand P bytes = some (.setTime req) → m.before = .on h →
      h.ResyncsBehind base (poweredUs older) req.unixSeconds) ∧
    ResyncsBehind base older

structure RatchetInvariant (base : Int) (total : Nat) (s : Sys P) : Prop where
  stored : FloorBelow P s.flash.sector (base + secsUp total)
  session : ∀ h, s = .on h → h.Paced base total

theorem RatchetInvariant.on {base : Int} {total : Nat} {h : Hsm P}
    (hstored : FloorBelow P h.flash.sector (base + secsUp total)) (hpaced : h.Paced base total) :
    RatchetInvariant base total (.on h) := by
  refine ⟨hstored, ?_⟩
  rintro _ heq
  obtain rfl := Sys.on.inj heq
  exact hpaced

theorem RatchetInvariant.off {base : Int} {total : Nat} {f : Flash}
    (hstored : FloorBelow P f.sector (base + secsUp total)) :
    RatchetInvariant base total (.off f : Sys P) := ⟨hstored, fun _ heq => nomatch heq⟩

/-- A boot reads the stored floor and starts without a clock. -/
theorem RatchetInvariant.booted {base : Int} {total : Nat} {f : Flash} {p : PowerUp} {h : Hsm P}
    (hstored : FloorBelow P f.sector (base + secsUp total)) (hclean : BootedClean f p h)
    (hphysical : p.physicalRecovery = false) : RatchetInvariant base total (.on h) := by
  obtain ⟨bytes, hbytes, hlength, hle⟩ := hstored.latest
  have hfloor : h.trustedTimeFloor = some (i64FromBe bytes) := by
    rw [hclean.floor, storedFloor_of_bytes hbytes hlength]
  refine .on (by rw [hclean.sector]; exact hstored) ⟨hclean.physical.trans hphysical, ?_, ?_⟩
  · exact fun _ => ⟨_, hfloor, hle⟩
  · rw [hclean.clock]
    exact Or.inl ⟨rfl, rfl⟩

/-- What a command that is cut leaves in the TIME pair. -/
theorem FloorBelow.commandCut {h h' : Hsm P} {c : Command} {e : Halt} {base : Int} {total : Nat}
    (hstored : FloorBelow P h.flash.sector (base + secsUp total)) (hpaced : h.Paced base total)
    (hreset : ∀ req, c ≠ .factoryReset req)
    (hbehind : ∀ req, c = .setTime req → h.ResyncsBehind base total req.unixSeconds)
    (hrun : c.run h = .error e h') (hdetected : RecordsDetected P h'.flash) :
    FloorBelow P h'.flash.sector (base + secsUp total) := by
  by_cases hset : ∃ req, c = .setTime req
  · obtain ⟨req, rfl⟩ := hset
    exact hstored.setTimeCut hpaced (hbehind req rfl) ((wp_setTime req h).of_error hrun).2.2 hdetected
  · have hsame := (sameTime_run (P := P) (fun req hc => hset ⟨req, hc⟩) hreset h).of_error hrun
    exact hstored.congr hsame.timeA hsame.timeB

theorem RatchetInvariant.step {s s' : Sys P} {e : Event} {resp : Option Response} {base : Int}
    {older : List (Moment P)} (hinv : RatchetInvariant base (poweredUs older) s)
    (hstep : Stepped s e resp s') (hord : Moment.Ordinary ⟨e, s, resp, s'⟩)
    (hbehind : ResyncsBehind base (⟨e, s, resp, s'⟩ :: older)) :
    RatchetInvariant base (poweredUs (⟨e, s, resp, s'⟩ :: older)) s' := by
  have hbehind := hbehind.1
  have hgrows : base + secsUp (poweredUs older) ≤
      base + secsUp (poweredUs (⟨e, s, resp, s'⟩ :: older)) := by
    have hle : poweredUs older ≤ poweredUs (⟨e, s, resp, s'⟩ :: older) := by simp
    have := secsUp_mono hle
    omega
  cases hstep with
  | @booted s p h hboot =>
    exact .booted (hinv.stored.mono hgrows) (hboot.of_clean (Or.inr hord.reads))
      (hord.physical p rfl)
  | bootCut hcut hg =>
    refine .off ?_
    rw [hg.sector_eq]
    exact hinv.stored.mono hgrows
  | unpowered hno => exact .off (hinv.stored.mono hgrows)
  | @drew h h' _ faults _ hc hrun hrng =>
    obtain ⟨drbg, entropy, rfl⟩ := hrng.exists
    have hpaced := hinv.session h rfl
    rw [poweredUs_cons, poweredUs_line, Nat.zero_add]
    exact .on hinv.stored ⟨hpaced.physical, hpaced.floor, hpaced.clock⟩
  | @served h h' _ faults c _ hc hrun =>
    have hpaced : (h.facing faults).Paced base (poweredUs older) :=
      ⟨(hinv.session h rfl).physical, (hinv.session h rfl).floor, (hinv.session h rfl).clock⟩
    have hstored : FloorBelow P (h.facing faults).flash.sector _ := hinv.stored
    rw [poweredUs_cons, poweredUs_line, Nat.zero_add]
    have hmove := (timeMove_run c (h.facing faults)).of_ok hrun
    cases hmove with
    | kept hset hsame =>
      exact .on (hstored.congr hsame.timeA hsame.timeB) (hpaced.sameTime hsame)
    | @set req _ _ ht =>
      have hresync : (h.facing faults).ResyncsBehind base (poweredUs older) req.unixSeconds :=
        hbehind _ _ _ h rfl hc rfl
      obtain ⟨hpaced', hstored'⟩ := hpaced.timeSet hstored hresync ht hord.detected
      exact .on hstored' hpaced'
    | erased =>
      obtain ⟨-, err, herr⟩ := hord.reset _ _ _ h rfl hc rfl
      exact absurd herr (by simp)
    | reloaded hclock hmono hphysical hfault =>
      exact absurd (hord.reset _ _ _ h rfl hc rfl).1 hfault
  | @cut h h' _ faults c _ hc hrun =>
    have hpaced : (h.facing faults).Paced base (poweredUs older) :=
      ⟨(hinv.session h rfl).physical, (hinv.session h rfl).floor, (hinv.session h rfl).clock⟩
    have hreset : ∀ req, c ≠ .factoryReset req := by
      rintro req rfl
      obtain ⟨-, err, herr⟩ := hord.reset _ _ _ h rfl hc rfl
      exact absurd herr (by simp)
    rw [poweredUs_cons, poweredUs_line, Nat.zero_add]
    refine .off (FloorBelow.commandCut (h := h.facing faults) hinv.stored hpaced hreset ?_ hrun
      hord.detected)
    rintro req rfl
    exact hbehind _ _ _ h rfl hc rfl
  | @relocked h =>
    have hsame := relock_time h
    have hzero : Moment.poweredUs ⟨.relock, .on h, none, .on h.relockOnTransportReset⟩ = 0 := rfl
    rw [poweredUs_cons, hzero, Nat.zero_add]
    exact .on (hinv.stored.congr hsame.timeA hsame.timeB) ((hinv.session h rfl).sameTime hsame)
  | @advanced h mono =>
    have hle := le_max_micros h.mono mono
    have hpaced := hinv.session h rfl
    have htotal : poweredUs (⟨.advance mono, .on h, none, .on { h with mono := max h.mono mono }⟩ ::
        older) = poweredUs older + ((max h.mono mono).toNat - h.mono.toNat) := by
      rw [poweredUs_cons, Nat.add_comm]
      rfl
    rw [htotal] at hgrows ⊢
    refine .on (hinv.stored.mono hgrows) ⟨hpaced.physical, fun havailable => ?_, ?_⟩
    · obtain ⟨f, hf, hle⟩ := hpaced.floor havailable
      exact ⟨f, hf, hle.trans hgrows⟩
    · exact hpaced.clock.imp_right fun ⟨epoch, anchor, h⟩ => ⟨epoch, anchor, h.advance hle⟩
  | @quiet h _ drbg entropy heapFree rebootRequested he =>
    have hzero : Moment.poweredUs ⟨e, .on h, none, .on { h with drbg, entropy, heapFree, rebootRequested }⟩
        = 0 := by
      rcases he with rfl | ⟨n, rfl⟩ | rfl <;> rfl
    have hpaced := hinv.session h rfl
    rw [poweredUs_cons, hzero, Nat.zero_add]
    exact .on hinv.stored ⟨hpaced.physical, hpaced.floor, hpaced.clock⟩

/-- From a boot with the floor `F0` on, through every later boot, the clock is at
    most one allowance ahead of the powered-on time, if no boot that was anchored
    ahead of it accepted a second value. -/
theorem time_within_one_allowance {image : Flash} {hist : List (Moment P)} {s : Sys P} {h : Hsm P}
    {F0 t : Int64} (hrun : Run image hist s)
    (hfloor : storedFloor P image.sector = (some F0, false))
    (hsound : (TIME_FLOOR.copies P.crc32 image.sector).Sound) (hord : ∀ m ∈ hist, m.Ordinary)
    (hbehind : ResyncsBehind F0.toInt hist) (hs : s = .on h)
    (hnow : h.clock.nowUnix h.mono = some t) :
    t.toInt ≤ F0.toInt + secsUp (poweredUs hist) + 900 := by
  have hinv : (∀ m ∈ hist, m.Ordinary) → ResyncsBehind F0.toInt hist →
      RatchetInvariant F0.toInt (poweredUs hist) s := by
    refine hrun.induct (I := fun hist s => (∀ m ∈ hist, m.Ordinary) →
      ResyncsBehind F0.toInt hist → RatchetInvariant F0.toInt (poweredUs hist) s) ?_ ?_
    · intro _ _
      obtain ⟨bytes, hbytes, hlength, rfl⟩ := latest_of_storedFloor hfloor
      exact .off ⟨hsound, bytes, hbytes, hlength, by simp [poweredUs, secsUp]⟩
    · intro hist s s' e resp hinv hstep hall hbehind
      exact (hinv (fun m hm => hall m (List.mem_cons_of_mem _ hm)) hbehind.2).step hstep
        (hall _ List.mem_cons_self) hbehind
  rcases (((hinv hord hbehind).session h hs).clock) with ⟨hnone, -⟩ | ⟨epoch, anchor, hpaced⟩
  · exact absurd hnow (by simp [Clock.nowUnix, hnone])
  · exact hpaced.now_le hnow

/-! ### On the bench -/

/-- No physical recovery, no factory reset. -/
def Event.isOrdinary (P : Prims) : Event → Bool
  | .boot p => !p.physicalRecovery
  | .line bytes _ =>
    match lineCommand P bytes with
    | some (.factoryReset _) => false
    | _ => true
  | _ => true

/-- The moments of a replay are ordinary: checked on its events and its flash. -/
theorem ordinary_of_replay (image : Flash) (events : List Event)
    (hevents : events.all (Event.isOrdinary P) = true)
    (hflash : (replay (P := P) image events).1.all (fun m =>
      m.after.flash.journal.all (fun e => !e.isReadError) &&
        decide (RecordsDetected P m.after.flash)) = true) :
    ∀ m ∈ (replay (P := P) image events).1, m.Ordinary := by
  intro m hm
  have hevent := List.all_eq_true.mp hevents _ (event_mem_of_replay hm)
  have hboth := List.all_eq_true.mp hflash m hm
  rw [Bool.and_eq_true, decide_eq_true_eq] at hboth
  refine ⟨?_, ?_, readsOk_of_all hboth.1, hboth.2⟩
  · intro p hp
    rw [hp] at hevent
    simpa [Event.isOrdinary] using hevent
  · intro bytes faults req h hline hc _
    rw [hline] at hevent
    simp [Event.isOrdinary, hc] at hevent

namespace Bench

/-- A flash that holds the floor 1700000000 and nothing else. -/
def floorImage : Flash :=
  image [(.timeA, recordImage (Prims.bench []).crc32 1 (i64ToBe 1700000000))]

/-- A host that is 900 s ahead in each boot. -/
abbrev ahead : Prims :=
  .bench [setTime 1700000900, setTime 1700003600, setTime 1700004500]

/-- Anchored 900 s ahead, 2700 s until the floor is advanced, and the next boot
    anchored 900 s ahead of that. -/
abbrev aheadEvents : List Event :=
  [send 2, .boot dryPower, send 1, .advance 2700000000, send 0, .boot dryPower]

end Bench

/-- One boot, anchored 900 s ahead: the allowance is used up. -/
theorem time_within_one_allowance_bench :
    ∃ (hist : List (Moment Bench.ahead)) (h : Hsm Bench.ahead) (t : Int64),
      Run Bench.floorImage hist (.on h) ∧ h.clock.nowUnix h.mono = some t ∧
      t.toInt ≤ (1700000000 : Int64).toInt + secsUp (poweredUs hist) + 900 := by
  have hends : replayEnds (P := Bench.ahead) (fun h _ h' => h.clock.trustAnchorUnix.isNone &&
      h'.clock.nowUnix h'.mono == some 1700000900) Bench.floorImage
      [Bench.send 0, .boot Bench.dryPower] = true := by decide +kernel
  obtain ⟨m, h, h', resp, hevent, hbefore, -, -, htest, hhist, hrun⟩ := exists_of_replayEnds hends
  simp only [Bool.and_eq_true, Option.isNone_iff_eq_none, beq_iff_eq] at htest
  have hord := ordinary_of_replay (P := Bench.ahead) Bench.floorImage
    [Bench.send 0, .boot Bench.dryPower] (by decide +kernel) (by decide +kernel)
  rw [hhist] at hord
  have hbehind : ResyncsBehind (1700000000 : Int64).toInt
      (m :: (replay Bench.floorImage [.boot Bench.dryPower]).1) := by
    refine ⟨?_, ?_, trivial⟩
    · intro bytes faults req h₀ _ _ hon _ anchor hanchor
      obtain rfl := Sys.on.inj (hbefore.symm.trans hon)
      exact absurd (htest.1.symm.trans hanchor) (by simp)
    · exact fun _ _ _ _ hline => nomatch hline
  exact ⟨_, h', _, hrun, htest.2, time_within_one_allowance hrun (by decide +kernel)
    (Or.inr (by decide +kernel)) hord hbehind rfl htest.2⟩

/-- Two boots, each anchored 900 s ahead of the floor it read: after 2700 s of
    powered-on time the clock is 4500 s ahead of the floor that the first one read. -/
theorem ratchet_through_the_floor :
    ∃ (hist : List (Moment Bench.ahead)) (h : Hsm Bench.ahead),
      Run Bench.floorImage hist (.on h) ∧ (∀ m ∈ hist, m.Ordinary) ∧
      storedFloor Bench.ahead Bench.floorImage.sector = (some 1700000000, false) ∧
      poweredUs hist = 2700000000 ∧ h.clock.nowUnix h.mono = some 1700004500 ∧
      ¬ (1700004500 : Int64).toInt ≤
        (1700000000 : Int64).toInt + secsUp (poweredUs hist) + 900 := by
  have hends : replayEnds (P := Bench.ahead)
      (fun _ _ h' => h'.clock.nowUnix h'.mono == some 1700004500) Bench.floorImage
      Bench.aheadEvents = true := by decide +kernel
  obtain ⟨m, h, h', resp, -, -, -, -, htest, hhist, hrun⟩ := exists_of_replayEnds hends
  have hord := ordinary_of_replay (P := Bench.ahead) Bench.floorImage Bench.aheadEvents
    (by decide +kernel) (by decide +kernel)
  have hpowered : poweredUs (replay (P := Bench.ahead) Bench.floorImage Bench.aheadEvents).1 =
      2700000000 := by decide +kernel
  rw [← hhist] at hrun
  refine ⟨_, h', hrun, hord, by decide +kernel, hpowered, beq_iff_eq.mp htest, ?_⟩
  rw [hpowered]
  decide

end PicoSignet
