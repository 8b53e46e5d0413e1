/-
  PicoSignet/FloorPersist.lean
  ============================
  **Accepted time leaves a floor behind.**  While flash operations succeed, the
  floor in RAM is the one a boot would read (`FloorInvariant`).  A `setTime` that
  is accepted keeps that floor, or writes a new one when it is due.  It leaves none
  when the clock was set and no floor was there, as after a `factoryReset` in the
  same boot, and it leaves the old one when the sequence numbers of the pair have
  run out.
-/
import PicoSignet.ClockWindow
import PicoSignet.FloorCut

set_option autoImplicit false

namespace PicoSignet

open Crash TwoCopy

variable {P : Prims}

/-! ### Runs without flash faults -/

/-- Without faults a `setTime` returns. -/
theorem Stepped.timeSet {h : Hsm P} {s' : Sys P} {e : Event} {resp : Option Response}
    {bytes : Octets} {faults : List Fault} {req : SetTimeReq} (hstep : Stepped (.on h) e resp s')
    (he : e = .line bytes faults) (hfaults : Faultless faults)
    (hc : lineCommand P bytes = some (.setTime req)) :
    ∃ r h', resp = some (.hsm r) ∧ s' = .on h' ∧ TimeSet req.unixSeconds (h.facing faults) r h' := by
  subst he
  cases hstep with
  | drew hnone => exact absurd (hnone.symm.trans hc) (by simp)
  | served hc' hrun =>
    obtain rfl := Option.some.inj (hc'.symm.trans hc)
    exact ⟨_, _, rfl, rfl, (wp_setTime req (h.facing faults)).of_ok hrun⟩
  | cut hc' hrun =>
    obtain rfl := Option.some.inj (hc'.symm.trans hc)
    exact absurd ((wp_setTime req (h.facing faults)).of_error hrun).2.1 hfaults.not_hasCut
  | quiet he => rcases he with he | ⟨n, he⟩ | he <;> exact absurd he (by simp)

/-! ### The stored floor -/

theorem storedFloor_congr {image image' : Region → Sector} (hA : image' .timeA = image .timeA)
    (hB : image' .timeB = image .timeB) : storedFloor P image' = storedFloor P image := by
  unfold storedFloor AbPair.failClosedResult AbPair.failClosed
  rw [show TIME_FLOOR.a = .timeA from rfl, show TIME_FLOOR.b = .timeB from rfl, hA, hB]

theorem storedFloor_erased {image : Region → Sector} (hA : image .timeA = Sector.erased)
    (hB : image .timeB = Sector.erased) : storedFloor P image = (none, false) := by
  have hstate : recordState P.crc32 Sector.erased = .erased := by
    have herased : Sector.erased.isErased = true := by
      refine List.all_eq_true.mpr fun x hx => ?_
      obtain ⟨i, -, rfl⟩ := List.mem_map.mp hx
      simp
    unfold recordState
    rw [herased]
    rfl
  unfold storedFloor AbPair.failClosedResult AbPair.failClosed
  rw [show TIME_FLOOR.a = .timeA from rfl, show TIME_FLOOR.b = .timeB from rfl, hA, hB, hstate]
  rfl

/-- A floor that a boot reads is the newest record. -/
theorem latest_of_storedFloor {image : Region → Sector} {t : Int64}
    (h : storedFloor P image = (some t, false)) :
    ∃ bytes, TIME_FLOOR.latest P.crc32 image = some bytes ∧ bytes.length = 8 ∧
      i64FromBe bytes = t := by
  cases hlatest : TIME_FLOOR.latest P.crc32 image with
  | some bytes =>
    unfold storedFloor AbPair.failClosedResult at h
    rw [AbPair.failClosed_of_latest hlatest] at h
    dsimp only [loadTimeFloor] at h
    split at h
    · rename_i hlength
      exact ⟨bytes, rfl, hlength, by simpa using h⟩
    · exact absurd h (by simp)
  | none =>
    obtain ⟨ha, hb⟩ := AbPair.parse_of_latest_none hlatest
    unfold storedFloor AbPair.failClosedResult AbPair.failClosed at h
    rcases recordState_of_none ha with ha | ha <;> rcases recordState_of_none hb with hb | hb <;>
      rw [ha, hb] at h <;> exact absurd h (by simp [latestFailClosed, loadTimeFloor])

theorem storedFloor_of_bytes {image : Region → Sector} {bytes : Octets}
    (h : TIME_FLOOR.latest P.crc32 image = some bytes) (hlength : bytes.length = 8) :
    storedFloor P image = (some (i64FromBe bytes), false) := by
  unfold storedFloor AbPair.failClosedResult
  rw [AbPair.failClosed_of_latest h]
  simp [loadTimeFloor, hlength]

/-- The pair has a number left for one more record. -/
def NumberLeft (P : Prims) (image : Region → Sector) : Prop := TIME_FLOOR.NumberLeft P.crc32 image

instance (image : Region → Sector) : Decidable (NumberLeft P image) :=
  inferInstanceAs (Decidable (TIME_FLOOR.NumberLeft P.crc32 image))

/-- A complete write of a floor is what the next boot reads, if a number was left. -/
theorem storedFloor_wrote {f g : Flash} {t : Int64} (hg : Wrote P TIME_FLOOR (i64ToBe t) f g)
    (hleft : NumberLeft P f.sector) : storedFloor P g.sector = (some t, false) := by
  exact storedFloor_of_latest (hg.latest (by simp) hleft)

/-! ### The floor in RAM is the stored one -/

/-- What the session believes about the floor is what a boot would read. -/
def FloorKnown (h : Hsm P) : Prop :=
  storedFloor P h.flash.sector = (h.trustedTimeFloor, h.trustedTimeFloorUnavailable)

def FloorInvariant (s : Sys P) : Prop := ∀ h, s = .on h → FloorKnown h

theorem FloorInvariant.on {h : Hsm P} (hknown : FloorKnown h) : FloorInvariant (.on h) := by
  rintro _ heq
  obtain rfl := Sys.on.inj heq
  exact hknown

theorem FloorInvariant.off {f : Flash} : FloorInvariant (P := P) (.off f) := fun _ heq => nomatch heq

theorem FloorKnown.sameTime {h h' : Hsm P} (hknown : FloorKnown h) (hsame : SameTime h h') :
    FloorKnown h' := by
  unfold FloorKnown
  rw [hsame.floor, hsame.unavailable, storedFloor_congr hsame.timeA hsame.timeB]
  exact hknown

theorem available_of_accepts {h : Hsm P} {v : Int64} (hyes : h.acceptsTime v = true) :
    h.trustedTimeFloorUnavailable = false := by
  unfold Hsm.acceptsTime at hyes
  simp only [Bool.and_eq_true, Bool.not_eq_true'] at hyes
  exact hyes.1.1

theorem FloorKnown.move {h h' : Hsm P} {c : Command} {resp : HsmResponse}
    (hknown : FloorKnown h) (hfaults : Faultless h.flash.faults)
    (hleft : NumberLeft P h.flash.sector) (hmove : TimeMove h c resp h') : FloorKnown h' := by
  cases hmove with
  | kept hset hsame => exact hknown.sameTime hsame
  | set ht =>
    cases ht with
    | refused => exact hknown
    | kept hyes hset hfloor => exact hknown
    | wrote hyes hset hfloor hne hg =>
      unfold FloorKnown
      dsimp only
      rw [storedFloor_wrote hg hleft, available_of_accepts hyes]
    | failed hyes hset hfloor hg hfail => exact absurd hfail (not_exists.mpr hfaults.no_fail)
  | erased hclock hfloor havailable hmono hphysical hA hB =>
    unfold FloorKnown
    rw [hfloor, havailable]
    exact storedFloor_erased hA hB
  | reloaded hclock hmono hphysical hfault => exact absurd hfaults hfault

theorem FloorInvariant.step {s s' : Sys P} {e : Event} {resp : Option Response}
    (hinv : FloorInvariant s) (hstep : Stepped s e resp s') (hfaults : e.Faultless)
    (hleft : ∀ h, s = .on h → NumberLeft P h.flash.sector) : FloorInvariant s' := by
  cases hstep with
  | booted hboot =>
    have hclean := hboot.clean hfaults
    refine .on ?_
    unfold FloorKnown
    rw [hclean.sector, hclean.floor, hclean.unavailable]
  | bootCut hcut hg => exact .off
  | unpowered hno => exact .off
  | @drew h h' _ faults _ hc hrun hrng =>
    obtain ⟨drbg, entropy, rfl⟩ := hrng.exists
    exact .on (hinv h rfl)
  | @served h h' _ faults c _ hc hrun =>
    have hmove := (timeMove_run c (h.facing faults)).of_ok hrun
    have hknown : FloorKnown (h.facing faults) := hinv h rfl
    exact .on (hknown.move hfaults (hleft h rfl) hmove)
  | cut hc hrun => exact .off
  | @relocked h => exact .on ((hinv h rfl).sameTime (relock_time h))
  | @advanced h => exact .on (hinv h rfl)
  | @quiet h => exact .on (hinv h rfl)

/-- The TIME pair has a number left wherever the device is served. -/
def Moment.NumberLeft (m : Moment P) : Prop :=
  ∀ h, m.before = .on h → PicoSignet.NumberLeft P h.flash.sector

theorem Run.floorInvariant {image : Flash} {hist : List (Moment P)} {s : Sys P}
    (hrun : Run image hist s) (hfaults : ∀ m ∈ hist, m.event.Faultless)
    (hleft : ∀ m ∈ hist, m.NumberLeft) : FloorInvariant s := by
  have hinv : (∀ m ∈ hist, m.event.Faultless ∧ m.NumberLeft) → FloorInvariant s := by
    refine hrun.induct (I := fun hist s => (∀ m ∈ hist, m.event.Faultless ∧ m.NumberLeft) →
      FloorInvariant s) (fun _ => .off) ?_
    intro hist s s' e resp hinv hstep hall
    have hnow := hall _ List.mem_cons_self
    exact (hinv fun m hm => hall m (List.mem_cons_of_mem _ hm)).step hstep hnow.1 hnow.2
  exact hinv fun m hm => ⟨hfaults m hm, hleft m hm⟩

/-! ### What an accepted time leaves -/

/-- A floor is there, the TIME pair holds it, and after a reboot without physical
    recovery the first time accepted is within the drift allowance of it. -/
def FloorPersisted (h : Hsm P) : Prop :=
  ∃ f, h.trustedTimeFloor = some f ∧
    (∃ bytes, TIME_FLOOR.latest P.crc32 h.flash.sector = some bytes ∧ bytes.length = 8 ∧
      i64FromBe bytes = f) ∧
    ∀ (p : PowerUp) (h' : Hsm P) (t : Int64), Faultless p.faults → p.physicalRecovery = false →
      powerUp h.flash p = .ok () h' → h'.acceptsTime t = true →
      -900 ≤ t.toInt - f.toInt ∧ t.toInt - f.toInt ≤ 900

/-- The first value of a boot is accepted near the floor only. -/
theorem near_floor_of_accepts {h : Hsm P} {f t : Int64} (hclock : h.clock = {})
    (hphysical : h.physicalRecoveryAuthorized = false) (hfloor : h.trustedTimeFloor = some f)
    (hyes : h.acceptsTime t = true) : -900 ≤ t.toInt - f.toInt ∧ t.toInt - f.toInt ≤ 900 := by
  unfold Hsm.acceptsTime Hsm.floorRejects at hyes
  rw [hclock, hphysical, hfloor] at hyes
  simp only [Bool.and_eq_true, Bool.not_eq_true'] at hyes
  have hnear : Clock.tooFar t f = false := by simpa [Clock.isSet] using hyes.1.2
  exact Clock.tooFar_eq_false_iff.mp hnear

theorem floorPersisted_of_stored {h : Hsm P} {f : Int64} (hfloor : h.trustedTimeFloor = some f)
    (hstored : storedFloor P h.flash.sector = (some f, false)) : FloorPersisted h := by
  refine ⟨f, hfloor, latest_of_storedFloor hstored, ?_⟩
  intro p h' t hfaults hphysical hboot hyes
  have hclean := (powerUp_ok hboot).clean hfaults
  refine near_floor_of_accepts hclean.clock (hclean.physical.trans hphysical) ?_ hyes
  rw [hclean.floor, hstored]

/-- The floor after an accepted value: none only if there was none with the clock set. -/
theorem Hsm.nextFloor_isSome_iff (h : Hsm P) (clock : Clock) (v : Int64) :
    (h.nextFloor clock v).isSome = true ↔
      h.clock.isSet = false ∨ h.trustedTimeFloor.isSome = true := by
  unfold Hsm.nextFloor
  cases hset : h.clock.isSet <;> cases hfloor : h.trustedTimeFloor with
  | none => simp
  | some floor =>
    cases clock.trustedNow h.mono with
    | none => cases h.physicalRecoveryAuthorized <;> simp
    | some now =>
      cases h.physicalRecoveryAuthorized <;> simp <;> split <;> rfl

/-- On a run without flash faults that does not use up the sequence numbers, a
    `setTime` that is accepted leaves a floor exactly when the clock was not set
    before, or a floor was there. -/
theorem setTime_leaves_floor_iff {image : Flash} {m : Moment P} {older : List (Moment P)}
    {s : Sys P} {h h' : Hsm P} {bytes : Octets} {faults : List Fault} {req : SetTimeReq}
    {uptimeMs : UInt64} {previousSet : Bool} (hrun : Run image (m :: older) s)
    (hfaults : ∀ m' ∈ m :: older, m'.event.Faultless)
    (hleft : ∀ m' ∈ m :: older, m'.NumberLeft) (hevent : m.event = .line bytes faults)
    (hc : lineCommand P bytes = some (.setTime req)) (hbefore : m.before = .on h)
    (hafter : m.after = .on h')
    (hok : m.response = some (.hsm (.setTime true uptimeMs previousSet))) :
    FloorPersisted h' ↔ h.clock.isSet = false ∨ h.trustedTimeFloor.isSome = true := by
  obtain ⟨holder, hstep, -⟩ := hrun.last
  have hknown : FloorKnown h := holder.floorInvariant
    (fun m' hm' => hfaults m' (List.mem_cons_of_mem _ hm'))
    (fun m' hm' => hleft m' (List.mem_cons_of_mem _ hm')) h hbefore
  have hline : Faultless faults := by
    have := hfaults m List.mem_cons_self
    rw [hevent] at this
    exact this
  rw [hbefore, hok, hafter] at hstep
  obtain ⟨r, h'', hr, hs, ht⟩ := hstep.timeSet hevent hline hc
  obtain rfl := Sys.on.inj hs
  obtain rfl := Response.hsm.inj (Option.some.inj hr)
  -- the floor afterwards, and that a boot would read it
  have hkey : ∃ clock, h'.trustedTimeFloor = h.nextFloor clock req.unixSeconds ∧
      storedFloor P h'.flash.sector = (h'.trustedTimeFloor, false) := by
    cases ht with
    | kept hyes hset hfloor =>
      refine ⟨_, hfloor.symm, ?_⟩
      have hunavailable := available_of_accepts hyes
      change storedFloor P h.flash.sector = (h.trustedTimeFloor, false)
      rw [hknown]
      exact congrArg _ hunavailable
    | wrote hyes hset hfloor hne hg =>
      exact ⟨_, hfloor.symm, storedFloor_wrote hg (hleft m List.mem_cons_self h hbefore)⟩
  obtain ⟨clock, hfloor, hstored⟩ := hkey
  rw [← h.nextFloor_isSome_iff clock req.unixSeconds, ← hfloor]
  constructor
  · rintro ⟨f, hf, -⟩
    rw [hf]
    rfl
  · intro hsome
    obtain ⟨f, hf⟩ := Option.isSome_iff_exists.mp hsome
    rw [hf] at hstored
    exact floorPersisted_of_stored hf hstored

def Response.isTimeSet : Response → Bool
  | .hsm (.setTime ok _ _) => ok
  | _ => false

theorem Response.exists_of_isTimeSet {resp : Response} (h : resp.isTimeSet = true) :
    ∃ uptimeMs previousSet, resp = .hsm (.setTime true uptimeMs previousSet) := by
  unfold Response.isTimeSet at h
  split at h
  · exact ⟨_, _, by rw [h]⟩
  · exact absurd h (by simp)

/-- A bench host that sets the time, and resets the device. -/
abbrev Bench.resetting : Prims :=
  .bench [Bench.setTime 1700000000,
    { hsm := some { factoryReset := some { confirm := confirmErase } } }]

/-- The first time ever set on the bench device leaves a floor. -/
theorem setTime_leaves_floor_iff_bench :
    ∃ (hist : List (Moment Bench.resetting)) (h' : Hsm Bench.resetting),
      Run (Bench.image []) hist (.on h') ∧ FloorPersisted h' := by
  have hends : replayEnds (P := Bench.resetting) (fun h resp _ => resp.isTimeSet &&
      !h.clock.isSet && decide (NumberLeft Bench.resetting h.flash.sector)) (Bench.image [])
      [Bench.send 0, .boot Bench.dryPower] = true := by decide +kernel
  obtain ⟨m, h, h', resp, hevent, hbefore, hresp, hafter, htest, hhist, hrun⟩ :=
    exists_of_replayEnds hends
  simp only [Bool.and_eq_true, Bool.not_eq_true', decide_eq_true_eq] at htest
  obtain ⟨⟨hset, hunset⟩, hnumber⟩ := htest
  obtain ⟨uptimeMs, previousSet, rfl⟩ := resp.exists_of_isTimeSet hset
  have hfaults : ∀ m' ∈ m :: (replay (Bench.image []) [.boot Bench.dryPower]).1,
      m'.event.Faultless := by
    rw [← hhist]
    exact fun m' => faultless_of_replay (by decide)
  have hleft : ∀ m' ∈ m :: (replay (Bench.image []) [.boot Bench.dryPower]).1, m'.NumberLeft := by
    intro m' hm' h₀ hbefore'
    rcases List.mem_cons.mp hm' with rfl | hm'
    · obtain rfl := Sys.on.inj (hbefore.symm.trans hbefore')
      exact hnumber
    · obtain rfl := List.mem_singleton.mp hm'
      exact nomatch hbefore'
  refine ⟨_, h', hrun, (setTime_leaves_floor_iff hrun hfaults hleft hevent rfl hbefore hafter
    hresp).mpr (.inl hunset)⟩

/-- On the bench device, a time set after a reset in the same boot is accepted and
    leaves no floor. -/
theorem reset_then_setTime_leaves_no_floor :
    ∃ (m : Moment Bench.resetting) (older : List (Moment Bench.resetting)) (h' : Hsm Bench.resetting)
      (uptimeMs : UInt64) (previousSet : Bool),
      Run (Bench.image []) (m :: older) (.on h') ∧ (∀ m' ∈ m :: older, m'.event.Faultless) ∧
      m.response = some (.hsm (.setTime true uptimeMs previousSet)) ∧ ¬ FloorPersisted h' := by
  have hends : replayEnds (P := Bench.resetting)
      (fun _ resp h' => resp.isTimeSet && h'.trustedTimeFloor.isNone) (Bench.image [])
      [Bench.send 0, Bench.send 1, Bench.send 0, .boot Bench.dryPower] = true := by decide +kernel
  obtain ⟨m, h, h', resp, -, -, hresp, -, htest, hhist, hrun⟩ := exists_of_replayEnds hends
  simp only [Bool.and_eq_true, Option.isNone_iff_eq_none] at htest
  obtain ⟨uptimeMs, previousSet, rfl⟩ := resp.exists_of_isTimeSet htest.1
  refine ⟨m, _, h', uptimeMs, previousSet, hrun, ?_, hresp, ?_⟩
  · rw [← hhist]
    exact fun m' => faultless_of_replay (by decide)
  · rintro ⟨f, hf, -⟩
    exact absurd (htest.2.symm.trans hf) (by simp)

end PicoSignet
