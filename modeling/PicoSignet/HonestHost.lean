/-
  PicoSignet/HonestHost.lean
  ==========================
  **The first time after a reboot.**  A boot knows the persisted floor and nothing
  of the time that was accepted last, so what decides over its first `setTime` is
  the distance to the floor.  While the device runs, the floor follows the trusted
  time at a distance of up to an hour, so a host that is always right can be turned
  away after a short reboot.

  `first_setTime_after_reboot_iff` says when a first value is accepted and how far
  the floor may have fallen behind; `honest_host_turned_away` is a run of a host
  that synchronises every five minutes.
-/
import PicoSignet.TimeRatchet

set_option autoImplicit false

namespace PicoSignet

open Crash

variable {P : Prims}

/-! ### From the boot to the first `setTime` -/

/-- A moment that leaves the time alone: no boot, no `setTime`, no `factoryReset`. -/
structure Moment.KeepsTime (m : Moment P) : Prop where
  noBoot : ∀ p, m.event ≠ .boot p
  noTime : ∀ bytes faults c, m.event = .line bytes faults → lineCommand P bytes = some c →
    (∀ req, c ≠ .setTime req) ∧ ∀ req, c ≠ .factoryReset req

/-- What a first `setTime` looks at besides the timer. -/
structure SameGate (h h' : Hsm P) : Prop where
  clock : h'.clock = h.clock
  floor : h'.trustedTimeFloor = h.trustedTimeFloor
  unavailable : h'.trustedTimeFloorUnavailable = h.trustedTimeFloorUnavailable
  physical : h'.physicalRecoveryAuthorized = h.physicalRecoveryAuthorized

theorem SameTime.gate {h h' : Hsm P} (hsame : SameTime h h') : SameGate h h' :=
  ⟨hsame.clock, hsame.floor, hsame.unavailable, hsame.physical⟩

theorem SameGate.trans {h₁ h₂ h₃ : Hsm P} (h₁₂ : SameGate h₁ h₂) (h₂₃ : SameGate h₂ h₃) :
    SameGate h₁ h₃ :=
  ⟨h₂₃.clock.trans h₁₂.clock, h₂₃.floor.trans h₁₂.floor, h₂₃.unavailable.trans h₁₂.unavailable,
    h₂₃.physical.trans h₁₂.physical⟩

theorem Stepped.sameGate {s : Sys P} {h' : Hsm P} {e : Event} {resp : Option Response}
    (hstep : Stepped s e resp (.on h')) (hkeeps : Moment.KeepsTime ⟨e, s, resp, .on h'⟩) :
    ∃ h, s = .on h ∧ SameGate h h' := by
  generalize hs' : Sys.on h' = s' at hstep
  cases hstep with
  | booted => exact absurd rfl (hkeeps.noBoot _)
  | bootCut => exact absurd hs' (by simp)
  | unpowered => exact absurd hs' (by simp)
  | drew hc hrun hrng =>
    obtain ⟨drbg, entropy, rfl⟩ := hrng.exists
    obtain rfl := Sys.on.inj hs'
    exact ⟨_, rfl, rfl, rfl, rfl, rfl⟩
  | @served h _ _ faults c _ hc hrun =>
    obtain rfl := Sys.on.inj hs'
    obtain ⟨hset, hreset⟩ := hkeeps.noTime _ _ c rfl hc
    have hsame := (sameTime_run (P := P) hset hreset (h.facing faults)).of_ok hrun
    exact ⟨h, rfl, hsame.clock, hsame.floor, hsame.unavailable, hsame.physical⟩
  | cut => exact absurd hs' (by simp)
  | @relocked h =>
    obtain rfl := Sys.on.inj hs'
    exact ⟨h, rfl, (relock_time h).gate⟩
  | advanced =>
    obtain rfl := Sys.on.inj hs'
    exact ⟨_, rfl, rfl, rfl, rfl, rfl⟩
  | quiet =>
    obtain rfl := Sys.on.inj hs'
    exact ⟨_, rfl, rfl, rfl, rfl, rfl⟩

theorem Stepped.bootedClean {s : Sys P} {h : Hsm P} {p : PowerUp} {resp : Option Response}
    (hstep : Stepped s (.boot p) resp (.on h)) (hfaults : Faultless p.faults) :
    BootedClean s.flash p h := by
  cases hstep with
  | booted hboot => exact hboot.clean hfaults
  | quiet he => rcases he with he | ⟨n, he⟩ | he <;> exact absurd he (by simp)

/-- Up to the first `setTime` the session is, for it, the one that booted. -/
theorem Run.sinceBoot {image : Flash} {newer older : List (Moment P)} {b : Moment P} {h : Hsm P}
    (hrun : Run image (newer ++ b :: older) (.on h)) (hkeeps : ∀ m ∈ newer, m.KeepsTime) :
    ∃ h₁, b.after = .on h₁ ∧ SameGate h₁ h := by
  induction newer generalizing h with
  | nil =>
    obtain ⟨-, -, hs⟩ := hrun.last
    exact ⟨h, hs.symm, rfl, rfl, rfl, rfl⟩
  | cons m newer ih =>
    obtain ⟨hrest, hstep, hs⟩ := hrun.last
    have hkeepsm := hkeeps m List.mem_cons_self
    obtain ⟨e, before, resp, after⟩ := m
    obtain rfl : .on h = after := hs
    obtain ⟨h', rfl, hsame⟩ := hstep.sameGate hkeepsm
    obtain ⟨h₁, hafter, hsame'⟩ := ih hrest fun m hm => hkeeps m (List.mem_cons_of_mem _ hm)
    exact ⟨h₁, hafter, hsame'.trans hsame⟩

/-! ### Whether the first value is accepted -/

def Plausible (v : Int64) : Prop := MIN_PLAUSIBLE_UNIX ≤ v.toInt ∧ v.toInt ≤ MAX_PLAUSIBLE_UNIX

/-- Without physical recovery, a session that was never told the time accepts what
    is plausible and near the floor. -/
theorem acceptsTime_first_iff {h : Hsm P} {f : Int64} (hclock : h.clock = {})
    (hfloor : h.trustedTimeFloor = some f) (hunavailable : h.trustedTimeFloorUnavailable = false)
    (hphysical : h.physicalRecoveryAuthorized = false) (v : Int64) :
    h.acceptsTime v = true ↔ (-900 ≤ v.toInt - f.toInt ∧ v.toInt - f.toInt ≤ 900) ∧ Plausible v := by
  have hset : (h.clock.set h.mono v).isSome = true ↔ Plausible v := by
    rw [hclock]
    unfold Clock.set Clock.rejects Plausible
    simp
  have hnear : h.floorRejects v = false ↔ -900 ≤ v.toInt - f.toInt ∧ v.toInt - f.toInt ≤ 900 := by
    unfold Hsm.floorRejects
    rw [hclock, hphysical, hfloor, ← Clock.tooFar_eq_false_iff]
    simp [Clock.isSet]
  unfold Hsm.acceptsTime
  rw [hunavailable, Bool.not_false, Bool.true_and, Bool.and_eq_true, Bool.not_eq_true', hset, hnear]

/-- A `setTime` without faults answers with success exactly if the value is accepted. -/
theorem TimeSet.ok_iff {v : Int64} {h h' : Hsm P} {resp : HsmResponse} (ht : TimeSet v h resp h')
    (hfaults : Faultless h.flash.faults) :
    (∃ uptimeMs previousSet, resp = .setTime true uptimeMs previousSet) ↔ h.acceptsTime v = true := by
  cases ht with
  | refused hno => simp [hno]
  | kept hyes => simp [hyes]
  | wrote hyes => simp [hyes]
  | failed hyes hset hfloor hg hfail => exact absurd hfail (not_exists.mpr hfaults.no_fail)

/-! ### How far the floor falls behind -/

/-- When a value was last accepted, the trusted time was less than an hour ahead
    of the floor. -/
def FloorFresh (h : Hsm P) : Prop :=
  ∀ f trusted, h.trustedTimeFloor = some f →
    h.clock.trustedNow h.clock.epochMonoUs = some trusted → trusted.toInt - f.toInt < 3600

theorem Clock.set_epochMonoUs {c c' : Clock} {now : UInt64} {v : Int64} {previousSet : Bool}
    (hset : c.set now v = some (previousSet, c')) : c'.epochMonoUs = now := by
  unfold Clock.set at hset
  split at hset
  · exact absurd hset (by simp)
  · obtain ⟨-, rfl⟩ := Prod.mk.inj (Option.some.inj hset)
    rfl

/-- The floor after an accepted value is fresh. -/
theorem Hsm.nextFloor_fresh {h : Hsm P} {clock : Clock} {v f trusted : Int64} {previousSet : Bool}
    (hsound : h.clock.Sound h.mono) (hset : h.clock.set h.mono v = some (previousSet, clock))
    (hfloor : h.nextFloor clock v = some f) (htrusted : clock.trustedNow h.mono = some trusted) :
    trusted.toInt - f.toInt < 3600 := by
  unfold Hsm.nextFloor at hfloor
  split at hfloor
  · -- a first value is the floor and the trusted time
    rename_i hfirst
    simp only [Bool.and_eq_true, Bool.not_eq_true'] at hfirst
    have hanchor : h.clock.trustAnchorUnix = none := by
      rcases hsound with ⟨-, hnone⟩ | ⟨epoch, anchor, hanchored⟩
      · exact hnone
      · simp [Clock.isSet, hanchored.epochUnix] at hfirst
    have hbound : v.toInt ≤ v.toInt + secsUp 0 + 900 := by
      unfold secsUp
      omega
    obtain ⟨hnow, -⟩ := Clock.paced_first hanchor hset hbound
    obtain rfl := Option.some.inj (hnow.symm.trans htrusted)
    obtain rfl := Option.some.inj hfloor
    omega
  · rw [htrusted] at hfloor
    cases hold : h.trustedTimeFloor with
    | none => simp [hold] at hfloor
    | some floor =>
      rw [hold] at hfloor
      dsimp only at hfloor
      split at hfloor
      · obtain rfl := Option.some.inj hfloor
        omega
      · rename_i hless
        obtain rfl := Option.some.inj hfloor
        have h3600 : (3600 : Int64).toInt = 3600 := by decide
        have hlt : ¬ (3600 : Int64).toInt ≤ (satSub trusted floor).toInt :=
          fun hle => hless (Int64.le_iff_toInt_le.mpr hle)
        rw [toInt_satSub, h3600] at hlt
        omega

theorem FloorFresh.timeSet {h h' : Hsm P} {v : Int64} {resp : HsmResponse} (hfresh : FloorFresh h)
    (hsound : h.clock.Sound h.mono) (ht : TimeSet v h resp h') : FloorFresh h' := by
  cases ht with
  | refused => exact hfresh
  | kept hyes hset hfloor =>
    intro f trusted hf htrusted
    dsimp only at hf htrusted
    rw [Clock.set_epochMonoUs hset] at htrusted
    exact Hsm.nextFloor_fresh hsound hset (hfloor.trans hf) htrusted
  | wrote hyes hset hfloor hne hg =>
    intro f trusted hf htrusted
    dsimp only at hf htrusted
    rw [Clock.set_epochMonoUs hset] at htrusted
    exact Hsm.nextFloor_fresh hsound hset (hfloor.trans hf) htrusted
  | failed => exact hfresh

theorem FloorFresh.sameTime {h h' : Hsm P} (hfresh : FloorFresh h) (hsame : SameTime h h') :
    FloorFresh h' := by
  unfold FloorFresh
  rw [hsame.floor, hsame.clock]
  exact hfresh

def FreshInvariant (s : Sys P) : Prop := ∀ h, s = .on h → FloorFresh h

theorem FreshInvariant.on {h : Hsm P} (hfresh : FloorFresh h) : FreshInvariant (.on h) := by
  rintro _ heq
  obtain rfl := Sys.on.inj heq
  exact hfresh

theorem FreshInvariant.off {f : Flash} : FreshInvariant (P := P) (.off f) := fun _ heq => nomatch heq

theorem FreshInvariant.step {s s' : Sys P} {e : Event} {resp : Option Response}
    (hinv : FreshInvariant s) (hclock : ClockInvariant s) (hstep : Stepped s e resp s')
    (hfaults : e.Faultless) : FreshInvariant s' := by
  cases hstep with
  | booted hboot =>
    refine .on ?_
    intro f trusted _ htrusted
    rw [(hboot.clean hfaults).clock] at htrusted
    exact absurd htrusted (by simp [Clock.trustedNow])
  | bootCut hcut hg => exact .off
  | unpowered hno => exact .off
  | @drew h h' _ faults _ hc hrun hrng =>
    obtain ⟨drbg, entropy, rfl⟩ := hrng.exists
    exact .on (hinv h rfl)
  | @served h h' _ faults c _ hc hrun =>
    have hfresh : FloorFresh (h.facing faults) := hinv h rfl
    refine .on ?_
    cases (timeMove_run c (h.facing faults)).of_ok hrun with
    | kept hset hsame => exact hfresh.sameTime hsame
    | set ht => exact hfresh.timeSet (hclock h rfl) ht
    | erased hclock hfloor =>
      intro f trusted hf
      exact absurd (hfloor.symm.trans hf) (by simp)
    | reloaded hclock hmono hphysical hfault => exact absurd hfaults hfault
  | cut hc hrun => exact .off
  | @relocked h => exact .on ((hinv h rfl).sameTime (relock_time h))
  | @advanced h => exact .on (hinv h rfl)
  | @quiet h => exact .on (hinv h rfl)

theorem Run.freshInvariant {image : Flash} {hist : List (Moment P)} {s : Sys P}
    (hrun : Run image hist s) (hfaults : ∀ m ∈ hist, m.event.Faultless) : FreshInvariant s := by
  have hinv : (∀ m ∈ hist, m.event.Faultless) → ClockInvariant s ∧ FreshInvariant s := by
    refine hrun.induct (I := fun hist s => (∀ m ∈ hist, m.event.Faultless) →
      ClockInvariant s ∧ FreshInvariant s) (fun _ => ⟨.off, .off⟩) ?_
    intro hist s s' e resp hinv hstep hall
    obtain ⟨hclock, hfresh⟩ := hinv fun m hm => hall m (List.mem_cons_of_mem _ hm)
    exact ⟨hclock.step hstep, hfresh.step hclock hstep (hall _ List.mem_cons_self)⟩
  exact (hinv hfaults).2

/-- After a reboot without physical recovery from a flash that holds the floor `f`,
    the first `setTime` is accepted exactly if its value is plausible and within the
    drift allowance of `f`; and `f`, if it is the floor that the session before the
    reboot had, was less than an hour behind the trusted time at the last value that
    session accepted. -/
theorem first_setTime_after_reboot_iff {image : Flash} {m b : Moment P}
    {newer older : List (Moment P)} {s : Sys P} {h : Hsm P} {p : PowerUp} {bytes : Octets}
    {faults : List Fault} {req : SetTimeReq} {f : Int64}
    (hrun : Run image (m :: (newer ++ b :: older)) s)
    (hfaults : ∀ m' ∈ m :: (newer ++ b :: older), m'.event.Faultless)
    (hboot : b.event = .boot p) (hphysical : p.physicalRecovery = false)
    (hfloor : storedFloor P b.before.flash.sector = (some f, false))
    (hnewer : ∀ m' ∈ newer, m'.KeepsTime) (hbefore : m.before = .on h)
    (hevent : m.event = .line bytes faults) (hc : lineCommand P bytes = some (.setTime req)) :
    ((∃ uptimeMs previousSet, m.response = some (.hsm (.setTime true uptimeMs previousSet))) ↔
      (-900 ≤ req.unixSeconds.toInt - f.toInt ∧ req.unixSeconds.toInt - f.toInt ≤ 900) ∧
        Plausible req.unixSeconds) ∧
    ∀ h₀ trusted, b.before = .on h₀ → h₀.trustedTimeFloor = some f →
      h₀.clock.trustedNow h₀.clock.epochMonoUs = some trusted → trusted.toInt - f.toInt < 3600 := by
  obtain ⟨hrest, hstep, -⟩ := hrun.last
  have hfaults' : ∀ m' ∈ newer ++ b :: older, m'.event.Faultless :=
    fun m' hm' => hfaults m' (List.mem_cons_of_mem _ hm')
  rw [hbefore] at hrest hstep
  obtain ⟨h₁, hafter, hsame⟩ := hrest.sinceBoot hnewer
  obtain ⟨olderRun, hbooted⟩ := hrest.earlier
  have hclean : BootedClean b.before.flash p h₁ := by
    rw [hboot, hafter] at hbooted
    have hp : Faultless p.faults := by
      have := hfaults' b (by simp)
      rw [hboot] at this
      exact this
    exact hbooted.bootedClean hp
  constructor
  · have hline : Faultless faults := by
      have := hfaults m List.mem_cons_self
      rw [hevent] at this
      exact this
    obtain ⟨r, h', hr, -, ht⟩ := hstep.timeSet hevent hline hc
    have hiff := ht.ok_iff hline
    have haccepts : (h.facing faults).acceptsTime req.unixSeconds = h.acceptsTime req.unixSeconds := rfl
    rw [haccepts, acceptsTime_first_iff (hsame.clock.trans hclean.clock)
      (f := f) (by rw [hsame.floor, hclean.floor, hfloor])
      (by rw [hsame.unavailable, hclean.unavailable, hfloor])
      (by rw [hsame.physical, hclean.physical, hphysical])] at hiff
    rw [← hiff, hr]
    simp
  · intro h₀ trusted hon hram htrusted
    have hfresh := olderRun.freshInvariant fun m' hm' => hfaults' m' (by simp [hm'])
    exact hfresh h₀ hon f trusted hram htrusted

/-! ### A host that is always right -/

/-- The value a moment tries to set. -/
def Moment.sync (m : Moment P) : Option Int64 :=
  match m.event with
  | .line bytes _ =>
    match lineCommand P bytes with
    | some (.setTime req) => some req.unixSeconds
    | _ => none
  | _ => none

/-- Powered-on microseconds since the newest `setTime`. -/
def sinceSync : List (Moment P) → Nat
  | [] => 0
  | m :: older => if m.sync.isSome then 0 else m.poweredUs + sinceSync older

/-- Every `setTime` carries the true time, which is `start` at the oldest moment and
    passes with the timer, and comes at most 300 s after the one before. -/
def honestHost (start : Int) : List (Moment P) → Bool
  | [] => true
  | m :: older =>
    (match m.sync with
      | some v => decide (v.toInt = start + (poweredUs older / 1000000 : Nat)) &&
          decide (sinceSync older ≤ 300000000)
      | none => true) && honestHost start older

/-- A bench host that synchronises every five minutes. -/
abbrev Bench.honest : Prims :=
  .bench [Bench.setTime 1700000000, Bench.setTime 1700000300, Bench.setTime 1700000600,
    Bench.setTime 1700000900, Bench.setTime 1700001200, Bench.setTime 1700001210]

/-- Twenty minutes of it, a reboot, and the next value ten seconds later. -/
abbrev Bench.honestEvents : List Event :=
  [Bench.send 5, .advance 10000000, .boot Bench.dryPower, Bench.send 4, .advance 1200000000,
    Bench.send 3, .advance 900000000, Bench.send 2, .advance 600000000, Bench.send 1,
    .advance 300000000, Bench.send 0, .boot Bench.dryPower]

/-- The first boot of that host: the floor itself is accepted. -/
theorem first_setTime_after_reboot_iff_bench :
    ∃ (m : Moment Bench.honest) (older : List (Moment Bench.honest)) (s : Sys Bench.honest),
      Run Bench.floorImage (m :: older) s ∧ m.event = Bench.send 0 ∧
      ∃ uptimeMs previousSet, m.response = some (.hsm (.setTime true uptimeMs previousSet)) := by
  have hends : replayEnds (P := Bench.honest) (fun _ _ _ => true) Bench.floorImage
      [Bench.send 0, .boot Bench.dryPower] = true := by decide +kernel
  obtain ⟨m, h, h', resp, hevent, hbefore, -, -, -, hhist, hrun⟩ := exists_of_replayEnds hends
  let s : Sys Bench.honest := .off Bench.floorImage
  let b : Moment Bench.honest := ⟨.boot Bench.dryPower, s, (s.step (.boot Bench.dryPower)).2,
    (s.step (.boot Bench.dryPower)).1⟩
  have hrun' : Run Bench.floorImage (m :: ([] ++ b :: [])) (.on h') := hrun
  have hfaults : ∀ m' ∈ m :: (replay Bench.floorImage [.boot Bench.dryPower]).1,
      m'.event.Faultless := by
    rw [← hhist]
    exact fun m' => faultless_of_replay (by decide)
  have hiff := (first_setTime_after_reboot_iff (f := 1700000000) hrun' hfaults rfl rfl
    (by decide +kernel) (by simp) hbefore hevent rfl).1
  exact ⟨m, _, _, hrun, hevent, hiff.mpr (by unfold Plausible; decide)⟩

/-- The honest host on the bench: every value of the first twenty minutes is accepted,
    and the one ten seconds after the reboot is not. -/
theorem honest_host_turned_away :
    ∃ hist : List (Moment Bench.honest),
      Run Bench.floorImage hist (replay Bench.floorImage Bench.honestEvents).2 ∧
      (∀ m ∈ hist, m.event.Faultless) ∧ hist.map Moment.event = Bench.honestEvents ∧
      storedFloor Bench.honest Bench.floorImage.sector = (some 1700000000, false) ∧
      honestHost 1700000000 hist = true ∧
      (hist.filterMap fun m => m.sync) =
        [1700001210, 1700001200, 1700000900, 1700000600, 1700000300, 1700000000] ∧
      (hist.filterMap fun m => m.response.map Response.isTimeSet) =
        [false, true, true, true, true, true] := by
  refine ⟨_, run_replay _ _, fun m => faultless_of_replay (by decide), ?_, ?_, ?_, ?_, ?_⟩
  · rfl
  · decide +kernel
  · decide +kernel
  · decide +kernel
  · decide +kernel

end PicoSignet
