/-
  PicoSignet/TimeSpec.lean
  ========================
  **What happens to the time.**  The clock, the floor in RAM and the TIME pair are
  touched by `setTime` and by `factoryReset` only.  `TimeMove` lists what one
  command can do to them; the theorems about the time are inductions over it.
-/
import PicoSignet.Commands

set_option autoImplicit false

namespace PicoSignet

open Crash

variable {P : Prims}

/-- Everything `setTime` looks at is as it was. -/
structure SameTime (h h' : Hsm P) : Prop where
  clock : h'.clock = h.clock
  floor : h'.trustedTimeFloor = h.trustedTimeFloor
  unavailable : h'.trustedTimeFloorUnavailable = h.trustedTimeFloorUnavailable
  mono : h'.mono = h.mono
  physical : h'.physicalRecoveryAuthorized = h.physicalRecoveryAuthorized
  timeA : h'.flash.sector .timeA = h.flash.sector .timeA
  timeB : h'.flash.sector .timeB = h.flash.sector .timeB

instance : IsPreorder (Hsm P) SameTime where
  refl _ := ⟨rfl, rfl, rfl, rfl, rfl, rfl, rfl⟩
  trans _ _ _ h₁₂ h₂₃ :=
    ⟨h₂₃.clock.trans h₁₂.clock, h₂₃.floor.trans h₁₂.floor, h₂₃.unavailable.trans h₁₂.unavailable,
      h₂₃.mono.trans h₁₂.mono, h₂₃.physical.trans h₁₂.physical, h₂₃.timeA.trans h₁₂.timeA,
      h₂₃.timeB.trans h₁₂.timeB⟩

theorem Within.sameTime {h h' : Hsm P} (hw : Within NotTime NotTimeRegion h h') : SameTime h h' :=
  ⟨hw.same .clock (by decide), (hw.same .floor (by decide)).1, (hw.same .floor (by decide)).2,
    hw.mono, hw.physical, hw.flash.sector _ (by decide), hw.flash.sector _ (by decide)⟩

/-- The commands other than `setTime` and `factoryReset` leave the time alone. -/
theorem sameTime_run {c : Command} (hset : ∀ req, c ≠ .setTime req)
    (hreset : ∀ req, c ≠ .factoryReset req) :
    Stays SameTime (c.run : Dev P HsmResponse) := by
  have hscope := pinScope_notTime
  suffices hwithin : Stays (Within NotTime NotTimeRegion) (c.run : Dev P HsmResponse) from
    hwithin.mono fun _ _ hw => hw.sameTime
  cases c with
  | init req => exact stays_init hscope (by decide) (by decide) (by decide) req
  | generateKey req =>
    exact stays_generateKey hscope.keyA hscope.keyB hscope.secrets hscope.caPubkey req
  | getPublicKey => exact stays_getPublicKey
  | unlock req => exact stays_unlock hscope req
  | lock => exact stays_lock hscope.state hscope.secrets
  | setTime req => exact absurd rfl (hset req)
  | status => exact stays_status
  | changePin req => exact stays_changePin hscope req
  | addEntropy req => exact stays_addEntropy req
  | selfTest => exact stays_selfTest
  | factoryReset req => exact absurd rfl (hreset req)
  | rebootBootloader req => exact stays_rebootBootloader hscope (by decide) req

theorem Verified.sameTime {cfg : DeviceConfig} {pin : Str} {h h' : Hsm P}
    {r : Except HsmResponse UnlockedSeed} (hv : Verified cfg pin h r h') : SameTime h h' := by
  have hflash : ∀ {g : Flash}, Ticks h.flash g → ∀ r : Region, r ≠ .pinCounter →
      g.sector r = h.flash.sector r := fun hg r hr => hg.sector hr
  cases hv with
  | refused hg => exact ⟨rfl, rfl, rfl, rfl, rfl, hflash hg _ (by decide), hflash hg _ (by decide)⟩
  | @opened g g' _ _ _ _ hg hopens hreset =>
    have hsame : ∀ r : Region, r ≠ .pinCounter → g'.sector r = h.flash.sector r := fun r hr =>
      (hreset.within.sector r fun heq => hr (Option.some.inj heq)).trans (hflash hg r hr)
    exact ⟨rfl, rfl, rfl, rfl, rfl, hsame _ (by decide), hsame _ (by decide)⟩
  | wrong hg hblob htick hwrong =>
    have hA := hflash hg .timeA (by decide)
    have hB := hflash hg .timeB (by decide)
    cases hwrong with
    | retry => exact ⟨rfl, rfl, rfl, rfl, rfl, hA, hB⟩
    | lockout => exact ⟨rfl, rfl, rfl, rfl, rfl, hA, hB⟩
    | wipe until_ g' pubkey hge hwipe hg' hpubkey =>
      exact ⟨rfl, rfl, rfl, rfl, rfl, (hg'.within.sector _ (by simp [KeyRegion])).trans hA,
        (hg'.within.sector _ (by simp [KeyRegion])).trans hB⟩

theorem Gate.sameTime {pin : Option Str} {h h' : Hsm P} {r : Option HsmResponse}
    (hgate : Gate pin h r h') : SameTime h h' := by
  cases hgate with
  | free => exact refl_of SameTime h
  | physical => exact refl_of SameTime h
  | verified hpin hstate hcfg hv => exact hv.sameTime
  | refused => exact refl_of SameTime h
  | rejected hpin hstate hcfg hv => exact hv.sameTime

/-- What a command that returns can do to the time.  A `factoryReset` drops the
    floor with the TIME pair but keeps the clock; one that could not erase
    everything reloads the floor from what is left. -/
inductive TimeMove (h : Hsm P) : Command → HsmResponse → Hsm P → Prop
  | kept {c : Command} {resp : HsmResponse} {h' : Hsm P} (hset : ∀ req, c ≠ .setTime req)
      (hsame : SameTime h h') : TimeMove h c resp h'
  | set {req : SetTimeReq} {resp : HsmResponse} {h' : Hsm P}
      (ht : TimeSet req.unixSeconds h resp h') : TimeMove h (.setTime req) resp h'
  | erased {req : FactoryResetReq} {h' : Hsm P} (hclock : h'.clock = h.clock)
      (hfloor : h'.trustedTimeFloor = none) (havailable : h'.trustedTimeFloorUnavailable = false)
      (hmono : h'.mono = h.mono)
      (hphysical : h'.physicalRecoveryAuthorized = h.physicalRecoveryAuthorized)
      (hA : h'.flash.sector .timeA = Sector.erased) (hB : h'.flash.sector .timeB = Sector.erased) :
      TimeMove h (.factoryReset req) (.factoryReset true) h'
  | reloaded {req : FactoryResetReq} {resp : HsmResponse} {h' : Hsm P}
      (hclock : h'.clock = h.clock) (hmono : h'.mono = h.mono)
      (hphysical : h'.physicalRecoveryAuthorized = h.physicalRecoveryAuthorized)
      (hfault : ¬ Faultless h.flash.faults) : TimeMove h (.factoryReset req) resp h'

theorem timeMove_factoryReset (req : FactoryResetReq) (h : Hsm P) :
    Wp (hsmFactoryReset req) (TimeMove h (.factoryReset req)) (fun _ _ => True) h := by
  refine (wp_factoryReset req h).mono ?_ fun _ _ _ => trivial
  intro resp h' hf
  cases hf with
  | refused hresp => exact .kept (by simp) (refl_of SameTime h)
  | gated hgate => exact .kept (by simp) hgate.sameTime
  | erased hgate hg hA hB =>
    have hsame := hgate.sameTime
    exact .erased hsame.clock rfl rfl hsame.mono hsame.physical hA hB
  | @incomplete _ h₁ g g' cfg keyblob time attempts hresp hgate hg hg' hread hfault =>
    have hsame := hgate.sameTime
    obtain ⟨state, ca, kek, until_, -, heq⟩ :=
      Hsm.loaded_cases { h₁.dropLiveSecrets with flash := g' } cfg keyblob time attempts
    rw [heq]
    exact .reloaded hsame.clock hsame.mono hsame.physical fun h =>
      hfault (h.of_suffix hgate.faults)

theorem timeMove_run (c : Command) (h : Hsm P) :
    Wp (c.run : Dev P HsmResponse) (TimeMove h c) (fun _ _ => True) h := by
  by_cases hset : ∃ req, c = .setTime req
  · obtain ⟨req, rfl⟩ := hset
    exact (wp_setTime req h).mono (fun _ _ ht => .set ht) fun _ _ _ => trivial
  by_cases hreset : ∃ req, c = .factoryReset req
  · obtain ⟨req, rfl⟩ := hreset
    exact timeMove_factoryReset req h
  · have hset' : ∀ req, c ≠ .setTime req := fun req hc => hset ⟨req, hc⟩
    have hsame := sameTime_run (P := P) hset' fun req hc => hreset ⟨req, hc⟩
    exact (hsame h).mono (fun _ _ ht => .kept hset' ht) fun _ _ _ => trivial

end PicoSignet
