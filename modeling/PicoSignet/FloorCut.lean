/-
  PicoSignet/FloorCut.lean
  ========================
  **A power cut while the time floor is written.**  The boot reads the TIME pair
  with the fail-closed reader, which treats a sector that is neither blank nor a
  record as an error as soon as no record is left.  `AbPair::write` never touches
  the newest record, so a pair that holds one survives every cut; the very first
  floor has nothing to fall back on.

  `floor_survives_cut_iff` is the exact condition, over the pairs of
  `AbPair.Reach`.
-/
import Mathlib
import PicoSignet.CrashAtomic
import PicoSignet.Commands

set_option autoImplicit false

namespace PicoSignet

open Crash TwoCopy

/-! ### The fail-closed reader over two copies -/

section Reader

variable {crc : Octets → UInt32} {pair : AbPair}

theorem Sector.eq_erased_of_isErased {s : Sector} (h : s.isErased = true) : s = Sector.erased := by
  funext i
  have hall := List.all_eq_true.mp h (s.get i.val)
  rw [Sector.get_of_lt s i.isLt] at hall
  refine beq_iff_eq.mp (hall ?_)
  unfold Sector.slice
  refine List.mem_map.mpr ⟨i.val, List.mem_range.mpr i.isLt, ?_⟩
  rw [Nat.zero_add, Sector.get_of_lt s i.isLt]

/-- A record is seen as one: a sector that parses is not blank. -/
theorem recordState_of_parse {s : Sector} {seq : UInt32} {payload : Octets}
    (h : parseRecord crc s = some (seq, payload)) : recordState crc s = .valid seq payload := by
  unfold recordState
  split
  · rename_i herased
    rw [Sector.eq_erased_of_isErased herased, parseRecord_erased] at h
    exact absurd h (by simp)
  · rw [h]

theorem recordState_of_none {s : Sector} (h : parseRecord crc s = none) :
    recordState crc s = .erased ∨ recordState crc s = .invalid := by
  unfold recordState
  split
  · exact Or.inl rfl
  · rw [h]
    exact Or.inr rfl

/-- While a record is left, the fail-closed reader agrees with `read_latest`. -/
theorem AbPair.failClosed_of_latest {image : Region → Sector} {payload : Octets}
    (h : pair.latest crc image = some payload) :
    pair.failClosed crc image = some (some payload) := by
  unfold AbPair.latest AbPair.copies at h
  rw [← latestOf_eq_newest] at h
  unfold AbPair.failClosed
  rcases ha : parseRecord crc (image pair.a) with _ | ⟨sa, pa⟩ <;>
    rcases hb : parseRecord crc (image pair.b) with _ | ⟨sb, pb⟩
  · rw [ha, hb] at h
    exact absurd h (by simp [latestOf])
  · rw [ha, hb] at h
    rw [recordState_of_parse hb]
    rcases recordState_of_none ha with h' | h' <;> rw [h'] <;> exact congrArg some h
  · rw [ha, hb] at h
    rw [recordState_of_parse ha]
    rcases recordState_of_none hb with h' | h' <;> rw [h'] <;> exact congrArg some h
  · rw [ha, hb] at h
    rw [recordState_of_parse ha, recordState_of_parse hb]
    rw [← h]
    change (if sa ≥ sb then some (some pa) else some (some pb)) =
      some (if sa ≥ sb then some pa else some pb)
    split <;> rfl

theorem AbPair.parse_of_latest_none {image : Region → Sector} (h : pair.latest crc image = none) :
    parseRecord crc (image pair.a) = none ∧ parseRecord crc (image pair.b) = none := by
  unfold AbPair.latest AbPair.copies at h
  rw [← latestOf_eq_newest] at h
  rcases ha : parseRecord crc (image pair.a) with _ | ⟨sa, pa⟩ <;>
    rcases hb : parseRecord crc (image pair.b) with _ | ⟨sb, pb⟩ <;> rw [ha, hb] at h
  · exact ⟨rfl, rfl⟩
  · exact absurd h (by simp [latestOf])
  · exact absurd h (by simp [latestOf])
  · change (if sa ≥ sb then some pa else some pb) = none at h
    split at h <;> exact absurd h (by simp)

/-- Without a record, a first sector that is not blank is an error. -/
theorem AbPair.failClosed_none {image : Region → Sector} (ha : recordState crc (image pair.a) = .invalid)
    (hb : parseRecord crc (image pair.b) = none) : pair.failClosed crc image = none := by
  unfold AbPair.failClosed
  rw [ha]
  rcases recordState_of_none hb with h | h <;> rw [h] <;> rfl

theorem AbPair.reads_failClosed {f : Flash} {v : Option Octets} (hfaults : f.faults = [])
    (h : pair.failClosed crc f.sector = some v) :
    ∃ g, pair.readLatestFailClosed crc f = .ok v g := by
  have hwp := wp_readLatestFailClosed crc pair f
  rw [hfaults] at hwp
  cases hread : pair.readLatestFailClosed crc f with
  | ok w g =>
    obtain ⟨hw, -⟩ := hwp.of_ok hread
    have heq : some w = some v := hw.symm.trans h
    rw [Option.some.inj heq]
    exact ⟨g, rfl⟩
  | error e g =>
    rcases hwp.of_error hread with hjust | ⟨-, hnone⟩
    · cases e <;> simp [Stop.Justified] at hjust
    · exact absurd (hnone.symm.trans h) (by simp)

end Reader

/-! ### The next boot -/

variable {P : Prims}

/-- The payloads `setTime` writes. -/
def IsFloor (payload : Octets) : Prop := ∃ t : Int64, payload = i64ToBe t

theorem IsFloor.length_le {payload : Octets} (h : IsFloor payload) : payload.length ≤ 4080 := by
  obtain ⟨t, rfl⟩ := h
  simp

/-- Whatever a pair holds was written to it. -/
theorem AbPair.Reach.payload {crc : Octets → UInt32} {pair : AbPair} {W : Octets → Prop} {n : Nat}
    {f : Flash} (h : pair.Reach crc W n f) (hW : ∀ payload, W payload → payload.length ≤ 4080)
    {v : Octets} (hv : pair.latest crc f.sector = some v) : W v := by
  -- a step leaves the old payload, the new one, or none
  have hstep : ∀ {f g : Flash} {op : Option Octets}, (pair.copies crc f.sector).Sound →
      Copies.Step (2 ^ 32) (pair.copies crc f.sector) op (pair.copies crc g.sector) →
      pair.latest crc g.sector = some v → (pair.latest crc f.sector = some v → W v) →
      (∀ payload, op = some payload → W payload) → W v := by
    intro f g op hsound hstep hv hold hnew
    have hregister := hstep.refines (by norm_num) (AbPair.next_le _) hsound
    unfold AbPair.latest at hv hold
    rw [hv] at hregister
    generalize (pair.copies crc f.sector).newest = old at hregister hold
    cases hregister with
    | done => exact hnew v rfl
    | kept => exact hold rfl
  induction h with
  | blank ha hb =>
    unfold AbPair.latest at hv
    rw [AbPair.copies_erased ha hb] at hv
    exact absurd hv (by simp [Copies.newest])
  | write hf hpayload hg ih =>
    refine hstep (hf.sound hW) (AbPair.step_of_ok (hW _ hpayload) hg) hv ih ?_
    rintro _ heq
    exact Option.some.inj heq ▸ hpayload
  | cut hf hpayload hg htorn ih =>
    refine hstep (hf.sound hW) (AbPair.step_of_cut hg htorn) hv ih ?_
    rintro _ heq
    exact Option.some.inj heq ▸ hpayload
  | eraseBoth hf hg ih =>
    exact hstep (hf.sound hW) (AbPair.step_of_eraseBoth hg) hv ih (by simp)

/-- The boot after a write of the floor `t` was cut: whatever the cut left, as long
    as a torn sector is detected, the fail-closed reader returns the floor from
    before or `t`, and the session that boots from it can set the time. -/
def FloorSurvivesCut (P : Prims) (f : Flash) (t : Int64) : Prop :=
  ∀ (faults : List Fault) (g : Flash),
    TIME_FLOOR.write P.crc32 (i64ToBe t) (f.under faults) = .error .powerLoss g →
    TornDetected P.crc32 (f.sector (TIME_FLOOR.nextTarget P.crc32 f.sector))
      (g.sector (TIME_FLOOR.nextTarget P.crc32 f.sector))
      (TIME_FLOOR.nextNumber P.crc32 f.sector) (i64ToBe t) →
    (∃ v g', TIME_FLOOR.readLatestFailClosed P.crc32 (g.under []) = .ok v g' ∧
      (v = TIME_FLOOR.latest P.crc32 f.sector ∨ v = some (i64ToBe t))) ∧
    ∀ p : PowerUp, Faultless p.faults → ∃ h : Hsm P, powerUp g p = .ok () h ∧
      h.trustedTimeFloorUnavailable = false ∧
      (h.trustedTimeFloor = (TIME_FLOOR.latest P.crc32 f.sector).map i64FromBe ∨
        h.trustedTimeFloor = some t)

/-- The floor that a boot reads off a pair whose newest record is a floor. -/
theorem storedFloor_of_latest {image : Region → Sector} {t : Int64}
    (h : TIME_FLOOR.latest P.crc32 image = some (i64ToBe t)) :
    storedFloor P image = (some t, false) := by
  unfold storedFloor AbPair.failClosedResult
  rw [AbPair.failClosed_of_latest h]
  simp [loadTimeFloor]

/-- With a record to fall back on, every cut is survived. -/
theorem floorSurvivesCut_of_latest {n : Nat} {f : Flash}
    (hf : TIME_FLOOR.Reach P.crc32 IsFloor n f) (t : Int64)
    (hsome : (TIME_FLOOR.latest P.crc32 f.sector).isSome) : FloorSurvivesCut P f t := by
  obtain ⟨old, hold⟩ := Option.isSome_iff_exists.mp hsome
  obtain ⟨t₀, rfl⟩ := hf.payload (fun _ => IsFloor.length_le) hold
  intro faults g hcut htorn
  have hregister := (AbPair.step_of_cut hcut htorn).refines (by norm_num) (AbPair.next_le _)
    (hf.sound fun _ => IsFloor.length_le)
  -- after the cut the newest record is the floor from before or the new one
  have hnew : ∃ t', TIME_FLOOR.latest P.crc32 g.sector = some (i64ToBe t') ∧ (t' = t₀ ∨ t' = t) := by
    rcases hregister.old_or_new with h | h
    · exact ⟨t₀, h.trans hold, Or.inl rfl⟩
    · exact ⟨t, h, Or.inr rfl⟩
  obtain ⟨t', ht', hcases⟩ := hnew
  constructor
  · obtain ⟨g', hread⟩ := AbPair.reads_failClosed (f := g.under []) rfl
      (AbPair.failClosed_of_latest ht')
    refine ⟨_, g', hread, ?_⟩
    rw [hold]
    rcases hcases with rfl | rfl
    · exact Or.inl rfl
    · exact Or.inr rfl
  · intro p hfaults
    obtain ⟨h, hboot, hclean⟩ := powerUp_faultless (P := P) g hfaults
    have hfloor := storedFloor_of_latest (P := P) ht'
    refine ⟨h, hboot, by rw [hclean.unavailable, hfloor], ?_⟩
    rw [hclean.floor, hfloor, hold]
    rcases hcases with rfl | rfl
    · exact Or.inl (by simp)
    · exact Or.inr rfl

/-! ### The first floor -/

theorem readRecord_ahead (crc : Octets → UInt32) (r : Region) (f : Flash) (rest : List Fault) :
    readRecord crc r (f.under (.none :: rest)) =
      .ok (parseRecord crc (f.sector r)) (f.under rest) := rfl

/-- The flash after the erase and a cut first page of a record. -/
def Flash.cutInFirstPage (f : Flash) (r : Region) (seq : UInt32) (payload : Octets)
    (mask : Sector) : Flash :=
  { f with
    faults := []
    sector := Function.update (Function.update f.sector r Sector.erased) r
      (Sector.erased.programTorn 0 256 mask)
    journal := .program r :: .erase r :: .record r (f.sector r) seq payload :: f.journal }

@[simp] theorem Flash.cutInFirstPage_self (f : Flash) (r : Region) (seq : UInt32)
    (payload : Octets) (mask : Sector) :
    (f.cutInFirstPage r seq payload mask).sector r = Sector.erased.programTorn 0 256 mask :=
  Function.update_self _ _ _

theorem Flash.cutInFirstPage_other (f : Flash) {r r' : Region} (hne : r' ≠ r) (seq : UInt32)
    (payload : Octets) (mask : Sector) :
    (f.cutInFirstPage r seq payload mask).sector r' = f.sector r' := by
  unfold Flash.cutInFirstPage
  dsimp only
  rw [Function.update_of_ne hne, Function.update_of_ne hne]

theorem writeRecord_cut {crc : Octets → UInt32} {r : Region} {seq : UInt32} {payload : Octets}
    (hlength : payload.length ≤ 240) (f : Flash) (mask : Sector) :
    writeRecord crc r seq payload (f.under [.none, .cut mask]) =
      .error .powerLoss (f.cutInFirstPage r seq payload mask) := by
  have hpages : divCeil (HEADER + payload.length + 4) PAGE_LEN = 1 := by
    unfold divCeil HEADER PAGE_LEN
    omega
  have hpage : ((recordImage crc seq payload).slice (0 * PAGE_LEN) PAGE_LEN).length = 256 := by
    rw [Sector.length_slice]
    rfl
  unfold writeRecord
  rw [if_neg (by simp only [HEADER, SECTOR_LEN]; omega), hpages]
  unfold programPages program
  rw [hpage, if_neg (by decide)]
  simp only [bind, EStateM.bind, get, getThe, MonadStateOf.get, EStateM.get, note, erase,
    nextFault, modify, modifyGet, MonadStateOf.modifyGet, EStateM.modifyGet, Flash.log,
    Flash.under, set, EStateM.set, pure, EStateM.pure, throw, throwThe, MonadExceptOf.throw,
    EStateM.throw, Flash.put, Function.update_self]
  rfl

/-- A page in which the cut came when every bit was cleared. -/
def Sector.cleared : Sector := fun _ => 0

def tornPage : Sector := Sector.erased.programTorn 0 256 Sector.cleared

variable (P) in
theorem parse_tornPage : parseRecord P.crc32 tornPage = none := by
  have hmagic : tornPage.slice 0 4 ≠ MAGIC := by decide
  unfold parseRecord
  rw [if_pos hmagic]

variable (P) in
theorem recordState_tornPage : recordState P.crc32 tornPage = .invalid := by
  have hwritten : tornPage.isErased = false := by
    by_contra h
    have hzero := congrFun (Sector.eq_erased_of_isErased (by simpa using h)) ⟨0, by decide⟩
    exact absurd hzero (by decide)
  unfold recordState
  rw [hwritten, parse_tornPage P]
  rfl

/-- From a pair without a record, the write of a floor can be cut like this. -/
theorem write_cut_first {f : Flash} (hnone : TIME_FLOOR.latest P.crc32 f.sector = none)
    (t : Int64) :
    TIME_FLOOR.write P.crc32 (i64ToBe t) (f.under [.none, .none, .none, .cut Sector.cleared]) =
      .error .powerLoss (f.cutInFirstPage .timeA 1 (i64ToBe t) Sector.cleared) := by
  obtain ⟨ha, hb⟩ := AbPair.parse_of_latest_none hnone
  have htarget : TIME_FLOOR.target none none = .timeA := rfl
  have hseq : nextSeq none none = 1 := rfl
  unfold AbPair.write
  simp only [bind, EStateM.bind, readRecord_ahead, ha, hb]
  rw [htarget, hseq]
  exact writeRecord_cut (by simp) f Sector.cleared

/-- Such a cut takes the time away: the next boot finds it unavailable. -/
theorem cut_first_disables {f : Flash} (hnone : TIME_FLOOR.latest P.crc32 f.sector = none)
    (t : Int64) :
    TIME_FLOOR.failClosed P.crc32 (f.cutInFirstPage .timeA 1 (i64ToBe t) Sector.cleared).sector =
      none := by
  obtain ⟨-, hb⟩ := AbPair.parse_of_latest_none hnone
  refine AbPair.failClosed_none ?_ ?_
  · rw [show TIME_FLOOR.a = .timeA from rfl, Flash.cutInFirstPage_self]
    exact recordState_tornPage P
  · rw [show TIME_FLOOR.b = .timeB from rfl, Flash.cutInFirstPage_other _ (by decide)]
    exact hb

theorem storedFloor_unavailable {image : Region → Sector}
    (h : TIME_FLOOR.failClosed P.crc32 image = none) : storedFloor P image = (none, true) := by
  unfold storedFloor AbPair.failClosedResult
  rw [h]
  rfl

/-- A cut in the write of a floor is survived exactly by the pairs that held a
    record before it. -/
theorem floor_survives_cut_iff {n : Nat} {f : Flash}
    (hf : TIME_FLOOR.Reach P.crc32 IsFloor n f) (t : Int64) :
    FloorSurvivesCut P f t ↔ (TIME_FLOOR.latest P.crc32 f.sector).isSome := by
  refine ⟨fun hsurvives => ?_, floorSurvivesCut_of_latest hf t⟩
  by_contra hno
  have hnone : TIME_FLOOR.latest P.crc32 f.sector = none := by simpa using hno
  have htorn : TornDetected P.crc32 (f.sector (TIME_FLOOR.nextTarget P.crc32 f.sector))
      ((f.cutInFirstPage .timeA 1 (i64ToBe t) Sector.cleared).sector
        (TIME_FLOOR.nextTarget P.crc32 f.sector))
      (TIME_FLOOR.nextNumber P.crc32 f.sector) (i64ToBe t) := by
    obtain ⟨ha, hb⟩ := AbPair.parse_of_latest_none hnone
    have htarget : TIME_FLOOR.nextTarget P.crc32 f.sector = .timeA := by
      unfold AbPair.nextTarget
      rw [ha, hb]
      rfl
    rw [htarget, Flash.cutInFirstPage_self]
    exact Or.inl (parse_tornPage P)
  obtain ⟨-, hboots⟩ := hsurvives _ _ (write_cut_first hnone t) htorn
  obtain ⟨h, hboot, havailable, -⟩ := hboots Bench.dryPower faultless_nil
  have hclean := (powerUp_ok hboot).clean faultless_nil
  rw [hclean.unavailable, storedFloor_unavailable (cut_first_disables hnone t)] at havailable
  exact absurd havailable (by simp)

/-- The pair of a device that was never told the time does not survive. -/
theorem floor_survives_cut_iff_blank :
    ¬ FloorSurvivesCut (.bench []) Flash.blank 1700000000 := by
  rw [floor_survives_cut_iff (AbPair.Reach.blank rfl rfl) 1700000000]
  have hnone : TIME_FLOOR.latest (Prims.bench []).crc32 Flash.blank.sector = none := by
    unfold AbPair.latest
    rw [AbPair.copies_erased rfl rfl]
    rfl
  rw [hnone]
  decide

/-- The first floor ever written, cut in its first page: the torn sector is
    detected, and the next boot comes up without a usable time. -/
theorem first_floor_cut_disables_time :
    ∃ (g : Flash) (h : Hsm (.bench [])),
      TIME_FLOOR.write (Prims.bench []).crc32 (i64ToBe 1700000000)
        (Flash.blank.under [.none, .none, .none, .cut Sector.cleared]) = .error .powerLoss g ∧
      parseRecord (Prims.bench []).crc32 (g.sector .timeA) = none ∧
      TIME_FLOOR.failClosed (Prims.bench []).crc32 g.sector = none ∧
      powerUp g Bench.dryPower = .ok () h ∧ h.trustedTimeFloorUnavailable = true := by
  have hnone : TIME_FLOOR.latest (Prims.bench []).crc32 Flash.blank.sector = none := by
    unfold AbPair.latest
    rw [AbPair.copies_erased rfl rfl]
    rfl
  have hcut := write_cut_first (P := .bench []) hnone 1700000000
  have hfail := cut_first_disables (P := .bench []) hnone 1700000000
  obtain ⟨h, hboot, hclean⟩ := powerUp_faultless (P := .bench [])
    (Flash.blank.cutInFirstPage .timeA 1 (i64ToBe 1700000000) Sector.cleared)
    (p := Bench.dryPower) faultless_nil
  refine ⟨_, h, hcut, ?_, hfail, hboot, ?_⟩
  · rw [Flash.cutInFirstPage_self]
    exact parse_tornPage (.bench [])
  · rw [hclean.unavailable, storedFloor_unavailable hfail]

end PicoSignet
