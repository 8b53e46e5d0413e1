/-
  PicoSignet/EraseCut.lean
  ========================
  **Erasing a pair that loses power** — `AbPair::erase_both` erases sector A and
  then sector B.  A write replaces the older copy, so which sector holds the
  newer record alternates with the writes, but the order of the erases does not.

  `AbPair.eraseBoth_atomic_iff` says when a cut is harmless: the record in B, if
  there is one, must be the latest.  When the newer record is in A and B still
  holds the one it superseded, a cut after the first erase brings that one back.
  `AbPair.eraseBoth_atomic_parity` reads the same off the number of writes.
-/
import PicoSignet.CrashAtomic

set_option autoImplicit false

namespace PicoSignet

open Crash TwoCopy

/-! ### What an erase leaves -/

/-- The remainder of an operation that stopped, as the environment chose it. -/
def Stop.Remainder (e : Stop) (faults : List Fault) (left : Sector) : Prop :=
  match e with
  | .hal _ => Fault.fail left ∈ faults
  | .powerLoss => Fault.cut left ∈ faults

theorem Stop.Remainder.mono {e : Stop} {faults faults' : List Fault} {left : Sector}
    (h : e.Remainder faults' left) (hs : faults' <:+ faults) : e.Remainder faults left := by
  cases e with
  | hal e => exact hs.subset h
  | powerLoss => exact hs.subset h

theorem wp_erase (r : Region) (f : Flash) :
    Wp (erase r)
      (fun _ g => g.sector = Function.update f.sector r Sector.erased ∧ g.faults <:+ f.faults)
      (fun e g => ∃ left, e.Remainder f.faults left ∧
        g.sector = Function.update f.sector r left ∧ g.faults <:+ f.faults) f := by
  unfold erase nextFault note
  simp only [Wp_bind, Wp_get, Wp_modify]
  cases hfaults : (f.log (.erase r)).faults with
  | nil => exact ⟨rfl, List.suffix_rfl⟩
  | cons fault rest =>
    have hmem : fault ∈ f.faults := by
      change fault ∈ (f.log (.erase r)).faults
      rw [hfaults]
      exact List.mem_cons_self
    have hrest : rest <:+ f.faults := by
      change rest <:+ (f.log (.erase r)).faults
      rw [hfaults]
      exact List.suffix_cons fault rest
    cases fault with
    | none => exact ⟨rfl, hrest⟩
    | fail left => exact ⟨left, hmem, rfl, hrest⟩
    | cut left => exact ⟨left, hmem, rfl, hrest⟩

/-- The second sector is not touched before the first is erased. -/
theorem AbPair.wp_eraseBoth (pair : AbPair) (f : Flash) :
    Wp pair.eraseBoth
      (fun _ g => g.sector =
        Function.update (Function.update f.sector pair.a Sector.erased) pair.b Sector.erased)
      (fun e g => ∃ left, e.Remainder f.faults left ∧
        (g.sector = Function.update f.sector pair.a left ∨
          g.sector = Function.update (Function.update f.sector pair.a Sector.erased) pair.b left))
      f := by
  unfold AbPair.eraseBoth
  rw [Wp_bind]
  refine (wp_erase pair.a f).mono ?_ ?_
  · rintro _ g ⟨hg, hfaults⟩
    refine (wp_erase pair.b g).mono ?_ ?_
    · rintro _ g' ⟨hg', -⟩
      rw [hg', hg]
    · rintro e g' ⟨left, hleft, hg', -⟩
      exact ⟨left, hleft.mono hfaults, Or.inr (by rw [hg', hg])⟩
  · rintro e g ⟨left, hleft, hg, -⟩
    exact ⟨left, hleft, Or.inl hg⟩

/-! ### Cuts -/

section Cuts

variable (crc : Octets → UInt32) (pair : AbPair)

/-- A sector whose erase was cut does not parse, or is as it was. -/
def EraseDetected (before after : Sector) : Prop :=
  parseRecord crc after = none ∨ after = before

/-- Wherever `erase_both` loses power, a later read returns the payload that was
    latest before it, or none. -/
def AbPair.EraseAtomic (f : Flash) : Prop :=
  ∀ (old : Option Octets) (f' : Flash), pair.readLatest crc (f.under []) = .ok old f' →
    ∀ (faults : List Fault) (g : Flash), pair.eraseBoth (f.under faults) = .error .powerLoss g →
      EraseDetected crc (f.sector pair.a) (g.sector pair.a) →
      EraseDetected crc (f.sector pair.b) (g.sector pair.b) →
      ∃ new g', pair.readLatest crc (g.under []) = .ok new g' ∧ (new = old ∨ new = none)

/-- The record in sector B, if there is one, is the latest of the pair. -/
def AbPair.LatestInB (image : Region → Sector) : Prop :=
  ∀ seq payload, parseRecord crc (image pair.b) = some (seq, payload) →
    pair.latest crc image = some payload

variable {crc pair}

theorem AbPair.latestInB_iff (image : Region → Sector) :
    pair.LatestInB crc image ↔
      ∀ n w, (pair.copies crc image).b = some (n, w) →
        (pair.copies crc image).newest = some w := by
  unfold AbPair.LatestInB
  constructor
  · intro h n w hb
    obtain ⟨⟨seq, payload⟩, hparse, hcopy⟩ := Option.map_eq_some_iff.mp hb
    obtain ⟨-, rfl⟩ := Prod.mk.inj hcopy
    exact h seq payload hparse
  · intro h seq payload hparse
    refine h seq.toNat payload ?_
    unfold AbPair.copies
    rw [hparse]
    rfl

/-- A cut erase clears the copies in the order of the sectors. -/
theorem AbPair.clearing_of_cut {f g : Flash} {faults : List Fault}
    (hg : pair.eraseBoth (f.under faults) = .error .powerLoss g)
    (ha : EraseDetected crc (f.sector pair.a) (g.sector pair.a))
    (hb : EraseDetected crc (f.sector pair.b) (g.sector pair.b)) :
    Copies.Clearing (pair.copies crc f.sector) (pair.copies crc g.sector) := by
  obtain ⟨left, -, hsector | hsector⟩ := (pair.wp_eraseBoth _).of_error hg
  · -- cut in the first erase: sector B is as it was
    have hgb : g.sector pair.b = f.sector pair.b := by
      rw [hsector, Function.update_of_ne pair.distinct.symm]
      rfl
    rcases ha with hparse | hsame
    · have hcopies : pair.copies crc g.sector = ⟨none, (pair.copies crc f.sector).b⟩ := by
        unfold AbPair.copies
        rw [hparse, hgb]
        rfl
      rw [hcopies]
      exact .first _
    · rw [AbPair.copies_congr hsame hgb]
      exact .kept _
  · -- cut in the second: sector A is erased
    have hga : g.sector pair.a = Sector.erased := by
      rw [hsector, Function.update_of_ne pair.distinct, Function.update_self]
    rcases hb with hparse | hsame
    · have hcopies : pair.copies crc g.sector = ⟨none, none⟩ := by
        unfold AbPair.copies
        rw [hparse, hga, parseRecord_erased]
        rfl
      rw [hcopies]
      exact .both _
    · have hcopies : pair.copies crc g.sector = ⟨none, (pair.copies crc f.sector).b⟩ := by
        unfold AbPair.copies
        rw [hsame, hga, parseRecord_erased]
        rfl
      rw [hcopies]
      exact .first _

/-- The cut between the two erases. -/
theorem AbPair.cut_between (pair : AbPair) (f : Flash) :
    ∃ g, pair.eraseBoth (f.under [.none, .cut (f.sector pair.b)]) = .error .powerLoss g ∧
      g.sector = Function.update f.sector pair.a Sector.erased := by
  refine ⟨_, rfl, ?_⟩
  funext r
  by_cases hr : r = pair.b
  · subst hr
    rw [Function.update_of_ne pair.distinct.symm]
    exact Function.update_self _ _ _
  · exact Function.update_of_ne hr _ _

/-- A cut of `erase_both` brings back no superseded record exactly when sector B
    holds none. -/
theorem AbPair.eraseBoth_atomic_iff (f : Flash) :
    pair.EraseAtomic crc f ↔ pair.LatestInB crc f.sector := by
  rw [AbPair.latestInB_iff]
  obtain ⟨f', hold⟩ := AbPair.reads_latest crc pair f
  constructor
  · intro hatomic n w hcopy
    obtain ⟨g, hg, hsector⟩ := AbPair.cut_between pair f
    have hga : g.sector pair.a = Sector.erased := by rw [hsector, Function.update_self]
    have hgb : g.sector pair.b = f.sector pair.b := by
      rw [hsector, Function.update_of_ne pair.distinct.symm]
    have hdetected : EraseDetected crc (f.sector pair.a) (g.sector pair.a) := by
      rw [hga]
      exact Or.inl (parseRecord_erased crc)
    obtain ⟨new, g', hread, hnew⟩ := hatomic _ _ hold _ g hg hdetected (Or.inr hgb)
    obtain ⟨g'', hread'⟩ := AbPair.reads_latest crc pair g
    rw [hread] at hread'
    obtain ⟨rfl, -⟩ := EStateM.Result.ok.inj hread'
    have hlatest : pair.latest crc g.sector = some w := by
      unfold AbPair.latest AbPair.copies
      unfold AbPair.copies at hcopy
      dsimp only at hcopy
      rw [hga, hgb, parseRecord_erased, hcopy]
      rfl
    rw [hlatest] at hnew
    rcases hnew with hnew | hnew
    · exact hnew.symm
    · exact absurd hnew (by simp)
  · intro hb old f'' hold' faults g hg hdetA hdetB
    rw [hold] at hold'
    obtain ⟨rfl, -⟩ := EStateM.Result.ok.inj hold'
    obtain ⟨g', hread⟩ := AbPair.reads_latest crc pair g
    refine ⟨_, g', hread, ?_⟩
    exact (Copies.clearing_atomic_iff _).mpr hb _ (AbPair.clearing_of_cut hg hdetA hdetB)

/-! ### Histories of complete writes -/

variable (crc pair) in
/-- The pair of sectors after complete writes to a blank one, newest payload first. -/
inductive AbPair.Written : List Octets → Flash → Prop
  | blank {f : Flash} (ha : f.sector pair.a = Sector.erased)
      (hb : f.sector pair.b = Sector.erased) : AbPair.Written [] f
  | write {payloads : List Octets} {f g : Flash} {payload : Octets} {faults : List Fault}
      (hf : AbPair.Written payloads f) (hpayload : payload.length ≤ 4080)
      (hg : pair.write crc payload (f.under faults) = .ok () g) :
      AbPair.Written (payload :: payloads) g

theorem AbPair.Written.copies {payloads : List Octets} {f : Flash}
    (hf : pair.Written crc payloads f) (hcount : payloads.length < 2 ^ 32) :
    pair.copies crc f.sector = Copies.written payloads := by
  induction hf with
  | blank ha hb => exact AbPair.copies_erased ha hb
  | @write payloads f g payload faults hf hpayload hg ih =>
    rw [List.length_cons] at hcount
    have hold := ih (by omega)
    have hnext := Copies.next_written_le payloads
    rw [AbPair.step_done hpayload ((runs_write crc pair _ hpayload).of_ok hg), Flash.sector_under,
      hold, Nat.mod_eq_of_lt (by omega), Copies.written_cons]

/-- The same condition, by the parity of the history. -/
theorem AbPair.eraseBoth_atomic_parity {payloads : List Octets} {f : Flash}
    (hf : pair.Written crc payloads f) (hcount : payloads.length < 2 ^ 32) :
    pair.EraseAtomic crc f ↔
      payloads.length ≤ 1 ∨ payloads.length % 2 = 0 ∨ payloads[0]? = payloads[1]? := by
  rw [AbPair.eraseBoth_atomic_iff, AbPair.latestInB_iff, hf.copies hcount]
  exact Copies.written_clearing_iff payloads

/-- Every payload that fits can be written next. -/
theorem AbPair.Written.next {payloads : List Octets} {f : Flash}
    (hf : pair.Written crc payloads f) (payload : Octets) (hpayload : payload.length ≤ 4080) :
    ∃ g, pair.Written crc (payload :: payloads) g := by
  obtain ⟨_, g, hg, -⟩ := (runs_write crc pair (f.under []) hpayload).total rfl
  exact ⟨g, .write hf hpayload hg⟩

end Cuts

/-- Two rotations and a reset that loses power between its first two erases: the
    KEY pair holds the rotated-away blob again. -/
theorem key_erase_revives_superseded :
    ∃ f g g' : Flash, KEY.Written (fun _ => 0) [[3], [2], [1]] f ∧
      KEY.eraseBoth (f.under [.none, .cut (f.sector .keyB)]) = .error .powerLoss g ∧
      EraseDetected (fun _ => 0) (f.sector .keyA) (g.sector .keyA) ∧
      EraseDetected (fun _ => 0) (f.sector .keyB) (g.sector .keyB) ∧
      KEY.readLatest (fun _ => 0) (g.under []) = .ok (some [2]) g' ∧
      KEY.latest (fun _ => 0) f.sector = some [3] ∧ ¬ KEY.EraseAtomic (fun _ => 0) f := by
  have hblank : KEY.Written (fun _ => 0) [] Flash.blank := .blank rfl rfl
  obtain ⟨f₁, h₁⟩ := hblank.next [1] (by decide)
  obtain ⟨f₂, h₂⟩ := h₁.next [2] (by decide)
  obtain ⟨f, hf⟩ := h₂.next [3] (by decide)
  have hcopies := hf.copies (by decide)
  obtain ⟨g, hg, hsector⟩ := AbPair.cut_between KEY f
  have hga : g.sector .keyA = Sector.erased := by
    rw [hsector]
    exact Function.update_self _ _ _
  have hgb : g.sector .keyB = f.sector .keyB := by
    rw [hsector]
    exact Function.update_of_ne (by decide) _ _
  have hb : asCopy (parseRecord (fun _ => 0) (f.sector .keyB)) = some (2, [2]) :=
    congrArg Copies.b hcopies
  have hlatest : KEY.latest (fun _ => 0) g.sector = some [2] := by
    change Copies.newest ⟨asCopy (parseRecord (fun _ => 0) (g.sector .keyA)),
      asCopy (parseRecord (fun _ => 0) (g.sector .keyB))⟩ = _
    rw [hga, hgb, hb, parseRecord_erased]
    rfl
  obtain ⟨g', hread⟩ := AbPair.reads_latest (fun _ => 0) KEY g
  rw [hlatest] at hread
  refine ⟨f, g, g', hf, hg, ?_, Or.inr hgb, hread, ?_, ?_⟩
  · rw [hga]
    exact Or.inl (parseRecord_erased _)
  · unfold AbPair.latest
    rw [hcopies]
    rfl
  · rw [AbPair.eraseBoth_atomic_parity hf (by decide)]
    decide

end PicoSignet
