import PicoSignet.Records

/-!
# A/B pairs as two numbered copies

`AbPair.copies` is the abstraction function from a flash image to
`TwoCopy.Copies`.  Under it `AbPair::write` is a `Step` of two copies, whether it
completes or is cut, provided a torn sector does not parse as a record that was
never written (`TornDetected`).
-/

set_option autoImplicit false

namespace PicoSignet

open Crash TwoCopy

/-- The flash with these faults ahead. -/
def Flash.under (f : Flash) (faults : List Fault) : Flash := { f with faults }

@[simp] theorem Flash.sector_under (f : Flash) (faults : List Fault) :
    (f.under faults).sector = f.sector := rfl

@[simp] theorem Flash.faults_under (f : Flash) (faults : List Fault) :
    (f.under faults).faults = faults := rfl

@[simp] theorem Flash.journal_under (f : Flash) (faults : List Fault) :
    (f.under faults).journal = f.journal := rfl

/-! ### Abstraction -/

/-- A parsed record as a numbered copy. -/
def asCopy (record : Option (UInt32 × Octets)) : Option (Nat × Octets) :=
  record.map fun r => (r.1.toNat, r.2)

@[simp] theorem asCopy_none : asCopy none = none := rfl

@[simp] theorem asCopy_some (seq : UInt32) (payload : Octets) :
    asCopy (some (seq, payload)) = some (seq.toNat, payload) := rfl

theorem seq_asCopy (record : Option (UInt32 × Octets)) :
    seq (asCopy record) = (seqOf record).toNat := by
  cases record <;> rfl

theorem latestOf_eq_newest (ra rb : Option (UInt32 × Octets)) :
    latestOf ra rb = Copies.newest ⟨asCopy ra, asCopy rb⟩ := by
  rcases ra with _ | ⟨sa, pa⟩ <;> rcases rb with _ | ⟨sb, pb⟩ <;> rfl

theorem toNat_nextSeq (ra rb : Option (UInt32 × Octets)) :
    (nextSeq ra rb).toNat = Copies.next ⟨asCopy ra, asCopy rb⟩ % 2 ^ 32 := by
  unfold nextSeq Copies.next
  rw [seq_asCopy, seq_asCopy, UInt32.toNat_add]
  congr 2
  by_cases h : seqOf ra ≤ seqOf rb
  · have hmax : max (seqOf ra) (seqOf rb) = seqOf rb := if_pos h
    rw [hmax, max_eq_right (UInt32.le_iff_toNat_le.mp h)]
  · have hmax : max (seqOf ra) (seqOf rb) = seqOf ra := if_neg h
    rw [UInt32.le_iff_toNat_le] at h
    rw [hmax, max_eq_left (by omega)]

section Pairs

variable (crc : Octets → UInt32) (pair : AbPair)

/-- The two records of a pair in a flash image. -/
def AbPair.copies (image : Region → Sector) : Copies Octets :=
  ⟨asCopy (parseRecord crc (image pair.a)), asCopy (parseRecord crc (image pair.b))⟩

/-- The payload `read_latest` finds. -/
def AbPair.latest (image : Region → Sector) : Option Octets := (pair.copies crc image).newest

/-- The sector the next write goes to. -/
def AbPair.nextTarget (image : Region → Sector) : Region :=
  pair.target (parseRecord crc (image pair.a)) (parseRecord crc (image pair.b))

/-- The number the next write hands out. -/
def AbPair.nextNumber (image : Region → Sector) : UInt32 :=
  nextSeq (parseRecord crc (image pair.a)) (parseRecord crc (image pair.b))

variable {crc pair}

theorem AbPair.next_le (image : Region → Sector) : (pair.copies crc image).next ≤ 2 ^ 32 := by
  have ha := (seqOf (parseRecord crc (image pair.a))).toNat_lt
  have hb := (seqOf (parseRecord crc (image pair.b))).toNat_lt
  unfold AbPair.copies Copies.next
  rw [seq_asCopy, seq_asCopy]
  omega

theorem AbPair.copies_congr {image image' : Region → Sector} (ha : image' pair.a = image pair.a)
    (hb : image' pair.b = image pair.b) : pair.copies crc image' = pair.copies crc image := by
  unfold AbPair.copies
  rw [ha, hb]

/-- Changing the target sector only is replacing the older copy. -/
theorem AbPair.copies_replace {image image' : Region → Sector}
    (hother : ∀ r, r ≠ pair.nextTarget crc image → image' r = image r) :
    pair.copies crc image' = (pair.copies crc image).replace
      (asCopy (parseRecord crc (image' (pair.nextTarget crc image)))) := by
  have hcond : seq (pair.copies crc image).a ≤ seq (pair.copies crc image).b ↔
      seqOf (parseRecord crc (image pair.a)) ≤ seqOf (parseRecord crc (image pair.b)) := by
    unfold AbPair.copies
    rw [seq_asCopy, seq_asCopy, UInt32.le_iff_toNat_le]
  unfold AbPair.nextTarget AbPair.target at *
  unfold Copies.replace
  split at hother
  · rename_i hle
    rw [if_pos (hcond.mpr hle), if_pos hle]
    unfold AbPair.copies
    rw [hother pair.b pair.distinct.symm]
  · rename_i hle
    rw [if_neg (fun h => hle (hcond.mp h)), if_neg hle]
    unfold AbPair.copies
    rw [hother pair.a pair.distinct]

/-! ### The operations -/

variable (crc) (pair)

theorem runs_readRecord (r : Region) (f : Flash) :
    Runs (readRecord crc r) f fun v g => v = parseRecord crc (f.sector r) ∧ g.sector = f.sector := by
  refine (runs_read r f).bind ?_
  rintro s g ⟨rfl, hg⟩
  exact Runs.pure ⟨rfl, hg⟩

theorem runs_readRecordState (r : Region) (f : Flash) :
    Runs (readRecordState crc r) f fun v g =>
      v = recordState crc (f.sector r) ∧ g.sector = f.sector := by
  refine (runs_read r f).bind ?_
  rintro s g ⟨rfl, hg⟩
  exact Runs.pure ⟨rfl, hg⟩

theorem runs_readLatest (f : Flash) :
    Runs (pair.readLatest crc) f fun v g =>
      v = pair.latest crc f.sector ∧ g.sector = f.sector := by
  refine (runs_readRecord crc pair.a f).bind ?_
  rintro ra g ⟨rfl, hg⟩
  refine (runs_readRecord crc pair.b g).bind ?_
  rintro rb g' ⟨rfl, hg'⟩
  refine Runs.pure ⟨?_, by rw [hg', hg]⟩
  rw [latestOf_eq_newest, hg]
  rfl

theorem runs_write {payload : Octets} (f : Flash) (hpayload : payload.length ≤ 4080) :
    Runs (pair.write crc payload) f fun _ g =>
      g.sector = Function.update f.sector (pair.nextTarget crc f.sector)
        (recordImage crc (pair.nextNumber crc f.sector) payload) := by
  refine (runs_readRecord crc pair.a f).bind ?_
  rintro ra g ⟨rfl, hg⟩
  refine (runs_readRecord crc pair.b g).bind ?_
  rintro rb g' ⟨rfl, hg'⟩
  refine (runs_writeRecord crc _ _ g' hpayload).mono ?_
  intro _ g'' hg''
  rw [hg'', hg', hg]
  rfl

theorem runs_eraseBoth (f : Flash) :
    Runs pair.eraseBoth f fun _ g => g.sector =
      Function.update (Function.update f.sector pair.a Sector.erased) pair.b Sector.erased := by
  refine (runs_erase pair.a f).bind ?_
  intro _ g hg
  refine (runs_erase pair.b g).mono ?_
  intro _ g' hg'
  rw [hg', hg]

/-- The fail-closed reader returns what it makes of the two sectors, or errs. -/
theorem wp_readLatestFailClosed (f : Flash) :
    Wp (pair.readLatestFailClosed crc)
      (fun v g => latestFailClosed (recordState crc (f.sector pair.a))
        (recordState crc (f.sector pair.b)) = some v ∧ g.sector = f.sector)
      (fun e _ => e.Justified f.faults ∨ e = .hal .flash ∧
        latestFailClosed (recordState crc (f.sector pair.a))
          (recordState crc (f.sector pair.b)) = none) f := by
  unfold AbPair.readLatestFailClosed
  rw [Wp_bind]
  refine Wp.mono (runs_readRecordState crc pair.a f) ?_ fun _ _ he => Or.inl he
  rintro ra g ⟨⟨hra, hg⟩, hfaults⟩
  rw [Wp_bind]
  refine Wp.mono (runs_readRecordState crc pair.b g) ?_ fun _ _ he => Or.inl (he.mono hfaults)
  rintro rb g' ⟨⟨hrb, hg'⟩, -⟩
  rw [hg] at hrb
  rw [hra, hrb]
  split
  · rename_i payload hlatest
    rw [Wp_pure, hg', hg]
    exact ⟨hlatest, rfl⟩
  · rename_i hlatest
    rw [Wp_throw]
    exact Or.inr ⟨rfl, hlatest⟩

/-- Only the target sector can change, wherever the write stops. -/
theorem wp_write_footprint (payload : Octets) (f : Flash) :
    Wp (pair.write crc payload)
      (fun _ g => FlashWithin (· = some (pair.nextTarget crc f.sector)) f g)
      (fun _ g => FlashWithin (· = some (pair.nextTarget crc f.sector)) f g) f := by
  unfold AbPair.write
  rw [Wp_bind]
  refine Wp.mono (Wp.and (runs_readRecord crc pair.a f) (stays_readRecord crc pair.a f)) ?_
    fun _ _ he => he.2
  rintro ra g ⟨⟨⟨rfl, hg⟩, -⟩, hfg⟩
  rw [Wp_bind]
  refine Wp.mono (Wp.and (runs_readRecord crc pair.b g) (stays_readRecord crc pair.b g)) ?_
    fun _ _ he => trans_of (FlashWithin _) hfg he.2
  rintro rb g' ⟨⟨⟨rfl, hg'⟩, -⟩, hgg'⟩
  rw [hg]
  have hfg' := trans_of (FlashWithin _) hfg hgg'
  refine (stays_writeRecord crc (R := (· = some (pair.nextTarget crc f.sector))) rfl _ _ g').mono ?_ ?_
  · intro _ h hgh
    exact trans_of (FlashWithin _) hfg' hgh
  · intro _ h hgh
    exact trans_of (FlashWithin _) hfg' hgh

/-! ### Records that were begun -/

/-- The record whose write began last: its sector, what that sector held, and the
    number and payload. -/
def lastRecord : List Entry → Option (Region × Sector × UInt32 × Octets)
  | [] => none
  | .record r before seq payload :: _ => some (r, before, seq, payload)
  | _ :: rest => lastRecord rest

/-- No record write begins. -/
def KeepsLastRecord (f g : Flash) : Prop := lastRecord g.journal = lastRecord f.journal

instance : IsPreorder Flash KeepsLastRecord where
  refl _ := rfl
  trans := fun _ _ _ hfg hgh => Eq.trans hgh hfg

theorem keeps_nextFault : Stays KeepsLastRecord nextFault := by
  intro f
  unfold nextFault
  rw [Wp_bind, Wp_get]
  split <;> rfl

theorem keeps_put (r : Region) (s : Flash → Sector) :
    Stays KeepsLastRecord (modify fun f => f.put r (s f) : FlashM PUnit) :=
  Stays.modify fun _ => rfl

theorem keeps_read (r : Region) : Stays KeepsLastRecord (read r) := by
  refine Stays.bind keeps_nextFault fun fault => ?_
  cases fault with
  | none => exact Stays.bind Stays.get fun _ => Stays.pure _
  | fail left => exact Stays.bind (Stays.modify fun _ => rfl) fun _ => Stays.throw _
  | cut left => exact Stays.throw _

theorem keeps_erase (r : Region) : Stays KeepsLastRecord (erase r) := by
  refine Stays.bind (Stays.modify fun _ => rfl) fun _ => Stays.bind keeps_nextFault fun fault => ?_
  cases fault with
  | none => exact keeps_put r _
  | fail left => exact Stays.bind (keeps_put r _) fun _ => Stays.throw _
  | cut left => exact Stays.bind (keeps_put r _) fun _ => Stays.throw _

theorem keeps_program (r : Region) (off : Nat) (page : Octets) :
    Stays KeepsLastRecord (program r off page) := by
  refine Stays.ite (Stays.throw _) ?_
  refine Stays.bind (Stays.modify fun _ => rfl) fun _ => Stays.bind keeps_nextFault fun fault => ?_
  cases fault with
  | none => exact keeps_put r _
  | fail mask => exact Stays.bind (keeps_put r _) fun _ => Stays.throw _
  | cut mask => exact Stays.bind (keeps_put r _) fun _ => Stays.throw _

theorem keeps_programPages (r : Region) (image : Sector) (count p : Nat) :
    Stays KeepsLastRecord (programPages r image count p) := by
  induction count generalizing p with
  | zero => exact Stays.pure _
  | succ count ih => exact Stays.bind (keeps_program r _ _) fun _ => ih (p + 1)

theorem keeps_readRecord (r : Region) : Stays KeepsLastRecord (readRecord crc r) :=
  Stays.bind (keeps_read r) fun _ => Stays.pure _

/-- Wherever a record write stops, it is the last one that began. -/
theorem wp_writeRecord_last (r : Region) (seq : UInt32) {payload : Octets} (f : Flash)
    (hpayload : payload.length ≤ 4080) :
    Wp (writeRecord crc r seq payload)
      (fun _ g => lastRecord g.journal = some (r, f.sector r, seq, payload))
      (fun _ g => lastRecord g.journal = some (r, f.sector r, seq, payload)) f := by
  unfold writeRecord
  rw [if_neg (by simp only [HEADER, SECTOR_LEN]; omega), Wp_bind, Wp_get, Wp_bind]
  have hrest : Stays KeepsLastRecord (do
      erase r
      programPages r (recordImage crc seq payload)
        (divCeil (HEADER + payload.length + 4) PAGE_LEN) 0) :=
    Stays.bind (keeps_erase r) fun _ => keeps_programPages r _ _ 0
  refine (hrest (f.log (.record r (f.sector r) seq payload))).mono ?_ ?_
  · intro _ g hg
    exact hg
  · intro _ g hg
    exact hg

/-- A write that stops has not begun its record, or it is the last one begun. -/
theorem wp_write_last {payload : Octets} (f : Flash) (hpayload : payload.length ≤ 4080) :
    Wp (pair.write crc payload)
      (fun _ g => lastRecord g.journal = some (pair.nextTarget crc f.sector,
        f.sector (pair.nextTarget crc f.sector), pair.nextNumber crc f.sector, payload))
      (fun _ g => g.sector = f.sector ∨
        lastRecord g.journal = some (pair.nextTarget crc f.sector,
          f.sector (pair.nextTarget crc f.sector), pair.nextNumber crc f.sector, payload)) f := by
  unfold AbPair.write
  -- a stop inside one of the two reads has touched no sector
  have hread : ∀ (r : Region) (g : Flash),
      Wp (readRecord crc r) (fun v g' => v = parseRecord crc (g.sector r) ∧ g'.sector = g.sector)
        (fun _ g' => g'.sector = g.sector) g := by
    intro r g
    refine Wp.mono (Wp.and (runs_readRecord crc r g)
      (stays_readRecord (R := fun _ => False) crc r g)) ?_ ?_
    · rintro v g' ⟨⟨h, -⟩, -⟩
      exact h
    · rintro e g' ⟨-, h⟩
      exact funext fun r' => h.sector r' not_false
  rw [Wp_bind]
  refine (hread pair.a f).mono ?_ fun _ _ he => Or.inl he
  rintro ra g ⟨rfl, hg⟩
  rw [Wp_bind]
  refine (hread pair.b g).mono ?_ fun _ _ he => Or.inl (he.trans hg)
  rintro rb g' ⟨rfl, hg'⟩
  rw [hg]
  have hlast := wp_writeRecord_last crc (pair.nextTarget crc f.sector)
    (pair.nextNumber crc f.sector) g' hpayload
  rw [hg', hg] at hlast
  exact hlast.mono (fun _ _ h => h) fun _ _ h => Or.inr h

/-! ### Writes as steps of two copies -/

/-- A sector that a cut write left behind parses as nothing, as the record that
    was there before, or as the new record. -/
def TornDetected (before after : Sector) (seq : UInt32) (payload : Octets) : Prop :=
  parseRecord crc after = none ∨ parseRecord crc after = parseRecord crc before ∨
    parseRecord crc after = some (seq, payload)

variable {crc pair}

theorem asCopy_nextNumber (image : Region → Sector) (payload : Octets) :
    asCopy (some (pair.nextNumber crc image, payload)) =
      some ((pair.copies crc image).next % 2 ^ 32, payload) := by
  rw [asCopy_some]
  unfold AbPair.nextNumber
  rw [toNat_nextSeq]
  rfl

/-- A complete write, as a step. -/
theorem AbPair.step_done {image image' : Region → Sector} {payload : Octets}
    (hpayload : payload.length ≤ 4080)
    (himage : image' = Function.update image (pair.nextTarget crc image)
      (recordImage crc (pair.nextNumber crc image) payload)) :
    pair.copies crc image' = (pair.copies crc image).replace
      (some ((pair.copies crc image).next % 2 ^ 32, payload)) := by
  have hother : ∀ r, r ≠ pair.nextTarget crc image → image' r = image r := by
    intro r hr
    rw [himage, Function.update_of_ne hr]
  rw [AbPair.copies_replace hother, himage, Function.update_self,
    parseRecord_recordImage crc _ hpayload, asCopy_nextNumber]

/-- A cut write, as a step. -/
theorem AbPair.step_cut {image image' : Region → Sector} {payload : Octets}
    (hother : ∀ r, r ≠ pair.nextTarget crc image → image' r = image r)
    (htorn : TornDetected crc (image (pair.nextTarget crc image))
      (image' (pair.nextTarget crc image)) (pair.nextNumber crc image) payload) :
    Copies.Step (2 ^ 32) (pair.copies crc image) (some payload) (pair.copies crc image') := by
  have hcopies := AbPair.copies_replace hother
  rcases htorn with hparse | hparse | hparse
  · rw [hcopies, hparse]
    exact Copies.Step.lost _ _
  · have hsame : pair.copies crc image' = pair.copies crc image := by
      rw [hcopies, hparse, ← AbPair.copies_replace fun _ _ => rfl]
    rw [hsame]
    exact Copies.Step.kept _ _
  · rw [hcopies, hparse, asCopy_nextNumber]
    exact Copies.Step.done _ _

end Pairs

end PicoSignet
