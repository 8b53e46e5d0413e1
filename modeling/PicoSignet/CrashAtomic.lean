import PicoSignet.Pairs

/-!
# Crash atomicity of the A/B pairs

The pairs of sectors that writes can produce, and the theorem about one more
write that is cut: a later read sees the payload from before it or the new one.
-/

set_option autoImplicit false

namespace PicoSignet

open Crash TwoCopy

section Reach

variable (crc : Octets → UInt32) (pair : AbPair) (W : Octets → Prop)

/-- What a pair of sectors can look like after `n` writes of payloads in `W`, each
    completed or cut by a power loss, and any number of complete erases. -/
inductive AbPair.Reach : Nat → Flash → Prop
  | blank {f : Flash} (ha : f.sector pair.a = Sector.erased)
      (hb : f.sector pair.b = Sector.erased) : AbPair.Reach 0 f
  | write {n : Nat} {f g : Flash} {payload : Octets} {faults : List Fault}
      (hf : AbPair.Reach n f) (hpayload : W payload)
      (hg : pair.write crc payload (f.under faults) = .ok () g) : AbPair.Reach (n + 1) g
  | cut {n : Nat} {f g : Flash} {payload : Octets} {faults : List Fault}
      (hf : AbPair.Reach n f) (hpayload : W payload)
      (hg : pair.write crc payload (f.under faults) = .error .powerLoss g)
      (htorn : TornDetected crc (f.sector (pair.nextTarget crc f.sector))
        (g.sector (pair.nextTarget crc f.sector)) (pair.nextNumber crc f.sector) payload) :
      AbPair.Reach (n + 1) g
  | eraseBoth {n : Nat} {f g : Flash} {faults : List Fault} (hf : AbPair.Reach n f)
      (hg : pair.eraseBoth (f.under faults) = .ok () g) : AbPair.Reach n g

end Reach

section Atomicity

variable {crc : Octets → UInt32} {pair : AbPair} {W : Octets → Prop}

theorem AbPair.copies_erased {image : Region → Sector} (ha : image pair.a = Sector.erased)
    (hb : image pair.b = Sector.erased) : pair.copies crc image = ⟨none, none⟩ := by
  unfold AbPair.copies
  rw [ha, hb, parseRecord_erased]
  rfl

theorem AbPair.step_of_ok {f g : Flash} {payload : Octets} {faults : List Fault}
    (hpayload : payload.length ≤ 4080)
    (hg : pair.write crc payload (f.under faults) = .ok () g) :
    Copies.Step (2 ^ 32) (pair.copies crc f.sector) (some payload) (pair.copies crc g.sector) := by
  rw [AbPair.step_done hpayload ((runs_write crc pair _ hpayload).of_ok hg)]
  exact Copies.Step.done _ _

theorem AbPair.step_of_cut {f g : Flash} {payload : Octets} {faults : List Fault}
    (hg : pair.write crc payload (f.under faults) = .error .powerLoss g)
    (htorn : TornDetected crc (f.sector (pair.nextTarget crc f.sector))
      (g.sector (pair.nextTarget crc f.sector)) (pair.nextNumber crc f.sector) payload) :
    Copies.Step (2 ^ 32) (pair.copies crc f.sector) (some payload) (pair.copies crc g.sector) := by
  have hwithin := Wp.of_error (wp_write_footprint crc pair payload (f.under faults)) hg
  exact AbPair.step_cut (fun r hr => hwithin.sector r fun heq => hr (Option.some.inj heq)) htorn

theorem AbPair.step_of_eraseBoth {f g : Flash} {faults : List Fault}
    (hg : pair.eraseBoth (f.under faults) = .ok () g) :
    Copies.Step (2 ^ 32) (pair.copies crc f.sector) none (pair.copies crc g.sector) := by
  have hsector := (runs_eraseBoth pair _).of_ok hg
  have hcopies : pair.copies crc g.sector = ⟨none, none⟩ := by
    refine AbPair.copies_erased ?_ ?_
    · rw [hsector, Function.update_of_ne pair.distinct, Function.update_self]
    · rw [hsector, Function.update_self]
  rw [hcopies]
  exact Copies.Step.clear _

/-- In every pair that writes can produce, one record is strictly newer. -/
theorem AbPair.Reach.sound {n : Nat} {f : Flash} (h : pair.Reach crc W n f)
    (hW : ∀ payload, W payload → payload.length ≤ 4080) : (pair.copies crc f.sector).Sound := by
  induction h with
  | blank ha hb =>
    rw [AbPair.copies_erased ha hb]
    exact Copies.sound_empty
  | write hf hpayload hg ih =>
    exact (AbPair.step_of_ok (hW _ hpayload) hg).sound (by norm_num) (AbPair.next_le _) ih
  | cut hf hpayload hg htorn ih =>
    exact (AbPair.step_of_cut hg htorn).sound (by norm_num) (AbPair.next_le _) ih
  | eraseBoth hf hg ih =>
    exact (AbPair.step_of_eraseBoth hg).sound (by norm_num) (AbPair.next_le _) ih

/-- Each write uses up one number at most. -/
theorem AbPair.Reach.next_le {n : Nat} {f : Flash} (h : pair.Reach crc W n f)
    (hW : ∀ payload, W payload → payload.length ≤ 4080) :
    (pair.copies crc f.sector).next ≤ n + 1 := by
  induction h with
  | blank ha hb =>
    rw [AbPair.copies_erased ha hb]
    exact le_rfl
  | write hf hpayload hg ih =>
    exact (AbPair.step_of_ok (hW _ hpayload) hg).next_le.trans (Nat.add_le_add_right ih 1)
  | cut hf hpayload hg htorn ih =>
    exact (AbPair.step_of_cut hg htorn).next_le.trans (Nat.add_le_add_right ih 1)
  | eraseBoth hf hg ih =>
    exact (AbPair.step_of_eraseBoth hg).next_le.trans ih

variable (crc pair) in
theorem AbPair.reads_latest (f : Flash) :
    ∃ g, pair.readLatest crc (f.under []) = .ok (pair.latest crc f.sector) g := by
  obtain ⟨v, g, hread, rfl, -⟩ := (runs_readLatest crc pair (f.under [])).total rfl
  exact ⟨g, hread⟩

/-- A write that is cut leaves the payload that was latest before it or the new
    one, never an older one; a write that returns leaves the new one as long as
    the numbers last. -/
theorem AbPair.write_crash_atomic {n : Nat} {f f' : Flash}
    (hf : pair.Reach crc (fun payload => payload.length ≤ 4080) n f) {payload : Octets}
    (hpayload : payload.length ≤ 4080) (faults : List Fault) {old : Option Octets}
    (hold : pair.readLatest crc (f.under []) = .ok old f') :
    (∀ g, pair.write crc payload (f.under faults) = .error .powerLoss g →
      TornDetected crc (f.sector (pair.nextTarget crc f.sector))
        (g.sector (pair.nextTarget crc f.sector)) (pair.nextNumber crc f.sector) payload →
      ∃ new g', pair.readLatest crc (g.under []) = .ok new g' ∧
        (new = old ∨ new = some payload)) ∧
    (∀ g, pair.write crc payload (f.under faults) = .ok () g → n < 2 ^ 32 - 1 →
      ∃ g', pair.readLatest crc (g.under []) = .ok (some payload) g') := by
  have hsound := hf.sound fun _ h => h
  have hlatest := ((runs_readLatest crc pair _).of_ok hold).1
  constructor
  · intro g hg htorn
    obtain ⟨g', hread⟩ := AbPair.reads_latest crc pair g
    refine ⟨_, g', hread, ?_⟩
    have hregister := (AbPair.step_of_cut hg htorn).refines (by norm_num) (AbPair.next_le _) hsound
    rw [hlatest]
    exact hregister.old_or_new
  · intro g hg hn
    obtain ⟨g', hread⟩ := AbPair.reads_latest crc pair g
    refine ⟨g', ?_⟩
    have hnext := hf.next_le fun _ h => h
    have hcopies := AbPair.step_done hpayload ((runs_write crc pair _ hpayload).of_ok hg)
    have hnew : pair.latest crc g.sector = some payload := by
      unfold AbPair.latest
      rw [hcopies, Flash.sector_under, Nat.mod_eq_of_lt (by omega), Copies.newest_write]
    rw [hread, hnew]

/-- A flash that was never written. -/
def Flash.blank : Flash :=
  { sector := fun _ => Sector.erased, uniqueId := Vector.replicate 8 0,
    deviceSecret := .error .secret, faults := [], journal := [] }

/-- The first write to a blank pair, cut in its erase. -/
theorem AbPair.write_crash_atomic_blank :
    ∃ g new g', KEY.write (fun _ => 0) [1] (Flash.blank.under [.none, .none, .cut Sector.erased]) =
        .error .powerLoss g ∧
      KEY.readLatest (fun _ => 0) (g.under []) = .ok new g' ∧ (new = none ∨ new = some [1]) := by
  obtain ⟨f', hold⟩ := AbPair.reads_latest (fun _ => 0) KEY Flash.blank
  have hlatest : KEY.latest (fun _ => 0) Flash.blank.sector = none := by
    unfold AbPair.latest
    rw [AbPair.copies_erased rfl rfl]
    rfl
  rw [hlatest] at hold
  have hcut : KEY.write (fun _ => 0) [1] (Flash.blank.under [.none, .none, .cut Sector.erased]) =
      .error .powerLoss { Flash.blank with
        sector := Function.update Flash.blank.sector .keyA Sector.erased,
        journal := [.erase .keyA, .record .keyA Sector.erased 1 [1]] } := rfl
  have htorn : TornDetected (fun _ => 0) Sector.erased Sector.erased 1 [1] :=
    Or.inl (parseRecord_erased _)
  obtain ⟨new, g', hread, hnew⟩ := (AbPair.write_crash_atomic
    (AbPair.Reach.blank rfl rfl) (by decide) [.none, .none, .cut Sector.erased] hold).1 _ hcut htorn
  exact ⟨_, new, g', hcut, hread, hnew⟩

end Atomicity

end PicoSignet
