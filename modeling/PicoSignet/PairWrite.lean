/-
  PicoSignet/PairWrite.lean
  =========================
  **What a write leaves to be read.**  A record laid out and programmed page by page
  parses back from the sector, whatever the sector held, and the two payload formats
  read back from it (`record_round_trip`).

  On a pair of sectors the writer picks its target and its number by one rule and the
  readers pick the latest record by another.  The two agree for every pair of numbers
  but one: behind the number `2^32 - 1` the written record is numbered 0, and both
  readers go on finding the copy that was left alone (`AbPair.write_reads_back_iff`).
-/
import PicoSignet.FloorCut

set_option autoImplicit false

namespace PicoSignet

open Crash TwoCopy

/-! ### One sector -/

/-- The formats of `storage.rs` through an erase and page programs: what is written is
    what is read, for every prior content of the flash. -/
theorem record_round_trip (crc : Octets → UInt32) (r : Region) (f : Flash) (seq : UInt32) :
    (∀ payload : Octets, payload.length ≤ 4080 →
      (∃ g, writeRecord crc r seq payload (f.under []) = .ok () g) ∧
      ∀ faults g, writeRecord crc r seq payload (f.under faults) = .ok () g →
        parseRecord crc (g.sector r) = some (seq, payload) ∧
        ∀ r', r' ≠ r → g.sector r' = f.sector r') ∧
    (∀ c : DeviceConfig, ∃ g payload, writeRecord crc r seq c.toBytes (f.under []) = .ok () g ∧
      parseRecord crc (g.sector r) = some (seq, payload) ∧
      DeviceConfig.fromBytes payload = some c) ∧
    ∀ k : KeyBlob, ∃ g payload, writeRecord crc r seq k.toBytes (f.under []) = .ok () g ∧
      parseRecord crc (g.sector r) = some (seq, payload) ∧ KeyBlob.fromBytes payload = some k := by
  have hwritten : ∀ payload : Octets, payload.length ≤ 4080 → ∀ faults g,
      writeRecord crc r seq payload (f.under faults) = .ok () g →
        parseRecord crc (g.sector r) = some (seq, payload) ∧
        ∀ r', r' ≠ r → g.sector r' = f.sector r' := by
    intro payload hpayload faults g hg
    have hsector := (runs_writeRecord crc r seq (f.under faults) hpayload).of_ok hg
    rw [hsector, Flash.sector_under]
    constructor
    · rw [Function.update_self, parseRecord_recordImage crc seq hpayload]
    · intro r' hr'
      rw [Function.update_of_ne hr']
  have hreturns : ∀ payload : Octets, payload.length ≤ 4080 →
      ∃ g, writeRecord crc r seq payload (f.under []) = .ok () g := by
    intro payload hpayload
    obtain ⟨_, g, hg, -⟩ := (runs_writeRecord crc r seq (f.under []) hpayload).total rfl
    exact ⟨g, hg⟩
  refine ⟨fun payload hpayload => ⟨hreturns payload hpayload, hwritten payload hpayload⟩, ?_, ?_⟩
  · intro c
    have hlen : c.toBytes.length ≤ 4080 := by
      rw [length_deviceConfig]
      norm_num
    obtain ⟨g, hg⟩ := hreturns _ hlen
    exact ⟨g, c.toBytes, hg, (hwritten _ hlen [] g hg).1, DeviceConfig.fromBytes_toBytes c⟩
  · intro k
    have hlen : k.toBytes.length ≤ 4080 := by
      rw [length_keyBlob]
      norm_num
    obtain ⟨g, hg⟩ := hreturns _ hlen
    exact ⟨g, k.toBytes, hg, (hwritten _ hlen [] g hg).1, KeyBlob.fromBytes_toBytes k⟩

/-! ### A pair of sectors -/

/-- A write that returns is what both readers find; a payload that does not fit is
    refused and touches nothing. -/
structure AbPair.ReadsBack (crc : Octets → UInt32) (pair : AbPair) (f : Flash)
    (payload : Octets) : Prop where
  latest : payload.length ≤ 4080 → ∀ faults g,
    pair.write crc payload (f.under faults) = .ok () g →
      ∃ g', pair.readLatest crc (g.under []) = .ok (some payload) g'
  failClosed : payload.length ≤ 4080 → ∀ faults g,
    pair.write crc payload (f.under faults) = .ok () g →
      ∃ g', pair.readLatestFailClosed crc (g.under []) = .ok (some payload) g'
  /-- Any other error is that of a read that failed. -/
  tooLong : 4080 < payload.length → ∀ faults, ∃ e g,
    pair.write crc payload (f.under faults) = .error e g ∧ g.sector = f.sector ∧
      (e = .hal .outOfRange ∨ e.Justified faults)

section

variable {crc : Octets → UInt32} {pair : AbPair} {f : Flash} {payload : Octets}

theorem AbPair.write_returns (hpayload : payload.length ≤ 4080) :
    ∃ g, pair.write crc payload (f.under []) = .ok () g := by
  obtain ⟨_, g, hg, -⟩ := (runs_write crc pair (f.under []) hpayload).total rfl
  exact ⟨g, hg⟩

/-- The latest record behind a write: the new one, unless its number has wrapped. -/
theorem AbPair.latest_of_write (hpayload : payload.length ≤ 4080) {faults : List Fault} {g : Flash}
    (hg : pair.write crc payload (f.under faults) = .ok () g) :
    pair.latest crc g.sector =
      if pair.NumberLeft crc f.sector then some payload
      else (pair.copies crc f.sector).kept.map Prod.snd := by
  have hcopies := AbPair.step_done hpayload ((runs_write crc pair _ hpayload).of_ok hg)
  rw [Flash.sector_under] at hcopies
  unfold AbPair.latest
  rw [hcopies]
  by_cases hleft : pair.NumberLeft crc f.sector
  · rw [if_pos hleft, Nat.mod_eq_of_lt hleft, Copies.newest_write]
  · have hnext : (pair.copies crc f.sector).next = 2 ^ 32 :=
      Nat.le_antisymm (AbPair.next_le _) (Nat.le_of_not_lt hleft)
    rw [if_neg hleft, hnext, Nat.mod_self]
    apply Copies.newest_behind_kept
    omega

/-- Reading a record touches nothing, also when it fails. -/
theorem wp_readRecord_kept (r : Region) (f : Flash) :
    Wp (readRecord crc r) (fun _ g => g.sector = f.sector ∧ g.faults <:+ f.faults)
      (fun e g => g.sector = f.sector ∧ e.Justified f.faults) f := by
  have hstays := stays_readRecord (R := fun _ => False) crc r f
  refine (Wp.and (runs_readRecord crc r f) hstays).mono ?_ ?_
  · rintro _ g ⟨⟨⟨-, hg⟩, hfaults⟩, -⟩
    exact ⟨hg, hfaults⟩
  · rintro e g ⟨he, hg⟩
    exact ⟨funext fun r' => hg.sector r' not_false, he⟩

theorem AbPair.write_tooLong (hlong : 4080 < payload.length) (faults : List Fault) :
    ∃ e g, pair.write crc payload (f.under faults) = .error e g ∧ g.sector = f.sector ∧
      (e = .hal .outOfRange ∨ e.Justified faults) := by
  have hrefused : Wp (pair.write crc payload) (fun _ _ => False)
      (fun e g => g.sector = f.sector ∧ (e = .hal .outOfRange ∨ e.Justified faults))
      (f.under faults) := by
    unfold AbPair.write
    rw [Wp_bind]
    refine (wp_readRecord_kept pair.a (f.under faults)).mono ?_ fun _ _ he => ⟨he.1, Or.inr he.2⟩
    rintro ra g ⟨hg, hfaults⟩
    rw [Wp_bind]
    refine (wp_readRecord_kept pair.b g).mono ?_ fun _ _ he =>
      ⟨he.1.trans hg, Or.inr (he.2.mono hfaults)⟩
    rintro rb g' ⟨hg', -⟩
    unfold writeRecord
    rw [if_pos (by simp only [HEADER, SECTOR_LEN]; omega), Wp_throw]
    exact ⟨hg'.trans hg, Or.inl rfl⟩
  cases hrun : pair.write crc payload (f.under faults) with
  | ok _ g => exact (Wp.of_ok hrefused hrun).elim
  | error e g =>
    have hrest := Wp.of_error hrefused hrun
    exact ⟨e, g, rfl, hrest⟩

end

/-- Behind the last number a write is lost on the readers, unless the copy it leaves
    alone says the same. -/
theorem AbPair.write_reads_back_iff (crc : Octets → UInt32) (pair : AbPair) (f : Flash)
    (payload : Octets) :
    pair.ReadsBack crc f payload ↔
      (payload.length ≤ 4080 → pair.NumberLeft crc f.sector ∨
        (pair.copies crc f.sector).kept.map Prod.snd = some payload) := by
  constructor
  · intro h hpayload
    obtain ⟨g, hg⟩ : ∃ g, pair.write crc payload (f.under []) = .ok () g :=
      AbPair.write_returns hpayload
    have hlatest := AbPair.latest_of_write hpayload hg
    obtain ⟨g', hread⟩ := h.latest hpayload [] g hg
    obtain ⟨g'', hread'⟩ := AbPair.reads_latest crc pair g
    have hnew : pair.latest crc g.sector = some payload := by
      rw [hread'] at hread
      exact (EStateM.Result.ok.inj hread).1
    by_cases hleft : pair.NumberLeft crc f.sector
    · exact Or.inl hleft
    · rw [if_neg hleft] at hlatest
      exact Or.inr (hlatest.symm.trans hnew)
  · intro h
    have hnew : payload.length ≤ 4080 → ∀ faults g,
        pair.write crc payload (f.under faults) = .ok () g →
          pair.latest crc g.sector = some payload := by
      intro hpayload faults g hg
      rw [AbPair.latest_of_write hpayload hg]
      by_cases hleft : pair.NumberLeft crc f.sector
      · rw [if_pos hleft]
      · rw [if_neg hleft]
        exact (h hpayload).resolve_left hleft
    constructor
    · intro hpayload faults g hg
      obtain ⟨g', hread⟩ := AbPair.reads_latest crc pair g
      exact ⟨g', by rw [hread, hnew hpayload faults g hg]⟩
    · intro hpayload faults g hg
      exact AbPair.reads_failClosed rfl (AbPair.failClosed_of_latest (hnew hpayload faults g hg))
    · exact fun hlong faults => AbPair.write_tooLong hlong faults

/-- Copy A carries the number `2^32 - 1` and copy B is blank. -/
def lastNumber : Flash :=
  { Flash.blank with
    sector := Function.update Flash.blank.sector .keyA (recordImage (fun _ => 0) 0xFFFFFFFF [1]) }

/-- The write behind it returns, and both readers find what was there before. -/
theorem write_behind_last_number :
    ∃ g g' g'', KEY.write (fun _ => 0) [2] lastNumber = .ok () g ∧
      KEY.readLatest (fun _ => 0) (g.under []) = .ok (some [1]) g' ∧
      KEY.readLatestFailClosed (fun _ => 0) (g.under []) = .ok (some [1]) g'' := by
  have hshort : ([2] : Octets).length ≤ 4080 := by decide
  have hcopies : KEY.copies (fun _ => 0) lastNumber.sector = ⟨some (2 ^ 32 - 1, [1]), none⟩ := by
    have hb : lastNumber.sector KEY.b = Sector.erased := rfl
    have ha : lastNumber.sector KEY.a = recordImage (fun _ => 0) 0xFFFFFFFF [1] := rfl
    unfold AbPair.copies
    rw [ha, hb, parseRecord_erased, parseRecord_recordImage _ _ (by simp)]
    rfl
  obtain ⟨g, hg⟩ : ∃ g, KEY.write (fun _ => 0) [2] (lastNumber.under []) = .ok () g :=
    AbPair.write_returns hshort
  have hlatest := AbPair.latest_of_write hshort hg
  have hold : KEY.latest (fun _ => 0) g.sector = some [1] := by
    have hnone : ¬KEY.NumberLeft (fun _ => 0) lastNumber.sector := by
      unfold AbPair.NumberLeft
      rw [hcopies]
      decide
    rw [hlatest, if_neg hnone, hcopies]
    rfl
  obtain ⟨g', hread⟩ := AbPair.reads_latest (fun _ => 0) KEY g
  obtain ⟨g'', hclosed⟩ :=
    AbPair.reads_failClosed (f := g.under []) rfl (AbPair.failClosed_of_latest hold)
  exact ⟨g, g', g'', hg, by rw [hread, hold], hclosed⟩

end PicoSignet
