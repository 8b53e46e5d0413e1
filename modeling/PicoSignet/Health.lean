/-
  PicoSignet/Health.lean
  ======================
  **The health tests on a raw sample** — what the two scans of `health_check`
  decide.  The run-length scan keeps one counter and its maximum; it refuses exactly
  the samples with 24 equal bytes in a row.  The proportion scan counts into a table;
  it refuses exactly those in which one value occurs more than 64 times.
-/
import PicoSignet.Wrap

set_option autoImplicit false

namespace PicoSignet

/-- What a sample has to be: no long run of one byte, and no byte too frequent. -/
structure Healthy (raw : Octets) : Prop where
  runs : ∀ b, ¬ List.replicate RCT_CUTOFF b <:+: raw
  counts : ∀ b, raw.count b ≤ APT_MAX

/-! ### The run-length scan -/

/-- A run longer than the block of `p` in front begins behind the block. -/
theorem replicate_infix_block {n run : Nat} {p x b : UInt8} {rest : Octets} (hne : x ≠ p)
    (hlong : run < n) :
    List.replicate n b <:+: List.replicate run p ++ x :: rest ↔
      List.replicate n b <:+: x :: rest := by
  induction run with
  | zero => simp
  | succ run ih =>
    rw [List.replicate_succ, List.cons_append, List.infix_cons_iff, ih (by omega)]
    constructor
    · intro h
      rcases h with ⟨tail, htail⟩ | h
      · -- the run covers the whole block and the byte behind it
        have hfirst : b = p := by
          have hzero := congrArg (fun l => l[0]?) htail
          simpa [List.getElem?_append, List.getElem?_replicate, show 0 < n by omega] using hzero
        have hbehind : b = x := by
          have hat := congrArg (fun l => l[run + 1]?) htail
          simpa [List.getElem?_append, List.getElem?_replicate, hlong] using hat
        exact absurd (hbehind.symm.trans hfirst) hne
      · exact h
    · exact Or.inr

theorem maxRun_lt_iff {n : Nat} (rest : Octets) :
    ∀ (prev : UInt8) (run best : Nat), 1 ≤ run → run ≤ best →
      (maxRun prev run best rest < n ↔
        best < n ∧ ∀ b, ¬ List.replicate n b <:+: List.replicate run prev ++ rest) := by
  induction rest with
  | nil =>
    intro prev run best hrun hbest
    rw [maxRun, List.append_nil]
    constructor
    · intro hlt
      refine ⟨hlt, fun b hinfix => ?_⟩
      have hlength := hinfix.length_le
      simp only [List.length_replicate] at hlength
      omega
    · exact fun h => h.1
  | cons x rest ih =>
    intro prev run best hrun hbest
    rw [maxRun]
    by_cases hx : x = prev
    · subst hx
      have hblock : List.replicate run x ++ x :: rest = List.replicate (run + 1) x ++ rest := by
        rw [List.replicate_succ', List.append_assoc, List.singleton_append]
      rw [if_pos rfl, ih x (run + 1) _ (by omega) (Nat.le_max_right _ _), hblock]
      constructor
      · intro h
        exact ⟨by omega, h.2⟩
      · intro h
        refine ⟨?_, h.2⟩
        by_contra hlong
        have hinfix : List.replicate n x <:+: List.replicate (run + 1) x := by
          refine ⟨[], List.replicate (run + 1 - n) x, ?_⟩
          rw [List.nil_append, List.replicate_append_replicate]
          congr 1
          omega
        exact h.2 x (List.infix_append_of_infix_left hinfix)
    · rw [if_neg hx, ih x 1 best le_rfl (by omega)]
      refine and_congr_right fun hlong => forall_congr' fun b => not_congr ?_
      exact (replicate_infix_block hx (by omega)).symm

theorem longestRun_lt_iff {n : Nat} (hn : 1 < n) (raw : Octets) :
    longestRun raw < n ↔ ∀ b, ¬ List.replicate n b <:+: raw := by
  cases raw with
  | nil =>
    constructor
    · intro _ b hinfix
      have hlength := hinfix.length_le
      simp only [List.length_replicate, List.length_nil] at hlength
      omega
    · exact fun _ => hn
  | cons b rest =>
    rw [longestRun, maxRun_lt_iff rest b 1 1 le_rfl le_rfl]
    simp [hn]

/-! ### The proportion scan -/

theorem length_foldl_modify (raw : Octets) :
    ∀ counts : List Nat,
      (raw.foldl (fun counts b => counts.modify b.toNat (· + 1)) counts).length =
        counts.length := by
  induction raw with
  | nil => simp
  | cons b rest ih =>
    intro counts
    rw [List.foldl_cons, ih, List.length_modify]

/-- The table gains one for each occurrence. -/
theorem getElem?_foldl_modify (raw : Octets) (b : UInt8) :
    ∀ counts : List Nat,
      (raw.foldl (fun counts b => counts.modify b.toNat (· + 1)) counts)[b.toNat]? =
        counts[b.toNat]?.map (· + raw.count b) := by
  induction raw with
  | nil => simp
  | cons x rest ih =>
    intro counts
    rw [List.foldl_cons, ih, List.getElem?_modify, List.count_cons]
    by_cases hx : x = b
    · subst hx
      cases hat : counts[x.toNat]? with
      | none => simp
      | some c =>
        simp
        omega
    · have hindex : x.toNat ≠ b.toNat := fun heq => hx (UInt8.toNat_inj.1 heq)
      simp [hx, hindex]

theorem byteCounts_at (raw : Octets) (b : UInt8) :
    (byteCounts raw)[b.toNat]? = some (raw.count b) := by
  rw [byteCounts, getElem?_foldl_modify]
  rw [List.getElem?_replicate, if_pos b.toNat_lt, Option.map_some, Nat.zero_add]

theorem mem_byteCounts {raw : Octets} {c : Nat} :
    c ∈ byteCounts raw ↔ ∃ b, raw.count b = c := by
  constructor
  · intro hmem
    obtain ⟨i, hi, hc⟩ := List.getElem_of_mem hmem
    have hsize : (byteCounts raw).length = 256 := by
      rw [byteCounts, length_foldl_modify, List.length_replicate]
    have hindex : (UInt8.ofNat i).toNat = i := by
      rw [UInt8.toNat_ofNat']
      omega
    have hat := byteCounts_at raw (UInt8.ofNat i)
    rw [hindex, List.getElem?_eq_getElem hi, hc] at hat
    exact ⟨_, (Option.some.inj hat).symm⟩
  · intro h
    obtain ⟨b, rfl⟩ := h
    exact List.mem_of_getElem? (byteCounts_at raw b)

/-! ### The verdict -/

theorem healthCheck_iff (raw : Octets) : healthCheck raw = true ↔ Healthy raw := by
  have hproportion : ((byteCounts raw).any fun c => decide (c > APT_MAX)) = false ↔
      ∀ b, raw.count b ≤ APT_MAX := by
    rw [List.any_eq_false]
    constructor
    · intro h b
      have hno := h _ (mem_byteCounts.2 ⟨b, rfl⟩)
      simpa using hno
    · intro h c hc
      obtain ⟨b, rfl⟩ := mem_byteCounts.1 hc
      simpa using h b
  rw [healthCheck, Bool.and_eq_true, decide_eq_true_iff, Bool.not_eq_true', hproportion,
    longestRun_lt_iff (by decide)]
  exact ⟨fun h => ⟨h.1, h.2⟩, fun h => ⟨h.runs, h.counts⟩⟩

/-! ### Gathering a sample -/

/-- What is gathered is one of the next samples of the source, and it is healthy. -/
theorem gatherHealthy_ok {raw : Bytes SEED_SAMPLE} {e' : Entropy} :
    ∀ {tries : Nat} {e : Entropy}, gatherHealthy tries e = (.ok raw, e') →
      Healthy raw.toList ∧ .ok raw :: e' <:+ e := by
  intro tries
  induction tries with
  | zero =>
    intro e h
    simp [gatherHealthy] at h
  | succ tries ih =>
    intro e h
    cases e with
    | nil => simp [gatherHealthy] at h
    | cons sample rest =>
      cases sample with
      | error err => simp [gatherHealthy] at h
      | ok next =>
        rw [gatherHealthy] at h
        split at h
        · rename_i hhealthy
          cases h
          exact ⟨(healthCheck_iff _).1 hhealthy, List.suffix_refl _⟩
        · obtain ⟨hraw, hsuffix⟩ := ih h
          exact ⟨hraw, hsuffix.trans (List.suffix_cons _ _)⟩

/-- A healthy sample is found exactly when one lies before the first error, within
    the tries that are left. -/
theorem gatherHealthy_finds_iff :
    ∀ (tries : Nat) (e : Entropy), (∃ raw e', gatherHealthy tries e = (.ok raw, e')) ↔
      ∃ raw, .ok raw ∈ (e.take tries).takeWhile Except.isOk ∧ Healthy raw.toList := by
  intro tries
  induction tries with
  | zero => simp [gatherHealthy]
  | succ tries ih =>
    intro e
    cases e with
    | nil => simp [gatherHealthy]
    | cons sample rest =>
      cases sample with
      | error err => simp [gatherHealthy, Except.isOk, Except.toBool]
      | ok next =>
        rw [gatherHealthy, List.take_succ_cons, List.takeWhile_cons_of_pos rfl]
        by_cases hnext : healthCheck next.toList = true
        · rw [if_pos hnext]
          constructor
          · exact fun _ => ⟨next, List.mem_cons_self, (healthCheck_iff _).1 hnext⟩
          · exact fun _ => ⟨next, rest, rfl⟩
        · rw [if_neg hnext, ih rest]
          constructor
          · intro h
            obtain ⟨raw, hmem, hraw⟩ := h
            exact ⟨raw, List.mem_cons_of_mem _ hmem, hraw⟩
          · intro h
            obtain ⟨raw, hmem, hraw⟩ := h
            rcases List.mem_cons.1 hmem with heq | hmem
            · cases heq
              exact absurd ((healthCheck_iff _).2 hraw) hnext
            · exact ⟨raw, hmem, hraw⟩

/-- The source only moves forward, whatever comes of it. -/
theorem gatherHealthy_suffix :
    ∀ (tries : Nat) (e : Entropy), (gatherHealthy tries e).2 <:+ e := by
  intro tries
  induction tries with
  | zero => exact fun e => List.suffix_refl e
  | succ tries ih =>
    intro e
    cases e with
    | nil => exact List.suffix_refl _
    | cons sample rest =>
      cases sample with
      | error err => exact List.suffix_cons _ _
      | ok next =>
        rw [gatherHealthy]
        split
        · exact List.suffix_cons _ _
        · exact (ih rest).trans (List.suffix_cons _ _)

end PicoSignet
