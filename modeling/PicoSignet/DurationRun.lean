/-
  PicoSignet/DurationRun.lean
  ===========================
  **Duration parsing, run with its checks.**

  `GoDuration.lean` reads `hsm-core/src/goduration.rs` as functions on byte lists.
  Here the scanner is written with the offsets of the source: every slice of the string
  is taken at a byte offset that has to be a character boundary, and every sum and
  product of `u64` values outside the wrapping ones is checked.  The turns of the loop
  are counted, so that a loop that does not come to an end is seen not to.

  On the bytes of any string no check fails, each turn that goes on consumes at least
  two bytes, and the result is the one of `GoDuration.lean`.  The conversion through
  `f64` stays a parameter.
-/
import PicoSignet.GoDuration
import PicoSignet.Utf8
import Mathlib.Data.List.TakeWhile

set_option autoImplicit false

namespace PicoSignet.GoDuration.Run

open Checked

/-- A division of `u64` values. -/
def div {ε : Type} (a b : Nat) : Prog ε Nat := if b = 0 then stop .overflow else pure (a / b)

/-- `leading_int`, from the values its loop has reached; the loop ends inside the slice,
    so its counter is no larger than a length. -/
def leadingInt (s : Octets) (x i : Nat) : Prog String (Nat × Nat × Bool) :=
  if i < s.length then do
    let c ← index s i
    if isDigit c then
      if x > (← div TWO_63 10) then pure (0, i, true)
      else do
        let y ← add 64 (← mul 64 x 10) (← sub c.toNat 0x30)
        if y > TWO_63 then pure (0, i, true) else leadingInt s y (i + 1)
    else pure (x, i, false)
  else pure (x, i, false)
termination_by s.length - i

/-- `leading_fraction`, likewise; the scale is ten to the power of the digits that count. -/
def leadingFraction (s : Octets) (x digits : Nat) (overflow : Bool) (i : Nat) :
    Prog String (Nat × Nat × Nat) :=
  if i < s.length then do
    let c ← index s i
    if isDigit c then
      if overflow then leadingFraction s x digits true (i + 1)
      else do
        if x > (← div (← sub TWO_63 1) 10) then leadingFraction s x digits true (i + 1)
        else do
          let y ← add 64 (← mul 64 x 10) (← sub c.toNat 0x30)
          if y > TWO_63 then leadingFraction s x digits true (i + 1)
          else leadingFraction s y (digits + 1) false (i + 1)
    else pure (x, digits, i)
  else pure (x, digits, i)
termination_by s.length - i

/-- The scan for the end of the unit. -/
def unitEnd (s : Octets) (i : Nat) : Prog String Nat :=
  if i < s.length then do
    let c ← index s i
    if c = DOT || isDigit c then pure i else unitEnd s (i + 1)
  else pure i
termination_by s.length - i

/-- The optional fractional part: its value, its digits, whether it has any, and the rest. -/
def fraction (s : Octets) : Prog String (Nat × Nat × Bool × Octets) := do
  if s.isEmpty then pure (0, 0, false, s)
  else do
    let c ← index s 0
    if c = DOT then do
      let s ← sliceFrom s 1
      let pl2 := s.length
      let (f, digits, c2) ← leadingFraction s 0 0 false 0
      let s ← sliceFrom s c2
      pure (f, digits, pl2 != s.length, s)
    else pure (0, 0, false, s)

section

-- the conversion through `f64`
variable (frac : (f unit digits : Nat) → UInt64)

/-- The value of a component whose unit is known. -/
def value (orig : Octets) (v f unit digits : Nat) : Prog String Nat := do
  if v > (← div TWO_63 unit) then fail (errInvalid orig)
  else do
    let v ← mul 64 v unit
    if f > 0 then
      let v := (v + (frac f unit digits).toNat) % 2 ^ 64
      if v > TWO_63 then fail (errInvalid orig) else pure v
    else pure v

/-- One turn of the loop in `parse_duration`. -/
def turn (orig s : Octets) (d : Nat) : Prog String (Octets × Nat) := do
  let b0 ← index s 0
  if ¬ (b0 = DOT ∨ isDigit b0) then fail (errInvalid orig)
  else do
    let pl := s.length
    let (v, consumed, overflow) ← leadingInt s 0 0
    if overflow then fail (errInvalid orig)
    else do
      let s ← sliceFrom s consumed
      let pre := pl != s.length
      let (f, digits, post, s) ← fraction s
      if !pre && !post then fail (errInvalid orig)
      else do
        let i ← unitEnd s 0
        if i = 0 then fail (errMissingUnit orig)
        else do
          let u ← sliceTo s i
          let s ← sliceFrom s i
          match unitMap u with
          | none => fail (errUnknownUnit u orig)
          | some unit => do
            let v ← value frac orig v f unit digits
            let d := (d + v) % 2 ^ 64
            if d > TWO_63 then fail (errInvalid orig) else pure (s, d)

/-- The loop in `parse_duration`; `none` is a loop that goes on after so many turns. -/
def loop (orig : Octets) : (turns : Nat) → (s : Octets) → (d : Nat) → Prog String (Option Nat)
  | _, [], d => pure (some d)
  | 0, _ :: _, _ => pure none
  | turns + 1, b :: rest, d => do
    let (s, d) ← turn frac orig (b :: rest) d
    loop orig turns s d

/-- `parse_duration`. -/
def parseDuration (turns : Nat) (orig : Octets) : Prog String (Option Int64) := do
  let (neg, s) ← match orig with
    | [] => pure (false, orig)
    | c :: _ =>
      if c = 0x2D ∨ c = 0x2B then do
        let s ← sliceFrom orig 1
        pure (decide (c = 0x2D), s)
      else pure (false, orig)
  if s = [0x30] then pure (some 0)
  else if s.isEmpty then fail (errInvalid orig)
  else
    match ← loop frac orig turns s 0 with
    | none => pure none
    | some d =>
      if neg then pure (some (-(Int64.ofNat d)))
      else if d > TWO_63 - 1 then fail (errInvalid orig)
      else pure (some (Int64.ofNat d))

end

/-! ### The scans of digits -/

theorem div_run {ε : Type} {a b : Nat} (h : b ≠ 0) :
    (div a b : Prog ε Nat).run = .ok (.ok (a / b)) := by
  unfold div
  rw [if_neg h]
  rfl

theorem mul_run {ε : Type} {w a b : Nat} (h : a * b < 2 ^ w) :
    (mul w a b : Prog ε Nat).run = .ok (.ok (a * b)) := (mul_follows w a b).returns h

theorem digit_toNat {c : UInt8} (h : isDigit c = true) : 0x30 ≤ c.toNat ∧ c.toNat ≤ 0x39 := by
  unfold isDigit at h
  rw [Bool.and_eq_true, decide_eq_true_iff, decide_eq_true_iff] at h
  exact h

/-- Below the guard a further digit fits. -/
theorem digit_fits {x : Nat} {c : UInt8} (hx : x ≤ TWO_63 / 10) (hc : isDigit c = true) :
    x * 10 < 2 ^ 64 ∧ x * 10 + (c.toNat - 0x30) < 2 ^ 64 := by
  obtain ⟨-, hle⟩ := digit_toNat hc
  unfold TWO_63 at hx
  omega

theorem get_append {xs rest : Octets} {c : UInt8} : (xs ++ c :: rest)[xs.length]? = some c := by
  simp

theorem length_lt_append (xs rest : Octets) (c : UInt8) :
    xs.length < (xs ++ c :: rest).length := by simp

theorem snoc_append (xs rest : Octets) (c : UInt8) : xs ++ c :: rest = (xs ++ [c]) ++ rest := by simp

theorem leadingInt_run (xs rest : Octets) (x : Nat) :
    ∃ i, (leadingInt (xs ++ rest) x xs.length).run = .ok (.ok
      (match GoDuration.leadingInt x rest with
        | none => (0, i, true)
        | some (v, tail) => (v, (xs ++ rest).length - tail.length, false))) := by
  induction rest generalizing xs x with
  | nil =>
    refine ⟨0, ?_⟩
    rw [leadingInt, if_neg (by simp)]
    simp [GoDuration.leadingInt]
    rfl
  | cons c rest ih =>
    rw [leadingInt, if_pos (length_lt_append xs rest c), run_bind_ok (index_run get_append)]
    unfold GoDuration.leadingInt
    by_cases hc : isDigit c = true
    · rw [if_pos hc, if_pos hc, run_bind_ok (div_run (by decide))]
      by_cases hbig : x > TWO_63 / 10
      · rw [if_pos hbig, if_pos hbig]
        exact ⟨xs.length, rfl⟩
      · rw [if_neg hbig, if_neg hbig]
        obtain ⟨hmul, hadd⟩ := digit_fits (Nat.le_of_not_lt hbig) hc
        rw [run_bind_ok (mul_run hmul), run_bind_ok (sub_run (digit_toNat hc).1),
          run_bind_ok (add_run hadd)]
        dsimp only
        by_cases hover : x * 10 + (c.toNat - 0x30) > TWO_63
        · rw [if_pos hover, if_pos hover]
          exact ⟨xs.length, rfl⟩
        · rw [if_neg hover, if_neg hover]
          have hrun := ih (xs ++ [c]) (x * 10 + (c.toNat - 0x30))
          rw [List.length_append, List.length_singleton, ← snoc_append] at hrun
          exact hrun
    · rw [if_neg hc, if_neg hc]
      refine ⟨0, ?_⟩
      simp
      rfl

theorem leadingFraction_run (xs rest : Octets) (x digits : Nat) (overflow : Bool) :
    (leadingFraction (xs ++ rest) x digits overflow xs.length).run = .ok (.ok
      ((GoDuration.leadingFraction x digits overflow rest).1,
        (GoDuration.leadingFraction x digits overflow rest).2.1,
        (xs ++ rest).length - (GoDuration.leadingFraction x digits overflow rest).2.2.length)) := by
  induction rest generalizing xs x digits overflow with
  | nil =>
    rw [leadingFraction, if_neg (by simp)]
    simp [GoDuration.leadingFraction]
    rfl
  | cons c rest ih =>
    have hnext : ∀ x digits overflow,
        (leadingFraction (xs ++ c :: rest) x digits overflow (xs.length + 1)).run = .ok (.ok
          ((GoDuration.leadingFraction x digits overflow rest).1,
            (GoDuration.leadingFraction x digits overflow rest).2.1,
            (xs ++ c :: rest).length -
              (GoDuration.leadingFraction x digits overflow rest).2.2.length)) := by
      intro x digits overflow
      have hrun := ih (xs ++ [c]) x digits overflow
      rw [List.length_append, List.length_singleton, ← snoc_append] at hrun
      exact hrun
    rw [leadingFraction, if_pos (length_lt_append xs rest c), run_bind_ok (index_run get_append)]
    unfold GoDuration.leadingFraction
    by_cases hc : isDigit c = true
    · rw [if_pos hc, if_pos hc]
      cases overflow with
      | true => exact hnext x digits true
      | false =>
        rw [if_neg Bool.false_ne_true, if_neg Bool.false_ne_true,
          run_bind_ok (sub_run (by decide)), run_bind_ok (div_run (by decide))]
        by_cases hbig : x > (TWO_63 - 1) / 10
        · rw [if_pos hbig, if_pos hbig]
          exact hnext x digits true
        · rw [if_neg hbig, if_neg hbig]
          have hx : x ≤ TWO_63 / 10 := le_trans (Nat.le_of_not_lt hbig) (by decide)
          obtain ⟨hmul, hadd⟩ := digit_fits hx hc
          rw [run_bind_ok (mul_run hmul), run_bind_ok (sub_run (digit_toNat hc).1),
            run_bind_ok (add_run hadd)]
          dsimp only
          by_cases hover : x * 10 + (c.toNat - 0x30) > TWO_63
          · rw [if_pos hover, if_pos hover]
            exact hnext x digits true
          · rw [if_neg hover, if_neg hover]
            exact hnext _ (digits + 1) false
    · rw [if_neg hc, if_neg hc]
      simp
      rfl

theorem unitEnd_run (xs rest : Octets) :
    (unitEnd (xs ++ rest) xs.length).run =
      .ok (.ok (xs.length + (rest.takeWhile isUnitByte).length)) := by
  induction rest generalizing xs with
  | nil =>
    rw [unitEnd, if_neg (by simp)]
    rfl
  | cons c rest ih =>
    rw [unitEnd, if_pos (length_lt_append xs rest c), run_bind_ok (index_run get_append)]
    by_cases hc : isUnitByte c = true
    · have hgo : ¬ (decide (c = DOT) || isDigit c) = true := by
        unfold isUnitByte at hc
        simpa using hc
      rw [if_neg hgo, List.takeWhile_cons_of_pos hc]
      have hrun := ih (xs ++ [c])
      rw [List.length_append, List.length_singleton, ← snoc_append] at hrun
      rw [hrun, List.length_cons, Nat.add_assoc, Nat.add_comm 1]
    · have hstop : (decide (c = DOT) || isDigit c) = true := by
        unfold isUnitByte at hc
        simpa [Decidable.or_iff_not_imp_left] using hc
      rw [if_pos hstop, List.takeWhile_cons_of_neg hc]
      rfl

/-! ### What the scans go over -/

theorem leadingInt_split {x v : Nat} {rest tail : Octets}
    (h : GoDuration.leadingInt x rest = some (v, tail)) :
    v ≤ max x TWO_63 ∧ ∃ ds, rest = ds ++ tail ∧ ∀ b ∈ ds, isDigit b = true := by
  induction rest generalizing x with
  | nil =>
    cases h
    exact ⟨le_max_left _ _, [], rfl, by simp⟩
  | cons c rest ih =>
    unfold GoDuration.leadingInt at h
    by_cases hc : isDigit c = true
    · rw [if_pos hc] at h
      by_cases hbig : x > TWO_63 / 10
      · rw [if_pos hbig] at h
        cases h
      · rw [if_neg hbig] at h
        dsimp only at h
        by_cases hover : x * 10 + (c.toNat - 0x30) > TWO_63
        · rw [if_pos hover] at h
          cases h
        · rw [if_neg hover] at h
          obtain ⟨hv, ds, hrest, hds⟩ := ih h
          refine ⟨?_, c :: ds, by rw [hrest, List.cons_append], ?_⟩
          · rw [max_eq_right (Nat.le_of_not_lt hover)] at hv
            exact le_trans hv (le_max_right _ _)
          · intro b hb
            rcases List.mem_cons.mp hb with rfl | hb
            · exact hc
            · exact hds b hb
    · rw [if_neg hc] at h
      cases h
      exact ⟨le_max_left _ _, [], rfl, by simp⟩

theorem leadingFraction_split (x digits : Nat) (overflow : Bool) (rest : Octets) :
    ∃ ds, rest = ds ++ (GoDuration.leadingFraction x digits overflow rest).2.2 ∧
      ∀ b ∈ ds, isDigit b = true := by
  induction rest generalizing x digits overflow with
  | nil => exact ⟨[], rfl, by simp⟩
  | cons c rest ih =>
    unfold GoDuration.leadingFraction
    by_cases hc : isDigit c = true
    · have hnext : ∀ x digits overflow, ∃ ds,
          c :: rest = ds ++ (GoDuration.leadingFraction x digits overflow rest).2.2 ∧
            ∀ b ∈ ds, isDigit b = true := by
        intro x digits overflow
        obtain ⟨ds, hrest, hds⟩ := ih x digits overflow
        refine ⟨c :: ds, congrArg (c :: ·) hrest, ?_⟩
        intro b hb
        rcases List.mem_cons.mp hb with rfl | hb
        · exact hc
        · exact hds b hb
      rw [if_pos hc]
      split
      · exact hnext _ _ _
      · split
        · exact hnext _ _ _
        · dsimp only
          split
          · exact hnext _ _ _
          · exact hnext _ _ _
    · rw [if_neg hc]
      exact ⟨[], rfl, by simp⟩

theorem ascii_of_digit {b : UInt8} (h : isDigit b = true) : isAscii b = true := by
  obtain ⟨-, hle⟩ := digit_toNat h
  apply decide_eq_true
  omega

/-- What stops the scan for the unit is an ASCII byte. -/
theorem ascii_of_not_unit {b : UInt8} (h : isUnitByte b = false) : isAscii b = true := by
  unfold isUnitByte at h
  simp only [Bool.not_eq_false', Bool.or_eq_true, beq_iff_eq] at h
  rcases h with rfl | h
  · decide
  · exact ascii_of_digit h

/-- The unit of a string is a string, and so is what is behind it. -/
theorem isUtf8_unit {s : Octets} (h : IsUtf8 s) :
    IsUtf8 (s.takeWhile isUnitByte) ∧ IsUtf8 (s.dropWhile isUnitByte) := by
  have hsplit := List.takeWhile_append_dropWhile (p := isUnitByte) (l := s)
  have hstop := List.head?_dropWhile_not isUnitByte s
  cases hrest : s.dropWhile isUnitByte with
  | nil =>
    rw [hrest, List.append_nil] at hsplit
    rw [hsplit]
    exact ⟨h, isUtf8_nil⟩
  | cons b rest =>
    rw [hrest] at hsplit hstop
    have hb : isUnitByte b = false := by simpa using hstop
    rw [← hsplit] at h
    exact h.cut (ascii_of_not_unit hb)

/-! ### One turn -/

/-- The fractional part, unchecked. -/
def fractionOf (s : Octets) : Nat × Nat × Bool × Octets :=
  match s with
  | [] => (0, 0, false, [])
  | c :: tail =>
    if c = DOT then
      let (f, digits, rest) := GoDuration.leadingFraction 0 0 false tail
      (f, digits, rest.length != tail.length, rest)
    else (0, 0, false, c :: tail)

theorem fraction_run {s : Octets} (h : IsUtf8 s) :
    (fraction s).run = .ok (.ok (fractionOf s)) := by
  cases s with
  | nil => rfl
  | cons c tail =>
    unfold fraction fractionOf
    rw [if_neg (by simp), run_bind_ok (index_run (x := c) rfl)]
    dsimp only
    by_cases hdot : c = DOT
    · have htail : IsUtf8 tail := h.tail (by rw [hdot]; decide)
      have hslice : (sliceFrom (c :: tail) 1 : Prog String Octets).run = .ok (.ok tail) :=
        @sliceFrom_run String [c] tail htail
      have hscan := leadingFraction_run [] tail 0 0 false
      obtain ⟨ds, hsplit, hds⟩ := leadingFraction_split 0 0 false tail
      rw [if_pos hdot, if_pos hdot, run_bind_ok hslice]
      generalize GoDuration.leadingFraction 0 0 false tail = scanned at hscan hsplit
      obtain ⟨f, digits, rest⟩ := scanned
      dsimp only at hsplit hscan ⊢
      subst hsplit
      have hrest : IsUtf8 rest := htail.of_ascii_append fun b hb => ascii_of_digit (hds b hb)
      rw [List.nil_append, List.length_nil, List.length_append, Nat.add_sub_cancel] at hscan
      rw [run_bind_ok hscan]
      dsimp only
      rw [run_bind_ok (sliceFrom_run hrest), bne_comm]
      rfl
    · rw [if_neg hdot, if_neg hdot]
      rfl

section

variable {frac : (f unit digits : Nat) → UInt64}

theorem value_run {orig : Octets} {v f unit digits : Nat} (hunit : unit ≠ 0) :
    (value frac orig v f unit digits).run =
      .ok (match componentNanos frac v f unit digits with
        | none => .error (errInvalid orig)
        | some w => .ok w) := by
  unfold value componentNanos
  rw [run_bind_ok (div_run hunit)]
  by_cases hbig : v > TWO_63 / unit
  · rw [if_pos hbig, if_pos hbig]
    rfl
  · have hfits : v * unit < 2 ^ 64 := by
      have hle := (Nat.le_div_iff_mul_le (Nat.pos_of_ne_zero hunit)).mp (Nat.le_of_not_lt hbig)
      unfold TWO_63 at hle
      omega
    rw [if_neg hbig, if_neg hbig, run_bind_ok (mul_run hfits)]
    by_cases hfrac : f > 0
    · rw [if_pos hfrac, if_pos hfrac]
      dsimp only
      by_cases hover : (v * unit + (frac f unit digits).toNat) % 2 ^ 64 > TWO_63
      · rw [if_pos hover, if_pos hover]
        rfl
      · rw [if_neg hover, if_neg hover]
        rfl
    · rw [if_neg hfrac, if_neg hfrac]
      rfl

/-- A turn of `components` behind the fractional part. -/
def afterFraction (frac : (f unit digits : Nat) → UInt64) (orig : Octets) (pre : Bool) (v d : Nat)
    (taken : Nat × Nat × Bool × Octets) : Except String (Octets × Nat) :=
  let (f, digits, post, s2) := taken
  if !pre && !post then .error (errInvalid orig)
  else if (s2.takeWhile isUnitByte).isEmpty then .error (errMissingUnit orig)
  else
    match unitMap (s2.takeWhile isUnitByte) with
    | none => .error (errUnknownUnit (s2.takeWhile isUnitByte) orig)
    | some unit =>
      match componentNanos frac v f unit digits with
      | none => .error (errInvalid orig)
      | some w =>
        if (d + w) % 2 ^ 64 > TWO_63 then .error (errInvalid orig)
        else .ok (s2.dropWhile isUnitByte, (d + w) % 2 ^ 64)

/-- One turn of `components`, apart from the turns behind it. -/
def nextComponent (frac : (f unit digits : Nat) → UInt64) (orig : Octets) (b0 : UInt8)
    (rest0 : Octets) (d : Nat) : Except String (Octets × Nat) :=
  if ¬ (b0 = DOT ∨ isDigit b0) then .error (errInvalid orig)
  else
    match GoDuration.leadingInt 0 (b0 :: rest0) with
    | none => .error (errInvalid orig)
    | some (v, s1) =>
      afterFraction frac orig (s1.length != (b0 :: rest0).length) v d (fractionOf s1)

theorem afterFraction_bind {β : Type} (orig : Octets) (pre : Bool) (v d f digits : Nat)
    (post : Bool) (s2 : Octets) (k : Octets × Nat → Except String β) :
    (afterFraction frac orig pre v d (f, digits, post, s2) >>= k) =
      if !pre && !post then .error (errInvalid orig)
      else if (s2.takeWhile isUnitByte).isEmpty then .error (errMissingUnit orig)
      else
        match unitMap (s2.takeWhile isUnitByte) with
        | none => .error (errUnknownUnit (s2.takeWhile isUnitByte) orig)
        | some unit =>
          match componentNanos frac v f unit digits with
          | none => .error (errInvalid orig)
          | some w =>
            if (d + w) % 2 ^ 64 > TWO_63 then .error (errInvalid orig)
            else k (s2.dropWhile isUnitByte, (d + w) % 2 ^ 64) := by
  unfold afterFraction
  dsimp only
  by_cases hnone : (!pre && !post) = true
  · rw [if_pos hnone, if_pos hnone]
    rfl
  rw [if_neg hnone, if_neg hnone]
  by_cases hempty : (s2.takeWhile isUnitByte).isEmpty = true
  · rw [if_pos hempty, if_pos hempty]
    rfl
  rw [if_neg hempty, if_neg hempty]
  cases unitMap (s2.takeWhile isUnitByte) with
  | none => rfl
  | some unit =>
    dsimp only
    cases componentNanos frac v f unit digits with
    | none => rfl
    | some w =>
      dsimp only
      by_cases hover : (d + w) % 2 ^ 64 > TWO_63
      · rw [if_pos hover, if_pos hover]
        rfl
      · rw [if_neg hover, if_neg hover]
        rfl

theorem components_step (orig : Octets) (fuel : Nat) (b0 : UInt8) (rest0 : Octets) (d : Nat) :
    components frac orig (fuel + 1) (b0 :: rest0) d =
      nextComponent frac orig b0 rest0 d >>= fun x => components frac orig fuel x.1 x.2 := by
  rw [components]
  unfold nextComponent
  by_cases hhead : b0 = DOT ∨ isDigit b0 = true
  · rw [if_neg (not_not.mpr hhead), if_neg (not_not.mpr hhead)]
    cases GoDuration.leadingInt 0 (b0 :: rest0) with
    | none => rfl
    | some scanned =>
      obtain ⟨v, s1⟩ := scanned
      dsimp only
      unfold fractionOf
      cases s1 with
      | nil => exact (afterFraction_bind _ _ _ _ _ _ _ _ fun x => components frac orig fuel x.1 x.2).symm
      | cons c tail =>
        dsimp only
        by_cases hdot : c = DOT
        · simp only [if_pos hdot]
          exact (afterFraction_bind _ _ _ _ _ _ _ _ fun x => components frac orig fuel x.1 x.2).symm
        · simp only [if_neg hdot]
          exact (afterFraction_bind _ _ _ _ _ _ _ _ fun x => components frac orig fuel x.1 x.2).symm
  · rw [if_pos hhead, if_pos hhead]
    rfl

theorem isUtf8_fractionOf {s : Octets} (h : IsUtf8 s) : IsUtf8 (fractionOf s).2.2.2 := by
  unfold fractionOf
  cases s with
  | nil => exact h
  | cons c tail =>
    dsimp only
    by_cases hdot : c = DOT
    · rw [if_pos hdot]
      have htail : IsUtf8 tail := h.tail (by rw [hdot]; decide)
      obtain ⟨ds, hsplit, hds⟩ := leadingFraction_split 0 0 false tail
      rw [hsplit] at htail
      exact htail.of_ascii_append fun b hb => ascii_of_digit (hds b hb)
    · rw [if_neg hdot]
      exact h

theorem unitMap_ne_zero {u : Octets} {unit : Nat} (h : unitMap u = some unit) : unit ≠ 0 := by
  unfold unitMap at h
  repeat' split at h
  all_goals first | (cases h; decide) | cases h

/-- The turn behind the fractional part: the unit is cut off at two boundaries. -/
theorem afterFraction_run {orig s2 : Octets} {pre post : Bool} {v d f digits : Nat}
    (h : IsUtf8 s2) :
    (if (!pre && !post) = true then (fail (errInvalid orig) : Prog String (Octets × Nat))
      else do
        let i ← unitEnd s2 0
        if i = 0 then fail (errMissingUnit orig)
        else do
          let u ← sliceTo s2 i
          let s ← sliceFrom s2 i
          match unitMap u with
          | none => fail (errUnknownUnit u orig)
          | some unit => do
            let v ← value frac orig v f unit digits
            let d := (d + v) % 2 ^ 64
            if d > TWO_63 then fail (errInvalid orig) else pure (s, d)).run =
      .ok (afterFraction frac orig pre v d (f, digits, post, s2)) := by
  unfold afterFraction
  dsimp only
  by_cases hnone : (!pre && !post) = true
  · rw [if_pos hnone, if_pos hnone]
    rfl
  rw [if_neg hnone, if_neg hnone]
  have hend := unitEnd_run [] s2
  rw [List.nil_append, List.length_nil, Nat.zero_add] at hend
  rw [run_bind_ok hend]
  obtain ⟨-, hrest⟩ := isUtf8_unit h
  have hsplit := List.takeWhile_append_dropWhile (p := isUnitByte) (l := s2)
  generalize s2.takeWhile isUnitByte = u at hsplit
  generalize s2.dropWhile isUnitByte = rest at hsplit hrest
  subst hsplit
  by_cases hempty : u.isEmpty = true
  · rw [if_pos hempty, if_pos (List.length_eq_zero_iff.mpr (List.isEmpty_iff.mp hempty))]
    rfl
  have hlong : ¬ u.length = 0 := by
    rw [List.length_eq_zero_iff, ← List.isEmpty_iff]
    exact hempty
  rw [if_neg hempty, if_neg hlong, run_bind_ok (sliceTo_run hrest),
    run_bind_ok (sliceFrom_run hrest)]
  cases hunit : unitMap u with
  | none => rfl
  | some unit =>
    dsimp only
    rw [ExceptT.run_bind, value_run (unitMap_ne_zero hunit)]
    cases componentNanos frac v f unit digits with
    | none => rfl
    | some w =>
      dsimp only
      by_cases hover : (d + w) % 2 ^ 64 > TWO_63
      · rw [if_pos hover]
        exact if_pos hover
      · rw [if_neg hover]
        exact if_neg hover

theorem turn_run {orig rest0 : Octets} {b0 : UInt8} {d : Nat} (h : IsUtf8 (b0 :: rest0)) :
    (turn frac orig (b0 :: rest0) d).run = .ok (nextComponent frac orig b0 rest0 d) := by
  unfold turn nextComponent
  rw [run_bind_ok (index_run (x := b0) rfl)]
  by_cases hhead : b0 = DOT ∨ isDigit b0 = true
  · rw [if_neg (not_not.mpr hhead), if_neg (not_not.mpr hhead)]
    obtain ⟨i, hint⟩ := leadingInt_run [] (b0 :: rest0) 0
    rw [List.nil_append, List.length_nil] at hint
    dsimp only
    rw [run_bind_ok hint]
    cases hscan : GoDuration.leadingInt 0 (b0 :: rest0) with
    | none => rfl
    | some scanned =>
      obtain ⟨v, s1⟩ := scanned
      obtain ⟨-, ds, hsplit, hds⟩ := leadingInt_split hscan
      rw [hsplit] at h
      have hs1 : IsUtf8 s1 := h.of_ascii_append fun b hb => ascii_of_digit (hds b hb)
      dsimp only
      rw [hsplit, List.length_append, Nat.add_sub_cancel, if_neg Bool.false_ne_true,
        run_bind_ok (sliceFrom_run hs1), run_bind_ok (fraction_run hs1), bne_comm]
      have hs2 := isUtf8_fractionOf hs1
      generalize fractionOf s1 = taken at hs2
      obtain ⟨f, digits, post, s2⟩ := taken
      exact afterFraction_run hs2
  · rw [if_pos hhead, if_pos hhead]
    rfl

/-! ### What a turn consumes -/

theorem length_fractionOf (s : Octets) :
    (fractionOf s).2.2.2.length ≤ s.length ∧
      ((fractionOf s).2.2.1 = true → (fractionOf s).2.2.2.length < s.length) := by
  unfold fractionOf
  cases s with
  | nil => exact ⟨le_rfl, fun h => by cases h⟩
  | cons c tail =>
    dsimp only
    by_cases hdot : c = DOT
    · rw [if_pos hdot]
      obtain ⟨ds, hsplit, -⟩ := leadingFraction_split 0 0 false tail
      generalize GoDuration.leadingFraction 0 0 false tail = scanned at hsplit
      obtain ⟨f, digits, rest⟩ := scanned
      dsimp only at hsplit ⊢
      rw [List.length_cons, hsplit, List.length_append]
      exact ⟨by omega, fun _ => by omega⟩
    · rw [if_neg hdot]
      exact ⟨le_rfl, fun h => by cases h⟩

/-- A turn that goes on takes a digit and a byte of the unit at least. -/
theorem nextComponent_consumes {orig rest0 s' : Octets} {b0 : UInt8} {d d' : Nat}
    (h : IsUtf8 (b0 :: rest0)) (hnext : nextComponent frac orig b0 rest0 d = .ok (s', d')) :
    IsUtf8 s' ∧ s'.length + 2 ≤ (b0 :: rest0).length := by
  unfold nextComponent at hnext
  by_cases hhead : b0 = DOT ∨ isDigit b0 = true
  · rw [if_neg (not_not.mpr hhead)] at hnext
    cases hscan : GoDuration.leadingInt 0 (b0 :: rest0) with
    | none =>
      rw [hscan] at hnext
      cases hnext
    | some scanned =>
      obtain ⟨v, s1⟩ := scanned
      obtain ⟨-, ds, hsplit, hds⟩ := leadingInt_split hscan
      rw [hsplit] at h
      have hs1 : IsUtf8 s1 := h.of_ascii_append fun b hb => ascii_of_digit (hds b hb)
      have hint := congrArg List.length hsplit
      have hfrac := length_fractionOf s1
      have hs2 := isUtf8_fractionOf hs1
      rw [List.length_append] at hint
      rw [hscan] at hnext
      dsimp only at hnext
      unfold afterFraction at hnext
      generalize fractionOf s1 = taken at hnext hfrac hs2
      obtain ⟨f, digits, post, s2⟩ := taken
      dsimp only at hnext hfrac hs2
      have hunit := congrArg List.length (List.takeWhile_append_dropWhile (p := isUnitByte) (l := s2))
      rw [List.length_append] at hunit
      obtain ⟨-, hrest⟩ := isUtf8_unit hs2
      split at hnext
      · cases hnext
      rename_i hdigits
      split at hnext
      · cases hnext
      rename_i hempty
      have hpos : 0 < (s2.takeWhile isUnitByte).length := by
        apply List.length_pos_iff.mpr
        intro hnil
        exact hempty (List.isEmpty_iff.mpr hnil)
      split at hnext
      · cases hnext
      split at hnext
      · cases hnext
      split at hnext
      · cases hnext
      · cases hnext
        refine ⟨hrest, ?_⟩
        cases post with
        | true =>
          have hlt := hfrac.2 rfl
          omega
        | false =>
          have hle := hfrac.1
          have hpre : s1.length ≠ (b0 :: rest0).length := by
            intro heq
            apply hdigits
            simp [heq]
          omega
  · rw [if_pos hhead] at hnext
    cases hnext

/-! ### The loop -/

/-- As many turns as half the bytes are enough, and the fuel of `components` does not run
    out before. -/
theorem loop_run {orig : Octets} (turns : Nat) {fuel : Nat} {s : Octets} {d : Nat} (h : IsUtf8 s)
    (hturns : s.length ≤ 2 * turns) (hfuel : s.length ≤ fuel) :
    (loop frac orig turns s d).run = .ok ((components frac orig fuel s d).map some) := by
  induction turns generalizing fuel s d with
  | zero =>
    have hnil : s = [] := List.length_eq_zero_iff.mp (by omega)
    subst hnil
    unfold loop components
    rfl
  | succ turns ih =>
    cases s with
    | nil =>
      unfold loop components
      rfl
    | cons b0 rest0 =>
      obtain ⟨fuel, rfl⟩ : ∃ k, fuel = k + 1 := ⟨fuel - 1, by rw [List.length_cons] at hfuel; omega⟩
      unfold loop
      rw [ExceptT.run_bind, turn_run h, components_step]
      cases hnext : nextComponent frac orig b0 rest0 d with
      | error e => rfl
      | ok x =>
        obtain ⟨s', d'⟩ := x
        obtain ⟨hs', hlen⟩ := nextComponent_consumes h hnext
        exact ih hs' (by omega) (by omega)

/-- `parse_duration` behind the sign. -/
theorem unsigned_run (orig : Octets) {turns : Nat} (neg : Bool) {s : Octets} (hs : IsUtf8 s)
    (hlen : s.length ≤ 2 * turns) :
    (if s = [0x30] then (pure (some 0) : Prog String (Option Int64))
      else if s.isEmpty then fail (errInvalid orig)
      else do
        match ← loop frac orig turns s 0 with
        | none => pure none
        | some d =>
          if neg then pure (some (-(Int64.ofNat d)))
          else if d > TWO_63 - 1 then fail (errInvalid orig)
          else pure (some (Int64.ofNat d))).run =
      .ok (Except.map some (if s = [0x30] then .ok 0
        else if s.isEmpty then .error (errInvalid orig)
        else
          match components frac orig s.length s 0 with
          | .error e => .error e
          | .ok d =>
            if neg then .ok (-(Int64.ofNat d))
            else if d > TWO_63 - 1 then .error (errInvalid orig)
            else .ok (Int64.ofNat d))) := by
  by_cases hzero : s = [0x30]
  · rw [if_pos hzero, if_pos hzero]
    rfl
  rw [if_neg hzero, if_neg hzero]
  by_cases hempty : s.isEmpty = true
  · rw [if_pos hempty, if_pos hempty]
    rfl
  rw [if_neg hempty, if_neg hempty, ExceptT.run_bind, loop_run turns hs hlen le_rfl]
  cases components frac orig s.length s 0 with
  | error e => rfl
  | ok d =>
    dsimp only
    cases neg with
    | true => rfl
    | false =>
      rw [if_neg Bool.false_ne_true]
      by_cases hbig : d > TWO_63 - 1
      · rw [if_pos hbig]
        exact if_pos hbig
      · rw [if_neg hbig]
        exact if_neg hbig

theorem parseDuration_run {orig : Octets} (h : IsUtf8 orig) {turns : Nat}
    (hturns : orig.length ≤ 2 * turns) :
    (parseDuration frac turns orig).run =
      .ok ((GoDuration.parseDuration frac orig).map some) := by
  unfold parseDuration GoDuration.parseDuration
  cases orig with
  | nil => exact @unsigned_run frac [] turns false [] h hturns
  | cons c rest =>
    dsimp only
    by_cases hsign : c = 0x2D ∨ c = 0x2B
    · have hc : isAscii c = true := by
        rcases hsign with rfl | rfl
        · decide
        · decide
      have hrest : IsUtf8 rest := h.tail hc
      have hslice : (sliceFrom (c :: rest) 1 : Prog String Octets).run = .ok (.ok rest) :=
        @sliceFrom_run String [c] rest hrest
      rw [List.length_cons] at hturns
      simp only [if_pos hsign]
      rw [run_bind_ok hslice]
      exact unsigned_run _ (decide (c = 0x2D)) hrest (Nat.le_of_succ_le hturns)
    · simp only [if_neg hsign]
      exact unsigned_run _ false h hturns

end

/-- `parse_duration` comes to an end on every string, whatever the conversion through
    `f64` returns: no slice is off a boundary, no checked operation overflows, and the
    loop takes at most one turn for two bytes, since a turn that goes on consumes as many. -/
theorem parse_duration_returns (frac : (f unit digits : Nat) → UInt64) (s : Str) :
    (∀ turns, s.bytes.length ≤ 2 * turns → ∃ r : Except String Int64,
      (parseDuration frac turns s.bytes).run = .ok (r.map some) ∧
        r = GoDuration.parseDuration frac s.bytes) ∧
    ∀ (t : Str) (orig : Octets) (d : Nat), t.bytes ≠ [] →
      ∃ r, (turn frac orig t.bytes d).run = .ok r ∧
        ∀ t' d', r = .ok (t', d') → IsUtf8 t' ∧ t'.length + 2 ≤ t.bytes.length := by
  constructor
  · intro turns hturns
    exact ⟨_, parseDuration_run s.isUtf8 hturns, rfl⟩
  · intro t orig d hne
    have ht := t.isUtf8
    generalize t.bytes = bytes at hne ht
    cases bytes with
    | nil => exact absurd rfl hne
    | cons b0 rest0 =>
      refine ⟨_, turn_run ht, ?_⟩
      intro t' d' hr
      exact nextComponent_consumes ht hr

/-- The component `2µs` is one turn, and nothing is left. -/
theorem parse_duration_returns_two_micros :
    (∃ r : Except String Int64,
      (parseDuration (fun _ _ _ => 0) 2 (Str.bytes ['2', 'µ', 's'])).run = .ok (r.map some) ∧
        r = .ok 2000) ∧
    ∃ r, (turn (fun _ _ _ => 0) [] (Str.bytes ['2', 'µ', 's']) 0).run = .ok r ∧
      ∀ t' d', r = .ok (t', d') →
        IsUtf8 t' ∧ t'.length + 2 ≤ (Str.bytes ['2', 'µ', 's']).length := by
  have h := parse_duration_returns (fun _ _ _ => 0) ['2', 'µ', 's']
  refine ⟨?_, h.2 ['2', 'µ', 's'] [] 0 (by decide)⟩
  obtain ⟨r, hrun, hr⟩ := h.1 2 (by decide)
  refine ⟨r, hrun, ?_⟩
  rw [hr]
  decide

end PicoSignet.GoDuration.Run
