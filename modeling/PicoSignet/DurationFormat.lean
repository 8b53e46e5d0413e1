/-
  PicoSignet/DurationFormat.lean
  ==============================
  **Formatting a duration, and reading it back.**

  `format_duration` writes its text from the right into a buffer of 32 bytes.  The
  first part is about the text: an integer is spelled by its decimal digits
  (`intText`), a fraction by its digits up to the last that is not zero (`FracText`),
  and reading these spellings gives the numbers back.  A duration of any size is then
  at most three components, each read by one turn of the parser.

  The second part is about the buffer: every write moves the cursor one byte to the
  left, what is behind the cursor is the text so far (`Out.Holds`), and the longest
  text has 25 bytes.
-/
import PicoSignet.DurationExact
import PicoSignet.DurationRun

set_option autoImplicit false

namespace PicoSignet.GoDuration

/-! ### Decimal digits -/

/-- The byte of a digit. -/
def digitByte (n : Nat) : UInt8 := UInt8.ofNat (0x30 + n % 10)

theorem toNat_digitByte (n : Nat) : (digitByte n).toNat = 0x30 + n % 10 := by
  unfold digitByte
  rw [UInt8.toNat_ofNat']
  omega

theorem isDigit_digitByte (n : Nat) : isDigit (digitByte n) = true := by
  unfold isDigit
  rw [Bool.and_eq_true, decide_eq_true_iff, decide_eq_true_iff, UInt8.le_iff_toNat_le,
    UInt8.le_iff_toNat_le, toNat_digitByte]
  change 0x30 ≤ _ ∧ _ ≤ 0x39
  omega

theorem decimalFrom_append (x : Nat) (ds ds' : Octets) :
    decimalFrom x (ds ++ ds') = decimalFrom (decimalFrom x ds) ds' := List.foldl_append

theorem decimalFrom_digitByte (x n : Nat) (ds : Octets) :
    decimalFrom x (digitByte n :: ds) = decimalFrom (x * 10 + n % 10) ds := by
  change decimalFrom (x * 10 + ((digitByte n).toNat - 0x30)) ds = _
  rw [toNat_digitByte, Nat.add_sub_cancel_left]

/-- The digits of a number, in front of what is there. -/
theorem digitsOf_spec {fuel v : Nat} (acc : Octets) (hv : v < 10 ^ fuel) :
    ∃ ds, digitsOf fuel v acc = ds ++ acc ∧ (∀ b ∈ ds, isDigit b = true) ∧
      decimalFrom 0 ds = v ∧ (v ≠ 0 → ds ≠ []) ∧ ∀ k, v < 10 ^ k → ds.length ≤ k := by
  induction fuel generalizing v acc with
  | zero =>
    have hzero : v = 0 := by rwa [pow_zero, Nat.lt_one_iff] at hv
    exact ⟨[], rfl, by simp, hzero.symm, fun h => absurd hzero h, fun k _ => Nat.zero_le k⟩
  | succ fuel ih =>
    unfold digitsOf
    by_cases hpos : v > 0
    · rw [if_pos hpos]
      have hless : v / 10 < 10 ^ fuel := by
        rw [pow_succ] at hv
        omega
      obtain ⟨ds, htext, hdigits, hvalue, -, hlen⟩ := ih (digitByte v :: acc) hless
      refine ⟨ds ++ [digitByte v], ?_, ?_, ?_, by simp, ?_⟩
      · rw [List.append_assoc]
        exact htext
      · intro b hb
        rcases List.mem_append.mp hb with hb | hb
        · exact hdigits b hb
        · rw [List.mem_singleton.mp hb]
          exact isDigit_digitByte v
      · rw [decimalFrom_append, hvalue, decimalFrom_digitByte]
        change v / 10 * 10 + v % 10 = v
        omega
      · intro k hk
        cases k with
        | zero =>
          rw [pow_zero] at hk
          omega
        | succ k =>
          rw [pow_succ] at hk
          have hle := hlen k (by omega)
          rw [List.length_append, List.length_singleton]
          omega
    · rw [if_neg hpos]
      have hzero : v = 0 := by omega
      exact ⟨[], rfl, by simp, hzero.symm, fun h => absurd hzero h, fun k _ => Nat.zero_le k⟩

/-- How `fmt_int` spells a number. -/
structure IntText (v : Nat) (ds : Octets) : Prop where
  ne_nil : ds ≠ []
  digits : ∀ b ∈ ds, isDigit b = true
  value : decimalFrom 0 ds = v
  short : ∀ k, v < 10 ^ (k + 1) → ds.length ≤ k + 1

theorem fmtInt_spec {v : Nat} (acc : Octets) (hv : v < 10 ^ 20) :
    ∃ ds, fmtInt acc v = ds ++ acc ∧ IntText v ds := by
  unfold fmtInt
  by_cases hzero : v = 0
  · rw [if_pos hzero]
    refine ⟨[0x30], rfl, by simp, ?_, by rw [hzero]; rfl, fun k _ => by simp⟩
    intro b hb
    rw [List.mem_singleton.mp hb]
    decide
  · rw [if_neg hzero]
    obtain ⟨ds, htext, hdigits, hvalue, hne, hlen⟩ := digitsOf_spec acc hv
    exact ⟨ds, htext, hne hzero, hdigits, hvalue, fun k => hlen (k + 1)⟩

/-! ### Fractions -/

/-- Once a digit is printed, all digits to the left of it are. -/
theorem fracLoop_true (prec v : Nat) (acc : Octets) :
    ∃ ds, fracLoop prec v true acc = (ds ++ acc, v / 10 ^ prec, true) ∧ ds.length = prec ∧
      (∀ b ∈ ds, isDigit b = true) ∧ ∀ x, decimalFrom x ds = x * 10 ^ prec + v % 10 ^ prec := by
  induction prec generalizing v acc with
  | zero =>
    refine ⟨[], ?_, rfl, by simp, ?_⟩
    · simp [fracLoop]
    · intro x
      simp [decimalFrom, Nat.mod_one]
  | succ prec ih =>
    obtain ⟨ds, hloop, hlen, hdigits, hvalue⟩ := ih (v / 10) (digitByte v :: acc)
    refine ⟨ds ++ [digitByte v], ?_, by simp [hlen], ?_, ?_⟩
    · unfold fracLoop
      dsimp only
      rw [Bool.true_or, if_pos rfl]
      change fracLoop prec (v / 10) true (digitByte v :: acc) = _
      rw [hloop, List.append_assoc, Nat.div_div_eq_div_mul, pow_succ, Nat.mul_comm]
      rfl
    · intro b hb
      rcases List.mem_append.mp hb with hb | hb
      · exact hdigits b hb
      · rw [List.mem_singleton.mp hb]
        exact isDigit_digitByte v
    · intro x
      rw [decimalFrom_append, hvalue, decimalFrom_digitByte]
      change (x * 10 ^ prec + v / 10 % 10 ^ prec) * 10 + v % 10 = _
      rw [pow_succ, Nat.mul_comm (10 ^ prec) 10, Nat.mod_mul]
      ring

/-- How `fmt_frac` spells the part of a unit that is less than one of it: nothing for
    zero, otherwise the digits up to the last that is not zero. -/
inductive FracText (unit r : Nat) : Octets → Prop
  | whole (hr : r = 0) : FracText unit r []
  | part {ds : Octets} (hr : r ≠ 0) (hdigits : ∀ b ∈ ds, isDigit b = true)
      (hscale : 10 ^ ds.length ∣ unit) (hvalue : decimalFrom 0 ds * (unit / 10 ^ ds.length) = r) :
      FracText unit r (DOT :: ds)

theorem fracLoop_false (prec v : Nat) (acc : Octets) :
    (v % 10 ^ prec = 0 ∧ fracLoop prec v false acc = (acc, v / 10 ^ prec, false)) ∨
      (v % 10 ^ prec ≠ 0 ∧ ∃ ds, fracLoop prec v false acc = (ds ++ acc, v / 10 ^ prec, true) ∧
        ds.length ≤ prec ∧ (∀ b ∈ ds, isDigit b = true) ∧
        decimalFrom 0 ds * 10 ^ (prec - ds.length) = v % 10 ^ prec) := by
  induction prec generalizing v with
  | zero =>
    refine Or.inl ⟨Nat.mod_one v, ?_⟩
    simp [fracLoop]
  | succ prec ih =>
    have hmod : v % 10 ^ (prec + 1) = v % 10 + 10 * (v / 10 % 10 ^ prec) := by
      rw [pow_succ, Nat.mul_comm, Nat.mod_mul]
    have hdiv : v / 10 ^ (prec + 1) = v / 10 / 10 ^ prec := by
      rw [Nat.div_div_eq_div_mul, pow_succ, Nat.mul_comm]
    rw [hmod, hdiv]
    unfold fracLoop
    dsimp only
    by_cases hlast : v % 10 = 0
    · rw [hlast, Bool.false_or]
      change (_ ∧ fracLoop prec (v / 10) false acc = _) ∨
        (_ ∧ ∃ ds, fracLoop prec (v / 10) false acc = _ ∧ _)
      rcases ih (v / 10) with ⟨hzero, hloop⟩ | ⟨hpos, ds, hloop, hlen, hdigits, hvalue⟩
      · refine Or.inl ⟨by omega, hloop⟩
      · refine Or.inr ⟨by omega, ds, hloop, Nat.le_succ_of_le hlen, hdigits, ?_⟩
        rw [Nat.succ_sub hlen, pow_succ, ← hvalue]
        ring
    · have hprint : (false || v % 10 != 0) = true := by simpa using hlast
      rw [hprint, if_pos rfl]
      change (_ ∧ fracLoop prec (v / 10) true (digitByte v :: acc) = _) ∨
        (_ ∧ ∃ ds, fracLoop prec (v / 10) true (digitByte v :: acc) = _ ∧ _)
      obtain ⟨ds, hloop, hlen, hdigits, hvalue⟩ := fracLoop_true prec (v / 10) (digitByte v :: acc)
      refine Or.inr ⟨by omega, ds ++ [digitByte v], ?_, by simp [hlen], ?_, ?_⟩
      · rw [hloop, List.append_assoc]
        rfl
      · intro b hb
        rcases List.mem_append.mp hb with hb | hb
        · exact hdigits b hb
        · rw [List.mem_singleton.mp hb]
          exact isDigit_digitByte v
      · rw [List.length_append, List.length_singleton, hlen, Nat.sub_self, pow_zero, Nat.mul_one,
          decimalFrom_append, hvalue, decimalFrom_digitByte]
        change (0 * 10 ^ prec + v / 10 % 10 ^ prec) * 10 + v % 10 = _
        ring

theorem fmtFrac_spec (acc : Octets) (v prec : Nat) :
    ∃ text, fmtFrac acc v prec = (text ++ acc, v / 10 ^ prec) ∧
      FracText (10 ^ prec) (v % 10 ^ prec) text ∧ text.length ≤ prec + 1 := by
  unfold fmtFrac
  rcases fracLoop_false prec v acc with ⟨hzero, hloop⟩ | ⟨hpos, ds, hloop, hlen, hdigits, hvalue⟩
  · rw [hloop]
    exact ⟨[], rfl, .whole hzero, Nat.zero_le _⟩
  · rw [hloop]
    refine ⟨DOT :: ds, rfl, .part hpos hdigits (pow_dvd_pow 10 hlen) ?_, ?_⟩
    · rw [Nat.pow_div hlen (by decide)]
      exact hvalue
    · rw [List.length_cons]
      omega

/-! ### Reading what is spelled -/

theorem leadingFraction_digits {ds rest : Octets} (x digits : Nat)
    (hds : ∀ b ∈ ds, isDigit b = true) (hrest : ∀ b ∈ rest.head?, isDigit b = false)
    (hfits : decimalFrom x ds ≤ (TWO_63 - 1) / 10) :
    leadingFraction x digits false (ds ++ rest) = (decimalFrom x ds, digits + ds.length, rest) := by
  induction ds generalizing x digits with
  | nil =>
    cases rest with
    | nil => rfl
    | cons b rest =>
      have hb := hrest b rfl
      rw [List.nil_append, leadingFraction, if_neg (by simp [hb])]
      rfl
  | cons c ds ih =>
    obtain ⟨hc, hds⟩ := List.forall_mem_cons.mp hds
    have heq : decimalFrom x (c :: ds) = decimalFrom (x * 10 + (c.toNat - 0x30)) ds := rfl
    rw [heq] at hfits ⊢
    have hgrow := le_decimalFrom ds (x * 10 + (c.toNat - 0x30))
    have hroom : ¬ x > (TWO_63 - 1) / 10 := by omega
    have hword : ¬ x * 10 + (c.toNat - 0x30) > TWO_63 := by
      unfold TWO_63 at *
      omega
    rw [List.cons_append, leadingFraction, if_pos hc, if_neg Bool.false_ne_true, if_neg hroom]
    dsimp only
    rw [if_neg hword, ih _ _ hds hfits, List.length_cons]
    congr 2
    omega

/-- The step through `f64` is exact where the scale divides the unit and the operands and
    the product are small enough for its mantissa. -/
def FracExact (frac : (f unit digits : Nat) → UInt64) : Prop :=
  ∀ f unit digits, 10 ^ digits ∣ unit → f < 2 ^ 53 → unit < 2 ^ 53 →
    f * (unit / 10 ^ digits) < 2 ^ 53 → (frac f unit digits).toNat = f * (unit / 10 ^ digits)

theorem TimeUnit.nanos_lt (u : TimeUnit) : u.nanos < 2 ^ 53 := by
  cases u <;> decide

/-- A unit stops the scans for digits. -/
theorem TimeUnit.head (u : TimeUnit) (rest : Octets) :
    ∀ b ∈ (u.text ++ rest).head?, isUnitByte b = true := by
  intro b hb
  rw [List.head?_append_of_ne_nil _ u.text_ne_nil] at hb
  exact u.text_unitByte b (List.mem_of_mem_head? hb)

section

variable {frac : (f unit digits : Nat) → UInt64} {u : TimeUnit} {r : Nat} {text : Octets}

theorem FracText.head_not_digit {unit : Nat} (h : FracText unit r text) (rest : Octets) :
    ∀ b ∈ (text ++ (u.text ++ rest)).head?, isDigit b = false := by
  intro b hb
  cases h with
  | whole => exact (not_digit_of_isUnitByte (u.head rest b hb)).1
  | part =>
    cases hb
    decide

/-- Reading a fraction and its unit gives the part of the unit that was spelled. -/
theorem FracText.read (h : FracText u.nanos r text) (hr : r < 2 ^ 53) (hfrac : FracExact frac)
    {v : Nat} (hword : v * u.nanos + r ≤ TWO_63) (rest : Octets) :
    ∃ f digits post, Run.fractionOf (text ++ (u.text ++ rest)) =
        (f, digits, post, u.text ++ rest) ∧
      componentNanos frac v f u.nanos digits = some (v * u.nanos + r) := by
  have hbig : ¬ v > TWO_63 / u.nanos := by
    apply Nat.not_lt.mpr
    apply (Nat.le_div_iff_mul_le u.nanos_pos).mpr
    exact le_trans (Nat.le_add_right _ _) hword
  cases h with
  | whole hzero =>
    refine ⟨0, 0, false, ?_, ?_⟩
    · rw [List.nil_append]
      unfold Run.fractionOf
      cases hunit : u.text ++ rest with
      | nil => rfl
      | cons c tail =>
        have hc := u.head rest c (by rw [hunit]; rfl)
        dsimp only
        exact if_neg (not_digit_of_isUnitByte hc).2
    · unfold componentNanos
      rw [if_neg hbig, if_neg (Nat.lt_irrefl 0), hzero, Nat.add_zero]
  | @part ds hpos hdigits hscale hvalue =>
    have hscaled : 0 < u.nanos / 10 ^ ds.length :=
      Nat.div_pos (Nat.le_of_dvd u.nanos_pos hscale) (by positivity)
    have hle : decimalFrom 0 ds ≤ r := by
      rw [← hvalue]
      exact Nat.le_mul_of_pos_right _ hscaled
    have hne : decimalFrom 0 ds > 0 := by
      apply Nat.pos_of_ne_zero
      intro hzero
      rw [hzero, Nat.zero_mul] at hvalue
      exact hpos hvalue.symm
    have hexact := hfrac (decimalFrom 0 ds) u.nanos ds.length hscale (by omega) u.nanos_lt (by omega)
    have hstop : ∀ b ∈ (u.text ++ rest).head?, isDigit b = false :=
      fun b hb => (not_digit_of_isUnitByte (u.head rest b hb)).1
    have hread := leadingFraction_digits 0 0 hdigits hstop (by
      unfold TWO_63
      omega)
    refine ⟨decimalFrom 0 ds, 0 + ds.length,
      (u.text ++ rest).length != (ds ++ (u.text ++ rest)).length, ?_, ?_⟩
    · rw [List.cons_append]
      unfold Run.fractionOf
      dsimp only
      rw [if_pos rfl, hread]
    · unfold componentNanos
      have hwrap : (v * u.nanos + (frac (decimalFrom 0 ds) u.nanos (0 + ds.length)).toNat) % 2 ^ 64 =
          v * u.nanos + r := by
        rw [Nat.zero_add, hexact, hvalue, Nat.mod_eq_of_lt]
        unfold TWO_63 at hword
        omega
      rw [if_neg hbig, if_pos hne]
      dsimp only
      rw [hwrap, if_neg (Nat.not_lt.mpr hword)]

/-- One turn of the loop over a component as it is formatted. -/
theorem components_part {orig digits rest : Octets} {fuel d v : Nat} (hv : IntText v digits)
    (htext : FracText u.nanos r text) (hr : r < 2 ^ 53) (hfrac : FracExact frac)
    (hsum : d + (v * u.nanos + r) ≤ TWO_63) (hrest : ∀ b ∈ rest.head?, isDigit b = true) :
    components frac orig (fuel + 1) (digits ++ (text ++ (u.text ++ rest))) d =
      components frac orig fuel rest (d + (v * u.nanos + r)) := by
  have hfits : v ≤ TWO_63 := by
    have hle := Nat.le_mul_of_pos_right v u.nanos_pos
    omega
  obtain ⟨f, scale, post, hfraction, hvalue⟩ := htext.read hr hfrac (v := v) (by omega) rest
  have hint := leadingInt_digits (x := 0) (Nat.zero_le _) hv.digits
    (htext.head_not_digit (u := u) rest)
  rw [hv.value, if_pos hfits] at hint
  have hstop : ∀ b ∈ rest.head?, isUnitByte b = false :=
    fun b hb => isUnitByte_eq_false (hrest b hb)
  cases hdigits : digits with
  | nil => exact absurd hdigits hv.ne_nil
  | cons b0 ds =>
    have hb0 : isDigit b0 = true := hv.digits b0 (by simp [hdigits])
    rw [hdigits, List.cons_append] at hint
    have hnext : Run.nextComponent frac orig b0 (ds ++ (text ++ (u.text ++ rest))) d =
        .ok (rest, d + (v * u.nanos + r)) := by
      unfold Run.nextComponent
      rw [if_neg (by simp [hb0]), hint]
      dsimp only
      rw [hfraction]
      unfold Run.afterFraction
      dsimp only
      have hpre : ((text ++ (u.text ++ rest)).length !=
          (b0 :: (ds ++ (text ++ (u.text ++ rest)))).length) = true := by
        simp
        omega
      have hempty : ¬ u.text.isEmpty = true := by
        rw [List.isEmpty_iff]
        exact u.text_ne_nil
      have hwrap : (d + (v * u.nanos + r)) % 2 ^ 64 = d + (v * u.nanos + r) := by
        apply Nat.mod_eq_of_lt
        unfold TWO_63 at hsum
        omega
      rw [hpre, takeWhile_append_stop u.text_unitByte hstop,
        dropWhile_append_stop u.text_unitByte hstop, if_neg hempty, unitMap_text]
      dsimp only
      rw [hvalue]
      dsimp only
      rw [hwrap, if_neg (Nat.not_lt.mpr hsum)]
      rfl
    rw [List.cons_append, Run.components_step, hnext]
    rfl

/-! ### Whole durations -/

/-- The text of some components, as they are formatted, and the nanoseconds they add up to. -/
inductive Spelling : (count nanos : Nat) → Octets → Prop
  | nil : Spelling 0 0 []
  | cons {u : TimeUnit} {v r count nanos : Nat} {digits text rest : Octets} (hv : IntText v digits)
      (htext : FracText u.nanos r text) (hr : r < 2 ^ 53) (hrest : Spelling count nanos rest) :
      Spelling (count + 1) (v * u.nanos + r + nanos) (digits ++ (text ++ (u.text ++ rest)))

variable {count nanos : Nat} {s : Octets}

theorem Spelling.head_digit (h : Spelling count nanos s) : ∀ b ∈ s.head?, isDigit b = true := by
  intro b hb
  cases h with
  | nil => cases hb
  | cons hv _ _ _ =>
    rw [List.head?_append_of_ne_nil _ hv.ne_nil] at hb
    exact hv.digits b (List.mem_of_mem_head? hb)

theorem Spelling.count_le (h : Spelling count nanos s) : 2 * count ≤ s.length := by
  induction h with
  | nil => exact le_rfl
  | @cons u _ _ _ _ _ _ _ hv _ _ _ ih =>
    have hdigits := List.length_pos_of_ne_nil hv.ne_nil
    have hunit := List.length_pos_of_ne_nil u.text_ne_nil
    simp only [List.length_append]
    omega

theorem Spelling.components {orig : Octets} {fuel d : Nat} (h : Spelling count nanos s)
    (hfrac : FracExact frac) (hsum : d + nanos ≤ TWO_63) (hfuel : count ≤ fuel) :
    components frac orig fuel s d = .ok (d + nanos) := by
  induction h generalizing fuel d with
  | nil =>
    unfold GoDuration.components
    rfl
  | @cons u v r count nanos _ _ _ hv htext hr hrest ih =>
    obtain ⟨fuel, rfl⟩ : ∃ k, fuel = k + 1 := ⟨fuel - 1, by omega⟩
    rw [components_part hv htext hr hfrac (by omega) hrest.head_digit, ih (by omega) (by omega)]
    congr 1
    omega

/-- Reading the text of some components gives their sum, under the sign in front of them. -/
theorem Spelling.parse (h : Spelling count nanos s) (hcount : 0 < count) (hfrac : FracExact frac)
    (sign : Sign) (hlimit : nanos ≤ sign.limit) {v : Int64} (hv : v.toInt = sign.apply nanos) :
    parseDuration frac (sign.text ++ s) = .ok v := by
  have hword : nanos ≤ TWO_63 := le_trans hlimit (by cases sign <;> decide)
  have hlen := h.count_le
  have hzero : s ≠ [0x30] := by
    intro hs
    rw [hs] at hlen
    simp at hlen
    omega
  have hempty : ¬ s.isEmpty = true := by
    intro hs
    rw [List.isEmpty_iff.mp hs] at hlen
    simp at hlen
    omega
  rw [parseDuration_sign frac (behind_of_digit h.head_digit)]
  unfold parseBody
  rw [if_neg hzero, if_neg hempty, h.components hfrac (by omega) (by omega), Nat.zero_add]
  exact (finish_ok_iff hword).mpr ⟨hlimit, hv⟩

end

/-- The text of a duration of `u` nanoseconds, without its sign. -/
def formatBody (u : Nat) : Octets :=
  if u < SECOND then
    let (unit, prec) :=
      if u < MICROSECOND then (([0x6E, 0x73] : Octets), 0)
      else if u < MILLISECOND then ([0xC2, 0xB5, 0x73], 3)
      else ([0x6D, 0x73], 6)
    let (acc, v) := fmtFrac unit u prec
    fmtInt acc v
  else
    let (acc, secs) := fmtFrac [0x73] u 9
    let acc := fmtInt acc (secs % 60)
    let mins := secs / 60
    if mins > 0 then
      let acc := fmtInt (0x6D :: acc) (mins % 60)
      let hours := mins / 60
      if hours > 0 then fmtInt (0x68 :: acc) hours else acc
    else acc

theorem formatDuration_eq (d : Int64) : formatDuration d =
    if d.toInt.natAbs = 0 then [0x30, 0x73]
    else if d.toInt < 0 then 0x2D :: formatBody d.toInt.natAbs else formatBody d.toInt.natAbs := rfl

/-- A fraction of a unit and the whole units in front of it. -/
theorem fmt_part {u : TimeUnit} (n prec : Nat) (hunit : u.nanos = 10 ^ prec)
    (hprec : prec ≤ 9) {w : Nat} (hw : w < 10 ^ 20) {count nanos : Nat} {rest : Octets}
    (h : Spelling count nanos rest) :
    Spelling (count + 1) (w * u.nanos + n % 10 ^ prec + nanos)
      (fmtInt (fmtFrac (u.text ++ rest) n prec).1 w) := by
  obtain ⟨text, hfmt, hfrac, -⟩ := fmtFrac_spec (u.text ++ rest) n prec
  obtain ⟨digits, hint, hv⟩ := fmtInt_spec (text ++ (u.text ++ rest)) hw
  rw [hfmt, hint]
  have hscaled : FracText u.nanos (n % 10 ^ prec) text := by
    rw [hunit]
    exact hfrac
  have hr : n % 10 ^ prec < 2 ^ 53 := by
    have hlt : n % 10 ^ prec < 10 ^ prec := Nat.mod_lt _ (by positivity)
    have hpow : 10 ^ prec ≤ 10 ^ 9 := Nat.pow_le_pow_right (by decide) hprec
    omega
  exact .cons hv hscaled hr h

/-- A whole number of units in front of what is there. -/
theorem fmt_whole (u : TimeUnit) {w : Nat} (hw : w < 10 ^ 20) {count nanos : Nat} {rest : Octets}
    (h : Spelling count nanos rest) :
    Spelling (count + 1) (w * u.nanos + nanos) (fmtInt (u.text ++ rest) w) := by
  obtain ⟨digits, hint, hv⟩ := fmtInt_spec (u.text ++ rest) hw
  rw [hint]
  exact .cons hv (.whole rfl) (by decide) h

/-- The text of a duration spells it, in one component up to a second and in one to three
    from there on. -/
theorem formatBody_spelling {n : Nat} (hn : n ≤ TWO_63) :
    ∃ count, 0 < count ∧ Spelling count n (formatBody n) := by
  have hroom : ∀ {w : Nat}, w ≤ n → w < 10 ^ 20 := by
    intro w hw
    unfold TWO_63 at hn
    omega
  unfold formatBody
  by_cases hsub : n < SECOND
  · rw [if_pos hsub]
    refine ⟨1, Nat.one_pos, ?_⟩
    have hone : ∀ (u : TimeUnit) (prec : Nat), u.nanos = 10 ^ prec → prec ≤ 9 →
        Spelling 1 n (fmtInt (fmtFrac u.text n prec).1 (fmtFrac u.text n prec).2) := by
      intro u prec hunit hprec
      obtain ⟨text, hfmt, -⟩ := fmtFrac_spec u.text n prec
      have hrest : (fmtFrac u.text n prec).2 = n / 10 ^ prec := by rw [hfmt]
      have hpart := fmt_part n prec hunit hprec (hroom (Nat.div_le_self n (10 ^ prec))) Spelling.nil
      rw [List.append_nil, hunit, Nat.add_zero, Nat.div_add_mod'] at hpart
      rw [hrest]
      exact hpart
    by_cases hnano : n < MICROSECOND
    · rw [if_pos hnano]
      exact hone .ns 0 rfl (by decide)
    rw [if_neg hnano]
    by_cases hmicro : n < MILLISECOND
    · rw [if_pos hmicro]
      exact hone .microSign 3 rfl (by decide)
    · rw [if_neg hmicro]
      exact hone .ms 6 rfl (by decide)
  · rw [if_neg hsub]
    obtain ⟨text, hfmt, -⟩ := fmtFrac_spec TimeUnit.s.text n 9
    have hsecs : (fmtFrac [0x73] n 9).2 = n / SECOND := congrArg Prod.snd hfmt
    dsimp only
    rw [hsecs]
    have hseconds := fmt_part n 9 (u := .s) rfl le_rfl
      (hroom (w := n / SECOND % 60) (le_trans (Nat.mod_le _ _) (Nat.div_le_self _ _))) Spelling.nil
    simp only [List.append_nil, Nat.add_zero] at hseconds
    by_cases hmins : n / SECOND / 60 > 0
    · rw [if_pos hmins]
      have hminutes := fmt_whole .m (hroom (w := n / SECOND / 60 % 60) (le_trans (Nat.mod_le _ _)
        (le_trans (Nat.div_le_self _ _) (Nat.div_le_self _ _)))) hseconds
      by_cases hhours : n / SECOND / 60 / 60 > 0
      · rw [if_pos hhours]
        have hall := fmt_whole .h (hroom (w := n / SECOND / 60 / 60) (le_trans (Nat.div_le_self _ _)
          (le_trans (Nat.div_le_self _ _) (Nat.div_le_self _ _)))) hminutes
        have hsum : n / SECOND / 60 / 60 * TimeUnit.h.nanos + (n / SECOND / 60 % 60 * TimeUnit.m.nanos +
            (n / SECOND % 60 * TimeUnit.s.nanos + n % 10 ^ 9)) = n := by
          change n / 1000000000 / 60 / 60 * 3600000000000 + (n / 1000000000 / 60 % 60 * 60000000000 +
            (n / 1000000000 % 60 * 1000000000 + n % 1000000000)) = n
          omega
        rw [hsum] at hall
        exact ⟨3, by decide, hall⟩
      · rw [if_neg hhours]
        have hsum : n / SECOND / 60 % 60 * TimeUnit.m.nanos +
            (n / SECOND % 60 * TimeUnit.s.nanos + n % 10 ^ 9) = n := by
          change n / 1000000000 / 60 % 60 * 60000000000 +
            (n / 1000000000 % 60 * 1000000000 + n % 1000000000) = n
          change ¬ n / 1000000000 / 60 / 60 > 0 at hhours
          omega
        rw [hsum] at hminutes
        exact ⟨2, by decide, hminutes⟩
    · rw [if_neg hmins]
      have hsum : n / SECOND % 60 * TimeUnit.s.nanos + n % 10 ^ 9 = n := by
        change n / 1000000000 % 60 * 1000000000 + n % 1000000000 = n
        change ¬ n / 1000000000 / 60 > 0 at hmins
        omega
      rw [hsum] at hseconds
      exact ⟨1, by decide, hseconds⟩

/-- Reading a formatted duration gives the duration. -/
theorem parse_formatDuration {frac : (f unit digits : Nat) → UInt64} (hfrac : FracExact frac)
    (d : Int64) : parseDuration frac (formatDuration d) = .ok d := by
  have hlow := d.le_toInt
  have hhigh := d.toInt_lt
  have hword : d.toInt.natAbs ≤ TWO_63 := by
    unfold TWO_63
    omega
  rw [formatDuration_eq]
  by_cases hzero : d.toInt.natAbs = 0
  · rw [if_pos hzero]
    have hd : d = 0 := by
      apply Int64.toInt_inj.mp
      rw [Int64.toInt_zero]
      omega
    rw [hd]
    have hzeros : Spelling 1 (0 * TimeUnit.s.nanos + 0 + 0) ([0x30] ++ ([] ++ (TimeUnit.s.text ++ []))) := by
      apply Spelling.cons _ (.whole rfl) (by decide) .nil
      exact ⟨by simp, List.all_eq_true.mp rfl, rfl, fun k _ => by simp⟩
    exact hzeros.parse (by decide) hfrac .absent (by decide) rfl
  · rw [if_neg hzero]
    obtain ⟨count, hcount, hspelling⟩ := formatBody_spelling hword
    by_cases hneg : d.toInt < 0
    · rw [if_pos hneg]
      apply hspelling.parse hcount hfrac .minus hword
      change d.toInt = -(d.toInt.natAbs : Int)
      omega
    · rw [if_neg hneg]
      have hlimit : d.toInt.natAbs ≤ Sign.limit .absent := by
        change d.toInt.natAbs ≤ TWO_63 - 1
        unfold TWO_63
        omega
      apply hspelling.parse hcount hfrac .absent hlimit
      change d.toInt = (d.toInt.natAbs : Int)
      omega

/-! ### The buffer -/

namespace Run

open Checked

/-- The buffer and the cursor. -/
structure Out where
  buf : Octets
  w : Nat

/-- `buf[i] = b`. -/
def store (buf : Octets) (i : Nat) (b : UInt8) : Prog String Octets :=
  if i < buf.length then pure (buf.set i b) else stop .bounds

/-- `w -= 1; buf[w] = b`. -/
def put (o : Out) (b : UInt8) : Prog String Out := do
  let w ← sub o.w 1
  let buf ← store o.buf w b
  pure ⟨buf, w⟩

/-- `b'0' + digit as u8`. -/
def digit (n : Nat) : Prog String UInt8 := do
  let d ← add 8 0x30 n
  pure (UInt8.ofNat d)

/-- The loop of `fmt_int`. -/
def fmtIntLoop (o : Out) (v : Nat) : Prog String Out :=
  if v > 0 then do
    let b ← digit (v % 10)
    let o ← put o b
    fmtIntLoop o (v / 10)
  else pure o
termination_by v

/-- `fmt_int`. -/
def fmtInt (o : Out) (v : Nat) : Prog String Out :=
  if v = 0 then put o 0x30 else fmtIntLoop o v

/-- The loop of `fmt_frac`. -/
def fracLoop : (prec v : Nat) → (print : Bool) → Out → Prog String (Out × Nat × Bool)
  | 0, v, print, o => pure (o, v, print)
  | prec + 1, v, print, o => do
    let print := print || v % 10 != 0
    if print then do
      let b ← digit (v % 10)
      let o ← put o b
      fracLoop prec (v / 10) print o
    else fracLoop prec (v / 10) print o

/-- `fmt_frac`. -/
def fmtFrac (o : Out) (v prec : Nat) : Prog String (Out × Nat) := do
  let (o, v, print) ← fracLoop prec v false o
  if print then do
    let o ← put o DOT
    pure (o, v)
  else pure (o, v)

/-- The sign, and what is behind the cursor. -/
def finish (neg : Bool) (o : Out) : Prog String Octets := do
  let o ← if neg then put o 0x2D else pure o
  slice o.buf o.w o.buf.length

/-- The unit of a duration below a second, in front of its `s`, and the digits of its
    fraction. -/
def subUnit (buf : Octets) (w u : Nat) : Prog String (Out × Nat) :=
  if u < MICROSECOND then do
    let buf ← store buf w 0x6E
    pure (⟨buf, w⟩, 0)
  else if u < MILLISECOND then do
    let w ← sub w 1
    let buf ← store buf w 0xC2
    let next ← add 32 w 1
    let buf ← store buf next 0xB5
    pure (⟨buf, w⟩, 3)
  else do
    let buf ← store buf w 0x6D
    pure (⟨buf, w⟩, 6)

/-- `format_duration`; the bytes that `from_utf8_lossy` is given. -/
def formatDuration (d : Int64) : Prog String Octets := do
  let o : Out := ⟨List.replicate 32 0, 32⟩
  let neg := decide (d.toInt < 0)
  let u := d.toInt.natAbs
  if u < SECOND then do
    let o ← put o 0x73
    let w ← sub o.w 1
    if u = 0 then pure [0x30, 0x73]
    else do
      let (o, prec) ← subUnit o.buf w u
      let (o, u) ← fmtFrac o u prec
      let o ← fmtInt o u
      finish neg o
  else do
    let o ← put o 0x73
    let (o, secs) ← fmtFrac o u 9
    let o ← fmtInt o (secs % 60)
    let mins := secs / 60
    if mins > 0 then do
      let o ← put o 0x6D
      let o ← fmtInt o (mins % 60)
      let hours := mins / 60
      if hours > 0 then do
        let o ← put o 0x68
        let o ← fmtInt o hours
        finish neg o
      else finish neg o
    else finish neg o

/-- Behind the cursor is the text so far. -/
structure Out.Holds (o : Out) (acc : Octets) : Prop where
  size : o.buf.length = 32
  cursor : o.w + acc.length = 32
  text : o.buf.drop o.w = acc

/-- The program writes `acc'` where `acc` was. -/
def Writes (x : Prog String Out) (acc : Octets) : Prop :=
  ∃ o, x.run = .ok (.ok o) ∧ o.Holds acc

theorem put_run {o : Out} {acc : Octets} (h : o.Holds acc) (hroom : acc.length < 32) (b : UInt8) :
    Writes (put o b) (b :: acc) := by
  obtain ⟨hsize, hcursor, htext⟩ := h
  have hone : 1 ≤ o.w := by omega
  have hlt : o.w - 1 < o.buf.length := by omega
  refine ⟨⟨o.buf.set (o.w - 1) b, o.w - 1⟩, ?_, ?_, ?_, ?_⟩
  · unfold put store
    rw [run_bind_ok (sub_run hone), if_pos hlt]
    rfl
  · rw [List.length_set]
    exact hsize
  · change o.w - 1 + (acc.length + 1) = 32
    omega
  · have hset : o.w - 1 < (o.buf.set (o.w - 1) b).length := by
      rw [List.length_set]
      exact hlt
    change (o.buf.set (o.w - 1) b).drop (o.w - 1) = b :: acc
    rw [List.drop_eq_getElem_cons hset, List.getElem_set_self, List.drop_set_of_lt (by omega),
      Nat.sub_add_cancel hone, htext]

theorem digit_run (n : Nat) : (digit (n % 10)).run = .ok (.ok (digitByte n)) := by
  unfold digit
  rw [run_bind_ok (add_run (by omega))]
  rfl

theorem fmtIntLoop_run {fuel k v : Nat} {o : Out} {acc : Octets} (h : o.Holds acc)
    (hv : v < 10 ^ k) (hfuel : k ≤ fuel) (hroom : acc.length + k ≤ 32) :
    Writes (fmtIntLoop o v) (digitsOf fuel v acc) := by
  induction fuel generalizing k v o acc with
  | zero =>
    have hzero : k = 0 := Nat.le_zero.mp hfuel
    rw [hzero, pow_zero, Nat.lt_one_iff] at hv
    rw [fmtIntLoop, if_neg (by omega)]
    exact ⟨o, rfl, h⟩
  | succ fuel ih =>
    rw [fmtIntLoop]
    unfold digitsOf
    by_cases hpos : v > 0
    · obtain ⟨k, rfl⟩ : ∃ j, k = j + 1 := by
        cases k with
        | zero =>
          rw [pow_zero] at hv
          omega
        | succ j => exact ⟨j, rfl⟩
      obtain ⟨o', hput, ho'⟩ := put_run h (by omega) (digitByte v)
      rw [if_pos hpos, if_pos hpos]
      have hless : v / 10 < 10 ^ k := by
        rw [pow_succ] at hv
        omega
      obtain ⟨o'', hloop, ho''⟩ := ih ho' hless (by omega) (by rw [List.length_cons]; omega)
      refine ⟨o'', ?_, ho''⟩
      rw [run_bind_ok (digit_run v), run_bind_ok hput, hloop]
    · rw [if_neg hpos, if_neg hpos]
      exact ⟨o, rfl, h⟩

theorem fmtInt_run {k v : Nat} {o : Out} {acc : Octets} (h : o.Holds acc) (hv : v < 10 ^ (k + 1))
    (hk : k + 1 ≤ 20) (hroom : acc.length + (k + 1) ≤ 32) :
    Writes (fmtInt o v) (GoDuration.fmtInt acc v) := by
  unfold fmtInt GoDuration.fmtInt
  by_cases hzero : v = 0
  · rw [if_pos hzero, if_pos hzero]
    exact put_run h (by omega) 0x30
  · rw [if_neg hzero, if_neg hzero]
    exact fmtIntLoop_run h hv hk hroom

theorem fracLoop_run (prec v : Nat) (print : Bool) {o : Out} {acc : Octets} (h : o.Holds acc)
    (hroom : acc.length + prec ≤ 32) :
    ∃ o', (fracLoop prec v print o).run = .ok (.ok (o',
        (GoDuration.fracLoop prec v print acc).2.1, (GoDuration.fracLoop prec v print acc).2.2)) ∧
      o'.Holds (GoDuration.fracLoop prec v print acc).1 := by
  induction prec generalizing v print o acc with
  | zero => exact ⟨o, rfl, h⟩
  | succ prec ih =>
    unfold fracLoop GoDuration.fracLoop
    dsimp only
    cases print || v % 10 != 0 with
    | false =>
      rw [if_neg Bool.false_ne_true, if_neg Bool.false_ne_true]
      exact ih _ _ h (by omega)
    | true =>
      obtain ⟨o', hput, ho'⟩ := put_run h (by omega) (digitByte v)
      obtain ⟨o'', hloop, ho''⟩ := ih (v / 10) true ho' (by rw [List.length_cons]; omega)
      refine ⟨o'', ?_, ho''⟩
      rw [if_pos rfl, run_bind_ok (digit_run v), run_bind_ok hput, hloop]
      rfl

theorem fmtFrac_run (prec v : Nat) {o : Out} {acc : Octets} (h : o.Holds acc)
    (hroom : acc.length + prec < 32) :
    ∃ o', (fmtFrac o v prec).run = .ok (.ok (o', (GoDuration.fmtFrac acc v prec).2)) ∧
      o'.Holds (GoDuration.fmtFrac acc v prec).1 := by
  obtain ⟨o', hloop, ho'⟩ := fracLoop_run prec v false h (Nat.le_of_lt hroom)
  unfold fmtFrac GoDuration.fmtFrac
  rw [run_bind_ok hloop]
  rcases fracLoop_false prec v acc with ⟨-, hspec⟩ | ⟨-, ds, hspec, hlen, -⟩
  · rw [hspec] at ho' ⊢
    exact ⟨o', rfl, ho'⟩
  · rw [hspec] at ho' ⊢
    have hlong : (ds ++ acc).length < 32 := by
      rw [List.length_append]
      omega
    obtain ⟨o'', hput, ho''⟩ := put_run ho' hlong DOT
    refine ⟨o'', ?_, ho''⟩
    dsimp only
    rw [if_pos rfl, run_bind_ok hput]
    rfl

/-- Nothing but the sign can follow. -/
theorem finish_run {o : Out} {acc : Octets} (h : o.Holds acc) (hroom : acc.length < 32)
    (neg : Bool) : (finish neg o).run = .ok (.ok (if neg then 0x2D :: acc else acc)) := by
  have hslice : ∀ {o : Out} {acc : Octets}, o.Holds acc →
      (slice o.buf o.w o.buf.length : Prog String Octets).run = .ok (.ok acc) := by
    intro o acc h
    have hcursor := h.cursor
    have hsize := h.size
    rw [slice_run (by omega) le_rfl, h.text, List.take_of_length_le (by omega)]
  unfold finish
  cases neg with
  | false =>
    rw [if_neg Bool.false_ne_true, if_neg Bool.false_ne_true]
    exact hslice h
  | true =>
    obtain ⟨o', hput, ho'⟩ := put_run h hroom 0x2D
    rw [if_pos rfl, if_pos rfl, run_bind_ok hput]
    exact hslice ho'

/-! ### The whole text -/

theorem length_fmtInt_le {v k : Nat} (acc : Octets) (hv : v < 10 ^ (k + 1)) (hk : k + 1 ≤ 20) :
    (GoDuration.fmtInt acc v).length ≤ acc.length + (k + 1) := by
  have hfuel : v < 10 ^ 20 := lt_of_lt_of_le hv (Nat.pow_le_pow_right (by decide) hk)
  obtain ⟨ds, htext, hds⟩ := fmtInt_spec acc hfuel
  have hshort := hds.short k hv
  rw [htext, List.length_append]
  omega

theorem length_fmtFrac_le (acc : Octets) (v prec : Nat) :
    (GoDuration.fmtFrac acc v prec).1.length ≤ acc.length + (prec + 1) := by
  obtain ⟨text, htext, -, hlen⟩ := fmtFrac_spec acc v prec
  rw [htext, List.length_append]
  omega

theorem snd_fmtFrac (acc : Octets) (v prec : Nat) :
    (GoDuration.fmtFrac acc v prec).2 = v / 10 ^ prec := by
  obtain ⟨text, htext, -⟩ := fmtFrac_spec acc v prec
  rw [htext]

/-- An integer of at most `k + 1` digits, and the room that is left behind it. -/
theorem Out.Holds.int {k v n : Nat} {o : Out} {acc : Octets} (h : o.Holds acc)
    (hv : v < 10 ^ (k + 1)) (hk : k + 1 ≤ 20) (hlen : acc.length ≤ n) (hroom : n + (k + 1) ≤ 32) :
    ∃ o', (fmtInt o v).run = .ok (.ok o') ∧ o'.Holds (GoDuration.fmtInt acc v) ∧
      (GoDuration.fmtInt acc v).length ≤ n + (k + 1) := by
  obtain ⟨o', hrun, ho'⟩ := fmtInt_run h hv hk (by omega)
  have hle := length_fmtInt_le acc hv hk
  exact ⟨o', hrun, ho', by omega⟩

theorem Out.Holds.frac {n : Nat} {o : Out} {acc : Octets} (h : o.Holds acc) (prec v : Nat)
    (hlen : acc.length ≤ n) (hroom : n + prec < 32) :
    ∃ o', (fmtFrac o v prec).run = .ok (.ok (o', v / 10 ^ prec)) ∧
      o'.Holds (GoDuration.fmtFrac acc v prec).1 ∧
      (GoDuration.fmtFrac acc v prec).1.length ≤ n + (prec + 1) := by
  obtain ⟨o', hrun, ho'⟩ := fmtFrac_run prec v h (by omega)
  rw [snd_fmtFrac] at hrun
  have hle := length_fmtFrac_le acc v prec
  exact ⟨o', hrun, ho', by omega⟩

/-- The empty buffer with the `s` in its last byte. -/
theorem put_s : ∃ o, (put ⟨List.replicate 32 0, 32⟩ 0x73).run = .ok (.ok o) ∧ o.Holds [0x73] ∧
    o = ⟨(List.replicate 32 0).set 31 0x73, 31⟩ :=
  ⟨_, rfl, ⟨rfl, rfl, rfl⟩, rfl⟩

/-- The unit below a second and its digits. -/
def subText (u : Nat) : Octets × Nat :=
  if u < MICROSECOND then ([0x6E, 0x73], 0)
  else if u < MILLISECOND then ([0xC2, 0xB5, 0x73], 3)
  else ([0x6D, 0x73], 6)

theorem subUnit_run {o : Out} (ho : o = ⟨(List.replicate 32 0).set 31 0x73, 31⟩) (u : Nat) :
    ∃ o', (subUnit o.buf (o.w - 1) u).run = .ok (.ok (o', (subText u).2)) ∧
      o'.Holds (subText u).1 := by
  subst ho
  unfold subUnit subText
  by_cases hnano : u < MICROSECOND
  · rw [if_pos hnano, if_pos hnano]
    exact ⟨_, rfl, rfl, rfl, rfl⟩
  rw [if_neg hnano, if_neg hnano]
  by_cases hmicro : u < MILLISECOND
  · rw [if_pos hmicro, if_pos hmicro]
    exact ⟨_, rfl, rfl, rfl, rfl⟩
  · rw [if_neg hmicro, if_neg hmicro]
    exact ⟨_, rfl, rfl, rfl, rfl⟩

theorem formatBody_sub {u : Nat} (h : u < SECOND) : formatBody u =
    GoDuration.fmtInt (GoDuration.fmtFrac (subText u).1 u (subText u).2).1
      (u / 10 ^ (subText u).2) := by
  rw [← snd_fmtFrac (subText u).1]
  unfold formatBody
  rw [if_pos h]
  rfl

theorem formatBody_second {u : Nat} (h : ¬ u < SECOND) : formatBody u =
    if u / 10 ^ 9 / 60 > 0 then
      if u / 10 ^ 9 / 60 / 60 > 0 then
        GoDuration.fmtInt (0x68 :: GoDuration.fmtInt (0x6D :: GoDuration.fmtInt
          (GoDuration.fmtFrac [0x73] u 9).1 (u / 10 ^ 9 % 60)) (u / 10 ^ 9 / 60 % 60))
          (u / 10 ^ 9 / 60 / 60)
      else GoDuration.fmtInt (0x6D :: GoDuration.fmtInt (GoDuration.fmtFrac [0x73] u 9).1
        (u / 10 ^ 9 % 60)) (u / 10 ^ 9 / 60 % 60)
    else GoDuration.fmtInt (GoDuration.fmtFrac [0x73] u 9).1 (u / 10 ^ 9 % 60) := by
  unfold formatBody
  rw [if_neg h]
  dsimp only
  rw [snd_fmtFrac]

/-- Below a second there are at most three digits in front of the point. -/
theorem subText_bounds {u : Nat} (h : u < SECOND) :
    (subText u).1.length ≤ 3 ∧ (subText u).2 ≤ 6 ∧ u / 10 ^ (subText u).2 < 10 ^ 3 := by
  unfold subText
  by_cases hnano : u < MICROSECOND
  · rw [if_pos hnano]
    refine ⟨by decide, by decide, ?_⟩
    change u < 1000 at hnano
    change u / 1 < 1000
    omega
  rw [if_neg hnano]
  by_cases hmicro : u < MILLISECOND
  · rw [if_pos hmicro]
    refine ⟨by decide, by decide, ?_⟩
    change u < 1000000 at hmicro
    change u / 1000 < 1000
    omega
  · rw [if_neg hmicro]
    refine ⟨by decide, by decide, ?_⟩
    change u < 1000000000 at h
    change u / 1000000 < 1000
    omega

/-- Thirty-two bytes are enough for every duration, and the text is the one of
    `GoDuration.lean`. -/
theorem formatDuration_run (d : Int64) :
    (formatDuration d).run = .ok (.ok (GoDuration.formatDuration d)) := by
  have hlow := d.le_toInt
  have hhigh := d.toInt_lt
  have hword : d.toInt.natAbs ≤ 2 ^ 63 := by omega
  obtain ⟨o₀, hput, ho₀, hbuf⟩ := put_s
  rw [formatDuration_eq]
  have hsign : ∀ body : Octets, (if decide (d.toInt < 0) = true then 0x2D :: body else body) =
      if d.toInt < 0 then 0x2D :: body else body := by
    intro body
    simp only [decide_eq_true_eq]
  unfold formatDuration
  dsimp only
  generalize d.toInt.natAbs = u at hword
  by_cases hsub : u < SECOND
  · rw [if_pos hsub, run_bind_ok hput, run_bind_ok (sub_run (by rw [hbuf]; decide))]
    by_cases hzero : u = 0
    · rw [if_pos hzero, if_pos hzero]
      rfl
    obtain ⟨hunit, hprec, hint⟩ := subText_bounds hsub
    obtain ⟨o₁, hrun₁, ho₁⟩ := subUnit_run hbuf u
    obtain ⟨o₂, hrun₂, ho₂, hlen₂⟩ := ho₁.frac (subText u).2 u hunit (by omega)
    obtain ⟨o₃, hrun₃, ho₃, hlen₃⟩ :=
      ho₂.int (k := 2) (n := 10) hint (by decide) (by omega) (by decide)
    rw [if_neg hzero, if_neg hzero, run_bind_ok hrun₁]
    dsimp only
    rw [run_bind_ok hrun₂]
    dsimp only
    rw [run_bind_ok hrun₃, finish_run ho₃ (by omega), formatBody_sub hsub, hsign]
  · have hzero : ¬ u = 0 := by
      intro hzero
      rw [hzero] at hsub
      exact hsub (by decide)
    have hbody := formatBody_second hsub
    obtain ⟨o₁, hrun₁, ho₁, hlen₁⟩ := ho₀.frac 9 u (n := 1) le_rfl (by decide)
    have hsecs : u / 10 ^ 9 % 60 < 10 ^ (1 + 1) := lt_trans (Nat.mod_lt _ (by decide)) (by decide)
    obtain ⟨o₂, hrun₂, ho₂, hlen₂⟩ := ho₁.int hsecs (by decide) hlen₁ (by decide)
    rw [if_neg hsub, if_neg hzero, run_bind_ok hput, run_bind_ok hrun₁]
    dsimp only
    rw [run_bind_ok hrun₂]
    by_cases hmins : u / 10 ^ 9 / 60 > 0
    · obtain ⟨o₃, hrun₃, ho₃⟩ := put_run ho₂ (lt_of_le_of_lt hlen₂ (by decide)) 0x6D
      have hminutes : u / 10 ^ 9 / 60 % 60 < 10 ^ (1 + 1) :=
        lt_trans (Nat.mod_lt _ (by decide)) (by decide)
      obtain ⟨o₄, hrun₄, ho₄, hlen₄⟩ :=
        ho₃.int hminutes (by decide) (Nat.succ_le_succ hlen₂) (by decide)
      rw [if_pos hmins, run_bind_ok hrun₃, run_bind_ok hrun₄]
      rw [if_pos hmins] at hbody
      by_cases hhours : u / 10 ^ 9 / 60 / 60 > 0
      · obtain ⟨o₅, hrun₅, ho₅⟩ := put_run ho₄ (lt_of_le_of_lt hlen₄ (by decide)) 0x68
        have hseven : u / 10 ^ 9 / 60 / 60 < 10 ^ (6 + 1) := by omega
        obtain ⟨o₆, hrun₆, ho₆, hlen₆⟩ :=
          ho₅.int hseven (by decide) (Nat.succ_le_succ hlen₄) (by decide)
        rw [if_pos hhours] at hbody
        rw [if_pos hhours, run_bind_ok hrun₅, run_bind_ok hrun₆,
          finish_run ho₆ (lt_of_le_of_lt hlen₆ (by decide)), hsign, hbody]
      · rw [if_neg hhours] at hbody
        rw [if_neg hhours, finish_run ho₄ (lt_of_le_of_lt hlen₄ (by decide)), hsign, hbody]
    · rw [if_neg hmins] at hbody
      rw [if_neg hmins, finish_run ho₂ (lt_of_le_of_lt hlen₂ (by decide)), hsign, hbody]

end Run

/-! ### There and back -/

/-- The characters of a unit. -/
def TimeUnit.chars : TimeUnit → Str
  | .ns => ['n', 's']
  | .us => ['u', 's']
  | .microSign => ['µ', 's']
  | .greekMu => ['μ', 's']
  | .ms => ['m', 's']
  | .s => ['s']
  | .m => ['m']
  | .h => ['h']

theorem TimeUnit.isUtf8 (u : TimeUnit) : IsUtf8 u.text := ⟨u.chars, by cases u <;> rfl⟩

theorem FracText.isUtf8 {unit r : Nat} {text : Octets} (h : FracText unit r text) :
    IsUtf8 text := by
  apply isUtf8_of_ascii
  cases h with
  | whole => simp
  | part _ hdigits _ _ =>
    intro b hb
    rcases List.mem_cons.mp hb with rfl | hb
    · decide
    · exact Run.ascii_of_digit (hdigits b hb)

theorem Spelling.isUtf8 {count nanos : Nat} {s : Octets} (h : Spelling count nanos s) :
    IsUtf8 s := by
  induction h with
  | nil => exact isUtf8_nil
  | @cons u _ _ _ _ _ _ _ hv htext _ _ ih =>
    have hdigits := isUtf8_of_ascii fun b hb => Run.ascii_of_digit (hv.digits b hb)
    exact hdigits.append (htext.isUtf8.append (u.isUtf8.append ih))

theorem isUtf8_formatDuration (d : Int64) : IsUtf8 (formatDuration d) := by
  have hlow := d.le_toInt
  have hhigh := d.toInt_lt
  rw [formatDuration_eq]
  by_cases hzero : d.toInt.natAbs = 0
  · rw [if_pos hzero]
    exact ⟨['0', 's'], rfl⟩
  · obtain ⟨count, -, hspelling⟩ := formatBody_spelling (n := d.toInt.natAbs) (by
      unfold TWO_63
      omega)
    rw [if_neg hzero]
    by_cases hneg : d.toInt < 0
    · rw [if_pos hneg]
      have hminus : IsUtf8 [0x2D] := isUtf8_of_ascii (List.all_eq_true.mp rfl)
      exact hminus.append hspelling.isUtf8
    · rw [if_neg hneg]
      exact hspelling.isUtf8

/-- Formatting and parsing are inverse: for every `i64` the text fits the buffer, is a
    string, and is read back as the duration.  The step through `f64` is assumed exact
    where its operands and its result are integers of at most 53 bits. -/
theorem parse_format_inverse {frac : (f unit digits : Nat) → UInt64} (hfrac : FracExact frac)
    (d : Int64) :
    ∃ s : Str, (Run.formatDuration d).run = .ok (.ok s.bytes) ∧
      ∀ turns, s.bytes.length ≤ 2 * turns →
        (Run.parseDuration frac turns s.bytes).run = .ok (.ok (some d)) := by
  obtain ⟨s, hs⟩ := isUtf8_formatDuration d
  refine ⟨s, ?_, ?_⟩
  · rw [Run.formatDuration_run, hs]
  · intro turns hturns
    rw [Run.parseDuration_run s.isUtf8 hturns, ← hs, parse_formatDuration hfrac]
    rfl

/-- The product in integers, as a conversion through `f64`. -/
def exactFrac (f unit digits : Nat) : UInt64 := UInt64.ofNat (f * (unit / 10 ^ digits))

theorem fracExact_exactFrac : FracExact exactFrac := by
  intro f unit digits _ _ _ hproduct
  unfold exactFrac
  rw [UInt64.toNat_ofNat', Nat.mod_eq_of_lt (by omega)]

/-- The least `i64`, whose magnitude is none, goes there and back. -/
theorem parse_format_inverse_min :
    ∃ s : Str, (Run.formatDuration Int64.minValue).run = .ok (.ok s.bytes) ∧
      ∀ turns, s.bytes.length ≤ 2 * turns →
        (Run.parseDuration exactFrac turns s.bytes).run = .ok (.ok (some Int64.minValue)) :=
  parse_format_inverse fracExact_exactFrac Int64.minValue

end PicoSignet.GoDuration
