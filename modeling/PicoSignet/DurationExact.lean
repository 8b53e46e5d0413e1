/-
  PicoSignet/DurationExact.lean
  =============================
  **What a duration string says, and what the parser reads.**

  A duration without decimal points is a sign and then either `0` or a sequence
  of components, a decimal number followed by a unit.  `Component` is such a
  component and `spelled` the string of a sequence of them, so what the string
  says is the sum of the products, computed on unbounded numbers.

  The parser accumulates in a `u64`.  Its guards keep every product and every
  running sum at or below `1<<63`, which leaves one sum they cannot see: two
  halves of `1<<63` that add up to nothing.  The general result gives the value
  modulo `2^64`; `Cancels` are the strings where that is not the exact sum.
-/
import Mathlib.Data.List.TakeWhile
import PicoSignet.CertDecode

set_option autoImplicit false

namespace PicoSignet.GoDuration

/-! ### What a string says -/

inductive TimeUnit where
  | ns | us | microSign | greekMu | ms | s | m | h
deriving DecidableEq, Repr

def TimeUnit.text : TimeUnit → Octets
  | .ns => [0x6E, 0x73]
  | .us => [0x75, 0x73]
  | .microSign => [0xC2, 0xB5, 0x73]
  | .greekMu => [0xCE, 0xBC, 0x73]
  | .ms => [0x6D, 0x73]
  | .s => [0x73]
  | .m => [0x6D]
  | .h => [0x68]

def TimeUnit.nanos : TimeUnit → Nat
  | .ns => 1
  | .us | .microSign | .greekMu => MICROSECOND
  | .ms => MILLISECOND
  | .s => SECOND
  | .m => MINUTE
  | .h => HOUR

/-- One component: a decimal number and its unit. -/
@[ext] structure Component where
  digits : Octets
  unit : TimeUnit
  digits_ne : digits ≠ []
  all_digits : ∀ c ∈ digits, isDigit c = true

/-- The decimal number of some digits behind an `x` already read. -/
def decimalFrom (x : Nat) (digits : Octets) : Nat :=
  digits.foldl (fun x c => x * 10 + (c.toNat - 0x30)) x

namespace Component

def text (c : Component) : Octets := c.digits ++ c.unit.text

def number (c : Component) : Nat := decimalFrom 0 c.digits

def product (c : Component) : Nat := c.number * c.unit.nanos

/-- The number and the product both fit the parser's limit. -/
def Fits (c : Component) : Prop := c.number ≤ TWO_63 ∧ c.product ≤ TWO_63

instance (c : Component) : Decidable c.Fits := inferInstanceAs (Decidable (_ ∧ _))

end Component

inductive Sign where
  | absent | plus | minus
deriving DecidableEq, Repr

def Sign.text : Sign → Octets
  | .absent => []
  | .plus => [0x2B]
  | .minus => [0x2D]

/-- The largest magnitude of an `i64` of this sign. -/
def Sign.limit : Sign → Nat
  | .minus => TWO_63
  | _ => TWO_63 - 1

def Sign.apply (sign : Sign) (n : Nat) : Int :=
  match sign with
  | .minus => -n
  | _ => n

def textOf (cs : List Component) : Octets := cs.flatMap Component.text

def products (cs : List Component) : List Nat := cs.map Component.product

/-- The string of a sequence of components; the empty one is written `0`. -/
def spelled (sign : Sign) (cs : List Component) : Octets :=
  sign.text ++ if cs = [] then [0x30] else textOf cs

/-- The string says `v`, and neither a number nor the sum is out of range. -/
def Says (orig : Octets) (v : Int) : Prop :=
  ∃ sign cs, orig = spelled sign cs ∧ (∀ c ∈ cs, c.Fits) ∧
    (products cs).sum ≤ sign.limit ∧ v = sign.apply (products cs).sum

/-- Some products whose running sum, kept in a `u64`, never passes the limit. -/
def Runs (ps : List Nat) : Prop := ∀ n, (ps.take n).sum % 2 ^ 64 ≤ TWO_63

/-- The string read with sums in a `u64`. -/
def Reads (orig : Octets) (v : Int) : Prop :=
  ∃ sign cs, orig = spelled sign cs ∧ (∀ c ∈ cs, c.Fits) ∧ Runs (products cs) ∧
    (products cs).sum % 2 ^ 64 ≤ sign.limit ∧ v = sign.apply ((products cs).sum % 2 ^ 64)

/-- Components that add up to exactly `1<<63`, a component of `1<<63` behind them,
    and nothing else the parser objects to. -/
def Cancels (orig : Octets) : Prop :=
  ∃ sign cs a b, orig = spelled sign cs ∧ (∀ c ∈ cs, c.Fits) ∧
    products cs = a ++ TWO_63 :: b ∧ a.sum = TWO_63 ∧ Runs b ∧ b.sum % 2 ^ 64 ≤ sign.limit

/-! ### Numbers and units -/

theorem le_decimalFrom (ds : Octets) (x : Nat) : x ≤ decimalFrom x ds := by
  induction ds generalizing x with
  | nil => exact Nat.le_refl x
  | cons c ds ih =>
    have hstep := ih (x * 10 + (c.toNat - 0x30))
    have heq : decimalFrom x (c :: ds) = decimalFrom (x * 10 + (c.toNat - 0x30)) ds := rfl
    omega

theorem leadingInt_stop {x : Nat} {rest : Octets} (hrest : ∀ b ∈ rest.head?, isDigit b = false) :
    leadingInt x rest = some (x, rest) := by
  cases rest with
  | nil => rfl
  | cons b rest =>
    have hb := hrest b rfl
    rw [leadingInt, if_neg]
    simp [hb]

/-- The integer part: the whole number, refused exactly past `1<<63`. -/
theorem leadingInt_digits {x : Nat} {ds rest : Octets} (hx : x ≤ TWO_63)
    (hds : ∀ c ∈ ds, isDigit c = true) (hrest : ∀ b ∈ rest.head?, isDigit b = false) :
    leadingInt x (ds ++ rest) =
      if decimalFrom x ds ≤ TWO_63 then some (decimalFrom x ds, rest) else none := by
  induction ds generalizing x with
  | nil =>
    rw [List.nil_append, leadingInt_stop hrest]
    exact (if_pos hx).symm
  | cons c ds ih =>
    obtain ⟨hc, hds⟩ := List.forall_mem_cons.mp hds
    have heq : decimalFrom x (c :: ds) = decimalFrom (x * 10 + (c.toNat - 0x30)) ds := rfl
    have hgrow := le_decimalFrom ds (x * 10 + (c.toNat - 0x30))
    rw [List.cons_append, leadingInt, if_pos hc]
    by_cases hbig : x > TWO_63 / 10
    · have hover : ¬ decimalFrom x (c :: ds) ≤ TWO_63 := by
        rw [heq]
        unfold TWO_63 at *
        omega
      rw [if_pos hbig, if_neg hover]
    · rw [if_neg hbig]
      dsimp only
      by_cases hover : x * 10 + (c.toNat - 0x30) > TWO_63
      · rw [if_pos hover, if_neg]
        omega
      · rw [if_neg hover, ih (by omega) hds, heq]

@[simp] theorem unitMap_text (u : TimeUnit) : unitMap u.text = some u.nanos := by
  cases u <;> decide

theorem unitMap_some {u : Octets} {n : Nat} (h : unitMap u = some n) :
    ∃ unit : TimeUnit, u = unit.text ∧ n = unit.nanos := by
  unfold unitMap at h
  split at h
  · cases h
    exact ⟨.ns, ‹_›, rfl⟩
  split at h
  · cases h
    exact ⟨.us, ‹_›, rfl⟩
  split at h
  · cases h
    exact ⟨.microSign, ‹_›, rfl⟩
  split at h
  · cases h
    exact ⟨.greekMu, ‹_›, rfl⟩
  split at h
  · cases h
    exact ⟨.ms, ‹_›, rfl⟩
  split at h
  · cases h
    exact ⟨.s, ‹_›, rfl⟩
  split at h
  · cases h
    exact ⟨.m, ‹_›, rfl⟩
  split at h
  · cases h
    exact ⟨.h, ‹_›, rfl⟩
  · cases h

theorem TimeUnit.text_unitByte (u : TimeUnit) : ∀ c ∈ u.text, isUnitByte c = true := by
  have hall : u.text.all isUnitByte = true := by cases u <;> rfl
  exact List.all_eq_true.mp hall

theorem TimeUnit.text_ne_nil (u : TimeUnit) : u.text ≠ [] := by
  cases u <;> decide

theorem TimeUnit.text_injective {u u' : TimeUnit} (h : u.text = u'.text) : u = u' := by
  cases u <;> cases u' <;> first | rfl | (exact absurd h (by decide))

theorem TimeUnit.nanos_pos (u : TimeUnit) : 0 < u.nanos := by
  cases u <;> decide

theorem isUnitByte_eq_false {b : UInt8} (h : isDigit b = true) : isUnitByte b = false := by
  simp [isUnitByte, h]

theorem not_digit_of_isUnitByte {b : UInt8} (h : isUnitByte b = true) :
    isDigit b = false ∧ b ≠ DOT := by
  simp [isUnitByte] at h
  exact ⟨h.2, h.1⟩

/-! ### The component loop -/

theorem takeWhile_append_stop {p : UInt8 → Bool} {w rest : Octets} (hw : ∀ c ∈ w, p c = true)
    (hrest : ∀ b ∈ rest.head?, p b = false) : (w ++ rest).takeWhile p = w := by
  rw [List.takeWhile_append_of_pos hw]
  cases rest with
  | nil => simp
  | cons b rest => simp [hrest b rfl]

theorem dropWhile_append_stop {p : UInt8 → Bool} {w rest : Octets} (hw : ∀ c ∈ w, p c = true)
    (hrest : ∀ b ∈ rest.head?, p b = false) : (w ++ rest).dropWhile p = rest := by
  rw [List.dropWhile_append_of_pos hw]
  cases rest with
  | nil => rfl
  | cons b rest => simp [hrest b rfl]

theorem head?_dropWhile {p : UInt8 → Bool} {bs : Octets} {b : UInt8}
    (h : b ∈ (bs.dropWhile p).head?) : p b = false := by
  have hne := List.head?_dropWhile_not p bs
  rw [Option.mem_def.mp h] at hne
  simpa using hne

namespace Component

variable (c : Component)

theorem text_head_digit : ∀ b ∈ c.text.head?, isDigit b = true := by
  intro b hb
  cases hds : c.digits with
  | nil => exact absurd hds c.digits_ne
  | cons d ds =>
    rw [text, hds] at hb
    cases hb
    exact c.all_digits b (by simp [hds])

theorem text_ne_nil : c.text ≠ [] := by
  simp [text, c.digits_ne]

theorem unit_head (rest : Octets) : ∀ b ∈ (c.unit.text ++ rest).head?, isUnitByte b = true := by
  intro b hb
  cases hunit : c.unit.text with
  | nil => exact absurd hunit c.unit.text_ne_nil
  | cons d ds =>
    rw [hunit] at hb
    cases hb
    exact c.unit.text_unitByte b (by simp [hunit])

end Component

theorem textOf_head_digit (cs : List Component) : ∀ b ∈ (textOf cs).head?, isDigit b = true := by
  intro b hb
  cases cs with
  | nil => cases hb
  | cons c cs =>
    apply c.text_head_digit b
    have hsplit : textOf (c :: cs) = c.text ++ textOf cs := rfl
    rw [hsplit, List.head?_append_of_ne_nil _ c.text_ne_nil] at hb
    exact hb

section Loop

variable (frac : (f unit digits : Nat) → UInt64)

theorem componentNanos_whole {v unit digits : Nat} (hunit : 0 < unit) :
    componentNanos frac v 0 unit digits =
      if v * unit ≤ TWO_63 then some (v * unit) else none := by
  rw [componentNanos]
  by_cases hfits : v * unit ≤ TWO_63
  · have hle : v ≤ TWO_63 / unit := (Nat.le_div_iff_mul_le hunit).mpr hfits
    rw [if_neg (Nat.not_lt.mpr hle), if_neg (Nat.lt_irrefl 0), if_pos hfits]
  · have hgt : ¬ v ≤ TWO_63 / unit := fun hle => hfits ((Nat.le_div_iff_mul_le hunit).mp hle)
    rw [if_pos (Nat.not_le.mp hgt), if_neg hfits]

/-- What a turn does behind the integer part, where no decimal point follows it. -/
def afterInt (orig : Octets) (fuel v : Nat) (s1 : Octets) (d : Nat) : Except String Nat :=
  if (s1.takeWhile isUnitByte).isEmpty then .error (errMissingUnit orig)
  else
    match unitMap (s1.takeWhile isUnitByte) with
    | none => .error (errUnknownUnit (s1.takeWhile isUnitByte) orig)
    | some unit =>
      match componentNanos frac v 0 unit 0 with
      | none => .error (errInvalid orig)
      | some w =>
        if (d + w) % 2 ^ 64 > TWO_63 then .error (errInvalid orig)
        else components frac orig fuel (s1.dropWhile isUnitByte) ((d + w) % 2 ^ 64)

/-- A turn over a string that starts with digits and has no decimal point behind them. -/
theorem components_digits {orig ds s1 : Octets} {fuel d : Nat} (hne : ds ≠ [])
    (hds : ∀ c ∈ ds, isDigit c = true) (hs1 : ∀ b ∈ s1.head?, isDigit b = false)
    (hdot : ∀ b ∈ s1.head?, b ≠ DOT) :
    components frac orig (fuel + 1) (ds ++ s1) d =
      if decimalFrom 0 ds ≤ TWO_63 then afterInt frac orig fuel (decimalFrom 0 ds) s1 d
      else .error (errInvalid orig) := by
  have hint := leadingInt_digits (x := 0) (Nat.zero_le _) hds hs1
  cases hcases : ds with
  | nil => exact absurd hcases hne
  | cons b0 ds' =>
    have hb0 : isDigit b0 = true := hds b0 (by simp [hcases])
    have hlen : (s1.length != (b0 :: (ds' ++ s1)).length) = true := by
      simp
      omega
    rw [hcases] at hint
    rw [List.cons_append] at hint ⊢
    rw [components, if_neg (by simp [hb0])]
    dsimp only
    rw [hint]
    by_cases hfits : decimalFrom 0 (b0 :: ds') ≤ TWO_63
    · rw [if_pos hfits, if_pos hfits]
      dsimp only
      rw [hlen]
      cases s1 with
      | nil => rfl
      | cons b s1 =>
        dsimp only
        simp only [if_neg (hdot b rfl)]
        rfl
    · rw [if_neg hfits, if_neg hfits]

/-- One turn of the loop over a component. -/
theorem components_cons {orig rest : Octets} {fuel d : Nat} (c : Component)
    (hrest : ∀ b ∈ rest.head?, isDigit b = true) :
    components frac orig (fuel + 1) (c.text ++ rest) d =
      if c.Fits ∧ (d + c.product) % 2 ^ 64 ≤ TWO_63 then
        components frac orig fuel rest ((d + c.product) % 2 ^ 64)
      else .error (errInvalid orig) := by
  have hunits := c.unit_head rest
  have hstop : ∀ b ∈ rest.head?, isUnitByte b = false :=
    fun b hb => isUnitByte_eq_false (hrest b hb)
  have hsplit : c.text ++ rest = c.digits ++ (c.unit.text ++ rest) := List.append_assoc _ _ _
  rw [hsplit, components_digits frac c.digits_ne c.all_digits
    (fun b hb => (not_digit_of_isUnitByte (hunits b hb)).1)
    (fun b hb => (not_digit_of_isUnitByte (hunits b hb)).2), afterInt,
    takeWhile_append_stop c.unit.text_unitByte hstop,
    dropWhile_append_stop c.unit.text_unitByte hstop, unitMap_text]
  have hempty : c.unit.text.isEmpty = false := by simp [c.unit.text_ne_nil]
  rw [hempty]
  dsimp only
  rw [componentNanos_whole frac c.unit.nanos_pos]
  change (if c.number ≤ TWO_63 then _ else _) = _
  by_cases hnumber : c.number ≤ TWO_63
  · rw [if_pos hnumber]
    by_cases hproduct : c.product ≤ TWO_63
    · have hfits : c.Fits := ⟨hnumber, hproduct⟩
      have hnanos : decimalFrom 0 c.digits * c.unit.nanos ≤ TWO_63 := hproduct
      simp only [Bool.false_eq_true, if_false, if_pos hnanos, hfits, true_and]
      by_cases hsum : (d + c.product) % 2 ^ 64 ≤ TWO_63
      · rw [if_pos hsum]
        exact if_neg (Nat.not_lt.mpr hsum)
      · rw [if_neg hsum]
        exact if_pos (Nat.not_le.mp hsum)
    · have hnanos : ¬ decimalFrom 0 c.digits * c.unit.nanos ≤ TWO_63 := hproduct
      have hno : ¬ (c.Fits ∧ (d + c.product) % 2 ^ 64 ≤ TWO_63) := fun h => hproduct h.1.2
      rw [if_neg hnanos, if_neg hno]
      rfl
  · have hno : ¬ (c.Fits ∧ (d + c.product) % 2 ^ 64 ≤ TWO_63) := fun h => hnumber h.1.1
    rw [if_neg hnumber, if_neg hno]

/-- A turn that goes through was over a component. -/
theorem components_ok_component {orig s : Octets} {fuel d r : Nat} (hdot : DOT ∉ s) (hs : s ≠ [])
    (h : components frac orig fuel s d = .ok r) :
    ∃ (c : Component) (rest : Octets), s = c.text ++ rest ∧ ∀ b ∈ rest.head?, isDigit b = true := by
  have hparts : s.takeWhile isDigit ++ s.dropWhile isDigit = s := List.takeWhile_append_dropWhile
  have hds : ∀ c ∈ s.takeWhile isDigit, isDigit c = true :=
    fun c hc => List.mem_takeWhile_imp hc
  have hs1 : ∀ b ∈ (s.dropWhile isDigit).head?, isDigit b = false := fun b hb => head?_dropWhile hb
  have hnodot : ∀ b ∈ s.dropWhile isDigit, b ≠ DOT := by
    intro b hb hbdot
    rw [hbdot] at hb
    exact hdot (by rw [← hparts]; exact List.mem_append_right _ hb)
  generalize s.takeWhile isDigit = ds at hparts hds
  generalize s.dropWhile isDigit = s1 at hparts hs1 hnodot
  have hne : ds ≠ [] := by
    intro hnil
    rw [hnil, List.nil_append] at hparts
    rw [← hparts] at h hs
    cases hcases : s1 with
    | nil => exact hs hcases
    | cons b0 rest =>
      have hb0 := hs1 b0 (by rw [hcases]; rfl)
      have hb0' := hnodot b0 (by simp [hcases])
      rw [hcases] at h
      cases fuel with
      | zero => cases h
      | succ fuel =>
        rw [components, if_pos (by simp [hb0, hb0'])] at h
        cases h
  cases fuel with
  | zero =>
    cases hcases : s with
    | nil => exact absurd hcases hs
    | cons b rest =>
      rw [hcases] at h
      cases h
  | succ fuel =>
    rw [← hparts, components_digits frac hne hds hs1
      fun b hb => hnodot b (List.mem_of_mem_head? hb)] at h
    split at h
    swap
    · cases h
    rw [afterInt] at h
    split at h
    · cases h
    split at h
    · cases h
    rename_i unit hunit
    obtain ⟨u, hu, -⟩ := unitMap_some hunit
    refine ⟨⟨ds, u, hne, hds⟩, s1.dropWhile isUnitByte, ?_, ?_⟩
    · rw [← hparts, Component.text, ← hu, List.append_assoc, List.takeWhile_append_dropWhile]
    · intro b hb
      have hstop := head?_dropWhile hb
      have hmem : b ∈ s1 := (List.dropWhile_sublist _).subset (List.mem_of_mem_head? hb)
      have hne := hnodot b hmem
      simpa [isUnitByte, hne] using hstop

/-- The running sums from `d` on stay at or below the limit. -/
def RunsFrom (d : Nat) (ps : List Nat) : Prop := ∀ n, (d + (ps.take n).sum) % 2 ^ 64 ≤ TWO_63

theorem runsFrom_zero (ps : List Nat) : RunsFrom 0 ps ↔ Runs ps := by
  simp [RunsFrom, Runs]

theorem runsFrom_nil {d : Nat} : RunsFrom d [] ↔ d % 2 ^ 64 ≤ TWO_63 := by
  simp [RunsFrom]

theorem runsFrom_cons {d p : Nat} {ps : List Nat} :
    RunsFrom d (p :: ps) ↔ d % 2 ^ 64 ≤ TWO_63 ∧ RunsFrom ((d + p) % 2 ^ 64) ps := by
  have hmod : ∀ k, ((d + p) % 2 ^ 64 + k) % 2 ^ 64 = (d + (p + k)) % 2 ^ 64 := by
    intro k
    omega
  constructor
  · intro h
    constructor
    · simpa using h 0
    · intro n
      have hn := h (n + 1)
      rw [List.take_succ_cons, List.sum_cons] at hn
      rw [hmod]
      exact hn
  · intro h n
    cases n with
    | zero => simpa using h.1
    | succ n =>
      have hn := h.2 n
      rw [hmod] at hn
      rw [List.take_succ_cons, List.sum_cons]
      exact hn

theorem runsFrom_head {d : Nat} {ps : List Nat} (h : RunsFrom d ps) : d % 2 ^ 64 ≤ TWO_63 := by
  simpa using h 0

/-- The loop over a sequence of components: it goes through exactly when every
    component fits and the running sums do. -/
theorem components_textOf {orig : Octets} {cs : List Component} {fuel d r : Nat}
    (hfuel : cs.length ≤ fuel) (hd : d ≤ TWO_63) :
    components frac orig fuel (textOf cs) d = .ok r ↔
      (∀ c ∈ cs, c.Fits) ∧ RunsFrom d (products cs) ∧ r = (d + (products cs).sum) % 2 ^ 64 := by
  induction cs generalizing fuel d with
  | nil =>
    have hsum : (d + (products []).sum) % 2 ^ 64 = d := by
      unfold TWO_63 at hd
      exact Nat.mod_eq_of_lt (by simp [products]; omega)
    have hnil : components frac orig fuel (textOf []) d = .ok d := by
      cases fuel <;> rfl
    rw [hnil, hsum]
    constructor
    · intro h
      cases h
      exact ⟨by simp, runsFrom_nil.mpr (by omega), rfl⟩
    · intro h
      rw [h.2.2]
  | cons c cs ih =>
    cases fuel with
    | zero => cases hfuel
    | succ fuel =>
      have hsplit : textOf (c :: cs) = c.text ++ textOf cs := rfl
      have hproducts : products (c :: cs) = c.product :: products cs := rfl
      have hmod : ∀ k, ((d + c.product) % 2 ^ 64 + k) % 2 ^ 64 = (d + (c.product + k)) % 2 ^ 64 := by
        intro k
        omega
      rw [hsplit, components_cons frac c (textOf_head_digit cs), hproducts, runsFrom_cons,
        List.sum_cons, List.forall_mem_cons]
      by_cases hgo : c.Fits ∧ (d + c.product) % 2 ^ 64 ≤ TWO_63
      · have hrest := ih (Nat.le_of_succ_le_succ hfuel) hgo.2
        rw [if_pos hgo, hrest, hmod]
        constructor
        · intro h
          exact ⟨⟨hgo.1, h.1⟩, ⟨by omega, h.2.1⟩, h.2.2⟩
        · intro h
          exact ⟨h.1.2, h.2.1.2, h.2.2⟩
      · rw [if_neg hgo]
        constructor
        · intro h
          cases h
        · intro h
          have hstart := runsFrom_head h.2.1.2
          rw [Nat.mod_mod] at hstart
          exact absurd ⟨h.1.1, hstart⟩ hgo

/-- A string the loop accepts is a sequence of components. -/
theorem components_ok_textOf {orig s : Octets} {fuel d r : Nat} (hdot : DOT ∉ s)
    (h : components frac orig fuel s d = .ok r) : ∃ cs, s = textOf cs := by
  induction fuel generalizing s d with
  | zero =>
    cases s with
    | nil => exact ⟨[], rfl⟩
    | cons b s => cases h
  | succ fuel ih =>
    by_cases hs : s = []
    · exact ⟨[], hs⟩
    · obtain ⟨c, rest, rfl, hrest⟩ := components_ok_component frac hdot hs h
      rw [components_cons frac c hrest] at h
      split at h
      swap
      · cases h
      obtain ⟨cs, hcs⟩ := ih (fun hmem => hdot (List.mem_append_right _ hmem)) h
      exact ⟨c :: cs, by rw [hcs]; rfl⟩

theorem length_le_textOf (cs : List Component) : cs.length ≤ (textOf cs).length := by
  induction cs with
  | nil => exact Nat.le_refl 0
  | cons c cs ih =>
    have hsplit : textOf (c :: cs) = c.text ++ textOf cs := rfl
    have hpos := List.length_pos_of_ne_nil c.text_ne_nil
    rw [hsplit, List.length_append, List.length_cons]
    omega

/-! ### The whole string -/

/-- What the parser does behind the sign. -/
def parseBody (orig : Octets) (sign : Sign) (s : Octets) : Except String Int64 :=
  if s = [0x30] then .ok 0
  else if s.isEmpty then .error (errInvalid orig)
  else
    match components frac orig s.length s 0 with
    | .error e => .error e
    | .ok d =>
      if sign = .minus then .ok (-(Int64.ofNat d))
      else if d > TWO_63 - 1 then .error (errInvalid orig)
      else .ok (Int64.ofNat d)

/-- The bytes behind a sign; where there is none, the string starts with neither of them. -/
def Behind (sign : Sign) (s : Octets) : Prop :=
  sign = .absent → ∀ b ∈ s.head?, b ≠ 0x2D ∧ b ≠ 0x2B

theorem parseDuration_sign {sign : Sign} {s : Octets} (h : Behind sign s) :
    parseDuration frac (sign.text ++ s) = parseBody frac (sign.text ++ s) sign s := by
  cases sign with
  | plus => rfl
  | minus => rfl
  | absent =>
    cases s with
    | nil => rfl
    | cons b s =>
      obtain ⟨hminus, hplus⟩ := h rfl b rfl
      have hno : ¬ (b = 0x2D ∨ b = 0x2B) := fun hor => hor.elim hminus hplus
      change parseDuration frac (b :: s) = _
      rw [parseDuration]
      dsimp only
      simp only [if_neg hno]
      rfl

theorem exists_sign (orig : Octets) : ∃ sign s, orig = Sign.text sign ++ s ∧ Behind sign s := by
  cases orig with
  | nil => exact ⟨.absent, [], rfl, fun _ b hb => by cases hb⟩
  | cons b s =>
    by_cases hminus : b = 0x2D
    · exact ⟨.minus, s, by rw [hminus]; rfl, fun h => by cases h⟩
    by_cases hplus : b = 0x2B
    · exact ⟨.plus, s, by rw [hplus]; rfl, fun h => by cases h⟩
    · refine ⟨.absent, b :: s, rfl, fun _ c hc => ?_⟩
      cases hc
      exact ⟨hminus, hplus⟩

theorem digit_ne_sign {b : UInt8} (h : isDigit b = true) : b ≠ 0x2D ∧ b ≠ 0x2B := by
  constructor
  · intro hb
    rw [hb] at h
    cases h
  · intro hb
    rw [hb] at h
    cases h

theorem behind_of_digit {sign : Sign} {s : Octets} (h : ∀ b ∈ s.head?, isDigit b = true) :
    Behind sign s := fun _ b hb => digit_ne_sign (h b hb)

theorem textOf_ne_zero {cs : List Component} : textOf cs ≠ [0x30] := by
  cases cs with
  | nil => intro h; cases h
  | cons c cs =>
    have hsplit : textOf (c :: cs) = c.digits ++ c.unit.text ++ textOf cs := rfl
    have hdigits := List.length_pos_of_ne_nil c.digits_ne
    have hunit := List.length_pos_of_ne_nil c.unit.text_ne_nil
    intro h
    have hlen := congrArg List.length (hsplit.symm.trans h)
    simp only [List.length_append, List.length_cons, List.length_nil] at hlen
    omega

theorem textOf_eq_nil {cs : List Component} : textOf cs = [] ↔ cs = [] := by
  cases cs with
  | nil => exact ⟨fun _ => rfl, fun _ => rfl⟩
  | cons c cs =>
    have hsplit : textOf (c :: cs) = c.text ++ textOf cs := rfl
    simp [hsplit, c.text_ne_nil]

theorem toInt_ofNat_small {d : Nat} (h : d ≤ TWO_63 - 1) : (Int64.ofNat d).toInt = d := by
  apply Int64.toInt_ofNat_of_lt
  unfold TWO_63 at h
  omega

theorem toInt_neg_ofNat {d : Nat} (h : d ≤ TWO_63) : (-(Int64.ofNat d)).toInt = -d := by
  unfold TWO_63 at h
  rw [Int64.neg_ofNat]
  apply Int64.toInt_ofInt_of_le
  · omega
  · omega

theorem ok_eq_iff {x v : Int64} {n : Int} (hx : x.toInt = n) :
    (Except.ok x : Except String Int64) = .ok v ↔ v.toInt = n := by
  constructor
  · intro h
    cases h
    exact hx
  · intro h
    rw [Int64.toInt_inj.mp (hx.trans h.symm)]

/-- The value of the accumulated sum under its sign. -/
theorem finish_ok_iff {e : String} {sign : Sign} {d : Nat} {v : Int64} (hd : d ≤ TWO_63) :
    (if sign = .minus then Except.ok (-(Int64.ofNat d))
      else if d > TWO_63 - 1 then .error e
      else .ok (Int64.ofNat d)) = Except.ok v ↔ d ≤ sign.limit ∧ v.toInt = sign.apply d := by
  have hpos : ∀ sign', sign' ≠ Sign.minus → ((if d > TWO_63 - 1 then Except.error e
      else .ok (Int64.ofNat d)) = Except.ok v ↔ d ≤ sign'.limit ∧ v.toInt = sign'.apply d) := by
    intro sign' hsign
    have hlimit : sign'.limit = TWO_63 - 1 := by
      cases sign' <;> first | rfl | exact absurd rfl hsign
    have happly : sign'.apply d = d := by
      cases sign' <;> first | rfl | exact absurd rfl hsign
    rw [hlimit, happly]
    by_cases hbig : d > TWO_63 - 1
    · rw [if_pos hbig]
      constructor
      · intro h
        cases h
      · intro h
        exact absurd h.1 (Nat.not_le.mpr hbig)
    · have hsmall := Nat.not_lt.mp hbig
      rw [if_neg hbig, ok_eq_iff (toInt_ofNat_small hsmall)]
      exact ⟨fun h => ⟨hsmall, h⟩, And.right⟩
  by_cases hminus : sign = .minus
  · rw [if_pos hminus, hminus, ok_eq_iff (toInt_neg_ofNat hd)]
    exact ⟨fun h => ⟨hd, h⟩, And.right⟩
  · rw [if_neg hminus]
    exact hpos sign hminus

/-- The parser over a sequence of components. -/
theorem parseBody_ok_iff {orig : Octets} {sign : Sign} {cs : List Component} {v : Int64}
    (hcs : cs ≠ []) :
    parseBody frac orig sign (textOf cs) = .ok v ↔
      (∀ c ∈ cs, c.Fits) ∧ Runs (products cs) ∧ (products cs).sum % 2 ^ 64 ≤ sign.limit ∧
        v.toInt = sign.apply ((products cs).sum % 2 ^ 64) := by
  have hempty : (textOf cs).isEmpty = false := by
    simp [textOf_eq_nil, hcs]
  have hloop : ∀ r, components frac orig (textOf cs).length (textOf cs) 0 = .ok r ↔
      (∀ c ∈ cs, c.Fits) ∧ RunsFrom 0 (products cs) ∧ r = (0 + (products cs).sum) % 2 ^ 64 :=
    fun r => components_textOf frac (length_le_textOf cs) (Nat.zero_le TWO_63)
  rw [parseBody, if_neg textOf_ne_zero, hempty, if_neg Bool.false_ne_true]
  cases hrun : components frac orig (textOf cs).length (textOf cs) 0 with
  | error e =>
    constructor
    · intro h
      cases h
    · intro h
      have hok := (hloop _).mpr ⟨h.1, (runsFrom_zero _).mpr h.2.1, rfl⟩
      rw [hrun] at hok
      cases hok
  | ok d =>
    obtain ⟨hfits, hruns, hd⟩ := (hloop d).mp hrun
    rw [Nat.zero_add] at hd
    have hle : d ≤ TWO_63 := by
      have hall := (runsFrom_zero _).mp hruns (products cs).length
      rw [List.take_length] at hall
      omega
    dsimp only
    rw [finish_ok_iff hle, ← hd]
    exact ⟨fun h => ⟨hfits, (runsFrom_zero _).mp hruns, h⟩, fun h => h.2.2⟩

/-- The parser reads the sum of the components in a `u64`. -/
theorem parseDuration_ok_iff_reads {orig : Octets} (hdot : DOT ∉ orig) (v : Int64) :
    parseDuration frac orig = .ok v ↔ Reads orig v.toInt := by
  constructor
  · intro h
    obtain ⟨sign, s, rfl, hbehind⟩ := exists_sign orig
    rw [parseDuration_sign frac hbehind] at h
    by_cases hzero : s = [0x30]
    · rw [parseBody, if_pos hzero] at h
      cases h
      refine ⟨sign, [], by rw [hzero]; rfl, by simp, ?_, ?_, ?_⟩
      · simp [Runs, products]
      · simp [products]
      · cases sign <;> rfl
    · have hcs : ∃ cs, s = textOf cs := by
        rw [parseBody, if_neg hzero] at h
        split at h
        · cases h
        split at h
        · cases h
        rename_i d hrun
        exact components_ok_textOf frac (fun hmem => hdot (List.mem_append_right _ hmem)) hrun
      obtain ⟨cs, rfl⟩ := hcs
      have hne : cs ≠ [] := by
        intro hnil
        rw [hnil] at h
        cases h
      obtain ⟨hfits, hruns, hlimit, hv⟩ := (parseBody_ok_iff frac hne).mp h
      exact ⟨sign, cs, by rw [spelled, if_neg hne], hfits, hruns, hlimit, hv⟩
  · rintro ⟨sign, cs, rfl, hfits, hruns, hlimit, hv⟩
    by_cases hne : cs = []
    · rw [hne] at hv ⊢
      have hbehind : Behind sign [0x30] := behind_of_digit (by simp; decide)
      have hval : v = 0 := by
        apply Int64.toInt_inj.mp
        rw [hv]
        cases sign <;> rfl
      rw [hval]
      exact parseDuration_sign frac hbehind
    · rw [spelled, if_neg hne, parseDuration_sign frac (behind_of_digit (textOf_head_digit cs))]
      exact (parseBody_ok_iff frac hne).mpr ⟨hfits, hruns, hlimit, hv⟩

end Loop

/-! ### Where the sum is exact -/

/-- Running sums that stay at or below the limit are exact, or two halves met. -/
theorem RunsFrom.exact_or_halves {d : Nat} {ps : List Nat} (hd : d ≤ TWO_63)
    (hps : ∀ p ∈ ps, p ≤ TWO_63) (h : RunsFrom d ps) :
    d + ps.sum ≤ TWO_63 ∨
      ∃ a b, ps = a ++ TWO_63 :: b ∧ d + a.sum = TWO_63 ∧ Runs b := by
  induction ps generalizing d with
  | nil => exact .inl (by simpa using hd)
  | cons p ps ih =>
    obtain ⟨hp, hps⟩ := List.forall_mem_cons.mp hps
    obtain ⟨-, hrest⟩ := runsFrom_cons.mp h
    by_cases hwrap : d + p = 2 ^ 64
    · -- both are at most half of `2^64`, so both are the half
      have hhalves : p = TWO_63 ∧ d = TWO_63 := by
        unfold TWO_63 at *
        omega
      rw [hwrap, Nat.mod_self] at hrest
      exact .inr ⟨[], ps, by rw [hhalves.1]; rfl, by simp [hhalves.2], (runsFrom_zero ps).mp hrest⟩
    · have hmod : (d + p) % 2 ^ 64 = d + p := by
        apply Nat.mod_eq_of_lt
        unfold TWO_63 at *
        omega
      have hle := runsFrom_head hrest
      rw [Nat.mod_mod, hmod] at hle
      rw [hmod] at hrest
      rcases ih hle hps hrest with hexact | ⟨a, b, hsplit, hsum, hruns⟩
      · exact .inl (by rw [List.sum_cons]; omega)
      · exact .inr ⟨p :: a, b, by rw [hsplit]; rfl, by rw [List.sum_cons]; omega, hruns⟩

/-- Two halves cancel, and the parser goes on from nothing. -/
theorem runsFrom_halves {d : Nat} {a b : List Nat} (hsum : d + a.sum = TWO_63) (hb : Runs b) :
    RunsFrom d (a ++ TWO_63 :: b) := by
  induction a generalizing d with
  | nil =>
    have hd : d = TWO_63 := by simpa using hsum
    rw [List.nil_append, runsFrom_cons, hd]
    exact ⟨by decide, (runsFrom_zero b).mpr hb⟩
  | cons p a ih =>
    rw [List.sum_cons] at hsum
    have hmod : (d + p) % 2 ^ 64 = d + p := by
      apply Nat.mod_eq_of_lt
      unfold TWO_63 at hsum
      omega
    rw [List.cons_append, runsFrom_cons, hmod]
    constructor
    · unfold TWO_63 at *
      omega
    · exact ih (by omega)

theorem runs_of_exact {ps : List Nat} (h : ps.sum ≤ TWO_63) : Runs ps := by
  intro n
  have htake : (ps.take n).sum ≤ ps.sum := (List.take_sublist n ps).sum_le_sum (by simp)
  exact (Nat.mod_le _ _).trans (htake.trans h)

/-- A text of components tells them. -/
theorem text_append_inj {c c' : Component} {rest rest' : Octets}
    (hrest : ∀ b ∈ rest.head?, isDigit b = true) (hrest' : ∀ b ∈ rest'.head?, isDigit b = true)
    (h : c.text ++ rest = c'.text ++ rest') : c = c' ∧ rest = rest' := by
  have hdigits : ∀ (c : Component) (rest : Octets),
      (c.text ++ rest).takeWhile isDigit = c.digits ∧
        (c.text ++ rest).dropWhile isDigit = c.unit.text ++ rest := by
    intro c rest
    have hsplit : c.text ++ rest = c.digits ++ (c.unit.text ++ rest) := List.append_assoc _ _ _
    have hstop : ∀ b ∈ (c.unit.text ++ rest).head?, isDigit b = false :=
      fun b hb => (not_digit_of_isUnitByte (c.unit_head rest b hb)).1
    rw [hsplit]
    exact ⟨takeWhile_append_stop c.all_digits hstop, dropWhile_append_stop c.all_digits hstop⟩
  have hunits : ∀ (c : Component) (rest : Octets), (∀ b ∈ rest.head?, isDigit b = true) →
      (c.unit.text ++ rest).takeWhile isUnitByte = c.unit.text ∧
        (c.unit.text ++ rest).dropWhile isUnitByte = rest := by
    intro c rest hrest
    have hstop : ∀ b ∈ rest.head?, isUnitByte b = false :=
      fun b hb => isUnitByte_eq_false (hrest b hb)
    exact ⟨takeWhile_append_stop c.unit.text_unitByte hstop,
      dropWhile_append_stop c.unit.text_unitByte hstop⟩
  obtain ⟨htake, hdrop⟩ := hdigits c rest
  obtain ⟨htake', hdrop'⟩ := hdigits c' rest'
  rw [h, htake'] at htake
  rw [h, hdrop'] at hdrop
  obtain ⟨hunit, hend⟩ := hunits c rest hrest
  obtain ⟨hunit', hend'⟩ := hunits c' rest' hrest'
  rw [← hdrop, hunit'] at hunit
  rw [← hdrop, hend'] at hend
  exact ⟨Component.ext htake.symm (TimeUnit.text_injective hunit.symm), hend.symm⟩

theorem textOf_injective {cs cs' : List Component} (h : textOf cs = textOf cs') : cs = cs' := by
  induction cs generalizing cs' with
  | nil => exact (textOf_eq_nil.mp h.symm).symm
  | cons c cs ih =>
    cases cs' with
    | nil => exact textOf_eq_nil.mp h
    | cons c' cs' =>
      obtain ⟨hc, hrest⟩ := text_append_inj (textOf_head_digit cs) (textOf_head_digit cs') h
      rw [hc, ih hrest]

/-- A string is spelled in one way only. -/
theorem spelled_injective {sign sign' : Sign} {cs cs' : List Component}
    (h : spelled sign cs = spelled sign' cs') : sign = sign' ∧ cs = cs' := by
  have hhead : ∀ cs : List Component,
      ∀ b ∈ (if cs = [] then ([0x30] : Octets) else textOf cs).head?, isDigit b = true := by
    intro cs b hb
    by_cases hcs : cs = []
    · rw [if_pos hcs] at hb
      cases hb
      rfl
    · rw [if_neg hcs] at hb
      exact textOf_head_digit cs b hb
  have hne : ∀ cs : List Component, (if cs = [] then ([0x30] : Octets) else textOf cs) ≠ [] := by
    intro cs
    by_cases hcs : cs = []
    · rw [if_pos hcs]
      simp
    · rw [if_neg hcs]
      exact fun hnil => hcs (textOf_eq_nil.mp hnil)
  have hbody : sign = sign' ∧ (if cs = [] then ([0x30] : Octets) else textOf cs) =
      if cs' = [] then [0x30] else textOf cs' := by
    unfold spelled at h
    have hd := hhead cs
    have hd' := hhead cs'
    have hn := hne cs
    have hn' := hne cs'
    generalize (if cs = [] then ([0x30] : Octets) else textOf cs) = body at *
    generalize (if cs' = [] then ([0x30] : Octets) else textOf cs') = body' at *
    cases body with
    | nil => exact absurd rfl hn
    | cons b body =>
      cases body' with
      | nil => exact absurd rfl hn'
      | cons b' body' =>
        obtain ⟨hm, hp⟩ := digit_ne_sign (hd b rfl)
        obtain ⟨hm', hp'⟩ := digit_ne_sign (hd' b' rfl)
        cases sign <;> cases sign' <;> simp_all [Sign.text]
  refine ⟨hbody.1, ?_⟩
  have htexts := hbody.2
  by_cases hcs : cs = []
  · by_cases hcs' : cs' = []
    · rw [hcs, hcs']
    · rw [if_pos hcs, if_neg hcs'] at htexts
      exact absurd htexts.symm textOf_ne_zero
  · by_cases hcs' : cs' = []
    · rw [if_neg hcs, if_pos hcs'] at htexts
      exact absurd htexts textOf_ne_zero
    · rw [if_neg hcs, if_neg hcs'] at htexts
      exact textOf_injective htexts

theorem Reads.says_or_cancels {orig : Octets} {v : Int} (h : Reads orig v) :
    Says orig v ∨ Cancels orig := by
  obtain ⟨sign, cs, hspelled, hfits, hruns, hlimit, hv⟩ := h
  have hps : ∀ p ∈ products cs, p ≤ TWO_63 := by
    intro p hp
    obtain ⟨c, hc, rfl⟩ := List.mem_map.mp hp
    exact (hfits c hc).2
  rcases ((runsFrom_zero _).mpr hruns).exact_or_halves (Nat.zero_le _) hps with
    hexact | ⟨a, b, hsplit, hsum, hb⟩
  · have hmod : (products cs).sum % 2 ^ 64 = (products cs).sum := by
      apply Nat.mod_eq_of_lt
      unfold TWO_63 at hexact
      omega
    rw [hmod] at hlimit hv
    exact .inl ⟨sign, cs, hspelled, hfits, hlimit, hv⟩
  · rw [Nat.zero_add] at hsum
    have hrest : (products cs).sum % 2 ^ 64 = b.sum % 2 ^ 64 := by
      rw [hsplit, List.sum_append, List.sum_cons, hsum]
      unfold TWO_63
      omega
    rw [hrest] at hlimit
    exact .inr ⟨sign, cs, a, b, hspelled, hfits, hsplit, hsum, hb, hlimit⟩

theorem Says.reads {orig : Octets} {v : Int} (h : Says orig v) : Reads orig v := by
  obtain ⟨sign, cs, hspelled, hfits, hlimit, hv⟩ := h
  have hsum : (products cs).sum ≤ TWO_63 := by
    cases sign <;> simp only [Sign.limit] at hlimit <;> omega
  have hmod : (products cs).sum % 2 ^ 64 = (products cs).sum := by
    apply Nat.mod_eq_of_lt
    unfold TWO_63 at hsum
    omega
  refine ⟨sign, cs, hspelled, hfits, runs_of_exact hsum, ?_, ?_⟩
  · rw [hmod]
    exact hlimit
  · rw [hmod]
    exact hv

theorem exists_toInt {sign : Sign} {d : Nat} (h : d ≤ sign.limit) :
    ∃ v : Int64, v.toInt = sign.apply d := by
  cases sign with
  | minus => exact ⟨_, toInt_neg_ofNat h⟩
  | plus => exact ⟨_, toInt_ofNat_small h⟩
  | absent => exact ⟨_, toInt_ofNat_small h⟩

/-- A string that cancels is read, and says nothing the parser could have read. -/
theorem Cancels.not_says {orig : Octets} (h : Cancels orig) :
    (∃ v : Int64, Reads orig v.toInt) ∧ ∀ n, ¬ Says orig n := by
  obtain ⟨sign, cs, a, b, hspelled, hfits, hsplit, hsum, hb, hlimit⟩ := h
  have htotal : (products cs).sum = 2 ^ 64 + b.sum := by
    rw [hsplit, List.sum_append, List.sum_cons, hsum]
    unfold TWO_63
    omega
  have hmod : (products cs).sum % 2 ^ 64 = b.sum % 2 ^ 64 := by
    rw [htotal]
    exact Nat.add_mod_left _ _
  constructor
  · obtain ⟨v, hv⟩ := exists_toInt hlimit
    refine ⟨v, sign, cs, hspelled, hfits, ?_, ?_, ?_⟩
    · rw [hsplit, ← runsFrom_zero]
      exact runsFrom_halves (by omega) hb
    · rw [hmod]
      exact hlimit
    · rw [hmod]
      exact hv
  · rintro n ⟨sign', cs', hspelled', -, hlimit', -⟩
    obtain ⟨-, hcs⟩ := spelled_injective (hspelled.symm.trans hspelled')
    have hle : sign'.limit ≤ TWO_63 := by
      cases sign' <;> decide
    rw [← hcs, htotal] at hlimit'
    unfold TWO_63 at hle
    omega

section Cap

variable (P : Prims)

theorem validateRequest_duration {req : EnclaveSigningRequest} {d : Int64}
    (h : validateRequest P req = .ok d) :
    parseDuration P.fracNanos req.validity.bytes = .ok d := by
  unfold validateRequest at h
  simp only [bind, Except.bind, pure, Except.pure] at h
  split at h
  · cases h
  split at h
  · cases h
  split at h
  · cases h
  split at h
  swap
  · cases h
  rename_i d' hparse
  split at h
  · cases h
  split at h
  · cases h
  split at h
  · cases h
  split at h
  · cases h
  cases h
  exact hparse

theorem validate_duration {req : EnclaveSigningRequest} {val : Validated}
    (h : validate P req = .ok val) :
    parseDuration P.fracNanos req.validity.bytes = .ok val.durationNs := by
  unfold validate at h
  obtain ⟨d, hrequest, h⟩ := bind_eq_ok h
  have hd : val.durationNs = d := by
    simp only [bind, Except.bind, pure, Except.pure] at h
    split at h
    swap
    · cases h
    split at h
    · cases h
    split at h
    · cases h
    split at h
    · cases h
    cases h
    rfl
  rw [hd]
  exact validateRequest_duration P hrequest

/-- A string without decimal points is read as the sum of its components in a
    `u64`.  That is the exact sum unless two halves of `2^64` cancel, and where
    none do, what `validate` accepts says more than nothing and at most a day. -/
theorem parse_duration_exact {orig : Octets} (hdot : DOT ∉ orig) :
    (∀ frac v, parseDuration frac orig = .ok v ↔ Reads orig v.toInt) ∧
      (¬ Cancels orig ↔ ∀ frac v, parseDuration frac orig = .ok v ↔ Says orig v.toInt) ∧
      (¬ Cancels orig → ∀ (P : Prims) (req : EnclaveSigningRequest) (val : Validated),
        req.validity.bytes = orig → validate P req = .ok val →
          ∃ n, Says orig n ∧ 0 < n ∧ n ≤ 24 * HOUR) := by
  have hreads := fun frac => parseDuration_ok_iff_reads frac hdot
  have hexact : ¬ Cancels orig →
      ∀ frac v, parseDuration frac orig = .ok v ↔ Says orig v.toInt := by
    intro hcancels frac v
    rw [hreads frac v]
    exact ⟨fun h => h.says_or_cancels.resolve_right hcancels, Says.reads⟩
  refine ⟨hreads, ⟨hexact, ?_⟩, ?_⟩
  · intro hall hcancels
    obtain ⟨⟨v, hv⟩, hsays⟩ := hcancels.not_says
    have hok := (hreads (fun _ _ _ => 0) v).mpr hv
    exact hsays _ ((hall _ v).mp hok)
  · intro hcancels P req val hvalidity hvalid
    have hparse := validate_duration P hvalid
    rw [hvalidity] at hparse
    obtain ⟨hpos, hday⟩ := validate_durationNs P hvalid
    refine ⟨val.durationNs.toInt, (hexact hcancels _ _).mp hparse, ?_, ?_⟩
    · exact Int64.lt_iff_toInt_lt.mp hpos
    · exact Int64.le_iff_toInt_le.mp hday

/-- `1h30m`. -/
theorem parse_duration_exact_ninety_minutes :
    DOT ∉ ([0x31, 0x68, 0x33, 0x30, 0x6D] : Octets) ∧
      (∀ frac v, parseDuration frac [0x31, 0x68, 0x33, 0x30, 0x6D] = .ok v ↔
        Reads [0x31, 0x68, 0x33, 0x30, 0x6D] v.toInt) :=
  ⟨by decide, (parse_duration_exact (by decide)).1⟩

/-- `9223372036854775808ns`. -/
def half : Component where
  digits := [0x39, 0x32, 0x32, 0x33, 0x33, 0x37, 0x32, 0x30, 0x33, 0x36,
    0x38, 0x35, 0x34, 0x37, 0x37, 0x35, 0x38, 0x30, 0x38]
  unit := .ns
  digits_ne := by decide
  all_digits := List.all_eq_true.mp rfl

def oneHour : Component where
  digits := [0x31]
  unit := .h
  digits_ne := by decide
  all_digits := List.all_eq_true.mp rfl

/-- `9223372036854775808ns9223372036854775808ns1h` is read as an hour. -/
theorem two_halves_and_an_hour :
    DOT ∉ spelled .absent [half, half, oneHour] ∧
      parseDuration (fun _ _ _ => 0) (spelled .absent [half, half, oneHour]) =
        .ok (Int64.ofNat HOUR) ∧
      ¬ Says (spelled .absent [half, half, oneHour]) (Int64.ofNat HOUR).toInt := by
  have hcancels : Cancels (spelled .absent [half, half, oneHour]) := by
    refine ⟨.absent, [half, half, oneHour], [TWO_63], [HOUR], rfl, by decide, by decide,
      by decide, ?_, by decide⟩
    rw [← runsFrom_zero, runsFrom_cons, runsFrom_nil]
    decide
  exact ⟨by decide, by decide, hcancels.not_says.2 _⟩

end Cap

end PicoSignet.GoDuration
