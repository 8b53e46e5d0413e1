/-
  PicoSignet/Utf8.lean
  ====================
  **Slicing a string at byte offsets.**

  A string slice is taken at byte offsets, and an offset inside a character stops the
  program.  What matters for a scanner that looks for single ASCII bytes: an ASCII byte
  of a string is a character of its own (`IsUtf8.cut`), so the offsets in front of it
  and behind it are boundaries, and what lies on either side is again a string.
-/
import PicoSignet.Checked
import PicoSignet.Proto

set_option autoImplicit false

namespace PicoSignet

open Checked

/-- A continuation byte, `0b10xxxxxx`. -/
def isContinuation (b : UInt8) : Bool := decide (0x80 ≤ b.toNat) && decide (b.toNat < 0xC0)

def isAscii (b : UInt8) : Bool := decide (b.toNat < 0x80)

/-- `str::is_char_boundary`. -/
def isCharBoundary (s : Octets) (i : Nat) : Bool :=
  i == 0 || i == s.length || (match s[i]? with
    | some b => !isContinuation b
    | none => false)

/-- `&s[i..]`. -/
def sliceFrom {ε : Type} (s : Octets) (i : Nat) : Prog ε Octets :=
  if isCharBoundary s i then pure (s.drop i) else stop .bounds

/-- `&s[..i]`. -/
def sliceTo {ε : Type} (s : Octets) (i : Nat) : Prog ε Octets :=
  if isCharBoundary s i then pure (s.take i) else stop .bounds

/-- The bytes of a string. -/
def IsUtf8 (s : Octets) : Prop := ∃ cs : Str, s = cs.bytes

theorem isUtf8_nil : IsUtf8 [] := ⟨[], rfl⟩

theorem Str.isUtf8 (s : Str) : IsUtf8 s.bytes := ⟨s, rfl⟩

/-! ### The bytes of one character -/

theorem toNat_le_or (a b : UInt8) : b.toNat ≤ (a ||| b).toNat := by
  rw [UInt8.toNat_or]
  exact Nat.right_le_or

/-- A character is one ASCII byte, or has none and starts with a byte that is no
    continuation. -/
theorem utf8EncodeChar_cases (c : Char) :
    (∃ b, String.utf8EncodeChar c = [b] ∧ isAscii b = true) ∨
      ∃ b rest, String.utf8EncodeChar c = b :: rest ∧ 0xC0 ≤ b.toNat ∧
        ∀ x ∈ rest, 0x80 ≤ x.toNat := by
  have htail : ∀ a : UInt8, 0x80 ≤ (a ||| 0x80).toNat := fun a => toNat_le_or a 0x80
  rcases c.utf8Size_eq with h | h | h | h
  · refine Or.inl ⟨_, String.utf8EncodeChar_eq_singleton h, ?_⟩
    have hle : c.val.toNat ≤ 127 := UInt32.le_iff_toNat_le.mp (Char.utf8Size_eq_one_iff.mp h)
    apply decide_eq_true
    rw [UInt32.toNat_toUInt8]
    omega
  · refine Or.inr ⟨_, _, String.utf8EncodeChar_eq_cons_cons h, toNat_le_or _ 0xC0, ?_⟩
    simp only [List.forall_mem_cons, htail, true_and]
    exact List.forall_mem_nil _
  · refine Or.inr ⟨_, _, String.utf8EncodeChar_eq_cons_cons_cons h,
      le_trans (by decide) (toNat_le_or _ 0xE0), ?_⟩
    simp only [List.forall_mem_cons, htail, true_and]
    exact List.forall_mem_nil _
  · refine Or.inr ⟨_, _, String.utf8EncodeChar_eq_cons_cons_cons_cons h,
      le_trans (by decide) (toNat_le_or _ 0xF0), ?_⟩
    simp only [List.forall_mem_cons, htail, true_and]
    exact List.forall_mem_nil _

/-- An ASCII byte of a character is all of it. -/
theorem utf8EncodeChar_of_ascii {c : Char} {b : UInt8} (hb : isAscii b = true)
    (h : b ∈ String.utf8EncodeChar c) : String.utf8EncodeChar c = [b] := by
  have hlt : b.toNat < 0x80 := of_decide_eq_true hb
  rcases utf8EncodeChar_cases c with ⟨b', heq, -⟩ | ⟨b', rest, heq, hhead, htail⟩
  · rw [heq, List.mem_singleton] at h
    rw [heq, h]
  · rw [heq] at h
    rcases List.mem_cons.mp h with rfl | hrest
    · omega
    · exact absurd hlt (not_lt.mpr (htail b hrest))

theorem not_continuation_of_ascii {b : UInt8} (h : isAscii b = true) : isContinuation b = false := by
  have hlt : b.toNat < 0x80 := of_decide_eq_true h
  unfold isContinuation
  rw [decide_eq_false (not_le.mpr hlt), Bool.false_and]

/-! ### Strings from their parts -/

theorem IsUtf8.append {xs ys : Octets} (hx : IsUtf8 xs) (hy : IsUtf8 ys) : IsUtf8 (xs ++ ys) := by
  obtain ⟨cs, rfl⟩ := hx
  obtain ⟨ds, rfl⟩ := hy
  exact ⟨cs ++ ds, List.flatMap_append.symm⟩

/-- An ASCII byte is a character. -/
theorem isUtf8_of_ascii {xs : Octets} (hxs : ∀ b ∈ xs, isAscii b = true) : IsUtf8 xs := by
  induction xs with
  | nil => exact isUtf8_nil
  | cons b xs ih =>
    have hb : b.toNat < 0x80 := of_decide_eq_true (hxs b List.mem_cons_self)
    have hval : (Char.ofNat b.toNat).val.toNat = b.toNat := by
      have hvalid : b.toNat.isValidChar := Or.inl (by omega)
      rw [Char.ofNat, dif_pos hvalid]
      rfl
    have hsize : (Char.ofNat b.toNat).utf8Size = 1 := by
      rw [Char.utf8Size_eq_one_iff, UInt32.le_iff_toNat_le, hval]
      exact Nat.le_of_lt_succ hb
    have hchar : IsUtf8 [b] := by
      refine ⟨[Char.ofNat b.toNat], ?_⟩
      change [b] = String.utf8EncodeChar (Char.ofNat b.toNat) ++ []
      rw [String.utf8EncodeChar_eq_singleton hsize, List.append_nil]
      congr 1
      apply UInt8.toNat_inj.mp
      rw [UInt32.toNat_toUInt8, hval]
      omega
    exact hchar.append (ih fun x hx => hxs x (List.mem_cons_of_mem b hx))

/-! ### Where a string can be cut -/

/-- A string does not start inside a character. -/
theorem IsUtf8.head {b : UInt8} {rest : Octets} (h : IsUtf8 (b :: rest)) :
    isContinuation b = false := by
  obtain ⟨cs, hcs⟩ := h
  cases cs with
  | nil => cases hcs
  | cons c cs =>
    change b :: rest = String.utf8EncodeChar c ++ Str.bytes cs at hcs
    rcases utf8EncodeChar_cases c with ⟨b', heq, hascii⟩ | ⟨b', tail, heq, hhead, -⟩
    · rw [heq] at hcs
      obtain ⟨rfl, -⟩ := List.cons.inj hcs
      exact not_continuation_of_ascii hascii
    · rw [heq] at hcs
      obtain ⟨rfl, -⟩ := List.cons.inj hcs
      unfold isContinuation
      rw [decide_eq_false (not_lt.mpr hhead), Bool.and_false]

/-- Behind an ASCII byte that starts a string there is a string. -/
theorem IsUtf8.tail {b : UInt8} {ys : Octets} (hb : isAscii b = true) (h : IsUtf8 (b :: ys)) :
    IsUtf8 ys := by
  obtain ⟨cs, hcs⟩ := h
  cases cs with
  | nil => cases hcs
  | cons c cs =>
    change b :: ys = String.utf8EncodeChar c ++ Str.bytes cs at hcs
    have hmem : b ∈ String.utf8EncodeChar c := by
      cases hchar : String.utf8EncodeChar c with
      | nil => exact absurd hchar String.utf8EncodeChar_ne_nil
      | cons x rest =>
        rw [hchar] at hcs
        obtain ⟨rfl, -⟩ := List.cons.inj hcs
        exact List.mem_cons_self
    rw [utf8EncodeChar_of_ascii hb hmem] at hcs
    exact ⟨cs, (List.cons.inj hcs).2⟩

/-- A string can be cut in front of an ASCII byte. -/
theorem IsUtf8.cut {xs ys : Octets} {b : UInt8} (hb : isAscii b = true)
    (h : IsUtf8 (xs ++ b :: ys)) : IsUtf8 xs ∧ IsUtf8 (b :: ys) := by
  obtain ⟨cs, hcs⟩ := h
  induction cs generalizing xs with
  | nil => exact absurd hcs (by simp [Str.bytes])
  | cons c cs ih =>
    have hwhole : xs ++ b :: ys = String.utf8EncodeChar c ++ Str.bytes cs := hcs
    rcases List.append_eq_append_iff.mp hwhole with ⟨mid, hchar, hrest⟩ | ⟨mid, hxs, hrest⟩
    · cases mid with
      | nil =>
        -- the character ends just in front of the byte
        rw [List.append_nil] at hchar
        exact ⟨⟨[c], by rw [← hchar]; simp [Str.bytes]⟩, cs, hrest⟩
      | cons x mid =>
        -- the byte is one of the character's, so the character is all of it
        obtain ⟨rfl, -⟩ := List.cons.inj hrest
        rw [utf8EncodeChar_of_ascii hb (by rw [hchar]; simp)] at hchar
        cases xs with
        | nil => exact ⟨isUtf8_nil, c :: cs, hcs⟩
        | cons _ _ => simp at hchar
    · obtain ⟨⟨ds, hds⟩, hys⟩ := ih hrest.symm
      refine ⟨⟨c :: ds, ?_⟩, hys⟩
      rw [hxs, hds]
      rfl

theorem IsUtf8.of_ascii_append {xs ys : Octets} (hxs : ∀ b ∈ xs, isAscii b = true)
    (h : IsUtf8 (xs ++ ys)) : IsUtf8 ys := by
  induction xs with
  | nil => exact h
  | cons b xs ih =>
    apply ih fun x hx => hxs x (List.mem_cons_of_mem b hx)
    exact IsUtf8.tail (hxs b List.mem_cons_self) h

/-- Between two parts of a string, the second of which is a string, there is a boundary. -/
theorem isCharBoundary_append {xs ys : Octets} (h : IsUtf8 ys) :
    isCharBoundary (xs ++ ys) xs.length = true := by
  unfold isCharBoundary
  cases ys with
  | nil => simp
  | cons b ys =>
    rw [List.getElem?_append_right le_rfl, Nat.sub_self, List.getElem?_cons_zero]
    simp [h.head]

theorem sliceFrom_run {ε : Type} {xs ys : Octets} (h : IsUtf8 ys) :
    (sliceFrom (xs ++ ys) xs.length : Prog ε Octets).run = .ok (.ok ys) := by
  unfold sliceFrom
  rw [if_pos (isCharBoundary_append h), List.drop_left]
  rfl

theorem sliceTo_run {ε : Type} {xs ys : Octets} (h : IsUtf8 ys) :
    (sliceTo (xs ++ ys) xs.length : Prog ε Octets).run = .ok (.ok xs) := by
  unfold sliceTo
  rw [if_pos (isCharBoundary_append h), List.take_left]
  rfl

end PicoSignet
