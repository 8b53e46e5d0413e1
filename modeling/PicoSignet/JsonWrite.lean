/-
  PicoSignet/JsonWrite.lean
  =========================
  **Writing JSON, and reading it back.**

  Writers disagree on how they put a character into a string: verbatim, behind a
  backslash, or as four hex digits.  `Spelling` allows all of it, so that one proof
  serves every writer: a spelled string is one token (`Spelling.wf`), and both a
  strict and a lenient reader get the string out of it (`Spelling.unquoted`,
  `Spelling.unquote`).  Numbers are integers in decimal.  A value reads the same inside
  brackets as outside (`takeFrom_within`), which is what makes an object of values a
  value.
-/
import PicoSignet.Json
import PicoSignet.Utf8

set_option autoImplicit false

namespace PicoSignet.Json

/-! ### Automata that do not get stuck -/

section Munch

variable {σ α : Type} {step : σ → α → Option σ}

/-- What takes the automaton from one state to another is taken. -/
theorem munch_foldlM {q q' : σ} {as : List α} (h : as.foldlM step q = some q') (rest : List α) :
    munch step q (as ++ rest) =
      ((munch step q' rest).1, as ++ (munch step q' rest).2.1, (munch step q' rest).2.2) := by
  induction as generalizing q with
  | nil =>
    cases h
    rfl
  | cons a as ih =>
    rw [List.foldlM_cons] at h
    obtain ⟨q₁, hstep, hrest⟩ := Option.bind_eq_some_iff.mp h
    rw [List.cons_append, munch, hstep]
    simp [ih hrest]

end Munch

/-! ### Strings -/

/-- The letters that may follow a backslash, without the `u`. -/
def shortEscapes : Octets := [0x22, 0x5C, 0x2F, 0x62, 0x66, 0x6E, 0x72, 0x74]

/-- The ways to put a character into a string. -/
inductive Spells (c : Char) : Octets → Prop
  | verbatim (hquote : c ≠ Char.ofNat 0x22) (hslash : c ≠ Char.ofNat 0x5C)
      (hctrl : 0x20 ≤ c.toNat) : Spells c (String.utf8EncodeChar c)
  | short {b : UInt8} (hb : b ∈ shortEscapes) (hc : unescape b = c) : Spells c [0x5C, b]
  | unit {ds : Octets} (hlen : ds.length = 4) (hhex : ∀ b ∈ ds, isHex b = true)
      (hvalue : hexValues ds = c.toNat) : Spells c (0x5C :: 0x75 :: ds)

/-- The body of a string token, character by character. -/
inductive Spelling : List Char → Octets → Prop
  | nil : Spelling [] []
  | cons {c : Char} {s : List Char} {piece body : Octets} (hc : Spells c piece)
      (hs : Spelling s body) : Spelling (c :: s) (piece ++ body)

theorem Spelling.flatMap {α : Type} {read : α → Char} {write : α → Octets} {xs : List α}
    (h : ∀ x ∈ xs, Spells (read x) (write x)) : Spelling (xs.map read) (xs.flatMap write) := by
  induction xs with
  | nil => exact .nil
  | cons x xs ih =>
    rw [List.forall_mem_cons] at h
    exact .cons h.1 (ih h.2)

/-- A character that needs no escape starts with no quote, backslash or control byte. -/
theorem verbatim_bytes {c : Char} (hquote : c ≠ Char.ofNat 0x22) (hslash : c ≠ Char.ofNat 0x5C)
    (hctrl : 0x20 ≤ c.toNat) :
    ∀ b ∈ String.utf8EncodeChar c, b ≠ 0x22 ∧ b ≠ 0x5C ∧ 0x20 ≤ b := by
  rcases utf8EncodeChar_cases c with ⟨b, heq, hascii⟩ | ⟨b, rest, heq, hhead, htail⟩
  · -- one byte: it is the character
    have hsize : c.utf8Size = 1 := by
      rw [← String.length_utf8EncodeChar, heq]
      rfl
    rw [String.utf8EncodeChar_eq_singleton hsize]
    have hle : c.val.toNat ≤ 127 := UInt32.le_iff_toNat_le.mp (Char.utf8Size_eq_one_iff.mp hsize)
    have hval : c.val.toUInt8.toNat = c.toNat := by
      rw [UInt32.toNat_toUInt8]
      exact Nat.mod_eq_of_lt (by omega)
    have hne : ∀ n : Nat, n < 128 → c ≠ Char.ofNat n → c.val.toUInt8 ≠ UInt8.ofNat n := by
      intro n hn hc heq
      apply hc
      rw [← Char.ofNat_toNat c, ← hval, heq, UInt8.toNat_ofNat', Nat.mod_eq_of_lt (by omega)]
    intro b hb
    rw [List.mem_singleton] at hb
    rw [hb]
    refine ⟨hne 0x22 (by omega) hquote, hne 0x5C (by omega) hslash, ?_⟩
    rw [UInt8.le_iff_toNat_le, hval]
    exact hctrl
  · have hhigh : ∀ b ∈ String.utf8EncodeChar c, 0x80 ≤ b.toNat := by
      rw [heq, List.forall_mem_cons]
      exact ⟨by omega, htail⟩
    intro b hb
    have hb := hhigh b hb
    refine ⟨?_, ?_, UInt8.le_iff_toNat_le.mpr (le_trans (by decide) hb)⟩
    · rintro rfl
      simp at hb
    · rintro rfl
      simp at hb

theorem head_utf8EncodeChar (c : Char) : ∃ b rest, String.utf8EncodeChar c = b :: rest := by
  rcases utf8EncodeChar_cases c with ⟨b, heq, -⟩ | ⟨b, rest, heq, -⟩
  · exact ⟨b, [], heq⟩
  · exact ⟨b, rest, heq⟩

/-- Inside a string, a spelled character leads back to where it started. -/
theorem Spells.steps {c : Char} {piece : Octets} (h : Spells c piece) :
    piece.foldlM Lex.step .text = some .text := by
  cases h with
  | verbatim hquote hslash hctrl =>
    have hbytes := verbatim_bytes hquote hslash hctrl
    generalize String.utf8EncodeChar c = bs at hbytes
    induction bs with
    | nil => rfl
    | cons b bs ih =>
      rw [List.forall_mem_cons] at hbytes
      obtain ⟨⟨hq, hs, hc⟩, hrest⟩ := hbytes
      have hstep : Lex.text.step b = some .text := by
        simp [Lex.step, hq, hs, UInt8.not_lt.mpr hc]
      rw [List.foldlM_cons, hstep]
      exact ih hrest
  | @short b hb hc =>
    have hmem : [0x22, 0x5C, 0x2F, 0x62, 0x66, 0x6E, 0x72, 0x74].contains b = true := by
      simpa [shortEscapes] using hb
    have hstep : Lex.escape.step b = some .text := by simp only [Lex.step, hmem, if_true]
    rw [List.foldlM_cons, show Lex.text.step 0x5C = some .escape from rfl]
    simp [hstep]
  | @unit ds hlen hhex hvalue =>
    obtain ⟨b₁, b₂, b₃, b₄, rfl⟩ := List.length_eq_four.mp hlen
    simp only [List.forall_mem_cons] at hhex
    obtain ⟨h₁, h₂, h₃, h₄, -⟩ := hhex
    simp [List.foldlM_cons, Lex.step, h₁, h₂, h₃, h₄]

/-- Up to its closing quote a spelled string is one token. -/
theorem Spelling.munch_body {s : List Char} {body : Octets} (h : Spelling s body) :
    munch Lex.step .text (body ++ [0x22]) = (.closed, body ++ [0x22], []) := by
  induction h with
  | nil => rfl
  | cons hc hs ih => rw [List.append_assoc, munch_foldlM hc.steps, ih]

/-- The token of a string with this body. -/
def stringToken (body : Octets) : Token := .atom .string (0x22 :: (body ++ [0x22]))

theorem Spelling.wf {s : List Char} {body : Octets} (h : Spelling s body) : (stringToken body).Wf :=
  ⟨0x22, _, .text, .closed, rfl, by decide, by decide, by decide, h.munch_body, rfl⟩

/-- The first character of a string body, for a reader that refuses what does not
    decode. -/
def strictChar (bs : Octets) : Option (Char × Nat) :=
  match codeUnit bs with
  | some hi =>
    if 0xD800 ≤ hi ∧ hi < 0xE000 then
      ((codeUnit (bs.drop 6)).bind (surrogatePair hi)).map fun c => (c, 12)
    else some (Char.ofNat hi, 6)
  | none =>
    match bs with
    | [] => none
    | b :: rest =>
      if b = 0x5C then some (unescape (rest.headD 0), 2)
      else if b < 0x80 then some (Char.ofNat b.toNat, 1)
      else ((bs.take 4).toByteArray.utf8DecodeChar? 0).map fun c => (c, c.utf8Size)

theorem firstChar_of_strict {bs : Octets} {r : Char × Nat} (h : strictChar bs = some r) :
    firstChar bs = r := by
  unfold strictChar at h
  unfold firstChar
  cases hunit : codeUnit bs with
  | some hi =>
    simp only [hunit] at h ⊢
    by_cases hsurrogate : 0xD800 ≤ hi ∧ hi < 0xE000
    · rw [if_pos hsurrogate] at h ⊢
      obtain ⟨c, hc, rfl⟩ := Option.map_eq_some_iff.mp h
      rw [hc]
    · rw [if_neg hsurrogate] at h ⊢
      exact Option.some.inj h
  | none =>
    simp only [hunit] at h ⊢
    cases bs with
    | nil => cases h
    | cons b rest =>
      dsimp only at h ⊢
      by_cases hslash : b = 0x5C
      · rw [if_pos hslash] at h ⊢
        exact Option.some.inj h
      rw [if_neg hslash] at h ⊢
      by_cases hascii : b < 0x80
      · rw [if_pos hascii] at h ⊢
        exact Option.some.inj h
      rw [if_neg hascii] at h ⊢
      obtain ⟨c, hc, rfl⟩ := Option.map_eq_some_iff.mp h
      rw [hc]

def strictUpTo : (fuel : Nat) → Octets → Option (List Char)
  | _, [] => some []
  | 0, _ :: _ => none
  | fuel + 1, bs@(_ :: _) =>
    match strictChar bs with
    | none => none
    | some (c, width) => (strictUpTo fuel (bs.drop width)).map (c :: ·)

/-- `unquote` for a reader that refuses what does not decode. -/
def unquoteStrict (raw : Octets) : Option (List Char) := strictUpTo raw.length (raw.drop 1).dropLast

/-- A reader gets the character, whatever follows it. -/
theorem Spells.strict {c : Char} {piece : Octets} (h : Spells c piece) (rest : Octets) :
    strictChar (piece ++ rest) = some (c, piece.length) := by
  cases h with
  | verbatim hquote hslash hctrl =>
    obtain ⟨b, more, heq⟩ := head_utf8EncodeChar c
    have hbytes := verbatim_bytes hquote hslash hctrl
    have hb : b ≠ 0x5C := (hbytes b (by rw [heq]; exact List.mem_cons_self)).2.1
    have hunit : codeUnit (String.utf8EncodeChar c ++ rest) = none := by
      unfold codeUnit
      rw [heq, if_neg]
      rintro ⟨htake, -⟩
      cases more <;> simp_all
    unfold strictChar
    rw [hunit, heq]
    simp only [List.cons_append, hb, if_false]
    by_cases hascii : b < 0x80
    · -- an ASCII byte is the whole character
      have hone := utf8EncodeChar_of_ascii (c := c) (decide_eq_true (UInt8.lt_iff_toNat_lt.mp hascii))
        (by rw [heq]; exact List.mem_cons_self)
      have hsize : c.utf8Size = 1 := by
        rw [← String.length_utf8EncodeChar, hone]
        rfl
      have hval : b = c.val.toUInt8 := by
        rw [String.utf8EncodeChar_eq_singleton hsize] at hone
        exact (List.singleton_inj.mp hone).symm
      have hle : c.val.toNat ≤ 127 := UInt32.le_iff_toNat_le.mp (Char.utf8Size_eq_one_iff.mp hsize)
      have hnat : b.toNat = c.toNat := by
        rw [hval, UInt32.toNat_toUInt8]
        exact Nat.mod_eq_of_lt (by omega)
      have hmore : more = [] := by
        rw [heq] at hone
        exact (List.cons.inj hone).2
      simp [hascii, hnat, hmore]
    · rw [if_neg hascii, ← List.cons_append, ← heq]
      have hlen : (String.utf8EncodeChar c).length ≤ 4 := by
        rw [String.length_utf8EncodeChar]
        exact c.utf8Size_le_four
      rw [List.take_append, List.take_of_length_le hlen, List.toByteArray_append,
        ByteArray.utf8DecodeChar?_utf8EncodeChar_append, String.length_utf8EncodeChar]
      rfl
  | @short b hb hc =>
    have hne : b ≠ 0x75 := by
      rintro rfl
      simp [shortEscapes] at hb
    have hunit : codeUnit ([0x5C, b] ++ rest) = none := by
      unfold codeUnit
      rw [if_neg]
      rintro ⟨htake, -⟩
      simp [hne] at htake
    unfold strictChar
    rw [hunit]
    simp [hc]
  | @unit ds hlen hhex hvalue =>
    have hunit : codeUnit (0x5C :: 0x75 :: ds ++ rest) = some c.toNat := by
      unfold codeUnit
      have htake : (ds ++ rest).take 4 = ds := by
        rw [← hlen, List.take_left']
        rfl
      rw [if_pos]
      · simp [htake, hvalue]
      · constructor
        · rfl
        · simp [hlen]
    have hplain : ¬ (0xD800 ≤ c.toNat ∧ c.toNat < 0xE000) := by
      rcases c.valid with hlow | ⟨hhigh, -⟩
      · have hlow : c.toNat < 0xD800 := hlow
        omega
      · have hhigh : 0xDFFF < c.toNat := hhigh
        omega
    unfold strictChar
    rw [hunit]
    simp [hplain, hlen]

theorem Spells.ne_nil {c : Char} {piece : Octets} (h : Spells c piece) : piece ≠ [] := by
  cases h with
  | verbatim => obtain ⟨b, rest, heq⟩ := head_utf8EncodeChar c; simp [heq]
  | short => simp
  | unit => simp

theorem Spelling.strict {s : List Char} {body : Octets} (h : Spelling s body) {fuel : Nat}
    (hfuel : body.length ≤ fuel) : strictUpTo fuel body = some s := by
  induction h generalizing fuel with
  | nil => cases fuel <;> rfl
  | @cons c s piece body hc hs ih =>
    obtain ⟨b, more, rfl⟩ := List.exists_cons_of_ne_nil hc.ne_nil
    simp only [List.length_append, List.length_cons] at hfuel
    obtain ⟨fuel, rfl⟩ : ∃ n, fuel = n + 1 := ⟨fuel - 1, by omega⟩
    have hchar := hc.strict body
    have hdrop : (b :: more ++ body).drop (b :: more).length = body := List.drop_left
    simp only [List.cons_append] at hchar hdrop ⊢
    rw [strictUpTo, hchar]
    dsimp only
    rw [hdrop, ih (by omega)]
    rfl

theorem unquoteUpTo_of_strict {fuel : Nat} {bs : Octets} {s : List Char}
    (h : strictUpTo fuel bs = some s) : unquoteUpTo fuel bs = s := by
  induction fuel generalizing bs s with
  | zero =>
    cases bs with
    | nil => cases h; rfl
    | cons b bs => cases h
  | succ fuel ih =>
    cases bs with
    | nil => cases h; rfl
    | cons b bs =>
      rw [strictUpTo] at h
      split at h
      · cases h
      · rename_i c width hchar
        obtain ⟨s', hrest, rfl⟩ := Option.map_eq_some_iff.mp h
        rw [unquoteUpTo, firstChar_of_strict hchar]
        simp [ih hrest]

theorem Spelling.unquoted {s : List Char} {body : Octets} (h : Spelling s body) :
    unquoteStrict (0x22 :: (body ++ [0x22])) = some s := by
  unfold unquoteStrict
  rw [List.drop_one, List.tail_cons, List.dropLast_concat]
  apply h.strict
  simp
  omega

/-- Where the strict reader gets a string, the lenient one gets the same. -/
theorem unquote_of_strict {raw : Octets} {s : List Char} (h : unquoteStrict raw = some s) :
    unquote raw = s := unquoteUpTo_of_strict h

/-! ### Escapes -/

def hexDigitByte (d : Nat) : UInt8 := UInt8.ofNat (if d < 10 then 0x30 + d else 0x57 + d)

/-- A character as `\u` and its four hex digits. -/
def unitEscape (c : Char) : Octets :=
  [0x5C, 0x75, hexDigitByte (c.toNat / 4096 % 16), hexDigitByte (c.toNat / 256 % 16),
    hexDigitByte (c.toNat / 16 % 16), hexDigitByte (c.toNat % 16)]

/-- A control character: by its letter if it has one. -/
def controlEscape (c : Char) : Octets :=
  if c = Char.ofNat 0x08 then [0x5C, 0x62]
  else if c = Char.ofNat 0x09 then [0x5C, 0x74]
  else if c = Char.ofNat 0x0A then [0x5C, 0x6E]
  else if c = Char.ofNat 0x0C then [0x5C, 0x66]
  else if c = Char.ofNat 0x0D then [0x5C, 0x72]
  else unitEscape c

/-- The escapes that every string needs. -/
def escapeChar (c : Char) : Octets :=
  if c = Char.ofNat 0x22 then [0x5C, 0x22]
  else if c = Char.ofNat 0x5C then [0x5C, 0x5C]
  else if c.toNat < 0x20 then controlEscape c
  else String.utf8EncodeChar c

theorem isHex_hexDigitByte : ∀ d < 16, isHex (hexDigitByte d) = true := by decide

theorem hexValue_hexDigitByte : ∀ d < 16, hexValue (hexDigitByte d) = d := by decide

theorem spells_unitEscape {c : Char} (h : c.toNat < 65536) : Spells c (unitEscape c) := by
  have hlt : ∀ n : Nat, n % 16 < 16 := fun n => Nat.mod_lt n (by norm_num)
  apply Spells.unit
  · rfl
  · intro b hb
    simp only [List.mem_cons, List.not_mem_nil, or_false] at hb
    rcases hb with rfl | rfl | rfl | rfl <;> exact isHex_hexDigitByte _ (hlt _)
  · simp only [hexValues, List.foldl_cons, List.foldl_nil, hexValue_hexDigitByte _ (hlt _)]
    omega

theorem spells_controlEscape {c : Char} (h : c.toNat < 0x20) : Spells c (controlEscape c) := by
  unfold controlEscape
  split_ifs with h₁ h₂ h₃ h₄ h₅
  · exact .short (by decide) (by rw [h₁]; decide)
  · exact .short (by decide) (by rw [h₂]; decide)
  · exact .short (by decide) (by rw [h₃]; decide)
  · exact .short (by decide) (by rw [h₄]; decide)
  · exact .short (by decide) (by rw [h₅]; decide)
  · exact spells_unitEscape (by omega)

theorem spells_escapeChar (c : Char) : Spells c (escapeChar c) := by
  unfold escapeChar
  split_ifs with hquote hslash hctrl
  · exact .short (by decide) (by rw [hquote]; decide)
  · exact .short (by decide) (by rw [hslash]; decide)
  · exact spells_controlEscape hctrl
  · exact .verbatim hquote hslash (not_lt.mp hctrl)

/-! ### Numbers -/

def decimalDigit (d : Nat) : UInt8 := UInt8.ofNat (0x30 + d)

/-- A number in decimal, without leading zeros. -/
def decimal (n : Nat) : Octets :=
  if n = 0 then [0x30] else (Nat.digits 10 n).reverse.map decimalDigit

def integer (n : Int) : Octets := if n < 0 then 0x2D :: decimal n.natAbs else decimal n.natAbs

def decimalValue (ds : Octets) : Nat := ds.foldl (fun n b => n * 10 + (b.toNat - 0x30)) 0

/-- Digits, and nothing else. -/
def readNat (raw : Octets) : Option Nat :=
  if raw ≠ [] ∧ raw.all isDigit = true then some (decimalValue raw) else none

/-- A number without a fraction or an exponent. -/
def readInteger : Octets → Option Int
  | [] => none
  | b :: ds =>
    if b = 0x2D then (readNat ds).map fun n : Nat => -(n : Int) else (readNat (b :: ds)).map Int.ofNat

theorem toNat_decimalDigit {d : Nat} (h : d < 10) : (decimalDigit d).toNat = 0x30 + d := by
  unfold decimalDigit
  rw [UInt8.toNat_ofNat']
  omega

theorem isDigit_decimalDigit {d : Nat} (h : d < 10) : isDigit (decimalDigit d) = true := by
  simp only [isDigit, Bool.and_eq_true, decide_eq_true_eq, UInt8.le_iff_toNat_le,
    toNat_decimalDigit h]
  exact ⟨Nat.le_add_right _ _, show 0x30 + d ≤ 0x39 by omega⟩

theorem decimalValue_digits {ds : List Nat} (h : ∀ d ∈ ds, d < 10) :
    decimalValue (ds.reverse.map decimalDigit) = Nat.ofDigits 10 ds := by
  induction ds with
  | nil => rfl
  | cons d ds ih =>
    rw [List.forall_mem_cons] at h
    have ih := ih h.2
    unfold decimalValue at ih ⊢
    rw [List.reverse_cons, List.map_append, List.foldl_append, ih]
    simp only [List.map_cons, List.map_nil, List.foldl_cons, List.foldl_nil,
      toNat_decimalDigit h.1, Nat.ofDigits_cons]
    omega

/-- Zero, or digits of which the first is not zero. -/
theorem decimal_cases (n : Nat) :
    decimal n = [0x30] ∨ ∃ b ds, decimal n = b :: ds ∧ isDigit b = true ∧ b ≠ 0x30 ∧
      ∀ x ∈ ds, isDigit x = true := by
  unfold decimal
  by_cases hzero : n = 0
  · simp [hzero]
  rw [if_neg hzero]
  have hne : Nat.digits 10 n ≠ [] := Nat.digits_ne_nil_iff_ne_zero.mpr hzero
  have hlt : ∀ d ∈ Nat.digits 10 n, d < 10 := fun d hd => Nat.digits_lt_base (by norm_num) hd
  have hlast := Nat.getLast_digit_ne_zero 10 hzero
  refine Or.inr ⟨decimalDigit ((Nat.digits 10 n).getLast hne),
    (Nat.digits 10 n).dropLast.reverse.map decimalDigit, ?_, ?_, ?_, ?_⟩
  · conv_lhs => rw [← List.dropLast_append_getLast hne]
    simp
  · exact isDigit_decimalDigit (hlt _ (List.getLast_mem hne))
  · intro heq
    have htop := hlt _ (List.getLast_mem hne)
    have hnat := congrArg UInt8.toNat heq
    rw [toNat_decimalDigit htop] at hnat
    exact hlast (by simpa using hnat)
  · intro x hx
    obtain ⟨d, hd, rfl⟩ := List.mem_map.mp hx
    exact isDigit_decimalDigit (hlt d (List.dropLast_subset _ (List.mem_reverse.mp hd)))

theorem decimalValue_decimal (n : Nat) : decimalValue (decimal n) = n := by
  unfold decimal
  by_cases hzero : n = 0
  · simp [hzero, decimalValue]
  · rw [if_neg hzero, decimalValue_digits fun d hd => Nat.digits_lt_base (by norm_num) hd,
      Nat.ofDigits_digits]

theorem readNat_decimal (n : Nat) : readNat (decimal n) = some n := by
  unfold readNat
  rw [if_pos, decimalValue_decimal]
  rcases decimal_cases n with h | ⟨b, ds, h, hb, -, hds⟩
  · simp [h, isDigit]
  · rw [h, List.all_eq_true, List.forall_mem_cons]
    exact ⟨List.cons_ne_nil b ds, hb, hds⟩

theorem readInteger_integer (n : Int) : readInteger (integer n) = some n := by
  unfold integer
  by_cases hneg : n < 0
  · rw [if_pos hneg, readInteger, if_pos rfl, readNat_decimal, Option.map_some]
    congr 1
    omega
  · rw [if_neg hneg]
    have hread := readNat_decimal n.natAbs
    have hnat : ((n.natAbs : Nat) : Int) = n := by omega
    rcases decimal_cases n.natAbs with h | ⟨b, ds, h, hb, -, hds⟩
    · rw [h] at hread ⊢
      rw [readInteger, if_neg (by decide), hread]
      simpa using hnat
    · rw [h] at hread ⊢
      have hminus : b ≠ 0x2D := by
        rintro rfl
        simp [isDigit] at hb
      rw [readInteger, if_neg hminus, hread]
      simpa using hnat

theorem steps_digits {ds : Octets} (h : ∀ b ∈ ds, isDigit b = true) :
    ds.foldlM Lex.step .int = some .int := by
  induction ds with
  | nil => rfl
  | cons b ds ih =>
    rw [List.forall_mem_cons] at h
    rw [List.foldlM_cons, show Lex.int.step b = some .int by simp [Lex.step, h.1]]
    exact ih h.2

theorem digit_ne {b c : UInt8} (h : isDigit b = true) (hc : isDigit c = false) : b ≠ c := by
  rintro rfl
  rw [h] at hc
  cases hc

theorem start_digit {b : UInt8} (h : isDigit b = true) (hzero : b ≠ 0x30) :
    start b = some (.number, .int) := by
  have hquote : b ≠ 0x22 := digit_ne h (by decide)
  have hminus : b ≠ 0x2D := digit_ne h (by decide)
  simp [start, hquote, hminus, hzero, h]

theorem digit_plain {b : UInt8} (h : isDigit b = true) :
    isSpace b = false ∧ Punct.ofByte b = none := by
  have hspace : b ≠ 0x20 ∧ b ≠ 0x09 ∧ b ≠ 0x0A ∧ b ≠ 0x0D :=
    ⟨digit_ne h (by decide), digit_ne h (by decide), digit_ne h (by decide), digit_ne h (by decide)⟩
  have hbracket : b ≠ 0x7B ∧ b ≠ 0x7D ∧ b ≠ 0x5B ∧ b ≠ 0x5D :=
    ⟨digit_ne h (by decide), digit_ne h (by decide), digit_ne h (by decide), digit_ne h (by decide)⟩
  have hcolon : b ≠ 0x3A := digit_ne h (by decide)
  have hcomma : b ≠ 0x2C := digit_ne h (by decide)
  simp [isSpace, Punct.ofByte, hspace, hbracket, hcolon, hcomma]

theorem munch_number {q : Lex} {ds : Octets} {q' : Lex} (h : ds.foldlM Lex.step q = some q') :
    munch Lex.step q ds = (q', ds, []) := by
  have hmunch := munch_foldlM h []
  rw [List.append_nil] at hmunch
  rw [hmunch]
  simp [munch]

theorem integer_wf (n : Int) : (Token.atom .number (integer n)).Wf := by
  unfold integer
  by_cases hneg : n < 0
  · rw [if_pos hneg]
    rcases decimal_cases n.natAbs with h | ⟨b, ds, h, hb, hzero, hds⟩
    · rw [h]
      exact ⟨0x2D, [0x30], .minus, .zero, rfl, by decide, by decide, by decide, rfl, rfl⟩
    · rw [h]
      refine ⟨0x2D, b :: ds, .minus, .int, rfl, by decide, by decide, by decide, ?_, rfl⟩
      apply munch_number
      rw [List.foldlM_cons, show Lex.minus.step b = some .int by simp [Lex.step, hzero, hb]]
      exact steps_digits hds
  · rw [if_neg hneg]
    rcases decimal_cases n.natAbs with h | ⟨b, ds, h, hb, hzero, hds⟩
    · rw [h]
      exact ⟨0x30, [], .zero, .zero, rfl, by decide, by decide, by decide, rfl, rfl⟩
    · obtain ⟨hspace, hpunct⟩ := digit_plain hb
      rw [h]
      exact ⟨b, ds, .int, .int, rfl, hspace, hpunct, start_digit hb hzero,
        munch_number (steps_digits hds), rfl⟩

/-! ### Words -/

def rawTrue : Octets := [0x74, 0x72, 0x75, 0x65]

def rawFalse : Octets := [0x66, 0x61, 0x6C, 0x73, 0x65]

def rawNull : Octets := [0x6E, 0x75, 0x6C, 0x6C]

theorem bool_wf (b : Bool) : (Token.atom .word (if b then rawTrue else rawFalse)).Wf := by
  cases b
  · exact ⟨0x66, _, .word [0x61, 0x6C, 0x73, 0x65], .word [], rfl, by decide, by decide, by decide,
      by decide, rfl⟩
  · exact ⟨0x74, _, .word [0x72, 0x75, 0x65], .word [], rfl, by decide, by decide, by decide,
      by decide, rfl⟩

/-! ### Values within brackets -/

/-- A move with more brackets open around it. -/
def Move.within (outer : List Frame) : Move → Move
  | .go stack want => .go (stack ++ outer) want
  | .done => Move.behind outer

theorem behind_within (stack : List Frame) (outer : List Frame) :
    Move.behind (stack ++ outer) = (Move.behind stack).within outer := by
  cases stack <;> rfl

theorem close_within {frame : Frame} {stack : List Frame} {m : Move} (outer : List Frame)
    (h : close frame stack = some m) : close frame (stack ++ outer) = some (m.within outer) := by
  cases stack with
  | nil => cases h
  | cons top stack =>
    simp only [close] at h
    split at h
    · rename_i htop
      cases h
      simp [close, htop, behind_within]
    · cases h

theorem enter_within {stack : List Frame} {t : Token} {m : Move} (outer : List Frame)
    (h : enter stack t = some m) : enter (stack ++ outer) t = some (m.within outer) := by
  unfold enter at h
  split at h
  · cases h
    simp [enter, behind_within]
  · cases h
    rfl
  · cases h
    rfl
  · cases h

theorem readKey_within {stack : List Frame} {t : Token} {m : Move} (outer : List Frame)
    (h : readKey stack t = some m) : readKey (stack ++ outer) t = some (m.within outer) := by
  unfold readKey at h
  split at h
  · cases h
    rfl
  · cases h

theorem advance_within {stack : List Frame} {want : Want} {t : Token} {m : Move}
    (outer : List Frame) (h : advance stack want t = some m) :
    advance (stack ++ outer) want t = some (m.within outer) := by
  cases want with
  | value => exact enter_within outer h
  | firstValue =>
    simp only [advance] at h ⊢
    by_cases ht : t = .punct .rbrack
    · rw [if_pos ht] at h ⊢
      exact close_within outer h
    · rw [if_neg ht] at h ⊢
      exact enter_within outer h
  | key => exact readKey_within outer h
  | firstKey =>
    simp only [advance] at h ⊢
    by_cases ht : t = .punct .rbrace
    · rw [if_pos ht] at h ⊢
      exact close_within outer h
    · rw [if_neg ht] at h ⊢
      exact readKey_within outer h
  | colon =>
    simp only [advance] at h ⊢
    by_cases ht : t = .punct .colon
    · rw [if_pos ht] at h ⊢
      cases h
      rfl
    · rw [if_neg ht] at h
      cases h
  | next =>
    cases t with
    | atom kind raw => cases h
    | bad => cases h
    | punct p =>
      cases p with
      | comma =>
        cases stack with
        | nil => cases h
        | cons top stack => cases top <;> cases h <;> rfl
      | rbrack => exact close_within outer h
      | rbrace => exact close_within outer h
      | _ => cases h

/-- A value that was read on its own is read the same way within brackets. -/
theorem takeFrom_within {stack : List Frame} {want : Want} {ts v : List Token} (outer : List Frame)
    (houter : outer ≠ []) (h : takeFrom stack want ts = some (v, [])) (rest : List Token) :
    takeFrom (stack ++ outer) want (v ++ rest) =
      (takeFrom outer .next rest).map fun r => (v ++ r.1, r.2) := by
  induction ts generalizing stack want v with
  | nil => cases h
  | cons t ts ih =>
    rw [takeFrom] at h
    split at h
    · cases h
    · rename_i hmove
      cases h
      have hnext : Move.behind outer = .go outer .next := by
        cases outer with
        | nil => exact absurd rfl houter
        | cons => rfl
      rw [List.cons_append, takeFrom, advance_within outer hmove, Move.within, hnext]
      dsimp only
      rw [List.nil_append]
      cases takeFrom outer .next rest <;> rfl
    · rename_i stack' want' hmove
      split at h
      · cases h
      · rename_i taken rest₁ hrest
        cases h
        rw [List.cons_append, takeFrom, advance_within outer hmove, Move.within]
        dsimp only
        rw [ih hrest]
        cases takeFrom outer .next rest <;> rfl

section Objects

variable {ms : List (Octets × List Token)}

/-- Behind a value of an object, the members that follow are read to its end. -/
theorem takeFrom_moreTokens (hms : ∀ m ∈ ms, takeValue m.2 = some (m.2, [])) (rest : List Token) :
    takeFrom [.obj] .next (moreTokens ms ++ .punct .rbrace :: rest) =
      some (moreTokens ms ++ [.punct .rbrace], rest) := by
  induction ms with
  | nil => rfl
  | cons m ms ih =>
    rw [List.forall_mem_cons] at hms
    have hvalue := takeFrom_within [.obj] (by simp) hms.1
      (moreTokens ms ++ .punct .rbrace :: rest)
    rw [ih hms.2] at hvalue
    simp only [List.nil_append] at hvalue
    simp [moreTokens, memberTokens, takeFrom, advance, readKey] at hvalue ⊢
    simp [hvalue]

/-- The tokens of an object are a value. -/
theorem takeValue_objectTokens (hms : ∀ m ∈ ms, takeValue m.2 = some (m.2, []))
    (rest : List Token) :
    takeValue (objectTokens ms ++ rest) = some (objectTokens ms, rest) := by
  cases ms with
  | nil => rfl
  | cons m ms =>
    rw [List.forall_mem_cons] at hms
    have hvalue := takeFrom_within [.obj] (by simp) hms.1
      (moreTokens ms ++ .punct .rbrace :: rest)
    rw [takeFrom_moreTokens hms.2 rest] at hvalue
    simp only [List.nil_append] at hvalue
    simp [takeValue, objectTokens, memberTokens, takeFrom, advance, enter, readKey, hvalue]

/-- The members of an object that is a value. -/
def members : List Token → Option (List (List Char × List Token))
  | .punct .lbrace :: ts => membersUpTo ts.length true ts
  | _ => none

theorem members_objectTokens (hms : ∀ m ∈ ms, ∀ rest, takeValue (m.2 ++ rest) = some (m.2, rest)) :
    members (objectTokens ms) = some (ms.map fun m => (unquote m.1, m.2)) := by
  obtain ⟨ts, hts⟩ := objectTokens_lbrace ms
  rw [hts, members]
  exact membersUpTo_objectTokens hms hts

end Objects

end PicoSignet.Json
