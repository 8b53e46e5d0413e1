/-
  PicoSignet/Wire.lean
  ====================
  **Length-prefixed wire formats.**

  A wire format is given by a parser over the bytes that are left.  `Reads p bs a`
  says that `p` takes exactly `bs` off any input that starts with it and reads it as
  `a`; the rules for it follow the structure of a grammar — sequence, fixed-width
  integers, framed strings, a list of items up to the end of its frame — so that a
  round trip is proved along the encoder.
-/
import PicoSignet.Words

set_option autoImplicit false

namespace PicoSignet.Wire

variable {α β : Type}

/-! ### Big-endian integers, read -/

theorem beNat_concat (bytes : Octets) (b : UInt8) :
    beNat (bytes ++ [b]) = beNat bytes * 256 + b.toNat := by
  unfold beNat
  rw [List.foldl_append]
  rfl

theorem beNat_append (bytes bytes' : Octets) :
    beNat (bytes ++ bytes') = beNat bytes * 256 ^ bytes'.length + beNat bytes' := by
  induction bytes' using List.reverseRecOn with
  | nil => simp [beNat]
  | append_singleton bytes' b ih =>
    rw [← List.append_assoc, beNat_concat, ih, beNat_concat, List.length_append,
      List.length_singleton, pow_succ]
    ring

theorem beNat_cons (b : UInt8) (bytes : Octets) :
    beNat (b :: bytes) = b.toNat * 256 ^ bytes.length + beNat bytes := by
  have happend := beNat_append [b] bytes
  have hone : beNat [b] = b.toNat := by simp [beNat]
  rw [hone] at happend
  exact happend

/-- The bytes of a number do not depend on what is above them. -/
theorem beBytes_add_mul (width n k : Nat) : beBytes width (n + k * 256 ^ width) = beBytes width n := by
  induction width generalizing k with
  | zero => rfl
  | succ width ih =>
    have hshift : n + k * 256 ^ (width + 1) = n + k * 256 * 256 ^ width := by rw [pow_succ]; ring
    have hhead : UInt8.ofNat ((n + k * 256 * 256 ^ width) / 256 ^ width) =
        UInt8.ofNat (n / 256 ^ width) := by
      rw [Nat.add_mul_div_right _ _ (by positivity)]
      apply UInt8.toNat_inj.mp
      rw [UInt8.toNat_ofNat', UInt8.toNat_ofNat']
      omega
    unfold beBytes
    rw [hshift, hhead, ih]

/-- Every byte string is the big-endian form of the number it spells. -/
theorem beBytes_beNat (bytes : Octets) : beBytes bytes.length (beNat bytes) = bytes := by
  induction bytes with
  | nil => rfl
  | cons b bytes ih =>
    have hlt := beNat_lt bytes
    have hhead : beNat (b :: bytes) / 256 ^ bytes.length = b.toNat := by
      rw [beNat_cons, Nat.add_comm, Nat.add_mul_div_right _ _ (by positivity),
        Nat.div_eq_of_lt hlt, Nat.zero_add]
    rw [List.length_cons]
    unfold beBytes
    rw [hhead, beNat_cons, Nat.add_comm, beBytes_add_mul, ih, UInt8.ofNat_toNat]

/-! ### Parsers -/

/-- A parser of the bytes that are left. -/
abbrev Parser (α : Type) := StateT Octets Option α

/-- Refuses the input. -/
def refuse : Parser α := fun _ => none

/-- `count` bytes. -/
def bytes (count : Nat) : Parser Octets := fun bs =>
  if bs.length < count then none else some (bs.take count, bs.drop count)

/-- A big-endian integer of `width` bytes. -/
def uint (width : Nat) : Parser Nat := do return beNat (← bytes width)

/-- A string behind its 32-bit length. -/
def string : Parser Octets := do bytes (← uint 4)

/-- A string whose content is parsed to its end. -/
def framed (p : Octets → Option α) : Parser α := fun bs =>
  match string bs with
  | none => none
  | some (s, rest) =>
    match p s with
    | none => none
    | some a => some (a, rest)

/-- `count` items. -/
def times (p : Parser α) : (count : Nat) → Parser (List α)
  | 0 => pure []
  | count + 1 => do
    let a ← p
    let as ← times p count
    return a :: as

/-- Up to `fuel` items, until the input ends. -/
def items (p : Parser α) : (fuel : Nat) → Octets → Option (List α)
  | _, [] => some []
  | 0, _ :: _ => none
  | fuel + 1, bs@(_ :: _) =>
    match p bs with
    | none => none
    | some (a, rest) =>
      match items p fuel rest with
      | none => none
      | some as => some (a :: as)

/-- A list of items that fills its input; every item takes a byte at least. -/
def all (p : Parser α) (bs : Octets) : Option (List α) := items p bs.length bs

/-- What `p` makes of an input it consumes to the end. -/
def whole (p : Parser α) (bs : Octets) : Option α :=
  match p bs with
  | some (a, []) => some a
  | _ => none

/-! ### Reading what was written -/

/-- `s` behind its length. -/
def frame (s : Octets) : Octets := beBytes 4 s.length ++ s

@[simp] theorem length_frame (s : Octets) : (frame s).length = 4 + s.length := by
  unfold frame
  rw [List.length_append, length_beBytes]

/-- `p` takes `bs` off the input and reads it as `a`. -/
def Reads (p : Parser α) (bs : Octets) (a : α) : Prop := ∀ rest, p (bs ++ rest) = some (a, rest)

theorem Reads.whole {p : Parser α} {bs : Octets} {a : α} (h : Reads p bs a) :
    whole p bs = some a := by
  have hend := h []
  rw [List.append_nil] at hend
  unfold Wire.whole
  rw [hend]

theorem reads_pure (a : α) : Reads (pure a) [] a := fun _ => rfl

theorem Reads.bind {p : Parser α} {f : α → Parser β} {bs cs : Octets} {a : α} {b : β}
    (hp : Reads p bs a) (hf : Reads (f a) cs b) : Reads (p >>= f) (bs ++ cs) b := by
  intro rest
  have hstep : (p >>= f) (bs ++ (cs ++ rest)) = f a (cs ++ rest) := by
    change (p (bs ++ (cs ++ rest))).bind (fun x => f x.1 x.2) = _
    rw [hp (cs ++ rest)]
    rfl
  rw [List.append_assoc, hstep]
  exact hf rest

/-- The last step of a grammar. -/
theorem Reads.map {p : Parser α} {f : α → β} {bs : Octets} {a : α} (hp : Reads p bs a) :
    Reads (p >>= fun x => pure (f x)) bs (f a) := by
  have hboth := hp.bind (f := fun x => pure (f x)) (reads_pure (f a))
  rw [List.append_nil] at hboth
  exact hboth

theorem reads_bytes (bs : Octets) : Reads (bytes bs.length) bs bs := by
  intro rest
  unfold bytes
  rw [if_neg (by simp), List.take_left, List.drop_left]

theorem reads_uint {width n : Nat} (h : n < 256 ^ width) : Reads (uint width) (beBytes width n) n := by
  have hread := (reads_bytes (beBytes width n)).map (f := beNat)
  rw [length_beBytes, beNat_beBytes, Nat.mod_eq_of_lt h] at hread
  exact hread

theorem reads_string {s : Octets} (h : s.length < 2 ^ 32) : Reads string (frame s) s :=
  (reads_uint (by norm_num; omega)).bind (reads_bytes s)

theorem reads_framed {p : Octets → Option α} {s : Octets} {a : α} (h : s.length < 2 ^ 32)
    (hp : p s = some a) : Reads (framed p) (frame s) a := by
  intro rest
  unfold framed
  rw [reads_string h rest]
  dsimp only
  rw [hp]

theorem reads_times {p : Parser α} {encode : β → Octets} {f : β → α} {xs : List β}
    (hread : ∀ x ∈ xs, Reads p (encode x) (f x)) :
    Reads (times p xs.length) (xs.flatMap encode) (xs.map f) := by
  induction xs with
  | nil => exact reads_pure []
  | cons x xs ih =>
    obtain ⟨hhere, hthere⟩ := List.forall_mem_cons.mp hread
    rw [List.flatMap_cons]
    exact hhere.bind (ih hthere).map

theorem bytes_eq_some {count : Nat} {bs s rest : Octets} (h : bytes count bs = some (s, rest)) :
    s.length = count ∧ bs = s ++ rest := by
  unfold bytes at h
  split at h
  · cases h
  · rename_i hlong
    cases h
    refine ⟨?_, (List.take_append_drop count bs).symm⟩
    rw [List.length_take]
    omega

theorem string_eq (bs : Octets) :
    string bs = (bytes 4 bs).bind fun x => bytes (beNat x.1) x.2 := by
  change ((bytes 4 bs).bind fun x => some (beNat x.1, x.2)).bind (fun x => bytes x.1 x.2) = _
  rw [Option.bind_assoc]
  rfl

/-- Nothing but a frame reads as a string. -/
theorem string_eq_some {bs s rest : Octets} (h : string bs = some (s, rest)) :
    s.length < 2 ^ 32 ∧ bs = frame s ++ rest := by
  rw [string_eq] at h
  obtain ⟨⟨size, rest'⟩, hsize, hbody⟩ := Option.bind_eq_some_iff.mp h
  obtain ⟨hfour, hbs⟩ := bytes_eq_some hsize
  obtain ⟨hlen, hrest⟩ := bytes_eq_some hbody
  dsimp only at hlen hrest
  have hlt := beNat_lt size
  rw [hfour] at hlt
  have hword : beBytes 4 s.length = size := by
    rw [hlen, ← hfour]
    exact beBytes_beNat size
  constructor
  · rw [hlen]
    exact hlt.trans_eq (by norm_num)
  · unfold frame
    rw [hbs, hrest, hword, List.append_assoc]

theorem items_flatMap {p : Parser α} {encode : β → Octets} {f : β → α} {xs : List β} {fuel : Nat}
    (hread : ∀ x ∈ xs, Reads p (encode x) (f x)) (hne : ∀ x ∈ xs, encode x ≠ [])
    (hfuel : xs.length ≤ fuel) : items p fuel (xs.flatMap encode) = some (xs.map f) := by
  induction xs generalizing fuel with
  | nil => rw [List.flatMap_nil, items]; rfl
  | cons x xs ih =>
    obtain ⟨hhere, hthere⟩ := List.forall_mem_cons.mp hread
    obtain ⟨hhead, htail⟩ := List.forall_mem_cons.mp hne
    cases fuel with
    | zero => cases hfuel
    | succ fuel =>
      have hrest := ih hthere htail (Nat.le_of_succ_le_succ hfuel)
      rw [List.flatMap_cons]
      cases hbytes : encode x ++ xs.flatMap encode with
      | nil => exact absurd (List.append_eq_nil_iff.mp hbytes).1 hhead
      | cons b bs =>
        rw [items, ← hbytes, hhere]
        dsimp only
        rw [hrest]
        rfl

/-- A list of written items reads as the list of what they stand for. -/
theorem all_flatMap {p : Parser α} {encode : β → Octets} {f : β → α} {xs : List β}
    (hread : ∀ x ∈ xs, Reads p (encode x) (f x)) (hne : ∀ x ∈ xs, encode x ≠ []) :
    all p (xs.flatMap encode) = some (xs.map f) := by
  apply items_flatMap hread hne
  rw [List.length_flatMap]
  clear hread
  induction xs with
  | nil => exact Nat.le_refl 0
  | cons x xs ih =>
    obtain ⟨hhead, htail⟩ := List.forall_mem_cons.mp hne
    have hpos := List.length_pos_of_ne_nil hhead
    have hrest := ih htail
    rw [List.map_cons, List.sum_cons, List.length_cons]
    omega

end PicoSignet.Wire
