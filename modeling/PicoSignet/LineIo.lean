/-
  PicoSignet/LineIo.lean
  ======================
  **Line reassembly** — mirror of `hsm-core/src/lineio.rs`.  Bytes arrive in chunks of
  any size; a newline ends a request, and a line past the cap is dropped up to its
  newline and reported.
-/
import PicoSignet.Words

set_option autoImplicit false

namespace PicoSignet

def MAX_LINE : Nat := 16 * 1024

def newline : UInt8 := 0x0A

/-- What the end of a line yields. -/
inductive LineEvent where
  | line (bytes : Octets)
  | tooLong
deriving DecidableEq, Repr

structure LineAssembler where
  buf : Octets
  overflowed : Bool
deriving DecidableEq, Repr

def LineAssembler.new : LineAssembler := { buf := [], overflowed := false }

/-- A line without its trailing CR. -/
def trimCr (buf : Octets) : Octets := if buf.getLast? = some 0x0D then buf.dropLast else buf

def LineAssembler.push (asm : LineAssembler) (b : UInt8) : LineAssembler × Option LineEvent :=
  if b = newline then
    if asm.overflowed then ({ buf := [], overflowed := false }, some .tooLong)
    else ({ asm with buf := [] }, some (.line (trimCr asm.buf)))
  else if asm.overflowed then (asm, none)
  else if asm.buf.length ≥ MAX_LINE then ({ buf := [], overflowed := true }, none)
  else ({ asm with buf := asm.buf ++ [b] }, none)

/-- Only a newline ends a line. -/
theorem LineAssembler.newline_of_push {asm asm' : LineAssembler} {b : UInt8} {e : LineEvent}
    (h : asm.push b = (asm', some e)) : b = newline := by
  unfold LineAssembler.push at h
  split at h
  · assumption
  · split at h
    · cases h
    · split at h <;> cases h

/-! ### Feeding a stream -/

/-- The lines that a run of bytes ends, oldest first. -/
def LineAssembler.feed : LineAssembler → Octets → LineAssembler × List LineEvent
  | asm, [] => (asm, [])
  | asm, b :: bytes =>
    let (asm, e) := asm.push b
    let (asm, es) := asm.feed bytes
    (asm, e.toList ++ es)

/-- How a line is reported when it is assembled from its first byte. -/
def lineEvent (line : Octets) : LineEvent :=
  if line.length > MAX_LINE then .tooLong else .line (trimCr line)

theorem LineAssembler.feed_append (asm : LineAssembler) (xs ys : Octets) :
    asm.feed (xs ++ ys)
      = (((asm.feed xs).1.feed ys).1, (asm.feed xs).2 ++ ((asm.feed xs).1.feed ys).2) := by
  induction xs generalizing asm with
  | nil => simp [feed]
  | cons b xs ih => simp [feed, ih]

/-- A line past the cap swallows its bytes up to the newline. -/
theorem LineAssembler.feed_overflowed {line : Octets} (h : newline ∉ line) :
    (⟨[], true⟩ : LineAssembler).feed line = (⟨[], true⟩, []) := by
  induction line with
  | nil => rfl
  | cons b line ih =>
    have hb : b ≠ newline := fun hb => h (by simp [hb])
    have ih := ih fun hl => h (List.mem_cons_of_mem b hl)
    simp [feed, push, hb, ih]

theorem LineAssembler.feed_buf {line buf : Octets} (h : newline ∉ line)
    (hbuf : buf.length ≤ MAX_LINE) :
    (⟨buf, false⟩ : LineAssembler).feed line
      = (if buf.length + line.length > MAX_LINE then ⟨[], true⟩ else ⟨buf ++ line, false⟩, []) := by
  induction line generalizing buf with
  | nil => simp [feed, hbuf]
  | cons b line ih =>
    have hb : b ≠ newline := fun hb => h (by simp [hb])
    have hline : newline ∉ line := fun hl => h (List.mem_cons_of_mem b hl)
    by_cases hfull : buf.length ≥ MAX_LINE
    · have hlong : buf.length + (b :: line).length > MAX_LINE := by simp; omega
      simp only [feed, push, hb, hfull, if_true, if_false, Bool.false_eq_true,
        feed_overflowed hline, hlong]
      rfl
    · have hroom : (buf ++ [b]).length ≤ MAX_LINE := by simp; omega
      have hlen : (buf ++ [b]).length + line.length = buf.length + (b :: line).length := by
        simp; omega
      simp only [feed, push, hb, hfull, if_false, Bool.false_eq_true, ih hline hroom, hlen]
      simp

/-- A request line that starts on an empty assembler is reported as a whole, and leaves
    the assembler empty. -/
theorem LineAssembler.feed_line {line : Octets} (h : newline ∉ line) :
    LineAssembler.new.feed (line ++ [newline]) = (.new, [lineEvent line]) := by
  rw [feed_append, show LineAssembler.new = ⟨[], false⟩ from rfl, feed_buf h (by simp [MAX_LINE])]
  by_cases hlong : line.length > MAX_LINE
  · simp [feed, push, lineEvent, hlong]
  · simp [feed, push, lineEvent, hlong]

/-! ### Whole streams -/

/-- The buffer never outgrows the cap. -/
theorem LineAssembler.push_buf_le {asm : LineAssembler} (b : UInt8)
    (h : asm.buf.length ≤ MAX_LINE) : (asm.push b).1.buf.length ≤ MAX_LINE := by
  unfold push
  split
  · split <;> simp
  · split
    · exact h
    · split
      · simp
      · rw [List.length_append, List.length_singleton]
        omega

theorem LineAssembler.feed_buf_le {asm : LineAssembler} (bytes : Octets)
    (h : asm.buf.length ≤ MAX_LINE) : (asm.feed bytes).1.buf.length ≤ MAX_LINE := by
  induction bytes generalizing asm with
  | nil => exact h
  | cons b bytes ih => exact ih (asm.push_buf_le b h)

/-- A byte ends a line if and only if it is a newline. -/
theorem LineAssembler.length_push (asm : LineAssembler) (b : UInt8) :
    (asm.push b).2.toList.length = if b = newline then 1 else 0 := by
  unfold push
  split
  · split <;> rfl
  · split
    · rfl
    · split <;> rfl

theorem LineAssembler.length_feed (asm : LineAssembler) (bytes : Octets) :
    (asm.feed bytes).2.length = bytes.count newline := by
  induction bytes generalizing asm with
  | nil => rfl
  | cons b bytes ih =>
    have hcons : (asm.feed (b :: bytes)).2 =
        (asm.push b).2.toList ++ ((asm.push b).1.feed bytes).2 := rfl
    rw [hcons, List.length_append, length_push, ih, List.count_cons, Nat.add_comm]
    simp

/-- A stream is reported line by line: what the newlines end, each line as if it stood
    alone, and nothing for the bytes behind the last newline. -/
theorem LineAssembler.feed_stream (bytes : Octets) :
    (LineAssembler.new.feed bytes).2 = (bytes.splitOn newline).dropLast.map lineEvent := by
  induction hlen : bytes.length using Nat.strong_induction_on generalizing bytes with
  | _ n ih =>
    by_cases hmem : newline ∈ bytes
    · obtain ⟨line, rest, rfl, hline⟩ := List.eq_append_cons_of_mem hmem
      have hshort : rest.length < n := by
        rw [List.length_append, List.length_cons] at hlen
        omega
      have hsplit : line ++ newline :: rest = line ++ [newline] ++ rest := by simp
      rw [List.splitOn_append_cons_self_of_not_mem hline,
        List.dropLast_cons_of_ne_nil (List.splitOn_ne_nil _ _), List.map_cons,
        ← ih rest.length hshort rest rfl, hsplit, feed_append, feed_line hline]
      rfl
    · rw [List.splitOn_eq_singleton hmem]
      have hroom : ([] : Octets).length ≤ MAX_LINE := Nat.zero_le _
      exact congrArg Prod.snd (feed_buf hmem hroom)

end PicoSignet
