import Mathlib.Tactic

/-!
# Values kept in two numbered copies

A value is stored twice, each copy with a sequence number.  A write replaces the
copy with the lower number and gives it the next number above both; a reader
takes the copy with the higher number.  A copy that is not there counts as
number 0, and numbers wrap at `N`.

A write may be interrupted.  It then leaves the copy it was replacing as it was,
unreadable, or already complete.  `Copies.Sound` is the invariant under which
such a write changes the value to the new one or not at all; `Step.refines` says
that two copies implement a register with atomic writes.
-/

set_option autoImplicit false

namespace PicoSignet.TwoCopy

variable {α : Type}

structure Copies (α : Type) where
  a : Option (Nat × α)
  b : Option (Nat × α)

/-- The number of a copy. -/
def seq (c : Option (Nat × α)) : Nat := (c.map (·.1)).getD 0

@[simp] theorem seq_none : seq (none : Option (Nat × α)) = 0 := rfl

@[simp] theorem seq_some (n : Nat) (v : α) : seq (some (n, v)) = n := rfl

namespace Copies

/-- The value of the newer copy, the first one on a tie. -/
def newest : Copies α → Option α
  | ⟨none, none⟩ => none
  | ⟨some (_, v), none⟩ => some v
  | ⟨none, some (_, w)⟩ => some w
  | ⟨some (m, v), some (n, w)⟩ => if n ≤ m then some v else some w

/-- The number after both, before it is wrapped. -/
def next (c : Copies α) : Nat := max (seq c.a) (seq c.b) + 1

/-- Put `copy` where a write goes. -/
def replace (c : Copies α) (copy : Option (Nat × α)) : Copies α :=
  if seq c.a ≤ seq c.b then { c with a := copy } else { c with b := copy }

/-- The copy a write replaces. -/
def older (c : Copies α) : Option (Nat × α) := if seq c.a ≤ seq c.b then c.a else c.b

/-- The copy a write leaves alone. -/
def kept (c : Copies α) : Option (Nat × α) := if seq c.a ≤ seq c.b then c.b else c.a

/-- Nothing is stored, or one copy is strictly newer than the other. -/
def Sound (c : Copies α) : Prop := (c.a = none ∧ c.b = none) ∨ seq c.a ≠ seq c.b

@[simp] theorem replace_older (c : Copies α) : c.replace c.older = c := by
  unfold replace older
  split <;> rfl

theorem sound_empty : (⟨none, none⟩ : Copies α).Sound := Or.inl ⟨rfl, rfl⟩

theorem newest_of_le {m : Nat} {v : α} {b : Option (Nat × α)} (h : seq b ≤ m) :
    newest ⟨some (m, v), b⟩ = some v := by
  rcases b with _ | ⟨n, w⟩
  · rfl
  · exact if_pos h

theorem newest_of_lt {n : Nat} {w : α} {a : Option (Nat × α)} (h : seq a < n) :
    newest ⟨a, some (n, w)⟩ = some w := by
  rcases a with _ | ⟨m, v⟩
  · rfl
  · exact if_neg (not_le.mpr h)

/-- A complete write is read back, whatever was there before. -/
theorem newest_write (c : Copies α) (v : α) :
    (c.replace (some (c.next, v))).newest = some v := by
  unfold replace next
  split
  · exact newest_of_le (by omega)
  · exact newest_of_lt (by omega)

/-- A strictly newer copy outlives anything numbered 0 in place of the other. -/
theorem newest_replace {c : Copies α} (hne : seq c.a ≠ seq c.b) {copy : Option (Nat × α)}
    (hcopy : seq copy = 0) : (c.replace copy).newest = c.newest := by
  obtain ⟨a, b⟩ := c
  change seq a ≠ seq b at hne
  unfold replace
  split
  · rename_i hle
    change seq a ≤ seq b at hle
    rcases b with _ | ⟨n, w⟩
    · simp only [seq_none] at hne hle
      omega
    · have hlt : seq a < n := lt_of_le_of_ne hle hne
      rw [newest_of_lt hlt]
      exact newest_of_lt (by omega)
  · rename_i hgt
    change ¬ seq a ≤ seq b at hgt
    rcases a with _ | ⟨m, v⟩
    · simp at hgt
    · have hle : seq b ≤ m := le_of_not_ge hgt
      rw [newest_of_le hle]
      exact newest_of_le (by omega)

/-- What stays behind a write that wrapped is the newer copy. -/
theorem newest_wrapped {c : Copies α} (v : α) (h : c.Sound) (hpos : c.next ≠ 1) :
    (c.replace (some (0, v))).newest = c.newest := by
  rcases h with ⟨ha, hb⟩ | hne
  · refine absurd ?_ hpos
    unfold next
    rw [ha, hb]
    rfl
  · exact newest_replace hne rfl

/-- A write that wrapped is not seen: the copy it left alone is newer. -/
theorem newest_behind_kept {c : Copies α} (v : α) (hpos : c.next ≠ 1) :
    (c.replace (some (0, v))).newest = c.kept.map Prod.snd := by
  obtain ⟨a, b⟩ := c
  unfold next at hpos
  unfold replace kept
  by_cases hle : seq a ≤ seq b
  · rw [if_pos hle, if_pos hle]
    rcases b with _ | ⟨n, w⟩
    · simp_all
    · apply newest_of_lt
      simp only [seq_some] at *
      omega
  · rw [if_neg hle, if_neg hle]
    rcases a with _ | ⟨m, w⟩
    · simp at hle
    · apply newest_of_le
      simp

/-- The written copy never carries the number of the other one. -/
theorem sound_write (c : Copies α) (v : α) {n : Nat} (hn : n = c.next ∨ n = 0 ∧ c.next ≠ 1) :
    (c.replace (some (n, v))).Sound := by
  unfold next at hn
  unfold replace
  right
  split
  · simp only [seq_some]
    omega
  · simp only [seq_some]
    omega

/-- Losing the copy that was being replaced loses no value. -/
theorem newest_lost {c : Copies α} (h : c.Sound) : (c.replace none).newest = c.newest := by
  obtain ⟨a, b⟩ := c
  rcases h with ⟨ha, hb⟩ | hne
  · obtain rfl : a = none := ha
    obtain rfl : b = none := hb
    rfl
  · exact newest_replace hne rfl

theorem sound_lost {c : Copies α} (h : c.Sound) : (c.replace none).Sound := by
  rcases h with ⟨ha, hb⟩ | h
  · left
    unfold replace
    split
    · exact ⟨rfl, hb⟩
    · exact ⟨ha, rfl⟩
  · right
    unfold replace
    split
    · simp only [seq_none]
      omega
    · simp only [seq_none]
      omega

/-! ### Runs -/

/-- What one operation does to the copies, numbers wrapping at `N`. -/
inductive Step (N : Nat) : Copies α → Option α → Copies α → Prop
  | done (c : Copies α) (v : α) : Step N c (some v) (c.replace (some (c.next % N, v)))
  | lost (c : Copies α) (v : α) : Step N c (some v) (c.replace none)
  | kept (c : Copies α) (v : α) : Step N c (some v) c
  | clear (c : Copies α) : Step N c none ⟨none, none⟩

/-- A register whose writes are atomic: a write takes effect or it does not. -/
inductive RegisterStep : Option α → Option α → Option α → Prop
  | done (old : Option α) (v : α) : RegisterStep old (some v) (some v)
  | kept (old : Option α) (v : α) : RegisterStep old (some v) old
  | clear (old : Option α) : RegisterStep old none none

theorem RegisterStep.old_or_new {old new : Option α} {v : α}
    (h : RegisterStep old (some v) new) : new = old ∨ new = some v := by
  cases h with
  | done => exact Or.inr rfl
  | kept => exact Or.inl rfl

section Wrapping

variable {N : Nat}

/-- The number a write hands out is the next one, or 0 where that wraps. -/
theorem next_mod {c : Copies α} (hN : 1 < N) (hnext : c.next ≤ N) :
    c.next % N = c.next ∨ c.next % N = 0 ∧ c.next ≠ 1 := by
  rcases Nat.lt_or_eq_of_le hnext with hlt | heq
  · exact Or.inl (Nat.mod_eq_of_lt hlt)
  · right
    rw [heq, Nat.mod_self]
    omega

theorem Step.sound {c c' : Copies α} {op : Option α} (hstep : Step N c op c') (hN : 1 < N)
    (hnext : c.next ≤ N) (h : c.Sound) : c'.Sound := by
  cases hstep with
  | done v => exact sound_write c v (next_mod hN hnext)
  | lost v => exact sound_lost h
  | kept v => exact h
  | clear => exact sound_empty

/-- The copies refine the register. -/
theorem Step.refines {c c' : Copies α} {op : Option α} (hstep : Step N c op c') (hN : 1 < N)
    (hnext : c.next ≤ N) (h : c.Sound) : RegisterStep c.newest op c'.newest := by
  cases hstep with
  | done v =>
    rcases next_mod hN hnext with hmod | ⟨hmod, hpos⟩
    · rw [hmod, newest_write]
      exact RegisterStep.done _ v
    · rw [hmod, newest_wrapped v h hpos]
      exact RegisterStep.kept _ v
  | lost v =>
    rw [newest_lost h]
    exact RegisterStep.kept _ v
  | kept v => exact RegisterStep.kept _ v
  | clear => exact RegisterStep.clear _

/-- A write uses up one number at most, and clearing gives all of them back. -/
theorem Step.next_le {c c' : Copies α} {op : Option α} (hstep : Step N c op c') :
    c'.next ≤ c.next + if op.isSome then 1 else 0 := by
  cases hstep with
  | done v =>
    have hmod := Nat.mod_le c.next N
    unfold next at hmod ⊢
    unfold replace
    split <;> simp only [seq_some, Option.isSome_some, if_true] <;> omega
  | lost v =>
    unfold next replace
    split <;> simp only [seq_none, Option.isSome_some, if_true] <;> omega
  | kept v => simp
  | clear =>
    unfold next
    simp

end Wrapping

/-! ### What holds of every stored value -/

/-- Each copy that is there holds a value of `Q`. -/
structure All (Q : α → Prop) (c : Copies α) : Prop where
  a : ∀ n v, c.a = some (n, v) → Q v
  b : ∀ n v, c.b = some (n, v) → Q v

section All

variable {Q : α → Prop}

theorem all_empty : All Q ⟨none, none⟩ := by
  constructor <;> simp

theorem All.newest {c : Copies α} (h : c.All Q) {v : α} (hv : c.newest = some v) : Q v := by
  obtain ⟨ha, hb⟩ := h
  obtain ⟨_ | ⟨m, x⟩, _ | ⟨n, y⟩⟩ := c
  · simp [Copies.newest] at hv
  · obtain rfl : y = v := Option.some.inj hv
    exact hb n y rfl
  · obtain rfl : x = v := Option.some.inj hv
    exact ha m x rfl
  · simp only [Copies.newest] at hv
    split at hv
    · obtain rfl := Option.some.inj hv
      exact ha m x rfl
    · obtain rfl := Option.some.inj hv
      exact hb n y rfl

theorem All.replace {c : Copies α} (h : c.All Q) {copy : Option (Nat × α)}
    (hcopy : ∀ n v, copy = some (n, v) → Q v) : (c.replace copy).All Q := by
  unfold Copies.replace
  split
  · exact ⟨hcopy, h.b⟩
  · exact ⟨h.a, hcopy⟩

theorem Step.all {N : Nat} {c c' : Copies α} {op : Option α} (hstep : Step N c op c')
    (h : c.All Q) (hop : ∀ v, op = some v → Q v) : c'.All Q := by
  cases hstep with
  | done v =>
    apply h.replace
    rintro n w hw
    obtain ⟨-, rfl⟩ := Prod.mk.inj (Option.some.inj hw)
    exact hop v rfl
  | lost v =>
    apply h.replace
    simp
  | kept v => exact h
  | clear => exact all_empty

end All

/-! ### Clearing, one copy after the other -/

/-- What an interrupted clear leaves: the first copy goes before the second is
    touched. -/
inductive Clearing : Copies α → Copies α → Prop
  | kept (c : Copies α) : Clearing c c
  | first (c : Copies α) : Clearing c ⟨none, c.b⟩
  | both (c : Copies α) : Clearing c ⟨none, none⟩

/-- Interrupting a clear never brings back an older value exactly when the second
    copy holds none. -/
theorem clearing_atomic_iff (c : Copies α) :
    (∀ c', Clearing c c' → c'.newest = c.newest ∨ c'.newest = none) ↔
      ∀ n w, c.b = some (n, w) → c.newest = some w := by
  constructor
  · intro h n w hb
    have hfirst := h _ (.first c)
    rw [hb] at hfirst
    rcases hfirst with hnew | hnone
    · exact hnew.symm
    · exact absurd hnone (by simp [newest])
  · intro h c' hc'
    cases hc' with
    | kept => exact Or.inl rfl
    | first =>
      cases hb : c.b with
      | none => exact Or.inr rfl
      | some copy =>
        obtain ⟨n, w⟩ := copy
        exact Or.inl (h n w hb).symm
    | both => exact Or.inr rfl

/-- The copies after a history of complete writes, the newest value first: the
    first write goes to the first copy, and then they alternate. -/
def written : List α → Copies α
  | [] => ⟨none, none⟩
  | [v] => ⟨some (1, v), none⟩
  | v :: w :: older =>
    if older.length % 2 = 0 then ⟨some (older.length + 1, w), some (older.length + 2, v)⟩
    else ⟨some (older.length + 2, v), some (older.length + 1, w)⟩

theorem written_cons (v : α) (vs : List α) :
    written (v :: vs) = (written vs).replace (some ((written vs).next, v)) := by
  match vs with
  | [] => rfl
  | [w] => rfl
  | w :: x :: older =>
    by_cases h : older.length % 2 = 0
    · have hodd : ¬ (older.length + 1) % 2 = 0 := by omega
      have hnext : max (older.length + 1) (older.length + 2) = older.length + 2 := by omega
      simp only [written, if_pos h, if_neg hodd, next, replace, seq_some, hnext, List.length_cons]
      rw [if_pos (by omega)]
    · have heven : (older.length + 1) % 2 = 0 := by omega
      have hnext : max (older.length + 2) (older.length + 1) = older.length + 2 := by omega
      simp only [written, if_neg h, if_pos heven, next, replace, seq_some, hnext, List.length_cons]
      rw [if_neg (by omega)]

theorem next_written_le (vs : List α) : (written vs).next ≤ vs.length + 1 := by
  match vs with
  | [] => rfl
  | [v] => exact le_rfl
  | v :: w :: older =>
    by_cases h : older.length % 2 = 0
    · simp only [written, if_pos h, next, seq_some, List.length_cons]
      omega
    · simp only [written, if_neg h, next, seq_some, List.length_cons]
      omega

/-- After a history of complete writes a clear can be interrupted safely when the
    newest value is in the second copy, or the two copies agree. -/
theorem written_clearing_iff (vs : List α) :
    (∀ n w, (written vs).b = some (n, w) → (written vs).newest = some w) ↔
      vs.length ≤ 1 ∨ vs.length % 2 = 0 ∨ vs[0]? = vs[1]? := by
  match vs with
  | [] => simp [written]
  | [v] => simp [written]
  | v :: w :: older =>
    have hlength : (v :: w :: older).length % 2 = older.length % 2 := by
      simp only [List.length_cons]
      omega
    rw [hlength]
    by_cases h : older.length % 2 = 0
    · simp [written, newest, h]
    · simp [written, newest, h]

end Copies

end PicoSignet.TwoCopy
