/-
  PicoSignet/Checked.lean
  =======================
  **Programs whose arithmetic is checked.**

  A build with overflow checks stops where a sum, difference or product leaves its
  word, where an index leaves its slice and where an `expect` finds nothing.  `Prog`
  is the monad of such code: its own errors on top, stops below.

  The point of the file is `Follows`: a checked program *follows* an unchecked one
  as long as a condition on its input holds, and stops exactly when it does not.
  `Follows.bind` composes such facts along the two programs, which have the same
  shape, and collects the conditions on the way.
-/
import Mathlib.Tactic

set_option autoImplicit false

namespace PicoSignet.Checked

variable {ε α β : Type}

/-- What stops a checked program. -/
inductive Panic where
  | overflow
  | bounds
  | expect
deriving DecidableEq, Repr

/-- Code with errors in `ε` that may also be stopped. -/
abbrev Prog (ε α : Type) := ExceptT ε (Except Panic) α

def stop (s : Panic) : Prog ε α := ExceptT.mk (.error s)

/-- The source's `?` or `return Err(..)`. -/
def fail (e : ε) : Prog ε α := ExceptT.mk (.ok (.error e))

/-! ### Operations on words of `w` bits, and on slices -/

def add (w a b : Nat) : Prog ε Nat := if a + b < 2 ^ w then pure (a + b) else stop .overflow

def sub (a b : Nat) : Prog ε Nat := if b ≤ a then pure (a - b) else stop .overflow

def mul (w a b : Nat) : Prog ε Nat := if a * b < 2 ^ w then pure (a * b) else stop .overflow

def index (xs : List α) (i : Nat) : Prog ε α :=
  match xs[i]? with
  | some x => pure x
  | none => stop .bounds

/-- `xs[lo..hi]`. -/
def slice (xs : List α) (lo hi : Nat) : Prog ε (List α) :=
  if lo ≤ hi ∧ hi ≤ xs.length then pure ((xs.drop lo).take (hi - lo)) else stop .bounds

def expect : Option α → Prog ε α
  | some x => pure x
  | none => stop .expect

/-! ### Following an unchecked program -/

/-- The program is not stopped. -/
def Returns (x : Prog ε α) : Prop := ∃ r, x.run = .ok r

/-- The program returns `v` where `safe` holds, and is stopped elsewhere. -/
structure Follows (x : Prog ε α) (safe : Prop) (v : Except ε α) : Prop where
  returns : safe → x.run = .ok v
  stops : ¬ safe → ∃ s, x.run = .error s

theorem Follows.returns_iff {x : Prog ε α} {safe : Prop} {v : Except ε α} (h : Follows x safe v) :
    Returns x ↔ safe := by
  constructor
  · intro hr
    obtain ⟨r, hr⟩ := hr
    by_contra hsafe
    obtain ⟨s, hs⟩ := h.stops hsafe
    rw [hs] at hr
    cases hr
  · intro hsafe
    exact ⟨v, h.returns hsafe⟩

/-- What a program that is not stopped returns. -/
theorem Follows.eq_of_run {x : Prog ε α} {safe : Prop} {v r : Except ε α} (h : Follows x safe v)
    (hr : x.run = .ok r) : r = v := by
  have hsafe := h.returns_iff.mp ⟨r, hr⟩
  rw [h.returns hsafe] at hr
  exact (Except.ok.inj hr).symm

theorem Follows.congr {x : Prog ε α} {safe safe' : Prop} {v : Except ε α} (h : Follows x safe v)
    (hiff : safe ↔ safe') : Follows x safe' v where
  returns := fun hsafe => h.returns (hiff.mpr hsafe)
  stops := fun hsafe => h.stops fun h' => hsafe (hiff.mp h')

theorem Follows.of_run {x : Prog ε α} {v : Except ε α} (h : x.run = .ok v) : Follows x True v where
  returns := fun _ => h
  stops := fun hsafe => absurd trivial hsafe

theorem follows_pure (a : α) : Follows (pure a : Prog ε α) True (.ok a) := .of_run rfl

theorem follows_fail (e : ε) : Follows (fail e : Prog ε α) True (.error e) := .of_run rfl

/-- The composition rule: the second program counts only where the first one got to it. -/
theorem Follows.bind {x : Prog ε α} {f : α → Prog ε β} {p : Prop} {q : α → Prop}
    {v : Except ε α} {g : α → Except ε β} (hx : Follows x p v)
    (hf : ∀ a, v = .ok a → Follows (f a) (q a) (g a)) :
    Follows (x >>= f) (p ∧ ∀ a, v = .ok a → q a) (v >>= g) := by
  have hrun : ∀ hp : p, (x >>= f).run = match v with
      | .ok a => (f a).run
      | .error e => .ok (.error e) := by
    intro hp
    rw [ExceptT.run_bind, hx.returns hp]
    cases v <;> rfl
  constructor
  · intro hsafe
    rw [hrun hsafe.1]
    cases v with
    | error e => rfl
    | ok a => exact (hf a rfl).returns (hsafe.2 a rfl)
  · intro hsafe
    by_cases hp : p
    · rw [hrun hp]
      cases v with
      | error e =>
        exfalso
        apply hsafe
        exact ⟨hp, fun a ha => by cases ha⟩
      | ok a =>
        apply (hf a rfl).stops
        intro hq
        apply hsafe
        refine ⟨hp, fun a' ha => ?_⟩
        cases ha
        exact hq
    · obtain ⟨s, hs⟩ := hx.stops hp
      refine ⟨s, ?_⟩
      rw [ExceptT.run_bind, hs]
      rfl

/-- A second program that is never stopped adds no condition. -/
theorem Follows.bind_total {x : Prog ε α} {f : α → Prog ε β} {p : Prop} {v : Except ε α}
    {g : α → Except ε β} (hx : Follows x p v)
    (hf : ∀ a, v = .ok a → Follows (f a) True (g a)) : Follows (x >>= f) p (v >>= g) :=
  (hx.bind hf).congr ⟨fun hsafe => hsafe.1, fun hp => ⟨hp, fun _ _ => trivial⟩⟩

theorem run_bind_ok {x : Prog ε α} {f : α → Prog ε β} {a : α} (hx : x.run = .ok (.ok a)) :
    (x >>= f).run = (f a).run := by
  rw [ExceptT.run_bind, hx]
  rfl

/-- Nor does a first one that always comes to the same value. -/
theorem Follows.then {x : Prog ε α} {f : α → Prog ε β} {q : Prop} {a : α} {w : Except ε β}
    (hx : x.run = .ok (.ok a)) (hf : Follows (f a) q w) : Follows (x >>= f) q w where
  returns := fun hq => (run_bind_ok hx).trans (hf.returns hq)
  stops := by
    intro hq
    rw [run_bind_ok hx]
    exact hf.stops hq

theorem Follows.ite {c : Prop} [Decidable c] {x y : Prog ε α} {p q : Prop} {v w : Except ε α}
    (hx : c → Follows x p v) (hy : ¬ c → Follows y q w) :
    Follows (if c then x else y) ((c → p) ∧ (¬ c → q)) (if c then v else w) := by
  by_cases hc : c
  · simp only [hc, not_true, forall_const, false_implies, and_true]
    exact hx hc
  · simp only [hc, not_false_eq_true, forall_const, false_implies, true_and]
    exact hy hc

/-! ### The operations where they are not stopped -/

theorem add_run {w a b : Nat} (h : a + b < 2 ^ w) :
    (add w a b : Prog ε Nat).run = .ok (.ok (a + b)) := by
  unfold add
  rw [if_pos h]
  rfl

theorem add_follows (w a b : Nat) :
    Follows (add w a b : Prog ε Nat) (a + b < 2 ^ w) (.ok (a + b)) where
  returns := add_run
  stops := by
    intro h
    refine ⟨.overflow, ?_⟩
    unfold add
    rw [if_neg h]
    rfl

theorem sub_run {a b : Nat} (h : b ≤ a) : (sub a b : Prog ε Nat).run = .ok (.ok (a - b)) := by
  unfold sub
  rw [if_pos h]
  rfl

theorem mul_follows (w a b : Nat) :
    Follows (mul w a b : Prog ε Nat) (a * b < 2 ^ w) (.ok (a * b)) where
  returns := by
    intro h
    unfold mul
    rw [if_pos h]
    rfl
  stops := by
    intro h
    refine ⟨.overflow, ?_⟩
    unfold mul
    rw [if_neg h]
    rfl

theorem index_run {xs : List α} {i : Nat} {x : α} (h : xs[i]? = some x) :
    (index xs i : Prog ε α).run = .ok (.ok x) := by
  unfold index
  rw [h]
  rfl

theorem slice_run {xs : List α} {lo hi : Nat} (hlo : lo ≤ hi) (hhi : hi ≤ xs.length) :
    (slice xs lo hi : Prog ε (List α)).run = .ok (.ok ((xs.drop lo).take (hi - lo))) := by
  unfold slice
  rw [if_pos ⟨hlo, hhi⟩]
  rfl

end PicoSignet.Checked
