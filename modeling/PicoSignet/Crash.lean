import Mathlib.Tactic

/-!
# Computations that may stop part way

`EStateM ε σ α` returns a value or stops with a reason `ε`, and leaves a state
behind either way.  A power cut, a panic and a failed hardware call are all such
stops, so a statement about one of these programs needs a condition for the
state it stops in next to the one for the state it returns in.  `Wp` carries
both.  `Stays` is the special case of a program that only moves along a given
relation, wherever it is interrupted.
-/

set_option autoImplicit false

namespace PicoSignet.Crash

variable {ε σ α β : Type}

/-- From `s`, the program returns into `post` or stops in `stop`. -/
def Wp (m : EStateM ε σ α) (post : α → σ → Prop) (stop : ε → σ → Prop) (s : σ) : Prop :=
  match m s with
  | .ok a t => post a t
  | .error e t => stop e t

/-- The state a program leaves behind, returned or stopped. -/
def leaves (m : EStateM ε σ α) (s : σ) : σ :=
  match m s with
  | .ok _ t => t
  | .error _ t => t

@[simp] theorem Wp_pure (a : α) (post : α → σ → Prop) (stop : ε → σ → Prop) (s : σ) :
    Wp (pure a : EStateM ε σ α) post stop s ↔ post a s := Iff.rfl

@[simp] theorem Wp_bind (m : EStateM ε σ α) (f : α → EStateM ε σ β)
    (post : β → σ → Prop) (stop : ε → σ → Prop) (s : σ) :
    Wp (m >>= f) post stop s ↔ Wp m (fun a t => Wp (f a) post stop t) stop s := by
  unfold Wp
  simp only [bind, EStateM.bind]
  cases m s <;> rfl

@[simp] theorem Wp_map (m : EStateM ε σ α) (f : α → β)
    (post : β → σ → Prop) (stop : ε → σ → Prop) (s : σ) :
    Wp (f <$> m) post stop s ↔ Wp m (fun a t => post (f a) t) stop s := by
  unfold Wp
  simp only [Functor.map, EStateM.map]
  cases m s <;> rfl

@[simp] theorem Wp_get (post : σ → σ → Prop) (stop : ε → σ → Prop) (s : σ) :
    Wp (get : EStateM ε σ σ) post stop s ↔ post s s := Iff.rfl

@[simp] theorem Wp_set (t : σ) (post : PUnit → σ → Prop) (stop : ε → σ → Prop) (s : σ) :
    Wp (set t : EStateM ε σ PUnit) post stop s ↔ post ⟨⟩ t := Iff.rfl

@[simp] theorem Wp_modify (f : σ → σ) (post : PUnit → σ → Prop) (stop : ε → σ → Prop) (s : σ) :
    Wp (modify f : EStateM ε σ PUnit) post stop s ↔ post ⟨⟩ (f s) := Iff.rfl

@[simp] theorem Wp_throw (e : ε) (post : α → σ → Prop) (stop : ε → σ → Prop) (s : σ) :
    Wp (throw e : EStateM ε σ α) post stop s ↔ stop e s := Iff.rfl

/-- The rule of consequence. -/
theorem Wp.mono {m : EStateM ε σ α} {post post' : α → σ → Prop} {stop stop' : ε → σ → Prop}
    {s : σ} (h : Wp m post stop s) (hpost : ∀ a t, post a t → post' a t)
    (hstop : ∀ e t, stop e t → stop' e t) : Wp m post' stop' s := by
  unfold Wp at h ⊢
  cases hm : m s with
  | ok a t => rw [hm] at h; exact hpost a t h
  | error e t => rw [hm] at h; exact hstop e t h

theorem Wp.and {m : EStateM ε σ α} {post post' : α → σ → Prop} {stop stop' : ε → σ → Prop}
    {s : σ} (h : Wp m post stop s) (h' : Wp m post' stop' s) :
    Wp m (fun a t => post a t ∧ post' a t) (fun e t => stop e t ∧ stop' e t) s := by
  unfold Wp at h h' ⊢
  cases hm : m s with
  | ok a t => rw [hm] at h h'; exact ⟨h, h'⟩
  | error e t => rw [hm] at h h'; exact ⟨h, h'⟩

/-- What holds however the first part ends. -/
theorem Wp.bind_any {m : EStateM ε σ α} {f : α → EStateM ε σ β} {post : β → σ → Prop}
    {stop : ε → σ → Prop} (s : σ) (hf : ∀ a t, Wp (f a) post stop t) (hstop : ∀ e t, stop e t) :
    Wp (m >>= f) post stop s := by
  rw [Wp_bind]
  unfold Wp
  cases m s with
  | ok a t => exact hf a t
  | error e t => exact hstop e t

theorem Wp.of_ok {m : EStateM ε σ α} {post : α → σ → Prop} {stop : ε → σ → Prop}
    {s t : σ} {a : α} (h : Wp m post stop s) (hm : m s = .ok a t) : post a t := by
  unfold Wp at h
  rw [hm] at h
  exact h

theorem Wp.of_error {m : EStateM ε σ α} {post : α → σ → Prop} {stop : ε → σ → Prop}
    {s t : σ} {e : ε} (h : Wp m post stop s) (hm : m s = .error e t) : stop e t := by
  unfold Wp at h
  rw [hm] at h
  exact h

theorem Wp.of_run {m : EStateM ε σ α} {post : α → σ → Prop} {stop : ε → σ → Prop}
    {s t : σ} {a : α} (hm : m s = .ok a t) (h : post a t) : Wp m post stop s := by
  unfold Wp
  rw [hm]
  exact h

/-! ### Programs that move along a relation -/

/-- Wherever the program ends, it has moved from its start along `rel`. -/
def Stays (rel : σ → σ → Prop) (m : EStateM ε σ α) : Prop :=
  ∀ s, Wp m (fun _ t => rel s t) (fun _ t => rel s t) s

theorem Stays.leaves {rel : σ → σ → Prop} {m : EStateM ε σ α} (h : Stays rel m) (s : σ) :
    rel s (leaves m s) := by
  have hs := h s
  unfold Wp at hs
  unfold Crash.leaves
  cases hm : m s with
  | ok a t => rw [hm] at hs; exact hs
  | error e t => rw [hm] at hs; exact hs

theorem Stays.mono {rel rel' : σ → σ → Prop} {m : EStateM ε σ α} (h : Stays rel m)
    (hrel : ∀ s t, rel s t → rel' s t) : Stays rel' m := fun s =>
  (h s).mono (fun _ t ht => hrel s t ht) (fun _ t ht => hrel s t ht)

section Preorder

variable {rel : σ → σ → Prop} [IsPreorder σ rel]

theorem Stays.pure (a : α) : Stays rel (Pure.pure a : EStateM ε σ α) := fun s => refl_of rel s

theorem Stays.get : Stays rel (MonadState.get : EStateM ε σ σ) := fun s => refl_of rel s

theorem Stays.throw (e : ε) : Stays rel (MonadExcept.throw e : EStateM ε σ α) :=
  fun s => refl_of rel s

theorem Stays.bind {m : EStateM ε σ α} {f : α → EStateM ε σ β} (hm : Stays rel m)
    (hf : ∀ a, Stays rel (f a)) : Stays rel (m >>= f) := by
  intro s
  rw [Wp_bind]
  refine (hm s).mono ?_ (fun _ t ht => ht)
  intro a t hst
  exact (hf a t).mono (fun _ u htu => trans_of rel hst htu) (fun _ u htu => trans_of rel hst htu)

end Preorder

theorem Stays.modify {rel : σ → σ → Prop} {f : σ → σ} (h : ∀ s, rel s (f s)) :
    Stays rel (modify f : EStateM ε σ PUnit) := h

theorem Stays.ite {rel : σ → σ → Prop} {c : Prop} [Decidable c] {m n : EStateM ε σ α}
    (hm : Stays rel m) (hn : Stays rel n) : Stays rel (if c then m else n) := by
  split
  · exact hm
  · exact hn

/-! ### Environments that wait

The choices of the environment are a queue in the state.  A patient program takes
them one by one and nothing else looks at them, so what it does over an empty queue
it also does over one that idles long enough, and it leaves the rest of the queue. -/

/-- A result with the queue left in its state replaced. -/
def requeue {φ : Type} (put : σ → List φ → σ) (rest : List φ) :
    EStateM.Result ε σ α → EStateM.Result ε σ α
  | .ok a s => .ok a (put s rest)
  | .error e s => .error e (put s rest)

def Patient {φ : Type} (put : σ → List φ → σ) (idle : φ) (m : EStateM ε σ α) : Prop :=
  ∀ s, requeue put [] (m (put s [])) = m (put s []) ∧
    ∃ k, ∀ rest, m (put s (List.replicate k idle ++ rest)) = requeue put rest (m (put s []))

section Patient

variable {φ : Type} {put : σ → List φ → σ} {idle : φ}

/-- A program that does not look at the queue. -/
theorem Patient.of_queueless {m : EStateM ε σ α}
    (hm : ∀ s l, m (put s l) = requeue put l (m (put s []))) : Patient put idle m :=
  fun s => ⟨(hm s []).symm, 0, fun rest => hm s rest⟩

/-- Reading the state is patient when the queue is not what is read. -/
theorem Patient.get_bind {f : σ → EStateM ε σ β} (hf : ∀ s l, f (put s l) = f s)
    (hpatient : ∀ s, Patient put idle (f s)) : Patient put idle (MonadState.get >>= f) := by
  intro s
  have hget : ∀ l, ((MonadState.get : EStateM ε σ σ) >>= f) (put s l) = f s (put s l) := by
    intro l
    change f (put s l) (put s l) = _
    rw [hf]
  obtain ⟨hempty, k, hk⟩ := hpatient s s
  rw [hget]
  refine ⟨hempty, k, fun rest => ?_⟩
  rw [hget, hk]

theorem Patient.bind {m : EStateM ε σ α} {f : α → EStateM ε σ β} (hm : Patient put idle m)
    (hf : ∀ a, Patient put idle (f a)) : Patient put idle (m >>= f) := by
  intro s
  obtain ⟨hempty, k, hk⟩ := hm s
  have hbind : ∀ t, (m >>= f) t = match m t with
      | .ok a u => f a u
      | .error e u => .error e u := fun _ => rfl
  cases hs : m (put s []) with
  | error e t =>
    rw [hs] at hempty hk
    have ht : put t [] = t := (EStateM.Result.error.inj hempty).2
    rw [hbind, hs]
    refine ⟨congrArg (EStateM.Result.error e) ht, k, fun rest => ?_⟩
    rw [hbind, hk]
    rfl
  | ok a t =>
    rw [hs] at hempty hk
    have ht : put t [] = t := (EStateM.Result.ok.inj hempty).2
    obtain ⟨hempty', k', hk'⟩ := hf a t
    rw [ht] at hempty' hk'
    rw [hbind, hs]
    refine ⟨hempty', k + k', fun rest => ?_⟩
    rw [hbind, List.replicate_add, List.append_assoc, hk]
    exact hk' rest

variable (hput : ∀ s l l', put (put s l) l' = put s l')

include hput

theorem Patient.pure (a : α) : Patient put idle (Pure.pure a : EStateM ε σ α) := by
  refine Patient.of_queueless fun s l => ?_
  change EStateM.Result.ok a (put s l) = .ok a (put (put s []) l)
  rw [hput]

theorem Patient.throw (e : ε) : Patient put idle (MonadExcept.throw e : EStateM ε σ α) := by
  refine Patient.of_queueless fun s l => ?_
  change EStateM.Result.error e (put s l) = .error e (put (put s []) l)
  rw [hput]

theorem Patient.modify {f : σ → σ} (hf : ∀ s l, f (put s l) = put (f s) l) :
    Patient put idle (modify f : EStateM ε σ PUnit) := by
  refine Patient.of_queueless fun s l => ?_
  change EStateM.Result.ok PUnit.unit (f (put s l)) = .ok PUnit.unit (put (f (put s [])) l)
  rw [hf, hf, hput]

end Patient

end PicoSignet.Crash
