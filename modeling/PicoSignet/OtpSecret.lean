/-
  PicoSignet/OtpSecret.lean
  =========================
  **Which secret a boot returns** — two results about `load_or_provision` over
  every history of boots, failing writes and power cuts.

  A secret that is returned is one complete draw (`secret_is_one_draw`): the marker
  row of a slot is only touched once its sixteen rows have been read back, and a
  slot is only written again while they still read as zero.  It is the same secret
  at every boot as long as a boot that fell back found the primary slot out of the
  way (`secret_stable`); voiding and locking that slot is best effort, and where
  both fail without a trace the next boot burns a second secret into it.
-/
import PicoSignet.Otp
import PicoSignet.Device

set_option autoImplicit false

namespace PicoSignet.Otp

open Crash

/-! ### Words and bytes -/

theorem wordByte_append (hi lo : BitVec 8) :
    wordByte (hi ++ lo) 0 = ⟨lo⟩ ∧ wordByte (hi ++ lo) 1 = ⟨hi⟩ := by
  have hbit : ∀ i, BitVec.getLsbD (w := 16) (hi ++ lo) i =
      if i < 8 then lo.getLsbD i else hi.getLsbD (i - 8) := fun _ => BitVec.getLsbD_append
  constructor
  · unfold wordByte
    congr 1
    apply BitVec.eq_of_getLsbD_eq
    intro i hlt
    rw [BitVec.getLsbD_extractLsb', hbit]
    simp [hlt]
  · unfold wordByte
    congr 1
    apply BitVec.eq_of_getLsbD_eq
    intro i hlt
    rw [BitVec.getLsbD_extractLsb', hbit]
    simp [hlt]

theorem wordByte_join (w : Word) : (wordByte w 1).toBitVec ++ (wordByte w 0).toBitVec = w := by
  apply BitVec.eq_of_getLsbD_eq
  intro i hlt
  rw [BitVec.getLsbD_append]
  unfold wordByte
  simp only [BitVec.getLsbD_extractLsb']
  by_cases hlow : i < 8
  · simp [hlow]
  · have hhigh : i - 8 < 8 := by omega
    have hindex : 8 * 1 + (i - 8) = i := by omega
    rw [if_neg hlow, hindex]
    simp [hhigh]

/-- Byte `j` of a secret, out of the word of its row. -/
theorem wordByte_secretWord (s : Bytes 32) (j : Nat) :
    wordByte (secretWord s (j / 2)) (j % 2) = s.toList.getD j 0 := by
  obtain ⟨hlow, hhigh⟩ := wordByte_append (s.toList.getD (2 * (j / 2) + 1) 0).toBitVec
    (s.toList.getD (2 * (j / 2)) 0).toBitVec
  unfold secretWord
  rcases Nat.mod_two_eq_zero_or_one j with hj | hj
  · rw [hj, hlow]
    have hindex : 2 * (j / 2) = j := by omega
    rw [hindex]
  · rw [hj, hhigh]
    have hindex : 2 * (j / 2) + 1 = j := by omega
    rw [hindex]

theorem getD_ofFn (f : Fin 32 → UInt8) {j : Nat} (hj : j < 32) :
    (Vector.ofFn f).toList.getD j 0 = f ⟨j, hj⟩ := by
  rw [List.getD_eq_getElem _ _ (by simpa using hj)]
  simp

/-- The words of a secret determine it. -/
theorem ofFn_wordByte (s : Bytes 32) :
    (Vector.ofFn fun j : Fin 32 => wordByte (secretWord s (j.val / 2)) (j.val % 2)) = s := by
  apply Vector.ext
  intro j hj
  rw [Vector.getElem_ofFn, wordByte_secretWord, List.getD_eq_getElem _ _ (by simpa using hj)]
  simp

theorem secretWord_ofFn (w : Nat → Word) {i : Nat} (hi : i < SECRET_ROWS) :
    secretWord (Vector.ofFn fun j : Fin 32 => wordByte (w (j.val / 2)) (j.val % 2)) i = w i := by
  unfold SECRET_ROWS at hi
  unfold secretWord
  rw [getD_ofFn _ (by omega), getD_ofFn _ (by omega)]
  have hhigh : (2 * i + 1) / 2 = i ∧ (2 * i + 1) % 2 = 1 := by omega
  have hlow : 2 * i / 2 = i ∧ 2 * i % 2 = 0 := by omega
  dsimp only
  rw [hhigh.1, hhigh.2, hlow.1, hlow.2]
  exact wordByte_join (w i)

section Slots

variable {A : Access}

/-- The sixteen rows of a page read as a secret. -/
def ReadsAs (A : Access) (page : Nat) (s : Bytes 32) (row : Nat → Raw) : Prop :=
  ∀ i, i < SECRET_ROWS → A.readEcc (baseRow page + i) (row (baseRow page + i)) = some (secretWord s i)

theorem readSecret_eq_some {row : Nat → Raw} {page : Nat} {s : Bytes 32} :
    readSecret A row (baseRow page) = some s ↔ ReadsAs A page s row := by
  have hall : ((List.range SECRET_ROWS).all fun i =>
      (A.readEcc (baseRow page + i) (row (baseRow page + i))).isSome) = true ↔
      ∀ i, i < SECRET_ROWS → (A.readEcc (baseRow page + i) (row (baseRow page + i))).isSome := by
    simp
  unfold readSecret
  constructor
  · intro hread i hi
    split at hread
    · rename_i hsome
      have hs := Option.some.inj hread
      obtain ⟨w, hw⟩ := Option.isSome_iff_exists.mp (hall.mp hsome i hi)
      rw [← hs, secretWord_ofFn
        (fun i => (A.readEcc (baseRow page + i) (row (baseRow page + i))).getD 0) hi, hw]
      rfl
    · cases hread
  · intro hreads
    rw [if_pos (hall.mpr fun i hi => by rw [hreads i hi]; rfl)]
    refine congrArg some (Eq.trans (congrArg Vector.ofFn (funext fun j => ?_)) (ofFn_wordByte s))
    have hj : j.val / 2 < SECRET_ROWS := by
      unfold SECRET_ROWS
      omega
    rw [hreads _ hj, Option.getD_some]

/-- Two secrets that the same rows read as are equal. -/
theorem ReadsAs.unique {page : Nat} {s s' : Bytes 32} {row : Nat → Raw} (h : ReadsAs A page s row)
    (h' : ReadsAs A page s' row) : s = s' :=
  Option.some.inj ((readSecret_eq_some.mpr h).symm.trans (readSecret_eq_some.mpr h'))

theorem rowsBlank_iff {row : Nat → Raw} {page : Nat} :
    rowsBlank A row (baseRow page) = true ↔
      ∀ i, i < SECRET_ROWS → A.readEcc (baseRow page + i) (row (baseRow page + i)) = some 0 := by
  simp [rowsBlank]

/-- Rows that read as zero read as the all-zero secret. -/
theorem degenerate_of_blank {row : Nat → Raw} {page : Nat} {s : Bytes 32}
    (hblank : rowsBlank A row (baseRow page) = true) (hreads : ReadsAs A page s row) :
    degenerate s = true := by
  have hzero : ReadsAs A page (Vector.replicate 32 0) row := by
    intro i hi
    rw [rowsBlank_iff.mp hblank i hi]
    unfold SECRET_ROWS at hi
    interval_cases i <;> rfl
  rw [hreads.unique hzero]
  decide

/-- A slot that a boot has returned a secret from. -/
structure Holds (A : Access) (page : Nat) (s : Bytes 32) (row : Nat → Raw) : Prop where
  rows : ReadsAs A page s row
  marker : A.readEcc (markerRow page) (row (markerRow page)) = some MARKER_VALID
  void : A.readEcc (voidRow page) (row (voidRow page)) = some 0
  lock : lockSet A page row = true
  sound : degenerate s = false

theorem Holds.lock_bits {page : Nat} {s : Bytes 32} {row : Nat → Raw} (h : Holds A page s row) :
    row (lock1Row page) &&& LOCK1_VALUE = LOCK1_VALUE := by
  have hlock := h.lock
  unfold lockSet at hlock
  rw [Option.any_eq_true] at hlock
  obtain ⟨v, hv, hbits⟩ := hlock
  obtain rfl := A.readRaw_eq _ _ _ hv
  simpa using hbits

/-! ### What the operations burn -/

/-- Only rows in `R` were burned, and no draw was forgotten. -/
structure Burned (R : Nat → Prop) (c c' : Chip) : Prop where
  row : ∀ r, ¬ R r → c'.row r = c.row r
  draws : ∀ s, s ∈ c.draws → s ∈ c'.draws

instance (R : Nat → Prop) : IsPreorder Chip (Burned R) where
  refl _ := ⟨fun _ _ => rfl, fun _ hs => hs⟩
  trans _ _ _ h₁₂ h₂₃ :=
    ⟨fun r hr => (h₂₃.row r hr).trans (h₁₂.row r hr), fun s hs => h₂₃.draws s (h₁₂.draws s hs)⟩

theorem Burned.mono {R R' : Nat → Prop} {c c' : Chip} (h : Burned R c c') (hR : ∀ r, R r → R' r) :
    Burned R' c c' := ⟨fun r hr => h.row r fun hin => hr (hR r hin), h.draws⟩

section Burning

variable {R : Nat → Prop}

theorem stays_burn {row : Nat} (hr : R row) (bits : Raw) : Stays (Burned R) (burn row bits) := by
  have hburnt : ∀ (c : Chip) (x : Raw) (rest : List Burn), Burned R c (c.burnt row x rest) := by
    intro c x rest
    refine ⟨fun r hout => ?_, fun _ hs => hs⟩
    have hne : r ≠ row := fun heq => hout (heq ▸ hr)
    exact Function.update_of_ne hne _ _
  intro c
  unfold burn
  rw [Wp_bind, Wp_get]
  split
  · exact hburnt c _ _
  · exact hburnt c _ _
  · exact hburnt c _ _
  · exact hburnt c _ _

theorem stays_writeVerified {row : Nat} (hr : R row) (value : Word) :
    Stays (Burned R) (writeVerified A row value) := by
  refine Stays.bind (stays_burn hr _) fun r => ?_
  cases r with
  | error e => exact Stays.pure _
  | ok _ => exact Stays.bind Stays.get fun c => Stays.ite (Stays.pure _) (Stays.pure _)

theorem stays_voidSlot {page : Nat} (hr : R (voidRow page)) : Stays (Burned R) (voidSlot A page) :=
  Stays.bind (stays_burn hr _) fun _ => Stays.pure _

theorem stays_ensureHardLock {page : Nat} (hr : R (lock1Row page)) :
    Stays (Burned R) (ensureHardLock A page) := by
  refine Stays.bind Stays.get fun c => Stays.ite (Stays.pure _) (Stays.ite (Stays.pure _) ?_)
  refine Stays.bind (stays_burn hr _) fun r => ?_
  cases r with
  | error e => exact Stays.pure _
  | ok _ => exact Stays.bind Stays.get fun c => Stays.ite (Stays.pure _) (Stays.pure _)

end Burning

/-- A write that verifies reads back. -/
theorem wp_writeVerified (row : Nat) (value : Word) (c : Chip) :
    Wp (writeVerified A row value)
      (fun r c' => Burned (· = row) c c' ∧ (r = .ok () → A.readEcc row (c'.row row) = some value))
      (fun _ c' => Burned (· = row) c c') c := by
  have hreads : Wp (writeVerified A row value)
      (fun r c' => r = .ok () → A.readEcc row (c'.row row) = some value) (fun _ _ => True) c := by
    unfold writeVerified
    refine Wp.bind_any _ (fun r c₁ => ?_) fun _ _ => trivial
    cases r with
    | error e => exact fun hok => nomatch hok
    | ok _ =>
      dsimp only
      rw [Wp_bind, Wp_get]
      split
      · rename_i hread
        exact fun _ => hread
      · exact fun hok => nomatch hok
  have hstays := stays_writeVerified (A := A) (R := (· = row)) rfl value c
  exact Wp.mono (Wp.and hstays hreads) (fun _ _ h => h) fun _ _ h => h.1

/-- A page that was locked shows its lock. -/
theorem wp_ensureHardLock (page : Nat) (c : Chip) :
    Wp (ensureHardLock A page)
      (fun r c' => Burned (· = lock1Row page) c c' ∧ (r = .ok () → lockSet A page c'.row = true))
      (fun _ c' => Burned (· = lock1Row page) c c') c := by
  have hlocks : Wp (ensureHardLock A page)
      (fun r c' => r = .ok () → lockSet A page c'.row = true) (fun _ _ => True) c := by
    unfold ensureHardLock
    rw [Wp_bind, Wp_get]
    split
    · exact fun hok => nomatch hok
    split
    · rename_i hset
      exact fun _ => hset
    refine Wp.bind_any _ (fun r c₁ => ?_) fun _ _ => trivial
    cases r with
    | error e => exact fun hok => nomatch hok
    | ok _ =>
      dsimp only
      rw [Wp_bind, Wp_get]
      split
      · rename_i hset
        exact fun _ => hset
      · exact fun hok => nomatch hok
  have hstays := stays_ensureHardLock (A := A) (R := (· = lock1Row page)) rfl c
  exact Wp.mono (Wp.and hstays hlocks) (fun _ _ h => h) fun _ _ h => h.1

/-- The rows of a slot and its page lock. -/
def Touches (page r : Nat) : Prop :=
  baseRow page ≤ r ∧ r < baseRow page + SECRET_ROWS + 2 ∨ r = lock1Row page

theorem touches_row {page i : Nat} (hi : i < SECRET_ROWS) : Touches page (baseRow page + i) :=
  Or.inl ⟨by omega, by omega⟩

theorem touches_marker (page : Nat) : Touches page (markerRow page) :=
  Or.inl ⟨by unfold markerRow; omega, by unfold markerRow; omega⟩

theorem touches_void (page : Nat) : Touches page (voidRow page) :=
  Or.inl ⟨by unfold voidRow; omega, by unfold voidRow; omega⟩

/-- The two slots share no row. -/
theorem Touches.disjoint {page page' r : Nat} (hpage : page ∈ SLOT_PAGES) (hpage' : page' ∈ SLOT_PAGES)
    (hne : page ≠ page') (h : Touches page r) : ¬ Touches page' r := by
  simp only [SLOT_PAGES, List.mem_cons, List.not_mem_nil, or_false] at hpage hpage'
  unfold Touches lock1Row baseRow ROWS_PER_PAGE SECRET_ROWS at *
  omega

/-- The lock row is none of the rows below it. -/
theorem lock1Row_ne {page i : Nat} (hpage : page ∈ SLOT_PAGES) (hi : i < SECRET_ROWS + 2) :
    baseRow page + i ≠ lock1Row page := by
  simp only [SLOT_PAGES, List.mem_cons, List.not_mem_nil, or_false] at hpage
  unfold lock1Row baseRow ROWS_PER_PAGE
  unfold SECRET_ROWS at hi
  omega

theorem ReadsAs.congr {page : Nat} {s : Bytes 32} {row row' : Nat → Raw} (h : ReadsAs A page s row)
    (hsame : ∀ i, i < SECRET_ROWS → row' (baseRow page + i) = row (baseRow page + i)) :
    ReadsAs A page s row' := by
  intro i hi
  rw [hsame i hi]
  exact h i hi

theorem Holds.congr {page : Nat} {s : Bytes 32} {row row' : Nat → Raw} (h : Holds A page s row)
    (hsame : ∀ r, Touches page r → row' r = row r) : Holds A page s row' where
  rows := h.rows.congr fun i hi => hsame _ (touches_row hi)
  marker := by
    rw [hsame _ (touches_marker page)]
    exact h.marker
  void := by
    rw [hsame _ (touches_void page)]
    exact h.void
  lock := by
    unfold lockSet
    rw [hsame _ (Or.inr rfl)]
    exact h.lock
  sound := h.sound

theorem Holds.burned {R : Nat → Prop} {page : Nat} {s : Bytes 32} {c c' : Chip}
    (h : Holds A page s c.row) (hb : Burned R c c') (hR : ∀ r, Touches page r → ¬ R r) :
    Holds A page s c'.row := h.congr fun r hr => hb.row r (hR r hr)

/-! ### Loading a slot -/

/-- The rows `try_load` may burn. -/
def LoadBurns (page r : Nat) : Prop := r = voidRow page ∨ r = lock1Row page

inductive Loaded (A : Access) (page : Nat) (c : Chip) : SlotState → Chip → Prop
  | valid {s : Bytes 32} {c' : Chip} (hholds : Holds A page s c'.row)
      (hb : Burned (· = lock1Row page) c c') : Loaded A page c (.valid s) c'
  | blank (hmarker : A.readEcc (markerRow page) (c.row (markerRow page)) = some 0)
      (hvoid : A.readEcc (voidRow page) (c.row (voidRow page)) = some 0)
      (hrows : rowsBlank A c.row (baseRow page) = true) : Loaded A page c .blank c
  | unusable {c' : Chip} (hb : Burned (LoadBurns page) c c') : Loaded A page c .unusable c'

theorem wp_voided {page : Nat} {c c₁ : Chip} (hb : Burned (LoadBurns page) c c₁) :
    Wp (do
      voidSlot A page
      return .unusable : OtpM SlotState)
      (Loaded A page c) (fun _ c' => Burned (LoadBurns page) c c') c₁ := by
  rw [Wp_bind]
  have hvoid := stays_voidSlot (A := A) (R := LoadBurns page) (Or.inl rfl) c₁
  refine Wp.mono hvoid ?_ fun _ _ h => trans_of (Burned _) hb h
  intro _ c' h
  exact .unusable (trans_of (Burned _) hb h)

theorem wp_tryLoad {page : Nat} (hpage : page ∈ SLOT_PAGES) (c : Chip) :
    Wp (tryLoad A page) (Loaded A page c) (fun _ c' => Burned (LoadBurns page) c c') c := by
  have hrefl := refl_of (Burned (LoadBurns page)) c
  unfold tryLoad
  rw [Wp_bind, Wp_get]
  split
  · exact .unusable hrefl
  rename_i marker hmarker
  split
  · exact .unusable hrefl
  rename_i void hvoid
  split
  · exact .unusable hrefl
  rename_i hzero
  rw [not_not.mp hzero] at hvoid
  split
  · rename_i hvalid
    rw [hvalid] at hmarker
    split
    · exact .unusable hrefl
    rename_i secret hsecret
    split
    · exact wp_voided hrefl
    rename_i hsound
    rw [Wp_bind]
    have hlocked : ∀ c' : Chip, Burned (· = lock1Row page) c c' → Burned (LoadBurns page) c c' :=
      fun c' h => h.mono fun r hr => Or.inr hr
    refine Wp.mono (wp_ensureHardLock page c) ?_ fun _ c' h => hlocked c' h
    rintro r c' ⟨hb, hlock⟩
    cases r with
    | error e => exact wp_voided (hlocked c' hb)
    | ok _ =>
      -- the rows that were read are not the lock row
      have hsame : ∀ i, i < SECRET_ROWS + 2 → c'.row (baseRow page + i) = c.row (baseRow page + i) :=
        fun i hi => hb.row _ (lock1Row_ne hpage hi)
      refine .valid ⟨?_, ?_, ?_, hlock rfl, by simpa using hsound⟩ hb
      · exact (readSecret_eq_some.mp hsecret).congr fun i hi => hsame i (by omega)
      · unfold markerRow at hmarker ⊢
        rw [hsame SECRET_ROWS (by omega)]
        exact hmarker
      · unfold voidRow at hvoid ⊢
        rw [Nat.add_assoc] at hvoid ⊢
        rw [hsame (SECRET_ROWS + 1) (by omega)]
        exact hvoid
  · split
    · exact wp_voided hrefl
    rename_i hmarked
    rw [not_not.mp hmarked] at hmarker
    split
    · rename_i hrows
      exact .blank hmarker hvoid hrows
    · exact wp_voided hrefl

/-! ### Provisioning a slot -/

theorem wp_burnRows {page : Nat} (secret : Bytes 32) (count i : Nat) (c : Chip) :
    Wp (burnRows A page secret count i)
      (fun r c' => Burned (fun r => ∃ j, i ≤ j ∧ j < i + count ∧ r = baseRow page + j) c c' ∧
        (r = .ok () → ∀ j, i ≤ j → j < i + count →
          A.readEcc (baseRow page + j) (c'.row (baseRow page + j)) = some (secretWord secret j)))
      (fun _ c' => Burned (fun r => ∃ j, i ≤ j ∧ j < i + count ∧ r = baseRow page + j) c c') c := by
  induction count generalizing i c with
  | zero =>
    refine ⟨refl_of (Burned _) c, fun _ j hle hlt => ?_⟩
    omega
  | succ count ih =>
    have hfirst : ∀ c' : Chip, Burned (· = baseRow page + i) c c' →
        Burned (fun r => ∃ j, i ≤ j ∧ j < i + (count + 1) ∧ r = baseRow page + j) c c' :=
      fun c' h => h.mono fun r hr => ⟨i, le_rfl, by omega, hr⟩
    have hlater : ∀ c' c'' : Chip,
        Burned (fun r => ∃ j, i + 1 ≤ j ∧ j < i + 1 + count ∧ r = baseRow page + j) c' c'' →
        Burned (fun r => ∃ j, i ≤ j ∧ j < i + (count + 1) ∧ r = baseRow page + j) c' c'' :=
      fun c' c'' h => h.mono fun r hr => by
        obtain ⟨j, hle, hlt, heq⟩ := hr
        exact ⟨j, by omega, by omega, heq⟩
    unfold burnRows
    rw [Wp_bind]
    refine Wp.mono (wp_writeVerified (baseRow page + i) (secretWord secret i) c) ?_
      fun _ c' h => hfirst c' h
    rintro r c₁ ⟨hb, hread⟩
    cases r with
    | error e => exact ⟨hfirst c₁ hb, fun hok => nomatch hok⟩
    | ok _ =>
      refine Wp.mono (ih (i + 1) c₁) ?_ fun _ c' h => trans_of (Burned _) (hfirst c₁ hb) (hlater _ _ h)
      rintro r c' ⟨hb', hreads⟩
      refine ⟨trans_of (Burned _) (hfirst c₁ hb) (hlater _ _ hb'), fun hok j hle hlt => ?_⟩
      by_cases hj : j = i
      · -- the later rows leave row `i` as it was verified
        subst hj
        rw [hb'.row _ (by rintro ⟨k, hk, -, heq⟩; omega)]
        exact hread rfl
      · exact hreads hok j (by omega) (by omega)

theorem wp_drawSecret (P : Prims) (c : Chip) :
    Wp (drawSecret P) (fun r c' => Burned (fun _ => False) c c' ∧ ∀ s, r = .ok s → s ∈ c'.draws)
      (fun _ _ => False) c := by
  unfold drawSecret
  rw [Wp_bind, Wp_get]
  split
  · exact ⟨⟨fun _ _ => rfl, fun _ hs => hs⟩, fun s hok => nomatch hok⟩
  · refine ⟨⟨fun _ _ => rfl, fun _ hs => List.mem_cons_of_mem _ hs⟩, fun s hok => ?_⟩
    obtain rfl := Except.ok.inj hok
    exact List.mem_cons_self

/-- The marker row was never touched, or the rows read as one complete draw. -/
def SlotOk (A : Access) (page : Nat) (c : Chip) : Prop :=
  c.row (markerRow page) = 0 ∨
    ∃ s ∈ c.draws, degenerate s = false ∧ ReadsAs A page s c.row

/-- Burning other rows than the secret and its marker keeps a slot sound. -/
theorem SlotOk.burned {R : Nat → Prop} {page : Nat} {c c' : Chip} (h : SlotOk A page c)
    (hb : Burned R c c') (hR : ∀ i, i ≤ SECRET_ROWS → ¬ R (baseRow page + i)) : SlotOk A page c' := by
  rcases h with hmarker | ⟨s, hs, hsound, hreads⟩
  · exact Or.inl ((hb.row _ (hR SECRET_ROWS le_rfl)).trans hmarker)
  · exact Or.inr ⟨s, hb.draws s hs, hsound, hreads.congr fun i hi => hb.row _ (hR i (by omega))⟩

/-- What a provisioning attempt has done, wherever it ends. -/
structure Attempt (A : Access) (page : Nat) (c c' : Chip) : Prop where
  burned : Burned (Touches page) c c'
  sound : c.row (markerRow page) = 0 → SlotOk A page c'

/-- Voiding comes after everything that matters. -/
theorem wp_failed {page : Nat} {c c₁ : Chip} (ha : Attempt A page c c₁)
    (post : Except HalError (Bytes 32) → Chip → Prop)
    (hpost : ∀ c', Attempt A page c c' → post (.error .secret) c') :
    Wp (do
      voidSlot A page
      return .error .secret : OtpM (Except HalError (Bytes 32)))
      post (fun _ c' => Attempt A page c c') c₁ := by
  rw [Wp_bind]
  have hvoid : ∀ c', Burned (· = voidRow page) c₁ c' → Attempt A page c c' := by
    intro c' hb
    refine ⟨trans_of (Burned _) ha.burned (hb.mono fun r hr => hr ▸ touches_void page), ?_⟩
    intro hmarker
    refine (ha.sound hmarker).burned hb fun i hi heq => ?_
    unfold voidRow at heq
    omega
  have hstays := stays_voidSlot (A := A) (R := (· = voidRow page)) rfl c₁
  exact Wp.mono hstays (fun _ c' hb => hpost c' (hvoid c' hb)) fun _ c' hb => hvoid c' hb

/-- A provisioning that returns a secret has made the slot hold it; one that does
    not leaves the slot sound. -/
theorem wp_provision (P : Prims) {page : Nat} (hpage : page ∈ SLOT_PAGES) {c : Chip}
    (hvoid : A.readEcc (voidRow page) (c.row (voidRow page)) = some 0) :
    Wp (provision A P page)
      (fun r c' => Attempt A page c c' ∧
        ∀ s, r = .ok s → Holds A page s c'.row ∧ s ∈ c'.draws)
      (fun _ c' => Attempt A page c c') c := by
  have herror : ∀ (e : HalError) (c' : Chip), Attempt A page c c' → Attempt A page c c' ∧
      ∀ s, (Except.error e : Except HalError (Bytes 32)) = .ok s → Holds A page s c'.row ∧ s ∈ c'.draws :=
    fun e c' ha => ⟨ha, fun s hok => nomatch hok⟩
  unfold provision
  rw [Wp_bind]
  refine Wp.mono (wp_drawSecret P c) ?_ fun _ _ h => h.elim
  rintro r c₁ ⟨hb₁, hdraw⟩
  have hattempt₁ : Attempt A page c c₁ := by
    refine ⟨hb₁.mono fun _ h => h.elim, fun hmarker => Or.inl ?_⟩
    rw [hb₁.row _ not_false]
    exact hmarker
  cases r with
  | error e => exact herror e c₁ hattempt₁
  | ok secret =>
  dsimp only
  split
  · exact herror _ c₁ hattempt₁
  rename_i hsound
  rw [Bool.not_eq_true] at hsound
  rw [Wp_bind]
  -- while the rows are burned the marker is untouched
  have hattempt₂ : ∀ c' : Chip,
      Burned (fun r => ∃ j, 0 ≤ j ∧ j < 0 + SECRET_ROWS ∧ r = baseRow page + j) c₁ c' →
      Attempt A page c c' := by
    intro c' hb
    constructor
    · refine trans_of (Burned _) hattempt₁.burned (hb.mono ?_)
      rintro r ⟨j, -, hj, rfl⟩
      exact touches_row (by omega)
    · intro hmarker
      refine Or.inl ?_
      rw [hb.row _ (by rintro ⟨j, -, hj, heq⟩; unfold markerRow at heq; omega),
        hb₁.row _ not_false]
      exact hmarker
  refine Wp.mono (wp_burnRows secret SECRET_ROWS 0 c₁) ?_ fun _ c' hb => hattempt₂ c' hb
  rintro r c₂ ⟨hb₂, hrows⟩
  cases r with
  | error e => exact wp_failed (hattempt₂ c₂ hb₂) _ (herror _)
  | ok _ =>
  have hreads₂ : ReadsAs A page secret c₂.row := fun i hi => hrows rfl i (Nat.zero_le i) (by omega)
  have hdraw₂ : secret ∈ c₂.draws := hb₂.draws _ (hdraw secret rfl)
  dsimp only
  rw [Wp_bind]
  -- from here on the rows read as the draw
  have hattempt₃ : ∀ (R : Nat → Prop) (c' : Chip), Burned R c₂ c' → (∀ r, R r → Touches page r) →
      (∀ i, i < SECRET_ROWS → ¬ R (baseRow page + i)) →
      Attempt A page c c' ∧ ReadsAs A page secret c'.row ∧ secret ∈ c'.draws := by
    intro R c' hb hin hout
    have hreads : ReadsAs A page secret c'.row := hreads₂.congr fun i hi => hb.row _ (hout i hi)
    have hmem : secret ∈ c'.draws := hb.draws _ hdraw₂
    exact ⟨⟨trans_of (Burned _) (hattempt₂ c₂ hb₂).burned (hb.mono hin),
      fun _ => Or.inr ⟨secret, hmem, hsound, hreads⟩⟩, hreads, hmem⟩
  have hmarked : ∀ c', Burned (· = markerRow page) c₂ c' →
      Attempt A page c c' ∧ ReadsAs A page secret c'.row ∧ secret ∈ c'.draws := by
    intro c' hb
    refine hattempt₃ _ c' hb (fun r hr => hr ▸ touches_marker page) fun i hi heq => ?_
    unfold markerRow at heq
    omega
  refine Wp.mono (wp_writeVerified (markerRow page) MARKER_VALID c₂) ?_ fun _ c' hb => (hmarked c' hb).1
  rintro r c₃ ⟨hb₃, hmarker⟩
  cases r with
  | error e => exact wp_failed (hmarked c₃ hb₃).1 _ (herror _)
  | ok _ =>
  dsimp only
  rw [Wp_bind]
  have hlocked : ∀ c', Burned (· = lock1Row page) c₃ c' →
      Attempt A page c c' ∧ ReadsAs A page secret c'.row ∧ secret ∈ c'.draws := by
    intro c' hb
    have hboth : Burned (fun r => r = markerRow page ∨ r = lock1Row page) c₂ c' :=
      trans_of (Burned _) (hb₃.mono fun r hr => Or.inl hr) (hb.mono fun r hr => Or.inr hr)
    refine hattempt₃ _ c' hboth ?_ ?_
    · rintro r (rfl | rfl)
      · exact touches_marker page
      · exact Or.inr rfl
    · rintro i hi (heq | heq)
      · unfold markerRow at heq
        omega
      · exact lock1Row_ne hpage (by omega) heq
  refine Wp.mono (wp_ensureHardLock page c₃) ?_ fun _ c' hb => (hlocked c' hb).1
  rintro r c₄ ⟨hb₄, hlock⟩
  obtain ⟨hattempt₄, hreads₄, hdraw₄⟩ := hlocked c₄ hb₄
  cases r with
  | error e => exact wp_failed hattempt₄ _ (herror _)
  | ok _ =>
  refine ⟨hattempt₄, fun s hok => ?_⟩
  obtain rfl := Except.ok.inj hok
  have hmarkerNe : markerRow page ≠ lock1Row page := lock1Row_ne hpage (by omega)
  have hvoidNe : voidRow page ≠ lock1Row page := by
    unfold voidRow
    rw [Nat.add_assoc]
    exact lock1Row_ne hpage (by omega)
  refine ⟨⟨hreads₄, ?_, ?_, hlock rfl, hsound⟩, hdraw₄⟩
  · rw [hb₄.row _ hmarkerNe]
    exact hmarker rfl
  · have hrowsNe : ¬ ∃ j, 0 ≤ j ∧ j < 0 + SECRET_ROWS ∧ voidRow page = baseRow page + j := by
      rintro ⟨j, -, hj, heq⟩
      unfold voidRow at heq
      omega
    have hne : voidRow page ≠ markerRow page := by
      unfold voidRow markerRow
      omega
    rw [hb₄.row _ hvoidNe, hb₃.row _ hne, hb₂.row _ hrowsNe, hb₁.row _ not_false]
    exact hvoid

/-! ### A boot -/

def OtherLock (page r : Nat) : Prop := ∃ p ∈ SLOT_PAGES, p ≠ page ∧ r = lock1Row p

theorem OtherLock.not_touches {page r : Nat} (hpage : page ∈ SLOT_PAGES) (h : OtherLock page r) :
    ¬ Touches page r := by
  obtain ⟨p, hp, hne, rfl⟩ := h
  exact Touches.disjoint hp hpage hne (Or.inr rfl)

theorem stays_lockOthers (page : Nat) {pages : List Nat} (hpages : ∀ p ∈ pages, p ∈ SLOT_PAGES) :
    Stays (Burned (OtherLock page)) (lockOthers A page pages) := by
  induction pages with
  | nil => exact Stays.pure _
  | cons p rest ih =>
    have hrest := ih fun q hq => hpages q (List.mem_cons_of_mem p hq)
    unfold lockOthers
    by_cases hne : p ≠ page
    · rw [if_pos hne]
      refine Stays.bind (stays_ensureHardLock ?_) fun _ => hrest
      exact ⟨p, hpages p List.mem_cons_self, hne, rfl⟩
    · rw [if_neg hne]
      exact hrest

theorem wp_settle (page : Nat) (secret : Bytes 32) (c : Chip) :
    Wp (settle A page secret) (fun r c' => r = .ok secret ∧ Burned (OtherLock page) c c')
      (fun _ c' => Burned (OtherLock page) c c') c := by
  unfold settle
  rw [Wp_bind]
  exact Wp.mono (stays_lockOthers page (fun _ hp => hp) c) (fun _ _ hb => ⟨rfl, hb⟩) fun _ _ hb => hb

/-- Both slots are sound. -/
def SlotsOk (A : Access) (c : Chip) : Prop := ∀ page ∈ SLOT_PAGES, SlotOk A page c

theorem lock_not_secret {page p i : Nat} (hp : p ∈ SLOT_PAGES) (hi : i ≤ SECRET_ROWS) :
    baseRow page + i ≠ lock1Row p := by
  simp only [SLOT_PAGES, List.mem_cons, List.not_mem_nil, or_false] at hp
  unfold lock1Row baseRow ROWS_PER_PAGE
  unfold SECRET_ROWS at hi
  omega

theorem SlotsOk.settled {page : Nat} {c c' : Chip} (h : SlotsOk A c)
    (hb : Burned (OtherLock page) c c') : SlotsOk A c' := by
  intro page' hpage'
  refine (h page' hpage').burned hb ?_
  rintro i hi ⟨p, hp, -, heq⟩
  exact lock_not_secret hp hi heq

theorem SlotsOk.loaded {page : Nat} (hpage : page ∈ SLOT_PAGES) {c c' : Chip} (h : SlotsOk A c)
    (hb : Burned (LoadBurns page) c c') : SlotsOk A c' := by
  intro page' hpage'
  refine (h page' hpage').burned hb ?_
  rintro i hi (heq | heq)
  · simp only [SLOT_PAGES, List.mem_cons, List.not_mem_nil, or_false] at hpage hpage'
    unfold voidRow baseRow ROWS_PER_PAGE at heq
    unfold SECRET_ROWS at heq hi
    omega
  · exact lock_not_secret hpage hi heq

theorem SlotsOk.attempt {page : Nat} (hpage : page ∈ SLOT_PAGES) {c c' : Chip} (h : SlotsOk A c)
    (hmarker : c.row (markerRow page) = 0) (ha : Attempt A page c c') : SlotsOk A c' := by
  intro page' hpage'
  by_cases hsame : page' = page
  · rw [hsame]
    exact ha.sound hmarker
  · refine (h page' hpage').burned ha.burned fun i hi => ?_
    refine Touches.disjoint hpage' hpage hsame (Or.inl ⟨by omega, by omega⟩)

/-- A slot that reads blank has an untouched marker: otherwise its rows would read
    as a draw. -/
theorem SlotOk.marker_blank {page : Nat} {c : Chip} (h : SlotOk A page c)
    (hrows : rowsBlank A c.row (baseRow page) = true) : c.row (markerRow page) = 0 := by
  rcases h with hmarker | ⟨s, -, hsound, hreads⟩
  · exact hmarker
  · have hzero := degenerate_of_blank hrows hreads
    rw [hsound] at hzero
    cases hzero

/-- A slot that holds a secret holds one that was drawn. -/
theorem SlotOk.drawn {page : Nat} {s : Bytes 32} {c : Chip} (h : SlotOk A page c)
    (hholds : Holds A page s c.row) : s ∈ c.draws := by
  rcases h with hmarker | ⟨s', hs', -, hreads⟩
  · have hvalid := hholds.marker
    rw [hmarker, A.readEcc_blank] at hvalid
    exact absurd hvalid (by decide)
  · rw [hholds.rows.unique hreads]
    exact hs'

/-- What a boot may return. -/
def Returns (A : Access) (r : Except HalError (Bytes 32)) (c : Chip) : Prop :=
  ∀ s, r = .ok s → ∃ page ∈ SLOT_PAGES, Holds A page s c.row ∧ s ∈ c.draws

theorem wp_settled {page : Nat} (hpage : page ∈ SLOT_PAGES) {s : Bytes 32} {c : Chip}
    (hok : SlotsOk A c) (hholds : Holds A page s c.row) :
    Wp (settle A page s) (fun r c' => SlotsOk A c' ∧ Returns A r c') (fun _ c' => SlotsOk A c') c := by
  refine Wp.mono (wp_settle page s c) ?_ fun _ _ hb => hok.settled hb
  rintro r c' ⟨rfl, hb⟩
  have hok' := hok.settled hb
  have hholds' := hholds.burned hb fun r hr hother => hother.not_touches hpage hr
  refine ⟨hok', fun s' heq => ?_⟩
  obtain rfl := Except.ok.inj heq
  exact ⟨page, hpage, hholds', (hok' page hpage).drawn hholds'⟩

/-- The step lemma: a boot keeps both slots sound, and returns what one of them
    holds. -/
theorem wp_loadFrom (P : Prims) {pages : List Nat} (hpages : ∀ p ∈ pages, p ∈ SLOT_PAGES) {c : Chip}
    (hok : SlotsOk A c) :
    Wp (loadFrom A P pages) (fun r c' => SlotsOk A c' ∧ Returns A r c') (fun _ c' => SlotsOk A c')
      c := by
  induction pages generalizing c with
  | nil => exact ⟨hok, fun s heq => nomatch heq⟩
  | cons page rest ih =>
    have hpage := hpages page List.mem_cons_self
    have hrest : ∀ {c : Chip}, SlotsOk A c → Wp (loadFrom A P rest)
        (fun r c' => SlotsOk A c' ∧ Returns A r c') (fun _ c' => SlotsOk A c') c :=
      ih fun p hp => hpages p (List.mem_cons_of_mem page hp)
    unfold loadFrom
    rw [Wp_bind]
    refine Wp.mono (wp_tryLoad hpage c) ?_ fun _ _ hb => hok.loaded hpage hb
    intro r c₁ hloaded
    cases hloaded with
    | valid hholds hb => exact wp_settled hpage (hok.loaded hpage (hb.mono fun _ => Or.inr)) hholds
    | unusable hb => exact hrest (hok.loaded hpage hb)
    | blank hmarker hvoid hrows =>
      have huntouched := (hok page hpage).marker_blank hrows
      dsimp only
      rw [Wp_bind]
      refine Wp.mono (wp_provision P hpage hvoid) ?_ fun _ _ ha => hok.attempt hpage huntouched ha
      rintro r c₂ ⟨ha, hreturns⟩
      have hok₂ := hok.attempt hpage huntouched ha
      cases r with
      | ok s => exact wp_settled hpage hok₂ (hreturns s rfl).1
      | error e =>
        cases e with
        | entropy => exact ⟨hok₂, fun s heq => nomatch heq⟩
        | flash => exact hrest hok₂
        | outOfRange => exact hrest hok₂
        | secret => exact hrest hok₂

end Slots

/-! ### Every history -/

section Histories

variable {A : Access} {P : Prims}

theorem slotsOk_start {rows : Nat → Raw} (hblank : BlankSlots rows) :
    SlotsOk A { row := rows, burns := [], entropy := [], draws := [] } :=
  fun page hpage => Or.inl (hblank page hpage SECRET_ROWS (by omega))

theorem Chip.boot_spec {c : Chip} (hok : SlotsOk A c) (b : Boot) :
    SlotsOk A (c.boot A P b).after ∧
      ∀ s, (c.boot A P b).result = some (.ok s) →
        ∃ page ∈ SLOT_PAGES, Holds A page s (c.boot A P b).after.row ∧
          s ∈ (c.boot A P b).after.draws := by
  have hbefore : SlotsOk A { c with burns := b.burns, entropy := b.entropy } := hok
  have hwp := wp_loadFrom (A := A) P (fun _ hp => hp) hbefore
  unfold Chip.boot loadOrProvision
  unfold Wp at hwp
  dsimp only
  split at hwp
  · rename_i r after hrun
    rw [hrun]
    exact ⟨hwp.1, fun s heq => hwp.2 s (Option.some.inj heq)⟩
  · rename_i e after hrun
    rw [hrun]
    exact ⟨hwp, fun s heq => nomatch heq⟩

/-- The run lemma. -/
theorem History.slotsOk {rows : Nat → Raw} {hist : List Moment} {c : Chip} (hblank : BlankSlots rows)
    (h : History A P rows hist c) : SlotsOk A c := by
  induction h with
  | start => exact slotsOk_start hblank
  | boot _ b ih => exact (Chip.boot_spec ih b).1

/-- A boot returns one complete, verified and locked draw, or nothing. -/
theorem secret_is_one_draw {rows : Nat → Raw} {hist : List Moment} {c : Chip} {m : Moment}
    {s : Bytes 32} (hblank : BlankSlots rows) (h : History A P rows hist c) (hm : m ∈ hist)
    (hok : m.result = some (.ok s)) :
    ∃ page ∈ SLOT_PAGES, s ∈ m.after.draws ∧
      (∀ i, i < SECRET_ROWS →
        A.readEcc (baseRow page + i) (m.after.row (baseRow page + i)) = some (secretWord s i)) ∧
      A.readEcc (markerRow page) (m.after.row (markerRow page)) = some MARKER_VALID ∧
      A.readEcc (voidRow page) (m.after.row (voidRow page)) = some 0 ∧
      m.after.row (lock1Row page) &&& LOCK1_VALUE = LOCK1_VALUE ∧
      s ≠ Vector.replicate 32 0x00 ∧ s ≠ Vector.replicate 32 0xFF := by
  induction h with
  | start => cases hm
  | @boot hist c h b ih =>
    rcases List.mem_cons.mp hm with rfl | hm
    · obtain ⟨page, hpage, hholds, hdraw⟩ := (Chip.boot_spec (h.slotsOk hblank) b).2 s hok
      refine ⟨page, hpage, hdraw, hholds.rows, hholds.marker, hholds.void, hholds.lock_bits, ?_, ?_⟩
      · intro hzero
        have hsound := hholds.sound
        rw [hzero] at hsound
        exact absurd hsound (by decide)
      · intro hones
        have hsound := hholds.sound
        rw [hones] at hsound
        exact absurd hsound (by decide)
    · exact ih hm

/-! ### The same secret at every boot -/

/-- A fully blank slot, as `try_load` sees it. -/
def ReadsBlank (A : Access) (page : Nat) (row : Nat → Raw) : Prop :=
  A.readEcc (markerRow page) (row (markerRow page)) = some 0 ∧
    A.readEcc (voidRow page) (row (voidRow page)) = some 0 ∧ rowsBlank A row (baseRow page) = true

/-- A slot with a secret, as `try_load` sees it before it looks at the lock. -/
def ReadsValid (A : Access) (page : Nat) (row : Nat → Raw) : Prop :=
  A.readEcc (markerRow page) (row (markerRow page)) = some MARKER_VALID ∧
    A.readEcc (voidRow page) (row (voidRow page)) = some 0 ∧
    ∃ s, readSecret A row (baseRow page) = some s ∧ degenerate s = false

/-- A slot that no boot can use any more. -/
def Abandoned (A : Access) (page : Nat) (row : Nat → Raw) : Prop :=
  ¬ ReadsBlank A page row ∧ ¬ ReadsValid A page row

theorem wp_tryLoad_abandoned {page : Nat} (hpage : page ∈ SLOT_PAGES) {c : Chip}
    (hab : Abandoned A page c.row) :
    Wp (tryLoad A page) (fun r c' => r = .unusable ∧ Burned (LoadBurns page) c c')
      (fun _ c' => Burned (LoadBurns page) c c') c := by
  refine Wp.mono (wp_tryLoad hpage c) ?_ fun _ _ hb => hb
  intro r c' hloaded
  cases hloaded with
  | unusable hb => exact ⟨rfl, hb⟩
  | blank hmarker hvoid hrows => exact absurd ⟨hmarker, hvoid, hrows⟩ hab.1
  | @valid s c' hholds hb =>
    -- the lock is not among the rows that make a slot valid
    have hsame : ∀ i, i < SECRET_ROWS + 2 → c'.row (baseRow page + i) = c.row (baseRow page + i) :=
      fun i hi => hb.row _ (lock1Row_ne hpage hi)
    have hmarker : c'.row (markerRow page) = c.row (markerRow page) := hsame SECRET_ROWS (by omega)
    have hvoid : c'.row (voidRow page) = c.row (voidRow page) := hsame (SECRET_ROWS + 1) (by omega)
    refine absurd ⟨?_, ?_, s, ?_, hholds.sound⟩ hab.2
    · rw [← hmarker]
      exact hholds.marker
    · rw [← hvoid]
      exact hholds.void
    · exact readSecret_eq_some.mpr (hholds.rows.congr fun i hi => (hsame i (by omega)).symm)

theorem wp_tryLoad_holds {page : Nat} {s : Bytes 32} {c : Chip} (hholds : Holds A page s c.row) :
    Wp (tryLoad A page) (fun r c' => r = .valid s ∧ c' = c) (fun _ _ => False) c := by
  have hreadable : (A.readRaw (lock1Row page) (c.row (lock1Row page))).isNone = false := by
    have hlock := hholds.lock
    unfold lockSet at hlock
    rw [Option.any_eq_true] at hlock
    obtain ⟨v, hv, -⟩ := hlock
    rw [hv]
    rfl
  unfold tryLoad
  rw [Wp_bind, Wp_get, hholds.marker, hholds.void]
  dsimp only
  rw [if_neg (by simp), if_pos rfl, readSecret_eq_some.mpr hholds.rows]
  dsimp only
  rw [hholds.sound, if_neg (by simp), Wp_bind]
  unfold ensureHardLock
  rw [Wp_bind, Wp_get, hreadable, if_neg (by simp), hholds.lock, if_pos rfl]
  exact ⟨rfl, rfl⟩

theorem primary_mem : 61 ∈ SLOT_PAGES := by decide

theorem fallback_mem : 60 ∈ SLOT_PAGES := by decide

/-- A boot that finds a secret in the primary slot returns it and leaves it there. -/
theorem wp_load_primary {s : Bytes 32} {c : Chip} (hholds : Holds A 61 s c.row) :
    Wp (loadOrProvision A P) (fun r c' => r = .ok s ∧ Holds A 61 s c'.row)
      (fun _ c' => Holds A 61 s c'.row) c := by
  have hkept : ∀ c', Burned (OtherLock 61) c c' → Holds A 61 s c'.row := fun c' hb =>
    hholds.burned hb fun r hr hother => hother.not_touches primary_mem hr
  unfold loadOrProvision SLOT_PAGES loadFrom
  rw [Wp_bind]
  refine Wp.mono (wp_tryLoad_holds hholds) ?_ fun _ _ h => h.elim
  rintro r c₁ ⟨rfl, rfl⟩
  exact Wp.mono (wp_settle 61 s c₁) (fun _ c' h => ⟨h.1, hkept c' h.2⟩) fun _ c' hb => hkept c' hb

/-- So does one that finds the primary slot abandoned and a secret in the other. -/
theorem wp_load_fallback {s : Bytes 32} {c : Chip} (hab : Abandoned A 61 c.row)
    (hholds : Holds A 60 s c.row) :
    Wp (loadOrProvision A P) (fun r c' => r = .ok s ∧ Holds A 60 s c'.row)
      (fun _ c' => Holds A 60 s c'.row) c := by
  have hloads : ∀ c', Burned (LoadBurns 61) c c' → Holds A 60 s c'.row := by
    intro c' hb
    refine hholds.burned hb fun r hr hburns => ?_
    have htouches : Touches 61 r := by
      rcases hburns with rfl | rfl
      · exact touches_void 61
      · exact Or.inr rfl
    exact Touches.disjoint primary_mem fallback_mem (by decide) htouches hr
  unfold loadOrProvision SLOT_PAGES loadFrom
  rw [Wp_bind]
  refine Wp.mono (wp_tryLoad_abandoned primary_mem hab) ?_ fun _ c' hb => hloads c' hb
  rintro r c₁ ⟨rfl, hb₁⟩
  have hholds₁ := hloads c₁ hb₁
  have hkept : ∀ c', Burned (OtherLock 60) c₁ c' → Holds A 60 s c'.row := fun c' hb =>
    hholds₁.burned hb fun r hr hother => hother.not_touches fallback_mem hr
  dsimp only
  unfold loadFrom
  rw [Wp_bind]
  refine Wp.mono (wp_tryLoad_holds hholds₁) ?_ fun _ _ h => h.elim
  rintro r c₂ ⟨rfl, rfl⟩
  exact Wp.mono (wp_settle 60 s c₂) (fun _ c' h => ⟨h.1, hkept c' h.2⟩) fun _ c' hb => hkept c' hb

/-- A chip whose fallback slot holds a secret has its primary slot abandoned. -/
def PrimaryOut (A : Access) (row : Nat → Raw) : Prop :=
  (∃ s, Holds A 60 s row) → Abandoned A 61 row

/-- Where the secrets that were returned are. -/
def Kept (A : Access) (hist : List Moment) (c : Chip) : Prop :=
  ∀ m ∈ hist, ∀ s, m.result = some (.ok s) → Holds A 61 s c.row ∨ Holds A 60 s c.row

/-- The step lemma: the next boot returns what was returned before, and keeps it. -/
theorem Kept.boot {hist : List Moment} {c : Chip} {m : Moment} {s : Bytes 32} (hk : Kept A hist c)
    (b : Boot) (hout : PrimaryOut A (c.boot A P b).before.row)
    (hm : m ∈ hist) (hok : m.result = some (.ok s)) :
    (∀ s', (c.boot A P b).result = some (.ok s') → s' = s) ∧
      (Holds A 61 s (c.boot A P b).after.row ∨ Holds A 60 s (c.boot A P b).after.row) := by
  have hrow : (c.boot A P b).before.row = c.row := by
    unfold Chip.boot
    dsimp only
    split <;> rfl
  rw [hrow] at hout
  have hends : ∀ page, Wp (loadOrProvision A P) (fun r c' => r = .ok s ∧ Holds A page s c'.row)
      (fun _ c' => Holds A page s c'.row) { c with burns := b.burns, entropy := b.entropy } →
      (∀ s', (c.boot A P b).result = some (.ok s') → s' = s) ∧
        Holds A page s (c.boot A P b).after.row := by
    intro page hwp
    unfold Wp at hwp
    unfold Chip.boot
    dsimp only
    split at hwp
    · rename_i r c' hrun
      obtain ⟨rfl, hholds⟩ := hwp
      rw [hrun]
      exact ⟨fun s' heq => (Except.ok.inj (Option.some.inj heq)).symm, hholds⟩
    · rename_i e c' hrun
      rw [hrun]
      exact ⟨fun s' heq => (nomatch heq), hwp⟩
  rcases hk m hm s hok with hprimary | hfallback
  · obtain ⟨hsame, hholds⟩ := hends 61 (wp_load_primary hprimary)
    exact ⟨hsame, Or.inl hholds⟩
  · obtain ⟨hsame, hholds⟩ := hends 60 (wp_load_fallback (hout ⟨s, hfallback⟩) hfallback)
    exact ⟨hsame, Or.inr hholds⟩

/-- The run lemma: as long as the primary slot stays out of the way, what was
    returned once is kept. -/
theorem History.kept {rows : Nat → Raw} {hist : List Moment} {c : Chip} (h : History A P rows hist c)
    (hblank : BlankSlots rows) (hout : ∀ m ∈ hist, PrimaryOut A m.before.row) : Kept A hist c := by
  induction h with
  | start =>
    intro m hm
    cases hm
  | @boot hist c h b ih =>
    obtain ⟨hhere, holder⟩ := List.forall_mem_cons.mp hout
    intro m hm s hok
    rcases List.mem_cons.mp hm with rfl | hm
    · obtain ⟨page, hpage, hholds, -⟩ := (Chip.boot_spec (h.slotsOk hblank) b).2 s hok
      simp only [SLOT_PAGES, List.mem_cons, List.not_mem_nil, or_false] at hpage
      rcases hpage with rfl | rfl
      · exact Or.inl hholds
      · exact Or.inr hholds
    · exact ((ih holder).boot b hhere hm hok).2

/-- As long as every boot that finds a secret in the fallback slot finds the primary
    one abandoned, all boots that return a secret return the same one. -/
theorem secret_stable {rows : Nat → Raw} {hist : List Moment} {c : Chip}
    (h : History A P rows hist c) (hblank : BlankSlots rows)
    (hout : ∀ m ∈ hist, PrimaryOut A m.before.row) :
    hist.Pairwise fun later earlier => ∀ s s', earlier.result = some (.ok s) →
      later.result = some (.ok s') → s' = s := by
  induction h with
  | start => exact List.Pairwise.nil
  | @boot hist c h b ih =>
    obtain ⟨hhere, holder⟩ := List.forall_mem_cons.mp hout
    apply List.Pairwise.cons
    · intro m hm s s' hok hok'
      exact ((h.kept hblank holder).boot b hhere hm hok).1 s' hok'
    · exact ih holder

end Histories

namespace Bench

/-- Rows that hold their word in the low bits. -/
def access : Access where
  encode w := w.setWidth 24
  readEcc _ x := some (x.setWidth 16)
  readRaw _ x := some x
  readEcc_blank _ := rfl
  readRaw_eq _ _ _ h := (Option.some.inj h).symm

/-- The generator repeats the first byte of the sample it was seeded with, which
    follows the nineteen bytes of the domain. -/
def prims : Prims := { Prims.bench [] with rngFromSeed := fun seed => seed.toList.getD 19 0 }

/-- A healthy sample that starts with `first`. -/
def sample (first : UInt8) : Sample := .ok (Vector.ofFn fun i => first + UInt8.ofNat (i.val % 5))

def blankRows : Nat → Raw := fun _ => 0

/-- The first write fails; the slot is voided and the fallback is provisioned. -/
def voidedBoot : Boot := { burns := [.fail 0], entropy := [sample 1, sample 2] }

/-- The first write fails, and so do the writes that void and lock the slot. -/
def tracelessBoot : Boot where
  burns := [.fail 0, .fail 0] ++ List.replicate 18 .ok ++ [.fail 0]
  entropy := [sample 1, sample 2]

def nextBoot : Boot := { burns := [], entropy := [sample 3] }

def chip : Chip := { row := blankRows, burns := [], entropy := [], draws := [] }

/-- What the two boots of a history return. -/
def twice (b b' : Boot) : Option (Except HalError (Bytes 32)) × Option (Except HalError (Bytes 32)) :=
  ((chip.boot access prims b).result, ((chip.boot access prims b).after.boot access prims b').result)

theorem history_once (b : Boot) : History access prims blankRows [chip.boot access prims b]
    (chip.boot access prims b).after := .boot .start b

theorem history_twice (b b' : Boot) :
    History access prims blankRows [(chip.boot access prims b).after.boot access prims b',
      chip.boot access prims b] ((chip.boot access prims b).after.boot access prims b').after :=
  .boot (history_once b) b'

theorem blankRows_blank : BlankSlots blankRows := fun _ _ _ _ => rfl

end Bench

/-- A boot that provisions the fallback slot returns what it drew. -/
theorem secret_is_one_draw_fallback :
    ∃ (m : Moment) (s : Bytes 32), m = Bench.chip.boot Bench.access Bench.prims Bench.voidedBoot ∧
      m.result = some (.ok s) ∧ s ∈ m.after.draws := by
  have hresult : (Bench.chip.boot Bench.access Bench.prims Bench.voidedBoot).result =
      some (.ok (Vector.replicate 32 2)) := by decide +kernel
  obtain ⟨page, -, hdraw, -⟩ := secret_is_one_draw Bench.blankRows_blank
    (Bench.history_once Bench.voidedBoot) List.mem_cons_self hresult
  exact ⟨Bench.chip.boot Bench.access Bench.prims Bench.voidedBoot, _, Eq.refl _, hresult, hdraw⟩

/-- With the primary slot voided, the next boot returns the fallback's secret again. -/
theorem secret_stable_voided :
    ∃ (hist : List Moment) (c : Chip) (m m' : Moment) (s : Bytes 32),
      BlankSlots Bench.blankRows ∧ History Bench.access Bench.prims Bench.blankRows hist c ∧
      hist = [m', m] ∧ Abandoned Bench.access 61 m'.before.row ∧
      m.result = some (.ok s) ∧ m'.result = some (.ok s) := by
  have hresults : Bench.twice Bench.voidedBoot Bench.nextBoot =
      (some (.ok (Vector.replicate 32 2)), some (.ok (Vector.replicate 32 2))) := by decide +kernel
  have hfirst : Bench.access.readEcc (markerRow 60)
      ((Bench.chip.boot Bench.access Bench.prims Bench.voidedBoot).before.row (markerRow 60)) =
        some 0 := by decide +kernel
  have hvoid : Bench.access.readEcc (voidRow 61)
      (((Bench.chip.boot Bench.access Bench.prims Bench.voidedBoot).after.boot Bench.access
        Bench.prims Bench.nextBoot).before.row (voidRow 61)) ≠ some 0 := by decide +kernel
  have hhist := Bench.history_twice Bench.voidedBoot Bench.nextBoot
  unfold Bench.twice at hresults
  rw [Prod.mk.injEq] at hresults
  generalize Bench.chip.boot Bench.access Bench.prims Bench.voidedBoot = m
    at hresults hfirst hvoid hhist
  generalize m.after.boot Bench.access Bench.prims Bench.nextBoot = m' at hresults hvoid hhist
  have hab : Abandoned Bench.access 61 m'.before.row :=
    ⟨fun hblank => hvoid hblank.2.1, fun hvalid => hvoid hvalid.2.1⟩
  have hout : ∀ m₀ ∈ [m', m], PrimaryOut Bench.access m₀.before.row := by
    intro m₀ hm₀
    simp only [List.mem_cons, List.not_mem_nil, or_false] at hm₀
    rcases hm₀ with rfl | rfl
    · exact fun _ => hab
    · intro hholds
      obtain ⟨s, hs⟩ := hholds
      have hmarker := hfirst.symm.trans hs.marker
      exact absurd hmarker (by decide)
  have hstable := secret_stable hhist Bench.blankRows_blank hout
  obtain ⟨s, hs⟩ : ∃ s, m.result = some (.ok s) := ⟨_, hresults.1⟩
  obtain ⟨s', hs'⟩ : ∃ s', m'.result = some (.ok s') := ⟨_, hresults.2⟩
  have hsame : s' = s := (List.pairwise_cons.mp hstable).1 m List.mem_cons_self s s' hs hs'
  rw [hsame] at hs'
  exact ⟨_, _, m, m', s, Bench.blankRows_blank, hhist, Eq.refl _, hab, hs, hs'⟩

/-- A first boot whose writes to the primary slot leave no trace returns the secret
    it burned into the fallback; the next boot burns another one into the primary. -/
theorem traceless_failure_changes_secret :
    ∃ (hist : List Moment) (c : Chip) (m m' : Moment) (s s' : Bytes 32),
      BlankSlots Bench.blankRows ∧ History Bench.access Bench.prims Bench.blankRows hist c ∧
      hist = [m', m] ∧ m.result = some (.ok s) ∧ m'.result = some (.ok s') ∧ s ≠ s' := by
  have hresults : Bench.twice Bench.tracelessBoot Bench.nextBoot =
      (some (.ok (Vector.replicate 32 2)), some (.ok (Vector.replicate 32 3))) := by decide +kernel
  unfold Bench.twice at hresults
  rw [Prod.mk.injEq] at hresults
  refine ⟨_, _, _, _, _, _, Bench.blankRows_blank,
    Bench.history_twice Bench.tracelessBoot Bench.nextBoot, Eq.refl _, hresults.1, hresults.2, ?_⟩
  decide

end PicoSignet.Otp
