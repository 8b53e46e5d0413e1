/-
  PicoSignet/Randomness.lean
  ==========================
  **Where random values come from** — the seed, salt and nonce of a stored key are
  drawn from a generator that the same request re-keyed with a healthy sample, and
  those of a certificate from one that such a sample seeded since the power-up.  The
  invariant is `SeededFrom`: the flag of the generator is a claim about its past, and
  nothing but a healthy sample makes it true.
-/
import PicoSignet.Health
import PicoSignet.Destructive

set_option autoImplicit false

namespace PicoSignet

open Crash

variable {P : Prims}

/-! ### What a generator can go through -/

/-- The generator keyed from a first sample. -/
def Drbg.seededBy (d : Drbg P) (raw : Bytes SEED_SAMPLE) : Drbg P :=
  { d.reinit "usbhsm-drbg-seed-v1" none raw.toList with seeded := true }

/-- The generator re-keyed from its state and a sample. -/
def Drbg.reseededBy (d : Drbg P) (raw : Bytes SEED_SAMPLE) : Drbg P :=
  let (cur, rng) := P.rngFill d.rng 32
  { d with rng }.reinit "usbhsm-drbg-reseed-v1" (some cur) raw.toList

/-- The source yields this sample, and it passes the health tests. -/
def Supplies (source : Entropy) (raw : Bytes SEED_SAMPLE) : Prop :=
  .ok raw ∈ source ∧ Healthy raw.toList

/-- A draw, as the caller gets it. -/
inductive Drawn where
  | bytes (b : Octets)
  | word (v : UInt64)

/-- Drawing these values in turn takes one generator to the other. -/
inductive Drbg.Yields (d : Drbg P) : List Drawn → Drbg P → Prop
  | start : d.Yields [] d
  | array {vs : List Drawn} {d' : Drbg P} (h : d.Yields vs d') (n : Nat) :
      d.Yields (vs ++ [.bytes (d'.randomArray n).1.toList]) (d'.randomArray n).2
  | word {vs : List Drawn} {d' : Drbg P} (h : d.Yields vs d') :
      d.Yields (vs ++ [.word d'.nextU64.1]) d'.nextU64.2

/-- The generator was seeded from a healthy sample of the source; since then it was
    re-keyed, mixed and drawn from. -/
inductive Drbg.Grown (source : Entropy) : Drbg P → Prop
  | seeded (d : Drbg P) {raw : Bytes SEED_SAMPLE} (h : Supplies source raw) :
      Grown source (d.seededBy raw)
  | reseeded {d : Drbg P} {raw : Bytes SEED_SAMPLE} (hd : Grown source d) (h : Supplies source raw) :
      Grown source (d.reseededBy raw)
  | mixed {d : Drbg P} (hd : Grown source d) (host : Octets) : Grown source (d.mixHost host)
  | drew {d d' : Drbg P} {vs : List Drawn} (hd : Grown source d) (hy : d.Yields vs d') :
      Grown source d'

theorem Supplies.mono {source source' : Entropy} {raw : Bytes SEED_SAMPLE}
    (h : Supplies source raw) (hsub : source <:+ source') : Supplies source' raw :=
  ⟨hsub.subset h.1, h.2⟩

theorem supplies_of_gather {tries : Nat} {e e' : Entropy} {raw : Bytes SEED_SAMPLE}
    (h : gatherHealthy tries e = (.ok raw, e')) : Supplies e raw := by
  obtain ⟨hraw, hsuffix⟩ := gatherHealthy_ok h
  exact ⟨hsuffix.subset List.mem_cons_self, hraw⟩

theorem suffix_of_gather {tries : Nat} {e e' : Entropy} {r : Except HalError (Bytes SEED_SAMPLE)}
    (h : gatherHealthy tries e = (r, e')) : e' <:+ e := by
  have hsuffix := gatherHealthy_suffix tries e
  rw [h] at hsuffix
  exact hsuffix

/-- One gathering has a healthy sample within reach: sixteen reads, up to an error. -/
def Finds (e : Entropy) : Prop :=
  ∃ raw, .ok raw ∈ (e.take MAX_HEALTH_RETRIES).takeWhile Except.isOk ∧ Healthy raw.toList

theorem Finds.of_gather {e e' : Entropy} {raw : Bytes SEED_SAMPLE}
    (h : gatherHealthy MAX_HEALTH_RETRIES e = (.ok raw, e')) : Finds e :=
  (gatherHealthy_finds_iff _ _).1 ⟨raw, e', h⟩

theorem not_finds_of_gather {e e' : Entropy} {err : HalError}
    (h : gatherHealthy MAX_HEALTH_RETRIES e = (.error err, e')) : ¬ Finds e := by
  intro hfinds
  obtain ⟨raw, e'', hok⟩ := (gatherHealthy_finds_iff _ _).2 hfinds
  rw [h] at hok
  cases hok

theorem seed_eq (d : Drbg P) (e : Entropy) :
    d.seed e = match gatherHealthy MAX_HEALTH_RETRIES e with
      | (.error err, e') => (.error err, e')
      | (.ok raw, e') => (.ok (d.seededBy raw), e') := rfl

theorem reseed_eq (d : Drbg P) (e : Entropy) :
    d.reseed e = match gatherHealthy MAX_HEALTH_RETRIES e with
      | (.error err, e') => (.error err, e')
      | (.ok raw, e') => (.ok (d.reseededBy raw), e') := rfl

theorem Drbg.Yields.seeded {d d' : Drbg P} {vs : List Drawn} (h : d.Yields vs d') :
    d'.seeded = d.seeded := by
  induction h with
  | start => rfl
  | array _ n ih => exact ih
  | word _ ih => exact ih

/-! ### The flag says the truth -/

/-- If the generator counts as seeded, a healthy sample of `source` made it so. -/
structure SeededFrom (source : Entropy) (h : Hsm P) : Prop where
  ahead : h.entropy <:+ source
  grown : h.drbg.seeded = true → h.drbg.Grown source

/-- The program keeps the flag true to its past. -/
def KeepsSeeding {α : Type} (m : Dev P α) : Prop :=
  ∀ source h, SeededFrom source h →
    Wp m (fun _ h' => SeededFrom source h') (fun _ h' => SeededFrom source h') h

theorem SeededFrom.of_parts {source : Entropy} {h h' : Hsm P} (hs : SeededFrom source h)
    (hparts : h'.parts = h.parts) : SeededFrom source h' := by
  have hdrbg : h'.drbg = h.drbg := congrArg (fun x => x.2.1) hparts
  have hentropy : h'.entropy = h.entropy := congrArg (fun x => x.2.2) hparts
  constructor
  · rw [hentropy]
    exact hs.ahead
  · rw [hdrbg]
    exact hs.grown

/-- The outcomes of `ensure_seeded`. -/
inductive Ensured (h : Hsm P) : Except HalError Unit → Hsm P → Prop
  | already (hseeded : h.drbg.seeded = true) : Ensured h (.ok ()) h
  | seeded {raw : Bytes SEED_SAMPLE} {e' : Entropy} (hunseeded : h.drbg.seeded = false)
      (hgather : gatherHealthy MAX_HEALTH_RETRIES h.entropy = (.ok raw, e')) :
      Ensured h (.ok ()) { h with drbg := h.drbg.seededBy raw, entropy := e' }
  | failed {err : HalError} {e' : Entropy} (hunseeded : h.drbg.seeded = false)
      (hgather : gatherHealthy MAX_HEALTH_RETRIES h.entropy = (.error err, e')) :
      Ensured h (.error err) { h with entropy := e' }

theorem wp_ensureSeeded (h : Hsm P) :
    Wp (ensureSeeded : Dev P (Except HalError Unit)) (Ensured h) (fun _ _ => False) h := by
  unfold ensureSeeded
  rw [Wp_bind, Wp_get]
  split
  · rename_i hseeded
    exact .already hseeded
  · rename_i hno
    have hunseeded : h.drbg.seeded = false := by simpa using hno
    rw [seed_eq]
    cases hgather : gatherHealthy MAX_HEALTH_RETRIES h.entropy with
    | mk r e' =>
    cases r with
    | error err => exact .failed hunseeded hgather
    | ok raw => exact .seeded hunseeded hgather

theorem Ensured.isSeeded {h h' : Hsm P} (hens : Ensured h (.ok ()) h') : h'.drbg.seeded = true := by
  cases hens with
  | already hseeded => exact hseeded
  | seeded => rfl

theorem SeededFrom.ensured {source : Entropy} {h h' : Hsm P} {r : Except HalError Unit}
    (hs : SeededFrom source h) (hens : Ensured h r h') : SeededFrom source h' := by
  cases hens with
  | already => exact hs
  | seeded _ hgather =>
    have hsupplies := (supplies_of_gather hgather).mono hs.ahead
    exact ⟨(suffix_of_gather hgather).trans hs.ahead, fun _ => .seeded h.drbg hsupplies⟩
  | failed _ hgather => exact ⟨(suffix_of_gather hgather).trans hs.ahead, hs.grown⟩

theorem keepsSeeding_ensureSeeded : KeepsSeeding (ensureSeeded : Dev P (Except HalError Unit)) :=
  fun _ h hs => Wp.mono (wp_ensureSeeded h) (fun _ _ hens => hs.ensured hens) fun _ _ he => he.elim

theorem keepsSeeding_draw {α : Type} {m : Dev P α}
    (hm : ∀ h, Wp m (fun _ h' => h'.entropy = h.entropy ∧ ∃ vs, h.drbg.Yields vs h'.drbg)
      (fun _ _ => False) h) : KeepsSeeding m := by
  intro source h hs
  refine Wp.mono (hm h) ?_ fun _ _ he => he.elim
  intro a h' hdraw
  obtain ⟨hentropy, vs, hyields⟩ := hdraw
  constructor
  · rw [hentropy]
    exact hs.ahead
  · intro hseeded
    rw [hyields.seeded] at hseeded
    exact .drew (hs.grown hseeded) hyields

theorem keepsSeeding_randomArray (n : Nat) : KeepsSeeding (randomArray n : Dev P (Bytes n)) :=
  keepsSeeding_draw fun _ => ⟨rfl, [_], Drbg.Yields.start.array n⟩

theorem KeepsSeeding.pure {α : Type} (a : α) : KeepsSeeding (Pure.pure a : Dev P α) :=
  fun _ _ hs => hs

theorem KeepsSeeding.bind {α β : Type} {m : Dev P α} {k : α → Dev P β} (hm : KeepsSeeding m)
    (hk : ∀ a, KeepsSeeding (k a)) : KeepsSeeding (m >>= k) := by
  intro source h hs
  rw [Wp_bind]
  refine Wp.mono (hm source h hs) ?_ fun _ _ he => he
  exact fun a h₁ hs₁ => hk a source h₁ hs₁

theorem keepsSeeding_reseed {source : Entropy} {h : Hsm P} (hs : SeededFrom source h) :
    SeededFrom source h.reseed := by
  unfold Hsm.reseed
  rw [reseed_eq]
  cases hgather : gatherHealthy MAX_HEALTH_RETRIES h.entropy with
  | mk r e' =>
  have hahead : e' <:+ source := (suffix_of_gather hgather).trans hs.ahead
  cases r with
  | error err => exact ⟨hahead, hs.grown⟩
  | ok raw =>
    have hsupplies := (supplies_of_gather hgather).mono hs.ahead
    exact ⟨hahead, fun hseeded => .reseeded (hs.grown hseeded) hsupplies⟩

theorem keepsSeeding_prepareKeygenEntropy :
    KeepsSeeding (prepareKeygenEntropy : Dev P (Except HalError Unit)) := by
  refine .bind keepsSeeding_ensureSeeded fun r => ?_
  cases r with
  | error e => exact .pure _
  | ok _ =>
    intro source h hs
    have hreseed := keepsSeeding_reseed hs
    rw [Wp_bind, Wp_get]
    unfold Hsm.reseed at hreseed
    split
    · rename_i heq
      rw [heq] at hreseed
      exact hreseed
    · rename_i heq
      rw [heq] at hreseed
      exact hreseed

theorem KeepsSeeding.onFlash {α : Type} (m : FlashM α) :
    KeepsSeeding (PicoSignet.onFlash m : Dev P (Except HalError α)) := by
  intro source h hs
  rw [Wp_onFlash]
  unfold Wp
  have hmoved : ∀ f, SeededFrom source { h with flash := f } := fun f => ⟨hs.ahead, hs.grown⟩
  cases m h.flash with
  | ok a f => exact hmoved f
  | error e f => cases e <;> exact hmoved f

/-- Every handler keeps the flag true. -/
theorem KeepsSeeding.rule : HandlerRule fun α (m : Dev P α) => KeepsSeeding m where
  pure := .pure
  panic := fun _ _ hs => hs
  bind := .bind
  get := fun _ _ hs => hs
  onFlash := fun {_ m} _ => .onFlash m
  update hu := fun _ h hs => hs.of_parts (hu h)
  seeds := keepsSeeding_ensureSeeded
  prepares := keepsSeeding_prepareKeygenEntropy
  array := keepsSeeding_randomArray
  word := keepsSeeding_draw fun _ => ⟨rfl, [_], Drbg.Yields.start.word⟩
  key := keepsSeeding_draw fun _ => ⟨rfl, [_], Drbg.Yields.start.array 32⟩
  mix host := fun _ _ hs => ⟨hs.ahead, fun hseeded => .mixed (hs.grown hseeded) host⟩

/-! ### The device and its firmware -/

/-- What drives the device: an event, or host entropy mixed in by the firmware. -/
inductive Call where
  | event (e : Event)
  | mixEntropy (host : Octets)

/-- `mix_entropy`. -/
def Hsm.mixEntropy (h : Hsm P) (host : Octets) : Hsm P :=
  { h with drbg := h.drbg.mixHost host }

def Sys.call : Sys P → Call → Sys P × Option Response
  | s, .event e => s.step e
  | .off f, .mixEntropy _ => (.off f, none)
  | .on h, .mixEntropy host => (.on (h.mixEntropy host), none)

/-- One call with the states around it. -/
structure Called (P : Prims) where
  call : Call
  before : Sys P
  response : Option Response
  after : Sys P

/-- The histories of calls, newest first, that lead from an image to a state. -/
inductive Calls (image : Flash) : List (Called P) → Sys P → Prop
  | start : Calls image [] (.off image)
  | step {hist : List (Called P)} {s : Sys P} (h : Calls image hist s) (c : Call) :
      Calls image (⟨c, s, (s.call c).2, (s.call c).1⟩ :: hist) (s.call c).1

/-- The moment of a run, as a call. -/
def Moment.called (m : Moment P) : Called P := ⟨.event m.event, m.before, m.response, m.after⟩

/-- A run is a history of calls in which the firmware mixes nothing in. -/
theorem Run.calls {image : Flash} {hist : List (Moment P)} {s : Sys P} (hrun : Run image hist s) :
    Calls image (hist.map Moment.called) s := by
  induction hrun with
  | start => exact .start
  | step _ e ih => exact .step ih (.event e)

theorem Calls.earlier {image : Flash} {newer older : List (Called P)} {m : Called P} {s : Sys P}
    (hcalls : Calls image (newer ++ m :: older) s) :
    Calls image older m.before ∧ m.before.call m.call = (m.after, m.response) := by
  induction newer generalizing s with
  | nil =>
    cases hcalls with
    | step h c => exact ⟨h, rfl⟩
  | cons m' newer ih =>
    cases hcalls with
    | step h c => exact ih h

/-- The samples that the source could yield since the last power-up. -/
def bootEntropy : List (Called P) → Entropy
  | [] => []
  | m :: older =>
    match m.call with
    | .event (.boot p) => p.entropy
    | _ => bootEntropy older

theorem seededFrom_powerUp {f : Flash} {p : PowerUp} {h : Hsm P} (hboot : powerUp f p = .ok () h) :
    SeededFrom p.entropy h := by
  have hload : ∀ (drbg : Drbg P) (e' : Entropy), e' <:+ p.entropy →
      (drbg.seeded = true → drbg.Grown p.entropy) →
      ∀ h₀, loadFromFlash (Hsm.fresh e' p.mono (p.flash f) drbg) = .ok () h₀ →
      SeededFrom p.entropy (p.latch h₀) := by
    intro drbg e' hahead hgrown h₀ hrun
    have hloaded : SeededFrom p.entropy h₀ :=
      (rule_loadFromFlash KeepsSeeding.rule p.entropy (Hsm.fresh e' p.mono (p.flash f) drbg)
        ⟨hahead, hgrown⟩).of_ok hrun
    exact ⟨hloaded.ahead, fun hseeded => .mixed (hloaded.grown hseeded) p.bootNoise⟩
  unfold powerUp at hboot
  split at hboot
  · rename_i h₀ hrun
    cases hboot
    unfold boot at hrun
    rw [seed_eq] at hrun
    cases hgather : gatherHealthy MAX_HEALTH_RETRIES p.entropy with
    | mk r e' =>
    rw [hgather] at hrun
    have hahead := suffix_of_gather hgather
    cases r with
    | error err => exact hload _ _ hahead (fun hseeded => Bool.noConfusion hseeded) _ hrun
    | ok raw =>
      exact hload _ _ hahead (fun _ => .seeded _ (supplies_of_gather hgather)) _ hrun
  · cases hboot

theorem Hsm.parts_relock (h : Hsm P) : h.relockOnTransportReset.parts = h.parts := by
  unfold Hsm.relockOnTransportReset
  dsimp only
  split
  · split <;> rfl
  · rfl

theorem SeededFrom.processLine {source : Entropy} {h h' : Hsm P} {line : Octets}
    {faults : List Fault} {resp : Option Response} (hs : SeededFrom source h)
    (hstep : h.processLine line faults = (.on h', resp)) : SeededFrom source h' := by
  have hfacing : SeededFrom source (h.facing faults) := ⟨hs.ahead, hs.grown⟩
  have hwp := rule_handle KeepsSeeding.rule line source (h.facing faults) hfacing
  unfold Hsm.processLine at hstep
  split at hstep
  · rename_i hrun
    cases hstep
    exact hwp.of_ok hrun
  · cases hstep

/-- The flag is true to its past in every session that a history of calls reaches. -/
theorem Calls.seededFrom {image : Flash} {hist : List (Called P)} {s : Sys P}
    (hcalls : Calls image hist s) : ∀ h, s = .on h → SeededFrom (bootEntropy hist) h := by
  induction hcalls with
  | start =>
    intro h hon
    cases hon
  | @step hist s _ c ih =>
    intro h' hon
    cases c with
    | mixEntropy host =>
      cases s with
      | off f => cases hon
      | on h =>
        cases hon
        have hs := ih h rfl
        exact ⟨hs.ahead, fun hseeded => .mixed (hs.grown hseeded) host⟩
    | event e =>
      cases e with
      | boot p =>
        change (s.step (.boot p)).1 = .on h' at hon
        rw [Sys.step_boot_eq] at hon
        split at hon
        · rename_i hboot
          cases hon
          exact seededFrom_powerUp hboot
        · cases hon
      | line bytes faults =>
        cases s with
        | off f => cases hon
        | on h =>
          have hstep : h.processLine bytes faults = (.on h', (h.processLine bytes faults).2) :=
            Prod.ext hon rfl
          exact (ih h rfl).processLine hstep
      | relock =>
        cases s with
        | off f => cases hon
        | on h =>
          cases hon
          exact (ih h rfl).of_parts h.parts_relock
      | reseed =>
        cases s with
        | off f => cases hon
        | on h =>
          cases hon
          exact keepsSeeding_reseed (ih h rfl)
      | advance mono =>
        cases s with
        | off f => cases hon
        | on h =>
          cases hon
          exact (ih h rfl).of_parts rfl
      | setHeapFree bytes =>
        cases s with
        | off f => cases hon
        | on h =>
          cases hon
          exact (ih h rfl).of_parts rfl
      | takeRebootRequested =>
        cases s with
        | off f => cases hon
        | on h =>
          cases hon
          exact (ih h rfl).of_parts rfl

/-! ### Certificates -/

/-- A certificate whose nonce and serial were drawn from a generator that a healthy
    sample of `source` seeded. -/
inductive CertDrawn (source : Entropy) : Response → Prop
  | cert {d d' : Drbg P} {req : EnclaveSigningRequest} {v : Validated} {nonce : Bytes 32}
      {serial : UInt64} {now : Int64} {ca : CaKey} (hgrown : d.Grown source)
      (hyields : d.Yields [.bytes nonce.toList, .word serial] d') :
      CertDrawn source (.signSshKey (buildCertificate P (certParams req v nonce serial now) ca))

theorem wp_sign_drawn {source : Entropy} {h : Hsm P} (req : EnclaveSigningRequest)
    (hs : SeededFrom source h) :
    Wp (handleSign req) (fun r _ => r.IsCertificate → CertDrawn (P := P) source r)
      (fun _ _ => True) h := by
  unfold handleSign
  rw [Wp_bind, Wp_get]
  split
  · exact fun hno => hno.elim
  split
  · exact fun hno => hno.elim
  split
  · exact fun hno => hno.elim
  rw [Wp_bind]
  refine Wp.mono (wp_ensureSeeded h) ?_ fun _ _ he => he.elim
  intro r h₁ hens
  cases r with
  | error err => exact fun hno => hno.elim
  | ok _ =>
    dsimp only
    rw [Wp_bind]
    have hgrown := (hs.ensured hens).grown hens.isSeeded
    change Wp _ _ _ { h₁ with drbg := (h₁.drbg.randomArray 32).2 }
    rw [Wp_bind]
    change Wp _ _ _ { h₁ with drbg := (h₁.drbg.randomArray 32).2.nextU64.2 }
    rw [Wp_bind, Wp_get]
    split
    · trivial
    · exact fun _ => .cert hgrown (Drbg.Yields.start.array 32).word

/-! ### Reseeding for a key -/

/-- The generator was re-keyed from a healthy sample; one that was not seeded yet was
    seeded first. -/
inductive Drbg.Reseeds (d : Drbg P) (e : Entropy) : Drbg P → Prop
  | seeded {raw : Bytes SEED_SAMPLE} (hseeded : d.seeded = true) (hraw : Supplies e raw) :
      d.Reseeds e (d.reseededBy raw)
  | unseeded {first raw : Bytes SEED_SAMPLE} (hunseeded : d.seeded = false)
      (hfirst : Supplies e first) (hraw : Supplies e raw) :
      d.Reseeds e ((d.seededBy first).reseededBy raw)

/-- The generator as a request that could not reseed leaves it. -/
inductive Drbg.Undrawn (d : Drbg P) (e : Entropy) : Drbg P → Prop
  | same : d.Undrawn e d
  | seeded {raw : Bytes SEED_SAMPLE} (hunseeded : d.seeded = false) (hraw : Supplies e raw) :
      d.Undrawn e (d.seededBy raw)

/-- The source has the samples for a reseed, and for a first seeding where one is due. -/
def Hsm.SampleAvailable (h : Hsm P) : Prop :=
  Finds h.entropy ∧
    (h.drbg.seeded = false → Finds (gatherHealthy MAX_HEALTH_RETRIES h.entropy).2)

inductive Prepared (h : Hsm P) : Except HalError Unit → Hsm P → Prop
  | reseeded {d : Drbg P} {e : Entropy} (hreseeds : h.drbg.Reseeds h.entropy d) (havailable : h.SampleAvailable) :
      Prepared h (.ok ()) { h with drbg := d, entropy := e }
  | failed {err : HalError} {d : Drbg P} {e : Entropy} (hundrawn : h.drbg.Undrawn h.entropy d) :
      Prepared h (.error err) { h with drbg := d, entropy := e }

theorem wp_prepareKeygenEntropy (h : Hsm P) :
    Wp (prepareKeygenEntropy : Dev P (Except HalError Unit)) (Prepared h) (fun _ _ => False) h := by
  unfold prepareKeygenEntropy
  rw [Wp_bind]
  refine Wp.mono (wp_ensureSeeded h) ?_ fun _ _ he => he
  intro r h₁ hens
  cases hens with
  | failed => exact .failed .same
  | already hseeded =>
    dsimp only
    rw [Wp_bind, Wp_get, reseed_eq]
    cases hgather : gatherHealthy MAX_HEALTH_RETRIES h.entropy with
    | mk r e' =>
    cases r with
    | error err => exact .failed .same
    | ok raw =>
      refine .reseeded (.seeded hseeded (supplies_of_gather hgather)) ⟨.of_gather hgather, ?_⟩
      intro hno
      rw [hseeded] at hno
      cases hno
  | @seeded first e₁ hunseeded hgather =>
    have hfirst := supplies_of_gather hgather
    dsimp only
    rw [Wp_bind, Wp_get, reseed_eq]
    cases hgather' : gatherHealthy MAX_HEALTH_RETRIES e₁ with
    | mk r' e₂ =>
    cases r' with
    | error err => exact .failed (.seeded hunseeded hfirst)
    | ok raw =>
      have hraw := (supplies_of_gather hgather').mono (suffix_of_gather hgather)
      refine .reseeded (.unseeded hunseeded hfirst hraw) ⟨.of_gather hgather, fun _ => ?_⟩
      rw [hgather]
      exact .of_gather hgather'

/-! ### Requests that make key material -/

/-- The KEY sectors are the same. -/
def KeyKept (f g : Flash) : Prop :=
  g.sector .keyA = f.sector .keyA ∧ g.sector .keyB = f.sector .keyB

/-- The CONFIG sectors are the same. -/
def ConfigKept (f g : Flash) : Prop :=
  g.sector .configA = f.sector .configA ∧ g.sector .configB = f.sector .configB

/-- What was done to the KEY pair is one write of this blob, complete or stopped. -/
def KeyWrites (P : Prims) (blob : KeyBlob) (f g : Flash) : Prop :=
  ∃ f₁ g₁, KeyKept f f₁ ∧ KeyKept g₁ g ∧
    (Wrote P KEY blob.toBytes f₁ g₁ ∨ WriteStopped P KEY blob.toBytes f₁ g₁)

/-- The blob a command seals, with all of its new values among the draws. -/
def Seals (h : Hsm P) : Command → List Drawn → KeyBlob → Prop
  | .init req, vs, blob => ∃ seed, InitBlob P h.flash req seed blob ∧
      vs = [.bytes blob.salt.toList, .bytes seed.toList, .bytes blob.aeadNonce.toList]
  | .generateKey _, vs, blob => ∃ seed cfg, RotatedBlob h seed blob ∧ h.config = some cfg ∧
      (cfg.mode = .dev ∧
          vs = [.bytes seed.toList, .bytes blob.aeadNonce.toList, .bytes blob.salt.toList] ∨
        cfg.mode = .prod ∧ h.wrapSalt = some blob.salt ∧
          vs = [.bytes seed.toList, .bytes blob.aeadNonce.toList])
  | .changePin req, vs, blob => ∃ seed kek, NewPinBlob h req.newPin seed kek blob.salt blob ∧
      vs = [.bytes blob.salt.toList, .bytes blob.aeadNonce.toList]
  | _, _, _ => False

/-- After its reseed the request drew down to `d`, and it stored a blob of these draws. -/
def Stored (h : Hsm P) (c : Command) (d : Drbg P) (g : Flash) : Prop :=
  ∃ (d₁ : Drbg P) (vs : List Drawn) (blob : KeyBlob), h.SampleAvailable ∧
    h.drbg.Reseeds h.entropy d₁ ∧ d₁.Yields vs d ∧ Seals h c vs blob ∧ KeyWrites P blob h.flash g

/-- How a request that makes key material leaves the generator and the flash: it did not
    draw; it drew after the reseed and stored nothing; or it stored a blob of its draws. -/
inductive KeyOutcome (h : Hsm P) (c : Command) (d : Drbg P) (g : Flash) : Prop
  | undrawn (hdrbg : h.drbg.Undrawn h.entropy d) (hkey : KeyKept h.flash g ∨ h.WipesFor c)
      (hconfig : ConfigKept h.flash g) : KeyOutcome h c d g
  | unsealed {d₁ : Drbg P} {vs : List Drawn} (havailable : h.SampleAvailable)
      (hreseeds : h.drbg.Reseeds h.entropy d₁) (hyields : d₁.Yields vs d) (hkey : KeyKept h.flash g)
      (hconfig : ConfigKept h.flash g) : KeyOutcome h c d g
  | stored (hstored : Stored h c d g) : KeyOutcome h c d g

theorem KeyKept.refl (f : Flash) : KeyKept f f := ⟨rfl, rfl⟩

theorem KeyKept.trans {f g g' : Flash} (h : KeyKept f g) (h' : KeyKept g g') : KeyKept f g' :=
  ⟨h'.1.trans h.1, h'.2.trans h.2⟩

theorem FlashWithin.keyKept {R : Option Region → Prop} {f g : Flash} (h : FlashWithin R f g)
    (hA : ¬ R (some .keyA)) (hB : ¬ R (some .keyB)) : KeyKept f g := ⟨h.sector _ hA, h.sector _ hB⟩

theorem Resets.keyKept {f g : Flash} (h : Resets f g) : KeyKept f g :=
  h.within.keyKept (by simp) (by simp)

section Draw

variable {α : Type} {post : α → Hsm P → Prop} {stop : Halt → Hsm P → Prop} {h : Hsm P} {d : Drbg P}
  {vs : List Drawn}

/-- One more array is drawn: the values drawn so far are on record. -/
theorem Wp.array {n : Nat} {k : Bytes n → Dev P α} (hyields : d.Yields vs h.drbg)
    (hk : ∀ b d', d.Yields (vs ++ [.bytes b.toList]) d' →
      Wp (k b) post stop { h with drbg := d' }) :
    Wp (randomArray n >>= k) post stop h := by
  rw [Wp_bind]
  exact hk _ _ (hyields.array n)

theorem Wp.key {k : Bytes 32 × CaKey → Dev P α} (hyields : d.Yields vs h.drbg)
    (hk : ∀ seed d', d.Yields (vs ++ [.bytes seed.toList]) d' →
      Wp (k (seed, CaKey.fromSeed seed)) post stop { h with drbg := d' }) :
    Wp (generateCaKey >>= k) post stop h := by
  rw [Wp_bind]
  exact hk _ _ (hyields.array 32)

end Draw

theorem Stored.kept {h : Hsm P} {c : Command} {d : Drbg P} {g g' : Flash}
    (hs : Stored h c d g) (hkey : KeyKept g g') : Stored h c d g' := by
  obtain ⟨d₁, vs, blob, havailable, hreseeds, hyields, hseals, f₁, g₁, hf₁, hg₁, hwrite⟩ := hs
  exact ⟨d₁, vs, blob, havailable, hreseeds, hyields, hseals, f₁, g₁, hf₁, hg₁.trans hkey, hwrite⟩

/-- Storing a blob of the draws. -/
theorem wp_storeBlob {h h₁ : Hsm P} {c : Command} {d : Drbg P} {vs : List Drawn} {blob : KeyBlob}
    (havailable : h.SampleAvailable) (hreseeds : h.drbg.Reseeds h.entropy d) (hyields : d.Yields vs h₁.drbg)
    (hseals : Seals h c vs blob) (hkey : KeyKept h.flash h₁.flash) :
    Wp (onFlash (KEY.write P.crc32 blob.toBytes))
      (fun _ h' => ∃ g, h' = { h₁ with flash := g } ∧ Stored h c h₁.drbg g)
      (fun _ h' => ∃ d', KeyOutcome h c d' h'.flash) h₁ := by
  have hstored : ∀ g, Wrote P KEY blob.toBytes h₁.flash g ∨
      WriteStopped P KEY blob.toBytes h₁.flash g → Stored h c h₁.drbg g := by
    intro g hg
    exact ⟨d, vs, blob, havailable, hreseeds, hyields, hseals, h₁.flash, g, hkey, .refl g, hg⟩
  rw [Wp_onFlash]
  refine Wp.mono (wp_write KEY (length_keyBlob_le blob) h₁.flash) ?_ ?_
  · intro _ g hg
    exact ⟨g, rfl, hstored g (Or.inl hg)⟩
  · intro e g hg
    have hstopped := hstored g (Or.inr hg.1)
    cases e with
    | hal e => exact ⟨g, rfl, hstopped⟩
    | powerLoss => exact ⟨_, .stored hstopped⟩

/-- What the request has to come to: its outcome, and an error where no sample was there. -/
def KeyAnswer (h : Hsm P) (c : Command) (resp : HsmResponse) (h' : Hsm P) : Prop :=
  KeyOutcome h c h'.drbg h'.flash ∧ (h.SampleAvailable ∨ resp.IsError)

theorem Stored.available {h : Hsm P} {c : Command} {d : Drbg P} {g : Flash}
    (hs : Stored h c d g) : h.SampleAvailable := by
  obtain ⟨d₁, vs, blob, havailable, -⟩ := hs
  exact havailable

theorem KeyAnswer.unchanged {h : Hsm P} {c : Command} {code : ErrCode} {message : String} :
    KeyAnswer h c (.err code message) h :=
  ⟨.undrawn .same (Or.inl (.refl _)) ⟨rfl, rfl⟩, Or.inr (HsmResponse.isError_err _ _)⟩

theorem wp_generateKey_drawn (req : GenerateKeyReq) (h : Hsm P) :
    Wp (hsmGenerateKey req) (KeyAnswer h (.generateKey req))
      (fun _ h' => ∃ d, KeyOutcome h (.generateKey req) d h'.flash) h := by
  have hready : Wp (generateKeyReady h) (KeyAnswer h (.generateKey req))
      (fun _ h' => ∃ d, KeyOutcome h (.generateKey req) d h'.flash) h := by
    unfold generateKeyReady
    split
    · exact .unchanged
    rename_i cfg hcfg
    split
    · exact .unchanged
    rename_i kek hkek
    rw [Wp_bind]
    refine Wp.mono (wp_prepareKeygenEntropy h) ?_ fun _ _ he => he.elim
    intro r h₁ hprepared
    cases hprepared with
    | failed hundrawn =>
      exact ⟨.undrawn hundrawn (Or.inl (.refl _)) ⟨rfl, rfl⟩, Or.inr (HsmResponse.isError_err _ _)⟩
    | @reseeded d e hreseeds havailable =>
    dsimp only
    split
    · exact ⟨.unsealed havailable hreseeds .start (.refl _) ⟨rfl, rfl⟩, Or.inl havailable⟩
    rename_i draw hdraw
    refine Wp.key .start fun seed d₁ hyields₁ => Wp.array hyields₁ fun nonce d₂ hyields₂ => ?_
    -- in dev the salt is one more draw, in prod it is the cached one
    have hsalted : Wp draw (fun salt h' => ∃ (d₃ : Drbg P) (vs : List Drawn),
        h' = { h with drbg := d₃, entropy := e } ∧ d.Yields vs d₃ ∧
          Seals h (.generateKey req) vs
            (wrapSeed P kek seed (P.edPublic seed) (WrapType.ofMode cfg.mode) salt nonce))
        (fun _ _ => False) { h with drbg := d₂, entropy := e } := by
      have hmodes : cfg.mode = .dev ∨ cfg.mode = .prod := by cases cfg.mode <;> simp
      rcases hmodes with hmode | hmode
      · rw [hmode] at hdraw
        obtain rfl := Option.some.inj hdraw
        have hblob : RotatedBlob h seed (wrapSeed P kek seed (P.edPublic seed)
            (WrapType.ofMode cfg.mode) (d₂.randomArray 16).1 nonce) := by
          refine ⟨cfg, kek, _, nonce, hcfg, hkek, fun hprod => ?_, rfl⟩
          rw [hmode] at hprod
          cases hprod
        exact ⟨_, _, rfl, hyields₂.array 16, seed, cfg, hblob, hcfg, Or.inl ⟨hmode, rfl⟩⟩
      · rw [hmode] at hdraw
        obtain ⟨salt, hsalt, rfl⟩ := rotationSalt_prod hdraw
        have hblob : RotatedBlob h seed (wrapSeed P kek seed (P.edPublic seed)
            (WrapType.ofMode cfg.mode) salt nonce) :=
          ⟨cfg, kek, salt, nonce, hcfg, hkek, fun _ => hsalt, rfl⟩
        exact ⟨_, _, rfl, hyields₂, seed, cfg, hblob, hcfg, Or.inr ⟨hmode, hsalt, rfl⟩⟩
    rw [Wp_bind]
    refine Wp.mono hsalted ?_ fun _ _ he => he.elim
    intro salt h₃ hdrawn
    obtain ⟨d₃, vs, rfl, hyields, hseals⟩ := hdrawn
    rw [Wp_bind]
    refine Wp.mono (wp_storeBlob havailable hreseeds hyields hseals (.refl _)) ?_ fun _ _ he => he
    intro r h₄ hstored
    obtain ⟨g, rfl, hstored⟩ := hstored
    split <;> exact ⟨.stored hstored, Or.inl havailable⟩
  unfold hsmGenerateKey
  rw [Wp_bind, Wp_get]
  split
  · exact .unchanged
  · exact .unchanged
  · exact .unchanged
  · split
    · exact .unchanged
    · exact hready
  · split
    · exact .unchanged
    · exact hready

theorem wp_initProd_drawn {req : InitReq} {h : Hsm P} :
    Wp (initProd req) (KeyAnswer h (.init req))
      (fun _ h' => ∃ d, KeyOutcome h (.init req) d h'.flash) h := by
  unfold initProd
  split
  · exact .unchanged
  rename_i pin hpin
  split
  · exact .unchanged
  rw [Wp_bind]
  refine Wp.mono (wp_prepareKeygenEntropy h) ?_ fun _ _ he => he.elim
  intro r h₁ hprepared
  cases hprepared with
  | failed hundrawn =>
    exact ⟨.undrawn hundrawn (Or.inl (.refl _)) ⟨rfl, rfl⟩, Or.inr (HsmResponse.isError_err _ _)⟩
  | @reseeded d e hreseeds havailable =>
  have hunsealed : ∀ (code : ErrCode) (message : String) (vs : List Drawn) (d' : Drbg P),
      d.Yields vs d' →
      KeyAnswer h (.init req) (.err code message) { h with drbg := d', entropy := e } :=
    fun code message vs d' hyields =>
      ⟨.unsealed havailable hreseeds hyields (.refl _) ⟨rfl, rfl⟩, Or.inl havailable⟩
  refine Wp.array .start fun salt d₁ hyields₁ => ?_
  dsimp only
  split
  · exact hunsealed _ _ _ _ hyields₁
  rw [Wp_bind, Wp_get]
  split
  · exact hunsealed _ _ _ _ hyields₁
  rename_i secret hsecret
  refine Wp.key hyields₁ fun seed d₂ hyields₂ => ?_
  dsimp only
  split
  · exact hunsealed _ _ _ _ hyields₂
  rename_i kek hkek
  refine Wp.array hyields₂ fun nonce d₃ hyields₃ => ?_
  have hblob : InitBlob P h.flash req seed
      (wrapSeed P kek seed (P.edPublic seed) .pinKek salt nonce) :=
    ⟨pin, secret, salt, kek, nonce, hpin, hsecret, hkek, rfl⟩
  rw [Wp_bind]
  refine Wp.mono (wp_storeBlob (c := .init req) havailable hreseeds hyields₃ ⟨seed, hblob, rfl⟩
    (.refl _)) ?_ fun _ _ he => he
  intro r h₃ hstored
  obtain ⟨g, rfl, hstored⟩ := hstored
  split
  · exact ⟨.stored hstored, Or.inl havailable⟩
  -- the CONFIG write and the reset of the counter leave the stored blob alone
  rw [Wp_bind]
  have hconfig : ∀ {g'}, FlashWithin (fun r => r = some .configA ∨ r = some .configB) g g' →
      Stored h (.init req) d₃ g' := fun hw => hstored.kept (hw.keyKept (by simp) (by simp))
  have hwrite : ∀ payload, Stays (FlashWithin fun r => r = some .configA ∨ r = some .configB)
      (CONFIG.write P.crc32 payload) := fun payload => stays_write _ (Or.inl rfl) (Or.inr rfl) payload
  refine Wp.mono (FlashOnly.onFlash (hwrite _) _) ?_ ?_
  case refine_2 =>
    intro _ h₄ hcut
    obtain ⟨-, g', rfl, hw⟩ := hcut
    exact ⟨d₃, .stored (hconfig hw)⟩
  intro r h₄ hwrote
  obtain ⟨g', rfl, hw⟩ := hwrote
  split
  · exact ⟨.stored (hconfig hw), Or.inl havailable⟩
  rw [Wp_bind]
  refine Wp.mono (wp_resetPinCounter 1 _) ?_ ?_
  · intro _ h₅ hreset
    obtain ⟨g'', until_, hreset, rfl⟩ := hreset
    exact ⟨.stored ((hconfig hw).kept hreset.keyKept), Or.inl havailable⟩
  · intro _ h₅ hreset
    exact ⟨d₃, .stored ((hconfig hw).kept hreset.2.keyKept)⟩

/-- The PIN is wrong, and with it the budget of a device that wipes is used up. -/
def EndsBudget (h : Hsm P) (cfg : DeviceConfig) (pin : Str) : Prop :=
  ¬ h.Waits ∧ Rejects P h.flash cfg pin ∧ cfg.maxRetries.toNat ≤ Pin.next h.attempts ∧
    cfg.wipeOnLockout = true

theorem TickResult.next {n m a : Nat} (h : TickResult n m a) (hm : m ≤ SECTOR_LEN) :
    a = Pin.next n := by
  obtain ⟨hcount, hle⟩ := h
  unfold Pin.next
  split <;> omega

/-- Checking a PIN costs the key only where the PIN ends the budget of a device that wipes. -/
theorem wp_verifyPin_key {cfg : DeviceConfig} (pin : Str) (h : Hsm P) (hcfg : h.config = some cfg) :
    Wp (verifyPin pin) (fun _ h' => KeyKept h.flash h'.flash ∨ EndsBudget h cfg pin)
      (fun _ h' => KeyKept h.flash h'.flash ∨ EndsBudget h cfg pin) h := by
  have hreads : ∀ {f g : Flash}, FlashWithin (fun _ => False) f g → KeyKept f g :=
    fun hw => hw.keyKept id id
  unfold verifyPin
  rw [Wp_bind, Wp_get, hcfg]
  dsimp only
  rw [Wp_bind]
  refine Wp.mono (wp_onFlash_reads (reads_pinCount h.flash)) ?_ ?_
  case refine_2 =>
    intro _ h₁ hcut
    obtain ⟨-, -, g₁, rfl, hg₁⟩ := hcut
    exact Or.inl (hreads hg₁)
  intro count h₁ hread
  obtain ⟨g₁, rfl, hg₁, hcount, -⟩ := hread
  cases count with
  | error e => exact Or.inl (hreads hg₁)
  | ok priorFailures =>
  obtain rfl := hcount _ rfl
  dsimp only
  split
  · exact Or.inl (hreads hg₁)
  rename_i hpast
  have hnotWaits : ¬ h.Waits := by
    intro hwaits
    refine hpast ?_
    simpa [Hsm.Waits, Hsm.attempts] using hwaits
  rw [Wp_bind, Wp_onFlash]
  refine Wp.mono (wp_tick g₁) ?_ ?_
  case refine_2 =>
    intro e g₂ hg₂
    have hkept := (hreads hg₁).trans (hg₂.within.keyKept (by simp) (by simp))
    cases e with
    | hal e => exact Or.inl hkept
    | powerLoss => exact Or.inl hkept
  intro attempts g₂ htick
  obtain ⟨hg₂, hresult⟩ := htick
  have hkept₂ := (hreads hg₁).trans (hg₂.within.keyKept (by simp) (by simp))
  have hnext : attempts = Pin.next h.attempts := by
    have hcount := hresult.next (Pin.used_le _)
    rw [hg₁.sector_eq] at hcount
    exact hcount
  dsimp only
  rw [Wp_bind]
  refine Wp.mono (wp_onFlash_reads (reads_readLatest KEY g₂)) ?_ ?_
  case refine_2 =>
    intro _ h₃ hcut
    obtain ⟨-, -, g₃, rfl, hg₃⟩ := hcut
    exact Or.inl (hkept₂.trans (hreads hg₃))
  intro key h₃ hread
  obtain ⟨g₃, rfl, hg₃, hkey, -⟩ := hread
  have hkept := hkept₂.trans (hreads hg₃)
  split
  · exact Or.inl hkept
  · exact Or.inl hkept
  rename_i bytes
  split
  · exact Or.inl hkept
  rename_i blob hblob
  have hstored : storedKey P h.flash.sector = some blob := by
    unfold PicoSignet.storedKey
    have hlatest : KEY.latest P.crc32 g₂.sector = KEY.latest P.crc32 h.flash.sector :=
      AbPair.latest_congr hkept₂.1 hkept₂.2
    rw [← hlatest, ← hkey _ rfl]
    exact hblob
  split
  · exact Or.inl hkept
  rename_i secret hsecret
  split
  · exact Or.inl hkept
  rename_i kek hkek
  split
  · rw [Wp_bind, Wp_onFlash]
    change Wp _ _ _ { h with flash := g₃.log (.tried cfg.maxRetries true) }
    rw [Wp_bind]
    refine Wp.mono (wp_resetPinCounter 1 _) ?_ ?_
    · intro _ h₄ hreset
      obtain ⟨g', until_, hg', rfl⟩ := hreset
      exact Or.inl (hkept.trans hg'.keyKept)
    · intro _ h₄ hreset
      exact Or.inl (hkept.trans hreset.2.keyKept)
  · rename_i e hunwrap
    rw [Wp_bind, Wp_onFlash]
    change Wp _ _ _ { h with flash := g₃.log (.tried cfg.maxRetries false) }
    have hrejects : Rejects P h.flash cfg pin := ⟨blob, secret, kek, e, hstored, hsecret, hkek, hunwrap⟩
    refine Wp.mono (wp_wrongPin cfg attempts _) ?_ ?_
    · intro _ h₄ hr
      cases hr.2 with
      | retry => exact Or.inl hkept
      | lockout => exact Or.inl hkept
      | wipe until_ g pubkey hge hwipe =>
        rw [hnext] at hge
        exact Or.inr ⟨hnotWaits, hrejects, hge, hwipe⟩
    · intro _ h₄ hcut
      obtain ⟨-, hge, hwipe, -⟩ := hcut
      rw [hnext] at hge
      exact Or.inr ⟨hnotWaits, hrejects, hge, hwipe⟩

/-- The re-wrap of `changePin`, once checking the PIN has moved the session to `g`. -/
theorem wp_rewrapSeed_drawn {req : ChangePinReq} {h : Hsm P} {g : Flash} {until_ : UInt64}
    (wasReady : Bool) (seed : Bytes 32) (hkey : KeyKept h.flash g) (hconfig : ConfigKept h.flash g)
    (hdevice : g.deviceSecret = h.flash.deviceSecret) :
    Wp (rewrapSeed req.newPin wasReady seed) (KeyAnswer h (.changePin req))
      (fun _ h' => ∃ d, KeyOutcome h (.changePin req) d h'.flash)
      { h with flash := g, pinBackoffUntilMs := until_ } := by
  unfold rewrapSeed
  rw [Wp_bind]
  refine Wp.mono (wp_prepareKeygenEntropy _) ?_ fun _ _ he => he.elim
  intro r h₁ hprepared
  cases hprepared with
  | failed hundrawn =>
    exact ⟨.undrawn hundrawn (Or.inl hkey) hconfig, Or.inr (HsmResponse.isError_err _ _)⟩
  | @reseeded d e hreseeds havailable =>
  have hunsealed : ∀ (code : ErrCode) (message : String) (vs : List Drawn) (d' : Drbg P),
      d.Yields vs d' → KeyAnswer h (.changePin req) (.err code message)
        { h with drbg := d', entropy := e, flash := g, pinBackoffUntilMs := until_ } :=
    fun code message vs d' hyields =>
      ⟨.unsealed havailable hreseeds hyields hkey hconfig, Or.inl havailable⟩
  refine Wp.array .start fun salt d₁ hyields₁ => ?_
  rw [Wp_bind, Wp_get]
  split
  · exact ⟨d₁, .unsealed havailable hreseeds hyields₁ hkey hconfig⟩
  rename_i cfg hcfg
  split
  · exact hunsealed _ _ _ _ hyields₁
  rename_i secret hsecret
  split
  · exact hunsealed _ _ _ _ hyields₁
  rename_i kek hkek
  split
  · exact hunsealed _ _ _ _ hyields₁
  rename_i pubkey hpubkey
  refine Wp.array hyields₁ fun nonce d₂ hyields₂ => ?_
  have hblob : NewPinBlob h req.newPin seed kek salt
      (wrapSeed P kek seed pubkey .pinKek salt nonce) :=
    ⟨cfg, secret, pubkey, nonce, hcfg, hdevice.symm.trans hsecret, hkek, hpubkey, rfl⟩
  rw [Wp_bind]
  refine Wp.mono (wp_storeBlob (h := h) (c := .changePin req) havailable hreseeds hyields₂
    ⟨seed, kek, hblob, rfl⟩ hkey) ?_ fun _ _ he => he
  intro r h₂ hstored
  obtain ⟨g', rfl, hstored⟩ := hstored
  split
  · exact ⟨.stored hstored, Or.inl havailable⟩
  rw [Wp_bind]
  refine Wp.mono (wp_resetPinCounter 1 _) ?_ ?_
  · intro _ h₃ hreset
    obtain ⟨g'', until', hreset, rfl⟩ := hreset
    split <;> exact ⟨.stored (hstored.kept hreset.keyKept), Or.inl havailable⟩
  · intro _ h₃ hreset
    exact ⟨d₂, .stored (hstored.kept hreset.2.keyKept)⟩

theorem Verified.drbg {cfg : DeviceConfig} {pin : Str} {h h' : Hsm P}
    {r : Except HsmResponse UnlockedSeed} (hv : Verified cfg pin h r h') : h'.drbg = h.drbg := by
  cases hv with
  | refused => rfl
  | opened => rfl
  | wrong _ _ _ hwrong => cases hwrong <;> rfl

theorem wp_changePin_drawn (req : ChangePinReq) (h : Hsm P) :
    Wp (hsmChangePin req) (KeyAnswer h (.changePin req))
      (fun _ h' => ∃ d, KeyOutcome h (.changePin req) d h'.flash) h := by
  have hgo : ∀ wasReady : Bool, (h.state = .prodLocked ∨ h.state = .prodReady) →
      PIN_MIN ≤ req.newPin.len ∧ req.newPin.len ≤ PIN_MAX →
      Wp (checkedRewrap req wasReady) (KeyAnswer h (.changePin req))
        (fun _ h' => ∃ d, KeyOutcome h (.changePin req) d h'.flash) h := by
    intro wasReady hstate hlen
    unfold checkedRewrap
    rw [Wp_bind]
    cases hcfg : h.config with
    | none =>
      unfold verifyPin
      rw [Wp_bind, Wp_get, hcfg]
      exact ⟨h.drbg, .undrawn .same (Or.inl (.refl _)) ⟨rfl, rfl⟩⟩
    | some cfg =>
    have hwipes : ∀ {h₁ : Hsm P}, KeyKept h.flash h₁.flash ∨ EndsBudget h cfg req.currentPin →
        KeyKept h.flash h₁.flash ∨ h.WipesFor (.changePin req) := by
      intro h₁ hkey
      refine hkey.imp id fun hends => ?_
      exact ⟨_, cfg, .changePin hstate hlen, hends.1, hcfg, hends.2⟩
    have hframe := Wp.and (wp_verifyPin_key req.currentPin h hcfg)
      (stays_verifyPin pinScope_besidesConfig req.currentPin h)
    have hverify := Wp.and (Wp.and (wp_verifyPin req.currentPin h hcfg)
      (verifyPin_ofVerify req.currentPin h)) hframe
    refine Wp.mono hverify ?_ ?_
    case refine_2 =>
      intro _ h₁ hcut
      obtain ⟨-, hkey, hw⟩ := hcut
      have hs := Within.configSpared hw
      exact ⟨h.drbg, .undrawn .same (hwipes hkey) ⟨hs.configA, hs.configB⟩⟩
    intro r h₁ hr
    obtain ⟨⟨hv, herror⟩, hkey, hw⟩ := hr
    have hs := Within.configSpared hw
    cases r with
    | error resp =>
      refine ⟨.undrawn ?_ (hwipes hkey) ⟨hs.configA, hs.configB⟩, Or.inr (herror _ rfl).isError⟩
      rw [hv.drbg]
      exact .same
    | ok unlocked =>
      obtain ⟨seed, kek, salt⟩ := unlocked
      have hkept : KeyKept h.flash h₁.flash := by
        cases hv with
        | opened hg hopens hreset =>
          have hticked : KeyKept h.flash _ := hg.within.keyKept (by simp) (by simp)
          exact hticked.trans hreset.keyKept
      cases hv with
      | opened => exact wp_rewrapSeed_drawn wasReady seed hkept ⟨hs.configA, hs.configB⟩ hw.flash.deviceSecret
  unfold hsmChangePin
  rw [Wp_bind, Wp_get]
  split
  · exact .unchanged
  · exact .unchanged
  · exact .unchanged
  · rename_i hstate
    split
    · exact .unchanged
    · rename_i hlen
      exact hgo _ (Or.inr hstate) (not_not.mp hlen)
  · rename_i hstate
    split
    · exact .unchanged
    · rename_i hlen
      exact hgo _ (Or.inl hstate) (not_not.mp hlen)

/-- The commands that make a seed, a salt or a nonce for the KEY pair. -/
def Command.MakesKey : Command → Prop
  | .init req => req.mode = modeProd
  | .generateKey _ => True
  | .changePin _ => True
  | _ => False

theorem wp_run_drawn {c : Command} (hmakes : c.MakesKey) (h : Hsm P) :
    Wp c.run (KeyAnswer h c) (fun _ h' => ∃ d, KeyOutcome h c d h'.flash) h := by
  cases c with
  | init req =>
    have hmode : req.mode = modeProd := hmakes
    change Wp (hsmInit req) _ _ _
    unfold hsmInit
    rw [Wp_bind, Wp_get]
    split
    · exact .unchanged
    · rw [hmode, if_neg (by decide)]
      exact wp_initProd_drawn
  | generateKey req => exact wp_generateKey_drawn req h
  | changePin req => exact wp_changePin_drawn req h
  | _ => exact hmakes.elim

/-! ### Every call of the device -/

theorem Hands.of_facing {h : Hsm P} {c : Command} {pin : Str} {faults : List Fault}
    (hands : Hands (h.facing faults) c pin) : Hands h c pin := by
  cases hands with
  | unlock hstate => exact .unlock hstate
  | changePin hstate hlen => exact .changePin hstate hlen
  | factoryReset hconfirm hpin hstate hphysical => exact .factoryReset hconfirm hpin hstate hphysical
  | rebootBootloader hpin hstate hphysical => exact .rebootBootloader hpin hstate hphysical

theorem Seals.of_facing {h : Hsm P} {c : Command} {vs : List Drawn} {blob : KeyBlob}
    {faults : List Fault} (hs : Seals (h.facing faults) c vs blob) : Seals h c vs blob := by
  cases c with
  | init req => exact hs
  | generateKey req => exact hs
  | changePin req => exact hs
  | _ => exact hs.elim

theorem KeyOutcome.of_facing {h : Hsm P} {c : Command} {d : Drbg P} {g : Flash}
    {faults : List Fault} (ho : KeyOutcome (h.facing faults) c d g) : KeyOutcome h c d g := by
  cases ho with
  | undrawn hdrbg hkey hconfig =>
    refine .undrawn hdrbg (hkey.imp id fun hwipes => ?_) hconfig
    obtain ⟨pin, cfg, hands, hrest⟩ := hwipes
    exact ⟨pin, cfg, hands.of_facing, hrest⟩
  | unsealed havailable hreseeds hyields hkey hconfig =>
    exact .unsealed havailable hreseeds hyields hkey hconfig
  | stored hstored =>
    obtain ⟨d₁, vs, blob, havailable, hreseeds, hyields, hseals, hwrites⟩ := hstored
    exact .stored ⟨d₁, vs, blob, havailable, hreseeds, hyields, hseals.of_facing, hwrites⟩

/-- What a request that makes key material did in session `h`. -/
structure KeyRequest (h : Hsm P) (c : Command) (m : Called P) : Prop where
  outcome : ∃ d, KeyOutcome h c d m.after.flash ∧ ∀ h', m.after = .on h' → h'.drbg = d
  refused : ¬ h.SampleAvailable →
    (∀ resp, m.response = some resp → ∃ r, resp = .hsm r ∧ r.IsError) ∧
      (KeyKept h.flash m.after.flash ∨ h.WipesFor c) ∧ ConfigKept h.flash m.after.flash

theorem KeyOutcome.without_sample {h : Hsm P} {c : Command} {d : Drbg P} {g : Flash}
    (ho : KeyOutcome h c d g) (hno : ¬ h.SampleAvailable) :
    (KeyKept h.flash g ∨ h.WipesFor c) ∧ ConfigKept h.flash g := by
  cases ho with
  | undrawn hdrbg hkey hconfig => exact ⟨hkey, hconfig⟩
  | unsealed havailable => exact absurd havailable hno
  | stored hstored => exact absurd hstored.available hno

theorem keyRequest {h : Hsm P} {s' : Sys P} {c : Command} {bytes : Octets} {faults : List Fault}
    {resp : Option Response} (hc : lineCommand P bytes = some c) (hmakes : c.MakesKey)
    (hstep : h.processLine bytes faults = (s', resp)) :
    KeyRequest h c ⟨.event (.line bytes faults), .on h, resp, s'⟩ := by
  have hwp := wp_run_drawn hmakes (h.facing faults)
  rcases processLine_cases h bytes faults with
    ⟨hnone, -⟩ | ⟨c', r, h', hc', hrun, heq⟩ | ⟨c', e, h', hc', hrun, heq⟩
  · rw [hc] at hnone
    cases hnone
  · obtain rfl := Option.some.inj (hc.symm.trans hc')
    obtain ⟨rfl, rfl⟩ := Prod.mk.inj (heq.symm.trans hstep)
    obtain ⟨ho, hanswer⟩ := hwp.of_ok hrun
    refine ⟨⟨h'.drbg, ho.of_facing, ?_⟩, fun hno => ⟨?_, ho.of_facing.without_sample hno⟩⟩
    · intro h'' hon
      cases hon
      rfl
    · intro resp hresp
      cases hresp
      exact ⟨r, rfl, hanswer.resolve_left hno⟩
  · obtain rfl := Option.some.inj (hc.symm.trans hc')
    obtain ⟨rfl, rfl⟩ := Prod.mk.inj (heq.symm.trans hstep)
    obtain ⟨d, ho⟩ := hwp.of_error hrun
    refine ⟨⟨d, ho.of_facing, ?_⟩, fun hno => ⟨?_, ho.of_facing.without_sample hno⟩⟩
    · intro h'' hon
      cases hon
    · intro resp hresp
      cases hresp

/-- A certificate is drawn from a generator seeded since the last power-up. -/
theorem certDrawn {image : Flash} {older : List (Called P)} {s s' : Sys P} {c : Call}
    {resp : Response} (hcalls : Calls image older s) (hstep : s.call c = (s', some resp))
    (hcert : resp.IsCertificate) :
    CertDrawn (P := P) (bootEntropy (⟨c, s, some resp, s'⟩ :: older)) resp := by
  cases c with
  | mixEntropy host => cases s <;> cases hstep
  | event e =>
    have hstepped := stepped s e
    rw [show s.step e = (s', some resp) from hstep] at hstepped
    cases hstepped with
    | @drew h h' bytes faults _ hc hrun hrng =>
      have hs := hcalls.seededFrom h rfl
      have hfacing : SeededFrom (bootEntropy older) (h.facing faults) := ⟨hs.ahead, hs.grown⟩
      exact certificate_of_handle (fun req => wp_sign_drawn req hfacing) hrun hcert
    | served hc hrun => exact hcert.elim

/-- Host entropy is mixed in, by a request or by the firmware. -/
def MixesHost (P : Prims) (c : Call) : Prop :=
  (∃ host, c = .mixEntropy host) ∨
    ∃ bytes faults req, c = .event (.line bytes faults) ∧
      lineCommand P bytes = some (.addEntropy req)

theorem seeded_of_mixes {c : Call} (hmixes : MixesHost P c) (h : Hsm P) :
    ∃ h', ((Sys.on h).call c).1 = .on h' ∧ h'.drbg.seeded = h.drbg.seeded := by
  rcases hmixes with ⟨host, rfl⟩ | ⟨bytes, faults, req, rfl, hc⟩
  · exact ⟨h.mixEntropy host, rfl, rfl⟩
  · have hwp : Wp (hsmAddEntropy req) (fun _ h' => h'.drbg.seeded = h.drbg.seeded)
        (fun _ _ => False) (h.facing faults) := by
      unfold hsmAddEntropy
      split
      · split <;> rfl
      · rfl
    change ∃ h', (h.processLine bytes faults).1 = .on h' ∧ _
    rcases processLine_cases h bytes faults with
      ⟨hnone, -⟩ | ⟨c', r, h', hc', hrun, heq⟩ | ⟨c', e, h', hc', hrun, heq⟩
    · rw [hc] at hnone
      cases hnone
    · obtain rfl := Option.some.inj (hc.symm.trans hc')
      rw [heq]
      exact ⟨h', rfl, hwp.of_ok hrun⟩
    · obtain rfl := Option.some.inj (hc.symm.trans hc')
      exact (hwp.of_error hrun).elim

/-- In every history of calls the values of a stored key are drawn from a generator that
    the same request re-keyed with a healthy sample, those of a certificate from one that
    a healthy sample of this power-up seeded, mixing does not count as seeding, and a
    request that finds no sample fails and leaves the records alone; the one exception
    is the lockout wipe, which a wrong PIN causes before any sample is asked for. -/
theorem randomness_is_seeded {image : Flash} {newer older : List (Called P)} {m : Called P}
    {s : Sys P} (hcalls : Calls image (newer ++ m :: older) s) :
    (∀ h bytes faults c, m.before = .on h → m.call = .event (.line bytes faults) →
      lineCommand P bytes = some c → c.MakesKey → KeyRequest h c m) ∧
    (∀ resp, m.response = some resp → resp.IsCertificate →
      CertDrawn (P := P) (bootEntropy (m :: older)) resp) ∧
    (∀ h, m.before = .on h → MixesHost P m.call →
      ∃ h', m.after = .on h' ∧ h'.drbg.seeded = h.drbg.seeded) := by
  obtain ⟨hbefore, hstep⟩ := hcalls.earlier
  obtain ⟨call, before, response, after⟩ := m
  dsimp only at hbefore hstep ⊢
  refine ⟨?_, ?_, ?_⟩
  · rintro h bytes faults c rfl rfl hc hmakes
    exact keyRequest hc hmakes hstep
  · rintro resp rfl hcert
    exact certDrawn hbefore hstep hcert
  · rintro h rfl hmixes
    obtain ⟨h', hafter, hseeded⟩ := seeded_of_mixes hmixes h
    rw [hstep] at hafter
    exact ⟨h', hafter, hseeded⟩

theorem randomness_is_seeded_bench :
    ∃ (m : Called Bench.signing) (older : List (Called Bench.signing)) (resp : Response),
      m.response = some resp ∧ resp.IsCertificate ∧
        CertDrawn (P := Bench.signing) (bootEntropy (m :: older)) resp := by
  obtain ⟨m, older, h, cfg, cert, heq, -, -, -, hcert⟩ :=
    exists_of_endsInCertificate (show endsInCertificate
      (replay (P := Bench.signing) Bench.prodImage Bench.signingEvents).1 = true by decide +kernel)
  have hcalls := (run_replay (P := Bench.signing) Bench.prodImage Bench.signingEvents).calls
  rw [heq] at hcalls
  have hwhole : Calls Bench.prodImage ([] ++ m.called :: older.map Moment.called) _ := hcalls
  obtain ⟨-, hdrawn, -⟩ := randomness_is_seeded hwhole
  exact ⟨m.called, older.map Moment.called, _, hcert, trivial, hdrawn _ hcert trivial⟩

namespace Bench

def wrongChange : ChangePinReq := { currentPin := wrongPin, newPin := pin }

/-- A host that asks for a new PIN with the wrong one. -/
abbrev rekeying : Prims := .bench [{ hsm := some { changePin := some wrongChange } }]

end Bench

/-- Without a sample a wrong PIN still costs the key: the lockout wipe comes first. -/
theorem key_wiped_without_sample :
    ∃ (m : Moment Bench.rekeying) (older : List (Moment Bench.rekeying))
      (h h' : Hsm Bench.rekeying),
      Run (Bench.oneTryImage true) (m :: older) (.on h') ∧ m.event = Bench.send 0 ∧ m.before = .on h ∧
      m.after = .on h' ∧
      lineCommand Bench.rekeying [0x7B, 0] = some (.changePin Bench.wrongChange) ∧
      ¬ h.SampleAvailable ∧
      (KEY.latest Bench.rekeying.crc32 h.flash.sector).isSome ∧
      KEY.latest Bench.rekeying.crc32 h'.flash.sector = none := by
  obtain ⟨m, h, h', resp, hevent, hbefore, -, hafter, htest, -, hrun⟩ :=
    exists_of_replayEnds (show replayEnds (P := Bench.rekeying)
      (fun h _ h' => h.entropy.isEmpty && (KEY.latest Bench.rekeying.crc32 h.flash.sector).isSome &&
        (KEY.latest Bench.rekeying.crc32 h'.flash.sector).isNone)
      (Bench.oneTryImage true) [Bench.send 0, .boot Bench.dryPower] = true by decide +kernel)
  simp only [Bool.and_eq_true, List.isEmpty_iff, Option.isNone_iff_eq_none] at htest
  obtain ⟨⟨hdry, hkey⟩, hgone⟩ := htest
  refine ⟨m, _, h, h', hrun, hevent, hbefore, hafter, rfl, fun hsample => ?_, hkey, hgone⟩
  obtain ⟨raw, hmem, -⟩ := hsample.1
  rw [hdry] at hmem
  simp at hmem

end PicoSignet
