/-
  PicoSignet/Refusal.lean
  =======================
  **A refused request changes nothing** — a management request that is answered with an
  error leaves the session and what the next boot reads as they were, over any history
  of requests, boots, power cuts and failing flash operations
  (`refusals_change_nothing`).  The commands have many exits behind side effects: the
  counter has been ticked, the generator drawn from, or a write has failed half-way.

  A write that fails may cost a pair the copy it was to replace, and an erase may take
  either copy.  What carries the argument over a run is that the copies that are left
  are numbered apart (`Copies.Numbered`), so that the newest one is never the target.
-/
import PicoSignet.Backoff
import PicoSignet.OwnerPin

set_option autoImplicit false

namespace PicoSignet

open Crash TwoCopy

/-! ### Copies that can be lost -/

namespace TwoCopy.Copies

variable {α : Type} {c c' : Copies α}

/-- The copies that are there are numbered, and apart. -/
structure Numbered (c : Copies α) : Prop where
  a : c.a = none ∨ 0 < seq c.a
  b : c.b = none ∨ 0 < seq c.b
  apart : c.a = none ∨ c.b = none ∨ seq c.a ≠ seq c.b

/-- Each copy is kept or lost. -/
structure Thins (c c' : Copies α) : Prop where
  a : c'.a = c.a ∨ c'.a = none
  b : c'.b = c.b ∨ c'.b = none

theorem numbered_empty : (⟨none, none⟩ : Copies α).Numbered := ⟨.inl rfl, .inl rfl, .inl rfl⟩

theorem Numbered.sound (h : c.Numbered) : c.Sound := by
  rcases h.apart with hnone | hnone | hne
  · rcases h.b with hb | hb
    · exact Or.inl ⟨hnone, hb⟩
    · right
      rw [hnone, seq_none]
      omega
  · rcases h.a with ha | ha
    · exact Or.inl ⟨ha, hnone⟩
    · right
      rw [hnone, seq_none]
      omega
  · exact Or.inr hne

theorem Numbered.thins (h : c.Numbered) (hthins : c.Thins c') : c'.Numbered := by
  obtain ⟨ha, hb, hne⟩ := h
  obtain ⟨ha' | ha', hb' | hb'⟩ := hthins
  · exact ⟨by rwa [ha'], by rwa [hb'], by rwa [ha', hb']⟩
  · exact ⟨by rwa [ha'], .inl hb', .inr (.inl hb')⟩
  · exact ⟨.inl ha', by rwa [hb'], .inl ha'⟩
  · exact ⟨.inl ha', .inl hb', .inl ha'⟩

theorem thins_lost (c : Copies α) : c.Thins (c.replace none) := by
  unfold replace
  split
  · exact ⟨.inr rfl, .inl rfl⟩
  · exact ⟨.inl rfl, .inr rfl⟩

theorem Numbered.write (h : c.Numbered) (v : α) : (c.replace (some (c.next, v))).Numbered := by
  obtain ⟨ha, hb, -⟩ := h
  unfold replace next
  split
  · refine ⟨.inr ?_, hb, .inr (.inr ?_)⟩ <;> simp only [seq_some] <;> omega
  · refine ⟨ha, .inr ?_, .inr (.inr ?_)⟩ <;> simp only [seq_some] <;> omega

/-- As long as there is a number for the record, the copies stay apart. -/
theorem Numbered.step {N : Nat} {v : α} (h : c.Numbered) (hstep : Step N c (some v) c')
    (hleft : c.next < N) : c'.Numbered := by
  cases hstep with
  | done v =>
    rw [Nat.mod_eq_of_lt hleft]
    exact h.write v
  | lost v => exact h.thins (thins_lost c)
  | kept v => exact h

end TwoCopy.Copies

variable {P : Prims}

/-! ### The three pairs -/

/-- The pairs of records: all of the flash but the counter. -/
def recordPairs : List AbPair := [CONFIG, KEY, TIME_FLOOR]

theorem recordPairs_apart {p q : AbPair} (hp : p ∈ recordPairs) (hq : q ∈ recordPairs)
    (hne : q ≠ p) : (q.a ≠ p.a ∧ q.a ≠ p.b) ∧ q.b ≠ p.a ∧ q.b ≠ p.b := by
  simp only [recordPairs, List.mem_cons, List.not_mem_nil, or_false] at hp hq
  rcases hp with rfl | rfl | rfl <;> rcases hq with rfl | rfl | rfl <;>
    first
    | exact absurd rfl hne
    | exact ⟨⟨by decide, by decide⟩, by decide, by decide⟩

theorem recordPairs_besides {p : AbPair} (hp : p ∈ recordPairs) :
    p.a ≠ .pinCounter ∧ p.b ≠ .pinCounter := by
  simp only [recordPairs, List.mem_cons, List.not_mem_nil, or_false] at hp
  rcases hp with rfl | rfl | rfl <;> exact ⟨by decide, by decide⟩

/-- The records of every pair are numbered apart. -/
def NumberedApart (P : Prims) (f : Flash) : Prop :=
  ∀ pair ∈ recordPairs, (pair.copies P.crc32 f.sector).Numbered

/-- Only the counter is touched. -/
def CounterOnly (f g : Flash) : Prop := ∀ r, r ≠ .pinCounter → g.sector r = f.sector r

/-- Every sector keeps its record or loses it. -/
def RecordsThin (P : Prims) (f g : Flash) : Prop :=
  ∀ r, parseRecord P.crc32 (g.sector r) = parseRecord P.crc32 (f.sector r) ∨
    parseRecord P.crc32 (g.sector r) = none

section Pairs

variable {f f₁ g : Flash} {pair : AbPair} {payload : Octets}

theorem CounterOnly.of_sector (h : g.sector = f.sector) : CounterOnly f g := fun r _ => by rw [h]

theorem CounterOnly.trans (hfg : CounterOnly f f₁) (hgk : CounterOnly f₁ g) : CounterOnly f g :=
  fun r hr => (hgk r hr).trans (hfg r hr)

theorem CounterOnly.of_ticks (h : Ticks f g) : CounterOnly f g := fun _ hr => h.sector hr

theorem CounterOnly.of_resets (h : Resets f g) : CounterOnly f g := fun r hr =>
  h.within.sector r fun heq => hr (Option.some.inj heq)

theorem CounterOnly.copies (h : CounterOnly f g) (hpair : pair ∈ recordPairs) :
    pair.copies P.crc32 g.sector = pair.copies P.crc32 f.sector :=
  AbPair.copies_congr (h _ (recordPairs_besides hpair).1) (h _ (recordPairs_besides hpair).2)

theorem NumberedApart.counterOnly (h : NumberedApart P f) (hfg : CounterOnly f g) :
    NumberedApart P g := by
  intro pair hpair
  rw [hfg.copies hpair]
  exact h pair hpair

theorem NumberedApart.thin (h : NumberedApart P f) (hfg : RecordsThin P f g) :
    NumberedApart P g := by
  have hcopy : ∀ r, asCopy (parseRecord P.crc32 (g.sector r)) =
      asCopy (parseRecord P.crc32 (f.sector r)) ∨
        asCopy (parseRecord P.crc32 (g.sector r)) = none := by
    intro r
    rcases hfg r with hsame | hnone
    · exact Or.inl (by rw [hsame])
    · exact Or.inr (by rw [hnone, asCopy_none])
  intro pair hpair
  exact (h pair hpair).thins ⟨hcopy pair.a, hcopy pair.b⟩

/-- A write to one pair leaves the others. -/
theorem copies_beside {q : AbPair}
    (hw : FlashWithin (· = some (pair.nextTarget P.crc32 f.sector)) f g) (hpair : pair ∈ recordPairs)
    (hq : q ∈ recordPairs) (hne : q ≠ pair) :
    q.copies P.crc32 g.sector = q.copies P.crc32 f.sector := by
  obtain ⟨ha, hb⟩ := recordPairs_apart hpair hq hne
  exact AbPair.copies_congr (hw.beside ha.1 ha.2) (hw.beside hb.1 hb.2)

theorem NumberedApart.step (h : NumberedApart P f) (hpair : pair ∈ recordPairs)
    (hw : FlashWithin (· = some (pair.nextTarget P.crc32 f.sector)) f g)
    (hstep : Copies.Step (2 ^ 32) (pair.copies P.crc32 f.sector) (some payload)
      (pair.copies P.crc32 g.sector)) (hleft : pair.NumberLeft P.crc32 f.sector) :
    NumberedApart P g := by
  intro q hq
  by_cases hne : q = pair
  · rw [hne]
    exact (h pair hpair).step hstep hleft
  · rw [copies_beside hw hpair hq hne]
    exact h q hq

/-- A write that fails is not seen, unless its record got complete. -/
theorem WriteStopped.latest (hg : WriteStopped P pair payload f g)
    (hsound : (pair.copies P.crc32 f.sector).Sound)
    (hthin : parseRecord P.crc32 (g.sector (pair.nextTarget P.crc32 f.sector)) =
        parseRecord P.crc32 (f.sector (pair.nextTarget P.crc32 f.sector)) ∨
      parseRecord P.crc32 (g.sector (pair.nextTarget P.crc32 f.sector)) = none) :
    pair.latest P.crc32 g.sector = pair.latest P.crc32 f.sector := by
  have hother : ∀ r, r ≠ pair.nextTarget P.crc32 f.sector → g.sector r = f.sector r :=
    fun r hr => hg.within.sector r fun heq => hr (Option.some.inj heq)
  have hcopies : pair.copies P.crc32 g.sector = (pair.copies P.crc32 f.sector).replace
      (asCopy (parseRecord P.crc32 (g.sector (pair.nextTarget P.crc32 f.sector)))) :=
    AbPair.copies_replace hother
  unfold AbPair.latest
  rcases hthin with hsame | hnone
  · rw [hcopies, hsame, ← AbPair.copies_replace fun _ _ => rfl]
  · rw [hcopies, hnone]
    exact Copies.newest_lost hsound

end Pairs

/-! ### What a request does -/

/-- A wrong PIN was tried. -/
def TriedWrong (f g : Flash) : Prop :=
  f.journal.countP Entry.isWrong < g.journal.countP Entry.isWrong

/-- The session is the same, but for the backoff and a reboot that is asked for. -/
structure SessionKept (h h' : Hsm P) : Prop where
  same : ∀ x, x ≠ .backoff → x ≠ .reboot → Same x h h'

/-- The pairs that a command writes records to. -/
def Command.pairs : Command → List AbPair
  | .init _ => [KEY, CONFIG]
  | .generateKey _ => [KEY]
  | .changePin _ => [KEY]
  | .setTime _ => [TIME_FLOOR]
  | _ => []

/-- The records a command writes: none, one, or the two of a production init.  The last
    write may have stopped. -/
inductive Writes (P : Prims) (c : Command) (f g : Flash) : Prop
  | counter (hf : CounterOnly f g)
  | wrote {pair : AbPair} {payload : Octets} {f₁ g₁ : Flash} (hpair : pair ∈ c.pairs)
      (hlength : payload.length ≤ 4080) (hf : CounterOnly f f₁) (hg : Wrote P pair payload f₁ g₁)
      (hg' : CounterOnly g₁ g)
  | stopped {pair : AbPair} {payload : Octets} {f₁ : Flash} (hpair : pair ∈ c.pairs)
      (hf : CounterOnly f f₁) (hg : WriteStopped P pair payload f₁ g)
  | wroteBoth {req : InitReq} {blob : KeyBlob} {g₁ g₂ : Flash} (hc : c = .init req)
      (hkey : Wrote P KEY blob.toBytes f g₁) (hconfig : Wrote P CONFIG (prodConfig req).toBytes g₁ g₂)
      (hg : CounterOnly g₂ g)
  | stoppedBoth {req : InitReq} {blob : KeyBlob} {g₁ : Flash} (hc : c = .init req)
      (hkey : Wrote P KEY blob.toBytes f g₁)
      (hconfig : WriteStopped P CONFIG (prodConfig req).toBytes g₁ g)

/-- The two writes of a production init, one of which fails. -/
inductive InitStopped (P : Prims) (req : InitReq) (blob : KeyBlob) (f g : Flash) : Prop
  | key (hg : WriteStopped P KEY blob.toBytes f g)
  | config {g₁ : Flash} (hg : Wrote P KEY blob.toBytes f g₁)
      (hg' : WriteStopped P CONFIG (prodConfig req).toBytes g₁ g)

/-- The ways in which a request is answered. -/
inductive Handled (c : Command) (h : Hsm P) (resp : HsmResponse) (h' : Hsm P) : Prop
  | wrong (htried : TriedWrong h.flash h'.flash)
  | reset {req : FactoryResetReq} (hc : c = .factoryReset req)
      (hresp : resp.IsError → resp = resetIncomplete)
  | kept (hsame : SessionKept h h') (hf : CounterOnly h.flash h'.flash)
  | stopped {pair : AbPair} {payload : Octets} {f : Flash} (hsame : SessionKept h h')
      (hpair : pair ∈ c.pairs) (hkey : pair = KEY → ∀ req, c ≠ .init req)
      (hf : CounterOnly h.flash f) (hg : WriteStopped P pair payload f h'.flash)
  | initStopped {req : InitReq} {blob : KeyBlob} (hsame : SessionKept h h') (hc : c = .init req)
      (hmode : req.mode = modeProd) (hcfg : h.config = none)
      (hw : InitStopped P req blob h.flash h'.flash)
  | took (hresp : ¬ resp.IsError) (hw : Writes P c h.flash h'.flash)

/-- What a request that is not answered leaves behind. -/
def Halted (P : Prims) (c : Command) (f g : Flash) : Prop :=
  TriedWrong f g ∨ (∃ req, c = .factoryReset req) ∨ Writes P c f g

section Requests

variable {h h' h₁ : Hsm P} {c : Command} {resp : HsmResponse} {cfg : DeviceConfig} {pin : Str}

theorem SessionKept.update (h : Hsm P) (entropy : Entropy) (g : Flash) (drbg : Drbg P)
    (until_ : UInt64) (reboot : Bool) : SessionKept h
      { h with
        entropy := entropy, flash := g, drbg := drbg, pinBackoffUntilMs := until_
        rebootRequested := reboot } := by
  refine ⟨fun x hbackoff hreboot => ?_⟩
  cases x with
  | backoff => exact absurd rfl hbackoff
  | reboot => exact absurd rfl hreboot
  | _ => simp [Same]

theorem SessionKept.refl (h : Hsm P) : SessionKept h h := ⟨fun x _ _ => Same.refl x h⟩

theorem SessionKept.trans (h₀₁ : SessionKept h h₁) (h₁₂ : SessionKept h₁ h') : SessionKept h h' :=
  ⟨fun x hbackoff hreboot => (h₀₁.same x hbackoff hreboot).trans (h₁₂.same x hbackoff hreboot)⟩

theorem SessionKept.onlyRng (hrng : OnlyRng h h') : SessionKept h h' := by
  obtain ⟨drbg, entropy, rfl⟩ := hrng.exists
  exact .update ..

theorem CounterOnly.onlyRng (hrng : OnlyRng h h') : CounterOnly h.flash h'.flash := by
  rw [hrng]
  exact .of_sector rfl

theorem Handled.within {F : Field → Prop} (hw : Within F (fun _ => False) h h')
    (hF : ∀ x, ¬ F x) : Handled c h resp h' :=
  .kept ⟨fun x _ _ => hw.same x (hF x)⟩ (.of_sector hw.flash.sector_eq)

/-- A journal that goes on records no fewer wrong PINs. -/
theorem FlashWithin.wrong_le {R : Option Region → Prop} {f g : Flash} (hw : FlashWithin R f g) :
    f.journal.countP Entry.isWrong ≤ g.journal.countP Entry.isWrong := by
  obtain ⟨seg, hseg, -⟩ := hw.journal
  rw [hseg, List.countP_append]
  exact Nat.le_add_left _ _

theorem TriedWrong.of_log {R R' : Option Region → Prop} {f f₁ g : Flash} {limit : UInt8}
    (hf : FlashWithin R f f₁) (hg : FlashWithin R' (f₁.log (.tried limit false)) g) :
    TriedWrong f g := by
  have hlog : (f₁.log (.tried limit false)).journal.countP Entry.isWrong =
      f₁.journal.countP Entry.isWrong + 1 := List.countP_cons_of_pos rfl
  have hle := hf.wrong_le
  have hle' := hg.wrong_le
  unfold TriedWrong
  omega

theorem TriedWrong.within {R : Option Region → Prop} {f f₁ g : Flash} (hf : TriedWrong f f₁)
    (hg : FlashWithin R f₁ g) : TriedWrong f g := lt_of_lt_of_le hf hg.wrong_le

theorem Verified.kept {r : Except HsmResponse UnlockedSeed} (hv : Verified cfg pin h r h') :
    TriedWrong h.flash h'.flash ∨ SessionKept h h' ∧ CounterOnly h.flash h'.flash := by
  cases hv with
  | refused hg => exact Or.inr ⟨.update .., .of_ticks hg⟩
  | @opened g g' until_ seed kek salt hg hopens hreset =>
    have hreset' : CounterOnly g g' := fun r hr => CounterOnly.of_resets hreset r hr
    exact Or.inr ⟨.update .., (CounterOnly.of_ticks hg).trans hreset'⟩
  | @wrong resp g attempts _ hg hblob htick hwrong =>
    left
    have hsame := refl_of (FlashWithin fun _ => False) (g.log (.tried cfg.maxRetries false))
    cases hwrong with
    | retry until_ hlt => exact .of_log hg.within hsame
    | lockout until_ hge hwipe => exact .of_log hg.within hsame
    | wipe until_ g' pubkey hge hwipe hwipes hpubkey => exact .of_log hg.within hwipes.within

theorem VerifyCut.kept {f g : Flash} (hcut : VerifyCut P cfg pin f g) :
    TriedWrong f g ∨ CounterOnly f g := by
  cases hcut with
  | ticking hg => exact Or.inr (.of_ticks hg)
  | @resetting g₁ _ seed kek salt hg hopens hreset =>
    have hreset' : CounterOnly g₁ g := fun r hr => CounterOnly.of_resets hreset r hr
    exact Or.inr ((CounterOnly.of_ticks hg).trans hreset')
  | wiping hg hblob htick hge hwipe hwipes => exact Or.inl (.of_log hg.within hwipes.within)

theorem VerifyStop.halted {e : Halt} (hstop : VerifyStop pin h e h') :
    Halted P c h.flash h'.flash := by
  rcases hstop with ⟨-, -, rfl⟩ | ⟨-, cfg, -, hcut⟩
  · exact Or.inr (Or.inr (.counter (.of_sector rfl)))
  · rcases hcut.kept with hwrong | hcounter
    · exact Or.inl hwrong
    · exact Or.inr (Or.inr (.counter hcounter))

theorem Verified.handled {r : Except HsmResponse UnlockedSeed} (hv : Verified cfg pin h r h') :
    Handled c h resp h' := by
  rcases hv.kept with hwrong | ⟨hsame, hcounter⟩
  · exact .wrong hwrong
  · exact .kept hsame hcounter

theorem Gate.handled {r : Option HsmResponse} {pin : Option Str} (hgate : Gate pin h r h') :
    Handled c h resp h' := by
  cases hgate with
  | free => exact .kept (.refl h) (.of_sector rfl)
  | physical => exact .kept (.refl h) (.of_sector rfl)
  | verified _ _ _ hv => exact hv.handled
  | refused => exact .kept (.refl h) (.of_sector rfl)
  | rejected _ _ _ hv => exact hv.handled

/-! ### The commands -/

theorem handled_init (req : InitReq) (h : Hsm P) :
    Wp (hsmInit req) (Handled (.init req) h) (fun _ h' => Halted P (.init req) h.flash h'.flash)
      h := by
  have hconfig : CONFIG ∈ (Command.init req).pairs := by simp [Command.pairs]
  have hkeyMem : KEY ∈ (Command.init req).pairs := by simp [Command.pairs]
  have hother : CONFIG = KEY → ∀ req', Command.init req ≠ .init req' := fun heq =>
    absurd (congrArg AbPair.a heq) (by decide)
  have hrefl : CounterOnly h.flash h.flash := .of_sector rfl
  refine (wp_init req h).mono ?_ ?_
  · rintro resp h' (rfl | ⟨hcfg, ⟨-, hdev⟩ | ⟨hmode, hprod⟩⟩)
    · exact .kept (.refl _) (.of_sector rfl)
    · cases hdev with
      | refused => exact .kept (.refl _) (.of_sector rfl)
      | failed hg hfail => exact .stopped (.update ..) hconfig hother hrefl hg
      | done hg =>
        exact .took (by simp [HsmResponse.IsError]) (.wrote hconfig
          (by rw [length_deviceConfig]; norm_num) hrefl hg (.of_sector rfl))
    · cases hprod with
      | refused hrng hresp => exact .kept (.onlyRng hrng) (.onlyRng hrng)
      | keyFailed hresp hg hfail => exact .initStopped (.update ..) rfl hmode hcfg (.key hg)
      | configFailed hresp hg hg' hfail =>
        exact .initStopped (.update ..) rfl hmode hcfg (.config hg hg')
      | done hretries hblob hg hg' hreset =>
        exact .took (by simp [HsmResponse.IsError]) (.wroteBoth rfl hg hg' (.of_resets hreset))
  · rintro e h' ⟨-, -, ⟨-, hg⟩ | ⟨-, hcut⟩⟩
    · exact Or.inr (Or.inr (.stopped hconfig hrefl hg))
    · right
      right
      cases hcut with
      | key hg => exact .stopped hkeyMem hrefl hg
      | config hg hg' => exact .stoppedBoth rfl hg hg'
      | resetting hg hg' hreset => exact .wroteBoth rfl hg hg' (.of_resets hreset)

theorem handled_generateKey (req : GenerateKeyReq) (h : Hsm P) :
    Wp (hsmGenerateKey req) (Handled (.generateKey req) h)
      (fun _ h' => Halted P (.generateKey req) h.flash h'.flash) h := by
  have hkey : KEY ∈ (Command.generateKey req).pairs := by simp [Command.pairs]
  have hrefl : CounterOnly h.flash h.flash := .of_sector rfl
  refine (wp_generateKey req h).mono ?_ ?_
  · rintro resp h' (⟨rfl, -⟩ | ⟨-, hrotated⟩)
    · exact .kept (.refl _) (.of_sector rfl)
    · cases hrotated with
      | refused hrng hresp => exact .kept (.onlyRng hrng) (.onlyRng hrng)
      | failed hresp hg hfail => exact .stopped (.update ..) hkey (by simp) hrefl hg
      | done hblob hg =>
        exact .took (by simp [HsmResponse.IsError]) (.wrote hkey
          (by rw [length_keyBlob]; norm_num) hrefl hg (.of_sector rfl))
  · rintro e h' ⟨-, -, hcut⟩
    obtain ⟨hblob, hg⟩ := hcut
    exact Or.inr (Or.inr (.stopped hkey hrefl hg))

theorem handled_unlock (req : UnlockReq) (h : Hsm P) :
    Wp (hsmUnlock req) (Handled (.unlock req) h)
      (fun _ h' => Halted P (.unlock req) h.flash h'.flash) h := by
  refine (wp_unlock req h).mono ?_ fun _ _ hstop => hstop.2.halted
  intro resp h' hunlocked
  cases hunlocked with
  | refused => exact .kept (.refl _) (.of_sector rfl)
  | rejected hcfg hstate hv => exact hv.handled
  | opened hcfg hstate hv =>
    rcases hv.kept with hwrong | ⟨-, hcounter⟩
    · exact .wrong hwrong
    · exact .took (by simp [HsmResponse.IsError]) (.counter hcounter)

theorem handled_lock (h : Hsm P) :
    Wp hsmLock (Handled .lock h) (fun _ h' => Halted P .lock h.flash h'.flash) h := by
  refine (wp_lock h).mono ?_ fun _ _ hstop => hstop.elim
  rintro resp h' (⟨-, rfl, rfl⟩ | ⟨-, rfl, rfl⟩ | ⟨-, rfl⟩)
  · exact .took (by simp [HsmResponse.IsError]) (.counter (.of_sector rfl))
  · exact .took (by simp [HsmResponse.IsError]) (.counter (.of_sector rfl))
  · exact .kept (.refl _) (.of_sector rfl)

theorem handled_setTime (req : SetTimeReq) (h : Hsm P) :
    Wp (hsmSetTime req) (Handled (.setTime req) h)
      (fun _ h' => Halted P (.setTime req) h.flash h'.flash) h := by
  have hfloor : TIME_FLOOR ∈ (Command.setTime req).pairs := by simp [Command.pairs]
  have hrefl : CounterOnly h.flash h.flash := .of_sector rfl
  refine (wp_setTime req h).mono ?_ ?_
  · intro resp h' hset
    cases hset with
    | refused hno => exact .kept (.refl _) (.of_sector rfl)
    | kept hyes hset hsame =>
      exact .took (by simp [HsmResponse.IsError]) (.counter (.of_sector rfl))
    | wrote hyes hset hnext hne hg =>
      exact .took (by simp [HsmResponse.IsError]) (.wrote hfloor (by simp) hrefl hg (.of_sector rfl))
    | failed hyes hset hnext hg hfail => exact .stopped (.update ..) hfloor (by simp) hrefl hg
  · rintro e h' ⟨-, -, hcut⟩
    obtain ⟨hyes, hset, hnext, hne, hg⟩ := hcut
    exact Or.inr (Or.inr (.stopped hfloor hrefl hg))

theorem handled_changePin (req : ChangePinReq) (h : Hsm P) :
    Wp (hsmChangePin req) (Handled (.changePin req) h)
      (fun _ h' => Halted P (.changePin req) h.flash h'.flash) h := by
  have hkey : KEY ∈ (Command.changePin req).pairs := by simp [Command.pairs]
  have hlength : ∀ blob : KeyBlob, blob.toBytes.length ≤ 4080 := by
    intro blob
    rw [length_keyBlob]
    norm_num
  refine (wp_changePin req h).mono ?_ ?_
  · intro resp h' hchanged
    cases hchanged with
    | refused hresp => exact .kept (.refl _) (.of_sector rfl)
    | rejected hcfg hstate hv => exact hv.handled
    | rewrapped hcfg hstate hv hr =>
      rcases hv.kept with hwrong | ⟨hsame, hcounter⟩
      · cases hr with
        | refused hrng hresp =>
          refine .wrong ?_
          rw [hrng]
          exact hwrong
        | failed hresp hg hfail => exact .wrong (hwrong.within hg.within)
        | done hblob hg hreset =>
          exact .wrong ((hwrong.within hg.within).within hreset.within)
      · cases hr with
        | refused hrng hresp =>
          exact .kept (hsame.trans (.onlyRng hrng)) (hcounter.trans (.onlyRng hrng))
        | failed hresp hg hfail => exact .stopped (hsame.trans (.update ..)) hkey (by simp) hcounter hg
        | done hblob hg hreset =>
          exact .took (by simp [HsmResponse.IsError])
            (.wrote hkey (hlength _) hcounter hg (.of_resets hreset))
  · rintro e h' ⟨-, hstop | ⟨-, cfg, seed, kek, salt, h₁, -, hv, hcut⟩⟩
    · exact hstop.halted
    · rcases hv.kept with hwrong | ⟨-, hcounter⟩
      · left
        cases hcut with
        | writing hblob hg => exact hwrong.within hg.within
        | resetting hblob hg hreset => exact (hwrong.within hg.within).within hreset.within
      · right
        right
        cases hcut with
        | writing hblob hg => exact .stopped hkey hcounter hg
        | resetting hblob hg hreset => exact .wrote hkey (hlength _) hcounter hg (.of_resets hreset)

theorem GateStop.halted {e : Halt} {pin : Option Str} (hstop : GateStop pin h e h') :
    Halted P c h.flash h'.flash := by
  obtain ⟨p, -, -, hverify⟩ := hstop
  exact hverify.halted

theorem handled_rebootBootloader (req : RebootBootloaderReq) (h : Hsm P) :
    Wp (hsmRebootBootloader req) (Handled (.rebootBootloader req) h)
      (fun _ h' => Halted P (.rebootBootloader req) h.flash h'.flash) h := by
  refine (wp_rebootBootloader req h).mono ?_ fun _ _ hstop => hstop.halted
  rintro resp h' (⟨resp', hgate⟩ | ⟨h₁, hgate, rfl⟩)
  · exact hgate.handled
  · cases hgate with
    | free => exact .kept (.update ..) (.of_sector rfl)
    | physical => exact .kept (.update ..) (.of_sector rfl)
    | verified hpin hstate hcfg hv =>
      rcases hv.kept with hwrong | ⟨hsame, hcounter⟩
      · exact .wrong hwrong
      · exact .kept (hsame.trans (.update ..)) hcounter

theorem handled_factoryReset (req : FactoryResetReq) (h : Hsm P) :
    Wp (hsmFactoryReset req) (Handled (.factoryReset req) h)
      (fun _ h' => Halted P (.factoryReset req) h.flash h'.flash) h := by
  have hhalted : ∀ h' : Hsm P, Halted P (.factoryReset req) h.flash h'.flash :=
    fun _ => Or.inr (Or.inl ⟨req, rfl⟩)
  unfold hsmFactoryReset
  split
  · exact .kept (.refl _) (.of_sector rfl)
  rw [Wp_bind]
  refine Wp.mono (wp_destructiveGate _ _ h) ?_ fun _ h' _ => hhalted h'
  intro r h₁ hgate
  cases r with
  | some resp => exact hgate.handled
  | none =>
    dsimp only
    rw [Wp_bind, Wp_modify]
    refine Wp.bind_any _ (fun gone h₂ => ?_) fun _ h' => hhalted h'
    cases gone with
    | true => exact .reset rfl (by simp [HsmResponse.IsError])
    | false =>
      refine Wp.bind_any _ (fun _ h₃ => ?_) fun _ h' => hhalted h'
      exact .reset rfl fun _ => rfl

/-- Every command, answered or not. -/
theorem handled_run (c : Command) (h : Hsm P) :
    Wp (c.run : Dev P HsmResponse) (Handled c h) (fun _ h' => Halted P c h.flash h'.flash) h := by
  have hreads : ∀ {m : Dev P HsmResponse}, Stays (Within (fun _ => False) fun _ => False) m →
      Wp m (Handled c h) (fun _ h' => Halted P c h.flash h'.flash) h := fun hm =>
    (hm h).mono (fun _ _ hw => .within hw fun _ => not_false) fun _ _ hw =>
      Or.inr (Or.inr (.counter (.of_sector hw.flash.sector_eq)))
  cases c with
  | init req => exact handled_init req h
  | generateKey req => exact handled_generateKey req h
  | getPublicKey => exact hreads stays_getPublicKey
  | unlock req => exact handled_unlock req h
  | lock => exact handled_lock h
  | setTime req => exact handled_setTime req h
  | status => exact hreads stays_status
  | changePin req => exact handled_changePin req h
  | addEntropy req => exact hreads (stays_addEntropy req)
  | selfTest => exact hreads stays_selfTest
  | factoryReset req => exact handled_factoryReset req h
  | rebootBootloader req => exact handled_rebootBootloader req h

end Requests

/-! ### Runs -/

/-- The command of a moment, if it has one. -/
def Moment.command (m : Moment P) : Option Command :=
  match m.event with
  | .line bytes _ => lineCommand P bytes
  | _ => none

/-- What a sector is left with by an operation that fails, or during which the power goes. -/
structure Moment.SectorsDetected (m : Moment P) : Prop where
  /-- After a write: the record that was there, the new one, or none. -/
  record : RecordsDetected P m.after.flash
  /-- After an erase: the record that was there, or none. -/
  erase : m.wrongPin = true ∨ (∃ req, m.command = some (.factoryReset req)) →
    RecordsThin P m.before.flash m.after.flash

section Numbers

variable {f g : Flash} {c : Command} {h h' : Hsm P} {resp : HsmResponse}

theorem Command.pairs_mem {pair : AbPair} (hpair : pair ∈ c.pairs) : pair ∈ recordPairs := by
  cases c with
  | init req =>
    have hor : pair = KEY ∨ pair = CONFIG := by simpa [Command.pairs] using hpair
    rcases hor with rfl | rfl <;> simp [recordPairs]
  | generateKey req =>
    obtain rfl : pair = KEY := by simpa [Command.pairs] using hpair
    simp [recordPairs]
  | changePin req =>
    obtain rfl : pair = KEY := by simpa [Command.pairs] using hpair
    simp [recordPairs]
  | setTime req =>
    obtain rfl : pair = TIME_FLOOR := by simpa [Command.pairs] using hpair
    simp [recordPairs]
  | _ => simp [Command.pairs] at hpair

theorem Hsm.Numbered.left (hnum : h.Numbered c) {pair : AbPair} (hpair : pair ∈ c.pairs) :
    pair.NumberLeft P.crc32 h.flash.sector := by
  cases c with
  | init req =>
    have hor : pair = KEY ∨ pair = CONFIG := by simpa [Command.pairs] using hpair
    rcases hor with rfl | rfl
    · exact hnum.2
    · exact hnum.1
  | generateKey req =>
    obtain rfl : pair = KEY := by simpa [Command.pairs] using hpair
    exact hnum
  | changePin req =>
    obtain rfl : pair = KEY := by simpa [Command.pairs] using hpair
    exact hnum
  | setTime req =>
    obtain rfl : pair = TIME_FLOOR := by simpa [Command.pairs] using hpair
    exact hnum
  | _ => simp [Command.pairs] at hpair

theorem AbPair.NumberLeft.of_copies {pair : AbPair} (hleft : pair.NumberLeft P.crc32 f.sector)
    (hsame : pair.copies P.crc32 g.sector = pair.copies P.crc32 f.sector) :
    pair.NumberLeft P.crc32 g.sector := by
  unfold AbPair.NumberLeft at hleft ⊢
  rwa [hsame]

theorem config_ne_key : CONFIG ≠ KEY := fun heq => absurd (congrArg AbPair.a heq) (by decide)

/-- The first write of a production init. -/
theorem NumberedApart.wroteKey {blob : KeyBlob} (hf : NumberedApart P f)
    (hkey : Wrote P KEY blob.toBytes f g) (hleft : KEY.NumberLeft P.crc32 f.sector) :
    NumberedApart P g ∧ CONFIG.copies P.crc32 g.sector = CONFIG.copies P.crc32 f.sector := by
  have hmem : KEY ∈ recordPairs := by simp [recordPairs]
  have hlength : blob.toBytes.length ≤ 4080 := by
    rw [length_keyBlob]
    norm_num
  exact ⟨hf.step hmem hkey.within (hkey.step hlength) hleft,
    copies_beside hkey.within hmem (by simp [recordPairs]) config_ne_key⟩

theorem NumberedApart.writes (hf : NumberedApart P f) (hw : Writes P c f g)
    (hdetected : RecordsDetected P g)
    (hleft : ∀ pair ∈ c.pairs, pair.NumberLeft P.crc32 f.sector) : NumberedApart P g := by
  have hmemConfig : CONFIG ∈ recordPairs := by simp [recordPairs]
  cases hw with
  | counter hcounter => exact hf.counterOnly hcounter
  | wrote hpair hlength hcounter hg hcounter' =>
    have hmem := Command.pairs_mem hpair
    exact ((hf.counterOnly hcounter).step hmem hg.within (hg.step hlength)
      ((hleft _ hpair).of_copies (hcounter.copies hmem))).counterOnly hcounter'
  | stopped hpair hcounter hg =>
    have hmem := Command.pairs_mem hpair
    exact (hf.counterOnly hcounter).step hmem hg.within (hg.step hdetected)
      ((hleft _ hpair).of_copies (hcounter.copies hmem))
  | wroteBoth hc hkey hconfig hcounter =>
    rw [hc] at hleft
    obtain ⟨hf₁, hbeside⟩ := hf.wroteKey hkey (hleft KEY (by simp [Command.pairs]))
    exact (hf₁.step hmemConfig hconfig.within
      (hconfig.step (by rw [length_deviceConfig]; norm_num))
      ((hleft CONFIG (by simp [Command.pairs])).of_copies hbeside)).counterOnly hcounter
  | stoppedBoth hc hkey hconfig =>
    rw [hc] at hleft
    obtain ⟨hf₁, hbeside⟩ := hf.wroteKey hkey (hleft KEY (by simp [Command.pairs]))
    exact hf₁.step hmemConfig hconfig.within (hconfig.step hdetected)
      ((hleft CONFIG (by simp [Command.pairs])).of_copies hbeside)

theorem Handled.halted (hhandled : Handled c h resp h') : Halted P c h.flash h'.flash := by
  have hrefl : CounterOnly h.flash h.flash := .of_sector rfl
  cases hhandled with
  | wrong htried => exact Or.inl htried
  | reset hc hresp => exact Or.inr (Or.inl ⟨_, hc⟩)
  | kept hsame hf => exact Or.inr (Or.inr (.counter hf))
  | stopped hsame hpair hkey hf hg => exact Or.inr (Or.inr (.stopped hpair hf hg))
  | initStopped hsame hc hmode hcfg hw =>
    right
    right
    cases hw with
    | key hg => exact .stopped (by simp [hc, Command.pairs]) hrefl hg
    | config hg hg' => exact .stoppedBoth hc hg hg'
  | took hresp hw => exact Or.inr (Or.inr hw)

/-- What a request leaves behind is numbered apart. -/
theorem NumberedApart.halted {bytes : Octets} {faults : List Fault} {resp : Option Response}
    {s' : Sys P} (hf : NumberedApart P h.flash) (hc : lineCommand P bytes = some c)
    (hhalted : Halted P c (h.facing faults).flash s'.flash)
    (hdetected : (⟨.line bytes faults, .on h, resp, s'⟩ : Moment P).SectorsDetected)
    (hnum : (⟨.line bytes faults, .on h, resp, s'⟩ : Moment P).Numbered) :
    NumberedApart P s'.flash := by
  rcases hhalted with hwrong | ⟨req, rfl⟩ | hw
  · exact hf.thin (hdetected.erase (Or.inl (decide_eq_true hwrong)))
  · exact hf.thin (hdetected.erase (Or.inr ⟨req, hc⟩))
  · have hleft := hnum h bytes faults c rfl rfl hc
    exact NumberedApart.writes (f := (h.facing faults).flash) hf hw hdetected.record
      fun pair hpair => hleft.left hpair

theorem NumberedApart.stepped {s s' : Sys P} {e : Event} {resp : Option Response}
    (hf : NumberedApart P s.flash) (hstep : Stepped s e resp s')
    (hdetected : (⟨e, s, resp, s'⟩ : Moment P).SectorsDetected)
    (hnum : (⟨e, s, resp, s'⟩ : Moment P).Numbered) : NumberedApart P s'.flash := by
  cases hstep with
  | @booted _ p h hboot =>
    obtain ⟨drbg, entropy, g, cfg, keyblob, time, attempts, rfl, hg, -⟩ := hboot
    obtain ⟨state, ca, kek, until_, -, heq⟩ :=
      (Hsm.fresh entropy p.mono g drbg).loaded_cases cfg keyblob time attempts
    have hsector : (Sys.on (p.latch ((Hsm.fresh entropy p.mono g drbg).loaded cfg keyblob time
        attempts))).flash.sector = s.flash.sector := by
      rw [heq]
      exact hg.sector_eq
    exact hf.counterOnly (.of_sector hsector)
  | bootCut hcut hg => exact hf.counterOnly (.of_sector hg.sector_eq)
  | unpowered hno => exact hf
  | @drew h _ _ faults _ hc hrun hrng =>
    exact NumberedApart.counterOnly (f := (h.facing faults).flash) hf (.onlyRng hrng)
  | served hc hrun => exact hf.halted hc ((handled_run _ _).of_ok hrun).halted hdetected hnum
  | cut hc hrun => exact hf.halted hc ((handled_run _ _).of_error hrun) hdetected hnum
  | @relocked h =>
    have hflash : h.relockOnTransportReset.flash = h.flash := by
      unfold Hsm.relockOnTransportReset
      dsimp only
      split
      · split <;> rfl
      · rfl
    exact hf.counterOnly (.of_sector (congrArg Flash.sector hflash))
  | advanced => exact hf
  | quiet => exact hf

theorem Run.numberedApart {image : Flash} {hist : List (Moment P)} {s : Sys P}
    (hrun : Run image hist s) (himage : ∀ r, image.sector r = Sector.erased)
    (hdetected : ∀ m ∈ hist, m.SectorsDetected) (hnum : ∀ m ∈ hist, m.Numbered) :
    NumberedApart P s.flash := by
  refine Run.induct (I := fun hist s => (∀ m ∈ hist, m.SectorsDetected) → (∀ m ∈ hist, m.Numbered) →
    NumberedApart P s.flash) ?_ ?_ hrun hdetected hnum
  · intro _ _ pair _
    change (pair.copies P.crc32 image.sector).Numbered
    rw [AbPair.copies_erased (himage _) (himage _)]
    exact Copies.numbered_empty
  · intro hist s s' e resp ih hstep hdetected hnum
    exact (ih (fun m hm => hdetected m (List.mem_cons_of_mem _ hm))
      fun m hm => hnum m (List.mem_cons_of_mem _ hm)).stepped hstep
        (hdetected _ List.mem_cons_self) (hnum _ List.mem_cons_self)

end Numbers

/-! ### Refusals -/

/-- The floor that a boot loads. -/
def bootFloor (P : Prims) (image : Region → Sector) : Option Int64 := (storedFloor P image).1

/-- The fail-closed reader finds the latest record, if there is one. -/
theorem bootFloor_eq (image : Region → Sector) : bootFloor P image =
    (TIME_FLOOR.latest P.crc32 image).bind fun bytes =>
      if bytes.length = 8 then some (i64FromBe bytes) else none := by
  unfold bootFloor storedFloor AbPair.failClosedResult
  cases hlatest : TIME_FLOOR.latest P.crc32 image with
  | some payload =>
    rw [AbPair.failClosed_of_latest hlatest]
    simp only [loadTimeFloor, Option.bind_some]
    split <;> rfl
  | none =>
    obtain ⟨ha, hb⟩ := AbPair.parse_of_latest_none hlatest
    unfold AbPair.failClosed
    rcases recordState_of_none ha with hA | hA <;> rcases recordState_of_none hb with hB | hB <;>
      rw [hA, hB] <;> rfl

/-- No sector gains a record, but for the KEY sectors in an init, which writes two records. -/
def Moment.GainsNoRecord (m : Moment P) : Prop :=
  ∀ r, ((∃ req, m.command = some (.init req)) → r ≠ .keyA ∧ r ≠ .keyB) →
    parseRecord P.crc32 (m.after.flash.sector r) = parseRecord P.crc32 (m.before.flash.sector r) ∨
      parseRecord P.crc32 (m.after.flash.sector r) = none

/-- The session is as it was, and so is what the next boot reads. -/
structure Unchanged (c : Option Command) (h h' : Hsm P) : Prop where
  session : SessionKept h h'
  config : storedConfig P h'.flash.sector = storedConfig P h.flash.sector
  floor : bootFloor P h'.flash.sector = bootFloor P h.flash.sector
  /-- A production init may leave the key of a device that it did not set up. -/
  key : storedKey P h'.flash.sector = storedKey P h.flash.sector ∨
    ∃ req blob, c = some (.init req) ∧ req.mode = modeProd ∧ h.config = none ∧
      storedKey P h'.flash.sector = some blob

/-- A boot that nothing disturbs finds the same in both flashes. -/
def BootsAlike (P : Prims) (p : PowerUp) (f g : Flash) : Prop :=
  ∃ b b' : Hsm P, powerUp f p = .ok () b ∧ powerUp g p = .ok () b' ∧ b'.config = b.config ∧
    b'.trustedTimeFloor = b.trustedTimeFloor ∧
    (storedKey P g.sector = storedKey P f.sector → b'.caPubkey = b.caPubkey)

section Unchanged

variable {h h' : Hsm P} {c : Command} {co : Option Command}

theorem Unchanged.boots (hun : Unchanged co h h') {p : PowerUp} (hfaults : Faultless p.faults) :
    BootsAlike P p h.flash h'.flash := by
  obtain ⟨b, hb, hclean⟩ := powerUp_faultless (P := P) h.flash hfaults
  obtain ⟨b', hb', hclean'⟩ := powerUp_faultless (P := P) h'.flash hfaults
  have hkeys := (powerUp_ok hb).keys hfaults
  have hkeys' := (powerUp_ok hb').keys hfaults
  refine ⟨b, b', hb, hb', ?_, ?_, fun hsame => ?_⟩
  · rw [hkeys'.config, hkeys.config, hun.config]
  · rw [hclean'.floor, hclean.floor]
    exact hun.floor
  · rw [hkeys'.keys.pubkey, hkeys.keys.pubkey, hkeys'.sector, hkeys.sector, hsame]

/-- The newest records are what counts. -/
theorem Unchanged.of_latest (hsession : SessionKept h h')
    (hlatest : ∀ pair ∈ recordPairs,
      pair.latest P.crc32 h'.flash.sector = pair.latest P.crc32 h.flash.sector) :
    Unchanged co h h' := by
  refine ⟨hsession, ?_, ?_, Or.inl ?_⟩
  · unfold storedConfig
    rw [hlatest CONFIG (by simp [recordPairs])]
  · rw [bootFloor_eq, bootFloor_eq, hlatest TIME_FLOOR (by simp [recordPairs])]
  · unfold storedKey
    rw [hlatest KEY (by simp [recordPairs])]

theorem Unchanged.of_counter (hsession : SessionKept h h') (hcounter : CounterOnly h.flash h'.flash) :
    Unchanged co h h' := by
  refine .of_latest hsession fun pair hpair => ?_
  unfold AbPair.latest
  rw [hcounter.copies hpair]

/-- The records beside the pair of a write. -/
theorem latest_beside {pair q : AbPair} {f g : Flash}
    (hw : FlashWithin (· = some (pair.nextTarget P.crc32 f.sector)) f g) (hpair : pair ∈ recordPairs)
    (hq : q ∈ recordPairs) (hne : q ≠ pair) :
    q.latest P.crc32 g.sector = q.latest P.crc32 f.sector := by
  unfold AbPair.latest
  rw [copies_beside hw hpair hq hne]

/-- The two writes of a production init: no configuration comes of them, if the second
    gains no record. -/
theorem InitStopped.unchanged {req : InitReq} {blob : KeyBlob}
    (hw : InitStopped P req blob h.flash h'.flash) (hsession : SessionKept h h')
    (hmode : req.mode = modeProd) (hcfg : h.config = none) (hnum : NumberedApart P h.flash)
    (hleft : KEY.NumberLeft P.crc32 h.flash.sector) (hdetected : RecordsDetected P h'.flash)
    (hgains : ∀ r, r ≠ .keyA ∧ r ≠ .keyB →
      parseRecord P.crc32 (h'.flash.sector r) = parseRecord P.crc32 (h.flash.sector r) ∨
        parseRecord P.crc32 (h'.flash.sector r) = none) :
    Unchanged (some (.init req)) h h' := by
  have hconfigMem : CONFIG ∈ recordPairs := by simp [recordPairs]
  have hkeyMem : KEY ∈ recordPairs := by simp [recordPairs]
  have hfloorMem : TIME_FLOOR ∈ recordPairs := by simp [recordPairs]
  have hfloorKey : TIME_FLOOR ≠ KEY := fun heq => absurd (congrArg AbPair.a heq) (by decide)
  have hfloorConfig : TIME_FLOOR ≠ CONFIG := fun heq => absurd (congrArg AbPair.a heq) (by decide)
  cases hw with
  | key hg =>
    refine ⟨hsession, ?_, ?_, ?_⟩
    · unfold storedConfig
      rw [latest_beside hg.within hkeyMem hconfigMem config_ne_key]
    · rw [bootFloor_eq, bootFloor_eq, latest_beside hg.within hkeyMem hfloorMem hfloorKey]
    · rcases storedKey_old_or_new (hnum KEY hkeyMem).sound (hg.step hdetected) with hold | hnew
      · exact Or.inl hold
      · exact Or.inr ⟨req, blob, rfl, hmode, hcfg, hnew⟩
  | @config g hg hg' =>
    have hbeside := copies_beside hg.within hkeyMem hconfigMem config_ne_key
    have hsectors : ∀ r, r ≠ .keyA → r ≠ .keyB → g.sector r = h.flash.sector r :=
      fun r hA hB => hg.within.beside hA hB
    have htarget : CONFIG.nextTarget P.crc32 g.sector ≠ .keyA ∧
        CONFIG.nextTarget P.crc32 g.sector ≠ .keyB := by
      rcases CONFIG.nextTarget_mem P.crc32 g.sector with heq | heq <;> rw [heq] <;>
        exact ⟨by decide, by decide⟩
    have hconfig : CONFIG.latest P.crc32 h'.flash.sector = CONFIG.latest P.crc32 g.sector := by
      refine hg'.latest ?_ ?_
      · rw [hbeside]
        exact (hnum CONFIG hconfigMem).sound
      · rw [hsectors _ htarget.1 htarget.2]
        exact hgains _ htarget
    refine ⟨hsession, ?_, ?_, Or.inr ⟨req, blob, rfl, hmode, hcfg, ?_⟩⟩
    · unfold storedConfig
      rw [hconfig, latest_beside hg.within hkeyMem hconfigMem config_ne_key]
    · rw [bootFloor_eq, bootFloor_eq, latest_beside hg'.within hconfigMem hfloorMem hfloorConfig,
        latest_beside hg.within hkeyMem hfloorMem hfloorKey]
    · have hkey : storedKey P h'.flash.sector = storedKey P g.sector := by
        unfold storedKey
        rw [latest_beside hg'.within hconfigMem hkeyMem config_ne_key.symm]
      rw [hkey]
      exact storedKey_wrote hg hleft

/-- A request that is answered with an error. -/
theorem Handled.unchanged {e : HsmError} (hhandled : Handled c h (.error e) h')
    (hnum : NumberedApart P h.flash) (hleft : h.Numbered c) (hdetected : RecordsDetected P h'.flash)
    (hwrong : ¬ TriedWrong h.flash h'.flash) (hreset : HsmResponse.error e ≠ resetIncomplete)
    (hgains : ∀ r, ((∃ req, c = .init req) → r ≠ .keyA ∧ r ≠ .keyB) →
      parseRecord P.crc32 (h'.flash.sector r) = parseRecord P.crc32 (h.flash.sector r) ∨
        parseRecord P.crc32 (h'.flash.sector r) = none) : Unchanged (some c) h h' := by
  cases hhandled with
  | wrong htried => exact absurd htried hwrong
  | reset hc hresp => exact absurd (hresp ⟨e, rfl⟩) hreset
  | kept hsame hf => exact .of_counter hsame hf
  | @stopped pair payload f hsame hpair hkey hf hg =>
    have hmem := Command.pairs_mem hpair
    have htarget : ((∃ req, c = .init req) → pair.nextTarget P.crc32 f.sector ≠ .keyA ∧
        pair.nextTarget P.crc32 f.sector ≠ .keyB) ∧
        pair.nextTarget P.crc32 f.sector ≠ .pinCounter := by
      have hsectors := recordPairs_besides hmem
      constructor
      · rintro ⟨req, hc⟩
        have hne : pair ≠ KEY := fun heq => hkey heq req hc
        obtain ⟨ha, hb⟩ := recordPairs_apart (p := KEY) (by simp [recordPairs]) hmem hne
        rcases pair.nextTarget_mem P.crc32 f.sector with heq | heq <;> rw [heq]
        · exact ha
        · exact hb
      · rcases pair.nextTarget_mem P.crc32 f.sector with heq | heq <;> rw [heq]
        · exact hsectors.1
        · exact hsectors.2
    refine .of_latest hsame fun q hq => ?_
    have hbefore : ∀ q ∈ recordPairs, q.latest P.crc32 f.sector = q.latest P.crc32 h.flash.sector := by
      intro q hq
      unfold AbPair.latest
      rw [hf.copies hq]
    by_cases hne : q = pair
    · rw [hne, ← hbefore _ hmem]
      refine hg.latest ?_ ?_
      · rw [hf.copies hmem]
        exact (hnum pair hmem).sound
      · rw [hf _ htarget.2]
        exact hgains _ htarget.1
    · rw [latest_beside hg.within hmem hq hne, hbefore q hq]
  | initStopped hsame hc hmode hcfg hw =>
    obtain rfl := hc
    exact hw.unchanged hsame hmode hcfg hnum hleft.2 hdetected fun r hr => hgains r fun _ => hr
  | took hresp hw => exact absurd ⟨e, rfl⟩ hresp

end Unchanged

/-- From a blank flash, over any requests, boots, power cuts and flash operations that
    fail: a request answered with an error, other than a wrong PIN or a factory reset
    that went past its gate, leaves the session and what the next boot finds. -/
theorem refusals_change_nothing {image : Flash} {newer older : List (Moment P)} {m : Moment P}
    {s : Sys P} {e : HsmError} (hrun : Run image (newer ++ m :: older) s)
    (himage : ∀ r, image.sector r = Sector.erased)
    (hdetected : ∀ m' ∈ m :: older, m'.SectorsDetected) (hnum : ∀ m' ∈ m :: older, m'.Numbered)
    (hresp : m.response = some (.hsm (.error e))) (hgains : m.GainsNoRecord)
    (hwrong : m.wrongPin = false) (hreset : HsmResponse.error e ≠ resetIncomplete) :
    ∃ h h', m.before = .on h ∧ m.after = .on h' ∧ Unchanged m.command h h' ∧
      ∀ p : PowerUp, Faultless p.faults → BootsAlike P p h.flash h'.flash := by
  suffices hall : ∃ h h', m.before = .on h ∧ m.after = .on h' ∧ Unchanged m.command h h' by
    obtain ⟨h, h', hbefore, hafter, hun⟩ := hall
    exact ⟨h, h', hbefore, hafter, hun, fun p hfaults => hun.boots hfaults⟩
  obtain ⟨hbefore, hstep⟩ := hrun.earlier
  have hapart := hbefore.numberedApart himage
    (fun m' hm' => hdetected m' (List.mem_cons_of_mem _ hm'))
    fun m' hm' => hnum m' (List.mem_cons_of_mem _ hm')
  have hdet := hdetected m List.mem_cons_self
  have hnumber := hnum m List.mem_cons_self
  obtain ⟨event, before, response, after⟩ := m
  obtain rfl : response = some (.hsm (.error e)) := hresp
  generalize hr : (some (Response.hsm (.error e)) : Option Response) = r at hstep
  change Stepped before event r after at hstep
  cases hstep with
  | @drew h h' bytes faults resp hc hrun hrng =>
    have hfacing : SessionKept h (h.facing faults) := .update h h.entropy _ h.drbg _ _
    have hcounter : CounterOnly (h.facing faults).flash h'.flash := .onlyRng hrng
    exact ⟨h, h', rfl, rfl, .of_counter (hfacing.trans (.onlyRng hrng)) fun r hr => hcounter r hr⟩
  | @served h h' bytes faults c resp hc hrun =>
    obtain rfl : HsmResponse.error e = resp := Response.hsm.inj (Option.some.inj hr)
    have hcommand : (⟨.line bytes faults, .on h, some (.hsm (.error e)), .on h'⟩ :
        Moment P).command = some c := hc
    have hleft : (h.facing faults).Numbered c := hnumber h bytes faults c rfl rfl hc
    have hfacing : SessionKept h (h.facing faults) := .update h h.entropy _ h.drbg _ _
    have htried : ¬ TriedWrong (h.facing faults).flash h'.flash := by
      intro htried
      rw [← Bool.not_eq_true] at hwrong
      exact hwrong (decide_eq_true htried)
    refine ⟨h, h', rfl, rfl, ?_⟩
    rw [hcommand]
    have hunchanged := ((handled_run c (h.facing faults)).of_ok hrun).unchanged hapart hleft
      hdet.record htried hreset fun r hinit => hgains r fun hreq =>
        hinit (hreq.imp fun req heq => Option.some.inj (hcommand.symm.trans heq))
    exact ⟨hfacing.trans hunchanged.session, hunchanged.config, hunchanged.floor, hunchanged.key⟩
  | booted => cases hr
  | bootCut => cases hr
  | unpowered => cases hr
  | cut => cases hr
  | relocked => cases hr
  | advanced => cases hr
  | quiet => cases hr

def Command.isReset : Command → Bool
  | .factoryReset _ => true
  | _ => false

/-- A moment without a wrong PIN or a factory reset, with numbers left, whose last record
    was written or lost. -/
def Moment.calm (m : Moment P) : Bool :=
  decide (RecordsDetected P m.after.flash) && !m.wrongPin && m.command.all (fun c => !c.isReset) &&
    m.before.session.all Hsm.numbersLeft

theorem Moment.of_calm {m : Moment P} (hm : m.calm = true) :
    m.wrongPin = false ∧ m.SectorsDetected ∧ m.Numbered := by
  unfold Moment.calm at hm
  simp only [Bool.and_eq_true, Bool.not_eq_true', decide_eq_true_eq] at hm
  obtain ⟨⟨⟨hrecord, hwrong⟩, hcommand⟩, hleft⟩ := hm
  refine ⟨hwrong, ⟨hrecord, ?_⟩, ?_⟩
  · rintro (htried | ⟨req, hreset⟩)
    · rw [hwrong] at htried
      cases htried
    · simp [hreset, Command.isReset] at hcommand
  · intro h bytes faults c hbefore _ _
    rw [hbefore] at hleft
    exact Hsm.numbered_of_numbersLeft (by simpa [Sys.session] using hleft) c

/-- The sectors of the flash, in the order of its layout. -/
def Bench.regions : List Region :=
  [.timeA, .timeB, .configA, .configB, .keyA, .keyB, .pinCounter]

theorem Bench.mem_regions (r : Region) : r ∈ Bench.regions := by
  cases r <;> simp [Bench.regions]

/-- A host that also sets the time. -/
abbrev Bench.timing : Prims := Bench.sealing [Bench.setTime 1700000000]

def Response.isFlashError : Response → Bool
  | .hsm (.error e) => e.code == .flash && HsmResponse.error e != resetIncomplete
  | _ => false

theorem Response.of_isFlashError {resp : Response} (h : resp.isFlashError = true) :
    ∃ e, resp = .hsm (.error e) ∧ e.code = .flash ∧ HsmResponse.error e ≠ resetIncomplete := by
  unfold Response.isFlashError at h
  split at h
  · rename_i e
    simp only [Bool.and_eq_true, beq_iff_eq, bne_iff_ne] at h
    exact ⟨e, rfl, h⟩
  · cases h

/-- No sector holds a record that it did not hold before. -/
def gainsNone (P : Prims) (f g : Flash) : Bool :=
  Bench.regions.all fun r =>
    decide (parseRecord P.crc32 (g.sector r) = parseRecord P.crc32 (f.sector r) ∨
      parseRecord P.crc32 (g.sector r) = none)

/-- On the bench: in an open session, the sector of the first time floor cannot be erased. -/
theorem refusals_change_nothing_bench :
    ∃ (m : Moment Bench.timing) (e : HsmError) (h h' : Hsm Bench.timing),
      m.event = .line [0x7B, 3] [.none, .none, .fail Sector.erased] ∧
      m.response = some (.hsm (.error e)) ∧ e.code = .flash ∧ h.state = .prodReady ∧
      m.before = .on h ∧ m.after = .on h' ∧ Unchanged m.command h h' := by
  have hends : replayEnds (P := Bench.timing) (fun h resp h' => resp.isFlashError &&
      h.state == .prodReady && gainsNone Bench.timing h.flash h'.flash) (Bench.image [])
      [.line [0x7B, 3] [.none, .none, .fail Sector.erased], Bench.send 1, Bench.send 0,
        .boot Bench.power] = true := by
    decide +kernel
  have hcalm : (replay (P := Bench.timing) (Bench.image [])
      [.line [0x7B, 3] [.none, .none, .fail Sector.erased], Bench.send 1, Bench.send 0,
        .boot Bench.power]).1.all Moment.calm = true := by
    decide +kernel
  obtain ⟨m, h, h', resp, hevent, hbefore, hresp, hafter, htest, hhist, hrun⟩ :=
    exists_of_replayEnds hends
  rw [hhist, List.all_eq_true] at hcalm
  simp only [Bool.and_eq_true, beq_iff_eq] at htest
  obtain ⟨⟨herror, hstate⟩, hgains⟩ := htest
  obtain ⟨e, rfl, hflash, hreset⟩ := Response.of_isFlashError herror
  have hnone : m.GainsNoRecord := by
    intro r _
    rw [hbefore, hafter]
    exact of_decide_eq_true (List.all_eq_true.mp hgains r (Bench.mem_regions r))
  have hwhole : Run (Bench.image []) ([] ++ m :: _) (.on h') := hrun
  obtain ⟨h₁, h₁', hbefore', hafter', hunchanged, -⟩ :=
    refusals_change_nothing hwhole (fun _ => rfl)
      (fun m' hm' => (Moment.of_calm (hcalm m' hm')).2.1)
      (fun m' hm' => (Moment.of_calm (hcalm m' hm')).2.2) hresp hnone
      (Moment.of_calm (hcalm m List.mem_cons_self)).1 hreset
  obtain rfl : h₁ = h := Sys.on.inj (hbefore'.symm.trans hbefore)
  exact ⟨m, e, h₁, h₁', hevent, hresp, hflash, hstate, hbefore', hafter', hunchanged⟩

end PicoSignet
