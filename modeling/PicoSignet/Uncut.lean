/-
  PicoSignet/Uncut.lean
  =====================
  **Only a power cut stops a handler** — flash code either returns, reports a HAL
  error to its caller, or stops at a cut that was pending.  All handlers are built
  from a few parts, so a property of the parts that sequencing keeps is one of every
  handler (`HandlerRule`); this one makes a command of a well-formed session answer
  whenever no cut lies ahead.
-/
import PicoSignet.Consistency

set_option autoImplicit false

namespace PicoSignet

open Crash

variable {P : Prims}

/-! ### Flash code -/

/-- The program loses power only at a cut that was pending, and skips no fault. -/
def FlashUncut {α : Type} (m : FlashM α) : Prop :=
  ∀ f, Wp m (fun _ g => g.faults <:+ f.faults)
    (fun e g => g.faults <:+ f.faults ∧ (e = .powerLoss → HasCut f.faults)) f

section Flash

variable {α β : Type}

theorem FlashUncut.pure (a : α) : FlashUncut (Pure.pure a) := fun _ => List.suffix_rfl

theorem FlashUncut.throw (e : HalError) : FlashUncut (MonadExcept.throw (Stop.hal e) : FlashM α) :=
  fun _ => ⟨List.suffix_rfl, nofun⟩

theorem FlashUncut.bind {m : FlashM α} {k : α → FlashM β} (hm : FlashUncut m)
    (hk : ∀ a, FlashUncut (k a)) : FlashUncut (m >>= k) := by
  intro f
  rw [Wp_bind]
  refine Wp.mono (hm f) ?_ fun _ _ he => he
  intro a g hg
  refine Wp.mono (hk a g) (fun _ g' hg' => hg'.trans hg) ?_
  rintro e g' ⟨hg', he⟩
  exact ⟨hg'.trans hg, fun hpower => (he hpower).of_suffix hg⟩

theorem FlashUncut.get : FlashUncut (MonadState.get : FlashM Flash) := fun _ => List.suffix_rfl

theorem FlashUncut.update {u : Flash → Flash} (hu : ∀ f, (u f).faults = f.faults) :
    FlashUncut (modify u : FlashM PUnit) := by
  intro f
  rw [Wp_modify, hu]

theorem FlashUncut.note (e : Entry) : FlashUncut (PicoSignet.note e) := .update fun _ => rfl

/-- An operation that asks for the fault ahead and stops at a cut. -/
theorem FlashUncut.nextFault_bind {k : Fault → FlashM β} (hnone : FlashUncut (k .none))
    (hfail : ∀ left, FlashUncut (k (.fail left)))
    (hcut : ∀ left f, Wp (k (.cut left)) (fun _ _ => False) (fun _ g => g.faults = f.faults) f) :
    FlashUncut (nextFault >>= k) := by
  intro f
  rw [Wp_bind]
  unfold nextFault
  rw [Wp_bind, Wp_get]
  split
  · exact hnone f
  · rename_i fault rest hfaults
    rw [hfaults]
    have hsuffix : rest <:+ fault :: rest := List.suffix_cons fault rest
    have hgo : FlashUncut (k fault) →
        Wp (k fault) (fun _ g => g.faults <:+ fault :: rest)
          (fun e g => g.faults <:+ fault :: rest ∧ (e = .powerLoss → HasCut (fault :: rest)))
          { f with faults := rest } := by
      intro hk
      refine Wp.mono (hk _) (fun _ g hg => hg.trans hsuffix) ?_
      rintro e g ⟨hg, he⟩
      exact ⟨hg.trans hsuffix, fun hpower => (he hpower).of_suffix hsuffix⟩
    change Wp (k fault) _ _ { f with faults := rest }
    cases fault with
    | none => exact hgo hnone
    | fail left => exact hgo (hfail left)
    | cut left =>
      refine Wp.mono (hcut left _) (fun _ _ hf => hf.elim) ?_
      intro e g hg
      rw [hg]
      exact ⟨hsuffix, fun _ => ⟨left, List.mem_cons_self⟩⟩

theorem FlashUncut.read (r : Region) : FlashUncut (PicoSignet.read r) := by
  refine .nextFault_bind (.bind .get fun f => .pure _) (fun left => .bind (.note _) fun _ => .throw _) ?_
  exact fun left f => rfl

theorem FlashUncut.erase (r : Region) : FlashUncut (PicoSignet.erase r) := by
  refine .bind (.note _) fun _ => .nextFault_bind (.update fun _ => rfl) (fun left => ?_) ?_
  · exact .bind (.update fun _ => rfl) fun _ => .throw _
  · exact fun left f => rfl

theorem FlashUncut.ite {c : Prop} [Decidable c] {m m' : FlashM α} (hm : FlashUncut m)
    (hm' : FlashUncut m') : FlashUncut (if c then m else m') := by
  split
  · exact hm
  · exact hm'

theorem FlashUncut.program (r : Region) (off : Nat) (page : Octets) :
    FlashUncut (PicoSignet.program r off page) := by
  refine .ite (.throw _) (.bind (.note _) fun _ => ?_)
  refine .nextFault_bind (.update fun _ => rfl) (fun left => ?_) ?_
  · exact .bind (.update fun _ => rfl) fun _ => .throw _
  · exact fun left f => rfl

theorem FlashUncut.programPages (r : Region) (image : Sector) (count p : Nat) :
    FlashUncut (PicoSignet.programPages r image count p) := by
  induction count generalizing p with
  | zero => exact .pure _
  | succ count ih => exact .bind (.program r _ _) fun _ => ih (p + 1)

variable (crc : Octets → UInt32)

theorem FlashUncut.writeRecord (r : Region) (seq : UInt32) (payload : Octets) :
    FlashUncut (PicoSignet.writeRecord crc r seq payload) := by
  refine .ite (.throw _) (.bind .get fun f => .bind (.note _) fun _ => ?_)
  exact .bind (.erase r) fun _ => .programPages r _ _ _

theorem FlashUncut.readRecord (r : Region) : FlashUncut (PicoSignet.readRecord crc r) :=
  .bind (.read r) fun _ => .pure _

theorem FlashUncut.readLatest (pair : AbPair) : FlashUncut (pair.readLatest crc) :=
  .bind (.readRecord crc _) fun _ => .bind (.readRecord crc _) fun _ => .pure _

theorem FlashUncut.readLatestFailClosed (pair : AbPair) :
    FlashUncut (pair.readLatestFailClosed crc) := by
  have hstate : ∀ r, FlashUncut (readRecordState crc r) := fun r => .bind (.read r) fun _ => .pure _
  refine .bind (hstate _) fun ra => .bind (hstate _) fun rb => ?_
  cases latestFailClosed ra rb with
  | none => exact .throw _
  | some payload => exact .pure _

theorem FlashUncut.write (pair : AbPair) (payload : Octets) : FlashUncut (pair.write crc payload) :=
  .bind (.readRecord crc _) fun _ => .bind (.readRecord crc _) fun _ => .writeRecord crc _ _ _

theorem FlashUncut.eraseBoth (pair : AbPair) : FlashUncut pair.eraseBoth :=
  .bind (.erase _) fun _ => .erase _

theorem FlashUncut.pinCount : FlashUncut Pin.count := .bind (.read _) fun _ => .pure _

theorem FlashUncut.pinTick : FlashUncut Pin.tick := by
  refine .bind .pinCount fun n => .ite (.pure _) ?_
  exact .bind (.program _ _ _) fun _ => .pure _

end Flash

/-! ### Every handler is built from the same parts -/

/-- What plain assignments of a handler leave alone: operations change it. -/
def Hsm.parts (h : Hsm P) : Flash × Drbg P × Entropy := (h.flash, h.drbg, h.entropy)

/-- A property that the parts of the handlers have and sequencing keeps. -/
structure HandlerRule (K : ∀ α : Type, Dev P α → Prop) : Prop where
  pure : ∀ {α : Type} (a : α), K α (Pure.pure a)
  panic : ∀ {α : Type}, K α (throw .panic)
  bind : ∀ {α β : Type} {m : Dev P α} {k : α → Dev P β}, K α m → (∀ a, K β (k a)) → K β (m >>= k)
  get : K (Hsm P) MonadState.get
  onFlash : ∀ {α : Type} {m : FlashM α}, FlashUncut m → K _ (PicoSignet.onFlash m)
  update : ∀ {u : Hsm P → Hsm P}, (∀ h, (u h).parts = h.parts) → K _ (modify u)
  seeds : K _ ensureSeeded
  prepares : K _ prepareKeygenEntropy
  array : ∀ n, K _ (randomArray n)
  word : K _ nextU64
  key : K _ generateCaKey
  mix : ∀ host, K _ (modify fun h => { h with drbg := h.drbg.mixHost host })

section Rule

variable {K : ∀ α : Type, Dev P α → Prop}

theorem rule_rotationSalt (hK : HandlerRule K) {wrapType : WrapType} {wrapSalt : Option (Bytes 16)}
    {draw : Dev P (Bytes 16)} (h : rotationSalt wrapType wrapSalt = some draw) : K _ draw := by
  unfold rotationSalt at h
  split at h
  · obtain rfl := Option.some.inj h
    exact hK.array 16
  · obtain rfl := Option.some.inj h
    exact hK.pure _
  · cases h

theorem rule_eraseKeyVerified (hK : HandlerRule K) (tries : Nat) :
    K _ (eraseKeyVerified tries : Dev P Bool) := by
  induction tries with
  | zero => exact hK.pure _
  | succ tries ih =>
    refine hK.bind (hK.onFlash (.note _)) fun _ => hK.bind (hK.onFlash (.eraseBoth _)) fun _ => ?_
    refine hK.bind (hK.onFlash (.readLatest _ _)) fun r => ?_
    split
    · exact hK.pure _
    · exact ih

theorem rule_resetPinCounter (hK : HandlerRule K) (tries : Nat) :
    K _ (resetPinCounterBestEffort tries : Dev P Unit) := by
  induction tries with
  | zero => exact hK.pure _
  | succ tries ih =>
    refine hK.bind (hK.onFlash (.erase _)) fun r => ?_
    split
    · exact hK.update fun _ => rfl
    · exact ih

theorem rule_wrongPin (hK : HandlerRule K) (cfg : DeviceConfig) (attempts : Nat) :
    K _ (wrongPin cfg attempts : Dev P (Except HsmResponse UnlockedSeed)) := by
  refine hK.bind (hK.update fun _ => rfl) fun _ => ?_
  split
  · refine hK.bind (hK.update fun _ => rfl) fun _ => ?_
    split
    · refine hK.bind (rule_eraseKeyVerified hK 2) fun gone => ?_
      split
      · exact hK.bind (hK.update fun _ => rfl) fun _ => hK.pure _
      · exact hK.pure _
    · exact hK.pure _
  · exact hK.pure _

theorem rule_verifyPin (hK : HandlerRule K) (pin : Str) :
    K _ (verifyPin pin : Dev P (Except HsmResponse UnlockedSeed)) := by
  refine hK.bind hK.get fun h => ?_
  split
  · exact hK.panic
  refine hK.bind (hK.onFlash .pinCount) fun r => ?_
  split
  · exact hK.pure _
  split
  · exact hK.pure _
  refine hK.bind (hK.onFlash .pinTick) fun r => ?_
  split
  · exact hK.pure _
  refine hK.bind (hK.onFlash (.readLatest _ _)) fun r => ?_
  split
  · exact hK.pure _
  · exact hK.pure _
  split
  · exact hK.pure _
  split
  · exact hK.pure _
  split
  · exact hK.pure _
  split
  · refine hK.bind (hK.onFlash (.note _)) fun _ => ?_
    exact hK.bind (rule_resetPinCounter hK 2) fun _ => hK.pure _
  · exact hK.bind (hK.onFlash (.note _)) fun _ => rule_wrongPin hK _ _

theorem rule_destructiveGate (hK : HandlerRule K) (pin : Option Str) (noPin : String) :
    K _ (destructiveGate pin noPin : Dev P (Option HsmResponse)) := by
  have hgate : K _ (pinGate pin noPin : Dev P (Option HsmResponse)) := by
    unfold pinGate
    split
    · refine hK.bind (rule_verifyPin hK _) fun r => ?_
      split <;> exact hK.pure _
    · exact hK.pure _
  refine hK.bind hK.get fun h => ?_
  split
  · split
    · exact hK.pure _
    · exact hgate
  · split
    · exact hK.pure _
    · exact hgate
  · split <;> exact hK.pure _
  · exact hK.pure _
  · exact hK.pure _

theorem rule_loadFromFlash (hK : HandlerRule K) :
    K _ (loadFromFlash : Dev P Unit) := by
  refine hK.bind (hK.onFlash (.readLatest _ _)) fun _ => ?_
  refine hK.bind (hK.onFlash (.readLatest _ _)) fun _ => ?_
  refine hK.bind (hK.onFlash (.readLatestFailClosed _ _)) fun _ => ?_
  refine hK.bind (hK.update fun _ => rfl) fun _ => ?_
  split
  · exact hK.update fun _ => rfl
  · split
    · refine hK.update fun h => ?_
      unfold Hsm.loadDev
      dsimp only
      split <;> rfl
    · refine hK.bind (hK.onFlash .pinCount) fun _ => hK.update fun h => ?_
      unfold Hsm.loadProd Hsm.enterLockedOut Hsm.dropLiveSecrets
      dsimp only
      split <;> rfl

theorem rule_init (hK : HandlerRule K) (req : InitReq) :
    K _ (hsmInit req : Dev P HsmResponse) := by
  have hdev : K _ (initDev : Dev P HsmResponse) := by
    refine hK.bind hK.get fun h => ?_
    split
    · exact hK.pure _
    refine hK.bind (hK.onFlash (.write _ _ _)) fun r => ?_
    split
    · exact hK.pure _
    · exact hK.bind (hK.update fun _ => rfl) fun _ => hK.pure _
  have hprod : K _ (initProd req : Dev P HsmResponse) := by
    unfold initProd
    split
    · exact hK.pure _
    split
    · exact hK.pure _
    refine hK.bind hK.prepares fun r => ?_
    split
    · exact hK.pure _
    refine hK.bind (hK.array 16) fun salt => ?_
    dsimp only
    split
    · exact hK.pure _
    refine hK.bind hK.get fun h => ?_
    split
    · exact hK.pure _
    refine hK.bind hK.key fun key => ?_
    split
    · exact hK.pure _
    refine hK.bind (hK.array 12) fun nonce => ?_
    refine hK.bind (hK.onFlash (.write _ _ _)) fun r => ?_
    split
    · exact hK.pure _
    refine hK.bind (hK.onFlash (.write _ _ _)) fun r => ?_
    split
    · exact hK.pure _
    refine hK.bind (rule_resetPinCounter hK 2) fun _ => ?_
    exact hK.bind (hK.update fun _ => rfl) fun _ => hK.pure _
  refine hK.bind hK.get fun h => ?_
  split
  · exact hK.pure _
  split
  · exact hdev
  split
  · exact hprod
  · exact hK.pure _

theorem rule_generateKey (hK : HandlerRule K) (req : GenerateKeyReq) :
    K _ (hsmGenerateKey req : Dev P HsmResponse) := by
  have hready : ∀ h : Hsm P, K _ (generateKeyReady h) := by
    intro h
    unfold generateKeyReady
    split
    · exact hK.pure _
    split
    · exact hK.pure _
    refine hK.bind hK.prepares fun r => ?_
    split
    · exact hK.pure _
    split
    · exact hK.pure _
    rename_i draw hdraw
    refine hK.bind hK.key fun key => ?_
    refine hK.bind (hK.array 12) fun nonce => ?_
    refine hK.bind (rule_rotationSalt hK hdraw) fun salt => ?_
    refine hK.bind (hK.onFlash (.write _ _ _)) fun r => ?_
    split
    · exact hK.pure _
    · exact hK.bind (hK.update fun _ => rfl) fun _ => hK.pure _
  refine hK.bind hK.get fun h => ?_
  split
  · exact hK.pure _
  · exact hK.pure _
  · exact hK.pure _
  · split
    · exact hK.pure _
    · exact hready h
  · split
    · exact hK.pure _
    · exact hready h

theorem rule_rewrapSeed (hK : HandlerRule K) (newPin : Str) (wasReady : Bool) (seed : Bytes 32) :
    K _ (rewrapSeed newPin wasReady seed : Dev P HsmResponse) := by
  refine hK.bind hK.prepares fun r => ?_
  split
  · exact hK.pure _
  refine hK.bind (hK.array 16) fun salt => hK.bind hK.get fun h => ?_
  split
  · exact hK.panic
  split
  · exact hK.pure _
  split
  · exact hK.pure _
  split
  · exact hK.pure _
  refine hK.bind (hK.array 12) fun nonce => ?_
  refine hK.bind (hK.onFlash (.write _ _ _)) fun r => ?_
  split
  · exact hK.pure _
  refine hK.bind (rule_resetPinCounter hK 2) fun _ => ?_
  split <;> exact hK.bind (hK.update fun _ => rfl) fun _ => hK.pure _

theorem rule_setTime (hK : HandlerRule K) (req : SetTimeReq) :
    K _ (hsmSetTime req : Dev P HsmResponse) := by
  refine hK.bind hK.get fun h => ?_
  split
  · exact hK.pure _
  split
  · exact hK.pure _
  split
  · exact hK.pure _
  dsimp only
  split
  · split
    · exact hK.panic
    refine hK.bind (hK.onFlash (.write _ _ _)) fun r => ?_
    split
    · exact hK.pure _
    · exact hK.bind (hK.update fun _ => rfl) fun _ => hK.bind hK.get fun _ => hK.pure _
  · exact hK.bind (hK.update fun _ => rfl) fun _ => hK.bind hK.get fun _ => hK.pure _

theorem rule_factoryReset (hK : HandlerRule K) (req : FactoryResetReq) :
    K _ (hsmFactoryReset req : Dev P HsmResponse) := by
  have herase : K _ (eraseEverything : Dev P Bool) := by
    refine hK.bind (rule_eraseKeyVerified hK 2) fun _ => ?_
    refine hK.bind (hK.onFlash (.eraseBoth _)) fun _ => ?_
    refine hK.bind (hK.onFlash (.eraseBoth _)) fun _ => hK.bind (hK.onFlash (.erase _)) fun _ => ?_
    refine hK.bind (hK.onFlash (.readLatest _ _)) fun _ => ?_
    refine hK.bind (hK.onFlash (.readLatest _ _)) fun _ => ?_
    exact hK.pure _
  unfold hsmFactoryReset
  split
  · exact hK.pure _
  refine hK.bind (rule_destructiveGate hK _ _) fun r => ?_
  split
  · exact hK.pure _
  refine hK.bind (hK.update fun _ => rfl) fun _ => hK.bind herase fun gone => ?_
  split
  · exact hK.bind (hK.update fun _ => rfl) fun _ => hK.pure _
  · exact hK.bind (rule_loadFromFlash hK) fun _ => hK.pure _

/-- The rule reaches every command. -/
theorem rule_run (hK : HandlerRule K) (c : Command) :
    K _ (c.run : Dev P HsmResponse) := by
  cases c with
  | init req => exact rule_init hK req
  | generateKey req => exact rule_generateKey hK req
  | getPublicKey =>
    refine hK.bind hK.get fun h => ?_
    split <;> exact hK.pure _
  | unlock req =>
    refine hK.bind hK.get fun h => ?_
    split
    · exact hK.pure _
    · refine hK.bind (rule_verifyPin hK _) fun r => ?_
      split
      · exact hK.bind (hK.update fun _ => rfl) fun _ => hK.pure _
      · exact hK.pure _
    · exact hK.pure _
    · exact hK.pure _
    · exact hK.pure _
  | lock =>
    refine hK.bind hK.get fun h => ?_
    split
    · exact hK.bind (hK.update fun _ => rfl) fun _ => hK.pure _
    · exact hK.bind (hK.update fun _ => rfl) fun _ => hK.pure _
    · exact hK.bind (hK.update fun _ => rfl) fun _ => hK.pure _
    · exact hK.pure _
    · exact hK.pure _
  | setTime req => exact rule_setTime hK req
  | status =>
    refine hK.bind hK.get fun h => hK.bind ?_ fun _ => hK.pure _
    unfold retryRemaining
    split
    · exact hK.pure _
    · split
      · exact hK.bind (hK.onFlash .pinCount) fun _ => hK.pure _
      · exact hK.pure _
  | changePin req =>
    refine hK.bind hK.get fun h => ?_
    split
    · exact hK.pure _
    · exact hK.pure _
    · exact hK.pure _
    all_goals
      split
      · exact hK.pure _
      · refine hK.bind (rule_verifyPin hK _) fun r => ?_
        split
        · exact hK.pure _
        · exact rule_rewrapSeed hK _ _ _
  | addEntropy req =>
    change K _ (hsmAddEntropy req)
    unfold hsmAddEntropy
    split
    · split
      · exact hK.bind (hK.mix _) fun _ => hK.pure _
      · exact hK.pure _
    · exact hK.pure _
  | selfTest =>
    refine hK.bind hK.get fun h => hK.bind (hK.onFlash (.readLatest _ _)) fun r => ?_
    exact hK.pure _
  | factoryReset req => exact rule_factoryReset hK req
  | rebootBootloader req =>
    refine hK.bind (rule_destructiveGate hK _ _) fun r => ?_
    split
    · exact hK.pure _
    · exact hK.bind (hK.update fun _ => rfl) fun _ => hK.pure _

/-- The rule reaches every signer request. -/
theorem rule_sign (hK : HandlerRule K) (req : EnclaveSigningRequest) :
    K _ (handleSign req : Dev P Response) := by
  refine hK.bind hK.get fun h => ?_
  split
  · exact hK.pure _
  split
  · exact hK.pure _
  split
  · exact hK.pure _
  refine hK.bind hK.seeds fun r => ?_
  split
  · exact hK.pure _
  refine hK.bind (hK.array 32) fun nonce => hK.bind hK.word fun serial => ?_
  refine hK.bind hK.get fun h' => ?_
  split
  · exact hK.panic
  · exact hK.pure _

theorem rule_handle (hK : HandlerRule K) (line : Octets) : K _ (handle line : Dev P Response) := by
  unfold handle
  split
  · exact hK.pure _
  unfold handleRequest
  split
  · exact hK.pure _
  split
  · refine hK.bind hK.get fun h => ?_
    split <;> exact hK.pure _
  split
  · exact rule_sign hK _
  split
  · exact hK.bind hK.get fun h => hK.pure _
  split
  · exact hK.bind hK.get fun h => hK.pure _
  split
  · rename_i q _
    refine hK.bind ?_ fun _ => hK.pure _
    rw [handleHsm_eq]
    split
    · exact rule_run hK _
    · exact hK.pure _
  · exact hK.pure _

end Rule

/-! ### Handlers lose power only at a cut -/

/-- The handler loses power only at a cut that was pending, and skips no fault. -/
def Uncut {α : Type} (m : Dev P α) : Prop :=
  ∀ h, Wp m (fun _ h' => h'.flash.faults <:+ h.flash.faults)
    (fun e _ => e = .powerLoss → HasCut h.flash.faults) h

section Handlers

variable {α β : Type}

theorem Uncut.pure (a : α) : Uncut (Pure.pure a : Dev P α) := fun _ => List.suffix_rfl

theorem Uncut.panic : Uncut (throw .panic : Dev P α) := fun _ => nofun

theorem Uncut.bind {m : Dev P α} {k : α → Dev P β} (hm : Uncut m) (hk : ∀ a, Uncut (k a)) :
    Uncut (m >>= k) := by
  intro h
  rw [Wp_bind]
  refine Wp.mono (hm h) ?_ fun _ _ he => he
  intro a h₁ hh₁
  refine Wp.mono (hk a h₁) (fun _ h₂ hh₂ => hh₂.trans hh₁) ?_
  exact fun e _ he hpower => (he hpower).of_suffix hh₁

theorem Uncut.get : Uncut (MonadState.get : Dev P (Hsm P)) := fun _ => List.suffix_rfl

theorem Uncut.update {u : Hsm P → Hsm P} (hu : ∀ h, (u h).flash = h.flash) :
    Uncut (modify u : Dev P PUnit) := by
  intro h
  rw [Wp_modify, hu]

theorem Uncut.onFlash {m : FlashM α} (hm : FlashUncut m) :
    Uncut (PicoSignet.onFlash m : Dev P (Except HalError α)) := by
  intro h
  rw [Wp_onFlash]
  refine Wp.mono (hm h.flash) (fun _ _ hg => hg) ?_
  rintro e g ⟨hg, he⟩
  cases e with
  | hal e => exact hg
  | powerLoss => exact fun _ => he rfl

theorem Draws.uncut {m : Dev P α} (hm : Draws m) : Uncut m := by
  intro h
  refine Wp.mono (hm h) ?_ fun _ _ he => he.elim
  intro a h' hrng
  rw [hrng]

theorem Uncut.rule : HandlerRule fun α (m : Dev P α) => Uncut m where
  pure := .pure
  panic := .panic
  bind := .bind
  get := .get
  onFlash := .onFlash
  update hu := .update fun h => congrArg Prod.fst (hu h)
  seeds := draws_ensureSeeded.uncut
  prepares := draws_prepareKeygenEntropy.uncut
  array n := (draws_randomArray n).uncut
  word := draws_nextU64.uncut
  key := draws_generateCaKey.uncut
  mix _ := .update fun _ => rfl

/-- Without faults ahead a well-formed session answers every command. -/
theorem Hsm.Shaped.answers {h : Hsm P} (hshape : h.Shaped) (c : Command) {faults : List Fault}
    (hfaults : Faultless faults) :
    ∃ resp h', c.run (h.facing faults) = .ok resp h' ∧ Faultless h'.flash.faults := by
  have hfacing : (h.facing faults).Shaped := hshape
  have huncut := rule_run Uncut.rule c (h.facing faults)
  cases hrun : c.run (h.facing faults) with
  | ok resp h' =>
    exact ⟨resp, h', rfl, hfaults.of_suffix (huncut.of_ok hrun)⟩
  | error e h' =>
    have hpower := (shaped_run c hfacing).of_error hrun
    exact absurd (huncut.of_error hrun hpower) hfaults.not_hasCut

end Handlers

end PicoSignet
