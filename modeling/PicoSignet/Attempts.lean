/-
  PicoSignet/Attempts.lean
  ========================
  **A PIN attempt over working flash** — where no flash operation fails, a handler
  is a function of the session: `Works` and `Serves` say what it returns and what
  it leaves, whatever list of successful operations lies ahead.

  `Attempt` lists the four ends of `verify_pin` with the answer each one gives, the
  deadline it leaves and the sectors it writes: turned away by the deadline, counted
  and ended before the PIN is judged, accepted, and rejected.
-/
import PicoSignet.ResetRetry
import PicoSignet.Uncut

set_option autoImplicit false

namespace PicoSignet

open Crash

variable {P : Prims}

/-! ### Flash programs where every operation succeeds -/

/-- The program returns `a` and leaves `g`, whatever faultless operations are ahead. -/
def Works {α : Type} (m : FlashM α) (f : Flash) (a : α) (g : Flash) : Prop :=
  ∀ faults, Faultless faults →
    ∃ faults', m (f.under faults) = .ok a (g.under faults') ∧ Faultless faults'

section Works

variable {α β : Type} {f g g' : Flash}

theorem Works.pure (a : α) (f : Flash) : Works (Pure.pure a) f a f :=
  fun faults hfaults => ⟨faults, rfl, hfaults⟩

theorem Works.bind {m : FlashM α} {k : α → FlashM β} {a : α} {b : β} (hm : Works m f a g)
    (hk : Works (k a) g b g') : Works (m >>= k) f b g' := by
  intro faults hfaults
  obtain ⟨faults₁, hrun₁, hfaults₁⟩ := hm faults hfaults
  obtain ⟨faults₂, hrun₂, hfaults₂⟩ := hk faults₁ hfaults₁
  refine ⟨faults₂, ?_, hfaults₂⟩
  simp only [Bind.bind, EStateM.bind, hrun₁, hrun₂]

theorem works_note (e : Entry) (f : Flash) : Works (note e) f () (f.log e) :=
  fun faults hfaults => ⟨faults, rfl, hfaults⟩

theorem works_nextFault (f : Flash) : Works nextFault f .none f := by
  intro faults hfaults
  cases faults with
  | nil => exact ⟨[], rfl, hfaults⟩
  | cons fault rest =>
    obtain rfl : fault = .none := hfaults fault List.mem_cons_self
    exact ⟨rest, rfl, fun fault hfault => hfaults fault (List.mem_cons_of_mem _ hfault)⟩

theorem works_read (r : Region) (f : Flash) : Works (read r) f (f.sector r) f := by
  refine (works_nextFault f).bind ?_
  exact fun faults hfaults => ⟨faults, rfl, hfaults⟩

/-- The flash after an erase. -/
def Flash.erase (f : Flash) (r : Region) : Flash := (f.log (.erase r)).put r Sector.erased

theorem works_erase (r : Region) (f : Flash) : Works (PicoSignet.erase r) f () (f.erase r) := by
  refine (works_note _ f).bind ((works_nextFault _).bind ?_)
  exact fun faults hfaults => ⟨faults, rfl, hfaults⟩

theorem works_program {r : Region} {off : Nat} {page : Octets} (f : Flash)
    (hfits : off + page.length ≤ SECTOR_LEN) :
    Works (program r off page) f ()
      ((f.log (.program r)).put r ((f.sector r).program off page)) := by
  unfold program
  rw [if_neg (Nat.not_lt.mpr hfits)]
  refine (works_note _ f).bind ((works_nextFault _).bind ?_)
  exact fun faults hfaults => ⟨faults, rfl, hfaults⟩

theorem works_readLatest (crc : Octets → UInt32) (pair : AbPair) (f : Flash) :
    Works (pair.readLatest crc) f (pair.latest crc f.sector) f := by
  have hread : ∀ r, Works (readRecord crc r) f (parseRecord crc (f.sector r)) f :=
    fun r => (works_read r f).bind (Works.pure _ f)
  refine (hread pair.a).bind ((hread pair.b).bind ?_)
  have hlatest : pair.latest crc f.sector =
      latestOf (parseRecord crc (f.sector pair.a)) (parseRecord crc (f.sector pair.b)) :=
    (latestOf_eq_newest _ _).symm
  rw [hlatest]
  exact Works.pure _ f

theorem works_eraseBoth (pair : AbPair) (f : Flash) :
    Works pair.eraseBoth f () ((f.erase pair.a).erase pair.b) :=
  (works_erase pair.a f).bind (works_erase pair.b _)

theorem works_pinCount (f : Flash) : Works Pin.count f (Pin.used (f.sector .pinCounter)) f :=
  (works_read .pinCounter f).bind (Works.pure _ f)

/-- The counter after one more attempt; a full sector counts no further. -/
def Pin.next (n : Nat) : Nat := if n ≥ SECTOR_LEN then n else n + 1

/-- The flash after an attempt was counted. -/
def Flash.ticked (f : Flash) : Flash :=
  if Pin.used (f.sector .pinCounter) ≥ SECTOR_LEN then f
  else (f.log (.program .pinCounter)).put .pinCounter
    ((f.sector .pinCounter).program (Pin.used (f.sector .pinCounter) / PAGE_LEN * PAGE_LEN)
      (Pin.tickPage (Pin.used (f.sector .pinCounter) % PAGE_LEN)))

theorem works_tick (f : Flash) :
    Works Pin.tick f (Pin.next (Pin.used (f.sector .pinCounter))) f.ticked := by
  refine (works_pinCount f).bind ?_
  unfold Flash.ticked Pin.next
  by_cases hfull : Pin.used (f.sector .pinCounter) ≥ SECTOR_LEN
  · rw [if_pos hfull, if_pos hfull, if_pos hfull]
    exact Works.pure _ f
  · rw [if_neg hfull, if_neg hfull, if_neg hfull]
    have hfits : Pin.used (f.sector .pinCounter) / PAGE_LEN * PAGE_LEN +
        (Pin.tickPage (Pin.used (f.sector .pinCounter) % PAGE_LEN)).length ≤ SECTOR_LEN := by
      rw [Pin.length_tickPage]
      unfold PAGE_LEN SECTOR_LEN at *
      omega
    exact (works_program f hfits).bind (Works.pure _ _)

theorem Flash.sector_ticked {f : Flash} {r : Region} (hr : r ≠ .pinCounter) :
    f.ticked.sector r = f.sector r := by
  unfold Flash.ticked
  split
  · rfl
  · exact Function.update_of_ne hr _ _

theorem Flash.storedKey_ticked (P : Prims) (f : Flash) :
    storedKey P f.ticked.sector = storedKey P f.sector := by
  unfold storedKey
  rw [AbPair.latest_congr (Flash.sector_ticked (by decide)) (Flash.sector_ticked (by decide))]

@[simp] theorem Flash.deviceSecret_ticked (f : Flash) : f.ticked.deviceSecret = f.deviceSecret := by
  unfold Flash.ticked
  split <;> rfl

end Works

/-! ### Handlers where every flash operation succeeds -/

/-- The handler answers `r` and leaves `h'`, whatever faultless operations are ahead. -/
def Serves {α : Type} (m : Dev P α) (h : Hsm P) (r : α) (h' : Hsm P) : Prop :=
  ∀ faults, Faultless faults →
    ∃ faults', m (h.facing faults) = .ok r (h'.facing faults') ∧ Faultless faults'

section Serves

variable {α β : Type} {h h₁ h₂ : Hsm P}

theorem Serves.pure (a : α) (h : Hsm P) : Serves (Pure.pure a) h a h :=
  fun faults hfaults => ⟨faults, rfl, hfaults⟩

theorem Serves.bind {m : Dev P α} {k : α → Dev P β} {a : α} {b : β} (hm : Serves m h a h₁)
    (hk : Serves (k a) h₁ b h₂) : Serves (m >>= k) h b h₂ := by
  intro faults hfaults
  obtain ⟨faults₁, hrun₁, hfaults₁⟩ := hm faults hfaults
  obtain ⟨faults₂, hrun₂, hfaults₂⟩ := hk faults₁ hfaults₁
  refine ⟨faults₂, ?_, hfaults₂⟩
  simp only [Bind.bind, EStateM.bind, hrun₁, hrun₂]

/-- Looking at the session: the code may depend on anything but the faults ahead. -/
theorem Serves.get_bind {k : Hsm P → Dev P β} {b : β}
    (hk : ∀ faults, Serves (k (h.facing faults)) h b h₁) : Serves (get >>= k) h b h₁ := by
  intro faults hfaults
  exact hk faults faults hfaults

theorem Serves.modify_bind {f : Hsm P → Hsm P} {k : PUnit → Dev P β} {b : β}
    (hf : ∀ faults, f (h.facing faults) = (f h).facing faults) (hk : Serves (k ⟨⟩) (f h) b h₁) :
    Serves (modify f >>= k) h b h₁ := by
  intro faults hfaults
  obtain ⟨faults₁, hrun₁, hfaults₁⟩ := hk faults hfaults
  refine ⟨faults₁, ?_, hfaults₁⟩
  change k ⟨⟩ (f (h.facing faults)) = _
  rw [hf, hrun₁]

theorem Works.serves {m : FlashM α} {a : α} {g : Flash} (hm : Works m h.flash a g) :
    Serves (onFlash m) h (.ok a) { h with flash := g } := by
  intro faults hfaults
  obtain ⟨faults', hrun, hfaults'⟩ := hm faults hfaults
  refine ⟨faults', ?_, hfaults'⟩
  unfold onFlash
  rw [show (h.facing faults).flash = h.flash.under faults from rfl, hrun]
  rfl

/-- A handler has one outcome. -/
theorem Serves.of_ok {m : Dev P α} {a b : α} (hm : Serves m h a h₁) {faults : List Fault}
    (hfaults : Faultless faults) (hrun : m (h.facing faults) = .ok b h₂) :
    b = a ∧ ∃ faults', h₂ = h₁.facing faults' ∧ Faultless faults' := by
  obtain ⟨faults', hrun', hfaults'⟩ := hm faults hfaults
  rw [hrun] at hrun'
  injection hrun' with hb hh
  exact ⟨hb, faults', hh, hfaults'⟩

theorem Serves.not_error {m : Dev P α} {a : α} (hm : Serves m h a h₁) {faults : List Fault}
    (hfaults : Faultless faults) {e : Halt} : m (h.facing faults) ≠ .error e h₂ := by
  obtain ⟨faults', hrun', -⟩ := hm faults hfaults
  rw [hrun']
  nofun

end Serves

/-! ### The ends of an attempt -/

/-- The attempts recorded in the counter sector. -/
def Hsm.attempts (h : Hsm P) : Nat := Pin.used (h.flash.sector .pinCounter)

/-- The deadline turns an attempt away. -/
def Hsm.Waits (h : Hsm P) : Prop := 0 < h.attempts ∧ h.nowMs < h.pinBackoffUntilMs

def Hsm.busyAnswer (h : Hsm P) (cfg : DeviceConfig) : HsmResponse :=
  pinError .busy "still backing off after a recent failed attempt"
    (cfg.maxRetries.toNat - h.attempts) ((h.pinBackoffUntilMs - h.nowMs).toNat % 2 ^ 32)

/-- Why an attempt that was counted is not judged. -/
inductive Unjudged (P : Prims) (cfg : DeviceConfig) (pin : Str) (f : Flash) : HsmResponse → Prop
  | noKey (hkey : KEY.latest P.crc32 f.sector = none) :
      Unjudged P cfg pin f (.err .noKey "no CA key present")
  | corrupt {b : Octets} (hkey : KEY.latest P.crc32 f.sector = some b)
      (hblob : KeyBlob.fromBytes b = none) :
      Unjudged P cfg pin f (.err .internal "corrupt key blob")
  | secret {blob : KeyBlob} {e : HalError} (hkey : storedKey P f.sector = some blob)
      (hsecret : f.deviceSecret = .error e) :
      Unjudged P cfg pin f (.err .internal "device secret unavailable")
  | kdf {blob : KeyBlob} {secret : Bytes 32} {e : WrapError}
      (hkey : storedKey P f.sector = some blob) (hsecret : f.deviceSecret = .ok secret)
      (hkek : pinKek P pin.bytes blob.salt cfg.argon2 secret = .error e) :
      Unjudged P cfg pin f (.err .internal "key derivation failed")

/-- The PIN derives a KEK, and that does not unwrap the stored key blob. -/
def Rejects (P : Prims) (f : Flash) (cfg : DeviceConfig) (pin : Str) : Prop :=
  ∃ blob secret kek e, storedKey P f.sector = some blob ∧ f.deviceSecret = .ok secret ∧
    pinKek P pin.bytes blob.salt cfg.argon2 secret = .ok kek ∧ unwrapSeed P kek blob = .error e

/-- The flash after a wipe of the key. -/
def Flash.wiped (f : Flash) : Flash := ((f.log .wipe).erase .keyA).erase .keyB

/-- The session with an attempt counted. -/
def Hsm.ticked (h : Hsm P) : Hsm P := { h with flash := h.flash.ticked }

/-- The session after the PIN opened the key: the counter starts over. -/
def Hsm.accepted (h : Hsm P) (cfg : DeviceConfig) : Hsm P :=
  { h with
    flash := (h.flash.ticked.log (.tried cfg.maxRetries true)).erase .pinCounter
    pinBackoffUntilMs := 0 }

/-- The delay that a wrong PIN starts. -/
def Hsm.penaltyMs (h : Hsm P) : Nat := Pin.backoffMs (Pin.next h.attempts - 1)

/-- The session after a wrong PIN, but for a lockout. -/
def Hsm.delayed (h : Hsm P) (cfg : DeviceConfig) : Hsm P :=
  { h with
    flash := h.flash.ticked.log (.tried cfg.maxRetries false)
    pinBackoffUntilMs := satAddU h.nowMs (UInt64.ofNat h.penaltyMs) }

/-- The session after a wrong PIN. -/
def Hsm.rejected (h : Hsm P) (cfg : DeviceConfig) : Hsm P :=
  if Pin.next h.attempts ≥ cfg.maxRetries.toNat then
    if cfg.wipeOnLockout then
      { (h.delayed cfg).enterLockedOut with
        flash := (h.delayed cfg).flash.wiped, caPubkey := none }
    else (h.delayed cfg).enterLockedOut
  else h.delayed cfg

def Hsm.rejectedAnswer (h : Hsm P) (cfg : DeviceConfig) : HsmResponse :=
  if Pin.next h.attempts ≥ cfg.maxRetries.toNat then
    pinError .lockedOut "too many attempts; device locked out" 0 h.penaltyMs
  else pinError .badPin "incorrect PIN" (cfg.maxRetries.toNat - Pin.next h.attempts) h.penaltyMs

/-- The ends of `verify_pin` over working flash. -/
inductive Attempt (cfg : DeviceConfig) (pin : Str) (h : Hsm P) :
    Except HsmResponse UnlockedSeed → Hsm P → Prop
  | busy (hwaits : h.Waits) : Attempt cfg pin h (.error (h.busyAnswer cfg)) h
  | unjudged {resp : HsmResponse} (hpast : ¬ h.Waits) (hwhy : Unjudged P cfg pin h.flash resp) :
      Attempt cfg pin h (.error resp) h.ticked
  | accepted {seed kek : Bytes 32} {salt : Bytes 16} (hpast : ¬ h.Waits)
      (hopens : Opens P h.flash cfg pin seed kek salt) :
      Attempt cfg pin h (.ok (seed, kek, salt)) (h.accepted cfg)
  | rejected (hpast : ¬ h.Waits) (hrejects : Rejects P h.flash cfg pin) :
      Attempt cfg pin h (.error (h.rejectedAnswer cfg)) (h.rejected cfg)

theorem Flash.latest_wiped (crc : Octets → UInt32) (f : Flash) :
    KEY.latest crc f.wiped.sector = none := by
  have hwiped : f.wiped.sector =
      Function.update (Function.update f.sector .keyA Sector.erased) .keyB Sector.erased := rfl
  have hA : f.wiped.sector KEY.a = Sector.erased := by
    rw [hwiped]
    exact (Function.update_of_ne (by decide) _ _).trans (Function.update_self _ _ _)
  have hB : f.wiped.sector KEY.b = Sector.erased := by
    rw [hwiped]
    exact Function.update_self _ _ _
  unfold AbPair.latest AbPair.copies
  rw [hA, hB, parseRecord_erased]
  rfl

theorem serves_eraseKeyVerified (tries : Nat) (h : Hsm P) :
    Serves (eraseKeyVerified (tries + 1)) h true { h with flash := h.flash.wiped } := by
  refine (works_note .wipe h.flash).serves.bind ?_
  refine (works_eraseBoth KEY _).serves.bind ?_
  refine (works_readLatest P.crc32 KEY _).serves.bind ?_
  have hnone : KEY.latest P.crc32
      (((h.flash.log .wipe).erase KEY.a).erase KEY.b).sector = none :=
    Flash.latest_wiped P.crc32 h.flash
  dsimp only
  rw [hnone]
  exact Serves.pure _ _

theorem serves_resetPinCounter (tries : Nat) (h : Hsm P) :
    Serves (resetPinCounterBestEffort (tries + 1)) h ()
      { h with flash := h.flash.erase .pinCounter, pinBackoffUntilMs := 0 } := by
  refine (works_erase .pinCounter h.flash).serves.bind ?_
  exact fun faults hfaults => ⟨faults, rfl, hfaults⟩

theorem serves_wrongPin (cfg : DeviceConfig) (h : Hsm P) :
    Serves (wrongPin cfg (Pin.next h.attempts))
      { h with flash := h.flash.ticked.log (.tried cfg.maxRetries false) }
      (.error (h.rejectedAnswer cfg)) (h.rejected cfg) := by
  unfold wrongPin Hsm.rejectedAnswer Hsm.rejected
  refine Serves.modify_bind (fun _ => rfl) ?_
  by_cases hout : Pin.next h.attempts ≥ cfg.maxRetries.toNat
  · rw [if_pos hout, if_pos hout, if_pos hout]
    refine Serves.modify_bind (fun _ => rfl) ?_
    by_cases hwipe : cfg.wipeOnLockout = true
    · rw [if_pos hwipe, if_pos hwipe]
      refine (serves_eraseKeyVerified 1 _).bind ?_
      rw [if_pos rfl]
      exact Serves.modify_bind (fun _ => rfl) (Serves.pure _ _)
    · rw [if_neg hwipe, if_neg hwipe]
      exact Serves.pure _ _
  · rw [if_neg hout, if_neg hout, if_neg hout]
    exact Serves.pure _ _

/-- What `verify_pin` does once the attempt is counted. -/
def judge (cfg : DeviceConfig) (pin : Str) (deviceSecret : Except HalError (Bytes 32))
    (attempts : Nat) : Dev P (Except HsmResponse UnlockedSeed) := do
  match ← onFlash (KEY.readLatest P.crc32) with
  | .error _ => return .error (.err .flash "key read failed")
  | .ok none => return .error (.err .noKey "no CA key present")
  | .ok (some b) =>
  match KeyBlob.fromBytes b with
  | none => return .error (.err .internal "corrupt key blob")
  | some blob =>
  match deviceSecret with
  | .error _ => return .error (.err .internal "device secret unavailable")
  | .ok secret =>
  match pinKek P pin.bytes blob.salt cfg.argon2 secret with
  | .error _ => return .error (.err .internal "key derivation failed")
  | .ok kek =>
  match unwrapSeed P kek blob with
  | .ok seed =>
    let _ ← onFlash (note (.tried cfg.maxRetries true))
    resetPinCounterBestEffort 2
    return .ok (seed, kek, blob.salt)
  | .error _ =>
    let _ ← onFlash (note (.tried cfg.maxRetries false))
    wrongPin cfg attempts

/-- An attempt the deadline lets through is counted and judged. -/
theorem serves_verifyPin_past {cfg : DeviceConfig} {pin : Str} {h h' : Hsm P}
    {r : Except HsmResponse UnlockedSeed} (hcfg : h.config = some cfg) (hpast : ¬ h.Waits)
    (hjudge : Serves (judge cfg pin h.flash.deviceSecret (Pin.next h.attempts)) h.ticked r h') :
    Serves (verifyPin pin) h r h' := by
  refine Serves.get_bind fun faults => ?_
  rw [show (h.facing faults).config = some cfg from hcfg]
  refine (works_pinCount h.flash).serves.bind ?_
  dsimp only
  rw [if_neg (by
    rw [Bool.and_eq_true, decide_eq_true_eq, decide_eq_true_eq]
    exact hpast)]
  exact (works_tick h.flash).serves.bind hjudge

/-- Over working flash `verify_pin` ends in one of these ways. -/
theorem serves_verifyPin {cfg : DeviceConfig} {h : Hsm P} (hcfg : h.config = some cfg)
    (pin : Str) : ∃ r h', Serves (verifyPin pin) h r h' ∧ Attempt cfg pin h r h' := by
  by_cases hwaits : h.Waits
  · refine ⟨_, _, Serves.get_bind fun faults => ?_, .busy hwaits⟩
    rw [show (h.facing faults).config = some cfg from hcfg]
    refine (works_pinCount h.flash).serves.bind ?_
    dsimp only
    rw [if_pos (by
      rw [Bool.and_eq_true, decide_eq_true_eq, decide_eq_true_eq]
      exact hwaits)]
    exact Serves.pure _ _
  have hkey : KEY.latest P.crc32 h.ticked.flash.sector = KEY.latest P.crc32 h.flash.sector :=
    AbPair.latest_congr (Flash.sector_ticked (by decide)) (Flash.sector_ticked (by decide))
  have hread := (works_readLatest P.crc32 KEY h.ticked.flash).serves
  rw [hkey] at hread
  cases hlatest : KEY.latest P.crc32 h.flash.sector with
  | none =>
    rw [hlatest] at hread
    refine ⟨_, _, serves_verifyPin_past hcfg hwaits (hread.bind ?_), .unjudged hwaits (.noKey hlatest)⟩
    exact Serves.pure _ _
  | some b =>
  rw [hlatest] at hread
  cases hblob : KeyBlob.fromBytes b with
  | none =>
    refine ⟨_, _, serves_verifyPin_past hcfg hwaits (hread.bind ?_),
      .unjudged hwaits (.corrupt hlatest hblob)⟩
    dsimp only
    rw [hblob]
    exact Serves.pure _ _
  | some blob =>
  have hstored : storedKey P h.flash.sector = some blob := by
    unfold storedKey
    rw [hlatest]
    exact hblob
  cases hsecret : h.flash.deviceSecret with
  | error e =>
    refine ⟨_, _, serves_verifyPin_past hcfg hwaits (hread.bind ?_),
      .unjudged hwaits (.secret hstored hsecret)⟩
    dsimp only
    rw [hblob, hsecret]
    exact Serves.pure _ _
  | ok secret =>
  cases hkek : pinKek P pin.bytes blob.salt cfg.argon2 secret with
  | error e =>
    refine ⟨_, _, serves_verifyPin_past hcfg hwaits (hread.bind ?_),
      .unjudged hwaits (.kdf hstored hsecret hkek)⟩
    dsimp only
    rw [hblob, hsecret]
    dsimp only
    rw [hkek]
    exact Serves.pure _ _
  | ok kek =>
  cases hseed : unwrapSeed P kek blob with
  | ok seed =>
    refine ⟨_, _, serves_verifyPin_past hcfg hwaits (hread.bind ?_),
      .accepted hwaits ⟨blob, secret, hstored, hsecret, rfl, hkek, hseed⟩⟩
    dsimp only
    rw [hblob, hsecret]
    dsimp only
    rw [hkek]
    dsimp only
    rw [hseed]
    refine (works_note _ _).serves.bind ((serves_resetPinCounter 1 _).bind ?_)
    exact Serves.pure _ _
  | error e =>
    refine ⟨_, _, serves_verifyPin_past hcfg hwaits (hread.bind ?_),
      .rejected hwaits ⟨blob, secret, kek, e, hstored, hsecret, hkek, hseed⟩⟩
    dsimp only
    rw [hblob, hsecret]
    dsimp only
    rw [hkek]
    dsimp only
    rw [hseed]
    exact (works_note _ _).serves.bind (serves_wrongPin cfg h)

/-! ### Commands that make an attempt -/

/-- The command hands this PIN to `verify_pin`. -/
inductive Hands (h : Hsm P) : Command → Str → Prop
  | unlock {req : UnlockReq} (hstate : h.state = .prodLocked) : Hands h (.unlock req) req.pin
  | changePin {req : ChangePinReq} (hstate : h.state = .prodLocked ∨ h.state = .prodReady)
      (hlen : PIN_MIN ≤ req.newPin.len ∧ req.newPin.len ≤ PIN_MAX) :
      Hands h (.changePin req) req.currentPin
  | factoryReset {req : FactoryResetReq} {pin : Str} (hconfirm : req.confirm = confirmErase)
      (hpin : req.pin = some pin) (hstate : h.state = .prodLocked ∨ h.state = .prodReady)
      (hphysical : h.physicalRecoveryAuthorized = false) : Hands h (.factoryReset req) pin
  | rebootBootloader {req : RebootBootloaderReq} {pin : Str} (hpin : req.pin = some pin)
      (hstate : h.state = .prodLocked ∨ h.state = .prodReady)
      (hphysical : h.physicalRecoveryAuthorized = false) : Hands h (.rebootBootloader req) pin

theorem Hands.state {h : Hsm P} {c : Command} {pin : Str} (hands : Hands h c pin) :
    h.state = .prodLocked ∨ h.state = .prodReady := by
  cases hands with
  | unlock hstate => exact Or.inl hstate
  | changePin hstate => exact hstate
  | factoryReset _ _ hstate => exact hstate
  | rebootBootloader _ hstate => exact hstate

/-- The gate of the destructive commands, where it takes a PIN. -/
theorem serves_destructiveGate {h h₁ : Hsm P} {pin : Str} {r : Except HsmResponse UnlockedSeed}
    (noPin : String) (hstate : h.state = .prodLocked ∨ h.state = .prodReady)
    (hphysical : h.physicalRecoveryAuthorized = false) (hv : Serves (verifyPin pin) h r h₁) :
    Serves (destructiveGate (some pin) noPin) h
      (match r with | .error resp => some resp | .ok _ => none) h₁ := by
  have hlatch : ∀ faults, ¬ (h.facing faults).physicalRecoveryAuthorized = true := by
    intro faults hyes
    exact absurd (hphysical.symm.trans hyes) (by decide)
  have hjudged : Serves (pinGate (some pin) noPin) h
      (match r with | .error resp => some resp | .ok _ => none) h₁ := by
    refine hv.bind ?_
    cases r <;> exact Serves.pure _ _
  refine Serves.get_bind fun faults => ?_
  rcases hstate with hstate | hstate
  · rw [show (h.facing faults).state = .prodLocked from hstate]
    dsimp only
    rw [if_neg (hlatch faults)]
    exact hjudged
  · rw [show (h.facing faults).state = .prodReady from hstate]
    dsimp only
    rw [if_neg (hlatch faults)]
    exact hjudged

/-- An attempt that opens nothing is the end of its command. -/
theorem Hands.serves_error {h h₁ : Hsm P} {c : Command} {pin : Str} {resp : HsmResponse}
    (hands : Hands h c pin) (hv : Serves (verifyPin pin) h (.error resp) h₁) :
    Serves c.run h resp h₁ := by
  cases hands with
  | unlock hstate =>
    refine Serves.get_bind fun faults => ?_
    rw [show (h.facing faults).state = .prodLocked from hstate]
    exact hv.bind (Serves.pure _ _)
  | changePin hstate hlen =>
    refine Serves.get_bind fun faults => ?_
    rcases hstate with hstate | hstate
    · rw [show (h.facing faults).state = .prodLocked from hstate]
      dsimp only
      rw [if_neg (not_not.mpr hlen)]
      exact hv.bind (Serves.pure _ _)
    · rw [show (h.facing faults).state = .prodReady from hstate]
      dsimp only
      rw [if_neg (not_not.mpr hlen)]
      exact hv.bind (Serves.pure _ _)
  | @factoryReset req _ hconfirm hpin hstate hphysical =>
    change Serves (hsmFactoryReset req) h resp h₁
    unfold hsmFactoryReset
    rw [if_neg (not_not.mpr hconfirm), hpin]
    exact (serves_destructiveGate _ hstate hphysical hv).bind (Serves.pure _ _)
  | @rebootBootloader req _ hpin hstate hphysical =>
    change Serves (hsmRebootBootloader req) h resp h₁
    unfold hsmRebootBootloader
    rw [hpin]
    exact (serves_destructiveGate _ hstate hphysical hv).bind (Serves.pure _ _)

/-! ### Erasing everything -/

/-- The flash after the erase phase of a factory reset. -/
def Flash.blanked (f : Flash) : Flash :=
  ((((f.wiped.erase .configA).erase .configB).erase .timeA).erase .timeB).erase .pinCounter

theorem Flash.sector_erase_self (f : Flash) (r : Region) :
    (f.erase r).sector r = Sector.erased := Function.update_self _ _ _

theorem Flash.sector_erase_of_ne {f : Flash} {r r' : Region} (h : r ≠ r') :
    (f.erase r').sector r = f.sector r := Function.update_of_ne h _ _

theorem Flash.sector_blanked (f : Flash) (r : Region) : f.blanked.sector r = Sector.erased := by
  unfold Flash.blanked Flash.wiped
  cases r <;> simp [Flash.erase, Flash.put, Flash.log]

theorem latest_blanked (crc : Octets → UInt32) (pair : AbPair) (f : Flash) :
    pair.latest crc f.blanked.sector = none := by
  unfold AbPair.latest AbPair.copies
  rw [Flash.sector_blanked, Flash.sector_blanked, parseRecord_erased]
  rfl

theorem serves_eraseEverything (h : Hsm P) :
    Serves eraseEverything h true { h with flash := h.flash.blanked } := by
  refine (serves_eraseKeyVerified 1 h).bind ?_
  refine (works_eraseBoth CONFIG _).serves.bind ?_
  refine (works_eraseBoth TIME_FLOOR _).serves.bind ?_
  refine (works_erase .pinCounter _).serves.bind ?_
  refine (works_readLatest P.crc32 CONFIG _).serves.bind ?_
  refine (works_readLatest P.crc32 TIME_FLOOR _).serves.bind ?_
  have hconfig : CONFIG.latest P.crc32 h.flash.blanked.sector = none := latest_blanked _ _ _
  have htime : TIME_FLOOR.latest P.crc32 h.flash.blanked.sector = none := latest_blanked _ _ _
  have hblanked : ((((h.flash.wiped.erase CONFIG.a).erase CONFIG.b).erase TIME_FLOOR.a).erase
      TIME_FLOOR.b).erase .pinCounter = h.flash.blanked := rfl
  dsimp only
  rw [hblanked, hconfig, htime]
  exact Serves.pure _ _

/-- Behind its gate a factory reset over working flash goes through. -/
theorem serves_factoryReset {req : FactoryResetReq} {h h₁ : Hsm P}
    (hconfirm : req.confirm = confirmErase)
    (hgate : Serves (destructiveGate req.pin
      "factory-reset requires a PIN or physical recovery held low during reset") h none h₁) :
    Serves (hsmFactoryReset req) h (.factoryReset true) (h₁.afterReset h₁.flash.blanked) := by
  unfold hsmFactoryReset
  rw [if_neg (not_not.mpr hconfirm)]
  refine hgate.bind (Serves.modify_bind (fun _ => rfl) ?_)
  refine (serves_eraseEverything _).bind ?_
  rw [if_pos rfl]
  exact Serves.modify_bind (fun _ => rfl) (Serves.pure _ _)

/-- The gate, where it looks at no PIN. -/
theorem serves_destructiveGate_idle {h : Hsm P} (pin : Option Str) (noPin : String)
    (hidle : ¬ ((h.state = .prodLocked ∨ h.state = .prodReady) ∧
      h.physicalRecoveryAuthorized = false ∧ pin.isSome)) :
    ∃ r, Serves (destructiveGate pin noPin) h r h ∧ (∀ resp, r = some resp → resp.IsError) := by
  have hprod : (h.state = .prodLocked ∨ h.state = .prodReady) →
      ∃ r, Serves (if h.physicalRecoveryAuthorized = true then return none else pinGate pin noPin) h r h ∧
        (∀ resp, r = some resp → resp.IsError) := by
    intro hstate
    by_cases hphysical : h.physicalRecoveryAuthorized = true
    · rw [if_pos hphysical]
      exact ⟨none, Serves.pure _ _, by simp⟩
    · rw [if_neg hphysical]
      cases pin with
      | none => exact ⟨_, Serves.pure _ _, fun resp heq => ⟨_, (Option.some.inj heq).symm⟩⟩
      | some pin => exact absurd ⟨hstate, by simpa using hphysical, rfl⟩ hidle
  cases hstate : h.state with
  | uninitialized =>
    refine ⟨none, Serves.get_bind fun faults => ?_, by simp⟩
    rw [show (h.facing faults).state = .uninitialized from hstate]
    exact Serves.pure _ _
  | devReady =>
    refine ⟨none, Serves.get_bind fun faults => ?_, by simp⟩
    rw [show (h.facing faults).state = .devReady from hstate]
    exact Serves.pure _ _
  | prodLocked =>
    obtain ⟨r, hr, herror⟩ := hprod (Or.inl hstate)
    refine ⟨r, Serves.get_bind fun faults => ?_, herror⟩
    rw [show (h.facing faults).state = .prodLocked from hstate]
    exact hr
  | prodReady =>
    obtain ⟨r, hr, herror⟩ := hprod (Or.inr hstate)
    refine ⟨r, Serves.get_bind fun faults => ?_, herror⟩
    rw [show (h.facing faults).state = .prodReady from hstate]
    exact hr
  | lockedOut =>
    by_cases hphysical : h.physicalRecoveryAuthorized = true
    · refine ⟨none, Serves.get_bind fun faults => ?_, by simp⟩
      rw [show (h.facing faults).state = .lockedOut from hstate]
      dsimp only
      rw [if_pos (show (h.facing faults).physicalRecoveryAuthorized = true from hphysical)]
      exact Serves.pure _ _
    · refine ⟨some (.err .lockedOut "device locked out; hold physical recovery low during reset"),
        Serves.get_bind fun faults => ?_, fun resp heq => ⟨_, (Option.some.inj heq).symm⟩⟩
      rw [show (h.facing faults).state = .lockedOut from hstate]
      dsimp only
      rw [if_neg (show ¬ (h.facing faults).physicalRecoveryAuthorized = true from hphysical)]
      exact Serves.pure _ _

end PicoSignet
