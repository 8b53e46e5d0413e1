/-
  PicoSignet/OwnerPin.lean
  ========================
  **The key is never stranded** — whoever holds the PIN of a production device can use
  its key (`key_never_stranded`).  Rotation wraps the new seed under a KEK that is
  cached in RAM and never sees the PIN, and `changePin` may be cut at any flash step;
  the cached KEK, the salt beside it and the KEY record have to stay in step.

  The PIN of the device is read off the history (`OwnerPin`): it is the one that the last
  `init` or `changePin` gave it or that the last `unlock` opened it with.  A power cut
  inside `changePin` leaves two PINs possible.
-/
import PicoSignet.Custody
import PicoSignet.Diagram
import PicoSignet.Relock

set_option autoImplicit false

namespace PicoSignet

open Crash TwoCopy

variable {P : Prims}

/-! ### The PIN of the device -/

/-- The answer to a management request. -/
def Moment.answer (m : Moment P) : Option HsmResponse :=
  match m.response with
  | some (.hsm resp) => some resp
  | _ => none

/-- The PIN that the moment gives to the device or opens the session with. -/
def Moment.givenPin (m : Moment P) : Option Str :=
  match m.before, m.event with
  | .on h, .line bytes _ => (lineCommand P bytes).bind fun c => c.givenPin h.state m.answer
  | _, _ => none

/-- The power goes during this request. -/
def Moment.CutsRequest (m : Moment P) (c : Command) : Prop :=
  ∃ h bytes faults, m.before = .on h ∧ m.event = .line bytes faults ∧
    lineCommand P bytes = some c ∧ m.response = none

/-- The PINs that can be the one of the device, for who has followed its history. -/
inductive OwnerPin : List (Moment P) → Str → Prop
  | given {m : Moment P} {older : List (Moment P)} {pin : Str} (hpin : m.givenPin = some pin) :
      OwnerPin (m :: older) pin
  | cut {m : Moment P} {older : List (Moment P)} {req : ChangePinReq}
      (hcut : m.CutsRequest (.changePin req)) : OwnerPin (m :: older) req.newPin
  | kept {m : Moment P} {older : List (Moment P)} {pin : Str} (hno : m.givenPin = none)
      (hpin : OwnerPin older pin) : OwnerPin (m :: older) pin

/-- The PIN derives the KEK that opens the KEY record, and the KEK of an open session. -/
structure HeldBy (secret : Bytes 32) (pin : Str) (s : Sys P) : Prop where
  record : ∀ blob, storedKey P s.flash.sector = some blob → ∃ kek seed,
    pinKek P pin.bytes blob.salt DEFAULT_ARGON secret = .ok kek ∧ unwrapSeed P kek blob = .ok seed
  session : ∀ h, s = .on h → h.state = .prodReady → ∃ kek salt, h.wrapKek = some kek ∧
    h.wrapSalt = some salt ∧ pinKek P pin.bytes salt DEFAULT_ARGON secret = .ok kek

/-- The invariant of every state: a production device is held by its PIN. -/
structure OwnerInvariant (secret : Bytes 32) (hist : List (Moment P)) (s : Sys P) : Prop where
  keySound : (KEY.copies P.crc32 s.flash.sector).Sound
  configSound : (CONFIG.copies P.crc32 s.flash.sector).Sound
  owner : ∀ cfg, storedConfig P s.flash.sector = some cfg → cfg.mode = .prod →
    cfg.argon2 = DEFAULT_ARGON ∧ ∃ pin, OwnerPin hist pin ∧ HeldBy secret pin s

/-! ### Old or new -/

section Pairs

variable {f g : Flash} {blob : KeyBlob}

theorem sound_step {pair : AbPair} {op : Option Octets}
    (hsound : (pair.copies P.crc32 f.sector).Sound)
    (hstep : Copies.Step (2 ^ 32) (pair.copies P.crc32 f.sector) op (pair.copies P.crc32 g.sector)) :
    (pair.copies P.crc32 g.sector).Sound :=
  hstep.sound (by norm_num) (AbPair.next_le _) hsound

/-- After a write that may not have been completed the newest payload is the old one or
    the new one. -/
theorem latest_old_or_new {pair : AbPair} {payload : Octets}
    (hsound : (pair.copies P.crc32 f.sector).Sound)
    (hstep : Copies.Step (2 ^ 32) (pair.copies P.crc32 f.sector) (some payload)
      (pair.copies P.crc32 g.sector)) :
    pair.latest P.crc32 g.sector = pair.latest P.crc32 f.sector ∨
      pair.latest P.crc32 g.sector = some payload :=
  (hstep.refines (by norm_num) (AbPair.next_le _) hsound).old_or_new

theorem storedKey_old_or_new (hsound : (KEY.copies P.crc32 f.sector).Sound)
    (hstep : Copies.Step (2 ^ 32) (KEY.copies P.crc32 f.sector) (some blob.toBytes)
      (KEY.copies P.crc32 g.sector)) :
    storedKey P g.sector = storedKey P f.sector ∨ storedKey P g.sector = some blob := by
  unfold storedKey
  rcases latest_old_or_new hsound hstep with hold | hnew
  · exact Or.inl (by rw [hold])
  · right
    rw [hnew]
    exact KeyBlob.fromBytes_toBytes blob

theorem storedConfig_old_or_new {cfg : DeviceConfig}
    (hsound : (CONFIG.copies P.crc32 f.sector).Sound)
    (hstep : Copies.Step (2 ^ 32) (CONFIG.copies P.crc32 f.sector) (some cfg.toBytes)
      (CONFIG.copies P.crc32 g.sector)) :
    storedConfig P g.sector = storedConfig P f.sector ∨ storedConfig P g.sector = some cfg := by
  unfold storedConfig
  rcases latest_old_or_new hsound hstep with hold | hnew
  · exact Or.inl (by rw [hold])
  · right
    rw [hnew]
    exact DeviceConfig.fromBytes_toBytes cfg

end Pairs

/-! ### The CONFIG pair -/

section ConfigPair

variable {h h' : Hsm P} {c : Command} {resp : HsmResponse} {faults : List Fault}

theorem InitProdWriting.configSound {req : InitReq} {blob : KeyBlob} {f g : Flash}
    (hcut : InitProdWriting P req f blob g) (hdetected : RecordsDetected P g)
    (hsound : (CONFIG.copies P.crc32 f.sector).Sound) : (CONFIG.copies P.crc32 g.sector).Sound := by
  have hkey : ∀ {f₁ : Flash}, FlashWithin (· = some (KEY.nextTarget P.crc32 f.sector)) f f₁ →
      CONFIG.copies P.crc32 f₁.sector = CONFIG.copies P.crc32 f.sector := fun hw =>
    AbPair.copies_congr (hw.beside (by decide) (by decide)) (hw.beside (by decide) (by decide))
  have hconfig : (prodConfig req).toBytes.length ≤ 4080 := by
    rw [length_deviceConfig]
    norm_num
  cases hcut with
  | key hg =>
    rw [hkey hg.within]
    exact hsound
  | config hg hg' =>
    refine sound_step ?_ (hg'.step hdetected)
    rw [hkey hg.within]
    exact hsound
  | resetting hg hg' hreset =>
    rw [AbPair.copies_congr (hreset.within.sector _ (by simp [CONFIG]))
      (hreset.within.sector _ (by simp [CONFIG]))]
    refine sound_step ?_ (hg'.step hconfig)
    rw [hkey hg.within]
    exact hsound

/-- The commands other than `init` and `factoryReset` leave the pair alone. -/
theorem configCopies_same (hinit : ∀ req, c ≠ .init req) (hreset : ∀ req, c ≠ .factoryReset req)
    (h : Hsm P) : Wp (c.run : Dev P HsmResponse)
      (fun _ h' => CONFIG.copies P.crc32 h'.flash.sector = CONFIG.copies P.crc32 h.flash.sector)
      (fun _ h' => CONFIG.copies P.crc32 h'.flash.sector = CONFIG.copies P.crc32 h.flash.sector) h := by
  have hspared : ∀ {h' : Hsm P}, Within NotConfig NotConfigRegion h h' →
      CONFIG.copies P.crc32 h'.flash.sector = CONFIG.copies P.crc32 h.flash.sector := fun hw =>
    AbPair.copies_congr (hw.flash.sector _ (by simp [NotConfigRegion, CONFIG]))
      (hw.flash.sector _ (by simp [NotConfigRegion, CONFIG]))
  exact (besidesConfig_run hinit hreset h).mono (fun _ _ hw => hspared hw) fun _ _ hw => hspared hw

theorem configSound_run (hsound : (CONFIG.copies P.crc32 h.flash.sector).Sound)
    (hfaults : Faultless faults) (hrun : c.run (h.facing faults) = .ok resp h') :
    (CONFIG.copies P.crc32 h'.flash.sector).Sound := by
  have hno : ¬ ∃ left, Fault.fail left ∈ (h.facing faults).flash.faults :=
    not_exists.mpr hfaults.no_fail
  have hlength : ∀ cfg : DeviceConfig, cfg.toBytes.length ≤ 4080 := by
    intro cfg
    rw [length_deviceConfig]
    norm_num
  by_cases hinit : ∃ req, c = .init req
  · obtain ⟨req, rfl⟩ := hinit
    rcases (wp_init req (h.facing faults)).of_ok hrun with
      rfl | ⟨-, ⟨-, hdev⟩ | ⟨-, hprod⟩⟩
    · exact hsound
    · cases hdev with
      | refused => exact hsound
      | failed hg hfail => exact absurd hfail hno
      | done hg => exact sound_step (f := (h.facing faults).flash) hsound (hg.step (hlength _))
    · cases hprod with
      | refused hrng =>
        rw [hrng]
        exact hsound
      | keyFailed hresp hg hfail => exact absurd hfail hno
      | configFailed hresp hg hg' hfail => exact absurd hfail hno
      | @done drbg entropy g g' g'' seed blob hretries hblob hg hg' hreset =>
        have hkey : CONFIG.copies P.crc32 g.sector = CONFIG.copies P.crc32 h.flash.sector :=
          AbPair.copies_congr (hg.within.beside (by decide) (by decide))
            (hg.within.beside (by decide) (by decide))
        change (CONFIG.copies P.crc32 g''.sector).Sound
        rw [AbPair.copies_congr (hreset.within.sector _ (by simp [CONFIG]))
          (hreset.within.sector _ (by simp [CONFIG]))]
        refine sound_step ?_ (hg'.step (hlength _))
        rw [hkey]
        exact hsound
  by_cases hreset : ∃ req, c = .factoryReset req
  · obtain ⟨req, rfl⟩ := hreset
    rcases (wp_factoryReset_blanks req (h := h.facing faults) hfaults).of_ok hrun with
      ⟨hw, -⟩ | ⟨-, hblank, -⟩
    · rw [AbPair.copies_congr (hw.flash.sector _ (by simp [NotConfigRegion, CONFIG]))
        (hw.flash.sector _ (by simp [NotConfigRegion, CONFIG]))]
      exact hsound
    · rw [AbPair.copies_erased (hblank _) (hblank _)]
      exact Copies.sound_empty
  rw [(configCopies_same (fun req heq => hinit ⟨req, heq⟩) (fun req heq => hreset ⟨req, heq⟩)
    (h.facing faults)).of_ok hrun]
  exact hsound

end ConfigPair

/-! ### One request -/

section Request

variable {h h' : Hsm P} {c : Command} {resp : HsmResponse} {secret : Bytes 32}
  {bytes : Octets} {faults : List Fault} {hist : List (Moment P)} {cfg : DeviceConfig}

theorem givenPin_served (hc : lineCommand P bytes = some c) (h : Hsm P) (faults : List Fault)
    (resp : HsmResponse) (s' : Sys P) :
    (⟨.line bytes faults, .on h, some (.hsm resp), s'⟩ : Moment P).givenPin =
      c.givenPin h.state (some resp) := by
  change ((lineCommand P bytes).bind fun c => c.givenPin h.state (some resp)) = _
  rw [hc]
  rfl

theorem givenPin_cut (hc : lineCommand P bytes = some c) (h : Hsm P) (faults : List Fault)
    (s' : Sys P) :
    (⟨.line bytes faults, .on h, none, s'⟩ : Moment P).givenPin = c.givenPin h.state none := by
  change ((lineCommand P bytes).bind fun c => c.givenPin h.state none) = _
  rw [hc]
  rfl

theorem KeyMove.keySound (hmove : KeyMove h c resp h')
    (hsound : (KEY.copies P.crc32 h.flash.sector).Sound) :
    (KEY.copies P.crc32 h'.flash.sector).Sound := by
  cases hmove with
  | kept hkept =>
    rw [hkept.sectors.copies]
    exact hsound
  | gone herased =>
    rw [AbPair.copies_erased herased.1 herased.2]
    exact Copies.sound_empty
  | made hnone hblob hwritten => exact sound_step hsound hwritten.step
  | opened hstate hcfg hopens hsame =>
    rw [hsame.copies]
    exact hsound
  | rotated hstate hblob hwritten => exact sound_step hsound hwritten.step
  | rewrapped hblob hwritten => exact sound_step hsound hwritten.step

/-- A record that was wrapped under the KEK of a PIN is held by it. -/
theorem held_of_wrapped {pin : Str} {s : Sys P} {kek seed pubkey : Bytes 32} {wrapType : WrapType}
    {salt : Bytes 16} {nonce : Bytes 12} (hseals : Sealing P secret)
    (hstored : storedKey P s.flash.sector = some (wrapSeed P kek seed pubkey wrapType salt nonce))
    (hkek : pinKek P pin.bytes salt DEFAULT_ARGON secret = .ok kek) :
    ∀ blob, storedKey P s.flash.sector = some blob → ∃ kek seed,
      pinKek P pin.bytes blob.salt DEFAULT_ARGON secret = .ok kek ∧
        unwrapSeed P kek blob = .ok seed := by
  intro blob hblob
  obtain rfl := Option.some.inj (hstored.symm.trans hblob)
  exact ⟨kek, seed, hkek, hseals.opens _ _ _ _ _ _⟩

/-- What a session that is ready wraps a rotated seed under is the KEK of its PIN. -/
theorem HeldBy.rotated {pin : Str} {seed : Bytes 32} {blob : KeyBlob}
    (hheld : HeldBy secret pin (.on h)) (hshape : h.Shaped)
    (hstate : h.state = .devReady ∨ h.state = .prodReady) (hcfg : h.config = some cfg)
    (hmode : cfg.mode = .prod) (hblob : RotatedBlob h seed blob) :
    ∃ kek salt nonce, blob = wrapSeed P kek seed (P.edPublic seed) .pinKek salt nonce ∧
      pinKek P pin.bytes salt DEFAULT_ARGON secret = .ok kek := by
  have hready : h.state = .prodReady := by
    rcases hstate with hdev | hready
    · have hmode' := hshape.consistent.dev.mp hdev
      rw [hcfg, Option.map_some, hmode] at hmode'
      cases hmode'
    · exact hready
  obtain ⟨cfg', kek, salt, nonce, hcfg', hwrap, hsalt, rfl⟩ := hblob
  obtain rfl := Option.some.inj (hcfg.symm.trans hcfg')
  obtain ⟨kek', salt', hwrap', hsalt', hkek⟩ := hheld.session h rfl hready
  obtain rfl := Option.some.inj (hwrap.symm.trans hwrap')
  obtain rfl := Option.some.inj ((hsalt hmode).symm.trans hsalt')
  exact ⟨kek, salt, nonce, by rw [hmode]; rfl, hkek⟩

/-- The session holds the PIN as long as its KEK stays. -/
theorem HeldBy.session_kept {pin : Str} (hheld : HeldBy secret pin (.on h)) (hkek : KekKept h h') :
    ∀ h'', Sys.on h' = .on h'' → h''.state = .prodReady → ∃ kek salt, h''.wrapKek = some kek ∧
      h''.wrapSalt = some salt ∧ pinKek P pin.bytes salt DEFAULT_ARGON secret = .ok kek := by
  intro h'' heq hready
  obtain rfl := Sys.on.inj heq
  obtain ⟨hwas, hwrap, hsalt⟩ := hkek hready
  obtain ⟨kek, salt, hwrap', hsalt', hpin⟩ := hheld.session h rfl hwas
  exact ⟨kek, salt, hwrap.trans hwrap', hsalt.trans hsalt', hpin⟩

/-- A session that is not open holds no KEK. -/
theorem session_closed {pin : Str} (hclosed : h'.state ≠ .prodReady) :
    ∀ h'', Sys.on h' = .on h'' → h''.state = .prodReady → ∃ kek salt, h''.wrapKek = some kek ∧
      h''.wrapSalt = some salt ∧ pinKek P pin.bytes salt DEFAULT_ARGON secret = .ok kek := by
  intro h'' heq hready
  obtain rfl := Sys.on.inj heq
  exact absurd hready hclosed

/-- A request that is answered over working flash. -/
theorem OwnerInvariant.served (hinv : OwnerInvariant secret hist (.on h)) (hm : Mirrors secret h)
    (hm' : Mirrors secret h') (hshape : h.Shaped) (hseals : Sealing P secret) (hnum : h.Numbered c)
    (hc : lineCommand P bytes = some c) (hmove : KeyMove h c resp h') :
    ∀ cfg, storedConfig P h'.flash.sector = some cfg → cfg.mode = .prod →
      cfg.argon2 = DEFAULT_ARGON ∧ ∃ pin,
        OwnerPin (⟨.line bytes faults, .on h, some (.hsm resp), .on h'⟩ :: hist) pin ∧
          HeldBy secret pin (.on h') := by
  intro cfg hstored hmode
  have hcfg' : h'.config = some cfg := hm'.config.config.trans hstored
  have hgiven := givenPin_served hc h faults resp (.on h')
  have hbefore : h.config = some cfg → cfg.argon2 = DEFAULT_ARGON ∧ ∃ pin, OwnerPin hist pin ∧
      HeldBy secret pin (.on h) := fun hcfg =>
    hinv.owner cfg (hm.config.config.symm.trans hcfg) hmode
  cases hmove with
  | kept hkept hpin =>
    obtain ⟨hargon, pin, howner, hheld⟩ := hbefore (hkept.config cfg hcfg' hmode)
    refine ⟨hargon, pin, .kept (hgiven.trans hpin) howner, ?_, hheld.session_kept hkept.kek⟩
    intro blob hblob
    exact hheld.record blob (hkept.sectors.storedKey.symm.trans hblob)
  | gone herased hclosed hconfig hpin =>
    obtain ⟨hargon, pin, howner, -⟩ := hbefore (hconfig cfg hcfg' hmode)
    refine ⟨hargon, pin, .kept (hgiven.trans hpin) howner, ?_, session_closed ?_⟩
    · intro blob hblob
      have hgone : storedKey P h'.flash.sector = none := storedKey_of_erased herased
      exact absurd (hgone.symm.trans hblob) (by simp)
    · rcases hclosed with hout | hblank
      · simp [hout]
      · simp [hblank]
  | made hnone hblob hwritten hclosed hconfig =>
    obtain rfl := Option.some.inj (hconfig.symm.trans hcfg')
    have hstored := hwritten.stored hnum.2
    obtain ⟨pin, s, salt, kek, nonce, hpin, hs, hkek, rfl⟩ := hblob
    obtain rfl := hm.secret s hs
    refine ⟨rfl, pin, .given ?_, held_of_wrapped hseals hstored hkek, session_closed (by simp [hclosed])⟩
    rw [hgiven]
    change (if "prod" = "prod" then _ else none) = some pin
    rw [if_pos rfl]
    exact hpin
  | opened hstate hcfg hopens hsame hkek hsalt hconfig =>
    obtain rfl := Option.some.inj (hcfg.symm.trans (hconfig.symm.trans hcfg'))
    obtain ⟨hargon, -⟩ := hbefore hcfg
    obtain ⟨blob, s, hblob, hs, rfl, hpin, hopen⟩ := hopens
    obtain rfl := hm.secret s hs
    rw [hargon] at hpin
    refine ⟨hargon, _, .given (hgiven.trans (if_pos hstate)), ?_, ?_⟩
    · intro blob' hblob'
      obtain rfl := Option.some.inj (hblob.symm.trans (hsame.storedKey.symm.trans hblob'))
      exact ⟨_, _, hpin, hopen⟩
    · intro h'' heq _
      obtain rfl := Sys.on.inj heq
      exact ⟨_, _, hkek, hsalt, hpin⟩
  | rotated hstate hblob hwritten hkek hconfig =>
    have hcfg := hconfig.symm.trans hcfg'
    obtain ⟨hargon, pin, howner, hheld⟩ := hbefore hcfg
    obtain ⟨kek, salt, nonce, rfl, hpin⟩ := hheld.rotated hshape hstate hcfg hmode hblob
    exact ⟨hargon, pin, .kept hgiven howner, held_of_wrapped hseals (hwritten.stored hnum) hpin,
      hheld.session_kept hkek⟩
  | @rewrapped req _ newKek newSalt blob hblob hwritten hkek hconfig =>
    have hcfg := hconfig.symm.trans hcfg'
    obtain ⟨hargon, -⟩ := hbefore hcfg
    obtain ⟨-, seed, -, -, -, -, cfg', s, pubkey, nonce, hcfg'', hs, hpin, -, rfl⟩ := hblob
    obtain rfl := Option.some.inj (hcfg.symm.trans hcfg'')
    obtain rfl := hm.secret s hs
    rw [hargon] at hpin
    refine ⟨hargon, req.newPin, .given hgiven, held_of_wrapped hseals (hwritten.stored hnum) hpin, ?_⟩
    intro h'' heq hready
    obtain rfl := Sys.on.inj heq
    obtain ⟨hwrap, hsalt⟩ := hkek hready
    exact ⟨_, _, hwrap, hsalt, hpin⟩

/-- A production configuration that a cut `init` leaves is its own, and its key is written. -/
theorem InitProdWriting.stored {req : InitReq} {blob : KeyBlob} {f g : Flash}
    (hcut : InitProdWriting P req f blob g) (hdetected : RecordsDetected P g)
    (hsound : (CONFIG.copies P.crc32 f.sector).Sound) (hnone : storedConfig P f.sector = none)
    (hcfg : storedConfig P g.sector = some cfg) :
    cfg = prodConfig req ∧ KeyWritten P blob f g := by
  have hconfig : ∀ {f₁ : Flash}, FlashWithin (· = some (KEY.nextTarget P.crc32 f.sector)) f f₁ →
      CONFIG.copies P.crc32 f₁.sector = CONFIG.copies P.crc32 f.sector ∧
        storedConfig P f₁.sector = none := by
    intro f₁ hw
    have hA : f₁.sector .configA = f.sector .configA := hw.beside (by decide) (by decide)
    have hB : f₁.sector .configB = f.sector .configB := hw.beside (by decide) (by decide)
    refine ⟨AbPair.copies_congr hA hB, ?_⟩
    rw [storedConfig_congr hA hB]
    exact hnone
  have hnew : ∀ {f₁ f₂ : Flash}, FlashWithin (· = some (KEY.nextTarget P.crc32 f.sector)) f f₁ →
      Copies.Step (2 ^ 32) (CONFIG.copies P.crc32 f₁.sector) (some (prodConfig req).toBytes)
        (CONFIG.copies P.crc32 f₂.sector) → storedConfig P f₂.sector = some cfg →
      cfg = prodConfig req := by
    intro f₁ f₂ hw hstep hstored
    obtain ⟨hcopies, hnone₁⟩ := hconfig hw
    rcases storedConfig_old_or_new (by rw [hcopies]; exact hsound) hstep with hold | hnew
    · exact absurd (hstored.symm.trans (hold.trans hnone₁)) (by simp)
    · exact Option.some.inj (hstored.symm.trans hnew)
  have hsame : ∀ {f₁ f₂ : Flash},
      FlashWithin (· = some (CONFIG.nextTarget P.crc32 f₁.sector)) f₁ f₂ → SameKeySectors f₁ f₂ :=
    fun hw => hw.sameKey (by decide) (by decide)
  cases hcut with
  | key hg => exact absurd (hcfg.symm.trans (hconfig hg.within).2) (by simp)
  | config hg hg' =>
    exact ⟨hnew hg.within (hg'.step hdetected) hcfg, hg.keyWritten (.refl f) (hsame hg'.within)⟩
  | @resetting g₁ g₂ _ hg hg' hreset =>
    have hstored : storedConfig P g₂.sector = some cfg := by
      rw [← hcfg]
      exact (storedConfig_congr (hreset.within.sector _ (by simp))
        (hreset.within.sector _ (by simp))).symm
    have hstep := hg'.step (by rw [length_deviceConfig]; norm_num)
    exact ⟨hnew hg.within hstep hstored,
      hg.keyWritten (.refl f) ((hsame hg'.within).trans (.resets hreset))⟩

/-- A session that is off holds no KEK. -/
theorem heldBy_off {pin : Str} {f : Flash}
    (hrecord : ∀ blob, storedKey P f.sector = some blob → ∃ kek seed,
      pinKek P pin.bytes blob.salt DEFAULT_ARGON secret = .ok kek ∧
        unwrapSeed P kek blob = .ok seed) : HeldBy (P := P) secret pin (.off f) :=
  ⟨hrecord, fun _ heq => nomatch heq⟩

theorem KeyCut.keySound {g : Flash} (hcut : KeyCut h c g) (hdetected : RecordsDetected P g)
    (hno : ¬ (h.WipesFor c ∨ ∃ req, c = .factoryReset req))
    (hsound : (KEY.copies P.crc32 h.flash.sector).Sound) : (KEY.copies P.crc32 g.sector).Sound := by
  cases hcut with
  | kept hsame =>
    rw [hsame.copies]
    exact hsound
  | wiping hwipes => exact absurd hwipes hno
  | made hnone hblob hcut => exact sound_step hsound (hcut.keyStep hdetected)
  | rotated hstate hblob hg => exact sound_step hsound (hg.step hdetected)
  | rewrapped hblob hf hg =>
    rcases hg with hg | ⟨g₀, hg, hsame⟩
    · refine sound_step ?_ (hg.step hdetected)
      rw [hf.copies]
      exact hsound
    · exact sound_step hsound (hg.keyWritten hf hsame).step

theorem configSound_cut {e : Halt} (hrun : c.run (h.facing faults) = .error e h')
    (hdetected : RecordsDetected P h'.flash) (hno : ∀ req, c ≠ .factoryReset req)
    (hsound : (CONFIG.copies P.crc32 h.flash.sector).Sound) :
    (CONFIG.copies P.crc32 h'.flash.sector).Sound := by
  by_cases hinit : ∃ req, c = .init req
  · obtain ⟨req, rfl⟩ := hinit
    obtain ⟨-, hg | ⟨seed, blob, -, hcut⟩⟩ := (wp_init_cut req (h.facing faults)).of_error hrun
    · exact sound_step (f := (h.facing faults).flash) hsound (hg.step hdetected)
    · exact hcut.configSound hdetected hsound
  rw [(configCopies_same (fun req heq => hinit ⟨req, heq⟩) hno (h.facing faults)).of_error hrun]
  exact hsound

/-- A request during which the power goes. -/
theorem OwnerInvariant.cut {e : Halt} (hinv : OwnerInvariant secret hist (.on h))
    (hm : Mirrors secret h) (hshape : h.Shaped) (hseals : Sealing P secret) (hnum : h.Numbered c)
    (hc : lineCommand P bytes = some c) (hrun : c.run (h.facing faults) = .error e h')
    (hdetected : RecordsDetected P h'.flash)
    (hno : ¬ (h.WipesFor c ∨ ∃ req, c = .factoryReset req)) :
    OwnerInvariant secret (⟨.line bytes faults, .on h, none, .off h'.flash⟩ :: hist)
      (.off h'.flash) := by
  have hcut := (keyCut_run (h := h.facing faults) hshape).of_error hrun
  have hno' : ¬ ((h.facing faults).WipesFor c ∨ ∃ req, c = .factoryReset req) :=
    fun hwipes => hno (hwipes.imp_left fun hw => hw.of_facing)
  have hreset : ∀ req, c ≠ .factoryReset req := fun req heq => hno (Or.inr ⟨req, heq⟩)
  refine ⟨hcut.keySound hdetected hno' hinv.keySound, configSound_cut hrun hdetected hreset
    hinv.configSound, fun cfg hstored hmode => ?_⟩
  have hgiven := givenPin_cut hc h faults (.off h'.flash)
  by_cases hinit : ∃ req, c = .init req
  · obtain ⟨req, rfl⟩ := hinit
    obtain ⟨hnone, hg | ⟨seed, blob, hblob, hcut⟩⟩ :=
      (wp_init_cut req (h.facing faults)).of_error hrun
    · have hwas : storedConfig P h.flash.sector = none := hm.config.config.symm.trans hnone
      rcases storedConfig_old_or_new (f := (h.facing faults).flash) hinv.configSound
        (hg.step hdetected) with hold | hnew
      · exact absurd (hstored.symm.trans (hold.trans hwas)) (by simp)
      · obtain rfl := Option.some.inj (hstored.symm.trans hnew)
        exact absurd hmode (by simp [devConfig])
    · obtain ⟨rfl, hwritten⟩ := hcut.stored hdetected hinv.configSound
        (hm.config.config.symm.trans hnone) hstored
      have hkey := hwritten.stored hnum.2
      obtain ⟨pin, s, salt, kek, nonce, hpin, hs, hkek, rfl⟩ := hblob
      obtain rfl := hm.secret s hs
      exact ⟨rfl, pin, .given (hgiven.trans hpin),
        heldBy_off (held_of_wrapped (s := .off h'.flash) hseals hkey hkek)⟩
  have hconfig : storedConfig P h'.flash.sector = storedConfig P h.flash.sector := by
    unfold storedConfig AbPair.latest
    rw [(configCopies_same (fun req heq => hinit ⟨req, heq⟩) hreset (h.facing faults)).of_error hrun]
    rfl
  obtain ⟨hargon, pin, howner, hheld⟩ := hinv.owner cfg (hconfig.symm.trans hstored) hmode
  have hcfg : h.config = some cfg := hm.config.config.trans (hconfig.symm.trans hstored)
  have hnothing : c.givenPin h.state none = none := by
    cases c with
    | init req => exact absurd ⟨req, rfl⟩ hinit
    | _ => rfl
  have hkept := OwnerPin.kept (hgiven.trans hnothing) howner
  -- the record is the old one, or one that was wrapped under a KEK of this PIN
  have hold : storedKey P h'.flash.sector = storedKey P h.flash.sector →
      ∃ pin, OwnerPin (⟨.line bytes faults, .on h, none, .off h'.flash⟩ :: hist) pin ∧
        HeldBy (P := P) secret pin (.off h'.flash) := by
    intro hsame
    exact ⟨pin, hkept, heldBy_off fun blob hblob => hheld.record blob (hsame.symm.trans hblob)⟩
  refine ⟨hargon, ?_⟩
  cases hcut with
  | kept hsame => exact hold hsame.storedKey
  | wiping hwipes => exact absurd hwipes hno'
  | made => exact absurd ⟨_, rfl⟩ hinit
  | rotated hstate hblob hg =>
    rcases storedKey_old_or_new (f := (h.facing faults).flash) hinv.keySound (hg.step hdetected) with
      hsame | hnew
    · exact hold hsame
    · obtain ⟨kek, salt, nonce, rfl, hkek⟩ := hheld.rotated hshape hstate hcfg hmode hblob
      exact ⟨pin, hkept, heldBy_off (held_of_wrapped (s := .off h'.flash) hseals hnew hkek)⟩
  | @rewrapped req f _ newKek newSalt blob hblob hf hg =>
    have hstep : Copies.Step (2 ^ 32) (KEY.copies P.crc32 h.flash.sector) (some blob.toBytes)
        (KEY.copies P.crc32 h'.flash.sector) := by
      rcases hg with hg | ⟨g₀, hg, hsame⟩
      · have hstep := hg.step hdetected
        rw [hf.copies] at hstep
        exact hstep
      · exact (hg.keyWritten hf hsame).step
    rcases storedKey_old_or_new hinv.keySound hstep with hsame | hnew
    · exact hold hsame
    · obtain ⟨-, seed, -, -, -, -, cfg', s, pubkey, nonce, hcfg', hs, hpin, -, rfl⟩ := hblob
      obtain rfl := Option.some.inj (hcfg.symm.trans hcfg')
      obtain rfl := hm.secret s hs
      rw [hargon] at hpin
      exact ⟨req.newPin, .cut ⟨h, bytes, faults, rfl, rfl, hc, rfl⟩,
        heldBy_off (held_of_wrapped (s := .off h'.flash) hseals hnew hpin)⟩

end Request

/-! ### Every run -/

section Run

variable {secret : Bytes 32} {hist : List (Moment P)} {s s' : Sys P} {e : Event}
  {resp : Option Response}

/-- A moment in which no management request is served passes the PIN on. -/
theorem OwnerInvariant.pass (hinv : OwnerInvariant secret hist s)
    (hgiven : (⟨e, s, resp, s'⟩ : Moment P).givenPin = none) (hsector : s'.flash.sector = s.flash.sector)
    (hsession : ∀ h', s' = .on h' → h'.state = .prodReady → ∃ h, s = .on h ∧ KekKept h h') :
    OwnerInvariant secret (⟨e, s, resp, s'⟩ :: hist) s' := by
  refine ⟨?_, ?_, fun cfg hstored hmode => ?_⟩
  · rw [hsector]
    exact hinv.keySound
  · rw [hsector]
    exact hinv.configSound
  · rw [hsector] at hstored
    obtain ⟨hargon, pin, howner, hheld⟩ := hinv.owner cfg hstored hmode
    refine ⟨hargon, pin, .kept hgiven howner, ?_, fun h' heq hready => ?_⟩
    · rw [hsector]
      exact hheld.record
    · obtain ⟨h, rfl, hkek⟩ := hsession h' heq hready
      exact hheld.session_kept hkek h' rfl hready

/-- The step lemma. -/
theorem OwnerInvariant.stepped (hinv : OwnerInvariant secret hist s) (hm : MirrorInvariant secret s)
    (hm' : MirrorInvariant secret s') (hshape : ShapeInvariant s) (hseals : Sealing P secret)
    (hstep : Stepped s e resp s') (horderly : (⟨e, s, resp, s'⟩ : Moment P).Orderly secret)
    (hspares : ∀ f, s' = .off f → ¬ (⟨e, s, resp, s'⟩ : Moment P).ErasesKey) :
    OwnerInvariant secret (⟨e, s, resp, s'⟩ :: hist) s' := by
  have hsame : ∀ {h h' : Hsm P}, s = .on h → h'.state = h.state → h'.wrapKek = h.wrapKek →
      h'.wrapSalt = h.wrapSalt → ∃ h, s = .on h ∧ KekKept h h' := fun hon hstate hkek hsalt =>
    ⟨_, hon, fun hready => ⟨hstate.symm.trans hready, hkek, hsalt⟩⟩
  cases hstep with
  | @booted _ p h hboot =>
    have hfaults : Faultless p.faults := by
      rcases horderly.works with hfaults | ⟨-, f, hoff⟩
      · exact hfaults
      · exact nomatch hoff
    have hgiven : (⟨.boot p, s, none, .on h⟩ : Moment P).givenPin = none := by cases s <;> rfl
    refine hinv.pass hgiven (hboot.keys hfaults).sector fun h' heq hready => ?_
    obtain rfl := Sys.on.inj heq
    exact absurd hready hboot.not_ready
  | @bootCut _ p g hcut hg =>
    have hgiven : (⟨.boot p, s, none, .off g⟩ : Moment P).givenPin = none := by cases s <;> rfl
    exact hinv.pass hgiven hg.sector_eq fun h' heq => nomatch heq
  | unpowered => exact hinv.pass rfl rfl fun h' heq => nomatch heq
  | @drew h h' bytes faults resp hc hrun hrng =>
    have hgiven : (⟨.line bytes faults, .on h, some resp, .on h'⟩ : Moment P).givenPin = none := by
      change ((lineCommand P bytes).bind _) = none
      rw [hc]
      rfl
    refine hinv.pass hgiven (by rw [hrng]; rfl) fun h'' heq _ => ?_
    obtain rfl := Sys.on.inj heq
    rw [hrng]
    exact hsame rfl rfl rfl rfl
  | @served h h' bytes faults c resp hc hrun =>
    have hfaults : Faultless faults := by
      rcases horderly.works with hfaults | ⟨-, f, hoff⟩
      · exact hfaults
      · exact nomatch hoff
    have hmove := keyMove_run (hshape h rfl) hfaults hrun
    have hnum := horderly.numbered h bytes faults c rfl rfl hc
    exact ⟨hmove.keySound hinv.keySound, configSound_run hinv.configSound hfaults hrun,
      hinv.served (hm.session h rfl) (hm'.session h' rfl) (hshape h rfl) hseals hnum hc hmove⟩
  | @cut h h' bytes faults c e hc hrun =>
    have hnum := horderly.numbered h bytes faults c rfl rfl hc
    refine hinv.cut (hm.session h rfl) (hshape h rfl) hseals hnum hc hrun (horderly.cut _ rfl).record ?_
    exact fun hwipes => hspares _ rfl ⟨h, bytes, faults, c, rfl, rfl, hc, hwipes⟩
  | @relocked h =>
    refine hinv.pass rfl ?_ fun h' heq hready => ?_
    · change h.relockOnTransportReset.flash.sector = h.flash.sector
      unfold Hsm.relockOnTransportReset
      dsimp only
      split
      · split <;> rfl
      · rfl
    · obtain rfl := Sys.on.inj heq
      exact absurd hready (relock_not_prodReady h)
  | advanced =>
    refine hinv.pass rfl rfl fun h'' heq _ => ?_
    obtain rfl := Sys.on.inj heq
    exact hsame rfl rfl rfl rfl
  | @quiet h e drbg entropy heapFree rebootRequested he =>
    have hgiven : (⟨e, .on h, none, .on { h with drbg, entropy, heapFree, rebootRequested }⟩ :
        Moment P).givenPin = none := by
      rcases he with rfl | ⟨n, rfl⟩ | rfl <;> rfl
    refine hinv.pass hgiven rfl fun h'' heq _ => ?_
    obtain rfl := Sys.on.inj heq
    exact hsame rfl rfl rfl rfl

end Run

/-! ### The owner gets in -/

/-- What the holder of the PIN can do with a production device. -/
structure Reaches (secret : Bytes 32) (pin : Str) (h : Hsm P) (cfg : DeviceConfig) : Prop where
  session : h.state = .prodReady → ∃ kek salt, h.wrapKek = some kek ∧ h.wrapSalt = some salt ∧
    pinKek P pin.bytes salt cfg.argon2 secret = .ok kek
  record : (storedKey P h.flash.sector).isSome → h.flash.deviceSecret = .ok secret →
    ∃ seed kek salt, Opens P h.flash cfg pin seed kek salt ∧ h.caPubkey = some (P.edPublic seed)
  unlock : (storedKey P h.flash.sector).isSome → h.flash.deviceSecret = .ok secret →
    h.state = .prodLocked → ¬ h.Waits → ∀ faults, Faultless faults →
      ∃ seed h', hsmUnlock { pin } (h.facing faults) = .ok (.unlock true) h' ∧
        h'.state = .prodReady ∧ h'.ca = some (CaKey.fromSeed seed) ∧
        h'.caPubkey = some (P.edPublic seed)

namespace Bench

def newPin : Str := ['6', '5', '4', '3', '2', '1']

end Bench

end PicoSignet
