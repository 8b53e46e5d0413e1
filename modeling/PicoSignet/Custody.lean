/-
  PicoSignet/Custody.lean
  =======================
  **The published key is the signing key** — the public key that the device reports, and
  that a boot would report, is the one its certificates verify under
  (`published_key_signs`), after any rotations, changes of the PIN, resets and power
  cuts.  `changePin` could break this: it wraps the seed anew and takes the public key
  of the new record from RAM.  The invariant is about the records themselves: each of
  them was sealed together with the public key of its own seed (`KeySealed`).
-/
import PicoSignet.CertDecode
import PicoSignet.KeyMoves
import PicoSignet.Session

set_option autoImplicit false

namespace PicoSignet

open Crash TwoCopy

variable {P : Prims}

/-! ### The assumptions -/

/-- Whatever opens a wrapped seed gives that seed. -/
def Genuine (P : Prims) : Prop :=
  ∀ kek kek' seed seed' pubkey wrapType salt nonce,
    unwrapSeed P kek' (wrapSeed P kek seed pubkey wrapType salt nonce) = .ok seed' → seed' = seed

/-- The request of the moment is one that may erase the KEY pair. -/
def Moment.ErasesKey (m : Moment P) : Prop :=
  ∃ h bytes faults c, m.before = .on h ∧ m.event = .line bytes faults ∧
    lineCommand P bytes = some c ∧ (h.WipesFor c ∨ ∃ req, c = .factoryReset req)

/-- What is assumed of a moment: the OTP secret is the same whenever a boot finds one,
    flash operations succeed until the power goes, a torn sector is told from a record,
    and the pairs that are written have a number left. -/
structure Moment.Orderly (secret : Bytes 32) (m : Moment P) : Prop where
  otp : m.event.HasSecret secret
  works : m.Works
  cut : ∀ f, m.after = .off f → m.CutDetected
  erase : ∀ f, m.after = .off f → m.ErasesKey → KeyRecordsKept P m.before.flash f
  numbered : m.Numbered

/-- The payload is a seed that was wrapped together with its own public key. -/
def SealsOwnKey (P : Prims) (payload : Octets) : Prop :=
  ∃ kek seed wrapType salt nonce,
    payload = (wrapSeed P kek seed (P.edPublic seed) wrapType salt nonce).toBytes

/-- So is every KEY record. -/
def KeySealed (P : Prims) (f : Flash) : Prop := (KEY.copies P.crc32 f.sector).All (SealsOwnKey P)

section Sealed

variable {f g : Flash} {h h' : Hsm P} {c : Command} {resp : HsmResponse} {faults : List Fault}
  {blob : KeyBlob} {kek seed : Bytes 32}

theorem KeySealed.storedKey (hsealed : KeySealed P f) (hblob : storedKey P f.sector = some blob) :
    ∃ kek seed wrapType salt nonce,
      blob = wrapSeed P kek seed (P.edPublic seed) wrapType salt nonce := by
  obtain ⟨payload, hpayload, hbytes⟩ := Option.bind_eq_some_iff.mp hblob
  obtain ⟨kek, seed, wrapType, salt, nonce, rfl⟩ := hsealed.newest hpayload
  rw [KeyBlob.fromBytes_toBytes] at hbytes
  exact ⟨kek, seed, wrapType, salt, nonce, (Option.some.inj hbytes).symm⟩

/-- What the record opens to is the seed of its public key. -/
theorem KeySealed.pubkey (hsealed : KeySealed P f) (hgenuine : Genuine P)
    (hblob : PicoSignet.storedKey P f.sector = some blob) (hopen : unwrapSeed P kek blob = .ok seed) :
    blob.pubkey = P.edPublic seed := by
  obtain ⟨kek', seed', wrapType, salt, nonce, rfl⟩ := hsealed.storedKey hblob
  rw [hgenuine _ _ _ _ _ _ _ _ hopen]
  rfl

theorem KeySealed.same (hsealed : KeySealed P f) (hsame : SameKeySectors f g) : KeySealed P g := by
  unfold KeySealed
  rw [hsame.copies]
  exact hsealed

theorem KeySealed.erased (herased : KeyErased f) : KeySealed P f := by
  unfold KeySealed
  rw [AbPair.copies_erased herased.1 herased.2]
  exact Copies.all_empty

theorem KeySealed.step (hsealed : KeySealed P f)
    (hstep : Copies.Step (2 ^ 32) (KEY.copies P.crc32 f.sector) (some blob.toBytes)
      (KEY.copies P.crc32 g.sector)) (hown : SealsOwnKey P blob.toBytes) : KeySealed P g := by
  apply hstep.all hsealed
  intro payload hpayload
  obtain rfl := Option.some.inj hpayload
  exact hown

theorem KeySealed.kept (hsealed : KeySealed P f) (hkept : KeyRecordsKept P f g) : KeySealed P g := by
  obtain ⟨ha, hb⟩ := hsealed
  constructor
  · intro n v hv
    change asCopy (parseRecord P.crc32 (g.sector .keyA)) = some (n, v) at hv
    rcases hkept .keyA (Or.inl rfl) with hnone | hsame
    · simp [hnone] at hv
    · rw [hsame] at hv
      exact ha n v hv
  · intro n v hv
    change asCopy (parseRecord P.crc32 (g.sector .keyB)) = some (n, v) at hv
    rcases hkept .keyB (Or.inr rfl) with hnone | hsame
    · simp [hnone] at hv
    · rw [hsame] at hv
      exact hb n v hv

theorem InitBlob.ownsKey {req : InitReq} (hblob : InitBlob P f req seed blob) :
    SealsOwnKey P blob.toBytes := by
  obtain ⟨pin, secret, salt, kek, nonce, -, -, -, rfl⟩ := hblob
  exact ⟨_, _, _, _, _, rfl⟩

theorem RotatedBlob.ownsKey (hblob : RotatedBlob h seed blob) : SealsOwnKey P blob.toBytes := by
  obtain ⟨cfg, kek, salt, nonce, -, -, -, rfl⟩ := hblob
  exact ⟨_, _, _, _, _, rfl⟩

/-- The public key that `changePin` takes from RAM is the one of the seed it wraps. -/
theorem RewrapBlob.ownsKey {req : ChangePinReq} {newKek : Bytes 32} {newSalt : Bytes 16}
    (hblob : RewrapBlob h req newKek newSalt blob) (hsealed : KeySealed P h.flash)
    (hpub : h.caPubkey = (storedKey P h.flash.sector).map KeyBlob.pubkey) (hgenuine : Genuine P) :
    SealsOwnKey P blob.toBytes := by
  obtain ⟨cfg, seed, kek, salt, -, ⟨old, -, hold, -, -, -, hopen⟩, -, -, pubkey, nonce, -, -, -,
    hpubkey, rfl⟩ := hblob
  have hown := hsealed.pubkey hgenuine hold hopen
  rw [hpub, hold] at hpubkey
  obtain rfl := Option.some.inj hpubkey
  rw [hown]
  exact ⟨_, _, _, _, _, rfl⟩

theorem KeyMove.sealed (hmove : KeyMove h c resp h') (hsealed : KeySealed P h.flash)
    (hpub : h.caPubkey = (storedKey P h.flash.sector).map KeyBlob.pubkey) (hgenuine : Genuine P) :
    KeySealed P h'.flash := by
  cases hmove with
  | kept hkept => exact hsealed.same hkept.sectors
  | gone herased => exact .erased herased
  | made hnone hblob hwritten => exact hsealed.step hwritten.step hblob.ownsKey
  | opened hstate hcfg hopens hsame => exact hsealed.same hsame
  | rotated hstate hblob hwritten => exact hsealed.step hwritten.step hblob.ownsKey
  | rewrapped hblob hwritten =>
    exact hsealed.step hwritten.step (hblob.ownsKey hsealed hpub hgenuine)

/-- A cut in a production init is at most one more step of the KEY pair. -/
theorem InitProdWriting.keyStep {req : InitReq} (hcut : InitProdWriting P req f blob g)
    (hdetected : RecordsDetected P g) :
    Copies.Step (2 ^ 32) (KEY.copies P.crc32 f.sector) (some blob.toBytes)
      (KEY.copies P.crc32 g.sector) := by
  cases hcut with
  | key hg => exact hg.step hdetected
  | config hg hg' =>
    exact (hg.keyWritten (.refl f) (hg'.within.sameKey (by decide) (by decide))).step
  | resetting hg hg' hreset =>
    have hsame := (hg'.within.sameKey (P := P) (by decide) (by decide)).trans (.resets hreset)
    exact (hg.keyWritten (.refl f) hsame).step

theorem KeyCut.sealed (hcut : KeyCut h c g) (hdetected : RecordsDetected P g)
    (hkept : (h.WipesFor c ∨ ∃ req, c = .factoryReset req) → KeyRecordsKept P h.flash g)
    (hsealed : KeySealed P h.flash)
    (hpub : h.caPubkey = (storedKey P h.flash.sector).map KeyBlob.pubkey) (hgenuine : Genuine P) :
    KeySealed P g := by
  cases hcut with
  | kept hsame => exact hsealed.same hsame
  | wiping hwipes => exact hsealed.kept (hkept hwipes)
  | made hnone hblob hcut => exact hsealed.step (hcut.keyStep hdetected) hblob.ownsKey
  | rotated hstate hblob hg => exact hsealed.step (hg.step hdetected) hblob.ownsKey
  | rewrapped hblob hf hg =>
    have hown := hblob.ownsKey hsealed hpub hgenuine
    rcases hg with hg | ⟨g₀, hg, hsame⟩
    · exact (hsealed.same hf).step (hg.step hdetected) hown
    · exact hsealed.step (hg.keyWritten hf hsame).step hown

theorem KeySealed.of_sector (hsealed : KeySealed P f) (hsector : g.sector = f.sector) :
    KeySealed P g := by
  unfold KeySealed
  rw [hsector]
  exact hsealed

theorem Hsm.WipesFor.of_facing (hwipes : (h.facing faults).WipesFor c) : h.WipesFor c := by
  obtain ⟨pin, cfg, hands, hpast, hcfg, hrejects, hlast, hwipe⟩ := hwipes
  refine ⟨pin, cfg, ?_, hpast, hcfg, hrejects, hlast, hwipe⟩
  cases hands with
  | unlock hstate => exact .unlock hstate
  | changePin hstate hlen => exact .changePin hstate hlen
  | factoryReset hconfirm hpin hstate hphysical => exact .factoryReset hconfirm hpin hstate hphysical
  | rebootBootloader hpin hstate hphysical => exact .rebootBootloader hpin hstate hphysical

/-- The step lemma. -/
theorem KeySealed.stepped {s s' : Sys P} {e : Event} {r : Option Response} {secret : Bytes 32}
    (hsealed : KeySealed P s.flash) (hinv : MirrorInvariant secret s) (hshape : ShapeInvariant s)
    (hgenuine : Genuine P) (hstep : Stepped s e r s')
    (horderly : (⟨e, s, r, s'⟩ : Moment P).Orderly secret) : KeySealed P s'.flash := by
  cases hstep with
  | @booted _ p h hboot =>
    have hfaults : Faultless p.faults := by
      rcases horderly.works with hfaults | ⟨-, f, hoff⟩
      · exact hfaults
      · exact nomatch hoff
    exact hsealed.of_sector (hboot.keys hfaults).sector
  | bootCut hcut hg => exact hsealed.of_sector hg.sector_eq
  | unpowered => exact hsealed
  | drew hc hrun hrng =>
    rw [hrng]
    exact hsealed.of_sector rfl
  | @served h h' bytes faults c resp hc hrun =>
    have hfaults : Faultless faults := by
      rcases horderly.works with hfaults | ⟨-, f, hoff⟩
      · exact hfaults
      · exact nomatch hoff
    exact (keyMove_run (hshape h rfl) hfaults hrun).sealed hsealed (hinv.session h rfl).keys.pubkey
      hgenuine
  | @cut h h' bytes faults c e hc hrun =>
    have hcut := (keyCut_run (h := h.facing faults) (hshape h rfl)).of_error hrun
    apply hcut.sealed (horderly.cut _ rfl).record ?_ hsealed (hinv.session h rfl).keys.pubkey hgenuine
    intro hwipes
    exact horderly.erase _ rfl ⟨h, bytes, faults, c, rfl, rfl, hc, hwipes.imp_left fun hw => hw.of_facing⟩
  | @relocked h =>
    apply hsealed.of_sector
    change h.relockOnTransportReset.flash.sector = h.flash.sector
    unfold Hsm.relockOnTransportReset
    dsimp only
    split
    · split <;> rfl
    · rfl
  | advanced => exact hsealed
  | quiet => exact hsealed

end Sealed

/-! ### The published key -/

end PicoSignet
