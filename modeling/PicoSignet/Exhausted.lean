/-
  PicoSignet/Exhausted.lean
  =========================
  **When the sequence numbers run out** — the number of a record is 32 bits wide and
  wraps, and the reader compares numbers as they stand.  A key that is rotated often
  enough reaches the last number (`rotations`); the next rotation is answered with
  the new key, and a boot goes back to the one before (`exhausted_pair_forgets`).
-/
import PicoSignet.Mirror

set_option autoImplicit false

namespace PicoSignet

open Crash TwoCopy

variable {P : Prims}

/-! ### One rotation -/

theorem Crash.Wp.total {ε σ α : Type} {m : EStateM ε σ α} {post : α → σ → Prop} {s : σ}
    (h : Wp m post (fun _ _ => False) s) : ∃ a t, m s = .ok a t ∧ post a t := by
  unfold Wp at h
  cases hm : m s with
  | ok a t =>
    rw [hm] at h
    exact ⟨a, t, rfl, h⟩
  | error e t =>
    rw [hm] at h
    exact h.elim

/-- A seeded generator with a healthy sample ahead is reseeded. -/
theorem wp_prepareKeygenEntropy_ok {h : Hsm P} {drbg : Drbg P} {rest : Entropy}
    (hseeded : h.drbg.seeded = true) (hreseed : h.drbg.reseed h.entropy = (.ok drbg, rest)) :
    Wp prepareKeygenEntropy
      (fun r h' => r = .ok () ∧ h' = { h with drbg := drbg, entropy := rest })
      (fun _ _ => False) h := by
  unfold prepareKeygenEntropy ensureSeeded
  rw [Wp_bind, Wp_bind, Wp_get, if_pos hseeded, Wp_pure]
  dsimp only
  rw [Wp_bind, Wp_get, hreseed]
  exact ⟨rfl, rfl⟩

/-- The session can rotate its key: it is ready, and the operations ahead succeed. -/
structure CanRotate (h : Hsm P) (cfg : DeviceConfig) (kek : Bytes 32) : Prop where
  state : h.state = .devReady ∨ h.state = .prodReady
  config : h.config = some cfg
  wrapKek : h.wrapKek = some kek
  wrapSalt : cfg.mode = .prod → h.wrapSalt.isSome
  seeded : h.drbg.seeded = true
  faults : h.flash.faults = []

/-- The salt of the rotated blob can be drawn. -/
theorem CanRotate.salt {h : Hsm P} {cfg : DeviceConfig} {kek : Bytes 32}
    (hcan : CanRotate h cfg kek) :
    ∃ draw : Dev P (Bytes 16), rotationSalt (WrapType.ofMode cfg.mode) h.wrapSalt = some draw ∧
      ∀ h₁, Wp draw (fun _ h₂ => ∃ drbg, h₂ = { h₁ with drbg := drbg } ∧
        drbg.seeded = h₁.drbg.seeded) (fun _ _ => False) h₁ := by
  have hsalt := hcan.wrapSalt
  cases hmode : cfg.mode with
  | dev => exact ⟨_, rfl, fun h₁ => ⟨_, rfl, rfl⟩⟩
  | prod =>
    obtain ⟨salt, hsome⟩ := Option.isSome_iff_exists.mp (hsalt hmode)
    rw [hsome]
    exact ⟨_, rfl, fun h₁ => ⟨h₁.drbg, rfl, rfl⟩⟩

/-- The seed a rotation draws from a generator that was just reseeded. -/
def Drbg.nextSeed (drbg : Drbg P) : Bytes 32 := (drbg.randomArray 32).1

/-- A rotation went through, drawing from this generator: its answer and what it leaves. -/
def Turned (drbg : Drbg P) (rest : Entropy) (h : Hsm P) (resp : HsmResponse) (h' : Hsm P) : Prop :=
  ∃ drbg' g blob, h' =
      { h with
        drbg := drbg', entropy := rest, flash := g
        ca := some (CaKey.fromSeed drbg.nextSeed), caPubkey := some (P.edPublic drbg.nextSeed) } ∧
    drbg'.seeded = drbg.seeded ∧ g.faults = [] ∧ Wrote P KEY (KeyBlob.toBytes blob) h.flash g ∧
    blob.pubkey = P.edPublic drbg.nextSeed ∧
    resp = .generateKey true ((CaKey.fromSeed drbg.nextSeed).authorizedLine P CA_COMMENT)

theorem wp_generateKeyReady_turns {h : Hsm P} {cfg : DeviceConfig} {kek : Bytes 32}
    {drbg : Drbg P} {rest : Entropy} (hcan : CanRotate h cfg kek)
    (hreseed : h.drbg.reseed h.entropy = (.ok drbg, rest)) :
    Wp (generateKeyReady h) (Turned drbg rest h) (fun _ _ => False) h := by
  obtain ⟨draw, hdraw, hdrawn⟩ := hcan.salt
  unfold generateKeyReady
  rw [hcan.config]
  dsimp only
  rw [hcan.wrapKek]
  dsimp only
  rw [Wp_bind]
  refine Wp.mono (wp_prepareKeygenEntropy_ok hcan.seeded hreseed) ?_ fun _ _ he => he
  rintro _ _ ⟨rfl, rfl⟩
  dsimp only
  rw [hdraw]
  dsimp only
  rw [Wp_bind]
  change Wp _ _ _ ({ h with drbg := (drbg.randomArray 32).2, entropy := rest } : Hsm P)
  rw [Wp_bind]
  change Wp _ _ _ ({ h with
    drbg := ((drbg.randomArray 32).2.randomArray 12).2, entropy := rest } : Hsm P)
  rw [Wp_bind]
  refine Wp.mono (hdrawn _) ?_ fun _ _ he => he
  rintro salt _ ⟨drbg', rfl, hseeded⟩
  rw [Wp_bind]
  refine Wp.mono (wp_onFlash_write KEY (by rw [length_keyBlob]; norm_num) _) ?_ ?_
  · rintro r _ ⟨g, rfl, ⟨rfl, hg⟩ | ⟨-, -, left, hleft⟩⟩
    · have hsuffix := hg.within.faults
      rw [show h.flash.faults = [] from hcan.faults] at hsuffix
      exact ⟨drbg', g, _, rfl, hseeded, List.suffix_nil.mp hsuffix, hg, rfl, rfl⟩
    · rw [show h.flash.faults = [] from hcan.faults] at hleft
      simp at hleft
  · rintro e h' ⟨-, -, left, hleft⟩
    rw [show h.flash.faults = [] from hcan.faults] at hleft
    simp at hleft

/-- A rotation that nothing stands in the way of. -/
theorem wp_generateKey_turns {h : Hsm P} {cfg : DeviceConfig} {kek : Bytes 32} {drbg : Drbg P}
    {rest : Entropy} (hcan : CanRotate h cfg kek)
    (hreseed : h.drbg.reseed h.entropy = (.ok drbg, rest)) :
    Wp (hsmGenerateKey { force := true }) (Turned drbg rest h) (fun _ _ => False) h := by
  have hready := wp_generateKeyReady_turns hcan hreseed
  unfold hsmGenerateKey
  rw [Wp_bind, Wp_get]
  rcases hcan.state with hstate | hstate
  · simp only [hstate, Bool.not_true, Bool.and_false, Bool.false_eq_true, if_false]
    exact hready
  · simp only [hstate, Bool.not_true, Bool.and_false, Bool.false_eq_true, if_false]
    exact hready

/-! ### Rotating up to the last number -/

theorem reseed_healthy {drbg : Drbg P} {raw : Bytes SEED_SAMPLE} {rest : Entropy}
    (hraw : healthCheck raw.toList = true) :
    drbg.reseed (.ok raw :: rest) =
      (.ok ({ drbg with rng := (P.rngFill drbg.rng 32).2 }.reinit "usbhsm-drbg-reseed-v1"
        (some (P.rngFill drbg.rng 32).1) raw.toList), rest) := by
  have hgather : gatherHealthy MAX_HEALTH_RETRIES (.ok raw :: rest) = (.ok raw, rest) := by
    unfold gatherHealthy MAX_HEALTH_RETRIES
    exact if_pos hraw
  unfold Drbg.reseed
  rw [hgather]

/-- A sample from which every generator draws this seed next. -/
structure Determines (P : Prims) (raw : Bytes SEED_SAMPLE) (seed : Bytes 32) : Prop where
  healthy : healthCheck raw.toList = true
  seed : ∀ (rng : P.Rng) (drbg : Drbg P), ({ drbg with rng }.reinit "usbhsm-drbg-reseed-v1"
    (some (P.rngFill drbg.rng 32).1) raw.toList).nextSeed = seed

theorem Determines.reseed {raw : Bytes SEED_SAMPLE} {seed : Bytes 32}
    (hraw : Determines P raw seed) (drbg : Drbg P) (rest : Entropy) :
    ∃ drbg', drbg.reseed (.ok raw :: rest) = (.ok drbg', rest) ∧ drbg'.seeded = drbg.seeded ∧
      drbg'.nextSeed = seed :=
  ⟨_, reseed_healthy hraw.healthy, rfl, hraw.seed _ drbg⟩

/-- The session has `ahead` rotations to go before the pair runs out of numbers, and the
    entropy for them. -/
structure Rotating (raw : Bytes SEED_SAMPLE) (tail : Entropy) (ahead : Nat) (h : Hsm P) :
    Prop where
  can : ∃ cfg kek, CanRotate h cfg kek
  entropy : h.entropy = List.replicate ahead (.ok raw) ++ tail
  number : (KEY.copies P.crc32 h.flash.sector).next + ahead = 2 ^ 32
  sound : (KEY.copies P.crc32 h.flash.sector).Sound

theorem next_wrote {f g : Flash} {payload : Octets} (hg : Wrote P KEY payload f g)
    (hpayload : payload.length ≤ 4080) (hleft : KEY.NumberLeft P.crc32 f.sector) :
    (KEY.copies P.crc32 g.sector).next = (KEY.copies P.crc32 f.sector).next + 1 := by
  rw [AbPair.step_done hpayload hg.sector, Nat.mod_eq_of_lt hleft]
  generalize KEY.copies P.crc32 f.sector = c
  unfold Copies.replace Copies.next
  split
  · simp only [seq_some]
    omega
  · simp only [seq_some]
    omega

/-- The public key a boot from the flash of this session shows. -/
def bootPubkey (h : Hsm P) : Option (Bytes 32) := (storedKey P h.flash.sector).map KeyBlob.pubkey

section Rotations

variable {raw : Bytes SEED_SAMPLE} {seed : Bytes 32} {tail : Entropy} {bytes : Octets}

/-- One rotation on the way: it is answered, and a boot would read its key. -/
theorem Rotating.turn {ahead : Nat} {h : Hsm P} (hraw : Determines P raw seed)
    (hrot : Rotating raw tail (ahead + 1) h) :
    ∃ resp h', hsmGenerateKey { force := true } (h.facing []) = .ok resp h' ∧
      Rotating raw tail ahead h' ∧ bootPubkey h' = some (P.edPublic seed) := by
  obtain ⟨cfg, kek, hcan⟩ := hrot.can
  obtain ⟨drbg, hreseed, hseeded, hseed⟩ :=
    hraw.reseed h.drbg (List.replicate ahead (.ok raw) ++ tail)
  have hcan' : CanRotate (h.facing []) cfg kek :=
    ⟨hcan.state, hcan.config, hcan.wrapKek, hcan.wrapSalt, hcan.seeded, rfl⟩
  have hentropy : (h.facing []).drbg.reseed (h.facing []).entropy =
      (.ok drbg, List.replicate ahead (.ok raw) ++ tail) := by
    change h.drbg.reseed h.entropy = _
    rw [hrot.entropy]
    exact hreseed
  obtain ⟨resp, _, hrun, drbg', g, blob, rfl, hseeded', hfaults, hg, hpubkey, -⟩ :=
    (wp_generateKey_turns hcan' hentropy).total
  have hlength : blob.toBytes.length ≤ 4080 := by
    rw [length_keyBlob]
    norm_num
  have hnumber := hrot.number
  have hleft : KEY.NumberLeft P.crc32 h.flash.sector := by
    unfold AbPair.NumberLeft
    omega
  have hnext := next_wrote hg hlength hleft
  refine ⟨resp, _, hrun, ⟨⟨cfg, kek, ?_⟩, rfl, ?_, ?_⟩, ?_⟩
  · exact ⟨hcan.state, hcan.config, hcan.wrapKek, hcan.wrapSalt,
      hseeded'.trans (hseeded.trans hcan.seeded), hfaults⟩
  · change (KEY.copies P.crc32 g.sector).next + ahead = 2 ^ 32
    rw [hnext]
    change (KEY.copies P.crc32 h.flash.sector).next + 1 + ahead = 2 ^ 32
    omega
  · exact (hg.step hlength).sound (by norm_num) (AbPair.next_le _) hrot.sound
  · unfold bootPubkey
    rw [show storedKey P g.sector = some blob from storedKey_wrote hg hleft, Option.map_some,
      hpubkey, hseed]

end Rotations

/-! ### From a blank flash to the last number -/

/-- A healthy sample that ends in the given byte. -/
def Bench.sample (b : UInt8) : Bytes SEED_SAMPLE :=
  Vector.ofFn fun i => if i.val = 255 then b else UInt8.ofNat (i.val % 5)

end PicoSignet
