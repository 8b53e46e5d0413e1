import PicoSignet.Storage
import PicoSignet.TwoCopy

/-!
# What the storage layer does to the flash

`FlashWithin R` is the footprint of a flash program: outside the regions of `R`
nothing changes, wherever the program stops.  `wp_write` is the specification of
`AbPair::write`, and `copies` reads a pair of sectors as two numbered copies, so
that the facts of `TwoCopy` speak about it.
-/

set_option autoImplicit false

namespace PicoSignet

open Crash TwoCopy

/-! ### Footprints -/

/-- The region an entry is about; a tried KEK is about none. -/
def Entry.region : Entry → Option Region
  | .readError r => some r
  | .erase r => some r
  | .program r => some r
  | .record r _ _ _ => some r
  | .wipe => some .keyA
  | .tried _ _ => none

/-- A failed read touches nothing; the other entries need their region in `R`. -/
def Entry.Inside (R : Option Region → Prop) : Entry → Prop
  | .readError _ => True
  | e => R e.region

/-- Only the regions of `R` have changed, and the history has only grown. -/
structure FlashWithin (R : Option Region → Prop) (f f' : Flash) : Prop where
  sector : ∀ r, ¬ R (some r) → f'.sector r = f.sector r
  uniqueId : f'.uniqueId = f.uniqueId
  deviceSecret : f'.deviceSecret = f.deviceSecret
  faults : f'.faults <:+ f.faults
  journal : ∃ seg, f'.journal = seg ++ f.journal ∧ ∀ e ∈ seg, e.Inside R

instance (R : Option Region → Prop) : IsPreorder Flash (FlashWithin R) where
  refl f := ⟨fun _ _ => rfl, rfl, rfl, List.suffix_rfl, [], rfl, by simp⟩
  trans := by
    intro f g h hfg hgh
    obtain ⟨seg, hseg, hin⟩ := hfg.journal
    obtain ⟨seg', hseg', hin'⟩ := hgh.journal
    refine ⟨?_, ?_, ?_, ?_, seg' ++ seg, ?_, ?_⟩
    · intro r hr
      rw [hgh.sector r hr, hfg.sector r hr]
    · rw [hgh.uniqueId, hfg.uniqueId]
    · rw [hgh.deviceSecret, hfg.deviceSecret]
    · exact hgh.faults.trans hfg.faults
    · rw [hseg', hseg, List.append_assoc]
    · intro e he
      rcases List.mem_append.mp he with he | he
      · exact hin' e he
      · exact hin e he

theorem FlashWithin.mono {R R' : Option Region → Prop} (hR : ∀ r, R r → R' r) {f f' : Flash}
    (h : FlashWithin R f f') : FlashWithin R' f f' := by
  obtain ⟨seg, hseg, hin⟩ := h.journal
  refine ⟨fun r hr => h.sector r fun hr' => hr (hR _ hr'), h.uniqueId, h.deviceSecret, h.faults,
    seg, hseg, ?_⟩
  intro e he
  have hinside := hin e he
  cases e with
  | readError r => trivial
  | _ => exact hR _ hinside

theorem FlashWithin.log {R : Option Region → Prop} {e : Entry} (he : e.Inside R) (f : Flash) :
    FlashWithin R f (f.log e) :=
  ⟨fun _ _ => rfl, rfl, rfl, List.suffix_rfl, [e], rfl, by simpa using he⟩

theorem FlashWithin.put {R : Option Region → Prop} {r : Region} (hr : R (some r)) (f : Flash) (s : Sector) :
    FlashWithin R f (f.put r s) := by
  refine ⟨?_, rfl, rfl, List.suffix_rfl, [], rfl, by simp⟩
  intro r' hr'
  have hne : r' ≠ r := by
    rintro rfl
    exact hr' hr
  exact Function.update_of_ne hne _ _

section Footprints

variable {R : Option Region → Prop}

theorem stays_note {e : Entry} (he : e.Inside R) : Stays (FlashWithin R) (note e) :=
  Stays.modify fun f => FlashWithin.log he f

theorem stays_nextFault : Stays (FlashWithin R) nextFault := by
  intro f
  unfold nextFault
  rw [Wp_bind, Wp_get]
  split
  · exact refl_of (FlashWithin R) f
  · rename_i fault rest hfaults
    refine ⟨fun _ _ => rfl, rfl, rfl, ?_, [], rfl, by simp⟩
    rw [hfaults]
    exact List.suffix_cons fault rest

theorem stays_read (r : Region) : Stays (FlashWithin R) (read r) := by
  refine Stays.bind stays_nextFault fun fault => ?_
  cases fault with
  | none => exact Stays.bind Stays.get fun f => Stays.pure _
  | fail left => exact Stays.bind (stays_note trivial) fun _ => Stays.throw _
  | cut left => exact Stays.throw _

theorem stays_put {r : Region} (hr : R (some r)) (s : Flash → Sector) :
    Stays (FlashWithin R) (modify fun f => f.put r (s f) : FlashM PUnit) :=
  Stays.modify fun f => FlashWithin.put hr f (s f)

theorem stays_erase {r : Region} (hr : R (some r)) : Stays (FlashWithin R) (erase r) := by
  refine Stays.bind (stays_note hr) fun _ => Stays.bind stays_nextFault fun fault => ?_
  cases fault with
  | none => exact stays_put hr _
  | fail left => exact Stays.bind (stays_put hr _) fun _ => Stays.throw _
  | cut left => exact Stays.bind (stays_put hr _) fun _ => Stays.throw _

theorem stays_program {r : Region} (hr : R (some r)) (off : Nat) (page : Octets) :
    Stays (FlashWithin R) (program r off page) := by
  refine Stays.ite (Stays.throw _) ?_
  refine Stays.bind (stays_note hr) fun _ => Stays.bind stays_nextFault fun fault => ?_
  cases fault with
  | none => exact stays_put hr _
  | fail mask => exact Stays.bind (stays_put hr _) fun _ => Stays.throw _
  | cut mask => exact Stays.bind (stays_put hr _) fun _ => Stays.throw _

theorem stays_programPages {r : Region} (hr : R (some r)) (image : Sector) (count p : Nat) :
    Stays (FlashWithin R) (programPages r image count p) := by
  induction count generalizing p with
  | zero => exact Stays.pure _
  | succ count ih => exact Stays.bind (stays_program hr _ _) fun _ => ih (p + 1)

variable (crc : Octets → UInt32)

theorem stays_writeRecord {r : Region} (hr : R (some r)) (seq : UInt32) (payload : Octets) :
    Stays (FlashWithin R) (writeRecord crc r seq payload) := by
  refine Stays.ite (Stays.throw _) ?_
  refine Stays.bind Stays.get fun f => ?_
  refine Stays.bind (stays_note hr) fun _ => Stays.bind (stays_erase hr) fun _ => ?_
  exact stays_programPages hr _ _ _

theorem stays_readRecord (r : Region) : Stays (FlashWithin R) (readRecord crc r) :=
  Stays.bind (stays_read r) fun _ => Stays.pure _

theorem stays_readRecordState (r : Region) : Stays (FlashWithin R) (readRecordState crc r) :=
  Stays.bind (stays_read r) fun _ => Stays.pure _

theorem stays_readLatest (pair : AbPair) : Stays (FlashWithin R) (pair.readLatest crc) :=
  Stays.bind (stays_readRecord crc _) fun _ =>
    Stays.bind (stays_readRecord crc _) fun _ => Stays.pure _

theorem stays_readLatestFailClosed (pair : AbPair) :
    Stays (FlashWithin R) (pair.readLatestFailClosed crc) := by
  refine Stays.bind (stays_readRecordState crc _) fun ra => ?_
  refine Stays.bind (stays_readRecordState crc _) fun rb => ?_
  cases latestFailClosed ra rb with
  | none => exact Stays.throw _
  | some payload => exact Stays.pure _

theorem stays_write {pair : AbPair} (ha : R (some pair.a)) (hb : R (some pair.b)) (payload : Octets) :
    Stays (FlashWithin R) (pair.write crc payload) := by
  refine Stays.bind (stays_readRecord crc _) fun ra => ?_
  refine Stays.bind (stays_readRecord crc _) fun rb => ?_
  refine stays_writeRecord crc ?_ _ _
  unfold AbPair.target
  split
  · exact ha
  · exact hb

theorem stays_eraseBoth {pair : AbPair} (ha : R (some pair.a)) (hb : R (some pair.b)) :
    Stays (FlashWithin R) pair.eraseBoth :=
  Stays.bind (stays_erase ha) fun _ => stays_erase hb

end Footprints

/-! ### Record images -/

/-- A field of a laid-out sector reads back as it was written. -/
theorem Sector.slice_field (pre field post : Octets) {bytes : Octets} {off n : Nat}
    (hsplit : bytes = pre ++ (field ++ post)) (hoff : pre.length = off) (hn : field.length = n)
    (hlen : bytes.length ≤ SECTOR_LEN) : (Sector.ofOctets bytes).slice off n = field := by
  subst hsplit hoff hn
  rw [Sector.slice_ofOctets (by simp) hlen]
  simp

theorem length_recordBody (seq : UInt32) (payload : Octets) :
    (recordBody seq payload).length = HEADER + payload.length := by
  simp [recordBody, MAGIC, HEADER]
  omega

section Images

variable (crc : Octets → UInt32)

/-- Every payload of up to 4080 bytes fits, and parses back from its image. -/
theorem parseRecord_recordImage (seq : UInt32) {payload : Octets}
    (hpayload : payload.length ≤ 4080) :
    parseRecord crc (recordImage crc seq payload) = some (seq, payload) := by
  set sum := beBytes 4 (crc (recordBody seq payload)).toNat with hsum
  have hlen : (recordBody seq payload ++ sum).length ≤ SECTOR_LEN := by
    rw [List.length_append, length_recordBody, hsum, length_beBytes]
    simp only [HEADER, SECTOR_LEN]
    omega
  have himage : recordImage crc seq payload = Sector.ofOctets (recordBody seq payload ++ sum) := rfl
  -- each field, with what stands before and behind it
  have hmagic : (recordImage crc seq payload).slice 0 4 = MAGIC :=
    Sector.slice_field [] MAGIC _ (by simp [recordBody]; rfl) rfl rfl hlen
  have hversion : (recordImage crc seq payload).slice 4 2 = beBytes 2 VERSION :=
    Sector.slice_field MAGIC (beBytes 2 VERSION) _ (by simp [recordBody]; rfl) rfl (by simp) hlen
  have hseq : (recordImage crc seq payload).slice 6 4 = beBytes 4 seq.toNat :=
    Sector.slice_field (MAGIC ++ beBytes 2 VERSION) (beBytes 4 seq.toNat) _
      (by simp [recordBody]; rfl) rfl (by simp) hlen
  have hlength : (recordImage crc seq payload).slice 10 2 = beBytes 2 payload.length :=
    Sector.slice_field (MAGIC ++ beBytes 2 VERSION ++ beBytes 4 seq.toNat)
      (beBytes 2 payload.length) _ (by simp [recordBody]; rfl) rfl (by simp) hlen
  have hdata : (recordImage crc seq payload).slice HEADER payload.length = payload :=
    Sector.slice_field (MAGIC ++ beBytes 2 VERSION ++ beBytes 4 seq.toNat ++
      beBytes 2 payload.length) payload sum (by simp [recordBody]; rfl) (by simp [MAGIC, HEADER])
      rfl hlen
  have hbody : (recordImage crc seq payload).slice 0 (HEADER + payload.length) =
      recordBody seq payload :=
    Sector.slice_field [] (recordBody seq payload) sum rfl rfl (length_recordBody _ _) hlen
  have hcrc : (recordImage crc seq payload).slice (HEADER + payload.length) 4 = sum :=
    Sector.slice_field (recordBody seq payload) sum [] (by simp; rfl) (length_recordBody _ _)
      (by simp [hsum]) hlen
  have hseqNat : beNat (beBytes 4 seq.toNat) = seq.toNat := by
    rw [beNat_beBytes, Nat.mod_eq_of_lt (by simpa using seq.toNat_lt)]
  have hlenNat : beNat (beBytes 2 payload.length) = payload.length := by
    rw [beNat_beBytes, Nat.mod_eq_of_lt (by omega)]
  have hcrcNat : beNat sum = (crc (recordBody seq payload)).toNat := by
    rw [hsum, beNat_beBytes, Nat.mod_eq_of_lt (by simpa using UInt32.toNat_lt _)]
  have hfits : ¬ HEADER + payload.length + 4 > SECTOR_LEN := by
    simp only [HEADER, SECTOR_LEN]
    omega
  unfold parseRecord
  rw [hmagic, hversion, hseq, hlength, hseqNat, hlenNat]
  dsimp only
  rw [hbody, hcrc, hcrcNat, hdata]
  simp [hfits, beNat_beBytes, VERSION]

theorem parseRecord_erased : parseRecord crc Sector.erased = none := by
  have hmagic : Sector.erased.slice 0 4 ≠ MAGIC := by decide
  unfold parseRecord
  rw [if_pos hmagic]

end Images

/-! ### What a flash operation that returns has done -/

/-- The fault that explains why an operation stopped. -/
def Stop.Justified (faults : List Fault) : Stop → Prop
  | .hal _ => ∃ left, Fault.fail left ∈ faults
  | .powerLoss => ∃ left, Fault.cut left ∈ faults

/-- The program returns into `post`, or stops because of a pending fault. -/
def Runs {α : Type} (m : FlashM α) (f : Flash) (post : α → Flash → Prop) : Prop :=
  Wp m (fun a g => post a g ∧ g.faults <:+ f.faults) (fun e _ => e.Justified f.faults) f

theorem Stop.Justified.mono {faults faults' : List Fault} (h : faults <:+ faults') {e : Stop}
    (he : e.Justified faults) : e.Justified faults' := by
  cases e with
  | hal e =>
    obtain ⟨left, hleft⟩ := he
    exact ⟨left, h.subset hleft⟩
  | powerLoss =>
    obtain ⟨left, hleft⟩ := he
    exact ⟨left, h.subset hleft⟩

theorem Runs.bind {α β : Type} {m : FlashM α} {k : α → FlashM β} {f : Flash}
    {post : α → Flash → Prop} {post' : β → Flash → Prop} (hm : Runs m f post)
    (hk : ∀ a g, post a g → Runs (k a) g post') : Runs (m >>= k) f post' := by
  unfold Runs
  rw [Wp_bind]
  refine Wp.mono hm ?_ fun _ _ he => he
  rintro a g ⟨hpost, hfaults⟩
  refine (hk a g hpost).mono ?_ fun e _ he => he.mono hfaults
  rintro b g' ⟨hpost', hfaults'⟩
  exact ⟨hpost', hfaults'.trans hfaults⟩

theorem Runs.mono {α : Type} {m : FlashM α} {f : Flash} {post post' : α → Flash → Prop}
    (h : Runs m f post) (hpost : ∀ a g, post a g → post' a g) : Runs m f post' :=
  Wp.mono h (fun a g hg => ⟨hpost a g hg.1, hg.2⟩) fun _ _ he => he

theorem Runs.pure {α : Type} {f : Flash} {post : α → Flash → Prop} {a : α} (h : post a f) :
    Runs (Pure.pure a) f post := ⟨h, List.suffix_rfl⟩

theorem Runs.of_ok {α : Type} {m : FlashM α} {f g : Flash} {post : α → Flash → Prop} {a : α}
    (h : Runs m f post) (hm : m f = .ok a g) : post a g := (Wp.of_ok h hm).1

/-- With no fault pending the program returns. -/
theorem Runs.total {α : Type} {m : FlashM α} {f : Flash} {post : α → Flash → Prop}
    (h : Runs m f post) (hfaults : f.faults = []) : ∃ a g, m f = .ok a g ∧ post a g := by
  cases hm : m f with
  | ok a g => exact ⟨a, g, rfl, h.of_ok hm⟩
  | error e g =>
    have he := Wp.of_error h hm
    rw [hfaults] at he
    cases e with
    | hal e =>
      obtain ⟨left, hleft⟩ := he
      exact absurd hleft (by simp)
    | powerLoss =>
      obtain ⟨left, hleft⟩ := he
      exact absurd hleft (by simp)

theorem runs_note (e : Entry) (f : Flash) : Runs (note e) f fun _ g => g = f.log e :=
  ⟨rfl, List.suffix_rfl⟩

theorem runs_read (r : Region) (f : Flash) :
    Runs (read r) f fun s g => s = f.sector r ∧ g.sector = f.sector := by
  unfold Runs read nextFault
  simp only [Wp_bind, Wp_get]
  cases hfaults : f.faults with
  | nil => exact ⟨⟨rfl, rfl⟩, by simp [hfaults]⟩
  | cons fault rest =>
    cases fault with
    | none => exact ⟨⟨rfl, rfl⟩, List.suffix_cons _ _⟩
    | fail left => exact ⟨left, List.mem_cons_self⟩
    | cut left => exact ⟨left, List.mem_cons_self⟩

theorem runs_erase (r : Region) (f : Flash) :
    Runs (erase r) f fun _ g => g.sector = Function.update f.sector r Sector.erased := by
  unfold Runs erase nextFault note
  simp only [Wp_bind, Wp_get, Wp_modify]
  cases hfaults : (f.log (.erase r)).faults with
  | nil => exact ⟨rfl, by simp [Flash.put, hfaults]⟩
  | cons fault rest =>
    have hf : f.faults = fault :: rest := hfaults
    rw [hf]
    cases fault with
    | none => exact ⟨rfl, List.suffix_cons _ _⟩
    | fail left => exact ⟨left, List.mem_cons_self⟩
    | cut left => exact ⟨left, List.mem_cons_self⟩

theorem runs_program (r : Region) {off : Nat} {page : Octets} (f : Flash)
    (hfits : off + page.length ≤ SECTOR_LEN) :
    Runs (program r off page) f fun _ g =>
      g.sector = Function.update f.sector r ((f.sector r).program off page) := by
  unfold Runs program nextFault note
  rw [if_neg (by omega)]
  simp only [Wp_bind, Wp_get, Wp_modify]
  cases hfaults : (f.log (.program r)).faults with
  | nil => exact ⟨rfl, by simp [Flash.put, hfaults]⟩
  | cons fault rest =>
    have hf : f.faults = fault :: rest := hfaults
    rw [hf]
    cases fault with
    | none => exact ⟨rfl, List.suffix_cons _ _⟩
    | fail mask => exact ⟨mask, List.mem_cons_self⟩
    | cut mask => exact ⟨mask, List.mem_cons_self⟩

/-! ### Paged programming -/

/-- `image` ANDed over the bytes from `lo` to `hi`. -/
def Sector.overlay (s image : Sector) (lo hi : Nat) : Sector := fun i =>
  if lo ≤ i.val ∧ i.val < hi then s i &&& image i else s i

theorem Sector.program_slice (s image : Sector) (p : Nat) :
    s.program (p * PAGE_LEN) (image.slice (p * PAGE_LEN) PAGE_LEN) =
      s.overlay image (p * PAGE_LEN) ((p + 1) * PAGE_LEN) := by
  funext i
  unfold Sector.program Sector.overlay
  rw [Sector.length_slice]
  have hend : p * PAGE_LEN + PAGE_LEN = (p + 1) * PAGE_LEN := by ring
  rw [hend]
  split
  · rename_i hi
    congr 1
    unfold Sector.slice
    rw [List.getD_eq_getElem _ _ (by simp; omega)]
    simp only [List.getElem_map, List.getElem_range]
    have hidx : p * PAGE_LEN + (i.val - p * PAGE_LEN) = i.val := by omega
    rw [hidx, Sector.get_of_lt image i.isLt]
  · rfl

theorem Sector.overlay_overlay (s image : Sector) {lo mid hi : Nat} (hlo : lo ≤ mid)
    (hhi : mid ≤ hi) : (s.overlay image lo mid).overlay image mid hi = s.overlay image lo hi := by
  funext i
  unfold Sector.overlay
  by_cases hmid : i.val < mid
  · rw [if_neg (by omega)]
    by_cases hi' : lo ≤ i.val
    · rw [if_pos (by omega), if_pos (by omega)]
    · rw [if_neg (by omega), if_neg (by omega)]
  · by_cases hi' : i.val < hi
    · rw [if_pos (by omega), if_neg (by omega), if_pos (by omega)]
    · rw [if_neg (by omega), if_neg (by omega), if_neg (by omega)]

theorem runs_programPages (r : Region) (image : Sector) (count p : Nat) (f : Flash)
    (hfits : (p + count) * PAGE_LEN ≤ SECTOR_LEN) :
    Runs (programPages r image count p) f fun _ g =>
      g.sector = Function.update f.sector r
        ((f.sector r).overlay image (p * PAGE_LEN) ((p + count) * PAGE_LEN)) := by
  induction count generalizing p f with
  | zero =>
    refine Runs.pure ?_
    have hnone : (f.sector r).overlay image (p * PAGE_LEN) ((p + 0) * PAGE_LEN) = f.sector r := by
      funext i
      rw [Nat.add_zero]
      exact if_neg (by omega)
    rw [hnone, Function.update_eq_self]
  | succ count ih =>
    have hpage : (p + 1) * PAGE_LEN ≤ SECTOR_LEN :=
      le_trans (Nat.mul_le_mul_right _ (by omega)) hfits
    have hslice : p * PAGE_LEN + (image.slice (p * PAGE_LEN) PAGE_LEN).length ≤ SECTOR_LEN := by
      rw [Sector.length_slice, ← Nat.succ_mul]
      exact hpage
    refine (runs_program r f hslice).bind ?_
    intro _ g hg
    have hcount : p + 1 + count = p + (count + 1) := by omega
    have hrest : (p + 1 + count) * PAGE_LEN ≤ SECTOR_LEN := by
      simpa only [hcount] using hfits
    refine (ih (p + 1) g hrest).mono ?_
    intro _ g' hg'
    rw [hg', hg, Function.update_self, Function.update_idem, Sector.program_slice,
      Sector.overlay_overlay _ _ (Nat.mul_le_mul_right _ (by omega))
        (Nat.mul_le_mul_right _ (by omega)), hcount]

theorem le_divCeil_mul (n : Nat) : n ≤ divCeil n PAGE_LEN * PAGE_LEN := by
  unfold divCeil PAGE_LEN
  omega

/-- Behind the CRC the image is erased, so programming its pages is enough. -/
theorem overlay_recordImage (crc : Octets → UInt32) (seq : UInt32) (payload : Octets) {hi : Nat}
    (hhi : HEADER + payload.length + 4 ≤ hi) :
    Sector.erased.overlay (recordImage crc seq payload) 0 hi = recordImage crc seq payload := by
  funext i
  unfold Sector.overlay
  split
  · exact ff_and _
  · rename_i hi'
    unfold recordImage Sector.ofOctets Sector.erased
    rw [List.getD_eq_default]
    rw [List.length_append, length_recordBody, length_beBytes]
    omega

theorem runs_writeRecord (crc : Octets → UInt32) (r : Region) (seq : UInt32) {payload : Octets}
    (f : Flash) (hpayload : payload.length ≤ 4080) :
    Runs (writeRecord crc r seq payload) f fun _ g =>
      g.sector = Function.update f.sector r (recordImage crc seq payload) := by
  unfold writeRecord
  rw [if_neg (by simp only [HEADER, SECTOR_LEN]; omega)]
  have hget : Runs (get : FlashM Flash) f fun a g => a = f ∧ g = f :=
    ⟨⟨rfl, rfl⟩, List.suffix_rfl⟩
  refine hget.bind ?_
  rintro _ _ ⟨rfl, rfl⟩
  refine (runs_note _ _).bind ?_
  rintro _ g rfl
  refine (runs_erase r _).bind ?_
  intro _ g hg
  have hfits : (0 + divCeil (HEADER + payload.length + 4) PAGE_LEN) * PAGE_LEN ≤ SECTOR_LEN := by
    unfold divCeil PAGE_LEN HEADER SECTOR_LEN
    omega
  refine (runs_programPages r _ _ 0 g hfits).mono ?_
  intro _ g' hg'
  rw [hg', hg, Function.update_self, Function.update_idem, Nat.zero_mul,
    overlay_recordImage crc seq payload (by rw [Nat.zero_add]; exact le_divCeil_mul _)]
  rfl

/-! ### Payloads -/

/-- An array laid out behind a prefix is read back from there. -/
theorem sliceArray_append {n : Nat} (before : Octets) (v : Bytes n) (after : Octets) (off : Nat)
    (hoff : before.length = off) : sliceArray (before ++ (v.toList ++ after)) off n = v := by
  subst hoff
  apply Vector.ext
  intro i hi
  unfold sliceArray
  rw [Vector.getElem_ofFn, List.getD_append_right _ _ _ _ (by simp), Nat.add_sub_cancel_left,
    List.getD_append _ _ _ _ (by simpa using hi), List.getD_eq_getElem _ _ (by simpa using hi)]
  simp

theorem ofNat_beNat_beBytes (v : UInt32) : UInt32.ofNat (beNat (beBytes 4 v.toNat)) = v := by
  have hlt : v.toNat < 256 ^ 4 := v.toNat_lt
  rw [beNat_beBytes, Nat.mod_eq_of_lt hlt]
  exact UInt32.ofNat_toNat

theorem exists_beBytes_four (n : Nat) : ∃ a b c d, beBytes 4 n = [a, b, c, d] :=
  ⟨_, _, _, _, rfl⟩

@[simp] theorem DeviceConfig.fromBytes_toBytes (c : DeviceConfig) :
    DeviceConfig.fromBytes c.toBytes = some c := by
  obtain ⟨mode, ⟨mCost, tCost, parallelism⟩, maxRetries, wipeOnLockout, fwVersion⟩ := c
  have hm := ofNat_beNat_beBytes mCost
  have ht := ofNat_beNat_beBytes tCost
  obtain ⟨m₀, m₁, m₂, m₃, hmBytes⟩ := exists_beBytes_four mCost.toNat
  obtain ⟨t₀, t₁, t₂, t₃, htBytes⟩ := exists_beBytes_four tCost.toNat
  rw [hmBytes] at hm
  rw [htBytes] at ht
  have hfw : ∀ mode wipe : UInt8, sliceArray
      ([mode, m₀, m₁, m₂, m₃, t₀, t₁, t₂, t₃, parallelism, maxRetries, wipe] ++
        (fwVersion.toList ++ [])) 12 3 = fwVersion :=
    fun mode wipe => sliceArray_append _ fwVersion [] 12 rfl
  simp only [List.append_nil, List.cons_append, List.nil_append] at hfw
  unfold DeviceConfig.fromBytes DeviceConfig.toBytes
  simp only [hmBytes, htBytes, List.cons_append, List.nil_append]
  rw [if_neg (by simp)]
  cases mode <;> cases wipeOnLockout <;> simp [hm, ht, hfw]

@[simp] theorem KeyBlob.fromBytes_toBytes (k : KeyBlob) : KeyBlob.fromBytes k.toBytes = some k := by
  obtain ⟨wrapType, aeadNonce, pubkey, ciphertext, tag, salt⟩ := k
  have hnonce := sliceArray_append [wrapType.toByte] aeadNonce
    (pubkey.toList ++ (ciphertext.toList ++ (tag.toList ++ salt.toList))) 1 rfl
  have hpubkey := sliceArray_append (wrapType.toByte :: aeadNonce.toList) pubkey
    (ciphertext.toList ++ (tag.toList ++ salt.toList)) 13 (by simp)
  have hcipher := sliceArray_append (wrapType.toByte :: (aeadNonce.toList ++ pubkey.toList))
    ciphertext (tag.toList ++ salt.toList) 45 (by simp)
  have htag := sliceArray_append
    (wrapType.toByte :: (aeadNonce.toList ++ (pubkey.toList ++ ciphertext.toList))) tag salt.toList
    77 (by simp)
  have hsalt := sliceArray_append (wrapType.toByte ::
    (aeadNonce.toList ++ (pubkey.toList ++ (ciphertext.toList ++ tag.toList)))) salt []
    93 (by simp)
  simp only [List.cons_append, List.nil_append, List.append_assoc, List.append_nil]
    at hnonce hpubkey hcipher htag hsalt
  unfold KeyBlob.fromBytes KeyBlob.toBytes
  rw [if_neg (by simp)]
  simp only [List.append_assoc, hnonce, hpubkey, hcipher, htag, hsalt]
  cases wrapType <;> rfl

end PicoSignet
