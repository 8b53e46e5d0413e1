/-
  PicoSignet/Firewall.lean
  ========================
  **What the firewall lets through.**  A line passes exactly when it is one object, no
  key of it reads as `hsm` in any letter case, and no signer variant occurs twice
  (`signerLine_eq_ok_iff`); what goes to the device then is the object of the variants
  alone.  The device fills a request by key (`Readers.fill`), so the rebuilt line gives
  it the request the client's line would have given, and never an `hsm` command.
-/
import PicoSignet.Bridge
import PicoSignet.Commands
import PicoSignet.LineIo

set_option autoImplicit false

namespace PicoSignet

open Json

variable {P : Prims}

/-! ### Members -/

/-- The members of an object, keys decoded. -/
abbrev Members := List (List Char × List Token)

/-- The values under a key. -/
def values (ms : Members) (name : List Char) : List (List Token) :=
  (ms.filter fun m => m.1 = name).map Prod.snd

/-- `SignerLine`'s loop, over members that are already cut apart. -/
def keep (kept : Kept) : Members → Except LineError Kept
  | [] => .ok kept
  | (key, v) :: ms =>
    if foldsToHsm key then .error .management
    else
      match signerVariant key with
      | none => keep kept ms
      | some k =>
        if (kept k).isSome then .error (.duplicate k)
        else keep (Function.update kept k (some v)) ms

theorem SignerVariant.name_injective {k k' : SignerVariant} (h : k.name = k'.name) : k = k' := by
  revert h
  cases k <;> cases k' <;> decide

theorem signerVariant_name (k : SignerVariant) : signerVariant k.name = some k := by
  cases k <;> decide

theorem signerVariant_eq_some {key : List Char} {k : SignerVariant}
    (h : signerVariant key = some k) : key = k.name := by
  have hname := List.find?_some h
  simpa using Eq.symm (of_decide_eq_true hname)

theorem name_ne_of_signerVariant {key : List Char} (h : signerVariant key = none)
    (k : SignerVariant) : key ≠ k.name := by
  rintro rfl
  rw [signerVariant_name] at h
  cases h

theorem SignerVariant.foldsToHsm_name (k : SignerVariant) : foldsToHsm k.name = false := by
  cases k <;> decide

/-- What the loop accepts, and what it keeps then. -/
theorem keep_eq_ok_iff {kept kept' : Kept} {ms : Members} :
    keep kept ms = .ok kept' ↔
      (∀ m ∈ ms, foldsToHsm m.1 = false) ∧
        ∀ k, (kept k).toList ++ values ms k.name = (kept' k).toList := by
  induction ms generalizing kept with
  | nil =>
    constructor
    · intro h
      cases h
      simp [values]
    · rintro ⟨-, h⟩
      have hkept : kept = kept' := by
        funext k
        have hk : (kept k).toList = (kept' k).toList := by simpa [values] using h k
        cases hl : kept k <;> cases hr : kept' k <;> simp_all
      rw [keep, hkept]
  | cons m ms ih =>
    obtain ⟨key, v⟩ := m
    rw [keep, List.forall_mem_cons]
    cases hfold : foldsToHsm key with
    | true => simp
    | false =>
      cases hkey : signerVariant key with
      | none =>
        have hvalues : ∀ k : SignerVariant, values ((key, v) :: ms) k.name = values ms k.name := by
          intro k
          simp [values, name_ne_of_signerVariant hkey k]
        simp [hvalues, ih]
      | some k₀ =>
        obtain rfl := signerVariant_eq_some hkey
        have hhere : values ((k₀.name, v) :: ms) k₀.name = v :: values ms k₀.name := by
          simp [values]
        have hother : ∀ k, k ≠ k₀ → values ((k₀.name, v) :: ms) k.name = values ms k.name := by
          intro k hk
          have hname : k₀.name ≠ k.name := fun h => hk (SignerVariant.name_injective h).symm
          simp [values, hname]
        dsimp only
        cases hkept : kept k₀ with
        | some v₀ =>
          simp only [Bool.false_eq_true, if_false, Option.isSome_some, if_true, true_and]
          constructor
          · intro h
            cases h
          · rintro ⟨-, h⟩
            have htwo := h k₀
            rw [hkept, hhere] at htwo
            cases hkept' : kept' k₀ <;> simp [hkept'] at htwo
        | none =>
          simp only [Bool.false_eq_true, if_false, Option.isSome_none, true_and]
          rw [ih]
          apply and_congr_right
          intro _
          apply forall_congr'
          intro k
          by_cases hk : k = k₀
          · subst hk
            rw [Function.update_self, hkept, hhere]
            rfl
          · rw [Function.update_of_ne hk, hother k hk]

/-! ### The loop over tokens -/

/-- A member at the head of the tokens, behind a comma unless it is the first. -/
inductive Leads (first : Bool) (ts : List Token) (key : List Char) (v rest : List Token) : Prop
  | member (raw : Octets) (more : List Token)
      (start : nextMember first ts = some (.atom .string raw :: .punct .colon :: more))
      (decoded : unquote raw = key) (value : takeValue more = some (v, rest))

theorem membersUpTo_eq_some {fuel : Nat} {first : Bool} {ts : List Token} {ms : Members}
    (h : membersUpTo (fuel + 1) first ts = some ms) :
    ts = [.punct .rbrace] ∧ ms = [] ∨
      ∃ key v rest ms', Leads first ts key v rest ∧ membersUpTo fuel false rest = some ms' ∧
        ms = (key, v) :: ms' := by
  rw [membersUpTo] at h
  split at h
  · rename_i hend
    cases h
    exact Or.inl ⟨hend, rfl⟩
  split at h
  · rename_i raw more hstart
    split at h
    · cases h
    rename_i v rest hv
    split at h
    · cases h
    rename_i ms' hrest
    cases h
    exact Or.inr ⟨_, v, rest, ms', .member raw more hstart rfl hv, hrest, rfl⟩
  · cases h

theorem Leads.membersUpTo {fuel : Nat} {first : Bool} {ts rest v : List Token} {key : List Char}
    {ms : Members} (h : Leads first ts key v rest) (hrest : membersUpTo fuel false rest = some ms) :
    Json.membersUpTo (fuel + 1) first ts = some ((key, v) :: ms) := by
  obtain ⟨raw, more, hstart, rfl, hv⟩ := h
  obtain ⟨rfl, -⟩ := takeValue_append hv
  exact membersUpTo_step hstart hv hrest

theorem more_of_nextMember {first : Bool} {ts more : List Token} {raw : Octets}
    (h : nextMember first ts = some (.atom .string raw :: more)) : PicoSignet.more ts = true := by
  cases first with
  | true =>
    cases h
    rfl
  | false =>
    simp only [nextMember, Bool.false_eq_true, if_false] at h
    split at h
    · rfl
    · cases h

/-- What the loop does with a member. -/
theorem Leads.keepMembers {fuel : Nat} {first : Bool} {kept : Kept} {ts rest v : List Token}
    {key : List Char} (h : Leads first ts key v rest) :
    keepMembers (fuel + 1) first kept ts =
      if foldsToHsm key then .error .management
      else
        match signerVariant key with
        | none => PicoSignet.keepMembers fuel false kept rest
        | some k =>
          if (kept k).isSome then .error (.duplicate k)
          else PicoSignet.keepMembers fuel false (Function.update kept k (some v)) rest := by
  obtain ⟨raw, more, hstart, rfl, hv⟩ := h
  rw [PicoSignet.keepMembers, if_neg (by simp [more_of_nextMember hstart]), hstart]
  dsimp only
  rw [hv]
  split
  · rfl
  · cases signerVariant (unquote raw) with
    | none => rfl
    | some k =>
      cases hk : (kept k).isSome <;> simp [Option.filter, hk]

theorem leads_of_keepMembers {fuel : Nat} {first : Bool} {kept kept' : Kept} {ts : List Token}
    (h : keepMembers (fuel + 1) first kept ts = .ok (kept', [.punct .rbrace])) :
    ts = [.punct .rbrace] ∧ kept = kept' ∨ ∃ key v rest, Leads first ts key v rest := by
  rw [keepMembers] at h
  split at h
  · cases h
    exact Or.inl ⟨rfl, rfl⟩
  split at h
  · rename_i raw _ hstart
    split at h
    · cases h
    split at h
    · cases h
    split at h
    · split at h
      · cases h
      rename_i v rest hv
      exact Or.inr ⟨_, v, rest, .member raw _ hstart rfl hv⟩
    · cases h
  · cases h

/-- The loop over the tokens of an object is the loop over its members. -/
theorem keepMembers_eq_ok_iff {fuel : Nat} {first : Bool} {kept kept' : Kept} {ts : List Token} :
    keepMembers fuel first kept ts = .ok (kept', [.punct .rbrace]) ↔
      ∃ ms, membersUpTo fuel first ts = some ms ∧ keep kept ms = .ok kept' := by
  induction fuel generalizing first kept ts with
  | zero => simp [keepMembers, membersUpTo]
  | succ fuel ih =>
    constructor
    · intro h
      rcases leads_of_keepMembers h with ⟨rfl, rfl⟩ | ⟨key, v, rest, hlead⟩
      · exact ⟨[], by simp [membersUpTo], rfl⟩
      · rw [hlead.keepMembers] at h
        split at h
        · cases h
        rename_i hfold
        split at h
        · rename_i hkey
          obtain ⟨ms, hms, hkeep⟩ := ih.mp h
          exact ⟨_, hlead.membersUpTo hms, by rw [keep, if_neg hfold, hkey]; exact hkeep⟩
        · rename_i k hkey
          split at h
          · cases h
          rename_i hk
          obtain ⟨ms, hms, hkeep⟩ := ih.mp h
          refine ⟨_, hlead.membersUpTo hms, ?_⟩
          rw [keep, if_neg hfold, hkey]
          dsimp only
          rw [if_neg hk]
          exact hkeep
    · rintro ⟨ms, hms, hkeep⟩
      rcases membersUpTo_eq_some hms with ⟨rfl, rfl⟩ | ⟨key, v, rest, ms', hlead, hrest, rfl⟩
      · cases hkeep
        rfl
      · rw [hlead.keepMembers]
        rw [keep] at hkeep
        split at hkeep
        · cases hkeep
        rename_i hfold
        rw [if_neg hfold]
        split at hkeep
        · exact ih.mpr ⟨ms', hrest, hkeep⟩
        · split at hkeep
          · cases hkeep
          rename_i hk
          rw [if_neg hk]
          exact ih.mpr ⟨ms', hrest, hkeep⟩

/-! ### What is sent -/

/-- The members of the line that is sent. -/
def keptMembers (kept : Kept) : Members :=
  signerVariants.filterMap fun k => (kept k).map fun v => (k.name, v)

/-- The members among some variants, with the keys as they are written. -/
def writtenMembers (kept : Kept) (ks : List SignerVariant) : List (Octets × List Token) :=
  ks.filterMap fun k => (kept k).map fun v => (k.quoted, v)

theorem writtenMembers_cons (kept : Kept) (k : SignerVariant) (ks : List SignerVariant) :
    writtenMembers kept (k :: ks)
      = ((kept k).map fun v => (k.quoted, v)).toList ++ writtenMembers kept ks := by
  cases hk : kept k <;> simp [writtenMembers, hk]

/-- Behind the first member, every one comes with its comma. -/
theorem foldl_writeKept {kept : Kept} {ks : List SignerVariant} {out : Octets}
    (hout : 1 < out.length) :
    ks.foldl (writeKept kept) out = out ++ print (moreTokens (writtenMembers kept ks)) := by
  induction ks generalizing out with
  | nil => simp [writtenMembers, moreTokens, print]
  | cons k ks ih =>
    rw [List.foldl_cons, writtenMembers_cons]
    cases hk : kept k with
    | none =>
      simp only [writeKept, hk]
      exact ih hout
    | some v =>
      have hcomma : writeKept kept out k
          = out ++ ([Punct.comma.byte] ++ k.quoted ++ [Punct.colon.byte] ++ print v) := by
        simp [writeKept, hk, hout]
      rw [hcomma, ih (by simp; omega)]
      simp [moreTokens, memberTokens, print, Token.bytes]

theorem rebuild_eq_print (kept : Kept) :
    rebuild kept = print (objectTokens (writtenMembers kept signerVariants)) := by
  have hfold : ∀ ks : List SignerVariant,
      ks.foldl (writeKept kept) [Punct.lbrace.byte] ++ [Punct.rbrace.byte]
        = print (objectTokens (writtenMembers kept ks)) := by
    intro ks
    induction ks with
    | nil => rfl
    | cons k ks ih =>
      rw [List.foldl_cons, writtenMembers_cons]
      cases hk : kept k with
      | none =>
        simp only [writeKept, hk]
        exact ih
      | some v =>
        have hfirst : writeKept kept [Punct.lbrace.byte] k
            = [Punct.lbrace.byte] ++ (k.quoted ++ [Punct.colon.byte] ++ print v) := by
          simp [writeKept, hk]
        rw [hfirst, foldl_writeKept (by simp)]
        simp [objectTokens, memberTokens, print, Token.bytes]
  exact hfold signerVariants

theorem SignerVariant.unquote_quoted (k : SignerVariant) : unquote k.quoted = k.name := by
  cases k <;> decide

theorem SignerVariant.quoted_wf (k : SignerVariant) : (Token.atom .string k.quoted).Wf := by
  cases k <;>
    exact ⟨0x22, _, .text, .closed, rfl, by decide, by decide, by decide, by decide, rfl⟩

/-- The tokens of a value: they keep apart, and are read back wherever they stand. -/
structure IsValue (v : List Token) : Prop where
  wf : ∀ t ∈ v, t.Wf
  apart : v.IsChain Apart
  reads : ∀ rest, takeValue (v ++ rest) = some (v, rest)

theorem mem_of_nextMember {first : Bool} {ts ts' : List Token} {t : Token}
    (h : nextMember first ts = some ts') (ht : t ∈ ts') : t ∈ ts := by
  cases first with
  | true =>
    cases h
    exact ht
  | false =>
    simp only [nextMember, Bool.false_eq_true, if_false] at h
    split at h
    · cases h
      exact List.mem_cons_of_mem _ ht
    · cases h

/-- The value of a member is one, and the tokens behind it are tokens of the text. -/
theorem Leads.isValue {first : Bool} {ts v rest : List Token} {key : List Char}
    (h : Leads first ts key v rest) (hts : ∀ t ∈ ts, t = .bad ∨ t.Wf) :
    IsValue v ∧ ∀ t ∈ rest, t = .bad ∨ t.Wf := by
  obtain ⟨raw, more, hstart, -, hv⟩ := h
  obtain ⟨rfl, hreads⟩ := takeValue_append hv
  have hmem : ∀ t ∈ v ++ rest, t = .bad ∨ t.Wf := by
    intro t ht
    apply hts t
    apply mem_of_nextMember hstart
    exact List.mem_cons_of_mem _ (List.mem_cons_of_mem _ ht)
  constructor
  · refine ⟨fun t ht => ?_, takeValue_apart hv, hreads⟩
    rcases hmem t (List.mem_append_left _ ht) with rfl | hwf
    · exact absurd ht (bad_not_mem hv)
    · exact hwf
  · intro t ht
    exact hmem t (List.mem_append_right _ ht)

theorem isValue_of_membersUpTo {fuel : Nat} {first : Bool} {ts : List Token} {ms : Members}
    (h : membersUpTo fuel first ts = some ms) (hts : ∀ t ∈ ts, t = .bad ∨ t.Wf) :
    ∀ m ∈ ms, IsValue m.2 := by
  induction fuel generalizing first ts ms with
  | zero => cases h
  | succ fuel ih =>
    rcases membersUpTo_eq_some h with ⟨-, rfl⟩ | ⟨key, v, rest, ms', hlead, hrest, rfl⟩
    · simp
    · obtain ⟨hv, hmem⟩ := hlead.isValue hts
      exact List.forall_mem_cons.mpr ⟨hv, ih hrest hmem⟩

theorem isValue_of_object {line : Octets} {ms : Members} (h : object line = some ms) :
    ∀ m ∈ ms, IsValue m.2 := by
  unfold object at h
  split at h
  · rename_i ts hlex
    apply isValue_of_membersUpTo h
    intro t ht
    have hmem : t ∈ lex line := by
      rw [hlex]
      exact List.mem_cons_of_mem _ ht
    exact lexUpTo_wf t hmem
  · cases h

/-- A line passes exactly when it is an object that the loop accepts. -/
theorem signerLine_eq_ok_iff {line out : Octets} :
    SignerLine line = .ok out ↔
      ∃ ms kept, object line = some ms ∧ keep (fun _ => none) ms = .ok kept ∧
        out = rebuild kept := by
  unfold SignerLine object
  constructor
  · intro h
    split at h
    · rename_i ts hlex
      split at h
      · cases h
      · rename_i kept hkept
        cases h
        obtain ⟨ms, hms, hkeep⟩ := keepMembers_eq_ok_iff.mp hkept
        exact ⟨ms, kept, by rw [hlex]; exact hms, hkeep, rfl⟩
      · cases h
      · cases h
    · cases h
    · cases h
    · cases h
  · rintro ⟨ms, kept, hms, hkeep, rfl⟩
    split at hms
    · rename_i ts hlex
      rw [hlex]
      dsimp only
      rw [keepMembers_eq_ok_iff.mpr ⟨ms, hms, hkeep⟩]
    · cases hms

/-! ### Reading it back -/

theorem mem_keptMembers {kept : Kept} {m : List Char × List Token} (h : m ∈ keptMembers kept) :
    ∃ k : SignerVariant, m.1 = k.name ∧ kept k = some m.2 := by
  obtain ⟨k, -, hk⟩ := List.mem_filterMap.mp h
  obtain ⟨v, hv, rfl⟩ := Option.map_eq_some_iff.mp hk
  exact ⟨k, rfl, hv⟩

/-- What is kept are values, where it came from values. -/
theorem isValue_of_keep {ms : Members} {kept : Kept} (hms : ∀ m ∈ ms, IsValue m.2)
    (h : keep (fun _ => none) ms = .ok kept) {k : SignerVariant} {v : List Token}
    (hk : kept k = some v) : IsValue v := by
  have hvalues := (keep_eq_ok_iff.mp h).2 k
  rw [hk] at hvalues
  have hmem : v ∈ values ms k.name := by
    rw [show values ms k.name = [v] from hvalues]
    exact List.mem_singleton_self v
  obtain ⟨m, hm, rfl⟩ := List.mem_map.mp hmem
  exact hms m (List.mem_filter.mp hm).1

theorem isValue_of_written {kept : Kept} (hkept : ∀ k v, kept k = some v → IsValue v) :
    ∀ m ∈ writtenMembers kept signerVariants, IsValue m.2 := by
  intro m hm
  obtain ⟨k, -, hk⟩ := List.mem_filterMap.mp hm
  obtain ⟨v, hv, rfl⟩ := Option.map_eq_some_iff.mp hk
  exact hkept k v hv

theorem objectTokens_wf {kept : Kept} (hkept : ∀ k v, kept k = some v → IsValue v) :
    ∀ t ∈ objectTokens (writtenMembers kept signerVariants), t.Wf := by
  intro t ht
  rcases mem_objectTokens ht with ⟨p, rfl⟩ | ⟨m, hm, rfl | ht⟩
  · trivial
  · obtain ⟨k, -, hk⟩ := List.mem_filterMap.mp hm
    obtain ⟨v, -, rfl⟩ := Option.map_eq_some_iff.mp hk
    exact k.quoted_wf
  · exact (isValue_of_written hkept m hm).wf t ht

/-- The line that is sent is the object of what is kept. -/
theorem object_rebuild {kept : Kept} (hkept : ∀ k v, kept k = some v → IsValue v) :
    object (rebuild kept) = some (keptMembers kept) := by
  have hvalue := isValue_of_written hkept
  have hapart := objectTokens_apart fun m hm => (hvalue m hm).apart
  have hnames : (writtenMembers kept signerVariants).map (fun m => (unquote m.1, m.2))
      = keptMembers kept := by
    rw [writtenMembers, keptMembers, List.map_filterMap]
    congr 1
    funext k
    cases hk : kept k <;> simp [SignerVariant.unquote_quoted]
  obtain ⟨ts, hts⟩ := objectTokens_lbrace (writtenMembers kept signerVariants)
  rw [rebuild_eq_print, object, lex_print (objectTokens_wf hkept) hapart, hts]
  dsimp only
  rw [membersUpTo_objectTokens (fun m hm => (hvalue m hm).reads) hts, hnames]

/-- A line that passes, with what is kept of it. -/
theorem kept_of_signerLine {line out : Octets} (h : SignerLine line = .ok out) :
    ∃ kept, (∀ k v, kept k = some v → IsValue v) ∧ out = rebuild kept := by
  obtain ⟨ms, kept, hobject, hkeep, rfl⟩ := signerLine_eq_ok_iff.mp h
  exact ⟨kept, fun k v hk => isValue_of_keep (isValue_of_object hobject) hkeep hk, rfl⟩

/-! ### The device's parser -/

/-- The readers of the fields of `Request`; `null` reads as no value. -/
structure Readers where
  loadKeySigner : List Token → Option (Option Unit)
  signSshKey : List Token → Option (Option EnclaveSigningRequest)
  ping : List Token → Option (Option Unit)
  getEnclaveMetrics : List Token → Option (Option Unit)
  hsm : List Token → Option (Option HsmRequest)

/-- A field of an object: a missing one is left out, one that occurs twice refused. -/
def readField {α : Type} (read : List Token → Option (Option α)) (ms : Members)
    (name : List Char) : Option (Option α) :=
  match values ms name with
  | [] => some none
  | [v] => read v
  | _ => none

def hsmName : List Char := "hsm".toList

/-- A request filled by key; other keys are ignored. -/
def Readers.fill (R : Readers) (ms : Members) : Option Request := do
  let loadKeySigner ← readField R.loadKeySigner ms SignerVariant.loadKeySigner.name
  let signSshKey ← readField R.signSshKey ms SignerVariant.signSshKey.name
  let ping ← readField R.ping ms SignerVariant.ping.name
  let getEnclaveMetrics ← readField R.getEnclaveMetrics ms SignerVariant.getEnclaveMetrics.name
  let hsm ← readField R.hsm ms hsmName
  return { loadKeySigner, signSshKey, ping, getEnclaveMetrics, hsm }

/-- What is relied on of `serde_json` and the derived `Deserialize`: the lines it accepts
    are objects, and it fills the request from their members; an object whose keys decode
    is accepted when its fields do. -/
structure Serde (P : Prims) (R : Readers) : Prop where
  fills : ∀ {line req}, P.parseRequest line = .ok req →
    ∃ ms, object line = some ms ∧ R.fill ms = some req
  accepts : ∀ {line ms req}, object line = some ms → (∀ m ∈ ms, REPLACEMENT ∉ m.1) →
    R.fill ms = some req → P.parseRequest line = .ok req

/-- Without a member of that name there is no `hsm` command. -/
theorem Readers.fill_hsm {R : Readers} {ms : Members} {req : Request}
    (hms : values ms hsmName = []) (h : R.fill ms = some req) : req.hsm = none := by
  have hnone : readField R.hsm ms hsmName = some none := by
    unfold readField
    rw [hms]
  simp only [fill, hnone, Option.bind_eq_bind, Option.bind_eq_some_iff, Option.pure_def,
    Option.some.injEq] at h
  obtain ⟨_, -, _, -, _, -, _, -, _, rfl, rfl⟩ := h
  rfl

theorem foldsToHsm_hsmName : foldsToHsm hsmName = true := by decide

/-- No key reads as `hsm`, so none is. -/
theorem values_hsmName {ms : Members} (h : ∀ m ∈ ms, foldsToHsm m.1 = false) :
    values ms hsmName = [] := by
  unfold values
  rw [List.map_eq_nil_iff, List.filter_eq_nil_iff]
  intro m hm hname
  have hfold := h m hm
  rw [of_decide_eq_true hname, foldsToHsm_hsmName] at hfold
  cases hfold

theorem values_keptMembers_hsm (kept : Kept) : values (keptMembers kept) hsmName = [] := by
  apply values_hsmName
  intro m hm
  obtain ⟨k, hk, -⟩ := mem_keptMembers hm
  rw [hk]
  exact k.foldsToHsm_name

theorem parseLine_eq_ok_iff {line : Octets} {req : Request} :
    parseLine (P := P) line = .ok req ↔
      line.find? (fun b => !isJsonSpace b) = some 0x7B ∧ P.parseRequest line = .ok req := by
  unfold parseLine
  by_cases hfirst : line.find? (fun b => !isJsonSpace b) = some 0x7B
  · simp only [hfirst, ne_eq, not_true_eq_false, if_false, true_and]
    cases P.parseRequest line <;> simp
  · simp [hfirst]

/-- A parser that fills requests with some readers. -/
def Prims.filling (R : Readers) : Prims :=
  { Prims.bench [] with
    parseRequest := fun line =>
      match object line with
      | none => .error "expected an object"
      | some ms =>
        if ms.all fun m => !m.1.contains REPLACEMENT then
          match R.fill ms with
          | some req => .ok req
          | none => .error "invalid request"
        else .error "invalid key" }

theorem serde_filling (R : Readers) : Serde (Prims.filling R) R where
  fills := by
    intro line req h
    simp only [Prims.filling] at h
    split at h
    · cases h
    rename_i ms hobject
    split at h
    · split at h
      · rename_i req' hfill
        cases h
        exact ⟨ms, hobject, hfill⟩
      · cases h
    · cases h
  accepts := by
    intro line ms req hobject hkeys hfill
    have hall : (ms.all fun m => !m.1.contains REPLACEMENT) = true := by
      simpa using fun key v hm => hkeys (key, v) hm
    simp only [Prims.filling, hobject, hall, if_true, hfill]

/-- An empty object or `null`. -/
def readUnit (v : List Token) : Option (Option Unit) :=
  if v = [.punct .lbrace, .punct .rbrace] then some (some ())
  else if v = [.atom .word [0x6E, 0x75, 0x6C, 0x6C]] then some none
  else none

/-- Readers for lines without a signing request or a command. -/
def Readers.bench : Readers where
  loadKeySigner := readUnit
  signSshKey _ := none
  ping := readUnit
  getEnclaveMetrics := readUnit
  hsm _ := none

namespace Bench

/-- `{"x":1,"ping":{}}`. -/
def pingLine : Octets := Str.bytes "\x7b\"x\":1,\"ping\":\x7b\x7d\x7d".toList

/-- `{"HSM":{}}`. -/
def hsmLine : Octets := Str.bytes "\x7b\"HSM\":\x7b\x7d\x7d".toList

end Bench

/-- A line of a client, and what the device finds when it comes to it. -/
structure Arrival where
  line : Octets
  mono : UInt64
  faults : List Fault

section

variable (decoder : Octets → String)

/-- The device behind a listener without management. -/
def Sys.forwarded (s : Sys P) (a : Arrival) : Sys P :=
  match forward decoder false false a.line with
  | .answers _ => s
  | .sends req =>
    let s := (s.step (.advance a.mono)).1
    match lineEvent req with
    | .tooLong => s
    | .line bytes => (s.step (.line bytes a.faults)).1

end

/-- Nothing but the generator, its entropy and the time have moved on. -/
def Hsm.OnlyDrawn (h h' : Hsm P) : Prop :=
  ∃ drbg entropy mono faults,
    h' = { h with drbg, entropy, mono, flash := h.flash.under faults }

theorem Hsm.OnlyDrawn.trans {h h' h'' : Hsm P} (h₁ : h.OnlyDrawn h') (h₂ : h'.OnlyDrawn h'') :
    h.OnlyDrawn h'' := by
  obtain ⟨_, _, _, _, rfl⟩ := h₁
  obtain ⟨drbg, entropy, mono, faults, rfl⟩ := h₂
  exact ⟨drbg, entropy, mono, faults, rfl⟩

/-- The line that is sent is what the device assembles, unless it is too long. -/
theorem lineEvent_rebuild (kept : Kept) :
    lineEvent (rebuild kept) = .tooLong ∨ lineEvent (rebuild kept) = .line (rebuild kept) := by
  unfold lineEvent
  by_cases hlong : (rebuild kept).length > MAX_LINE
  · rw [if_pos hlong]
    exact Or.inl rfl
  · rw [if_neg hlong]
    right
    simp [trimCr, rebuild, Punct.byte]

/-- A line without an `hsm` command at most draws from the generator. -/
theorem Hsm.onlyDrawn_of_line {h : Hsm P} {line : Octets} (faults : List Fault)
    (hline : ∀ r, parseLine (P := P) line = .ok r → r.hsm = none) :
    ∃ h', ((Sys.on h).step (.line line faults)).1 = .on h' ∧ h.OnlyDrawn h' := by
  have hnone : lineCommand P line = none := by
    unfold lineCommand
    cases hparse : parseLine (P := P) line with
    | error e => rfl
    | ok r => simp [hline r hparse]
  rcases processLine_cases h line faults with
    ⟨-, resp, h', hserve, -, hrng⟩ | ⟨c, _, _, hc, -⟩ | ⟨c, _, _, hc, -⟩
  · refine ⟨h', by rw [Sys.step, hserve], h'.drbg, h'.entropy, h.mono, faults, ?_⟩
    exact hrng
  · rw [hnone] at hc
    cases hc
  · rw [hnone] at hc
    cases hc

theorem Serde.rebuild_hsm {R : Readers} (hserde : Serde P R) {kept : Kept} {r : Request}
    (hkept : ∀ k v, kept k = some v → IsValue v)
    (h : parseLine (P := P) (rebuild kept) = .ok r) : r.hsm = none := by
  obtain ⟨-, hparse⟩ := parseLine_eq_ok_iff.mp h
  obtain ⟨ms, hobject, hfill⟩ := hserde.fills hparse
  rw [object_rebuild hkept] at hobject
  cases hobject
  exact Readers.fill_hsm (values_keptMembers_hsm kept) hfill

section

variable (decoder : Octets → String)

theorem forward_cases (line : Octets) :
    (∃ error, forward decoder false false line = .answers error) ∨
      ∃ kept, (∀ k v, kept k = some v → IsValue v) ∧
        forward decoder false false line = .sends (rebuild kept) := by
  unfold forward
  cases hline : SignerLine line with
  | ok out =>
    obtain ⟨kept, hkept, rfl⟩ := kept_of_signerLine hline
    exact Or.inr ⟨kept, hkept, rfl⟩
  | error e =>
    cases e <;> exact Or.inl ⟨_, rfl⟩

/-- One line of one client. -/
theorem Hsm.onlyDrawn_of_forwarded {R : Readers} (hserde : Serde P R) (h : Hsm P) (a : Arrival) :
    ∃ h', (Sys.on h).forwarded decoder a = .on h' ∧ h.OnlyDrawn h' := by
  unfold Sys.forwarded
  rcases forward_cases decoder a.line with ⟨error, hforward⟩ | ⟨kept, hkept, hforward⟩
  · rw [hforward]
    exact ⟨h, rfl, h.drbg, h.entropy, h.mono, h.flash.faults, rfl⟩
  · rw [hforward]
    dsimp only
    have htick : h.OnlyDrawn { h with mono := max h.mono a.mono } :=
      ⟨h.drbg, h.entropy, _, h.flash.faults, rfl⟩
    rcases lineEvent_rebuild kept with hevent | hevent
    · rw [hevent]
      exact ⟨_, rfl, htick⟩
    · rw [hevent]
      obtain ⟨h', hstep, hdrawn⟩ := Hsm.onlyDrawn_of_line (h := { h with mono := max h.mono a.mono })
        a.faults fun r hr => hserde.rebuild_hsm hkept hr
      exact ⟨h', hstep, htick.trans hdrawn⟩

/-- **No management from behind the firewall.**  Whatever a client sends is answered by
    the bridge or reaches the device as a line without an `hsm` command, and any number
    of such lines leaves the device as it was but for its generator. -/
theorem no_management_through_bridge {R : Readers} (hserde : Serde P R) :
    (∀ line, (∃ error, forward decoder false false line = .answers error) ∨
      ∃ req, forward decoder false false line = .sends req ∧
        ∀ r, parseLine (P := P) req = .ok r → r.hsm = none) ∧
    ∀ (h : Hsm P) (arrivals : List Arrival),
      ∃ h', arrivals.foldl (Sys.forwarded decoder) (.on h) = .on h' ∧ h.OnlyDrawn h' := by
  constructor
  · intro line
    rcases forward_cases decoder line with hanswers | ⟨kept, hkept, hsends⟩
    · exact Or.inl hanswers
    · exact Or.inr ⟨_, hsends, fun r hr => hserde.rebuild_hsm hkept hr⟩
  · intro h arrivals
    induction arrivals generalizing h with
    | nil => exact ⟨h, rfl, h.drbg, h.entropy, h.mono, h.flash.faults, rfl⟩
    | cons a arrivals ih =>
      obtain ⟨h', hstep, hdrawn⟩ := Hsm.onlyDrawn_of_forwarded decoder hserde h a
      obtain ⟨h'', hrun, hdrawn'⟩ := ih h'
      exact ⟨h'', by rw [List.foldl_cons, hstep, hrun], hdrawn.trans hdrawn'⟩

end

/-- A ping, and a command in disguise. -/
theorem no_management_through_bridge_bench :
    (∃ req, forward (fun _ => "") false false Bench.pingLine = .sends req ∧
      ∀ r, parseLine (P := .filling .bench) req = .ok r → r.hsm = none) ∧
    ∃ h' : Hsm (.filling .bench),
      [⟨Bench.pingLine, 5, []⟩, ⟨Bench.hsmLine, 7, []⟩].foldl (Sys.forwarded fun _ => "")
        (.on (Hsm.fresh [] 0 (Bench.image []) .new)) = .on h' ∧
      (Hsm.fresh [] 0 (Bench.image []) .new).OnlyDrawn h' := by
  have hboth := no_management_through_bridge (fun _ => "") (serde_filling .bench)
  refine ⟨?_, hboth.2 _ _⟩
  rcases hboth.1 Bench.pingLine with ⟨error, herror⟩ | hsends
  · have hping : forward (fun _ => "") false false Bench.pingLine
        = .sends (Str.bytes "\x7b\"ping\":\x7b\x7d\x7d".toList) := by decide +kernel
    rw [hping] at herror
    cases herror
  · exact hsends

end PicoSignet
