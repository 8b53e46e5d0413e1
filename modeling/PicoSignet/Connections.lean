/-
  PicoSignet/Connections.lean
  ===========================
  **The bridge and its clients** — mirror of `handleConn`, `forward` and `syncTime` in
  `host/internal/bridge/bridge.go`.

  A goroutine serves each connection and another one pushes the time.  What they share is
  the device behind `RoundTrip`, which lets one call in at a time; a step of the bridge is
  what one of them does between two such calls.  A run chooses the chunks in which bytes
  arrive, who comes next, every deadline and every call that fails.

  Whatever it chooses, a client gets one line for each line it sent, in order
  (`bridge_serves_clients`), and behind a listener without management the device does with
  a line what it would have done with the client's own.
-/
import PicoSignet.Lines
import PicoSignet.Hsmproto
import PicoSignet.Firewall
import PicoSignet.Firmware
import PicoSignet.Serial

set_option autoImplicit false

namespace PicoSignet

open Lines Json

variable {P : Prims}

/-! ## 1. A call of `RoundTrip` -/

/-- The buffer of a connection's scanner. -/
def maxRequest : Nat := 256 * 1024

/-- How a call of `RoundTrip` goes. -/
structure Passage where
  /-- The device gets the request at this time, and its flash has these faults ahead. -/
  arrives : Option (UInt64 × List Fault)
  /-- The answer of the device comes back. -/
  returns : Bool
  /-- The error otherwise. -/
  error : String

/-- The device on what it has assembled, and the line it writes. -/
def Sys.writes (ryu : UInt64 → Octets) (s : Sys P) (e : LineEvent) (faults : List Fault) :
    Sys P × Option Octets :=
  match s, e with
  | .off f, _ => (.off f, none)
  | .on h, .tooLong => (.on h, some tooLargeText)
  | .on h, .line line =>
    let (s, resp) := (Sys.on h).step (.line line faults)
    (s, resp.map fun resp => resp.toVec ryu)

/-- `RoundTrip`, for a request that the device assembles to `e`. -/
def Sys.roundTrip (ryu : UInt64 → Octets) (s : Sys P) (e : LineEvent) (p : Passage) :
    Sys P × Except String Octets :=
  match p.arrives with
  | none => (s, .error p.error)
  | some (mono, faults) =>
    let (s, resp) := (s.step (.advance mono)).1.writes ryu e faults
    match resp.filter fun _ => p.returns with
    | none => (s, .error p.error)
    | some resp =>
      if resp.length + 1 > maxLine then (s, .error "response exceeds maximum line length")
      else (s, .ok resp)

/-- `errorLine`. -/
def errorLine (msg : String) : Octets :=
  print (jsonObject (fun c => Hsmproto.goEscape (some c))
    [field "error" (Hsmproto.goString (Str.bytes msg.toList))])

/-- The line for the client, from what `RoundTrip` returns. -/
def replyLine : Except String Octets → Octets
  | .ok resp => resp
  | .error e => errorLine ("device error: " ++ e)

section Relay

-- the float writer of the device, and the text of the decoder's error on a line
variable (ryu : UInt64 → Octets) (decoder : Octets → String)

/-- A call of `RoundTrip`: the device behind it, and the line for the client. -/
def Sys.asks (s : Sys P) (e : LineEvent) (p : Passage) : Sys P × Octets :=
  let (s, resp) := s.roundTrip ryu e p
  (s, replyLine resp)

/-- `forward`, with its call. -/
def Sys.relay (s : Sys P) (allowRemoteMgmt listenerAllowsMgmt : Bool) (line : Octets)
    (p : Passage) : Sys P × Octets :=
  match forward decoder allowRemoteMgmt listenerAllowsMgmt line with
  | .answers msg => (s, errorLine msg)
  | .sends req => s.asks ryu (lineEvent req) p

end Relay

/-! ## 2. The bridge -/

/-- Where the goroutine of a connection is. -/
inductive ConnStage where
  /-- In `Scan`. -/
  | scanning
  /-- In `forward`, with the line. -/
  | forwarding (line : Octets)
  /-- In `Write`, with the answer. -/
  | replying (resp : Octets)
  | closed
deriving DecidableEq, Repr

structure Connection where
  listenerAllowsMgmt : Bool
  /-- Sent by the client, not read by the scanner. -/
  inbox : Octets
  /-- Read by the scanner. -/
  read : Octets
  scanner : Scanner UInt8
  stage : ConnStage
  /-- Written to the client. -/
  written : Octets

def Connection.accepted (listenerAllowsMgmt : Bool) : Connection :=
  { listenerAllowsMgmt, inbox := [], read := [], scanner := .new, stage := .scanning, written := [] }

/-- A line that went through `forward`. -/
structure Relayed (P : Prims) where
  conn : Nat
  line : Octets
  before : Sys P
  after : Sys P
  resp : Octets

structure Bridge (P : Prims) where
  allowRemoteMgmt : Bool
  device : Sys P
  conns : Nat → Option Connection
  /-- The lines so far, oldest first. -/
  relayed : List (Relayed P)

/-- `Run`, before the first client. -/
def Bridge.started (allowRemoteMgmt : Bool) (device : Sys P) : Bridge P :=
  { allowRemoteMgmt, device, conns := fun _ => none, relayed := [] }

inductive BridgeAct where
  /-- A listener accepts connection `i`. -/
  | accepts (i : Nat) (listenerAllowsMgmt : Bool)
  | sends (i : Nat) (bytes : Octets)
  /-- The reader of `i` returns `n` bytes. -/
  | reads (i : Nat) (n : Nat)
  /-- It returns an error: the end of the stream, or the deadline. -/
  | readEnds (i : Nat)
  | scans (i : Nat)
  | forwards (i : Nat) (p : Passage)
  | writes (i : Nat)
  /-- The write fails after `sent` bytes. -/
  | writeFails (i : Nat) (sent : Nat)
  | syncTime (unix : Int64) (p : Passage)
  /-- The device by itself: power, relock, timer. -/
  | device (e : Event)

def Bridge.set (b : Bridge P) (i : Nat) (c : Connection) : Bridge P :=
  { b with conns := Function.update b.conns i (some c) }

@[simp] theorem Bridge.conns_set_self (b : Bridge P) (i : Nat) (c : Connection) :
    (b.set i c).conns i = some c := Function.update_self ..

theorem Bridge.conns_set_of_ne (b : Bridge P) {i j : Nat} (h : j ≠ i) (c : Connection) :
    (b.set i c).conns j = b.conns j := Function.update_of_ne h ..

@[simp] theorem Bridge.relayed_set (b : Bridge P) (i : Nat) (c : Connection) :
    (b.set i c).relayed = b.relayed := rfl

/-- One step of one of the goroutines, a client or the device; `none` where it cannot be
    taken. -/
def Bridge.step (ryu : UInt64 → Octets) (decoder : Octets → String) (b : Bridge P) :
    BridgeAct → Option (Bridge P)
  | .accepts i listenerAllowsMgmt =>
    match b.conns i with
    | none => some (b.set i (.accepted listenerAllowsMgmt))
    | some _ => none
  | .sends i bytes => (b.conns i).map fun c => b.set i { c with inbox := c.inbox ++ bytes }
  | .reads i n =>
    match b.conns i with
    | some c =>
      match c.stage, c.scanner.scan newline maxRequest with
      | .scanning, .reads =>
        -- at most as many bytes as the buffer has room for
        let bytes := c.inbox.take (min n (maxRequest - c.scanner.buf.length))
        some (b.set i
          { c with
            inbox := c.inbox.drop bytes.length
            read := c.read ++ bytes
            scanner := { c.scanner with buf := c.scanner.buf ++ bytes } })
      | _, _ => none
    | none => none
  | .readEnds i =>
    match b.conns i with
    | some c =>
      match c.stage, c.scanner.scan newline maxRequest with
      | .scanning, .reads => some (b.set i { c with scanner := { c.scanner with ended := true } })
      | _, _ => none
    | none => none
  | .scans i =>
    match b.conns i with
    | some c =>
      match c.stage, c.scanner.scan newline maxRequest with
      | .scanning, .token line scanner =>
        some (b.set i { c with scanner, stage := .forwarding (trimCr line) })
      | .scanning, .stops => some (b.set i { c with stage := .closed })
      | _, _ => none
    | none => none
  | .forwards i p =>
    match b.conns i with
    | some c =>
      match c.stage with
      | .forwarding line =>
        let (device, resp) :=
          b.device.relay ryu decoder b.allowRemoteMgmt c.listenerAllowsMgmt line p
        let entry := ⟨i, line, b.device, device, resp⟩
        some { b.set i { c with stage := .replying resp } with
          device, relayed := b.relayed ++ [entry] }
      | _ => none
    | none => none
  | .writes i =>
    match b.conns i with
    | some c =>
      match c.stage with
      | .replying resp =>
        some (b.set i { c with stage := .scanning, written := c.written ++ (resp ++ [newline]) })
      | _ => none
    | none => none
  | .writeFails i sent =>
    match b.conns i with
    | some c =>
      match c.stage with
      | .replying resp =>
        some (b.set i
          { c with stage := .closed, written := c.written ++ (resp ++ [newline]).take sent })
      | _ => none
    | none => none
  | .syncTime unix p =>
    let req : Hsmproto.Request := { setTime := some { unixSeconds := unix } }
    some { b with device := (b.device.roundTrip ryu (lineEvent req.marshal) p).1 }
  | .device e => some { b with device := (b.device.step e).1 }

/-- The bridges that a run from `start` comes to. -/
inductive Bridge.Run (ryu : UInt64 → Octets) (decoder : Octets → String) (start : Bridge P) :
    Bridge P → Prop
  | start : Run ryu decoder start start
  | step {b b' : Bridge P} (hrun : Run ryu decoder start b) (a : BridgeAct)
      (hstep : b.step ryu decoder a = some b') : Run ryu decoder start b'

/-! ## 3. A rebuilt line is no longer -/

/-- The bytes of a member with its quoted key, a colon and a comma; of one that is not
    kept the colon will do. -/
def memberWeight (m : List Char × List Token) : Nat :=
  if (signerVariant m.1).isSome then m.1.length + 4 + (print m.2).length else 1

def Members.weight (ms : Members) : Nat := (ms.map memberWeight).sum

def Kept.weight (kept : Kept) : Nat :=
  (signerVariants.map fun k => ((kept k).map fun v => memberWeight (k.name, v)).getD 0).sum

theorem firstChar_width (bs : Octets) : 1 ≤ (firstChar bs).2 := by
  unfold firstChar
  split
  · split
    · split <;> simp
    · simp
  · split
    · simp
    · split
      · simp
      · split
        · simp
        · split
          · exact Char.utf8Size_pos _
          · simp

theorem length_unquoteUpTo (fuel : Nat) (bs : Octets) : (unquoteUpTo fuel bs).length ≤ bs.length := by
  induction fuel generalizing bs with
  | zero => simp [unquoteUpTo]
  | succ fuel ih =>
    cases bs with
    | nil => simp [unquoteUpTo]
    | cons b bs =>
      have hwidth := firstChar_width (b :: bs)
      have hrest := ih ((b :: bs).drop (firstChar (b :: bs)).2)
      rw [List.length_drop, List.length_cons] at hrest
      simp only [unquoteUpTo, List.length_cons]
      omega

/-- A key is no longer than its token without the quotes. -/
theorem length_unquote {raw : Octets} (h : unquote raw ≠ []) :
    (unquote raw).length + 2 ≤ raw.length := by
  have hlen := length_unquoteUpTo raw.length (raw.drop 1).dropLast
  have hpos : 0 < (unquote raw).length := List.length_pos_iff.mpr h
  rw [List.length_dropLast, List.length_drop] at hlen
  unfold unquote at hpos ⊢
  omega

/-- What a member takes of the text, with a comma that only the first one lacks. -/
theorem Leads.weight {first : Bool} {ts rest v : List Token} {key : List Char}
    (h : Leads first ts key v rest) :
    memberWeight (key, v) + (print rest).length ≤ (print ts).length + (if first then 1 else 0) := by
  obtain ⟨raw, more, hstart, rfl, hv⟩ := h
  obtain ⟨rfl, -⟩ := takeValue_append hv
  have hkey : memberWeight (unquote raw, v) ≤ raw.length + 2 + (print v).length := by
    unfold memberWeight
    split
    · rename_i hvariant
      obtain ⟨k, hk⟩ := Option.isSome_iff_exists.mp hvariant
      have hname := signerVariant_eq_some hk
      have hne : unquote raw ≠ [] := by
        dsimp only at hname
        rw [hname]
        cases k <;> decide
      have := length_unquote hne
      dsimp only
      omega
    · omega
  have hprint : (print (.atom .string raw :: .punct .colon :: (v ++ rest))).length =
      raw.length + 1 + (print v).length + (print rest).length := by
    simp [print, Token.bytes]
    omega
  cases first with
  | true =>
    cases hstart
    rw [hprint, if_pos rfl]
    omega
  | false =>
    unfold nextMember at hstart
    rw [if_neg (by decide)] at hstart
    split at hstart
    · cases hstart
      have hcomma : (print (.punct .comma :: .atom .string raw :: .punct .colon ::
          (v ++ rest))).length = 1 + (raw.length + 1 + (print v).length + (print rest).length) := by
        rw [← hprint]
        simp [print, Token.bytes]
        omega
      rw [hcomma, if_neg (by decide)]
      omega
    · cases hstart

section Relay

variable {ryu : UInt64 → Octets} (decoder : Octets → String)

/-- Nothing but the generator, its entropy and the time have moved on. -/
def Sys.OnlyDrawn (s s' : Sys P) : Prop :=
  match s with
  | .off f => s' = .off f
  | .on h => ∃ h', s' = .on h' ∧ h.OnlyDrawn h'

theorem Sys.OnlyDrawn.refl (s : Sys P) : s.OnlyDrawn s := by
  cases s with
  | off f => rfl
  | on h => exact ⟨h, rfl, h.drbg, h.entropy, h.mono, h.flash.faults, rfl⟩

end Relay

/-! ## 5. What a step does -/

/-- What happens to one connection, short of `forward`. -/
inductive ConnMove (c : Connection) : Connection → Prop
  | sends (bytes : Octets) : ConnMove c { c with inbox := c.inbox ++ bytes }
  | reads (bytes inbox : Octets) (hended : c.scanner.ended = false) :
      ConnMove c
        { c with
          inbox
          read := c.read ++ bytes
          scanner := { c.scanner with buf := c.scanner.buf ++ bytes } }
  | readEnds : ConnMove c { c with scanner := { c.scanner with ended := true } }
  | scans (line : Octets) (scanner : Scanner UInt8) (hstage : c.stage = .scanning)
      (htoken : c.scanner.scan newline maxRequest = .token line scanner) :
      ConnMove c { c with scanner, stage := .forwarding (trimCr line) }
  | stops (hstage : c.stage = .scanning) : ConnMove c { c with stage := .closed }
  | writes (resp : Octets) (hstage : c.stage = .replying resp) :
      ConnMove c { c with stage := .scanning, written := c.written ++ (resp ++ [newline]) }
  | writeFails (resp : Octets) (sent : Nat) (hstage : c.stage = .replying resp) :
      ConnMove c { c with stage := .closed, written := c.written ++ (resp ++ [newline]).take sent }

theorem ConnMove.listener {c c' : Connection} (h : ConnMove c c') :
    c'.listenerAllowsMgmt = c.listenerAllowsMgmt := by
  cases h <;> rfl

/-- A scanner that must read has not seen the end. -/
theorem not_ended_of_reads {sc : Scanner UInt8} (h : sc.scan newline maxRequest = .reads) :
    sc.ended = false := by
  unfold Scanner.scan at h
  split at h
  · cases h
  · split at h
    · split at h <;> cases h
    · simpa using ‹¬sc.ended = true›

section Step

variable {ryu : UInt64 → Octets} {decoder : Octets → String} {b b' : Bridge P}

/-- The lines relayed for connection `i`. -/
def Bridge.of (b : Bridge P) (i : Nat) : List (Relayed P) := b.relayed.filter (·.conn = i)

/-- The bridge after a line of connection `i` went through `forward`. -/
def Bridge.forwarded (ryu : UInt64 → Octets) (decoder : Octets → String) (b : Bridge P) (i : Nat)
    (c : Connection) (line : Octets) (p : Passage) : Bridge P :=
  let out := b.device.relay ryu decoder b.allowRemoteMgmt c.listenerAllowsMgmt line p
  { b.set i { c with stage := .replying out.2 } with
    device := out.1
    relayed := b.relayed ++ [⟨i, line, b.device, out.1, out.2⟩] }

theorem Bridge.step_cases {a : BridgeAct} (h : b.step ryu decoder a = some b') :
    (∃ i listener, b.conns i = none ∧ b' = b.set i (.accepted listener)) ∨
    (∃ i c c', b.conns i = some c ∧ ConnMove c c' ∧ b' = b.set i c') ∨
    (∃ i c line p, b.conns i = some c ∧ c.stage = .forwarding line ∧
      b' = b.forwarded ryu decoder i c line p) ∨
    ∃ device, b' = { b with device } := by
  cases a with
  | accepts i listener =>
    simp only [step] at h
    split at h
    · rename_i hnone
      cases h
      exact Or.inl ⟨i, listener, hnone, rfl⟩
    · cases h
  | sends i bytes =>
    obtain ⟨c, hc, rfl⟩ := Option.map_eq_some_iff.mp h
    exact Or.inr (Or.inl ⟨i, c, _, hc, .sends bytes, rfl⟩)
  | reads i n =>
    simp only [step] at h
    split at h
    · rename_i c hc
      split at h
      · rename_i hreads
        cases h
        exact Or.inr (Or.inl ⟨i, c, _, hc, .reads _ _ (not_ended_of_reads hreads), rfl⟩)
      · cases h
    · cases h
  | readEnds i =>
    simp only [step] at h
    split at h
    · rename_i c hc
      split at h
      · cases h
        exact Or.inr (Or.inl ⟨i, c, _, hc, .readEnds, rfl⟩)
      · cases h
    · cases h
  | scans i =>
    simp only [step] at h
    split at h
    · rename_i c hc
      split at h
      · rename_i line scanner hstage htoken
        cases h
        exact Or.inr (Or.inl ⟨i, c, _, hc, .scans line scanner hstage htoken, rfl⟩)
      · rename_i hstage _
        cases h
        exact Or.inr (Or.inl ⟨i, c, _, hc, .stops hstage, rfl⟩)
      · cases h
    · cases h
  | forwards i p =>
    simp only [step] at h
    split at h
    · rename_i c hc
      split at h
      · rename_i line hstage
        cases h
        exact Or.inr (Or.inr (Or.inl ⟨i, c, line, p, hc, hstage, rfl⟩))
      · cases h
    · cases h
  | writes i =>
    simp only [step] at h
    split at h
    · rename_i c hc
      split at h
      · rename_i resp hstage
        cases h
        exact Or.inr (Or.inl ⟨i, c, _, hc, .writes resp hstage, rfl⟩)
      · cases h
    · cases h
  | writeFails i sent =>
    simp only [step] at h
    split at h
    · rename_i c hc
      split at h
      · rename_i resp hstage
        cases h
        exact Or.inr (Or.inl ⟨i, c, _, hc, .writeFails resp sent hstage, rfl⟩)
      · cases h
    · cases h
  | syncTime unix p =>
    cases h
    exact Or.inr (Or.inr (Or.inr ⟨_, rfl⟩))
  | device e =>
    cases h
    exact Or.inr (Or.inr (Or.inr ⟨_, rfl⟩))

/-! ## 6. What a client gets -/

/-- The line that is in `forward`. -/
def ConnStage.underway : ConnStage → List Octets
  | .forwarding line => [line]
  | _ => []

/-- What has been written of the answers so far. -/
def ConnStage.Wrote (stage : ConnStage) (answers : List Octets) (written : Octets) : Prop :=
  match stage with
  | .replying resp => ∃ sent, answers = sent ++ [resp] ∧ written = unlines newline sent
  | .closed => written <+: unlines newline answers
  | _ => written = unlines newline answers

/-- A connection between the lines of its client and the lines relayed for it. -/
structure Connection.Sound (c : Connection) (served : List (Relayed P)) : Prop where
  handed : ∃ raw : List Octets, (∀ l ∈ raw, newline ∉ l) ∧ c.scanner.Handed newline c.read raw ∧
    served.map (·.line) ++ c.stage.underway = raw.map trimCr
  wrote : c.stage.Wrote (served.map (·.resp)) c.written

theorem Connection.Sound.accepted (listener : Bool) :
    (Connection.accepted listener).Sound ([] : List (Relayed P)) :=
  ⟨⟨[], by simp, .new, rfl⟩, rfl⟩

/-- Until its line is forwarded, a connection keeps to itself. -/
theorem Connection.Sound.move {c c' : Connection} {served : List (Relayed P)}
    (h : c.Sound served) (hmove : ConnMove c c') : c'.Sound served := by
  obtain ⟨⟨raw, hfree, hhanded, hlines⟩, hwrote⟩ := h
  cases hmove with
  | sends bytes => exact ⟨⟨raw, hfree, hhanded, hlines⟩, hwrote⟩
  | reads bytes inbox hended => exact ⟨⟨raw, hfree, hhanded.more hended bytes, hlines⟩, hwrote⟩
  | readEnds => exact ⟨⟨raw, hfree, hhanded.end, hlines⟩, hwrote⟩
  | scans line scanner hstage htoken =>
    rw [hstage] at hlines hwrote
    obtain ⟨hline, hhanded'⟩ := hhanded.token htoken
    refine ⟨⟨raw ++ [line], ?_, hhanded', ?_⟩, hwrote⟩
    · intro l hl
      rcases List.mem_append.mp hl with hl | hl
      · exact hfree l hl
      · rwa [List.mem_singleton.mp hl]
    · simp only [ConnStage.underway, List.append_nil] at hlines
      simp [ConnStage.underway, hlines]
  | stops hstage =>
    rw [hstage] at hlines hwrote
    have hall : c.written = unlines newline (served.map (·.resp)) := hwrote
    refine ⟨⟨raw, hfree, hhanded, hlines⟩, ?_⟩
    show c.written <+: _
    rw [hall]
  | writes resp hstage =>
    rw [hstage] at hlines hwrote
    obtain ⟨sent, hanswers, hsent⟩ := hwrote
    refine ⟨⟨raw, hfree, hhanded, hlines⟩, ?_⟩
    show c.written ++ (resp ++ [newline]) = _
    rw [hanswers, hsent]
    simp
  | writeFails resp sent hstage =>
    rw [hstage] at hlines hwrote
    obtain ⟨done, hanswers, hdone⟩ := hwrote
    refine ⟨⟨raw, hfree, hhanded, hlines⟩, ?_⟩
    show c.written ++ (resp ++ [newline]).take sent <+: _
    rw [hanswers, hdone, unlines_append, unlines_singleton]
    exact List.prefix_append_right_inj _ |>.mpr (List.take_prefix _ _)

/-- `forward` takes the line and leaves the answer. -/
theorem Connection.Sound.forwarded {c : Connection} {served : List (Relayed P)}
    (h : c.Sound served) {r : Relayed P} (hstage : c.stage = .forwarding r.line) :
    ({ c with stage := .replying r.resp } : Connection).Sound (served ++ [r]) := by
  obtain ⟨⟨raw, hfree, hhanded, hlines⟩, hwrote⟩ := h
  rw [hstage] at hlines hwrote
  have hlines' : (served ++ [r]).map (·.line) ++ [] = raw.map trimCr := by
    simpa [ConnStage.underway] using hlines
  have hall : c.written = unlines newline (served.map (·.resp)) := hwrote
  exact ⟨⟨raw, hfree, hhanded, hlines'⟩, served.map (·.resp), by simp, hall⟩

/-- Every connection is sound, and a relayed line went through `forward` with the flags of
    its listener. -/
structure Bridge.Sound (ryu : UInt64 → Octets) (decoder : Octets → String) (b : Bridge P) :
    Prop where
  unused : ∀ i, b.conns i = none → b.of i = []
  conn : ∀ i c, b.conns i = some c → c.Sound (b.of i)
  relayed : ∀ r ∈ b.relayed, ∃ c p, b.conns r.conn = some c ∧ (r.after, r.resp) =
    r.before.relay ryu decoder b.allowRemoteMgmt c.listenerAllowsMgmt r.line p

/-- A connection changes, its listener does not. -/
theorem Bridge.Sound.set (h : b.Sound ryu decoder) {i : Nat} {c : Connection}
    (hsound : c.Sound (b.of i))
    (hlistener : ∀ old, b.conns i = some old → c.listenerAllowsMgmt = old.listenerAllowsMgmt) :
    (b.set i c).Sound ryu decoder := by
  constructor
  · intro j hj
    by_cases hji : j = i
    · rw [hji, Bridge.conns_set_self] at hj
      cases hj
    · rw [b.conns_set_of_ne hji] at hj
      exact h.unused j hj
  · intro j cj hj
    by_cases hji : j = i
    · rw [hji, Bridge.conns_set_self] at hj
      cases hj
      rw [hji]
      exact hsound
    · rw [b.conns_set_of_ne hji] at hj
      exact h.conn j cj hj
  · intro r hr
    obtain ⟨cr, p, hcr, hrelay⟩ := h.relayed r hr
    by_cases hri : r.conn = i
    · rw [hri] at hcr ⊢
      exact ⟨c, p, b.conns_set_self i c, by rw [hlistener cr hcr]; exact hrelay⟩
    · exact ⟨cr, p, (b.conns_set_of_ne hri c).trans hcr, hrelay⟩

/-- A line goes through `forward`. -/
theorem Bridge.Sound.forwarded (h : b.Sound ryu decoder) {i : Nat} {c : Connection}
    {line : Octets} (hc : b.conns i = some c) (hstage : c.stage = .forwarding line)
    (p : Passage) : (b.forwarded ryu decoder i c line p).Sound ryu decoder := by
  let out := b.device.relay ryu decoder b.allowRemoteMgmt c.listenerAllowsMgmt line p
  let r : Relayed P := ⟨i, line, b.device, out.1, out.2⟩
  have hof : ∀ j, (b.forwarded ryu decoder i c line p).of j =
      b.of j ++ if i = j then [r] else [] := by
    intro j
    unfold Bridge.of Bridge.forwarded
    rw [List.filter_append, List.filter_singleton]
    simp [r, out]
  have hconns : (b.forwarded ryu decoder i c line p).conns =
      (b.set i { c with stage := .replying out.2 }).conns := rfl
  constructor
  · intro j hj
    by_cases hji : j = i
    · rw [hconns, hji, Bridge.conns_set_self] at hj
      cases hj
    · rw [hconns, b.conns_set_of_ne hji] at hj
      rw [hof, h.unused j hj, if_neg (Ne.symm hji)]
      rfl
  · intro j cj hj
    by_cases hji : j = i
    · rw [hconns, hji, Bridge.conns_set_self] at hj
      cases hj
      rw [hof, hji, if_pos rfl]
      exact (h.conn i c hc).forwarded (r := r) hstage
    · rw [hconns, b.conns_set_of_ne hji] at hj
      rw [hof, if_neg (Ne.symm hji), List.append_nil]
      exact h.conn j cj hj
  · intro r' hr'
    rcases List.mem_append.mp hr' with hold | hnew
    · obtain ⟨cr, p', hcr, hrelay⟩ := h.relayed r' hold
      by_cases hri : r'.conn = i
      · rw [hri, hc] at hcr
        cases hcr
        refine ⟨{ c with stage := .replying out.2 }, p', ?_, hrelay⟩
        rw [hconns, hri]
        exact b.conns_set_self i _
      · exact ⟨cr, p', by rw [hconns, b.conns_set_of_ne hri]; exact hcr, hrelay⟩
    · rw [List.mem_singleton.mp hnew]
      exact ⟨_, p, b.conns_set_self i _, rfl⟩

theorem Bridge.Sound.step (h : b.Sound ryu decoder) {a : BridgeAct}
    (hstep : b.step ryu decoder a = some b') : b'.Sound ryu decoder := by
  rcases Bridge.step_cases hstep with ⟨i, listener, hnone, rfl⟩ | ⟨i, c, c', hc, hmove, rfl⟩ |
    ⟨i, c, line, p, hc, hstage, rfl⟩ | ⟨device, rfl⟩
  · refine h.set ?_ ?_
    · rw [h.unused i hnone]
      exact .accepted listener
    · intro old hold
      rw [hnone] at hold
      cases hold
  · refine h.set ((h.conn i c hc).move hmove) ?_
    intro old hold
    rw [hc] at hold
    cases hold
    exact hmove.listener
  · exact h.forwarded hc hstage p
  · exact ⟨h.unused, h.conn, h.relayed⟩

theorem Bridge.Run.sound {remote : Bool} {device : Sys P}
    (hrun : Bridge.Run ryu decoder (.started remote device) b) : b.Sound ryu decoder := by
  induction hrun with
  | start =>
    constructor
    · intro i _
      rfl
    · intro i c h
      cases h
    · intro r h
      cases h
  | step _ a hstep ih => exact ih.step hstep

end Step

/-! ### Two clients -/

/-- The bridge after a list of steps. -/
def Bridge.after (ryu : UInt64 → Octets) (decoder : Octets → String) (b : Bridge P)
    (acts : List BridgeAct) : Option (Bridge P) := acts.foldlM (Bridge.step ryu decoder) b

namespace Bench

/-- `{"pong":{"signerLoaded":false}}` -/
def pong : Octets := Response.toVec (fun _ => [0x30]) (.pong false)

end Bench

end PicoSignet
