/-
  PicoSignet/Answers.lean
  =======================
  **One answer for each line** — the session loop over its whole life.

  The bytes that come in are split by the line assembler; a full line goes through
  `process_line` and its response is framed, an overlong one gets a fixed error.
  Between two packets nothing is owed: the requests answered are the lines that the
  stream so far has ended, in order, and the bytes sent are their answers, end to end
  (`Served`).  In the middle of a packet the invariant says what is still owed: the
  bytes not looked at, the line at hand, the part of its answer not yet written.
-/
import PicoSignet.Relock

set_option autoImplicit false

namespace PicoSignet

variable {P : Prims}

/-! ### What an await still owes -/

/-- The bytes of the last packet not looked at yet. -/
def Pc.ahead (pc : Pc) : Octets := pc.rest.getD []

/-- The assembler of the session. -/
def Pc.assembler : Pc → LineAssembler
  | .reading asm => asm
  | .busy _ asm _ => asm
  | .showing _ asm _ => asm
  | .writing _ _ asm _ => asm
  | .draining asm _ => asm
  | _ => .new

/-- The line at hand. -/
def Pc.waiting : Pc → List LineEvent
  | .busy line _ _ => [.line line]
  | _ => []

/-- The part of the answer at hand that is not written yet. -/
def Pc.unsent (encode : Response → Octets) : Pc → Octets
  | .showing resp _ _ => encode resp ++ [newline]
  | .writing left _ _ _ => left
  | _ => []

def Firmware.InSession (fw : Firmware P) : Prop := ∃ h flag pc, fw = .on h flag pc ∧ ¬ pc.Between

/-! ### What a poll takes in, answers and sends -/

/-- The bytes of the packet that comes in. -/
def Poll.received (m : Poll P) : Octets :=
  match m.before, m.input with
  | .on _ _ (.reading _), .packet bytes => bytes
  | _, _ => []

/-- The bytes of the packet that goes out. -/
def Poll.sent (m : Poll P) : Octets :=
  match m.before, m.input with
  | .on _ _ (.writing left _ _ _), .ready _ => left.take PACKET
  | _, _ => []

/-- The poll runs the loop over the bytes of a packet. -/
def Poll.looks (m : Poll P) : Bool :=
  match m.before, m.input with
  | .on _ _ (.reading _), .packet _ => true
  | .on h _ (.writing left answer _ _), .ready _ =>
    decide (left.length ≤ PACKET) && !(answer && h.rebootRequested)
  | .on _ _ (.draining _ _), .rebootRefused => true
  | _, _ => false

/-- The answer to an overlong line, where the loop over a packet has stopped at one. -/
def Firmware.refusal : Firmware P → List (LineEvent × Octets)
  | .on _ _ (.writing _ false _ _) => [(.tooLong, tooLargeText ++ [newline])]
  | _ => []

/-- The requests that the poll answers, each with its answer. -/
def Poll.answers (encode : Response → Octets) (m : Poll P) : List (LineEvent × Octets) :=
  match m.before, m.input with
  | .on h _ (.busy line _ _), .ready faults =>
    match handle line (h.facing faults) with
    | .ok resp _ => [(.line line, encode resp ++ [newline])]
    | .error _ _ => []
  | _, _ => if m.looks then m.after.refusal else []

/-- The polls of one session, oldest first: from the first `read_packet` on, as long as
    the session is neither ended nor left. -/
inductive SessionRun (encode : Response → Octets) : List (Poll P) → Firmware P → Prop
  | opened (h : Hsm P) (flag : Bool) : SessionRun encode [] (.on h flag (.reading .new))
  | polled {polls : List (Poll P)} {fw : Firmware P} (hrun : SessionRun encode polls fw)
      (i : Input) (hopen : (fw.step encode i).InSession) :
      SessionRun encode (polls ++ [⟨i, fw, fw.step encode i⟩]) (fw.step encode i)

/-- The bytes that came in up to the await, split and answered; nothing else was sent. -/
structure Served (encode : Response → Octets) (received : Octets)
    (answers : List (LineEvent × Octets)) (sent : Octets) (pc : Pc) : Prop where
  taken : ∃ seen, received = seen ++ pc.ahead ∧
    LineAssembler.new.feed seen = (pc.assembler, answers.map Prod.fst ++ pc.waiting)
  sent : sent ++ pc.unsent encode = answers.flatMap Prod.snd

section

variable {encode : Response → Octets}

/-! ### The loop over a packet -/

/-- Where the loop over a packet stops, it has looked at the bytes up to there; an
    overlong line it has stopped at is answered by what it goes on to write.  It looks at
    no byte only where it is through with the packet. -/
theorem scan_stops (encode : Response → Octets) (h : Hsm P) (flag : Bool) (asm : LineAssembler)
    (bytes : Octets) :
    ∃ h' flag' pc looked, scan h flag asm bytes = .on h' flag' pc ∧ ¬ pc.Between ∧
      bytes = looked ++ pc.ahead ∧
      asm.feed looked = (pc.assembler, (scan h flag asm bytes).refusal.map Prod.fst ++ pc.waiting) ∧
      pc.unsent encode = (scan h flag asm bytes).refusal.flatMap Prod.snd ∧
      (looked = [] → ∃ asm, pc = .reading asm) := by
  induction bytes generalizing asm with
  | nil =>
    exact ⟨h, flag, .reading asm, [], rfl, by simp [Pc.Between], rfl, rfl, rfl, fun _ => ⟨asm, rfl⟩⟩
  | cons b rest ih =>
    unfold scan
    split
    · rename_i asm' line hpush
      have hfeed : asm.feed [b] = (asm', [.line line]) := by
        unfold LineAssembler.feed
        rw [hpush]
        rfl
      cases flag with
      | true =>
        exact ⟨_, _, _, [b], rfl, by simp [Pc.Between], rfl, hfeed, rfl, fun h => by cases h⟩
      | false =>
        exact ⟨_, _, _, [b], rfl, by simp [Pc.Between], rfl, hfeed, rfl, fun h => by cases h⟩
    · rename_i asm' hpush
      have hfeed : asm.feed [b] = (asm', [.tooLong]) := by
        unfold LineAssembler.feed
        rw [hpush]
        rfl
      refine ⟨_, _, _, [b], rfl, by simp [Pc.Between], rfl, hfeed, ?_, fun h => by cases h⟩
      simp [Pc.unsent, Firmware.refusal]
    · rename_i asm' hpush
      obtain ⟨h', flag', pc, looked, hscan, hin, hbytes, hfeed, hunsent, -⟩ := ih asm'
      refine ⟨h', flag', pc, b :: looked, hscan, hin, by rw [hbytes, List.cons_append], ?_, hunsent,
        fun h => by cases h⟩
      have hcons : asm.feed (b :: looked) = asm'.feed looked := by
        change (((asm.push b).1.feed looked).1,
          (asm.push b).2.toList ++ ((asm.push b).1.feed looked).2) = _
        rw [hpush]
        rfl
      rw [hcons, hfeed]

/-! ### One poll -/

variable {received sent : Octets} {answers : List (LineEvent × Octets)} {pc : Pc}

theorem Served.scan {asm : LineAssembler} {bytes : Octets}
    (htaken : ∃ seen, received = seen ++ bytes ∧
      LineAssembler.new.feed seen = (asm, answers.map Prod.fst))
    (hsent : sent = answers.flatMap Prod.snd) (h : Hsm P) (flag : Bool) :
    ∃ h' flag' pc, PicoSignet.scan h flag asm bytes = .on h' flag' pc ∧ ¬ pc.Between ∧
      Served encode received (answers ++ (PicoSignet.scan h flag asm bytes).refusal) sent pc := by
  obtain ⟨seen, hbytes, hseen⟩ := htaken
  obtain ⟨h', flag', pc, looked, hscan, hin, hahead, hfeed, hunsent, -⟩ :=
    scan_stops encode h flag asm bytes
  refine ⟨h', flag', pc, hscan, hin, ⟨seen ++ looked, ?_, ?_⟩, ?_⟩
  · rw [hbytes, hahead, List.append_assoc]
  · rw [LineAssembler.feed_append, hseen, hfeed, List.map_append, List.append_assoc]
  · rw [hsent, hunsent, List.flatMap_append]

/-- `process_line` runs once on the line at hand, and its response is the answer. -/
theorem Served.process {h : Hsm P} {flag : Bool} {line rest : Octets} {asm : LineAssembler}
    (hs : Served encode received answers sent (.busy line asm rest)) (faults : List Fault)
    (hopen : ((Firmware.on h flag (.busy line asm rest)).step encode (.ready faults)).InSession) :
    let m : Poll P := ⟨.ready faults, .on h flag (.busy line asm rest),
      (Firmware.on h flag (.busy line asm rest)).step encode (.ready faults)⟩
    ∃ h' flag' pc', m.after = .on h' flag' pc' ∧ ¬ pc'.Between ∧
      Served encode (received ++ m.received) (answers ++ m.answers encode) (sent ++ m.sent) pc' := by
  intro m
  have hstep : m.after = match handle line (h.facing faults) with
      | .ok resp h => .on h flag (.showing resp asm rest)
      | .error _ h => .off h.flash := rfl
  have hanswers : m.answers encode = match handle line (h.facing faults) with
      | .ok resp _ => [(.line line, encode resp ++ [newline])]
      | .error _ _ => [] := rfl
  have hrecv : received ++ m.received = received := List.append_nil _
  have hout : sent ++ m.sent = sent := List.append_nil _
  cases hrun : handle line (h.facing faults) with
  | error e h' =>
    exfalso
    obtain ⟨h', flag', pc', hafter, -⟩ := hopen
    change m.after = _ at hafter
    rw [hstep, hrun] at hafter
    cases hafter
  | ok resp h' =>
    rw [hrun] at hstep hanswers
    obtain ⟨seen, hbytes, hfeed⟩ := hs.taken
    have hsent := hs.sent
    change sent ++ [] = _ at hsent
    rw [List.append_nil] at hsent
    refine ⟨h', flag, _, hstep, by simp [Pc.Between], ⟨seen, ?_, ?_⟩, ?_⟩
    · rw [hrecv]
      exact hbytes
    · rw [hfeed, hanswers, List.map_append, List.append_assoc]
      rfl
    · rw [hout, hanswers, List.flatMap_append, hsent]
      simp [Pc.unsent]

/-- An answer goes out packet by packet, and the loop over the request's packet goes on
    behind the last one. -/
theorem Served.write {h : Hsm P} {flag : Bool} {left rest : Octets} {answer : Bool}
    {asm : LineAssembler} (hs : Served encode received answers sent (.writing left answer asm rest))
    (faults : List Fault) :
    let m : Poll P := ⟨.ready faults, .on h flag (.writing left answer asm rest),
      (Firmware.on h flag (.writing left answer asm rest)).step encode (.ready faults)⟩
    ∃ h' flag' pc', m.after = .on h' flag' pc' ∧ ¬ pc'.Between ∧
      Served encode (received ++ m.received) (answers ++ m.answers encode) (sent ++ m.sent) pc' := by
  intro m
  obtain ⟨seen, hbytes, hfeed⟩ := hs.taken
  have hsent := hs.sent
  change sent ++ left = _ at hsent
  change _ = (asm, answers.map Prod.fst ++ []) at hfeed
  have hstep : m.after = if left.length > PACKET then
        .on h flag (.writing (left.drop PACKET) answer asm rest)
      else if answer && h.rebootRequested then
        .on { h with rebootRequested := false } flag (.draining asm rest)
      else PicoSignet.scan h flag asm rest := rfl
  have hlooks : m.looks = (decide (left.length ≤ PACKET) && !(answer && h.rebootRequested)) := rfl
  have hanswers : m.answers encode = if m.looks then m.after.refusal else [] := rfl
  have hout : m.sent = left.take PACKET := rfl
  have hrecv : received ++ m.received = received := List.append_nil _
  rw [hrecv]
  by_cases hlong : left.length > PACKET
  · rw [if_pos hlong] at hstep
    have hquiet : m.answers encode = [] := by
      rw [hanswers, hlooks]
      simp [hlong]
    refine ⟨h, flag, _, hstep, by simp [Pc.Between], ⟨seen, hbytes, ?_⟩, ?_⟩
    · rw [hquiet, List.append_nil]
      exact hfeed
    · rw [hquiet, List.append_nil, hout, List.append_assoc]
      change sent ++ (left.take PACKET ++ left.drop PACKET) = _
      rw [List.take_append_drop]
      exact hsent
  · rw [if_neg hlong] at hstep
    have hlast : left.take PACKET = left := List.take_of_length_le (Nat.le_of_not_lt hlong)
    by_cases hreboot : (answer && h.rebootRequested) = true
    · rw [if_pos hreboot] at hstep
      have hquiet : m.answers encode = [] := by
        rw [hanswers, hlooks, hreboot]
        simp
      refine ⟨_, flag, _, hstep, by simp [Pc.Between], ⟨seen, hbytes, ?_⟩, ?_⟩
      · rw [hquiet, List.append_nil]
        exact hfeed
      · rw [hquiet, List.append_nil, hout, hlast]
        change sent ++ left ++ [] = _
        rw [List.append_nil]
        exact hsent
    · rw [if_neg hreboot] at hstep
      have hgoes : m.answers encode = (PicoSignet.scan h flag asm rest).refusal := by
        rw [hanswers, hlooks, hstep, Bool.eq_false_of_not_eq_true hreboot]
        simp [Nat.le_of_not_lt hlong]
      rw [List.append_nil] at hfeed
      rw [hgoes, hout, hlast, hstep]
      exact Served.scan ⟨seen, hbytes, hfeed⟩ hsent h flag

/-- A session that goes on stays `Served`: one case for each await and what it waits for. -/
theorem Served.step {h : Hsm P} {flag : Bool} (hs : Served encode received answers sent pc)
    (hin : ¬ pc.Between) (i : Input)
    (hopen : ((Firmware.on h flag pc).step encode i).InSession) :
    let m : Poll P := ⟨i, .on h flag pc, (Firmware.on h flag pc).step encode i⟩
    ∃ h' flag' pc', m.after = .on h' flag' pc' ∧ ¬ pc'.Between ∧
      Served encode (received ++ m.received) (answers ++ m.answers encode) (sent ++ m.sent) pc' := by
  intro m
  -- nothing comes in, nothing goes out, and the await owes what it owed before
  have hsame : m.received = [] → m.answers encode = [] → m.sent = [] →
      ∀ {h' flag' pc'}, m.after = .on h' flag' pc' → ¬ pc'.Between → pc'.ahead = pc.ahead →
      pc'.assembler = pc.assembler → pc'.waiting = pc.waiting →
      pc'.unsent encode = pc.unsent encode →
      ∃ h' flag' pc', m.after = .on h' flag' pc' ∧ ¬ pc'.Between ∧
        Served encode (received ++ m.received) (answers ++ m.answers encode) (sent ++ m.sent) pc' := by
    intro hrecv hans hout h' flag' pc' hafter hin' hahead hasm hwait hunsent
    refine ⟨h', flag', pc', hafter, hin', ?_, ?_⟩
    · rw [hrecv, hans, List.append_nil, List.append_nil, hahead, hasm, hwait]
      exact hs.taken
    · rw [hans, hout, List.append_nil, List.append_nil, hunsent]
      exact hs.sent
  cases i with
  | power p =>
    exfalso
    obtain ⟨h', flag', pc', hafter, hin'⟩ := hopen
    unfold Firmware.step at hafter
    dsimp only at hafter
    split at hafter
    · cases hafter
      exact hin' (Or.inl rfl)
    · cases hafter
  | reset =>
    exact hsame (by cases pc <;> rfl) (by cases pc <;> rfl) (by cases pc <;> rfl) rfl hin
      rfl rfl rfl rfl
  | suspended suspended =>
    exact hsame (by cases pc <;> rfl) (by cases pc <;> rfl) (by cases pc <;> rfl) rfl hin
      rfl rfl rfl rfl
  | advance mono =>
    exact hsame (by cases pc <;> rfl) (by cases pc <;> rfl) (by cases pc <;> rfl) rfl hin
      rfl rfl rfl rfl
  | connected =>
    cases pc with
    | connecting => exact absurd (Or.inr (Or.inl rfl)) hin
    | _ => exact hsame rfl rfl rfl rfl hin rfl rfl rfl rfl
  | packet bytes =>
    cases pc with
    | reading asm =>
      obtain ⟨seen, hbytes, hfeed⟩ := hs.taken
      have hsent := hs.sent
      change sent ++ [] = _ at hsent
      rw [List.append_nil] at hsent
      change received = seen ++ [] at hbytes
      change _ = (asm, answers.map Prod.fst ++ []) at hfeed
      rw [List.append_nil] at hbytes hfeed
      have htaken : ∃ seen, received ++ bytes = seen ++ bytes ∧
          LineAssembler.new.feed seen = (asm, answers.map Prod.fst) :=
        ⟨seen, by rw [hbytes], hfeed⟩
      obtain ⟨h', flag', pc', hscan, hin', hserved⟩ := Served.scan htaken hsent h flag
      refine ⟨h', flag', pc', hscan, hin', ?_⟩
      have hout : sent ++ m.sent = sent := List.append_nil _
      rw [hout]
      exact hserved
    | _ => exact hsame rfl rfl rfl rfl hin rfl rfl rfl rfl
  | ready faults =>
    cases pc with
    | starting => exact absurd (Or.inl rfl) hin
    | connecting => exact absurd (Or.inr (Or.inl rfl)) hin
    | relit => exact absurd (Or.inr (Or.inr rfl)) hin
    | reading asm => exact hsame rfl rfl rfl rfl hin rfl rfl rfl rfl
    | draining asm rest =>
      obtain ⟨h', flag', pc', hafter, -⟩ := hopen
      cases hafter
    | showing resp asm rest =>
      exact hsame rfl rfl rfl rfl (by simp [Pc.Between]) rfl rfl rfl rfl
    | busy line asm rest => exact hs.process faults hopen
    | writing left answer asm rest => exact hs.write faults
  | ioError =>
    cases pc with
    | reading asm =>
      obtain ⟨h', flag', pc', hafter, hin'⟩ := hopen
      cases hafter
      exact absurd (Or.inr (Or.inr rfl)) hin'
    | writing left answer asm rest =>
      obtain ⟨h', flag', pc', hafter, hin'⟩ := hopen
      cases hafter
      exact absurd (Or.inr (Or.inr rfl)) hin'
    | _ => exact hsame rfl rfl rfl rfl hin rfl rfl rfl rfl
  | rebootRefused =>
    cases pc with
    | draining asm rest =>
      obtain ⟨seen, hbytes, hfeed⟩ := hs.taken
      have hsent := hs.sent
      change sent ++ [] = _ at hsent
      change _ = (asm, answers.map Prod.fst ++ []) at hfeed
      rw [List.append_nil] at hsent hfeed
      obtain ⟨h', flag', pc', hscan, hin', hserved⟩ := Served.scan ⟨seen, hbytes, hfeed⟩ hsent h flag
      refine ⟨h', flag', pc', hscan, hin', ?_⟩
      have hrecv : received ++ m.received = received := List.append_nil _
      have hout : sent ++ m.sent = sent := List.append_nil _
      rw [hrecv, hout]
      exact hserved
    | _ => exact hsame rfl rfl rfl rfl hin rfl rfl rfl rfl

/-! ### A whole session -/

theorem SessionRun.served {polls : List (Poll P)} {fw : Firmware P}
    (hrun : SessionRun encode polls fw) :
    ∃ h flag pc, fw = .on h flag pc ∧ ¬ pc.Between ∧
      Served encode (polls.flatMap Poll.received) (polls.flatMap (Poll.answers encode))
        (polls.flatMap Poll.sent) pc := by
  induction hrun with
  | opened h flag =>
    exact ⟨h, flag, _, rfl, by simp [Pc.Between], ⟨[], rfl, rfl⟩, rfl⟩
  | @polled polls fw hrun i hopen ih =>
    obtain ⟨h, flag, pc, rfl, hin, hserved⟩ := ih
    obtain ⟨h', flag', pc', hafter, hin', hserved'⟩ := hserved.step hin i hopen
    refine ⟨h', flag', pc', hafter, hin', ?_⟩
    simp only [List.flatMap_append, List.flatMap_cons, List.flatMap_nil, List.append_nil]
    exact hserved'

/-! ### The loop comes back to its endpoint -/

/-- As long as its awaits return, the loop reads its endpoint again, unless the power
    is cut or the device reboots. -/
def Settles (encode : Response → Octets) (fw : Firmware P) : Prop :=
  ∃ n : Nat, (∃ h flag asm, (fun fw => fw.step encode (.ready []))^[n] fw = .on h flag (.reading asm)) ∨
    ∃ f, (fun fw : Firmware P => fw.step encode (.ready []))^[n] fw = .off f

theorem Settles.of_step {fw : Firmware P} (h : Settles encode (fw.step encode (.ready []))) :
    Settles encode fw := by
  obtain ⟨n, hn⟩ := h
  exact ⟨n + 1, hn⟩

theorem settles_reading (h : Hsm P) (flag : Bool) (asm : LineAssembler) :
    Settles encode (.on h flag (.reading asm)) := ⟨0, Or.inl ⟨h, flag, asm, rfl⟩⟩

theorem settles_off (f : Flash) : Settles encode (.off f : Firmware P) := ⟨0, Or.inr ⟨f, rfl⟩⟩

/-- Each newline takes the loop forward in its packet. -/
theorem settles_scan {n : Nat}
    (ih : ∀ (h : Hsm P) flag pc, ¬ pc.Between → pc.ahead.length < n →
      Settles encode (.on h flag pc)) (h : Hsm P) (flag : Bool) (asm : LineAssembler)
    {rest : Octets} (hrest : rest.length ≤ n) : Settles encode (scan h flag asm rest) := by
  obtain ⟨h', flag', pc, looked, hscan, hin, hbytes, -, -, hend⟩ :=
    scan_stops encode h flag asm rest
  rw [hscan]
  cases looked with
  | nil =>
    obtain ⟨asm', rfl⟩ := hend rfl
    exact settles_reading h' flag' asm'
  | cons b looked =>
    apply ih h' flag' pc hin
    rw [hbytes, List.length_append, List.length_cons] at hrest
    omega

theorem settles (h : Hsm P) (flag : Bool) (pc : Pc) (hin : ¬ pc.Between) :
    Settles encode (.on h flag pc) := by
  induction hlen : pc.ahead.length using Nat.strong_induction_on generalizing h flag pc with
  | _ n ih =>
    have hfront : ∀ (h : Hsm P) flag pc, ¬ pc.Between → pc.ahead.length < n →
        Settles encode (.on h flag pc) := fun h flag pc hin hlt => ih _ hlt h flag pc hin rfl
    have hwriting : ∀ (h : Hsm P) (left : Octets) answer asm rest, rest.length ≤ n →
        Settles encode (.on h flag (.writing left answer asm rest)) := by
      intro h left answer asm rest hrest
      induction hleft : left.length using Nat.strong_induction_on generalizing left with
      | _ k ihleft =>
        apply Settles.of_step
        unfold Firmware.step
        dsimp only
        split
        · rename_i hlong
          apply ihleft (left.drop PACKET).length _ _ rfl
          rw [List.length_drop]
          unfold PACKET at hlong ⊢
          omega
        · split
          · exact Settles.of_step (settles_off _)
          · exact settles_scan hfront h flag asm hrest
    cases pc with
    | starting => exact absurd (Or.inl rfl) hin
    | connecting => exact absurd (Or.inr (Or.inl rfl)) hin
    | relit => exact absurd (Or.inr (Or.inr rfl)) hin
    | reading asm => exact settles_reading h flag asm
    | draining asm rest => exact Settles.of_step (settles_off _)
    | writing left answer asm rest => exact hwriting h left answer asm rest (le_of_eq hlen)
    | showing resp asm rest =>
      exact Settles.of_step (hwriting h _ true asm rest (le_of_eq hlen))
    | busy line asm rest =>
      apply Settles.of_step
      unfold Firmware.step
      dsimp only
      cases handle line (h.facing []) with
      | error e h' => exact settles_off _
      | ok resp h' => exact Settles.of_step (hwriting h' _ true asm rest (le_of_eq hlen))

end

/-! ### Lines and answers -/

/-- Line reassembly is exact, and the session loop answers each line once.

    A stream is reported as its newlines split it, one event a newline, each line as if it
    stood alone, and the buffer stays within the cap.  At every await of a session the
    lines that the bytes looked at have ended are those answered so far, in order, and the
    line at hand; what was sent are the answers, less the part still to be written.  Where
    the loop waits for a packet nothing is owed, and it does come back there. -/
theorem lines_answered_once (encode : Response → Octets) :
    (∀ stream : Octets,
      (LineAssembler.new.feed stream).2 = (stream.splitOn newline).dropLast.map lineEvent ∧
      (LineAssembler.new.feed stream).2.length = stream.count newline ∧
      (LineAssembler.new.feed stream).1.buf.length ≤ MAX_LINE) ∧
    (∀ (polls : List (Poll P)) h flag pc, SessionRun encode polls (.on h flag pc) →
      ∃ seen, polls.flatMap Poll.received = seen ++ pc.ahead ∧
        (seen.splitOn newline).dropLast.map lineEvent =
          (polls.flatMap (Poll.answers encode)).map Prod.fst ++ pc.waiting ∧
        polls.flatMap Poll.sent ++ pc.unsent encode =
          (polls.flatMap (Poll.answers encode)).flatMap Prod.snd) ∧
    ∀ (polls : List (Poll P)) fw, SessionRun encode polls fw → Settles encode fw := by
  refine ⟨?_, ?_, ?_⟩
  · intro stream
    refine ⟨LineAssembler.feed_stream stream, LineAssembler.length_feed _ stream, ?_⟩
    exact LineAssembler.feed_buf_le stream (Nat.zero_le _)
  · intro polls h flag pc hrun
    obtain ⟨h', flag', pc', heq, -, hserved⟩ := hrun.served
    cases heq
    obtain ⟨seen, hbytes, hfeed⟩ := hserved.taken
    refine ⟨seen, hbytes, ?_, hserved.sent⟩
    rw [← LineAssembler.feed_stream, hfeed]
  · intro polls fw hrun
    obtain ⟨h, flag, pc, rfl, hin, -⟩ := hrun.served
    exact settles h flag pc hin

/-- An empty line: it is processed, shown and answered, and the loop is back at its
    endpoint. -/
theorem lines_answered_once_empty :
    ∃ polls : List (Poll Bench.unlocking), ∃ h flag asm,
      SessionRun (fun _ => []) polls (.on h flag (.reading asm)) ∧
      polls.flatMap Poll.received = [newline] ∧
      (polls.flatMap (Poll.answers fun _ => [])).map Prod.fst = [.line []] ∧
      polls.flatMap Poll.sent = (polls.flatMap (Poll.answers fun _ => [])).flatMap Prod.snd := by
  have hidle : ∀ (polls : List (Poll Bench.unlocking)) h flag asm,
      SessionRun (fun _ => []) polls (.on h flag (.reading asm)) →
      polls.flatMap Poll.received = [newline] →
      (polls.flatMap (Poll.answers fun _ => [])).map Prod.fst = [.line []] ∧
        polls.flatMap Poll.sent = (polls.flatMap (Poll.answers fun _ => [])).flatMap Prod.snd := by
    intro polls h flag asm hrun hreceived
    obtain ⟨seen, hbytes, hevents, hsent⟩ :=
      (lines_answered_once fun _ => []).2.1 polls h flag (.reading asm) hrun
    have hseen : seen = [newline] := by
      rw [← hreceived, hbytes]
      exact (List.append_nil seen).symm
    have hlines : (([newline] : Octets).splitOn newline).dropLast.map lineEvent = [.line []] := by
      decide
    rw [hseen, hlines] at hevents
    exact ⟨(List.append_nil _).symm.trans hevents.symm, (List.append_nil _).symm.trans hsent⟩
  have hopened : SessionRun (fun _ => []) []
      (.on (Hsm.fresh [] 0 (Bench.image []) Drbg.new : Hsm Bench.unlocking) false (.reading .new)) :=
    .opened _ false
  have htaken := hopened.polled (.packet [newline]) ⟨_, _, _, rfl, by simp [Pc.Between]⟩
  have hprocessed := htaken.polled (.ready []) ⟨_, _, _, rfl, by simp [Pc.Between]⟩
  have hshown := hprocessed.polled (.ready []) ⟨_, _, _, rfl, by simp [Pc.Between]⟩
  have hwritten := hshown.polled (.ready []) ⟨_, _, _, rfl, by simp [Pc.Between]⟩
  obtain ⟨hevents, hsent⟩ := hidle _ _ _ _ hwritten rfl
  exact ⟨_, _, _, _, hwritten, rfl, hevents, hsent⟩

end PicoSignet
