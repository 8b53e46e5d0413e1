/-
  PicoSignet/Relock.lean
  ======================
  **A reset or a suspend of the bus re-locks** — the bus handler only sets a flag, and
  the loop looks at it before each request.  The argument is one invariant: as long as
  the flag is down, a ready device has been unlocked since the last bus event; and while
  a request waits at its await, the same holds of the events before its packet.
-/
import PicoSignet.Firmware
import PicoSignet.RetryBudget

set_option autoImplicit false

namespace PicoSignet

open Crash

variable {P : Prims}

/-- One poll with the firmware around it. -/
structure Poll (P : Prims) where
  input : Input
  before : Firmware P
  after : Firmware P

/-- The histories of polls, newest first, that lead from a flash image to a state. -/
inductive FirmwareRun (encode : Response → Octets) (image : Flash) :
    List (Poll P) → Firmware P → Prop
  | start : FirmwareRun encode image [] (.off image)
  | step {hist : List (Poll P)} {fw : Firmware P} (h : FirmwareRun encode image hist fw)
      (i : Input) : FirmwareRun encode image (⟨i, fw, fw.step encode i⟩ :: hist) (fw.step encode i)

/-! ### What a poll can do -/

/-- The bytes of the last packet that are still ahead at an await. -/
def Pc.rest : Pc → Option Octets
  | .busy _ _ rest => some rest
  | .showing _ _ rest => some rest
  | .writing _ _ _ rest => some rest
  | .draining _ rest => some rest
  | _ => none

/-- No session is open. -/
def Pc.Between (pc : Pc) : Prop := pc = .starting ∨ pc = .connecting ∨ pc = .relit

def Pc.IsBusy (pc : Pc) : Prop := ∃ line asm rest, pc = .busy line asm rest

/-- A newline of the packet ends the line, and `rest` comes behind it. -/
def EndsLine (bytes rest : Octets) : Prop := ∃ seen, bytes = seen ++ newline :: rest

/-- Where the loop over a packet stops. -/
inductive Scanned (h : Hsm P) (flag : Bool) (bytes : Octets) : Firmware P → Prop
  | read {asm : LineAssembler} : Scanned h flag bytes (.on h flag (.reading asm))
  | relocked {line rest : Octets} {asm : LineAssembler} (hends : EndsLine bytes rest) :
      Scanned h flag bytes (.on h.relockOnTransportReset false (.busy line asm rest))
  | taken {line rest : Octets} {asm : LineAssembler} (hdown : flag = false)
      (hends : EndsLine bytes rest) : Scanned h flag bytes (.on h false (.busy line asm rest))
  | refused {left rest : Octets} {asm : LineAssembler} (hends : EndsLine bytes rest) :
      Scanned h flag bytes (.on h flag (.writing left false asm rest))

theorem EndsLine.append {bytes rest : Octets} (h : EndsLine bytes rest) (seen : Octets) :
    EndsLine (seen ++ bytes) rest := by
  obtain ⟨seen', rfl⟩ := h
  exact ⟨seen ++ seen', by rw [List.append_assoc]⟩

theorem Scanned.append {h : Hsm P} {flag : Bool} {bytes : Octets} {fw : Firmware P}
    (hs : Scanned h flag bytes fw) (seen : Octets) : Scanned h flag (seen ++ bytes) fw := by
  cases hs with
  | read => exact .read
  | relocked hends => exact .relocked (hends.append seen)
  | taken hdown hends => exact .taken hdown (hends.append seen)
  | refused hends => exact .refused (hends.append seen)

theorem scanned (h : Hsm P) (flag : Bool) (bytes : Octets) :
    ∀ asm, Scanned h flag bytes (scan h flag asm bytes) := by
  induction bytes with
  | nil => exact fun asm => .read
  | cons b rest ih =>
    intro asm
    unfold scan
    split
    · rename_i asm' line hpush
      obtain rfl := asm.newline_of_push hpush
      cases flag with
      | true => exact .relocked ⟨[], rfl⟩
      | false => exact .taken rfl ⟨[], rfl⟩
    · rename_i asm' hpush
      obtain rfl := asm.newline_of_push hpush
      exact .refused ⟨[], rfl⟩
    · exact (ih _).append [b]

/-- Everything one poll can do. -/
inductive Polled : Firmware P → Input → Firmware P → Prop
  | powered {fw : Firmware P} {p : PowerUp} {h : Hsm P}
      (hboot : powerUp fw.sys.flash p = .ok () h) :
      Polled fw (.power p) (.on h false .starting)
  | unpowered {fw : Firmware P} {p : PowerUp} {e : Halt} {h : Hsm P}
      (hboot : powerUp fw.sys.flash p = .error e h) : Polled fw (.power p) (.off h.flash)
  | cut {h h' : Hsm P} {flag : Bool} {line rest : Octets} {asm : LineAssembler}
      {faults : List Fault} {e : Halt} (hrun : handle line (h.facing faults) = .error e h') :
      Polled (.on h flag (.busy line asm rest)) (.ready faults) (.off h'.flash)
  | left {h : Hsm P} {flag : Bool} {asm : LineAssembler} {rest : Octets} {faults : List Fault} :
      Polled (.on h flag (.draining asm rest)) (.ready faults) (.off h.flash)
  | dead {f : Flash} {i : Input} : Polled (.off f) i (.off f)
  | bus {h : Hsm P} {flag : Bool} {pc : Pc} {i : Input}
      (hi : i = .reset ∨ i = .suspended true) : Polled (.on h flag pc) i (.on h true pc)
  | idle {h : Hsm P} {flag : Bool} {pc : Pc} {i : Input} (hi : i ≠ .reset ∧ i ≠ .suspended true)
      (hpacket : ∀ bytes, i = .packet bytes → ∀ asm, pc ≠ .reading asm) :
      Polled (.on h flag pc) i (.on h flag pc)
  | advanced {h : Hsm P} {flag : Bool} {pc : Pc} {mono : UInt64} :
      Polled (.on h flag pc) (.advance mono) (.on { h with mono := max h.mono mono } flag pc)
  | moved {h : Hsm P} {flag : Bool} {pc pc' : Pc} {i : Input}
      (hi : i = .connected ∨ ∃ faults, i = .ready faults) (hrest : pc'.rest = none ∨ pc'.rest = pc.rest)
      (hbusy : ¬ pc.IsBusy ∧ ¬ pc'.IsBusy) (hbetween : pc'.Between → pc.Between) :
      Polled (.on h flag pc) i (.on h flag pc')
  | received {h : Hsm P} {flag : Bool} {asm : LineAssembler} {bytes : Octets} {fw : Firmware P}
      (hscan : Scanned h flag bytes fw) :
      Polled (.on h flag (.reading asm)) (.packet bytes) fw
  | resumed {h : Hsm P} {flag : Bool} {pc : Pc} {i : Input} {rest : Octets} {fw : Firmware P}
      (hi : i = .rebootRefused ∨ ∃ faults, i = .ready faults) (hrest : pc.rest = some rest)
      (hbusy : ¬ pc.IsBusy) (hscan : Scanned h flag rest fw) : Polled (.on h flag pc) i fw
  | drained {h : Hsm P} {flag : Bool} {left rest : Octets} {answer : Bool} {asm : LineAssembler}
      {faults : List Fault} :
      Polled (.on h flag (.writing left answer asm rest)) (.ready faults)
        (.on { h with rebootRequested := false } flag (.draining asm rest))
  | ended {h : Hsm P} {flag : Bool} {pc : Pc} : Polled (.on h flag pc) .ioError (endSession h)
  | answered {h h' : Hsm P} {flag : Bool} {line rest : Octets} {asm : LineAssembler}
      {faults : List Fault} {resp : Response} (hrun : handle line (h.facing faults) = .ok resp h') :
      Polled (.on h flag (.busy line asm rest)) (.ready faults)
        (.on h' flag (.showing resp asm rest))

theorem polled (encode : Response → Octets) (fw : Firmware P) (i : Input) :
    Polled fw i (fw.step encode i) := by
  unfold Firmware.step
  split
  · split
    · rename_i hboot
      exact .powered hboot
    · rename_i hboot
      exact .unpowered hboot
  · exact .dead
  · exact .bus (Or.inl rfl)
  · rename_i h flag pc suspended
    cases suspended with
    | true =>
      rw [Bool.or_true]
      exact .bus (Or.inr rfl)
    | false =>
      rw [Bool.or_false]
      exact .idle ⟨by simp, by simp⟩ (by simp)
  · exact .advanced
  · exact .moved (Or.inr ⟨_, rfl⟩) (Or.inl rfl) ⟨by simp [Pc.IsBusy], by simp [Pc.IsBusy]⟩
      fun _ => Or.inl rfl
  · exact .moved (Or.inl rfl) (Or.inl rfl) ⟨by simp [Pc.IsBusy], by simp [Pc.IsBusy]⟩
      (by simp [Pc.Between])
  · exact .received (scanned _ _ _ _)
  · exact .ended
  · split
    · rename_i hrun
      exact .answered hrun
    · rename_i hrun
      exact .cut hrun
  · exact .moved (Or.inr ⟨_, rfl⟩) (Or.inr rfl) ⟨by simp [Pc.IsBusy], by simp [Pc.IsBusy]⟩
      (by simp [Pc.Between])
  · split
    · exact .moved (Or.inr ⟨_, rfl⟩) (Or.inr rfl) ⟨by simp [Pc.IsBusy], by simp [Pc.IsBusy]⟩
        (by simp [Pc.Between])
    · split
      · exact .drained
      · exact .resumed (Or.inr ⟨_, rfl⟩) rfl (by simp [Pc.IsBusy]) (scanned _ _ _ _)
  · exact .ended
  · exact .left
  · exact .resumed (Or.inl rfl) rfl (by simp [Pc.IsBusy]) (scanned _ _ _ _)
  · exact .moved (Or.inr ⟨_, rfl⟩) (Or.inl rfl) ⟨by simp [Pc.IsBusy], by simp [Pc.IsBusy]⟩
      fun _ => Or.inr (Or.inr rfl)
  · cases fw with
    | off f => exact .dead
    | on h flag pc =>
      refine .idle ⟨?_, ?_⟩ ?_
      · rintro rfl
        simp_all
      · rintro rfl
        simp_all
      · rintro bytes rfl asm rfl
        rename_i hno _ _ _ _ _ _ _ _
        exact hno h flag asm bytes rfl rfl

/-! ### Histories -/

/-- The bus handler sees a reset or a suspend. -/
def Poll.Bus (m : Poll P) : Prop := m.input = .reset ∨ m.input = .suspended true

/-- A packet comes in. -/
def Poll.Receives (m : Poll P) (bytes : Octets) : Prop :=
  ∃ h flag asm, m.before = .on h flag (.reading asm) ∧ m.input = .packet bytes

/-- `process_line` runs on a line, in session `h`; `rest` of the packet is still ahead. -/
def Poll.Processes (m : Poll P) (h : Hsm P) (line rest : Octets) : Prop :=
  ∃ flag asm faults, m.before = .on h flag (.busy line asm rest) ∧ m.input = .ready faults

/-- An `unlock` opens a locked device. -/
def Poll.Unlocks (m : Poll P) : Prop :=
  ∃ h line rest req, m.Processes h line rest ∧ h.state = .prodLocked ∧
    lineCommand P line = some (.unlock req) ∧
    ∃ h' flag asm, m.after = .on h' flag (.showing (.hsm (.unlock true)) asm rest)

/-- There was a bus event, and no unlock since. -/
def Unsettled (hist : List (Poll P)) : Prop :=
  ∃ newer b older, hist = newer ++ b :: older ∧ b.Bus ∧ ∀ u ∈ newer, ¬ u.Unlocks

theorem Unsettled.of_cons {m : Poll P} {hist : List (Poll P)} (h : Unsettled (m :: hist)) :
    m.Bus ∨ Unsettled hist ∧ ¬ m.Unlocks := by
  obtain ⟨newer, b, older, heq, hbus, hno⟩ := h
  cases newer with
  | nil =>
    obtain ⟨rfl, -⟩ := List.cons.inj heq
    exact Or.inl hbus
  | cons m' newer =>
    obtain ⟨rfl, rfl⟩ := List.cons.inj heq
    refine Or.inr ⟨⟨newer, b, older, rfl, hbus, fun u hu => hno u (List.mem_cons_of_mem _ hu)⟩, ?_⟩
    exact hno m List.mem_cons_self

/-- The newest packet of a history, with what came after it and what came before. -/
structure LastPacket (hist : List (Poll P)) (bytes : Octets) (newer : List (Poll P)) (p : Poll P)
    (older : List (Poll P)) : Prop where
  split : hist = newer ++ p :: older
  receives : p.Receives bytes
  last : ∀ m ∈ newer, ∀ b, ¬ m.Receives b

theorem LastPacket.cons {hist newer older : List (Poll P)} {bytes : Octets} {p m : Poll P}
    (h : LastPacket hist bytes newer p older) (hm : ∀ b, ¬ m.Receives b) :
    LastPacket (m :: hist) bytes (m :: newer) p older where
  split := by rw [h.split, List.cons_append]
  receives := h.receives
  last := by
    intro x hx
    rcases List.mem_cons.mp hx with rfl | hx
    · exact hm
    · exact h.last x hx

/-! ### The device behind the loop -/

/-- The device behind the loop runs as a device does: any session the loop reaches is
    one that a run of the device reaches. -/
theorem FirmwareRun.reaches {encode : Response → Octets} {image : Flash} {hist : List (Poll P)}
    {fw : Firmware P} (hrun : FirmwareRun encode image hist fw) :
    ∃ events s, Run image events s ∧ s.flash = fw.sys.flash ∧ ∀ h, fw.sys = .on h → s = .on h := by
  have hon : ∀ {events : List (Moment P)} {h : Hsm P} {fw : Firmware P}, Run image events (.on h) →
      fw.sys = .on h →
      ∃ events s, Run image events s ∧ s.flash = fw.sys.flash ∧ ∀ h, fw.sys = .on h → s = .on h := by
    intro events h fw hrun hsys
    refine ⟨events, .on h, hrun, by rw [hsys], fun h' hon => ?_⟩
    rw [hsys] at hon
    exact hon
  have hscanned : ∀ {events : List (Moment P)} {h : Hsm P} {flag : Bool} {bytes : Octets}
      {fw : Firmware P}, Run image events (.on h) → Scanned h flag bytes fw →
      ∃ events s, Run image events s ∧ s.flash = fw.sys.flash ∧ ∀ h, fw.sys = .on h → s = .on h := by
    intro events h flag bytes fw hrun hs
    cases hs with
    | relocked => exact hon (hrun.step .relock) rfl
    | _ => exact hon hrun rfl
  induction hrun with
  | start => exact ⟨[], .off image, .start, rfl, fun h hon => hon⟩
  | @step hist fw _ i ih =>
    obtain ⟨events, s, hevents, hflash, hsame⟩ := ih
    generalize hnext : fw.step encode i = fw'
    have hpolled := polled encode fw i
    rw [hnext] at hpolled
    cases hpolled with
    | @powered fw p h hboot =>
      have hstep : (s.step (.boot p)).1 = .on h := by
        rw [Sys.step_boot_eq, hflash, hboot]
      have hnew := hevents.step (.boot p)
      rw [hstep] at hnew
      exact hon hnew rfl
    | @unpowered fw p e h hboot =>
      have hstep : (s.step (.boot p)).1 = .off h.flash := by
        rw [Sys.step_boot_eq, hflash, hboot]
      have hnew := hevents.step (.boot p)
      rw [hstep] at hnew
      exact ⟨_, _, hnew, rfl, fun h hon => nomatch hon⟩
    | dead => exact ⟨events, s, hevents, hflash, hsame⟩
    | @cut h h' flag line rest asm faults e hrun =>
      obtain rfl := hsame h rfl
      have hstep : ((Sys.on h).step (.line line faults)).1 = .off h'.flash := by
        change (h.processLine line faults).1 = _
        unfold Hsm.processLine
        rw [hrun]
      have hnew := hevents.step (.line line faults)
      rw [hstep] at hnew
      exact ⟨_, _, hnew, rfl, fun h hon => nomatch hon⟩
    | @left h =>
      obtain rfl := hsame h rfl
      exact ⟨events, .on h, hevents, rfl, fun h hon => nomatch hon⟩
    | bus =>
      obtain rfl := hsame _ rfl
      exact hon hevents rfl
    | idle =>
      obtain rfl := hsame _ rfl
      exact hon hevents rfl
    | @advanced h flag pc mono =>
      obtain rfl := hsame h rfl
      exact hon (hevents.step (.advance mono)) rfl
    | moved =>
      obtain rfl := hsame _ rfl
      exact hon hevents rfl
    | received hscan =>
      obtain rfl := hsame _ rfl
      exact hscanned hevents hscan
    | resumed hi hrest hbusy hscan =>
      obtain rfl := hsame _ rfl
      exact hscanned hevents hscan
    | @drained h =>
      obtain rfl := hsame h rfl
      exact hon (hevents.step .takeRebootRequested) rfl
    | @ended h =>
      obtain rfl := hsame h rfl
      exact hon (hevents.step .relock) rfl
    | @answered h h' flag line rest asm faults resp hrun =>
      obtain rfl := hsame h rfl
      have hstep : ((Sys.on h).step (.line line faults)).1 = .on h' := by
        change (h.processLine line faults).1 = _
        unfold Hsm.processLine
        rw [hrun]
      have hnew := hevents.step (.line line faults)
      rw [hstep] at hnew
      exact hon hnew rfl

theorem FirmwareRun.consistent {encode : Response → Octets} {image : Flash} {hist : List (Poll P)}
    {h : Hsm P} {flag : Bool} {pc : Pc} (hrun : FirmwareRun encode image hist (.on h flag pc)) :
    Consistent h := by
  obtain ⟨events, s, hevents, -, hsame⟩ := hrun.reaches
  obtain rfl := hsame h rfl
  exact hevents.shaped.consistent

/-! ### The invariant -/

theorem relock_not_prodReady (h : Hsm P) : h.relockOnTransportReset.state ≠ .prodReady := by
  unfold Hsm.relockOnTransportReset
  dsimp only
  split
  · split
    · simp
    · rename_i hno
      exact hno
  · rename_i hno
    exact fun hready => hno (Or.inl (Or.inr (Or.inl hready)))

/-- Only an `unlock` makes a device ready that was not. -/
theorem opened_of_answer {h h' : Hsm P} {line : Octets} {faults : List Fault} {resp : Response}
    (hcons : Consistent h') (hrun : handle line (h.facing faults) = .ok resp h')
    (hready : h'.state = .prodReady) :
    h.state = .prodReady ∨ h.state = .prodLocked ∧
      (∃ req, lineCommand P line = some (.unlock req)) ∧ resp = .hsm (.unlock true) := by
  have hmode := hcons.prod.mp (Or.inr (Or.inl hready))
  cases hc : lineCommand P line with
  | none =>
    have hrng := (draws_handle hc (h.facing faults)).of_ok hrun
    rw [hrng] at hready
    exact Or.inl hready
  | some c =>
    rw [handle_command hc] at hrun
    simp only [bind, EStateM.bind, pure, EStateM.pure] at hrun
    cases hanswer : c.run (h.facing faults) with
    | error e h₁ =>
      rw [hanswer] at hrun
      cases hrun
    | ok r h₁ =>
      rw [hanswer] at hrun
      cases hrun
      obtain ⟨cfg, hcfg, hprod⟩ := Option.map_eq_some_iff.mp hmode
      cases (move_run c (h.facing faults)).of_ok hanswer with
      | kept hstate => exact Or.inl (hstate.symm.trans hready)
      | closed hca hlocked =>
        have hno := hlocked cfg hcfg hprod
        rw [hready] at hno
        simp at hno
      | dev hconfig hdev =>
        rw [hconfig] at hcfg
        obtain rfl := Option.some.inj hcfg
        rw [hdev] at hprod
        cases hprod
      | opened hunlock hlocked => exact Or.inr ⟨hlocked, ⟨_, congrArg some hunlock⟩, rfl⟩
      | rotated hgen hstates hconfig hstate => exact Or.inl (hstate.symm.trans hready)
      | reread hchange hbefore => exact Or.inl hbefore

theorem Poll.Receives.not_unlocks {m : Poll P} {bytes : Octets} (h : m.Receives bytes) :
    ¬ m.Unlocks := by
  intro hunlocks
  obtain ⟨h₀, flag, asm, hbefore, -⟩ := h
  obtain ⟨h₁, line, rest, req, ⟨flag', asm', faults, hbefore', -⟩, -⟩ := hunlocks
  rw [hbefore] at hbefore'
  cases hbefore'

/-- What was unsettled before the packet still is, unless an unlock came after it. -/
theorem LastPacket.unsettled {hist newer older : List (Poll P)} {bytes : Octets} {p : Poll P}
    (hlast : LastPacket hist bytes newer p older) (hun : Unsettled older)
    (hno : ∀ u ∈ newer, ¬ u.Unlocks) : Unsettled hist := by
  obtain ⟨between, b, before, heq, hbus, hsince⟩ := hun
  refine ⟨newer ++ p :: between, b, before, ?_, hbus, ?_⟩
  · rw [hlast.split, heq, List.append_assoc, List.cons_append]
  · intro u hu
    rcases List.mem_append.mp hu with hu | hu
    · exact hno u hu
    · rcases List.mem_cons.mp hu with rfl | hu
      · exact hlast.receives.not_unlocks
      · exact hsince u hu

/-- The lock of a device behind the loop. -/
structure LockInvariant (hist : List (Poll P)) (h : Hsm P) (flag : Bool) (pc : Pc) : Prop where
  armed : flag = false → h.state = .prodReady → ¬ Unsettled hist
  heard : ∀ line asm rest, pc = .busy line asm rest → ∃ bytes newer p older,
    LastPacket hist bytes newer p older ∧ EndsLine bytes rest ∧
      (h.state = .prodReady → Unsettled older → ∃ u ∈ newer, u.Unlocks)
  held : ∀ rest, pc.rest = some rest → ∃ bytes newer p older seen,
    LastPacket hist bytes newer p older ∧ bytes = seen ++ rest
  closed : pc.Between → h.state ≠ .prodReady

section Invariant

variable {hist : List (Poll P)} {h : Hsm P} {flag : Bool} {m : Poll P}

theorem not_unsettled_cons (hbus : ¬ m.Bus) (hno : ¬ Unsettled hist) : ¬ Unsettled (m :: hist) := by
  intro hun
  rcases hun.of_cons with hyes | hyes
  · exact hbus hyes
  · exact hno hyes.1

theorem EndsLine.held {bytes rest : Octets} (h : EndsLine bytes rest) : ∃ seen, bytes = seen ++ rest := by
  obtain ⟨seen, rfl⟩ := h
  exact ⟨seen ++ [newline], by simp⟩

/-- The loop over a packet keeps the invariant: it looks at the flag at each line. -/
theorem LockInvariant.scanned {bytes ahead : Octets} {newer older : List (Poll P)} {p : Poll P}
    {fw : Firmware P} (harmed : flag = false → h.state = .prodReady → ¬ Unsettled hist)
    (hbus : ¬ m.Bus) (hlast : LastPacket (m :: hist) bytes newer p older)
    (hahead : ∃ seen, bytes = seen ++ ahead) (hscan : Scanned h flag ahead fw) :
    ∀ h' flag' pc', fw = .on h' flag' pc' → LockInvariant (m :: hist) h' flag' pc' := by
  intro h' flag' pc' hon
  obtain ⟨seen, rfl⟩ := hahead
  have harmed' : flag = false → h.state = .prodReady → ¬ Unsettled (m :: hist) :=
    fun hdown hready => not_unsettled_cons hbus (harmed hdown hready)
  have hheld : ∀ {rest : Octets}, EndsLine ahead rest → ∃ bytes newer p older seen,
      LastPacket (m :: hist) bytes newer p older ∧ bytes = seen ++ rest := by
    intro rest hends
    obtain ⟨seen', hbytes⟩ := (hends.append seen).held
    exact ⟨_, newer, p, older, seen', hlast, hbytes⟩
  cases hscan with
  | read =>
    cases hon
    exact ⟨harmed', nofun, nofun, by simp [Pc.Between]⟩
  | @relocked line rest asm hends =>
    cases hon
    have hno := relock_not_prodReady h
    refine ⟨fun _ hready => absurd hready hno, ?_, ?_, by simp [Pc.Between]⟩
    · rintro _ _ _ ⟨⟩
      exact ⟨_, newer, p, older, hlast, hends.append seen, fun hready => absurd hready hno⟩
    · rintro _ ⟨⟩
      exact hheld hends
  | @taken line rest asm hdown hends =>
    cases hon
    refine ⟨fun _ => harmed' hdown, ?_, ?_, by simp [Pc.Between]⟩
    · rintro _ _ _ ⟨⟩
      refine ⟨_, newer, p, older, hlast, hends.append seen, fun hready hun => ?_⟩
      by_contra hnone
      have hnone' : ∀ u ∈ newer, ¬ u.Unlocks := fun u hu hyes => hnone ⟨u, hu, hyes⟩
      exact harmed' hdown hready (hlast.unsettled hun hnone')
    · rintro _ ⟨⟩
      exact hheld hends
  | @refused left rest asm hends =>
    cases hon
    refine ⟨harmed', nofun, ?_, by simp [Pc.Between]⟩
    rintro _ ⟨⟩
    exact hheld hends

/-- A poll that neither receives nor answers, and leaves the loop where it waits. -/
theorem LockInvariant.waits {pc : Pc} {h' : Hsm P} {flag' : Bool} (hinv : LockInvariant hist h flag pc)
    (hstate : h'.state = h.state) (hno : ∀ b, ¬ m.Receives b)
    (harmed : flag' = true ∨ flag' = flag ∧ ¬ m.Bus) : LockInvariant (m :: hist) h' flag' pc where
  armed := by
    intro hdown hready
    rcases harmed with hup | ⟨hflag, hbus⟩
    · rw [hup] at hdown
      cases hdown
    · rw [hstate] at hready
      exact not_unsettled_cons hbus (hinv.armed (hflag.symm.trans hdown) hready)
  heard := by
    intro line asm rest hpc
    obtain ⟨bytes, newer, p, older, hlast, hends, hsettled⟩ := hinv.heard line asm rest hpc
    refine ⟨bytes, m :: newer, p, older, hlast.cons hno, hends, fun hready hun => ?_⟩
    rw [hstate] at hready
    obtain ⟨u, hu, hunlocks⟩ := hsettled hready hun
    exact ⟨u, List.mem_cons_of_mem _ hu, hunlocks⟩
  held := by
    intro rest hpc
    obtain ⟨bytes, newer, p, older, seen, hlast, hbytes⟩ := hinv.held rest hpc
    exact ⟨bytes, m :: newer, p, older, seen, hlast.cons hno, hbytes⟩
  closed := by
    intro hbetween
    rw [hstate]
    exact hinv.closed hbetween

/-- A poll that goes on to an await of its own. -/
theorem LockInvariant.moves {pc pc' : Pc} {h' : Hsm P} (hinv : LockInvariant hist h flag pc)
    (hstate : flag = false → h'.state = .prodReady → h.state = .prodReady ∨ m.Unlocks)
    (hno : ∀ b, ¬ m.Receives b) (hbus : ¬ m.Bus) (hbusy : ¬ pc'.IsBusy)
    (hrest : pc'.rest = none ∨ pc'.rest = pc.rest) (hclosed : pc'.Between → h'.state ≠ .prodReady) :
    LockInvariant (m :: hist) h' flag pc' where
  armed := by
    intro hdown hready
    rcases hstate hdown hready with hbefore | hunlocks
    · exact not_unsettled_cons hbus (hinv.armed hdown hbefore)
    · intro hun
      rcases hun.of_cons with hyes | hyes
      · exact hbus hyes
      · exact hyes.2 hunlocks
  heard := fun line asm rest hpc => absurd ⟨line, asm, rest, hpc⟩ hbusy
  held := by
    intro rest hpc
    rcases hrest with hnone | hsame
    · rw [hnone] at hpc
      cases hpc
    · rw [hsame] at hpc
      obtain ⟨bytes, newer, p, older, seen, hlast, hbytes⟩ := hinv.held rest hpc
      exact ⟨bytes, m :: newer, p, older, seen, hlast.cons hno, hbytes⟩
  closed := hclosed

end Invariant

theorem Poll.not_receives {m : Poll P} (h : ∀ bytes, m.input ≠ .packet bytes) :
    ∀ b, ¬ m.Receives b := by
  intro b hyes
  obtain ⟨_, _, _, -, hinput⟩ := hyes
  exact h b hinput

theorem FirmwareRun.lockInvariant {encode : Response → Octets} {image : Flash}
    {hist : List (Poll P)} {fw : Firmware P} (hrun : FirmwareRun encode image hist fw) :
    ∀ h flag pc, fw = .on h flag pc → LockInvariant hist h flag pc := by
  induction hrun with
  | start =>
    intro h flag pc hon
    cases hon
  | @step hist fw hprev i ih =>
    intro h' flag' pc' hon
    have hreached := hprev.step i
    generalize hnext : fw.step encode i = fw' at hon hreached ⊢
    subst hon
    have hpolled := polled encode fw i
    rw [hnext] at hpolled
    cases hpolled with
    | powered hboot =>
      have hno := (powerUp_ok hboot).not_prodReady
      exact ⟨fun _ hready => absurd hready hno, nofun, nofun, fun _ => hno⟩
    | bus hi =>
      refine (ih _ _ _ rfl).waits rfl (Poll.not_receives ?_) (Or.inl rfl)
      rcases hi with rfl | rfl <;> simp
    | idle hi hpacket =>
      refine (ih _ _ _ rfl).waits rfl ?_ (Or.inr ⟨rfl, not_or.mpr hi⟩)
      intro b hyes
      obtain ⟨h₀, flag₀, asm, hbefore, hinput⟩ := hyes
      cases hbefore
      exact hpacket b hinput asm rfl
    | advanced =>
      exact (ih _ _ _ rfl).waits rfl (Poll.not_receives (by simp)) (Or.inr ⟨rfl, by simp [Poll.Bus]⟩)
    | moved hi hrest hbusy hbetween =>
      have hinv := ih _ _ _ rfl
      refine hinv.moves (fun _ hready => Or.inl hready) (Poll.not_receives ?_) ?_ hbusy.2 hrest
        fun hyes => hinv.closed (hbetween hyes)
      · rcases hi with rfl | ⟨faults, rfl⟩ <;> simp
      · rcases hi with rfl | ⟨faults, rfl⟩ <;> simp [Poll.Bus]
    | @received h flag asm bytes _ hscan =>
      have hlast : LastPacket (⟨.packet bytes, .on h flag (.reading asm), .on h' flag' pc'⟩ :: hist)
          bytes [] ⟨.packet bytes, .on h flag (.reading asm), .on h' flag' pc'⟩ hist :=
        ⟨rfl, ⟨h, flag, asm, rfl, rfl⟩, by simp⟩
      exact LockInvariant.scanned (ih h flag _ rfl).armed (by simp [Poll.Bus]) hlast ⟨[], rfl⟩ hscan
        _ _ _ rfl
    | @resumed h flag pc i rest _ hi hrest hbusy hscan =>
      have hinv := ih h flag pc rfl
      obtain ⟨bytes, newer, p, older, seen, hlast, hbytes⟩ := hinv.held rest hrest
      have hno : ∀ b, ¬ Poll.Receives ⟨i, .on h flag pc, .on h' flag' pc'⟩ b := by
        apply Poll.not_receives
        rcases hi with rfl | ⟨faults, rfl⟩ <;> simp
      have hbus : ¬ Poll.Bus ⟨i, .on h flag pc, .on h' flag' pc'⟩ := by
        rcases hi with rfl | ⟨faults, rfl⟩ <;> simp [Poll.Bus]
      exact LockInvariant.scanned hinv.armed hbus (hlast.cons hno) ⟨seen, hbytes⟩ hscan _ _ _ rfl
    | @drained h flag left rest answer asm faults =>
      exact (ih h flag' _ rfl).moves (fun _ hready => Or.inl hready) (Poll.not_receives (by simp))
        (by simp [Poll.Bus]) (by simp [Pc.IsBusy]) (Or.inr rfl) (by simp [Pc.Between])
    | ended =>
      have hno := relock_not_prodReady (P := P)
      exact ⟨fun _ hready => absurd hready (hno _), nofun, nofun, fun _ => hno _⟩
    | @answered h h' flag line rest asm faults resp hhandle =>
      have hcons := hreached.consistent
      refine (ih h flag' _ rfl).moves (fun _ hready => ?_) (Poll.not_receives (by simp))
        (by simp [Poll.Bus]) (by simp [Pc.IsBusy]) (Or.inr rfl) (by simp [Pc.Between])
      rcases opened_of_answer hcons hhandle hready with hbefore | ⟨hlocked, ⟨req, hc⟩, rfl⟩
      · exact Or.inl hbefore
      · exact Or.inr ⟨h, line, rest, req, ⟨flag', asm, faults, rfl, rfl⟩, hlocked, hc, h', flag', asm,
          rfl⟩

theorem FirmwareRun.earlier {encode : Response → Octets} {image : Flash}
    {newer older : List (Poll P)} {m : Poll P} {fw : Firmware P}
    (hrun : FirmwareRun encode image (newer ++ m :: older) fw) :
    FirmwareRun encode image older m.before := by
  induction newer generalizing fw with
  | nil =>
    cases hrun with
    | step h i => exact h
  | cons m' newer ih =>
    cases hrun with
    | step h i => exact ih h

/-- No request whose newline came in a packet after a reset or suspend of the bus is
    processed by a ready device, unless an unlock was processed since that event; and
    between two sessions a production device holds no secrets. -/
theorem requests_after_bus_event {encode : Response → Octets} {image : Flash}
    {hist : List (Poll P)} {fw : Firmware P} (hrun : FirmwareRun encode image hist fw) :
    (∀ newer m later h line rest, hist = newer ++ m :: later → m.Processes h line rest →
      ∃ bytes mid p past, LastPacket later bytes mid p past ∧ EndsLine bytes rest ∧
        ∀ between b before, past = between ++ b :: before → b.Bus → h.state = .prodReady →
          ∃ u ∈ mid ++ p :: between, u.Unlocks) ∧
    (∀ h flag pc, fw = .on h flag pc → pc.Between →
      h.config.map DeviceConfig.mode = some .prod ∨ h.state = .prodLocked ∨
        h.state = .prodReady ∨ h.state = .lockedOut →
      h.state ≠ .prodReady ∧ h.ca = none ∧ h.wrapKek = none ∧ h.wrapSalt = none) := by
  constructor
  · rintro newer m later h line rest rfl ⟨flag, asm, faults, hbefore, hinput⟩
    have hinv := hrun.earlier.lockInvariant h flag _ hbefore
    obtain ⟨bytes, mid, p, past, hlast, hends, hsettled⟩ := hinv.heard line asm rest rfl
    refine ⟨bytes, mid, p, past, hlast, hends, ?_⟩
    intro between b before hpast hbus hready
    by_contra hnone
    have hno : ∀ u ∈ mid ++ p :: between, ¬ u.Unlocks := fun u hu hyes => hnone ⟨u, hu, hyes⟩
    have hun : Unsettled past := ⟨between, b, before, hpast, hbus, fun u hu =>
      hno u (List.mem_append_right _ (List.mem_cons_of_mem _ hu))⟩
    obtain ⟨u, hu, hunlocks⟩ := hsettled hready hun
    exact hno u (List.mem_append_left _ hu) hunlocks
  · rintro h flag pc rfl hbetween hprod
    have hclosed := (hrun.lockInvariant h flag pc rfl).closed hbetween
    have hcons := hrun.consistent
    have hmode : h.config.map DeviceConfig.mode = some .prod := hprod.elim id hcons.prod.mp
    have hnotDev : h.state ≠ .devReady := by
      intro hdev
      rw [hcons.dev.mp hdev] at hmode
      cases hmode
    have hnone : ¬ (h.ca.isSome ∨ h.wrapKek.isSome) := fun hlive =>
      (hcons.live hlive).elim hnotDev hclosed
    refine ⟨hclosed, ?_, ?_, ?_⟩
    · simpa using fun hsome => hnone (Or.inl hsome)
    · simpa using fun hsome => hnone (Or.inr hsome)
    · simpa using fun hsome => hclosed (hcons.salt hsome)

/-- The run of a list of inputs, the last of them first. -/
def polls (encode : Response → Octets) (image : Flash) : List Input → List (Poll P) × Firmware P
  | [] => ([], .off image)
  | i :: older =>
    let past := polls encode image older
    (⟨i, past.2, past.2.step encode i⟩ :: past.1, past.2.step encode i)

theorem run_polls (encode : Response → Octets) (image : Flash) (inputs : List Input) :
    FirmwareRun encode image (polls (P := P) encode image inputs).1
      (polls (P := P) encode image inputs).2 := by
  induction inputs with
  | nil => exact .start
  | cons i older ih => exact .step ih i

namespace Bench

abbrev unlocking : Prims := .bench [unlock pin]

/-- A packet with the one request of the table. -/
def request : Input := .packet [0x7B, 0, newline]

/-- The bus is reset in an open session, and then a request comes. -/
def resetInputs : List Input :=
  [.ready [], request, .reset, .connected, .ready [], .power dryPower]

/-- The newest poll processes a request on a locked device, after a bus event. -/
def endsLocked : List (Poll unlocking) → Bool
  | ⟨.ready _, .on h _ (.busy _ _ _), _⟩ :: older =>
    h.state == .prodLocked && older.any fun m => (match m.input with
      | .reset => true
      | _ => false)
  | _ => false

end Bench

theorem requests_after_bus_event_bench :
    ∃ (m : Poll Bench.unlocking) (later : List (Poll Bench.unlocking)) (h : Hsm Bench.unlocking)
      (line rest bytes : Octets) (mid : List (Poll Bench.unlocking)) (p : Poll Bench.unlocking)
      (past : List (Poll Bench.unlocking)),
      m.Processes h line rest ∧ h.state = .prodLocked ∧ LastPacket later bytes mid p past ∧
        EndsLine bytes rest := by
  have hends : Bench.endsLocked
      (polls (fun _ => []) Bench.prodImage Bench.resetInputs).1 = true := by decide +kernel
  have hrun := run_polls (P := Bench.unlocking) (fun _ => []) Bench.prodImage Bench.resetInputs
  generalize (polls (fun _ => []) Bench.prodImage Bench.resetInputs).1 = hist at hends hrun
  unfold Bench.endsLocked at hends
  split at hends
  · rename_i faults h flag line asm rest after later
    rw [Bool.and_eq_true, beq_iff_eq] at hends
    have hprocesses : Poll.Processes ⟨.ready faults, .on h flag (.busy line asm rest), after⟩
        h line rest := ⟨flag, asm, faults, rfl, rfl⟩
    obtain ⟨bytes, mid, p, past, hlast, hline, -⟩ :=
      (requests_after_bus_event hrun).1 [] _ later h line rest rfl hprocesses
    exact ⟨_, later, h, line, rest, bytes, mid, p, past, hprocesses, hends.1, hlast, hline⟩
  · cases hends

end PicoSignet
