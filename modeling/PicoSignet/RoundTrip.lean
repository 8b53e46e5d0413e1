/-
  PicoSignet/RoundTrip.lean
  =========================
  **Whose answer a call returns.**  Nothing on the link says which request an answer
  belongs to.  What a call of `RoundTrip` relies on is that the link is idle when it
  writes: nothing unanswered, nothing unread, and no bytes of another line in front of
  its own.  `Sound` states that for every place a caller can be in, and `sound_of_step`
  keeps it.

  The last of the three is what `reconnect` does not restore.  Reopening the port and
  reading it dry says nothing about the device's assembler, which still holds what a
  failed write has sent; the next call's line is appended to it (`answer_to_merged_line`).
-/
import PicoSignet.Serial

set_option autoImplicit false

namespace PicoSignet

/-! ### The device's end -/

/-- The assembler, once it has read what is on the wire. -/
def Link.rest (l : Link) : LineAssembler := (l.asm.feed l.down).1

/-- The lines it will have to answer then. -/
def Link.outstanding (l : Link) : List LineEvent := l.pending ++ (l.asm.feed l.down).2

/-- Nothing is on its way to the host, now or later. -/
structure Link.Quiet (l : Link) : Prop where
  outstanding : l.outstanding = []
  up : l.up = []

/-- Quiet, and the next byte starts a line. -/
structure Link.Idle (l : Link) : Prop extends l.Quiet where
  rest : l.rest = .new

theorem Link.rest_write (l : Link) (bytes : Octets) :
    (l.write bytes).rest = (l.rest.feed bytes).1 := by
  simp [write, rest, LineAssembler.feed_append]

theorem Link.outstanding_write (l : Link) (bytes : Octets) :
    (l.write bytes).outstanding = l.outstanding ++ (l.rest.feed bytes).2 := by
  simp [write, rest, outstanding, LineAssembler.feed_append]

@[simp] theorem Link.rest_skip (l : Link) (n : Nat) : (l.skip n).rest = l.rest := rfl

@[simp] theorem Link.outstanding_skip (l : Link) (n : Nat) :
    (l.skip n).outstanding = l.outstanding := rfl

/-- Reading a byte changes nothing of this. -/
theorem Link.deliver_keeps {l l' : Link} (h : l.deliver = some l') :
    l'.rest = l.rest ∧ l'.outstanding = l.outstanding ∧
      l'.answered = l.answered ∧ l'.up = l.up := by
  rcases l with ⟨down, asm, pending, answered, up⟩
  cases down with
  | nil => cases h
  | cons b down =>
    simp only [deliver, Option.some.injEq] at h
    subst h
    simp [rest, outstanding, LineAssembler.feed]

theorem Link.answer_cases {l l' : Link} {resp : OneLine} (h : l.answer resp = some l') :
    ∃ e, l.outstanding = e :: l'.outstanding ∧ l'.rest = l.rest ∧
      l'.answered = (e, resp) :: l.answered ∧ l'.up = l.up ++ resp.framed := by
  rcases l with ⟨down, asm, pending, answered, up⟩
  cases pending with
  | nil => cases h
  | cons e pending =>
    cases h
    exact ⟨e, rfl, rfl, rfl, rfl⟩

/-! ### An exchange of the caller's own -/

/-- The device had nothing else to answer and no bytes of another line when the call began
    to write, and has since answered one line: the call's own, with what the call
    returned. -/
structure Return.Own (r : Return) : Prop where
  idle : r.before.Idle
  answered : ∃ resp : OneLine, resp.bytes = r.resp ∧
    r.after.answered = (lineEvent r.caller.req.bytes, resp) :: r.before.answered

/-- When a read of the reopened port times out, every answer to an abandoned request has
    arrived. -/
def Serial.QuietIsIdle (s : Serial) : Act → Prop
  | .drainQuiet => s.link.Quiet
  | _ => True

/-- A failing write has sent none of its line or all of it, and `drainStale` fails only
    when there is nothing left to drain. -/
def Serial.LinesWhole (s : Serial) : Act → Prop
  | .writeFails sent => ∀ c, s.stage = .writing c → sent = 0 ∨ c.req.bytes.length < sent
  | .drainFails => s.link.Quiet
  | _ => True

/-- What a run of actions that all meet a condition reaches. -/
inductive Serial.Reaches (Meets : Serial → Act → Prop) (s : Serial) : Serial → Prop where
  | start : Reaches Meets s s
  | step {t t' : Serial} {a : Act} :
    Reaches Meets s t → Meets t a → t.step a = some t' → Reaches Meets s t'

/-! ### The invariant -/

/-- An exchange whose request has been written: unanswered, or answered with the answer
    partly read. -/
inductive Exchange (caller : Caller) (before : Link) (r : Octets) (l : Link) : Prop where
  | asked (outstanding : l.outstanding = [lineEvent caller.req.bytes])
      (answered : l.answered = before.answered) (unread : r ++ l.up = [])
  | answered (resp : OneLine) (outstanding : l.outstanding = [])
      (answered : l.answered = (lineEvent caller.req.bytes, resp) :: before.answered)
      (unread : r ++ l.up = resp.framed)

def Serial.InStep (s : Serial) : Prop :=
  match s.stage with
  | .unlocked => s.poisoned = false → s.link.Quiet ∧ s.r = []
  | .reopening _ => s.poisoned = true
  | .draining _ => s.poisoned = true
  | .settling _ => s.poisoned = true ∧ s.link.Quiet
  | .writing _ => s.link.Quiet ∧ s.r = []
  | .reading caller before => before.Idle ∧ Exchange caller before s.r s.link

structure Serial.Sound (s : Serial) : Prop where
  rest : s.link.rest = .new
  inStep : s.InStep
  returned : ∀ r ∈ s.returned, r.Own

theorem OneLine.feed_framed (l : OneLine) :
    LineAssembler.new.feed l.framed = (.new, [lineEvent l.bytes]) :=
  LineAssembler.feed_line l.noNewline

theorem OneLine.takeWhile_framed (l : OneLine) :
    l.framed.takeWhile (· ≠ newline) = l.bytes := by
  unfold framed
  rw [List.takeWhile_append_of_pos]
  · simp
  · intro b hb
    have : b ≠ newline := fun h => l.noNewline (h ▸ hb)
    simp [this]

theorem OneLine.dropWhile_framed (l : OneLine) :
    l.framed.dropWhile (· ≠ newline) = [newline] := by
  unfold framed
  rw [List.dropWhile_append_of_pos]
  · simp
  · intro b hb
    have : b ≠ newline := fun h => l.noNewline (h ▸ hb)
    simp [this]

/-- What the reader holds, once it has the newline, is the whole answer. -/
theorem OneLine.eq_framed_of_prefix {l : OneLine} {r up : Octets} (h : r ++ up = l.framed)
    (hr : newline ∈ r) : r = l.framed ∧ up = [] := by
  rcases List.append_eq_append_iff.mp h with ⟨more, hbytes, -⟩ | ⟨more, hrest, hend⟩
  · exact absurd (by simp [hbytes, hr]) l.noNewline
  · cases more with
    | nil =>
      rw [hrest, List.append_nil] at hr
      exact absurd hr l.noNewline
    | cons b more =>
      obtain ⟨rfl, hmore⟩ := List.cons.inj hend
      obtain ⟨rfl, rfl⟩ := List.append_eq_nil_iff.mp hmore.symm
      exact ⟨hrest, rfl⟩

/-! ### The invariant, step by step -/

/-- An exchange does not notice bytes moving on the wire. -/
theorem Exchange.of_moved {caller : Caller} {before l l' : Link} {r r' : Octets}
    (h : Exchange caller before r l) (ho : l'.outstanding = l.outstanding)
    (ha : l'.answered = l.answered) (hr : r' ++ l'.up = r ++ l.up) :
    Exchange caller before r' l' := by
  cases h with
  | asked outstanding answered unread =>
    exact .asked (ho.trans outstanding) (ha.trans answered) (hr.trans unread)
  | answered resp outstanding answered unread =>
    exact .answered resp (ho.trans outstanding) (ha.trans answered) (hr.trans unread)

/-- The device answers the one line that is outstanding, once. -/
theorem Exchange.of_answer {caller : Caller} {before l l' : Link} {r : Octets} {resp : OneLine}
    (h : Exchange caller before r l) (ha : l.answer resp = some l') :
    Exchange caller before r l' := by
  obtain ⟨e, ho, -, hanswered, hup⟩ := Link.answer_cases ha
  cases h with
  | asked outstanding answered unread =>
    obtain ⟨rfl, hnone⟩ := List.cons.inj (ho.symm.trans outstanding)
    obtain ⟨rfl, hl⟩ := List.append_eq_nil_iff.mp unread
    refine .answered resp hnone (by rw [hanswered, answered]) ?_
    simp [hup, hl]
  | answered _ outstanding => exact absurd (ho.symm.trans outstanding) (by simp)

/-- A quiet link stays quiet while nobody writes. -/
theorem Link.Quiet.answer_eq_none {l : Link} (h : l.Quiet) (resp : OneLine) :
    l.answer resp = none := by
  cases ha : l.answer resp with
  | none => rfl
  | some l' =>
    obtain ⟨e, ho, -⟩ := Link.answer_cases ha
    exact absurd (ho.symm.trans h.outstanding) (by simp)

theorem Link.Quiet.of_deliver {l l' : Link} (h : l.Quiet) (hd : l.deliver = some l') :
    l'.Quiet :=
  have ⟨_, ho, _, hup⟩ := Link.deliver_keeps hd
  ⟨ho.trans h.outstanding, hup.trans h.up⟩

theorem Serial.Sound.of_deliver {s : Serial} {l : Link} (h : s.Sound)
    (hd : s.link.deliver = some l) : ({ s with link := l } : Serial).Sound := by
  have ⟨hrest, ho, ha, hup⟩ := Link.deliver_keeps hd
  refine ⟨hrest.trans h.rest, ?_, h.returned⟩
  have hin := h.inStep
  unfold InStep at hin ⊢
  cases hs : s.stage with
  | unlocked =>
    rw [hs] at hin
    intro hp
    exact ⟨(hin hp).1.of_deliver hd, (hin hp).2⟩
  | reopening | draining => simpa [hs] using hin
  | settling | writing =>
    simp only [hs] at hin ⊢
    first
      | exact ⟨hin.1, hin.2.of_deliver hd⟩
      | exact ⟨hin.1.of_deliver hd, hin.2⟩
  | reading caller before =>
    simp only [hs] at hin ⊢
    exact ⟨hin.1, hin.2.of_moved ho ha (by rw [hup])⟩

theorem Serial.Sound.of_answer {s : Serial} {l : Link} {resp : OneLine} (h : s.Sound)
    (ha : s.link.answer resp = some l) : ({ s with link := l } : Serial).Sound := by
  have ⟨_, _, hrest, _⟩ := Link.answer_cases ha
  refine ⟨hrest.trans h.rest, ?_, h.returned⟩
  have hquiet : ¬s.link.Quiet := by
    intro hq
    rw [hq.answer_eq_none] at ha
    cases ha
  have hin := h.inStep
  unfold InStep at hin ⊢
  cases hs : s.stage with
  | unlocked =>
    rw [hs] at hin
    intro hp
    exact absurd (hin hp).1 hquiet
  | reopening | draining => simpa [hs] using hin
  | settling | writing =>
    simp only [hs] at hin
    first
      | exact absurd hin.1 hquiet
      | exact absurd hin.2 hquiet
  | reading caller before =>
    simp only [hs] at hin ⊢
    exact ⟨hin.1, hin.2.of_answer ha⟩

/-- The answer that is handed out is the call's own. -/
theorem Serial.Sound.of_finish {s : Serial} {caller : Caller} {before : Link} (h : s.Sound)
    (hs : s.stage = .reading caller before) (hr : newline ∈ s.r) :
    (s.finish caller before).Sound := by
  have hin := h.inStep
  unfold InStep at hin
  rw [hs] at hin
  obtain ⟨hidle, hex⟩ := hin
  cases hex with
  | asked _ _ unread =>
    obtain ⟨hnil, -⟩ := List.append_eq_nil_iff.mp unread
    rw [hnil] at hr
    cases hr
  | answered resp outstanding answered unread =>
    obtain ⟨hall, hup⟩ := OneLine.eq_framed_of_prefix unread hr
    unfold finish
    rw [hall, OneLine.takeWhile_framed, OneLine.dropWhile_framed]
    by_cases hlong : resp.bytes.length + 1 > maxLine
    · simp only [hlong, if_true]
      exact ⟨h.rest, fun hp => (by cases hp), h.returned⟩
    · simp only [hlong, if_false]
      refine ⟨h.rest, fun _ => ⟨⟨outstanding, hup⟩, rfl⟩, ?_⟩
      intro r hmem
      rcases List.mem_cons.mp hmem with rfl | hmem
      · exact ⟨hidle, resp, rfl, answered⟩
      · exact h.returned r hmem

/-- What a failed write leaves on the wire is no part of a line. -/
theorem OneLine.rest_of_write_take (req : OneLine) {l : Link} (h : l.rest = .new) {sent : Nat}
    (hsent : sent = 0 ∨ req.bytes.length < sent) :
    (l.write (req.framed.take sent)).rest = .new := by
  rw [Link.rest_write, h]
  rcases hsent with rfl | hsent
  · rfl
  · rw [List.take_of_length_le (by simp [framed]; omega), req.feed_framed]

theorem Serial.sound_of_step {s t : Serial} {a : Act} (h : s.Sound) (hq : s.QuietIsIdle a)
    (hw : s.LinesWhole a) (ht : s.step a = some t) : t.Sound := by
  have hin := h.inStep
  unfold InStep at hin
  cases a with
  | enter c => cases ht; exact ⟨h.rest, h.inStep, h.returned⟩
  | lock i =>
    simp only [step] at ht
    split at ht <;> cases ht
    rename_i hs hi
    simp only [hs] at hin
    refine ⟨h.rest, ?_, h.returned⟩
    cases hp : s.poisoned with
    | true => simp [InStep]
    | false => simpa [InStep, hp] using hin hp
  | openFails =>
    simp only [step] at ht
    split at ht <;> cases ht
    rename_i hs
    simp only [hs] at hin
    exact ⟨h.rest, fun hp => absurd (hin.symm.trans hp) (by simp), h.returned⟩
  | opens lost =>
    simp only [step] at ht
    split at ht <;> cases ht
    rename_i hs
    simp only [hs] at hin
    exact ⟨h.rest, hin, h.returned⟩
  | drains n =>
    simp only [step] at ht
    split at ht <;> cases ht
    rename_i hs
    simp only [hs] at hin
    exact ⟨h.rest, by simpa [InStep, hs] using hin, h.returned⟩
  | drainQuiet =>
    simp only [step] at ht
    split at ht <;> cases ht
    rename_i hs
    simp only [hs] at hin
    exact ⟨h.rest, ⟨hin, hq⟩, h.returned⟩
  | drainFails =>
    simp only [step] at ht
    split at ht <;> cases ht
    rename_i hs
    simp only [hs] at hin
    exact ⟨h.rest, ⟨hin, hw⟩, h.returned⟩
  | setTimeout ok =>
    simp only [step] at ht
    split at ht <;> cases ht
    rename_i hs
    simp only [hs] at hin
    cases ok with
    | true => exact ⟨h.rest, ⟨hin.2, rfl⟩, h.returned⟩
    | false => exact ⟨h.rest, fun hp => absurd (hin.1.symm.trans hp) (by simp), h.returned⟩
  | writes =>
    simp only [step] at ht
    split at ht <;> cases ht
    rename_i c hs
    simp only [hs] at hin
    refine ⟨?_, ⟨⟨hin.1, h.rest⟩, .asked ?_ rfl ?_⟩, h.returned⟩
    · rw [Link.rest_write, h.rest, c.req.feed_framed]
    · rw [Link.outstanding_write, hin.1.outstanding, h.rest, c.req.feed_framed]
      rfl
    · rw [hin.2]
      exact hin.1.up
  | writeFails sent =>
    simp only [step] at ht
    split at ht <;> cases ht
    rename_i c hs
    exact ⟨c.req.rest_of_write_take h.rest (hw c hs), fun hp => (by cases hp), h.returned⟩
  | reads n =>
    simp only [step] at ht
    split at ht
    · rename_i caller before hs
      simp only [hs] at hin
      split at ht <;> cases ht
      refine ⟨h.rest, ?_, h.returned⟩
      simp only [InStep, hs]
      exact ⟨hin.1, hin.2.of_moved rfl rfl (by simp [Link.skip])⟩
    · cases ht
  | readFails =>
    simp only [step] at ht
    split at ht
    · split at ht <;> cases ht
      exact ⟨h.rest, fun hp => (by cases hp), h.returned⟩
    · cases ht
  | readDone =>
    simp only [step] at ht
    split at ht
    · rename_i caller before hs
      split at ht <;> cases ht
      rename_i hr
      exact h.of_finish hs hr
    · cases ht
  | deliver =>
    obtain ⟨l, hl, rfl⟩ := Option.map_eq_some_iff.mp ht
    exact h.of_deliver hl
  | answer resp =>
    obtain ⟨l, hl, rfl⟩ := Option.map_eq_some_iff.mp ht
    exact h.of_answer hl

/-- A port opened on an idle link. -/
theorem Serial.sound_open {l : Link} (h : l.Idle) : (Serial.open l).Sound :=
  ⟨h.rest, fun _ => ⟨h.toQuiet, rfl⟩, fun _ hr => by cases hr⟩

theorem Serial.Reaches.sound {s t : Serial}
    (h : Serial.Reaches (fun s a => s.QuietIsIdle a ∧ s.LinesWhole a) s t) (hs : s.Sound) :
    t.Sound := by
  induction h with
  | start => exact hs
  | step _ hmeets hstep ih => exact Serial.sound_of_step ih hmeets.1 hmeets.2 hstep

/-! ### Every call, in every run -/

/-- While no failing write leaves part of a line behind and no failing drain an answer,
    every call that returns without an error returns the device's answer to its own
    line. -/
theorem returns_own_answer {l : Link} (hl : l.Idle) {s : Serial}
    (h : Serial.Reaches (fun s a => s.QuietIsIdle a ∧ s.LinesWhole a) (.open l) s) :
    ∀ r ∈ s.returned, r.Own :=
  (h.sound (Serial.sound_open hl)).returned

/-- A device that has just been connected. -/
def Link.fresh : Link := { down := [], asm := .new, pending := [], answered := [], up := [] }

/-- `{}`. -/
def OneLine.braces : OneLine := ⟨[0x7B, 0x7D], by decide⟩

/-- An exchange that times out, and the next call behind it. -/
theorem returns_own_answer_bench :
    Link.fresh.Idle ∧ ∃ s : Serial,
      Serial.Reaches (fun s a => s.QuietIsIdle a ∧ s.LinesWhole a) (.open .fresh) s ∧
      s.returned ≠ [] ∧ ∀ r ∈ s.returned, r.Own := by
  have hidle : Link.fresh.Idle := ⟨⟨rfl, rfl⟩, rfl⟩
  have h0 : Serial.Reaches (fun s a => s.QuietIsIdle a ∧ s.LinesWhole a) (.open .fresh) _ := .start
  have h1 := (h0.step (a := .enter ⟨1, .braces⟩) ⟨trivial, trivial⟩ rfl).step
    (a := .lock 0) ⟨trivial, trivial⟩ rfl
  have h2 := (h1.step (a := .writes) ⟨trivial, trivial⟩ rfl).step
    (a := .readFails) ⟨trivial, trivial⟩ rfl
  have h3 := ((h2.step (a := .deliver) ⟨trivial, trivial⟩ rfl).step
    (a := .deliver) ⟨trivial, trivial⟩ rfl).step (a := .deliver) ⟨trivial, trivial⟩ rfl
  have h4 := (h3.step (a := .answer .braces) ⟨trivial, trivial⟩ rfl).step
    (a := .enter ⟨2, .braces⟩) ⟨trivial, trivial⟩ rfl
  have h5 := (h4.step (a := .lock 0) ⟨trivial, trivial⟩ rfl).step
    (a := .opens 1) ⟨trivial, trivial⟩ rfl
  have h6 := (h5.step (a := .drains 2) ⟨trivial, trivial⟩ rfl).step
    (a := .drainQuiet) ⟨⟨rfl, rfl⟩, trivial⟩ rfl
  have h7 := (h6.step (a := .setTimeout true) ⟨trivial, trivial⟩ rfl).step
    (a := .writes) ⟨trivial, trivial⟩ rfl
  have h8 := ((h7.step (a := .deliver) ⟨trivial, trivial⟩ rfl).step
    (a := .deliver) ⟨trivial, trivial⟩ rfl).step (a := .deliver) ⟨trivial, trivial⟩ rfl
  have h9 := (h8.step (a := .answer .braces) ⟨trivial, trivial⟩ rfl).step
    (a := .reads 2) ⟨trivial, trivial⟩ rfl
  have h10 := (h9.step (a := .reads 2) ⟨trivial, trivial⟩ rfl).step
    (a := .readDone) ⟨trivial, trivial⟩ rfl
  exact ⟨hidle, _, h10, by decide, returns_own_answer hidle h10⟩

/-- The first caller's write fails one byte short.  The link is reopened and found quiet;
    the second caller writes its line behind the first one's bytes, and is handed the
    answer to both. -/
theorem answer_to_merged_line :
    ¬∀ s : Serial, Serial.Reaches Serial.QuietIsIdle (.open .fresh) s →
      ∀ r ∈ s.returned, r.Own := by
  intro hall
  have h0 : Serial.Reaches Serial.QuietIsIdle (.open .fresh) _ := .start
  have h1 := (h0.step (a := .enter ⟨1, .braces⟩) trivial rfl).step (a := .lock 0) trivial rfl
  have h2 := (h1.step (a := .writeFails 2) trivial rfl).step
    (a := .enter ⟨2, .braces⟩) trivial rfl
  have h3 := (h2.step (a := .lock 0) trivial rfl).step (a := .opens 0) trivial rfl
  have h4 := (h3.step (a := .drainQuiet) ⟨rfl, rfl⟩ rfl).step
    (a := .setTimeout true) trivial rfl
  have h5 := (h4.step (a := .writes) trivial rfl).step (a := .deliver) trivial rfl
  have h6 := (h5.step (a := .deliver) trivial rfl).step (a := .deliver) trivial rfl
  have h7 := (h6.step (a := .deliver) trivial rfl).step (a := .deliver) trivial rfl
  have h8 := (h7.step (a := .answer .braces) trivial rfl).step (a := .reads 3) trivial rfl
  have h9 := h8.step (a := .readDone) trivial rfl
  have hown := hall _ h9 _ (List.mem_cons_self ..)
  obtain ⟨resp, -, hanswered⟩ := hown.answered
  exact absurd (Prod.mk.inj (List.cons.inj hanswered).1).1 (by decide)

end PicoSignet
