/-
  PicoSignet/Json.lean
  ====================
  **JSON texts, token by token.**

  The grammar of RFC 8259 in two layers.  A text is cut into tokens by longest
  match: `munch` runs a small automaton (`Lex.step`) as far as it goes.  A value is
  then read off the tokens by a pushdown automaton (`Frame`, `Want`) whose stack is
  the brackets that are still open.

  Both layers are set up for reading a text that was put together from tokens of
  another one: tokens that do not run into each other are cut apart again
  (`lex_print`), and a value is read the same way whatever follows it
  (`takeValue_append`).
-/
import PicoSignet.Words

set_option autoImplicit false

namespace PicoSignet.Json

/-! ### Longest match -/

section Munch

variable {σ α : Type} {step : σ → α → Option σ}

/-- Runs an automaton as far as it goes: the state it stops in, what it has taken and
    what is left. -/
def munch (step : σ → α → Option σ) : σ → List α → σ × List α × List α
  | q, [] => (q, [], [])
  | q, a :: as =>
    match step q a with
    | none => (q, [], a :: as)
    | some q' =>
      let (q'', taken, rest) := munch step q' as
      (q'', a :: taken, rest)

/-- What was taken is taken again in front of anything the automaton stops at. -/
theorem munch_append {q q' : σ} {as taken rest rest' : List α}
    (h : munch step q as = (q', taken, rest)) (hstop : ∀ a ∈ rest'.head?, step q' a = none) :
    munch step q (taken ++ rest') = (q', taken, rest') := by
  have hhere : ∀ q, (∀ a ∈ rest'.head?, step q a = none) →
      munch step q rest' = (q, [], rest') := by
    intro q hq
    cases rest' with
    | nil => rfl
    | cons a rest' => rw [munch, hq a rfl]
  induction as generalizing q taken with
  | nil =>
    cases h
    exact hhere _ hstop
  | cons a as ih =>
    rw [munch] at h
    split at h
    · cases h
      exact hhere _ hstop
    · rename_i q₁ hq
      generalize hr : munch step q₁ as = r at h
      obtain ⟨q₂, taken₁, rest₁⟩ := r
      cases h
      rw [List.cons_append, munch, hq]
      dsimp only
      rw [ih hr]

/-- What is taken has the property that every step asks of it. -/
theorem munch_taken {q q' : σ} {as taken rest : List α} {I : σ → Prop} {Q : α → Prop}
    (hstep : ∀ q a q', step q a = some q' → I q → I q' ∧ Q a)
    (h : munch step q as = (q', taken, rest)) (hq : I q) : ∀ a ∈ taken, Q a := by
  induction as generalizing q taken with
  | nil =>
    cases h
    simp
  | cons a as ih =>
    rw [munch] at h
    split at h
    · cases h
      simp
    · rename_i q₁ hnext
      generalize hr : munch step q₁ as = r at h
      obtain ⟨q₂, taken₁, rest₁⟩ := r
      cases h
      obtain ⟨hq₁, ha⟩ := hstep q a q₁ hnext hq
      exact List.forall_mem_cons.mpr ⟨ha, ih hr hq₁⟩

/-- A property the automaton keeps holds where it stops. -/
theorem munch_keeps {q q' : σ} {as taken rest : List α} {I : σ → Prop}
    (hstep : ∀ q a q', step q a = some q' → I q → I q') (h : munch step q as = (q', taken, rest))
    (hq : I q) : I q' := by
  induction as generalizing q taken with
  | nil =>
    cases h
    exact hq
  | cons a as ih =>
    rw [munch] at h
    split at h
    · cases h
      exact hq
    · rename_i q₁ hnext
      generalize hr : munch step q₁ as = r at h
      obtain ⟨q₂, taken₁, rest₁⟩ := r
      cases h
      exact ih hr (hstep q a q₁ hnext hq)

end Munch

/-! ### Tokens -/

inductive Punct where
  | lbrace
  | rbrace
  | lbrack
  | rbrack
  | colon
  | comma
deriving DecidableEq, Repr

def Punct.byte : Punct → UInt8
  | .lbrace => 0x7B
  | .rbrace => 0x7D
  | .lbrack => 0x5B
  | .rbrack => 0x5D
  | .colon => 0x3A
  | .comma => 0x2C

def Punct.ofByte (b : UInt8) : Option Punct :=
  if b = 0x7B then some .lbrace
  else if b = 0x7D then some .rbrace
  else if b = 0x5B then some .lbrack
  else if b = 0x5D then some .rbrack
  else if b = 0x3A then some .colon
  else if b = 0x2C then some .comma
  else none

/-- Strings, numbers, and the words `true`, `false` and `null`. -/
inductive Kind where
  | string
  | number
  | word
deriving DecidableEq, Repr

/-- A token with its bytes; `bad` stands where a text stops being JSON. -/
inductive Token where
  | punct (p : Punct)
  | atom (kind : Kind) (raw : Octets)
  | bad
deriving DecidableEq, Repr

def Token.bytes : Token → Octets
  | .punct p => [p.byte]
  | .atom _ raw => raw
  | .bad => []

def print (ts : List Token) : Octets := ts.flatMap Token.bytes

/-- How far the token at hand has got. -/
inductive Lex where
  | text
  | escape
  | hex (left : Nat)
  | closed
  | minus
  | zero
  | int
  | point
  | frac
  | exp
  | expSign
  | expInt
  | word (left : Octets)
deriving DecidableEq, Repr

def isDigit (b : UInt8) : Bool := 0x30 ≤ b && b ≤ 0x39

def isHex (b : UInt8) : Bool :=
  isDigit b || (0x41 ≤ b && b ≤ 0x46) || (0x61 ≤ b && b ≤ 0x66)

/-- `e` or `E`. -/
def isExp (b : UInt8) : Bool := b = 0x65 || b = 0x45

/-- What follows the integer part of a number. -/
def Lex.afterInt (b : UInt8) : Option Lex :=
  if b = 0x2E then some .point else if isExp b then some .exp else none

def Lex.step : Lex → UInt8 → Option Lex
  | .text, b =>
    if b = 0x22 then some .closed
    else if b = 0x5C then some .escape
    else if b < 0x20 then none
    else some .text
  | .escape, b =>
    if [0x22, 0x5C, 0x2F, 0x62, 0x66, 0x6E, 0x72, 0x74].contains b then some .text
    else if b = 0x75 then some (.hex 4)
    else none
  | .hex left, b => if !isHex b then none else if left ≤ 1 then some .text else some (.hex (left - 1))
  | .closed, _ => none
  | .minus, b => if b = 0x30 then some .zero else if isDigit b then some .int else none
  | .zero, b => Lex.afterInt b
  | .int, b => if isDigit b then some .int else Lex.afterInt b
  | .point, b => if isDigit b then some .frac else none
  | .frac, b => if isDigit b then some .frac else if isExp b then some .exp else none
  | .exp, b =>
    if b = 0x2B || b = 0x2D then some .expSign else if isDigit b then some .expInt else none
  | .expSign, b => if isDigit b then some .expInt else none
  | .expInt, b => if isDigit b then some .expInt else none
  | .word [], _ => none
  | .word (c :: left), b => if b = c then some (.word left) else none

def Lex.accepts : Lex → Bool
  | .closed | .zero | .int | .frac | .expInt => true
  | .word left => left.isEmpty
  | _ => false

/-- What the first byte of a token announces. -/
def start (b : UInt8) : Option (Kind × Lex) :=
  if b = 0x22 then some (.string, .text)
  else if b = 0x2D then some (.number, .minus)
  else if b = 0x30 then some (.number, .zero)
  else if isDigit b then some (.number, .int)
  else if b = 0x74 then some (.word, .word [0x72, 0x75, 0x65])
  else if b = 0x66 then some (.word, .word [0x61, 0x6C, 0x73, 0x65])
  else if b = 0x6E then some (.word, .word [0x75, 0x6C, 0x6C])
  else none

def isSpace (b : UInt8) : Bool := b = 0x20 || b = 0x09 || b = 0x0A || b = 0x0D

/-- Up to `fuel` tokens. -/
def lexUpTo : (fuel : Nat) → Octets → List Token
  | 0, _ => []
  | fuel + 1, bs =>
    match bs.dropWhile isSpace with
    | [] => []
    | b :: rest =>
      match Punct.ofByte b with
      | some p => .punct p :: lexUpTo fuel rest
      | none =>
        match start b with
        | none => [.bad]
        | some (kind, q) =>
          let (q', taken, rest') := munch Lex.step q rest
          if q'.accepts then .atom kind (b :: taken) :: lexUpTo fuel rest' else [.bad]

/-- The tokens of a text; each takes a byte at least. -/
def lex (bs : Octets) : List Token := lexUpTo bs.length bs

/-! ### Cutting printed tokens apart again -/

def Lex.kind : Lex → Kind
  | .text | .escape | .hex _ | .closed => .string
  | .word _ => .word
  | _ => .number

theorem Lex.step_kind {q q' : Lex} {b : UInt8} (h : q.step b = some q') : q'.kind = q.kind := by
  cases q with
  | word left =>
    cases left with
    | nil => cases h
    | cons c left =>
      simp only [Lex.step] at h
      split at h
      · cases h
        rfl
      · cases h
  | closed => cases h
  | _ =>
    simp only [Lex.step, Lex.afterInt] at h
    split_ifs at h
    all_goals
      cases h
      try rfl

theorem start_kind {b : UInt8} {kind : Kind} {q : Lex} (h : start b = some (kind, q)) :
    q.kind = kind := by
  unfold start at h
  split_ifs at h
  all_goals
    cases h
    rfl

/-- The bytes that may go on with a number. -/
def numeric (b : UInt8) : Bool := isDigit b || b = 0x2E || isExp b

theorem Lex.number_stops {q : Lex} {b : UInt8} (hkind : q.kind = .number) (hacc : q.accepts = true)
    (hb : numeric b = false) : q.step b = none := by
  unfold numeric at hb
  simp only [Bool.or_eq_false_iff, decide_eq_false_iff_not] at hb
  obtain ⟨⟨hdigit, hpoint⟩, hexp⟩ := hb
  cases q with
  | zero => simp [Lex.step, Lex.afterInt, hpoint, hexp]
  | int => simp [Lex.step, Lex.afterInt, hdigit, hpoint, hexp]
  | frac => simp [Lex.step, hdigit, hexp]
  | expInt => simp [Lex.step, hdigit]
  | word left => cases hkind
  | closed => cases hkind
  | _ => cases hacc

/-- An accepted string or word takes nothing more. -/
theorem Lex.other_stops {q : Lex} (hkind : q.kind ≠ .number) (hacc : q.accepts = true) (b : UInt8) :
    q.step b = none := by
  cases q with
  | closed => rfl
  | word left =>
    cases left with
    | nil => rfl
    | cons c left => cases hacc
  | text => cases hacc
  | escape => cases hacc
  | hex left => cases hacc
  | _ => exact absurd rfl hkind

/-- A token as `lex` makes them. -/
def Token.Wf : Token → Prop
  | .punct _ => True
  | .atom kind raw => ∃ b body q q', raw = b :: body ∧ isSpace b = false ∧ Punct.ofByte b = none ∧
      start b = some (kind, q) ∧ munch Lex.step q body = (q', body, []) ∧ q'.accepts = true
  | .bad => False

theorem lexUpTo_wf {fuel : Nat} {bs : Octets} : ∀ t ∈ lexUpTo fuel bs, t = .bad ∨ t.Wf := by
  induction fuel generalizing bs with
  | zero =>
    intro t ht
    cases ht
  | succ fuel ih =>
    intro t ht
    unfold lexUpTo at ht
    split at ht
    · cases ht
    rename_i b rest hdrop
    split at ht
    · rcases List.mem_cons.mp ht with rfl | ht
      · exact Or.inr trivial
      · exact ih t ht
    rename_i hpunct
    split at ht
    · rw [List.mem_singleton] at ht
      exact Or.inl ht
    rename_i kind q hstart
    dsimp only at ht
    split at ht
    · rename_i hacc
      rcases List.mem_cons.mp ht with rfl | ht
      · refine Or.inr ⟨b, _, q, _, rfl, ?_, hpunct, hstart, ?_, hacc⟩
        · have hhead := List.head?_dropWhile_not isSpace bs
          rw [hdrop] at hhead
          simpa using hhead
        · have hagain : munch Lex.step q ((munch Lex.step q rest).2.1 ++ [])
              = ((munch Lex.step q rest).1, (munch Lex.step q rest).2.1, []) :=
            munch_append rfl (by simp)
          rw [List.append_nil] at hagain
          exact hagain
      · exact ih t ht
    · rw [List.mem_singleton] at ht
      exact Or.inl ht

def Token.isNumber : Token → Bool
  | .atom .number _ => true
  | _ => false

/-- Tokens that may stand next to each other: only numbers run into one another. -/
def Apart (t t' : Token) : Prop := t.isNumber = true → t'.isNumber = false

theorem head_not_numeric {t : Token} {rest : Octets} {b : UInt8} (hwf : t.Wf)
    (hother : t.isNumber = false) (hb : b ∈ (t.bytes ++ rest).head?) : numeric b = false := by
  cases t with
  | punct p =>
    cases p <;> cases hb <;> decide
  | bad => cases hwf
  | atom kind raw =>
    obtain ⟨c, body, q, -, rfl, -, -, hstart, -⟩ := hwf
    cases hb
    unfold start at hstart
    split_ifs at hstart with h1 h2 h3 h4 h5 h6 h7
    all_goals
      cases hstart
    · rw [h1]; decide
    · cases hother
    · cases hother
    · cases hother
    · rw [h5]; decide
    · rw [h6]; decide
    · rw [h7]; decide

/-- What is left of a word has no control characters. -/
def Lex.Plain : Lex → Prop
  | .word left => ∀ b ∈ left, 0x20 ≤ b
  | _ => True

theorem Lex.Plain.step {q q' : Lex} {b : UInt8} (h : q.step b = some q') (hq : q.Plain) :
    q'.Plain ∧ 0x20 ≤ b := by
  cases q with
  | word left =>
    cases left with
    | nil => cases h
    | cons c left =>
      simp only [Lex.step] at h
      split at h
      · rename_i hb
        cases h
        exact ⟨fun b hb => hq b (List.mem_cons_of_mem _ hb), hb ▸ hq c List.mem_cons_self⟩
      · cases h
  | closed => cases h
  | _ =>
    -- the other states name the bytes they take
    simp only [Lex.step, Lex.afterInt] at h
    split_ifs at h
    all_goals
      cases h
      refine ⟨trivial, ?_⟩
      simp only [isHex, isDigit, isExp, Bool.or_eq_true, Bool.and_eq_true, decide_eq_true_eq,
        Bool.not_eq_true', List.contains_eq_mem, List.mem_cons, UInt8.lt_iff_toNat_lt,
        UInt8.le_iff_toNat_le, ← UInt8.toNat_inj, not_lt] at *
      simp at *
      try omega

theorem start_plain {b : UInt8} {kind : Kind} {q : Lex} (h : start b = some (kind, q)) :
    q.Plain ∧ 0x20 ≤ b := by
  unfold start at h
  split_ifs at h with h1 h2 h3 h4 h5 h6 h7
  all_goals cases h
  · exact ⟨trivial, h1 ▸ by decide⟩
  · exact ⟨trivial, h2 ▸ by decide⟩
  · exact ⟨trivial, h3 ▸ by decide⟩
  · refine ⟨trivial, ?_⟩
    simp only [isDigit, Bool.and_eq_true, decide_eq_true_eq] at h4
    exact UInt8.le_trans (by decide) h4.1
  · exact ⟨by simp [Lex.Plain], h5 ▸ by decide⟩
  · exact ⟨by simp [Lex.Plain], h6 ▸ by decide⟩
  · exact ⟨by simp [Lex.Plain], h7 ▸ by decide⟩

/-- No token spans lines. -/
theorem Token.Wf.printable {t : Token} (h : t.Wf) : ∀ b ∈ t.bytes, 0x20 ≤ b := by
  cases t with
  | punct p =>
    intro b hb
    rw [Token.bytes, List.mem_singleton] at hb
    rw [hb]
    cases p <;> decide
  | bad => cases h
  | atom kind raw =>
    obtain ⟨b, body, q, q', rfl, -, -, hstart, hmunch, -⟩ := h
    obtain ⟨hq, hb⟩ := start_plain hstart
    have hbody := munch_taken (I := Lex.Plain) (Q := fun b => 0x20 ≤ b)
      (fun q b q' hstep hq => hq.step hstep) hmunch hq
    exact List.forall_mem_cons.mpr ⟨hb, hbody⟩

/-- Where the tokens behind an accepted one begin, it takes nothing more. -/
theorem stops_at_print {kind : Kind} {raw : Octets} {q : Lex} {ts : List Token}
    (hkind : q.kind = kind) (hacc : q.accepts = true) (hwf : ∀ t ∈ ts, t.Wf)
    (hapart : (.atom kind raw :: ts).IsChain Apart) :
    ∀ b ∈ (print ts).head?, q.step b = none := by
  intro b hb
  by_cases hnumber : kind = .number
  · cases ts with
    | nil => cases hb
    | cons t ts =>
      have hnext : Apart (.atom kind raw) t := (List.isChain_cons_cons.mp hapart).1
      have hother : t.isNumber = false := by
        apply hnext
        rw [hnumber]
        rfl
      apply Lex.number_stops (hkind.trans hnumber) hacc
      exact head_not_numeric (hwf t List.mem_cons_self) hother hb
  · exact Lex.other_stops (fun h => hnumber (hkind.symm.trans h)) hacc b

/-- Printed tokens that keep apart are read back. -/
theorem lexUpTo_print {ts : List Token} {fuel : Nat} (hwf : ∀ t ∈ ts, t.Wf)
    (hapart : ts.IsChain Apart) (hfuel : ts.length ≤ fuel) : lexUpTo fuel (print ts) = ts := by
  induction ts generalizing fuel with
  | nil =>
    cases fuel <;> rfl
  | cons t ts ih =>
    cases fuel with
    | zero => cases hfuel
    | succ fuel =>
      obtain ⟨hhere, hthere⟩ := List.forall_mem_cons.mp hwf
      have hrest := ih hthere hapart.tail (Nat.le_of_succ_le_succ hfuel)
      cases t with
      | bad => cases hhere
      | punct p =>
        have hprint : print (.punct p :: ts) = p.byte :: print ts := rfl
        have hspace : isSpace p.byte = false := by cases p <;> decide
        have hbyte : Punct.ofByte p.byte = some p := by cases p <;> decide
        rw [hprint, lexUpTo, List.dropWhile_cons_of_neg (by simp [hspace])]
        dsimp only
        rw [hbyte]
        dsimp only
        rw [hrest]
      | atom kind raw =>
        obtain ⟨b, body, q, q', rfl, hspace, hpunct, hstart, hmunch, hacc⟩ := hhere
        have hkind : q'.kind = kind := munch_keeps (I := fun q => q.kind = kind)
          (fun _ _ _ hstep hq => (Lex.step_kind hstep).trans hq) hmunch (start_kind hstart)
        have hagain := munch_append hmunch (stops_at_print hkind hacc hthere hapart)
        have hprint : print (.atom kind (b :: body) :: ts) = b :: (body ++ print ts) := rfl
        rw [hprint, lexUpTo, List.dropWhile_cons_of_neg (by simp [hspace])]
        dsimp only
        rw [hpunct]
        dsimp only
        rw [hstart]
        dsimp only
        rw [hagain]
        dsimp only
        rw [if_pos hacc, hrest]

theorem length_le_print {ts : List Token} (hwf : ∀ t ∈ ts, t.Wf) : ts.length ≤ (print ts).length := by
  induction ts with
  | nil => exact Nat.le_refl 0
  | cons t ts ih =>
    obtain ⟨hhere, hthere⟩ := List.forall_mem_cons.mp hwf
    have hrest := ih hthere
    have hpos : 1 ≤ t.bytes.length := by
      cases t with
      | punct p => exact Nat.le_refl 1
      | bad => cases hhere
      | atom kind raw =>
        obtain ⟨b, body, -, -, rfl, -⟩ := hhere
        exact Nat.succ_le_succ (Nat.zero_le _)
    have hprint : print (t :: ts) = t.bytes ++ print ts := rfl
    rw [hprint, List.length_append, List.length_cons]
    omega

theorem lex_print {ts : List Token} (hwf : ∀ t ∈ ts, t.Wf) (hapart : ts.IsChain Apart) :
    lex (print ts) = ts := lexUpTo_print hwf hapart (length_le_print hwf)

/-! ### Values -/

/-- A bracket that is still open. -/
inductive Frame where
  | arr
  | obj
deriving DecidableEq, Repr

/-- What may come next. -/
inductive Want where
  | value
  | firstValue
  | key
  | firstKey
  | colon
  | next
deriving DecidableEq, Repr

/-- Where the automaton goes: on, or out of the value it was reading. -/
inductive Move where
  | go (stack : List Frame) (want : Want)
  | done
deriving DecidableEq, Repr

/-- Behind a value within the given brackets. -/
def Move.behind : List Frame → Move
  | [] => .done
  | stack@(_ :: _) => .go stack .next

/-- The start of a value. -/
def enter (stack : List Frame) : Token → Option Move
  | .atom _ _ => some (Move.behind stack)
  | .punct .lbrack => some (.go (.arr :: stack) .firstValue)
  | .punct .lbrace => some (.go (.obj :: stack) .firstKey)
  | _ => none

/-- The end of the innermost bracket. -/
def close (frame : Frame) : List Frame → Option Move
  | [] => none
  | top :: stack => if top = frame then some (Move.behind stack) else none

def readKey (stack : List Frame) : Token → Option Move
  | .atom .string _ => some (.go stack .colon)
  | _ => none

def advance (stack : List Frame) : Want → Token → Option Move
  | .value, t => enter stack t
  | .firstValue, t => if t = .punct .rbrack then close .arr stack else enter stack t
  | .key, t => readKey stack t
  | .firstKey, t => if t = .punct .rbrace then close .obj stack else readKey stack t
  | .colon, t => if t = .punct .colon then some (.go stack .value) else none
  | .next, .punct .comma =>
    match stack with
    | [] => none
    | .arr :: _ => some (.go stack .value)
    | .obj :: _ => some (.go stack .key)
  | .next, .punct .rbrack => close .arr stack
  | .next, .punct .rbrace => close .obj stack
  | .next, _ => none

/-- Reads to the end of a value: its tokens, and those behind it. -/
def takeFrom : (stack : List Frame) → Want → List Token → Option (List Token × List Token)
  | _, _, [] => none
  | stack, want, t :: ts =>
    match advance stack want t with
    | none => none
    | some .done => some ([t], ts)
    | some (.go stack' want') =>
      match takeFrom stack' want' ts with
      | none => none
      | some (taken, rest) => some (t :: taken, rest)

/-- One value at the head of the tokens. -/
def takeValue (ts : List Token) : Option (List Token × List Token) := takeFrom [] .value ts

theorem takeFrom_append {stack : List Frame} {want : Want} {ts v rest : List Token}
    (h : takeFrom stack want ts = some (v, rest)) :
    ts = v ++ rest ∧ ∀ rest', takeFrom stack want (v ++ rest') = some (v, rest') := by
  induction ts generalizing stack want v with
  | nil => cases h
  | cons t ts ih =>
    rw [takeFrom] at h
    split at h
    · cases h
    · rename_i hmove
      cases h
      refine ⟨rfl, fun rest' => ?_⟩
      rw [List.singleton_append, takeFrom, hmove]
    · rename_i stack' want' hmove
      split at h
      · cases h
      · rename_i taken rest₁ hrest
        cases h
        obtain ⟨hsplit, hagain⟩ := ih hrest
        refine ⟨by rw [hsplit]; rfl, fun rest' => ?_⟩
        rw [List.cons_append, takeFrom, hmove]
        dsimp only
        rw [hagain rest']

/-- A value is read the same way whatever follows it. -/
theorem takeValue_append {ts v rest : List Token} (h : takeValue ts = some (v, rest)) :
    ts = v ++ rest ∧ ∀ rest', takeValue (v ++ rest') = some (v, rest') := takeFrom_append h

theorem Token.exists_of_isNumber {t : Token} (h : t.isNumber = true) :
    ∃ raw, t = .atom .number raw := by
  cases t with
  | atom kind raw =>
    cases kind with
    | number => exact ⟨raw, rfl⟩
    | _ => cases h
  | _ => cases h

/-- A number is a whole value. -/
theorem advance_number {stack stack' : List Frame} {want want' : Want} {t : Token}
    (h : advance stack want t = some (.go stack' want')) (ht : t.isNumber = true) :
    want' = .next := by
  obtain ⟨raw, rfl⟩ := Token.exists_of_isNumber ht
  have hbehind : Move.behind stack = .go stack' want' → want' = .next := by
    intro h
    cases stack with
    | nil => cases h
    | cons frame stack =>
      cases h
      rfl
  cases want with
  | value => exact hbehind (Option.some.inj h)
  | firstValue => exact hbehind (Option.some.inj h)
  | _ => cases h

/-- Behind a value, and between a key and its value, no number may stand. -/
theorem not_number_of_advance {stack : List Frame} {want : Want} {t : Token} {m : Move}
    (h : advance stack want t = some m) (hwant : want = .next ∨ want = .colon) :
    t.isNumber = false := by
  by_contra hnumber
  obtain ⟨raw, rfl⟩ := Token.exists_of_isNumber (Bool.eq_true_of_not_eq_false hnumber)
  rcases hwant with rfl | rfl
  · cases h
  · cases h

/-- The tokens of a value keep apart. -/
theorem takeFrom_apart {stack : List Frame} {want : Want} {ts v rest : List Token}
    (h : takeFrom stack want ts = some (v, rest)) :
    v.IsChain Apart ∧ (want = .next ∨ want = .colon → ∀ t ∈ v.head?, t.isNumber = false) := by
  induction ts generalizing stack want v with
  | nil => cases h
  | cons t ts ih =>
    rw [takeFrom] at h
    split at h
    · cases h
    · rename_i hmove
      cases h
      refine ⟨List.isChain_singleton t, fun hwant t' ht' => ?_⟩
      cases ht'
      exact not_number_of_advance hmove hwant
    · rename_i stack' want' hmove
      split at h
      · cases h
      · rename_i taken rest₁ hrest
        cases h
        obtain ⟨hchain, hhead⟩ := ih hrest
        refine ⟨?_, fun hwant t' ht' => ?_⟩
        · apply List.IsChain.cons hchain
          intro t' ht' hnumber
          exact hhead (Or.inl (advance_number hmove hnumber)) t' ht'
        · cases ht'
          exact not_number_of_advance hmove hwant

theorem takeValue_apart {ts v rest : List Token} (h : takeValue ts = some (v, rest)) :
    v.IsChain Apart := (takeFrom_apart h).1

theorem takeFrom_ne_nil {stack : List Frame} {want : Want} {ts v rest : List Token}
    (h : takeFrom stack want ts = some (v, rest)) : v ≠ [] := by
  cases ts with
  | nil => cases h
  | cons t ts =>
    rw [takeFrom] at h
    split at h
    · cases h
    · cases h
      exact List.cons_ne_nil _ _
    · split at h
      · cases h
      · cases h
        exact List.cons_ne_nil _ _

theorem bad_not_mem {stack : List Frame} {want : Want} {ts v rest : List Token}
    (h : takeFrom stack want ts = some (v, rest)) : .bad ∉ v := by
  have hnone : ∀ stack want, advance stack want .bad = none := by
    intro stack want
    cases want <;> rfl
  induction ts generalizing stack want v with
  | nil => cases h
  | cons t ts ih =>
    rw [takeFrom] at h
    have hgood : advance stack want t ≠ none → .bad ≠ t := by
      rintro hmove rfl
      exact hmove (hnone stack want)
    split at h
    · cases h
    · rename_i hmove
      cases h
      rw [List.mem_singleton]
      exact hgood (by rw [hmove]; exact Option.some_ne_none _)
    · rename_i hmove
      split at h
      · cases h
      · rename_i hrest
        cases h
        rw [List.mem_cons, not_or]
        exact ⟨hgood (by rw [hmove]; exact Option.some_ne_none _), ih hrest⟩

/-! ### Strings -/

def hexValue (b : UInt8) : Nat :=
  if isDigit b then b.toNat - 0x30
  else if 0x61 ≤ b then b.toNat - 0x61 + 10
  else b.toNat - 0x41 + 10

def hexValues (bs : Octets) : Nat := bs.foldl (fun n b => n * 16 + hexValue b) 0

/-- U+FFFD stands for what does not decode. -/
def REPLACEMENT : Char := Char.ofNat 0xFFFD

/-- The character behind a backslash. -/
def unescape (b : UInt8) : Char :=
  if b = 0x62 then Char.ofNat 0x08
  else if b = 0x66 then Char.ofNat 0x0C
  else if b = 0x6E then Char.ofNat 0x0A
  else if b = 0x72 then Char.ofNat 0x0D
  else if b = 0x74 then Char.ofNat 0x09
  else Char.ofNat b.toNat

/-- A `\u` escape at the head, as its code unit. -/
def codeUnit (bs : Octets) : Option Nat :=
  if bs.take 2 = [0x5C, 0x75] ∧ 6 ≤ bs.length then some (hexValues ((bs.drop 2).take 4)) else none

/-- Two code units that make up one character. -/
def surrogatePair (hi lo : Nat) : Option Char :=
  if 0xD800 ≤ hi ∧ hi < 0xDC00 ∧ 0xDC00 ≤ lo ∧ lo < 0xE000 then
    some (Char.ofNat ((hi - 0xD800) * 1024 + (lo - 0xDC00) + 0x10000))
  else none

/-- The first character of a string body and the bytes it took. -/
def firstChar (bs : Octets) : Char × Nat :=
  match codeUnit bs with
  | some hi =>
    if 0xD800 ≤ hi ∧ hi < 0xE000 then
      match (codeUnit (bs.drop 6)).bind (surrogatePair hi) with
      | some c => (c, 12)
      | none => (REPLACEMENT, 6)
    else (Char.ofNat hi, 6)
  | none =>
    match bs with
    | [] => (REPLACEMENT, 1)
    | b :: rest =>
      if b = 0x5C then (unescape (rest.headD 0), 2)
      else if b < 0x80 then (Char.ofNat b.toNat, 1)
      else
        match (bs.take 4).toByteArray.utf8DecodeChar? 0 with
        | some c => (c, c.utf8Size)
        | none => (REPLACEMENT, 1)

def unquoteUpTo : (fuel : Nat) → Octets → List Char
  | 0, _ => []
  | _, [] => []
  | fuel + 1, bs@(_ :: _) =>
    let (c, width) := firstChar bs
    c :: unquoteUpTo fuel (bs.drop width)

/-- The characters of a string token, quotes included in `raw`. -/
def unquote (raw : Octets) : List Char := unquoteUpTo raw.length (raw.drop 1).dropLast

/-! ### Objects -/

/-- The member that comes next, behind a comma unless it is the first. -/
def nextMember (first : Bool) (ts : List Token) : Option (List Token) :=
  if first then some ts
  else
    match ts with
    | .punct .comma :: ts => some ts
    | _ => none

/-- The members behind the opening brace, up to the end of the text. -/
def membersUpTo : (fuel : Nat) → (first : Bool) → List Token →
    Option (List (List Char × List Token))
  | 0, _, _ => none
  | fuel + 1, first, ts =>
    if ts = [.punct .rbrace] then some []
    else
      match nextMember first ts with
      | some (.atom .string raw :: .punct .colon :: ts) =>
        match takeValue ts with
        | none => none
        | some (v, rest) =>
          match membersUpTo fuel false rest with
          | none => none
          | some ms => some ((unquote raw, v) :: ms)
      | _ => none

/-- The members of a text that is one object, with their keys decoded. -/
def object (bs : Octets) : Option (List (List Char × List Token)) :=
  match lex bs with
  | .punct .lbrace :: ts => membersUpTo ts.length true ts
  | _ => none

def memberTokens (m : Octets × List Token) : List Token :=
  .atom .string m.1 :: .punct .colon :: m.2

/-- The tokens of the members behind the first. -/
def moreTokens (ms : List (Octets × List Token)) : List Token :=
  ms.flatMap fun m => .punct .comma :: memberTokens m

/-- An object put together from raw keys and the tokens of their values. -/
def objectTokens : List (Octets × List Token) → List Token
  | [] => [.punct .lbrace, .punct .rbrace]
  | m :: ms => .punct .lbrace :: (memberTokens m ++ moreTokens ms ++ [.punct .rbrace])

theorem membersUpTo_step {first : Bool} {fuel : Nat} {raw : Octets} {v rest ts : List Token}
    {ms : List (List Char × List Token)}
    (hstart : nextMember first ts = some (.atom .string raw :: .punct .colon :: (v ++ rest)))
    (hv : takeValue (v ++ rest) = some (v, rest)) (hrest : membersUpTo fuel false rest = some ms) :
    membersUpTo (fuel + 1) first ts = some ((unquote raw, v) :: ms) := by
  have hne : ts ≠ [.punct .rbrace] := by
    rintro rfl
    cases first <;> cases hstart
  rw [membersUpTo, if_neg hne, hstart]
  dsimp only
  rw [hv]
  dsimp only
  rw [hrest]

section

variable {ms : List (Octets × List Token)}

theorem membersUpTo_more {fuel : Nat}
    (hvalues : ∀ m ∈ ms, ∀ rest, takeValue (m.2 ++ rest) = some (m.2, rest))
    (hfuel : ms.length < fuel) :
    membersUpTo fuel false (moreTokens ms ++ [.punct .rbrace]) =
      some (ms.map fun m => (unquote m.1, m.2)) := by
  induction ms generalizing fuel with
  | nil =>
    cases fuel with
    | zero => cases hfuel
    | succ fuel => rfl
  | cons m ms ih =>
    obtain ⟨hhere, hthere⟩ := List.forall_mem_cons.mp hvalues
    cases fuel with
    | zero => cases hfuel
    | succ fuel =>
      refine membersUpTo_step ?_ (hhere (moreTokens ms ++ [.punct .rbrace]))
        (ih hthere (Nat.lt_of_succ_lt_succ hfuel))
      simp [nextMember, moreTokens, memberTokens]

theorem length_le_moreTokens (ms : List (Octets × List Token)) :
    ms.length ≤ (moreTokens ms).length := by
  induction ms with
  | nil => exact Nat.le_refl 0
  | cons m ms ih =>
    have hsplit : moreTokens (m :: ms) = .punct .comma :: memberTokens m ++ moreTokens ms := rfl
    rw [hsplit, List.length_append, List.length_cons, List.length_cons]
    omega

/-- An object put together from values has these members. -/
theorem membersUpTo_objectTokens {ts : List Token}
    (hvalues : ∀ m ∈ ms, ∀ rest, takeValue (m.2 ++ rest) = some (m.2, rest))
    (hts : objectTokens ms = .punct .lbrace :: ts) :
    membersUpTo ts.length true ts = some (ms.map fun m => (unquote m.1, m.2)) := by
  cases ms with
  | nil =>
    cases hts
    rfl
  | cons m ms =>
    obtain ⟨hhere, hthere⟩ := List.forall_mem_cons.mp hvalues
    have hts := (List.cons.inj hts).2
    have hlen : ts.length = m.2.length + (moreTokens ms).length + 2 + 1 := by
      rw [← hts]
      simp [memberTokens]
      omega
    have hmore := length_le_moreTokens ms
    rw [hlen]
    refine membersUpTo_step ?_ (hhere (moreTokens ms ++ [.punct .rbrace]))
      (membersUpTo_more hthere (by omega))
    rw [← hts]
    simp [nextMember, memberTokens]

theorem objectTokens_lbrace (ms : List (Octets × List Token)) :
    ∃ ts, objectTokens ms = .punct .lbrace :: ts := by
  cases ms with
  | nil => exact ⟨_, rfl⟩
  | cons m ms => exact ⟨_, rfl⟩

theorem mem_objectTokens {t : Token} (h : t ∈ objectTokens ms) :
    (∃ p, t = .punct p) ∨ ∃ m ∈ ms, t = .atom .string m.1 ∨ t ∈ m.2 := by
  have hmember : ∀ m ∈ ms, t ∈ memberTokens m →
      (∃ p, t = .punct p) ∨ ∃ m ∈ ms, t = .atom .string m.1 ∨ t ∈ m.2 := by
    intro m hm ht
    rcases List.mem_cons.mp ht with hkey | ht
    · exact Or.inr ⟨m, hm, Or.inl hkey⟩
    · rcases List.mem_cons.mp ht with hcolon | hvalue
      · exact Or.inl ⟨_, hcolon⟩
      · exact Or.inr ⟨m, hm, Or.inr hvalue⟩
  cases ms with
  | nil =>
    simp only [objectTokens, List.mem_cons, List.not_mem_nil, or_false] at h
    rcases h with rfl | rfl <;> exact Or.inl ⟨_, rfl⟩
  | cons m ms =>
    simp only [objectTokens, moreTokens, List.mem_cons, List.mem_append, List.mem_flatMap,
      List.not_mem_nil, or_false] at h
    rcases h with rfl | (hfirst | ⟨m', hm', rfl | hmore⟩) | rfl
    · exact Or.inl ⟨_, rfl⟩
    · exact hmember m List.mem_cons_self hfirst
    · exact Or.inl ⟨_, rfl⟩
    · exact hmember m' (List.mem_cons_of_mem _ hm') hmore
    · exact Or.inl ⟨_, rfl⟩

theorem apart_of_left {t t' : Token} (h : t.isNumber = false) : Apart t t' := by
  intro hnumber
  rw [h] at hnumber
  cases hnumber

theorem apart_of_right {t t' : Token} (h : t'.isNumber = false) : Apart t t' := fun _ => h

/-- A value between two marks: the marks are no numbers, so only the value itself matters. -/
theorem isChain_between {v rest : List Token} {t : Token} (ht : t.isNumber = false)
    (hv : v.IsChain Apart) (hrest : rest.IsChain Apart)
    (hhead : ∀ t ∈ rest.head?, t.isNumber = false) : (t :: (v ++ rest)).IsChain Apart := by
  have happend : (v ++ rest).IsChain Apart := by
    apply List.isChain_append.mpr
    exact ⟨hv, hrest, fun _ _ y hy => apart_of_right (hhead y hy)⟩
  apply List.isChain_cons.mpr
  exact ⟨fun y _ => apart_of_left ht, happend⟩

theorem memberTokens_apart {m : Octets × List Token} {rest : List Token}
    (hm : m.2.IsChain Apart) (hrest : rest.IsChain Apart)
    (hhead : ∀ t ∈ rest.head?, t.isNumber = false) : (memberTokens m ++ rest).IsChain Apart := by
  have hvalue : List.IsChain Apart (Token.punct .colon :: (m.2 ++ rest)) :=
    isChain_between rfl hm hrest hhead
  have hkey : List.IsChain Apart (Token.atom .string m.1 :: .punct .colon :: (m.2 ++ rest)) :=
    List.isChain_cons.mpr ⟨fun y _ => apart_of_left rfl, hvalue⟩
  simpa [memberTokens] using hkey

/-- What follows the first member of an object: no number starts it. -/
theorem moreTokens_apart (hapart : ∀ m ∈ ms, m.2.IsChain Apart) :
    (moreTokens ms ++ [Token.punct .rbrace]).IsChain Apart ∧
      ∀ t ∈ (moreTokens ms ++ [Token.punct .rbrace]).head?, t.isNumber = false := by
  induction ms with
  | nil =>
    constructor
    · exact List.isChain_singleton _
    · intro t ht
      cases ht
      rfl
  | cons m ms ih =>
    obtain ⟨hhere, hthere⟩ := List.forall_mem_cons.mp hapart
    obtain ⟨hchain, hhead⟩ := ih hthere
    have hsplit : moreTokens (m :: ms) ++ [.punct .rbrace] =
        .punct .comma :: (memberTokens m ++ (moreTokens ms ++ [.punct .rbrace])) := by
      simp [moreTokens]
    rw [hsplit]
    constructor
    · have hmember := memberTokens_apart hhere hchain hhead
      exact List.isChain_cons.mpr ⟨fun y _ => apart_of_left rfl, hmember⟩
    · intro t ht
      cases ht
      rfl

/-- The tokens of an object keep apart where those of its values do. -/
theorem objectTokens_apart (hapart : ∀ m ∈ ms, m.2.IsChain Apart) :
    (objectTokens ms).IsChain Apart := by
  cases ms with
  | nil =>
    apply List.isChain_cons.mpr
    exact ⟨fun y _ => apart_of_left rfl, List.isChain_singleton _⟩
  | cons m ms =>
    obtain ⟨hhere, hthere⟩ := List.forall_mem_cons.mp hapart
    obtain ⟨hchain, hhead⟩ := moreTokens_apart hthere
    have hmembers := memberTokens_apart hhere hchain hhead
    have hbrace : ∀ t, Apart (.punct .lbrace) t := fun _ => apart_of_left rfl
    have hopen := List.isChain_cons.mpr ⟨fun t _ => hbrace t, hmembers⟩
    simpa [objectTokens] using hopen

end

end PicoSignet.Json
