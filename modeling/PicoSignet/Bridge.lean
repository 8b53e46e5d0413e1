/-
  PicoSignet/Bridge.lean
  ======================
  **The management firewall** — mirror of `SignerLine` in `host/internal/hsmproto` and
  `forward` in `host/internal/bridge`.

  `encoding/json`'s `Decoder` hands out the tokens of `Json.lex`; `Decode` reads one
  value of them, `Compact` prints its tokens without the space between them.
-/
import PicoSignet.Json
import PicoSignet.Proto

set_option autoImplicit false

namespace PicoSignet

open Json

/-- `signerVariants`, the keys that are kept. -/
inductive SignerVariant where
  | loadKeySigner
  | signSshKey
  | ping
  | getEnclaveMetrics
deriving DecidableEq, Repr

def signerVariants : List SignerVariant := [.loadKeySigner, .signSshKey, .ping, .getEnclaveMetrics]

def SignerVariant.name : SignerVariant → List Char
  | .loadKeySigner => "loadKeySigner".toList
  | .signSshKey => "signSshKey".toList
  | .ping => "ping".toList
  | .getEnclaveMetrics => "getEnclaveMetrics".toList

/-- The name between quotes, as `SignerLine` writes it. -/
def SignerVariant.quoted (k : SignerVariant) : Octets := [0x22] ++ Str.bytes k.name ++ [0x22]

/-- `slices.Index(signerVariants, key)`. -/
def signerVariant (key : List Char) : Option SignerVariant :=
  signerVariants.find? (·.name = key)

/-- The letters of "hsm" with what simple case folding takes for them; U+017F folds to `s`. -/
def hsmFolds : List (List Char) := [['h', 'H'], ['s', 'S', Char.ofNat 0x17F], ['m', 'M']]

/-- `strings.EqualFold(key, "hsm")`. -/
def foldsToHsm (key : List Char) : Bool :=
  key.length = 3 && (key.zip hsmFolds).all fun (c, fold) => fold.contains c

inductive LineError where
  /-- An error of the decoder. -/
  | malformed
  | notObject
  | management
  | duplicate (key : SignerVariant)
  | trailing
deriving DecidableEq, Repr

/-- `kept`; a dropped key has no place in it. -/
abbrev Kept := SignerVariant → Option (List Token)

/-- `Decoder.More`. -/
def more : List Token → Bool
  | [] => false
  | .punct .rbrace :: _ => false
  | .punct .rbrack :: _ => false
  | _ => true

/-- `SignerLine`'s loop over the members, from behind the opening brace: what is kept,
    and the tokens where no member follows. -/
def keepMembers : (fuel : Nat) → (first : Bool) → Kept → List Token →
    Except LineError (Kept × List Token)
  | 0, _, _, _ => .error .malformed
  | fuel + 1, first, kept, ts =>
    if !more ts then .ok (kept, ts)
    else
      match nextMember first ts with
      | some (.atom .string raw :: ts) =>
        if foldsToHsm (unquote raw) then .error .management
        else
          match (signerVariant (unquote raw)).filter fun k => (kept k).isSome with
          | some k => .error (.duplicate k)
          | none =>
            match ts with
            | .punct .colon :: ts =>
              match takeValue ts with
              | none => .error .malformed
              | some (v, ts) =>
                match signerVariant (unquote raw) with
                | some k => keepMembers fuel false (Function.update kept k (some v)) ts
                | none => keepMembers fuel false kept ts
            | _ => .error .malformed
      | _ => .error .malformed

/-- Writes a variant that is kept, behind a comma unless it is the first. -/
def writeKept (kept : Kept) (out : Octets) (k : SignerVariant) : Octets :=
  match kept k with
  | none => out
  | some v =>
    let out := if out.length > 1 then out ++ [Punct.comma.byte] else out
    out ++ k.quoted ++ [Punct.colon.byte] ++ print v

/-- The line put together from what is kept. -/
def rebuild (kept : Kept) : Octets :=
  signerVariants.foldl (writeKept kept) [Punct.lbrace.byte] ++ [Punct.rbrace.byte]

/-- `SignerLine`: the line to send to the device in place of the client's. -/
def SignerLine (line : Octets) : Except LineError Octets :=
  match lex line with
  | .punct .lbrace :: ts =>
    match keepMembers ts.length true (fun _ => none) ts with
    | .error e => .error e
    | .ok (kept, [.punct .rbrace]) => .ok (rebuild kept)
    | .ok (_, .punct .rbrace :: _) => .error .trailing
    | .ok _ => .error .malformed
  | .punct .lbrack :: _ => .error .notObject
  | .atom _ _ :: _ => .error .notObject
  | _ => .error .malformed

/-- The text of an error, with the decoder's own where it is one of those. -/
def LineError.text (decoder : String) : LineError → String
  | .malformed => decoder
  | .notObject => "request must be a JSON object"
  | .management => "request has an hsm key"
  | .duplicate key => "duplicate key \"" ++ String.ofList key.name ++ "\""
  | .trailing => "unexpected data after the request object"

/-- What `forward` does with a line: it answers an error, or sends a request. -/
inductive Forward where
  | answers (error : String)
  | sends (req : Octets)
deriving DecidableEq, Repr

section

-- the text of the decoder's error on a line
variable (decoder : Octets → String)

def forward (allowRemoteMgmt listenerAllowsMgmt : Bool) (line : Octets) : Forward :=
  if allowRemoteMgmt || listenerAllowsMgmt then .sends line
  else
    match SignerLine line with
    | .ok req => .sends req
    | .error .management => .answers "management commands are not permitted over the network"
    | .error e => .answers ("json.Unmarshal failed: " ++ e.text (decoder line))

end

end PicoSignet
