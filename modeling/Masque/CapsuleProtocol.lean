import Masque.Library.Scan
import Masque.Library.Utf8

/-!
# The Capsule-Protocol header

The header value parser of `capsule_protocol.rs`, a Boolean Structured Field with
parameters. A sub-parser returns the text it consumed and the rest of the input; `None` is
the error `()`, so that a panic remains a third outcome.
-/

namespace Masque.CapsuleProtocol

open Outcome Scan Utf8

/-- Errors of parsing a header value. -/
inductive CapsuleProtocolError where
  | empty
  | malformed
  | notBoolean
  | invalidParameter
  deriving DecidableEq, Repr

/-- The outcome of a sub-parser: the consumed text and the rest. -/
abbrev Parse := Outcome Unit (List UInt8 × List UInt8)

/-- `trim_start_matches(' ').trim_end_matches(' ')`. -/
def trimSp (value : String) : String :=
  String.ofList (Scan.trim (· == ' ') value.toList)

def skipSp (input : List UInt8) : Outcome Unit (List UInt8) :=
  sliceFrom input (scanWhile (· == ascii ' ') input 0)

def isKeyChar (c : UInt8) : Bool :=
  isLowercase c || isDigit c || [ascii '_', ascii '-', ascii '.', ascii '*'].contains c

def parseKey (input : List UInt8) : Parse :=
  readRun (fun first => isLowercase first || first == ascii '*') isKeyChar () input

def parseNumber (input : List UInt8) : Parse :=
  let i := if input[0]? = some (ascii '-') then 1 else 0
  let intStart := i
  let i := scanWhile isDigit input i
  let intDigits := i - intStart
  if intDigits = 0 ∨ 15 < intDigits then .err ()
  else if input[i]? = some (ascii '.') then
    if 12 < intDigits then .err ()
    else
      let i := i + 1
      let fracStart := i
      let i := scanWhile isDigit input i
      let fracDigits := i - fracStart
      if fracDigits = 0 ∨ 3 < fracDigits then .err ()
      else splitAt input i
  else splitAt input i

/-- The loop of `parse_string`, at index `i`. -/
def parseStringFrom (input : List UInt8) (i : ℕ) : Parse :=
  if h : i < input.length then
    if input[i] = ascii '\\' then
      if input.length ≤ i + 1 then .err ()
      else do
        let next ← index input (i + 1)
        if next ≠ ascii '"' ∧ next ≠ ascii '\\' then .err ()
        else parseStringFrom input (i + 2)
    else if input[i] = ascii '"' then splitAt input (i + 1)
    else if input[i] ≤ 0x1f ∨ 0x7f ≤ input[i] then .err ()
    else parseStringFrom input (i + 1)
  else .err ()
termination_by input.length - i

def parseString (input : List UInt8) : Parse := do
  let first ← index input 0
  if first ≠ ascii '"' then .err ()
  else parseStringFrom input 1

def isBase64Char (c : UInt8) : Bool :=
  isAlphabetic c || isDigit c || [ascii '+', ascii '/'].contains c

def base64Value (c : UInt8) : UInt8 :=
  if ascii 'A' ≤ c ∧ c ≤ ascii 'Z' then c - ascii 'A'
  else if ascii 'a' ≤ c ∧ c ≤ ascii 'z' then c - ascii 'a' + 26
  else if ascii '0' ≤ c ∧ c ≤ ascii '9' then c - ascii '0' + 52
  else if c = ascii '+' then 62
  else if c = ascii '/' then 63
  else 0

/-- The loop of `is_valid_base64` over the reversed input, which returns `false` at the
third padding character. -/
def countPadding : List UInt8 → ℕ → Option ℕ
  | [], padding => some padding
  | c :: rest, padding =>
    if c = ascii '=' then
      if 2 < padding + 1 then none else countPadding rest (padding + 1)
    else some padding

def isValidBase64 (input : List UInt8) : Outcome Unit Bool :=
  if input.isEmpty then .ok true
  else
    match countPadding input.reverse 0 with
    | none => .ok false
    | some padding =>
      if input.length < padding then .panic
      else
        let contentLen := input.length - padding
        if contentLen = 0 then .ok false
        else do
          let content ← slice input 0 contentLen
          if !content.all isBase64Char then .ok false
          else
            let restoredPadding := if padding = 0 then (4 - contentLen % 4) % 4 else padding
            if restoredPadding = 3 ∨ (contentLen + restoredPadding) % 4 ≠ 0 then .ok false
            else
              let effectivePadding := if padding = 0 then restoredPadding else padding
              if 0 < effectivePadding then do
                let last ← index input (contentLen - 1)
                let lastValue := base64Value last
                let mask ← match effectivePadding with
                  | 1 => .ok 0b11
                  | 2 => .ok 0b1111
                  | _ => .panic
                if lastValue &&& mask ≠ 0 then .ok false else .ok true
              else .ok true

/-- The loop of `parse_binary`, at index `i`. -/
def parseBinaryFrom (input : List UInt8) (i : ℕ) : Parse :=
  if h : i < input.length then
    if input[i] = ascii ':' then do
      let content ← slice input 1 i
      let valid ← isValidBase64 content
      if !valid then .err ()
      else splitAt input (i + 1)
    else parseBinaryFrom input (i + 1)
  else .err ()
termination_by input.length - i

def parseBinary (input : List UInt8) : Parse := do
  let first ← index input 0
  if first ≠ ascii ':' then .err ()
  else parseBinaryFrom input 1

def isTokenChar (c : UInt8) : Bool :=
  isAlphanumeric c ||
    "!#$%&'*+-.^_`|~:/".toList.any (ascii · == c)

def parseToken (input : List UInt8) : Parse :=
  readRun (fun first => isAlphabetic first || first == ascii '*') isTokenChar () input

def parseBooleanValue (input : List UInt8) : Parse := do
  if input.length < 2 then .err ()
  else do
    let first ← index input 0
    if first ≠ ascii '?' then .err ()
    else do
      let second ← index input 1
      if second = ascii '0' ∨ second = ascii '1' then splitAt input 2 else .err ()

def parseBareItem (input : List UInt8) : Parse :=
  match input with
  | [] => .err ()
  | first :: _ =>
    if first = ascii '-' ∨ isDigit first then parseNumber input
    else if first = ascii '"' then parseString input
    else if first = ascii ':' then parseBinary input
    else if first = ascii '?' then parseBooleanValue input
    else if isAlphabetic first ∨ first = ascii '*' then parseToken input
    else .err ()

section Consumed

variable {input tok rest : List UInt8}

theorem append_of_parseKey (h : parseKey input = .ok (tok, rest)) : tok ++ rest = input :=
  (readRun_reads.sound h).2

theorem append_of_parseNumber (h : parseNumber input = .ok (tok, rest)) :
    tok ++ rest = input := by
  unfold parseNumber at h
  dsimp only at h
  split_ifs at h <;> exact append_of_splitAt h

theorem append_of_parseStringFrom {i : ℕ} (h : parseStringFrom input i = .ok (tok, rest)) :
    tok ++ rest = input := by
  induction i using parseStringFrom.induct input with
  | case2 i hi hescape hnext ih =>
    rw [parseStringFrom, dif_pos hi, if_pos hescape, if_neg hnext] at h
    obtain ⟨next, _, h⟩ := bind_eq_ok.mp h
    split_ifs at h
    exact ih h
  | case3 i hi hescape hquote =>
    rw [parseStringFrom, dif_pos hi, if_neg hescape, if_pos hquote] at h
    exact append_of_splitAt h
  | case5 i hi hescape hquote hplain ih =>
    rw [parseStringFrom, dif_pos hi, if_neg hescape, if_neg hquote, if_neg hplain] at h
    exact ih h
  | case1 i hi hescape hend => simp [parseStringFrom, hi, hescape, hend] at h
  | case4 i hi hescape hquote hctrl =>
    rw [parseStringFrom, dif_pos hi, if_neg hescape, if_neg hquote, if_pos hctrl] at h
    cases h
  | case6 i hi => simp [parseStringFrom, hi] at h

theorem append_of_parseString (h : parseString input = .ok (tok, rest)) :
    tok ++ rest = input := by
  obtain ⟨first, _, h⟩ := bind_eq_ok.mp h
  split_ifs at h
  exact append_of_parseStringFrom h

theorem append_of_parseBinaryFrom {i : ℕ} (h : parseBinaryFrom input i = .ok (tok, rest)) :
    tok ++ rest = input := by
  induction i using parseBinaryFrom.induct input with
  | case1 i hi hcolon =>
    rw [parseBinaryFrom, dif_pos hi, if_pos hcolon] at h
    obtain ⟨content, _, h⟩ := bind_eq_ok.mp h
    obtain ⟨valid, _, h⟩ := bind_eq_ok.mp h
    split_ifs at h
    exact append_of_splitAt h
  | case2 i hi hcolon ih =>
    rw [parseBinaryFrom, dif_pos hi, if_neg hcolon] at h
    exact ih h
  | case3 i hi => simp [parseBinaryFrom, hi] at h

theorem append_of_parseBinary (h : parseBinary input = .ok (tok, rest)) :
    tok ++ rest = input := by
  obtain ⟨first, _, h⟩ := bind_eq_ok.mp h
  split_ifs at h
  exact append_of_parseBinaryFrom h

theorem append_of_parseToken (h : parseToken input = .ok (tok, rest)) : tok ++ rest = input :=
  (readRun_reads.sound h).2

theorem append_of_parseBooleanValue (h : parseBooleanValue input = .ok (tok, rest)) :
    tok ++ rest = input := by
  unfold parseBooleanValue at h
  split_ifs at h
  obtain ⟨first, _, h⟩ := bind_eq_ok.mp h
  split_ifs at h
  obtain ⟨second, _, h⟩ := bind_eq_ok.mp h
  split_ifs at h
  exact append_of_splitAt h

/-- A bare item is taken off the front of the input. -/
theorem append_of_parseBareItem (h : parseBareItem input = .ok (tok, rest)) :
    tok ++ rest = input := by
  cases input with
  | nil => cases h
  | cons first cs =>
    unfold parseBareItem at h
    dsimp only at h
    split_ifs at h
    · exact append_of_parseNumber h
    · exact append_of_parseString h
    · exact append_of_parseBinary h
    · exact append_of_parseBooleanValue h
    · exact append_of_parseToken h

end Consumed

/-- One round of the loop of `parse_parameters`: the input left for the next one. -/
def parseParameter (input : List UInt8) : Outcome Unit (List UInt8) := do
  let first ← index input 0
  if first ≠ ascii ';' then .err ()
  else do
    let input ← sliceFrom input 1
    let input ← skipSp input
    let (key, input) ← parseKey input
    if key.isEmpty then .err ()
    else if input[0]? = some (ascii '=') then do
      let input ← sliceFrom input 1
      let (_, input) ← parseBareItem input
      return input
    else return input

theorem length_of_sliceFrom {input rest : List UInt8} {n : ℕ}
    (h : (sliceFrom input n : Outcome Unit _) = .ok rest) : rest.length + n = input.length := by
  unfold sliceFrom slice at h
  split_ifs at h with hn
  rw [← ok.inj h, List.take_length, List.length_drop]
  omega

/-- A parameter takes at least its semicolon. -/
theorem length_of_parseParameter {input rest : List UInt8}
    (h : parseParameter input = .ok rest) : rest.length < input.length := by
  unfold parseParameter at h
  obtain ⟨first, _, h⟩ := bind_eq_ok.mp h
  split_ifs at h
  obtain ⟨i₁, h₁, h⟩ := bind_eq_ok.mp h
  obtain ⟨i₂, h₂, h⟩ := bind_eq_ok.mp h
  obtain ⟨⟨key, i₃⟩, h₃, h⟩ := bind_eq_ok.mp h
  have hlen₁ := length_of_sliceFrom h₁
  have hlen₂ := length_of_sliceFrom h₂
  have hlen₃ := congrArg List.length (append_of_parseKey h₃)
  rw [List.length_append] at hlen₃
  dsimp only at h
  split_ifs at h
  · obtain ⟨i₄, h₄, h⟩ := bind_eq_ok.mp h
    obtain ⟨⟨item, i₅⟩, h₅, h⟩ := bind_eq_ok.mp h
    have hlen₄ := length_of_sliceFrom h₄
    have hlen₅ := congrArg List.length (append_of_parseBareItem h₅)
    rw [List.length_append] at hlen₅
    obtain rfl : i₅ = rest := ok.inj h
    omega
  · obtain rfl := ok.inj h
    omega

def parseParameters (input : List UInt8) : Outcome Unit Unit :=
  if input.isEmpty then .ok ()
  else
    match h : parseParameter input with
    | .ok rest =>
      have := length_of_parseParameter h
      parseParameters rest
    | .err e => .err e
    | .panic => .panic
termination_by input.length

def parseCapsuleProtocol (value : String) : Outcome CapsuleProtocolError Bool := do
  let value := trimSp value
  let bytes := bytes value
  if bytes.isEmpty then .err .empty
  else if bytes.length < 2 ∨ bytes[0]? ≠ some (ascii '?') then .err .notBoolean
  else do
    let second ← index bytes 1
    let flag ← if second = ascii '1' then .ok true
      else if second = ascii '0' then .ok false
      else .err .notBoolean
    let rest ← sliceFrom bytes 2
    if rest.isEmpty then .ok flag
    else do
      let first ← index rest 0
      if first ≠ ascii ';' then .err .malformed
      else do
        (parseParameters rest).mapErr fun _ => .invalidParameter
        return flag

def serializeCapsuleProtocol (value : Bool) : String := if value then "?1" else "?0"

/-- What is serialized is parsed back. -/
theorem parse_serialize (value : Bool) :
    parseCapsuleProtocol (serializeCapsuleProtocol value) = .ok value := by
  cases value <;> decide +kernel

end Masque.CapsuleProtocol
