import Electorate.Json
import Electorate.Text.Numeral
import Electorate.Text.Scan

namespace Electorate.Json

open Scan

def isSpace (c : Char) : Bool := c == ' ' || c == '\t' || c == '\n' || c == '\r'

def space : Scan Unit := do
  let _ ← chars isSpace

/-- Whole parts have no leading zeros. -/
def wholePart : Scan Nat := do
  let digits ← chars1 Char.isDigit
  if digits.length > 1 && digits.head? == some '0' then failure
  else
    match digitsValue? 10 digits with
    | some n => pure n
    | none => failure

def fraction : Scan Unit := do
  expect '.'
  let _ ← chars1 Char.isDigit

def exponent : Scan Unit := do
  let _ ← one fun c => c == 'e' || c == 'E'
  let _ ← optional (one fun c => c == '+' || c == '-')
  let _ ← chars1 Char.isDigit

def number : Scan Json := do
  let sign ← optional (expect '-')
  let n ← wholePart
  let frac ← if (← peek?) == some '.' then some <$> fraction else pure none
  let next ← peek?
  let exp ← if next == some 'e' || next == some 'E' then some <$> exponent else pure none
  if sign.isSome || frac.isSome || exp.isSome then pure .otherNumber else pure (.natural n)

def codeUnit : Scan Nat := do
  let digits ← exactly (fun c => (digitValue? 16 c).isSome) 4
  match digitsValue? 16 digits with
  | some n => pure n
  | none => failure

/-- A unit of a string: a character, or one half of a surrogate pair. -/
inductive Piece where
  | char (c : Char)
  | high (n : Nat)
  | low (n : Nat)

def Piece.ofCodeUnit (n : Nat) : Piece :=
  if 0xD800 ≤ n ∧ n < 0xDC00 then .high n
  else if 0xDC00 ≤ n ∧ n < 0xE000 then .low n
  else .char (Char.ofNat n)

def escape : Scan Piece := do
  expect '\\'
  match ← next with
  | '"' => pure (.char '"')
  | '\\' => pure (.char '\\')
  | '/' => pure (.char '/')
  | 'b' => pure (.char '\x08')
  | 'f' => pure (.char '\x0c')
  | 'n' => pure (.char '\n')
  | 'r' => pure (.char '\r')
  | 't' => pure (.char '\t')
  | 'u' => Piece.ofCodeUnit <$> codeUnit
  | _ => failure

/-- Control characters must be escaped. -/
def piece : Scan Piece :=
  (Piece.char <$> one fun c => c.toNat ≥ 0x20 && c != '"' && c != '\\') <|> escape

/-- The text that the pieces spell, if every half of a pair stands with its other half. -/
def spell : List Piece → Option (List Char)
  | [] => some []
  | .char c :: rest => (spell rest).map (c :: ·)
  | .high h :: .low l :: rest =>
    (spell rest).map (Char.ofNat (0x10000 + (h - 0xD800) * 0x400 + (l - 0xDC00)) :: ·)
  | .high _ :: _ => none
  | .low _ :: _ => none

def stringLiteral : Scan (Option String) := do
  expect '"'
  let pieces ← many piece
  expect '"'
  pure ((spell pieces).map String.ofList)

/-- What is nested in what, which bounds the work of `part`. -/
inductive Part : Type → Type where
  | value : Part Json
  | items : Part (List Json)
  | fields : Part (List (Option String × Json))

/-- Reads a document, the items of an array after its bracket, or the fields of an object after its
brace, within `fuel` steps. -/
def part : Nat → (p : Part α) → Scan α
  | 0, _ => failure
  | fuel + 1, .value => do
    space
    match ← peek? with
    | some 'n' => do keyword "null"; pure .null
    | some 't' => do keyword "true"; pure (.bool true)
    | some 'f' => do keyword "false"; pure (.bool false)
    | some '"' => .string <$> stringLiteral
    | some '[' => do
      expect '['
      space
      if (← peek?) == some ']' then do expect ']'; pure (.array [])
      else .array <$> part fuel .items
    | some '\x7b' => do
      expect '\x7b'
      space
      if (← peek?) == some '\x7d' then do expect '\x7d'; pure (.object [])
      else .object <$> part fuel .fields
    | _ => number
  | fuel + 1, .items => do
    let item ← part fuel .value
    space
    match ← next with
    | ']' => pure [item]
    | ',' => (item :: ·) <$> part fuel .items
    | _ => failure
  | fuel + 1, .fields => do
    space
    let key ← stringLiteral
    space
    expect ':'
    let v ← part fuel .value
    space
    match ← next with
    | '\x7d' => pure [(key, v)]
    | ',' => ((key, v) :: ·) <$> part fuel .fields
    | _ => failure

/-- Reads one document with nothing but blanks around it. -/
def parse (text : String) : Option Json :=
  let chars := text.toList
  Scan.all (do
    -- each nesting and each item takes at most two steps and at least one character
    let v ← part (2 * chars.length + 2) .value
    space
    pure v) chars

end Electorate.Json
