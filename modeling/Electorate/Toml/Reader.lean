import Electorate.Toml.Lexeme
import Electorate.Toml.Table

namespace Electorate.Toml

open Scan

/-- What is nested in what, which bounds the work of `part`. -/
inductive Part : Type → Type where
  | value : Part Toml
  | items : Part (List Toml)
  | pairs : Part (List (List String × String × Toml))

/-- Reads a value, the items of an array after its bracket, or the pairs after a brace, at a depth
of nesting and within `fuel` steps. -/
def part : Nat → (depth : Nat) → (p : Part α) → Scan α
  | 0, _, _ => failure
  | fuel + 1, depth, .value => do
    match ← peek? with
    | some '"' | some '\'' => (fun cs => Toml.string (String.ofList cs)) <$> quotedText
    | some 't' => do keyword "true"; pure (.boolean true)
    | some 'f' => do keyword "false"; pure (.boolean false)
    | some '[' =>
      if depth + 1 < nestingLimit then do
        expect '['
        .array .brackets <$> part fuel (depth + 1) .items
      else failure
    | some '\x7b' =>
      if depth + 1 < nestingLimit then do
        expect '\x7b'
        let pairs ← part fuel (depth + 1) .pairs
        match buildBraces pairs with
        | some t => pure (.table .braces t)
        | none => failure
      else failure
    | _ =>
      (do dateOrTime; pure .moment) <|> (do plainFloat <|> specialFloat; pure .float) <|>
        .integer <$> wholeNumber
  | fuel + 1, depth, .items => do
    trivia
    if (← peek?) == some ']' then do
      expect ']'
      pure []
    else do
      let v ← part fuel depth .value
      trivia
      match ← next with
      | ']' => pure [v]
      | ',' => (v :: ·) <$> part fuel depth .items
      | _ => failure
  | fuel + 1, depth, .pairs => do
    gap
    if (← peek?) == some '\x7d' then do
      expect '\x7d'
      pure []
    else do
      let (path, key) ← dottedKey
      expect '='
      gap
      let v ← part fuel depth .value
      gap
      match ← next with
      | '\x7d' => pure [(path, key, v)]
      | ',' => do
        gap
        if (← peek?) == some '\x7d' then failure
        else ((path, key, v) :: ·) <$> part fuel depth .pairs
      | _ => failure

def value : Scan Toml := do
  -- each nesting and each item takes at most two steps and at least one character
  part (2 * (← remaining) + 2) 0 .value

def entry : Scan Statement := do
  let (path, key) ← dottedKey
  expect '='
  gap
  let v ← value
  restOfLine
  pure (.entry path key v)

def header : Scan Statement := do
  expect '['
  let item ← optional (expect '[')
  let (path, key) ← dottedKey
  expect ']'
  if item.isSome then expect ']'
  restOfLine
  pure (if item.isSome then .itemHeader path key else .header path key)

def line : Scan (Option Statement) := do
  match ← peek? with
  | none => failure
  | some '#' => do comment; endOfLine; pure none
  | some '\n' | some '\r' => do newline; pure none
  | some '[' => some <$> header
  | some _ => some <$> entry

def document : Scan (List Statement) := do
  -- a byte order mark may come first
  let _ ← optional (expect '\ufeff')
  gap
  let lines ← many (do
    let l ← line
    gap
    pure l)
  pure (lines.filterMap id)

def parse (text : String) : Option Table := (Scan.all document text.toList).bind build

end Electorate.Toml
