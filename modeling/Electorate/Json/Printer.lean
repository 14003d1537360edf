import Electorate.Json
import Electorate.Text.Numeral

namespace Electorate.Json

def fourDigits (n : Nat) : List Char :=
  let digits := hexadecimal n
  List.replicate (4 - digits.length) '0' ++ digits

def escapeChar (c : Char) : List Char :=
  if c == '"' then ['\\', '"']
  else if c == '\\' then ['\\', '\\']
  else if c == '\n' then ['\\', 'n']
  else if c == '\r' then ['\\', 'r']
  else if c == '\t' then ['\\', 't']
  else if c == '\x08' then ['\\', 'b']
  else if c == '\x0c' then ['\\', 'f']
  else if c.toNat < 0x20 then '\\' :: 'u' :: fourDigits c.toNat
  else [c]

def quoted (s : String) : String :=
  "\"" ++ String.ofList (s.toList.flatMap escapeChar) ++ "\""

def indent (depth : Nat) : String := String.ofList ('\n' :: List.replicate (2 * depth) ' ')

def block (openText closeText : String) (depth : Nat) (items : List String) : String :=
  if items.isEmpty then openText ++ closeText
  else
    openText ++ indent (depth + 1) ++ ("," ++ indent (depth + 1)).intercalate items
      ++ indent depth ++ closeText

mutual

/-- Prints a document with two blanks for each nesting. What has no exact text is shown as null. -/
def prettyAt (depth : Nat) : Json → String
  | .null => "null"
  | .bool b => if b then "true" else "false"
  | .natural n => String.ofList (decimal n)
  | .otherNumber => "null"
  | .string s => quoted (s.getD "")
  | .array items => block "[" "]" depth (prettyItems (depth + 1) items)
  | .object fields => block "\x7b" "\x7d" depth (prettyFields (depth + 1) fields)

def prettyItems (depth : Nat) : List Json → List String
  | [] => []
  | v :: rest => prettyAt depth v :: prettyItems depth rest

def prettyFields (depth : Nat) : List (Option String × Json) → List String
  | [] => []
  | (k, v) :: rest =>
    (quoted (k.getD "") ++ ": " ++ prettyAt depth v) :: prettyFields depth rest

end

def pretty (v : Json) : String := prettyAt 0 v

end Electorate.Json
