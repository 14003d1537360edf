import Electorate.Text.Numeral
import Electorate.Text.Scan

/-!
The words of a TOML document: blanks, strings, keys, numbers, dates and times.
-/

namespace Electorate.Toml

open Scan

def isGap (c : Char) : Bool := c == ' ' || c == '\t'

def gap : Scan Unit := do
  let _ ← chars isGap

def newline : Scan Unit := expect '\n' <|> (do expect '\r'; expect '\n')

def isAbove (c : Char) : Bool := 0x80 ≤ c.toNat

def isCommentChar (c : Char) : Bool := c == '\t' || (0x20 ≤ c.toNat && c.toNat ≤ 0x7E) || isAbove c

def comment : Scan Unit := do
  expect '#'
  let _ ← chars isCommentChar

def endOfLine : Scan Unit := do
  match ← peek? with
  | none => pure ()
  | some _ => newline

def restOfLine : Scan Unit := do
  gap
  if (← peek?) == some '#' then comment
  endOfLine

/-- Blanks, line ends and comments, as they may stand between the items of an array. -/
def trivia : Scan Unit := do
  let _ ← many ((do let _ ← chars1 isGap) <|> newline <|> (do comment; newline))

/-! ### Strings -/

def isBasicChar (c : Char) : Bool :=
  c == '\t' || (0x20 ≤ c.toNat && c.toNat ≤ 0x7E && c != '"' && c != '\\') || isAbove c

def isLiteralChar (c : Char) : Bool :=
  c == '\t' || (0x20 ≤ c.toNat && c.toNat ≤ 0x7E && c != '\'') || isAbove c

/-- A character given by the number that its hexadecimal digits make. -/
def codePoint (digits : Nat) : Scan Char := do
  let ds ← exactly (fun c => (digitValue? 16 c).isSome) digits
  match digitsValue? 16 ds with
  | some n => if n.isValidChar then pure (Char.ofNat n) else failure
  | none => failure

def escape : Scan Char := do
  expect '\\'
  match ← next with
  | 'b' => pure '\x08'
  | 't' => pure '\t'
  | 'n' => pure '\n'
  | 'f' => pure '\x0c'
  | 'r' => pure '\r'
  | '"' => pure '"'
  | '\\' => pure '\\'
  | 'u' => codePoint 4
  | 'U' => codePoint 8
  | _ => failure

def basicString : Scan (List Char) := do
  expect '"'
  let cs ← many (one isBasicChar <|> escape)
  expect '"'
  pure cs

def literalString : Scan (List Char) := do
  expect '\''
  let cs ← chars isLiteralChar
  expect '\''
  pure cs

/-- A backslash before the end of a line joins the next word to it. -/
def continuation : Scan Unit := do
  expect '\\'
  gap
  newline
  let _ ← many ((do let _ ← chars1 isGap) <|> newline)

/-- One or two quotes inside a text that three of them end. -/
def innerQuotes (q : Char) : Scan (List Char) := do
  let qs ← chars (· == q)
  if qs.length ≤ 2 && !qs.isEmpty && (← peek?).isSome then pure qs else failure

/-- The three quotes at the end, and the one or two before them that belong to the text. -/
def closingQuotes (q : Char) : Scan (List Char) := do
  let qs ← chars (· == q)
  if 3 ≤ qs.length && qs.length ≤ 5 then pure (qs.drop 3) else failure

def longString (q : Char) (piece : Scan (List Char)) : Scan (List Char) := do
  keyword (String.ofList [q, q, q])
  -- a line end right after the first quotes is no part of the text
  let _ ← optional newline
  let pieces ← many (piece <|> (do newline; pure ['\n']) <|> innerQuotes q)
  let last ← closingQuotes q
  pure (pieces.flatten ++ last)

def longBasicString : Scan (List Char) :=
  longString '"' ((do pure [← one isBasicChar]) <|> (do continuation; pure []) <|>
    (do pure [← escape]))

def longLiteralString : Scan (List Char) := longString '\'' (do pure [← one isLiteralChar])

def quotedText : Scan (List Char) :=
  longBasicString <|> basicString <|> longLiteralString <|> literalString

/-! ### Keys -/

def isBareKeyChar (c : Char) : Bool := c.isAlphanum || c == '-' || c == '_'

def simpleKey : Scan String := do
  let cs ← match ← peek? with
    | some '"' => basicString
    | some '\'' => literalString
    | _ => chars1 isBareKeyChar
  pure (String.ofList cs)

/-- The greatest number of nestings, and of parts of a key, is one less. -/
def nestingLimit : Nat := 80

/-- A key, parted by dots with blanks around them: the path and the last part. -/
def dottedKey : Scan (List String × String) := do
  let part := do
    gap
    let k ← simpleKey
    gap
    pure k
  let first ← part
  let others ← many (do expect '.'; part)
  let parts := first :: others
  if h : parts.length < nestingLimit then pure (parts.dropLast, parts.getLast (by simp [parts]))
  else failure

/-! ### Numbers -/

/-- Digits of a base, with single underscores between them. -/
def digitRun (base : Nat) : Scan (List Char) := do
  let isDigit (c : Char) : Bool := (digitValue? base c).isSome
  let first ← one isDigit
  let others ← many (one isDigit <|> (do expect '_'; one isDigit))
  pure (first :: others)

def sign : Scan Bool := do
  let s ← optional (one fun c => c == '+' || c == '-')
  pure (s == some '-')

/-- A sign and decimal digits without leading zeros: whether it is negative, and the digits. -/
def signedDigits : Scan (Bool × List Char) := do
  let negative ← sign
  if (← peek?) == some '0' then do
    expect '0'
    pure (negative, ['0'])
  else do
    let ds ← digitRun 10
    pure (negative, ds)

def wordSized (n : Int) : Scan Int :=
  if Int64.minValue.toInt ≤ n ∧ n ≤ Int64.maxValue.toInt then pure n else failure

def basedInteger (mark : String) (base : Nat) : Scan Int := do
  keyword mark
  let ds ← digitRun base
  match digitsValue? base ds with
  | some n => wordSized n
  | none => failure

def wholeNumber : Scan Int :=
  basedInteger "0x" 16 <|> basedInteger "0o" 8 <|> basedInteger "0b" 2 <|> do
    let (negative, ds) ← signedDigits
    match digitsValue? 10 ds with
    | some n => wordSized (if negative then -(n : Int) else n)
    | none => failure

/-- Whether `n * 10 ^ e` lies beyond every finite double, that is, rounds to infinity. -/
def overflowsDouble (n : Nat) (e : Int) : Bool :=
  let bound := (1 <<< 1024) - (1 <<< 970)
  if n = 0 then false
  else
    let size := ((decimal n).length : Int) + e
    if size > 400 then true
    else if size < -400 then false
    else if 0 ≤ e then decide (bound ≤ n * Nat.pow 10 e.toNat)
    else decide (bound * Nat.pow 10 (-e).toNat ≤ n)

/-- A number with a fraction, an exponent or both. -/
def plainFloat : Scan Unit := do
  let (negative, whole) ← signedDigits
  let fraction ← optional (do expect '.'; digitRun 10)
  let exponent ← optional (do
    let _ ← one fun c => c == 'e' || c == 'E'
    let negative ← sign
    let ds ← digitRun 10
    pure (negative, ds))
  if fraction.isNone && exponent.isNone then failure
  else
    let digits := whole ++ fraction.getD []
    let power : Int := match exponent with
      | none => 0
      | some (negative, ds) =>
        let n : Int := ((digitsValue? 10 ds).getD 0 : Nat)
        if negative then -n else n
    let n := (digitsValue? 10 digits).getD 0
    -- a negative number may overflow, a positive one may not
    if !negative && overflowsDouble n (power - ((fraction.getD []).length : Int)) then failure
    else pure ()

def specialFloat : Scan Unit := do
  let _ ← sign
  keyword "inf" <|> keyword "nan"

/-! ### Dates and times -/

def twoDigits (low high : Nat) : Scan Nat := do
  let ds ← exactly Char.isDigit 2
  match digitsValue? 10 ds with
  | some n => if low ≤ n ∧ n ≤ high then pure n else failure
  | none => failure

def daysInMonth (year month : Nat) : Nat :=
  if month = 2 then
    if year % 4 = 0 ∧ (year % 100 ≠ 0 ∨ year % 400 = 0) then 29 else 28
  else if month = 4 ∨ month = 6 ∨ month = 9 ∨ month = 11 then 30
  else 31

def date : Scan Unit := do
  let ds ← exactly Char.isDigit 4
  expect '-'
  let month ← twoDigits 1 12
  expect '-'
  let day ← twoDigits 1 31
  if day ≤ daysInMonth ((digitsValue? 10 ds).getD 0) month then pure () else failure

def timeOfDay : Scan Unit := do
  let _ ← twoDigits 0 23
  expect ':'
  let _ ← twoDigits 0 59
  expect ':'
  -- sixty is a leap second
  let _ ← twoDigits 0 60
  let _ ← optional (do expect '.'; chars1 Char.isDigit)

def zone : Scan Unit :=
  (do let _ ← one fun c => c == 'Z' || c == 'z') <|> do
    let _ ← one fun c => c == '+' || c == '-'
    let _ ← twoDigits 0 23
    expect ':'
    let _ ← twoDigits 0 59

def dateOrTime : Scan Unit :=
  (do
    date
    let _ ← optional (do
      let _ ← one fun c => c == 'T' || c == 't' || c == ' '
      timeOfDay
      let _ ← optional zone)) <|> timeOfDay

end Electorate.Toml
