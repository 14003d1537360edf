namespace Electorate

/-- A step that reads from the front of a text. It gives what it has read and leaves the rest, or
fails where the text does not fit. -/
abbrev Scan (α : Type) := StateT (List Char) Option α

namespace Scan
variable {α : Type}

/-- Runs a step that must use up the whole text. -/
def all (p : Scan α) (text : List Char) : Option α :=
  match p.run text with
  | some (a, []) => some a
  | _ => none

def peek? : Scan (Option Char) := do
  let s ← get
  pure s.head?

def next : Scan Char := do
  match ← get with
  | [] => failure
  | c :: rest =>
    set rest
    pure c

def remaining : Scan Nat := do
  let s ← get
  pure s.length

def expect (c : Char) : Scan Unit := do
  let d ← next
  if c = d then pure () else failure

def keyword (s : String) : Scan Unit := s.toList.forM expect

def one (p : Char → Bool) : Scan Char := do
  let c ← next
  if p c then pure c else failure

def chars (p : Char → Bool) : Scan (List Char) := do
  let s ← get
  set (s.dropWhile p)
  pure (s.takeWhile p)

def chars1 (p : Char → Bool) : Scan (List Char) := do
  let cs ← chars p
  if cs.isEmpty then failure else pure cs

def exactly (p : Char → Bool) : Nat → Scan (List Char)
  | 0 => pure []
  | n + 1 => do
    let c ← one p
    let cs ← exactly p n
    pure (c :: cs)

/-- The step again and again until it fails, at most `n` times. -/
def upTo (p : Scan α) : Nat → Scan (List α)
  | 0 => pure []
  | n + 1 => do
    match ← optional p with
    | none => pure []
    | some a =>
      let rest ← upTo p n
      pure (a :: rest)

/-- The step again and again until it fails. -/
def many (p : Scan α) : Scan (List α) := do
  -- a step that reads something can succeed no more often than there are characters left
  upTo p (← remaining)

end Scan

end Electorate
