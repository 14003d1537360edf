namespace Electorate

/-- The value of a digit below `base`, for bases up to sixteen and letters of either case. -/
def digitValue? (base : Nat) (c : Char) : Option Nat :=
  let v? :=
    if '0' ≤ c ∧ c ≤ '9' then some (c.toNat - 48)
    else if 'a' ≤ c ∧ c ≤ 'f' then some (c.toNat - 87)
    else if 'A' ≤ c ∧ c ≤ 'F' then some (c.toNat - 55)
    else none
  v?.filter (· < base)

/-- The number that a run of digits denotes, most significant digit first. -/
def digitsValue? (base : Nat) (s : List Char) : Option Nat :=
  s.foldlM (fun n c => (digitValue? base c).map (base * n + ·)) 0

/-- Reads an unsigned numeral below `bound`: one optional plus sign, then digits and nothing
else, at least one of them, with any number of leading zeros. -/
def readNumeral (base bound : Nat) (s : List Char) : Option Nat :=
  let digits := match s with
    | '+' :: rest => rest
    | s => s
  if digits.isEmpty then none else (digitsValue? base digits).filter (· < bound)

def readWord64 (s : List Char) : Option UInt64 := (readNumeral 10 UInt64.size s).map UInt64.ofNat

def readHex64 (s : List Char) : Option UInt64 := (readNumeral 16 UInt64.size s).map UInt64.ofNat

def readWord16 (s : List Char) : Option UInt16 := (readNumeral 10 UInt16.size s).map UInt16.ofNat

def decimal (n : Nat) : List Char := Nat.toDigits 10 n

def hexadecimal (n : Nat) : List Char := Nat.toDigits 16 n

example : readNumeral 10 256 ['+', '0', '0', '7'] = some 7 := by decide
example : readNumeral 10 256 ['2', '5', '6'] = none := by decide
example : readNumeral 16 256 ['F', 'f'] = some 255 := by decide

end Electorate
