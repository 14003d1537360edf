namespace Electorate

/-- A JSON document. Objects keep their fields in order, repeated ones too. A string is `none`
where its escapes spell half of a surrogate pair and so no text. -/
inductive Json where
  | null
  | bool (b : Bool)
  /-- A number written as digits alone. -/
  | natural (n : Nat)
  /-- A number with a sign, a fraction or an exponent. -/
  | otherNumber
  | string (s : Option String)
  | array (items : List Json)
  | object (fields : List (Option String × Json))
  deriving Inhabited

namespace Json

def text (s : String) : Json := .string (some s)

def word (n : UInt64) : Json := .natural n.toNat

def words (ns : List UInt64) : Json := .array (ns.map word)

def record (fields : List (String × Json)) : Json :=
  .object (fields.map fun f => (some f.1, f.2))

end Json

end Electorate
