namespace Electorate

/-- How a table came to be, which decides what may still be added to it. -/
inductive TableForm where
  /-- By a header of its own, or as the whole document. -/
  | header
  /-- As part of the path of another header. -/
  | implied
  /-- As part of a dotted key. -/
  | dotted
  /-- Between braces. -/
  | braces
  deriving DecidableEq, Repr

/-- How an array came to be. Only headers can add to it. -/
inductive ArrayForm where
  | brackets
  | headers
  deriving DecidableEq, Repr

/-- A value of a TOML document. What settings never use is kept as a mere kind. -/
inductive Toml where
  | string (s : String)
  | integer (n : Int)
  | boolean (b : Bool)
  | float
  | moment
  | array (form : ArrayForm) (items : List Toml)
  | table (form : TableForm) (entries : List (String × Toml))
  deriving Inhabited

end Electorate
