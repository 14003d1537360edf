namespace Electorate.Path

def isAbsolute (path : String) : Bool := path.toList.head? == some '/'

/-- A component that stays where it is: an empty one, or a single dot. -/
def isIdle (component : List Char) : Bool := component == [] || component == ['.']

/-- What comes before the components proper: the root, or a single dot in front. -/
def splitStart : List Char → List Char × List Char
  | '/' :: rest => (['/'], rest)
  | ['.'] => (['.'], [])
  | '.' :: '/' :: rest => (['.'], '/' :: rest)
  | path => ([], path)

/-- The directory that a file is in: the path without its last component and without what is idle
around it. The file itself must be named. -/
def parent? (path : String) : Option String :=
  let (start, body) := splitStart path.toList
  match ((body.splitOn '/').reverse.dropWhile isIdle) with
  | [] => none
  | _ :: others =>
    some (String.ofList (start ++ ['/'].intercalate (others.dropWhile isIdle).reverse))

/-- A path taken from within a directory. It is not normalised. -/
def join (dir path : String) : String :=
  if isAbsolute path then path
  else if dir.isEmpty || dir.toList.getLast? == some '/' then dir ++ path
  else dir ++ "/" ++ path

end Electorate.Path
