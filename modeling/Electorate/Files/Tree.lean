import Electorate.Files.Path

namespace Electorate

/-- Files by the names on the way to them from one directory. -/
structure FileTree where
  files : List (List String × ByteArray)

/-- A tree seen from the root, directories that stand there even with nothing in them, and the
working directory. -/
structure Disk extends FileTree where
  directories : List (List String)
  here : List String

/-- The files of one directory, with the work going on in it. It has a name on the disk, so that
the root is above it. -/
def FileTree.mount (t : FileTree) : Disk where
  files := t.files.map fun f => ("work" :: f.1, f.2)
  directories := []
  here := ["work"]

instance : Coe FileTree Disk := ⟨FileTree.mount⟩

inductive FileFault where
  | notFound
  | notADirectory
  | isADirectory
  | badName
  | notText
  deriving DecidableEq, Repr

def FileFault.message : FileFault → String
  | .notFound => "No such file or directory"
  | .notADirectory => "Not a directory"
  | .isADirectory => "Is a directory"
  | .badName => "Not a file name"
  | .notText => "The file is not valid UTF-8"

namespace Disk

def contents? (d : Disk) (place : List String) : Option ByteArray := d.files.lookup place

/-- A directory is there if the work goes on in it, if it was made or if something is in it, and
so is whatever it is in. -/
def isDirectory (d : Disk) (place : List String) : Bool :=
  place.isPrefixOf d.here || d.directories.any place.isPrefixOf ||
    d.files.any fun f => place.isPrefixOf f.1 && place.length < f.1.length

/-- Follows components from a directory. All but the last must lead to directories. Nothing is
above the root but the root. -/
def walk (d : Disk) (place : List String) : List String → Except FileFault (List String)
  | [] => .ok place
  | c :: rest =>
    if !d.isDirectory place then
      .error (if (d.contents? place).isSome then .notADirectory else .notFound)
    else if c = "" ∨ c = "." then walk d place rest
    else if c = ".." then walk d place.dropLast rest
    else walk d (place ++ [c]) rest

/-- Names hold up to 255 bytes and never NUL. -/
def isName (component : String) : Bool :=
  component.utf8ByteSize ≤ 255 && !component.toList.contains '\x00'

def pathLimit : Nat := 4095

def resolve (d : Disk) (path : String) : Except FileFault (List String) :=
  let components := (path.toList.splitOn '/').map String.ofList
  if !components.all isName || pathLimit < path.utf8ByteSize then .error .badName
  else if path.isEmpty then .error .notFound
  else d.walk (if Path.isAbsolute path then [] else d.here) components

def read (d : Disk) (path : String) : Except FileFault String := do
  let place ← d.resolve path
  match d.contents? place with
  | some bytes =>
    match String.fromUTF8? bytes with
    | some text => .ok text
    | none => .error .notText
  | none => .error (if d.isDirectory place then .isADirectory else .notFound)

def put (d : Disk) (place : List String) (bytes : ByteArray) : Disk :=
  { d with files := (place, bytes) :: d.files.filter (fun f => f.1 != place) }

/-- Writes a text to a file in a directory that is there already. -/
def write (d : Disk) (path text : String) : Except FileFault Disk := do
  let place ← d.resolve path
  if d.isDirectory place then .error .isADirectory else .ok (d.put place text.toUTF8)

end Disk

end Electorate
