import Electorate.Error
import Electorate.Files.Tree

namespace Electorate

/-- What a command does, request by request: it reads and writes text files and prints lines. A
failed request comes back with a description of the failure. -/
inductive Script (α : Type) where
  | done (a : α)
  | read (path : String) (next : Except String String → Script α)
  | write (path text : String) (next : Except String Unit → Script α)
  | print (line : String) (next : Script α)

namespace Script
variable {α β : Type}

def andThen (s : Script α) (f : α → Script β) : Script β :=
  match s with
  | done a => f a
  | read path next => read path fun r => (next r).andThen f
  | write path text next => write path text fun r => (next r).andThen f
  | print line next => print line (next.andThen f)

instance : Monad Script where
  pure := done
  bind := andThen

structure Outcome (α : Type) where
  value : α
  files : Disk
  printed : List String

/-- Runs a script on a disk. The lines come in the order of printing. -/
def runOn (d : Disk) : Script α → Outcome α
  | done a => ⟨a, d, []⟩
  | read path next => (next ((d.read path).mapError FileFault.message)).runOn d
  | write path text next =>
    match d.write path text with
    | .ok d' => (next (.ok ())).runOn d'
    | .error f => (next (.error f.message)).runOn d
  | print line next =>
    let later := next.runOn d
    { later with printed := line :: later.printed }

end Script

/-- A script that may end in an error. What it has done before stays done. -/
abbrev Action (α : Type) := ExceptT Error Script α

namespace Action

def readFile (path : String) : Action String :=
  ExceptT.mk (.read path fun r => .done (r.mapError Error.file))

def writeFile (path text : String) : Action Unit :=
  ExceptT.mk (.write path text fun r => .done (r.mapError Error.file))

def printLine (line : String) : Action Unit :=
  ExceptT.mk (.print line (.done (.ok ())))

def ofExcept {α : Type} (e : Except Error α) : Action α := ExceptT.mk (.done e)

end Action

end Electorate
