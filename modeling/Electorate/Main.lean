import Electorate.Command.Arguments

namespace Electorate

def readText (path : String) : IO (Except String String) := do
  try
    let bytes ← IO.FS.readBinFile path
    match String.fromUTF8? bytes with
    | some text => pure (.ok text)
    | none => pure (.error FileFault.notText.message)
  catch e => pure (.error (toString e))

def writeText (path text : String) : IO (Except String Unit) := do
  try
    IO.FS.writeFile path text
    pure (.ok ())
  catch e => pure (.error (toString e))

def Script.perform {α : Type} : Script α → IO α
  | .done a => pure a
  | .read path next => do (next (← readText path)).perform
  | .write path text next => do (next (← writeText path text)).perform
  | .print line next => do
    IO.println line
    next.perform

end Electorate

def main (args : List String) : IO UInt32 := do
  let exit ← (Electorate.respond args).perform
  match exit.complaint with
  | some line => IO.eprintln line
  | none => pure ()
  pure exit.status
