import Electorate.Configuration.Reader
import Electorate.Files.Path
import Electorate.Handover
import Electorate.Node
import Electorate.Script

namespace Electorate

namespace Node

/-- Takes a relative membership path from the directory of the settings file. -/
def locate (n : Node) (path : String) : Node :=
  match n.dynamicConfig, Path.parent? path with
  | some file, some dir => { n with dynamicConfig := some (Path.join dir file) }
  | _, _ => n

def load (path : String) : Action Node := do
  let text ← Action.readFile path
  let n ← Action.ofExcept (Node.parse text)
  pure (n.locate path)

/-- The configuration in the membership file, under the policy that the settings ask for. -/
def loadMembership? (n : Node) : Action (Option Configuration) :=
  match n.dynamicConfig with
  | none => pure none
  | some path => do
    let text ← Action.readFile path
    let c ← Action.ofExcept (Configuration.parse text n.policy)
    pure (some c)

def loadHandover (n : Node) : Action Handover := do
  match ← n.loadMembership? with
  | some c => pure (Handover.start c n.reconfigEnabled)
  | none => Action.ofExcept (.error (.config .noDynamicConfig))

end Node

/-- Loads a file that is named, or the membership file of the node. The policy that the node asks
for applies to both. -/
def loadMembership (file : Option String) (node : Option Node) : Action Configuration :=
  match file, node with
  | some path, _ => do
    let text ← Action.readFile path
    Action.ofExcept (Configuration.parse text (node.bind Node.policy))
  | none, some n => do
    match ← n.loadMembership? with
    | some c => pure c
    | none => Action.ofExcept (.error (.config .noMembershipAnywhere))
  | none, none => Action.ofExcept (.error (.config .noMembershipGiven))

end Electorate
