import Electorate.Configuration
import Electorate.Member.Reader

namespace Electorate

inductive Key where
  | server (id : List Char)
  | weight (id : List Char)
  | version
  | other
  deriving DecidableEq, Repr

def Key.of (key : List Char) : Key :=
  match after? "server.".toList key with
  | some id => .server id
  | none =>
    match after? "weight.".toList key with
    | some id => .weight id
    | none => if key = "version".toList then .version else .other

structure Draft where
  servers : IdMap Member
  weights : IdMap UInt64
  version : Option UInt64
  deriving DecidableEq

namespace Draft

def empty : Draft := ⟨IdMap.empty, IdMap.empty, none⟩

def readId (line : Nat) (s : List Char) : Except Error UInt64 :=
  match readWord64 s with
  | some id => .ok id
  | none => .error (.config (.serverId line (String.ofList s)))

def addServer (draft : Draft) (line : Nat) (id value : List Char) : Except Error Draft := do
  let id ← readId line id
  let member ← (Member.read id value).mapError (.serverSpec id)
  -- the spec has been read by now, so its faults come before a repeated id
  if draft.servers.contains id then .error (.duplicateServer id)
  else .ok { draft with servers := draft.servers.insert id member }

def addWeight (draft : Draft) (line : Nat) (id value : List Char) : Except Error Draft := do
  let id ← readId line id
  match readWord64 value with
  | none => .error (.config (.weight line (String.ofList value)))
  | some w =>
    -- the line of the server itself may still follow
    if draft.weights.contains id then .error (.config (.duplicateWeight id))
    else .ok { draft with weights := draft.weights.insert id w }

def addVersion (draft : Draft) (value : List Char) : Except Error Draft :=
  match draft.version with
  -- a second version is reported as such, readable or not
  | some _ => .error (.config .duplicateVersion)
  | none =>
    match readHex64 value with
    | none => .error (.version (String.ofList value))
    | some v => .ok { draft with version := some v }

/-- Takes up one line, which has no outer blanks and is neither empty nor a comment. -/
def addEntry (draft : Draft) (line : Nat) (s : List Char) : Except Error Draft :=
  match splitFirst? '=' s with
  | none => .error (.config (.notAnEntry line (String.ofList s)))
  | some (left, right) =>
    let key := trim left
    let value := trim right
    match Key.of key with
    | .server id => draft.addServer line id value
    | .weight id => draft.addWeight line id value
    | .version => draft.addVersion value
    | .other => .error (.config (.unknownKey line (String.ofList key)))

/-- Whether a line, without outer blanks, says nothing. -/
def isIdle : List Char → Bool
  | [] => true
  | c :: _ => c == '#'

def addLine (draft : Draft) (line : List Char × Nat) : Except Error Draft :=
  let s := trim line.1
  if isIdle s then .ok draft else draft.addEntry line.2 s

/-- The draft that the lines of a text make, the first line being number one. -/
def ofLines (text : List Char) : Except Error Draft :=
  ((text.splitOn '\n').zipIdx 1).foldlM addLine empty

/-- Gives each server its weight. The lowest id that has a weight and no server is reported. -/
def weighted (draft : Draft) : Except Error (IdMap Member) :=
  match draft.weights.ids.find? (fun id => !draft.servers.contains id) with
  | some id => .error (.config (.strayWeight id))
  | none =>
    .ok (draft.servers.mapIds fun id m =>
      { m with weight := (draft.weights.find? id).getD m.weight })

/-- Weights anywhere select the weighted policy, unless one is asked for. -/
def policy (draft : Draft) (asked : Option Policy) : Policy :=
  asked.getD (if draft.weights.isEmpty then .majority else .weighted)

def finish (draft : Draft) (asked : Option Policy) : Except Error Configuration := do
  let members ← draft.weighted
  let membership ← Membership.ofMap members
  if membership.voting.isEmpty then .error (.config .noParticipants)
  else .ok (Configuration.mk (draft.version.getD 0) (draft.policy asked) membership)

end Draft

namespace Configuration

/-- Reads a configuration. `asked`, where given, overrides the policy that the text implies. -/
def parse (text : String) (asked : Option Policy := none) : Except Error Configuration := do
  let draft ← Draft.ofLines text.toList
  draft.finish asked

end Configuration

end Electorate
