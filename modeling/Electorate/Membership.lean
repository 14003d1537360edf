import Electorate.IdMap
import Electorate.Member

namespace Electorate

def addWeight? (a b : UInt64) : Option UInt64 :=
  if a.toNat + b.toNat < UInt64.size then some (a + b) else none

/-- Adds weights from the left and gives up at the first sum that does not fit. -/
def sumWeights? (ws : List UInt64) : Option UInt64 := ws.foldlM addWeight? 0

def votingWeights (members : IdMap Member) : List UInt64 :=
  (members.filter Member.isParticipant).values.map Member.weight

/-- Members by id, with the weight of all voters together, which fits in 64 bits.
An id is the key under which a member stands; the member's own id field may differ. -/
structure Membership where
  all : IdMap Member
  totalVotingWeight : UInt64
  total_eq : sumWeights? (votingWeights all) = some totalVotingWeight
  deriving DecidableEq

namespace Membership

def voting (m : Membership) : IdMap Member := m.all.filter Member.isParticipant

def observing (m : Membership) : IdMap Member := m.all.filter (fun x => !x.isParticipant)

def isVoter (m : Membership) (id : UInt64) : Bool := m.voting.contains id

def find? (m : Membership) (id : UInt64) : Option Member := m.all.find? id

def size (m : Membership) : Nat := m.all.size

def isEmpty (m : Membership) : Bool := m.all.isEmpty

/-- Takes the members as they stand. Only the total weight can be at fault. -/
def ofMap (all : IdMap Member) : Except Error Membership :=
  match h : sumWeights? (votingWeights all) with
  | some total => .ok (Membership.mk all total h)
  | none => .error (.config .weightOverflow)

/-- Adds a member under its own id, which must be new. -/
def addNew (members : IdMap Member) (m : Member) : Except Error (IdMap Member) :=
  if members.contains m.id then .error (.duplicateServer m.id) else .ok (members.insert m.id m)

/-- Takes each member under its own id. The first repeated id is reported before the weights
are added. -/
def ofList (members : List Member) : Except Error Membership := do
  let all ← members.foldlM addNew IdMap.empty
  ofMap all

end Membership

end Electorate
