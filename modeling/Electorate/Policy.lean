import Electorate.Membership

namespace Electorate

/-- The rule by which acknowledgments decide: more than half of the voters, or more than half of
their weight. -/
inductive Policy where
  | majority
  | weighted
  deriving DecidableEq, Repr

namespace Policy

def name : Policy → String
  | majority => "majority"
  | weighted => "weighted"

def ofName? (s : String) : Option Policy :=
  if s = "majority" then some majority
  else if s = "weighted" then some weighted
  else none

/-- What one server contributes. Under weighted policies only voters contribute. -/
def weight (p : Policy) (m : Membership) (id : UInt64) : UInt64 :=
  match p with
  | majority => 1
  | weighted =>
    match m.voting.find? id with
    | some v => v.weight
    | none => 0

/-- The greatest contribution that is not yet a quorum. -/
def threshold (p : Policy) (m : Membership) : Nat :=
  match p with
  | majority => m.voting.size / 2
  | weighted => m.totalVotingWeight.toNat / 2

end Policy

/-- The weight of the acknowledging voters, added in 64-bit words. -/
def ackWeight (m : Membership) (acks : IdSet) : UInt64 :=
  acks.ids.foldl (fun sum id => sum + Policy.weight .weighted m id) 0

/-- Whether the acknowledgments decide. The majority rule counts every id in the set, so the set
must hold voters only. -/
def Policy.hasQuorum (p : Policy) (m : Membership) (acks : IdSet) : Bool :=
  match p with
  | majority => decide (threshold .majority m < acks.size)
  | weighted => decide (threshold .weighted m < (ackWeight m acks).toNat)

end Electorate
