import Electorate.Policy
import Electorate.Text.Split

namespace Electorate

/-- A membership with the rule that governs it and the version under which it is known. -/
structure Configuration where
  version : UInt64
  policy : Policy
  membership : Membership
  deriving DecidableEq

structure Summary where
  version : UInt64
  policy : Policy
  voting : List UInt64
  observing : List UInt64
  totalVotingWeight : UInt64
  threshold : UInt64
  deriving DecidableEq, Repr

namespace Configuration

def ofMembers (version : UInt64) (policy : Policy) (members : List Member) :
    Except Error Configuration :=
  (Membership.ofList members).map (Configuration.mk version policy)

def ofMap (version : UInt64) (policy : Policy) (members : IdMap Member) :
    Except Error Configuration :=
  (Membership.ofMap members).map (Configuration.mk version policy)

def stamp (c : Configuration) (version : UInt64) : Configuration := { c with version := version }

def members (c : Configuration) : IdMap Member := c.membership.all

def voting (c : Configuration) : IdMap Member := c.membership.voting

def observing (c : Configuration) : IdMap Member := c.membership.observing

def isVoter (c : Configuration) (id : UInt64) : Bool := c.membership.isVoter id

def weight (c : Configuration) (id : UInt64) : UInt64 := c.policy.weight c.membership id

def threshold (c : Configuration) : Nat := c.policy.threshold c.membership

def hasQuorum (c : Configuration) (acks : IdSet) : Bool := c.policy.hasQuorum c.membership acks

/-- Configurations of one version count as the same whatever their members. Under different
versions the members decide, and the policy is left out of account. -/
def sameAs (a b : Configuration) : Bool := a.version == b.version || a.members == b.members

def summary (c : Configuration) : Summary where
  version := c.version
  policy := c.policy
  voting := c.voting.ids
  observing := c.observing.ids
  totalVotingWeight := c.membership.totalVotingWeight
  threshold := UInt64.ofNat c.threshold

def serverLine (m : Member) : List Char :=
  "server.".toList ++ (decimal m.id.toNat ++ '=' :: m.spec)

def weightLine (m : Member) : List Char :=
  "weight.".toList ++ (decimal m.id.toNat ++ '=' :: decimal m.weight.toNat)

def versionLine (version : UInt64) : List Char := "version=".toList ++ hexadecimal version.toNat

/-- A line for each member in order of id, a line for the weight of each voter where weights
count, and the version. -/
def lines (c : Configuration) : List (List Char) :=
  c.members.values.map serverLine ++
    (match c.policy with
      | .majority => []
      | .weighted => c.voting.values.map weightLine) ++
    [versionLine c.version]

/-- The lines with a line feed between them and none at the end. -/
def text (c : Configuration) : String := String.ofList (['\n'].intercalate c.lines)

end Configuration

def versionTag (version : UInt64) : String :=
  String.ofList ('v' :: hexadecimal version.toNat)

end Electorate
