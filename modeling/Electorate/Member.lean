import Electorate.Role
import Electorate.Text.Numeral

namespace Electorate

/-- One server of a configuration. Followers use the peer port and elections the election port.
The weight counts under weighted policies only. -/
structure Member where
  id : UInt64
  host : String
  peerPort : UInt16
  electionPort : UInt16
  clientAddress : Option String := none
  role : Role := .participant
  weight : UInt64 := 1
  deriving DecidableEq, Repr

namespace Member

def isParticipant (m : Member) : Bool := m.role == .participant

end Member

/-- A host that holds a colon stands in brackets, so that the colon after it can be found. -/
def hostText (host : List Char) : List Char :=
  if host.contains ':' then '[' :: (host ++ [']']) else host

def addressText (host : List Char) (port : UInt16) : List Char :=
  hostText host ++ ':' :: decimal port.toNat

namespace Member

def peerAddress (m : Member) : String := String.ofList (addressText m.host.toList m.peerPort)

def electionAddress (m : Member) : String :=
  String.ofList (addressText m.host.toList m.electionPort)

/-- The line that describes the member, `host:peerPort:electionPort:role` and then, after a
semicolon, the address for clients if there is one. The weight is not part of it. -/
def spec (m : Member) : List Char :=
  hostText m.host.toList ++ ':' :: (decimal m.peerPort.toNat ++ ':' :: (decimal m.electionPort.toNat
    ++ ':' :: (m.role.name.toList ++
      match m.clientAddress with
      | none => []
      | some a => ';' :: a.toList)))

def text (m : Member) : String := String.ofList m.spec

end Member

end Electorate
