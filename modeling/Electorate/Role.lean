import Electorate.Error

namespace Electorate

/-- Participants vote. Observers receive the state and never count toward a quorum. -/
inductive Role where
  | participant
  | observer
  deriving DecidableEq, Repr

namespace Role

def name : Role → String
  | participant => "participant"
  | observer => "observer"

/-- Reads a role in any mixture of ASCII cases. The fault quotes the text in lower case. -/
def parse (s : List Char) : Except SpecFault Role :=
  let t := String.ofList (s.map Char.toLower)
  if t = "participant" then .ok participant
  else if t = "observer" then .ok observer
  else .error (.role t)

end Role

end Electorate
