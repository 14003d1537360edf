import Electorate.Member
import Electorate.Text.Blank
import Electorate.Text.Split

namespace Electorate

/-- The host, without brackets, and what follows the colon after it. -/
def splitHost (server : List Char) : Except SpecFault (List Char × List Char) :=
  match server with
  | '[' :: inner =>
    match splitFirst? ']' inner with
    | none => .error (.openBracket (String.ofList server))
    | some (host, ':' :: rest) => .ok (host, rest)
    | some (host, _) => .error (.noPortsAfterBracket (String.ofList host))
  | _ =>
    match splitFirst? ':' server with
    | none => .error (.noPorts (String.ofList server))
    | some ([], _) => .error .emptyHost
    | some (host, rest) => .ok (host, rest)

/-- Reads a port from 1 to 65535. Blanks around the digits are allowed. -/
def readPort (s : List Char) : Except SpecFault UInt16 :=
  match readWord16 (trim s) with
  | some p => if p = 0 then .error (.port (String.ofList s)) else .ok p
  | none => .error (.port (String.ofList s))

/-- The host of an address for clients, less all the brackets around it. Where nothing is left,
every interface is meant. -/
def clientHost (s : List Char) : List Char :=
  let inner := ((s.dropWhile (· == '[')).reverse.dropWhile (· == ']')).reverse
  if inner.isEmpty then "0.0.0.0".toList else inner

/-- Reads `[host:]port`. The last colon parts the two. -/
def readClientAddress (s : List Char) : Except SpecFault String :=
  match splitLast? ':' s with
  | some (host, port) =>
    (readPort port).map fun p => String.ofList (addressText (clientHost host) p)
  | none => (readPort s).map fun p => String.ofList (addressText (clientHost []) p)

/-- The two ports and the role, parted by colons. `server` is the text that a fault quotes. -/
def splitFields (server rest : List Char) :
    Except SpecFault (List Char × List Char × Option (List Char)) :=
  match rest.splitOn ':' with
  | [peer, election] => .ok (peer, election, none)
  | [peer, election, role] => .ok (peer, election, some role)
  | _ => .error (.fieldCount (String.ofList server))

/-- The part before the first semicolon and the part after it, each without outer blanks. -/
def splitClient (spec : List Char) : List Char × Option (List Char) :=
  match splitFirst? ';' spec with
  | some (server, client) => (trim server, some (trim client))
  | none => (trim spec, none)

namespace Member

/-- Reads `host:peerPort:electionPort[:role][;[clientHost:]clientPort]`. An unusable id is reported
before all else. Then come the host, the number of fields, the ports, the role and the address for
clients, in this order. -/
def read (id : UInt64) (spec : List Char) : Except SpecFault Member :=
  if id = 0 then .error .zeroId
  else do
    let (server, client?) := splitClient spec
    let (host, rest) ← splitHost server
    let (peer, election, role?) ← splitFields server rest
    let peerPort ← readPort peer
    let electionPort ← readPort election
    let role ← match role? with
      | none => .ok .participant
      | some r => Role.parse r
    let clientAddress ← match client? with
      | none => .ok none
      | some c => (readClientAddress c).map some
    .ok (Member.mk id (String.ofList host) peerPort electionPort clientAddress role 1)

def parse (id : UInt64) (spec : String) : Except Error Member :=
  (read id spec.toList).mapError (.serverSpec id)

end Member

end Electorate
