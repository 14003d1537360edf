import Electorate.Configuration
import Electorate.Json

/-!
The stored forms of members, summaries and codes. A record may be written as an object, with its
fields in any order and others between them, or as an array of its fields in order.
-/

namespace Electorate

namespace Json

/-- Takes up one more field of an object. A known one must be new, one of another name is passed
over, and a key that is no text is turned down. -/
def takeField? (names : List String) (taken : List (String × Json)) :
    Option String × Json → Option (List (String × Json))
  | (none, _) => none
  | (some name, v) =>
    if name ∉ names then some taken
    else if (taken.lookup name).isSome then none
    else some ((name, v) :: taken)

/-- The values of the named fields, each of which may be missing but not repeated. -/
def fields? (names : List String) : Json → Option (List (Option Json))
  | .object fields =>
    (fields.foldlM (takeField? names) []).map fun taken => names.map fun name => taken.lookup name
  | .array items =>
    if items.length ≤ names.length then
      some (items.map some ++ List.replicate (names.length - items.length) none)
    else none
  | _ => none

def natural? (bound : Nat) : Json → Option Nat
  | .natural n => if n < bound then some n else none
  | _ => none

def word64? (v : Json) : Option UInt64 := (v.natural? UInt64.size).map UInt64.ofNat

def word16? (v : Json) : Option UInt16 := (v.natural? UInt16.size).map UInt16.ofNat

def text? : Json → Option String
  | .string s => s
  | _ => none

def words64? : Json → Option (List UInt64)
  | .array items => items.mapM word64?
  | _ => none

/-- What may be there, with null for when it is not. -/
def orNull {α : Type} (write : α → Json) : Option α → Json
  | none => .null
  | some a => write a

def orNull? {α : Type} (read : Json → Option α) : Json → Option (Option α)
  | .null => some none
  | v => (read v).map some

/-- A field with a value for when it is missing. -/
def orDefault {α : Type} (read : Json → Option α) (default : α) : Option Json → Option α
  | none => some default
  | some v => read v

/-- One of a set of names: the name as a string, or as the only key of an object, over null. -/
def choice? {α : Type} (ofName? : String → Option α) : Json → Option α
  | .string (some s) => ofName? s
  | .object [(some s, .null)] => ofName? s
  | _ => none

end Json

def Role.ofName? (s : String) : Option Role :=
  if s = "participant" then some .participant
  else if s = "observer" then some .observer
  else none

namespace Member

def fieldNames : List String :=
  ["id", "host", "peer_port", "election_port", "client_address", "learner_type", "weight"]

/-- The fields of the stored form, in the order in which they are written. -/
def stored (m : Member) : List (String × Json) :=
  [("id", .word m.id),
   ("host", .text m.host),
   ("peer_port", .natural m.peerPort.toNat),
   ("election_port", .natural m.electionPort.toNat),
   ("client_address", Json.orNull Json.text m.clientAddress),
   ("learner_type", .text m.role.name),
   ("weight", .word m.weight)]

def toJson (m : Member) : Json := Json.record m.stored

/-- Reads a member. Without an address for clients there is none, and without a weight it is one.
Nothing is checked beyond the types of the fields. -/
def ofJson? (v : Json) : Option Member :=
  match v.fields? fieldNames with
  | some [id, host, peer, election, client, role, weight] => do
    let id ← id.bind Json.word64?
    let host ← host.bind Json.text?
    let peerPort ← peer.bind Json.word16?
    let electionPort ← election.bind Json.word16?
    let clientAddress ← Json.orDefault (Json.orNull? Json.text?) none client
    let role ← role.bind (Json.choice? Role.ofName?)
    let weight ← Json.orDefault Json.word64? 1 weight
    some (Member.mk id host peerPort electionPort clientAddress role weight)
  | _ => none

end Member

namespace Summary

def fieldNames : List String :=
  ["version", "policy", "voting", "observing", "total_voting_weight", "threshold"]

def toJson (s : Summary) : Json :=
  Json.record
    [("version", .word s.version),
     ("policy", .text s.policy.name),
     ("voting", .words s.voting),
     ("observing", .words s.observing),
     ("total_voting_weight", .word s.totalVotingWeight),
     ("threshold", .word s.threshold)]

def ofJson? (v : Json) : Option Summary :=
  match v.fields? fieldNames with
  | some [some version, some policy, some voting, some observing, some total, some threshold] => do
    let version ← version.word64?
    let policy ← policy.choice? Policy.ofName?
    let voting ← voting.words64?
    let observing ← observing.words64?
    let total ← total.word64?
    let threshold ← threshold.word64?
    some (Summary.mk version policy voting observing total threshold)
  | _ => none

end Summary

def Code.ofJson? (v : Json) : Option Code := v.choice? Code.ofName?

end Electorate
