import Electorate.Member.Reader
import Electorate.Proofs.Text.Digits

/-! The format of a server line, apart from any way to read it: how each of its pieces may be
written, and which member the pieces describe together. -/
namespace Electorate

/-- How a host is shown in front of a port. Brackets set its own colons apart from the last one. -/
def IsShown (host shown : List Char) : Prop :=
  (':' ∈ host ∧ shown = '[' :: (host ++ [']'])) ∨ (':' ∉ host ∧ shown = host)

/-- An address is a host as it is shown, a colon, and a port without sign or leading zeros. -/
def IsAddress (address host : List Char) (port : ℕ) : Prop :=
  ∃ shown, IsShown host shown ∧ address = shown ++ ':' :: Nat.toDigits 10 port

/-- A port may have blanks around it, and zero is none. -/
structure IsPort (s : List Char) (port : UInt16) : Prop where
  colon : ':' ∉ s
  numeral : IsNumeral 10 (trim s) port.toNat
  ne_zero : port ≠ 0

/-- A host stands in brackets, or bare where neither a bracket nor a colon would be taken for the
end of it. Between brackets there may be anything but a closing one, and nothing at all. -/
inductive IsHost : (s host : List Char) → Prop where
  | bracketed {host : List Char} (hclose : ']' ∉ host) : IsHost ('[' :: (host ++ [']'])) host
  | bare {host : List Char} (hne : host ≠ []) (hcolon : ':' ∉ host)
      (hopen : host.head? ≠ some '[') : IsHost host host

/-- A role is its name in any mixture of ASCII cases. -/
def IsRole (s : List Char) (role : Role) : Prop :=
  List.Forall₂ (fun c d => c = d ∨ c = d.toUpper) s role.name.toList

/-- The pieces of the part for the servers are parted by colons. Who does not say votes. -/
inductive IsServer (host : List Char) (peer election : UInt16) : (s : List Char) → Role → Prop where
  | voter {h p e : List Char} (hhost : IsHost h host) (hpeer : IsPort p peer)
      (helection : IsPort e election) :
      IsServer host peer election (h ++ ':' :: (p ++ ':' :: e)) .participant
  | withRole {h p e r : List Char} {role : Role} (hhost : IsHost h host) (hpeer : IsPort p peer)
      (helection : IsPort e election) (hrole : IsRole r role) :
      IsServer host peer election (h ++ ':' :: (p ++ ':' :: (e ++ ':' :: r))) role

/-- What is left of a text without the opening brackets in front and the closing ones at the end. -/
def IsStripped (s host : List Char) : Prop :=
  (∃ i j, s = List.replicate i '[' ++ (host ++ List.replicate j ']')) ∧
    host.head? ≠ some '[' ∧ host.getLast? ≠ some ']'

/-- The host that is meant where none is named: every interface of the machine. -/
def anyHost : List Char := "0.0.0.0".toList

/-- The part for the clients is a port, or a host and a port after the last colon. The address that
comes of it always names a host. -/
inductive IsClient : (s address : List Char) → Prop where
  | port {s address : List Char} {port : UInt16} (hport : IsPort s port)
      (haddress : IsAddress address anyHost port.toNat) : IsClient s address
  | noHost {s p address : List Char} {port : UInt16} (hhost : IsStripped s [])
      (hport : IsPort p port) (haddress : IsAddress address anyHost port.toNat) :
      IsClient (s ++ ':' :: p) address
  | host {s p host address : List Char} {port : UInt16} (hne : host ≠ [])
      (hhost : IsStripped s host) (hport : IsPort p port)
      (haddress : IsAddress address host port.toNat) : IsClient (s ++ ':' :: p) address

/-- A line has a part for the servers and, after the first semicolon, one for the clients. Blanks
around either of them have no meaning. -/
inductive IsLine (host : List Char) (peer election : UInt16) (role : Role) :
    (line : List Char) → (address : Option (List Char)) → Prop where
  | server {line : List Char} (hsep : ';' ∉ line)
      (hserver : IsServer host peer election (trim line) role) :
      IsLine host peer election role line none
  | client {s c address : List Char} (hsep : ';' ∉ s)
      (hserver : IsServer host peer election (trim s) role) (hclient : IsClient (trim c) address) :
      IsLine host peer election role (s ++ ';' :: c) (some address)

namespace Member

/-- The line describes the member. No line says anything about a weight. -/
structure OfLine (line : List Char) (m : Member) : Prop where
  line : IsLine m.host.toList m.peerPort m.electionPort m.role line
    (m.clientAddress.map String.toList)
  id : m.id ≠ 0
  weight : m.weight = 1

end Member

end Electorate
