import Electorate.Proofs.Configuration.Acceptance
import Electorate.Proofs.Member.Acceptance

/-! Under which addresses the members of a configuration that was read can be reached, and the one
way to write a host that leaves a member without any. -/
namespace Electorate

/-- At its last colon the address parts into a host as it is shown, which is empty only for an empty
host, and a port. -/
def PartsInto (address : String) (host : List Char) (port : UInt16) : Prop :=
  ∃ shown, splitLast? ':' address.toList = some (shown, decimal port.toNat) ∧
    IsShown host shown ∧ (shown = [] ↔ host = [])

namespace Member

/-- A member with an id and ports, all of whose addresses part as they should. The host of the
member itself may still be empty. -/
structure Addressed (m : Member) : Prop where
  id : m.id ≠ 0
  peerPort : m.peerPort ≠ 0
  electionPort : m.electionPort ≠ 0
  peer : PartsInto m.peerAddress m.host.toList m.peerPort
  election : PartsInto m.electionAddress m.host.toList m.electionPort
  client : ∀ a, m.clientAddress = some a →
    ∃ host port, PartsInto a host port ∧ host ≠ [] ∧ port ≠ 0

/-- A member that can be reached under all of its addresses. -/
structure Usable (m : Member) : Prop extends Addressed m where
  host : m.host ≠ ""

end Member

/-- Nothing between the brackets in front, blanks aside. -/
def IsHostless (line : List Char) : Prop := "[]".toList <+: trim line

instance (line : List Char) : Decidable (IsHostless line) :=
  inferInstanceAs (Decidable ("[]".toList <+: trim line))

/-- An address that was put together from a host and a port parts into them. -/
theorem partsInto_of_eq {address : String} {host : List Char} {port : UInt16}
    (h : address.toList = addressText host port) : PartsInto address host port := by
  have hcolon : ':' ∉ decimal port.toNat := not_mem_decimal (by decide) _
  refine ⟨hostText host, ?_, isShown_iff.mpr rfl, ?_⟩
  · rw [h, addressText, splitLast?_append _ hcolon]
  · by_cases hhost : ':' ∈ host
    · have hne : host ≠ [] := List.ne_nil_of_mem hhost
      simp [hostText_of_mem hhost, hne]
    · rw [hostText_of_not_mem hhost]

/-- A host that is empty can only stand between brackets. -/
theorem IsHost.eq_nil_iff {h host : List Char} (hhost : IsHost h host) (rest : List Char) :
    host = [] ↔ "[]".toList <+: h ++ rest := by
  cases hhost with
  | bracketed hclose =>
    cases host with
    | nil => simp
    | cons c host =>
      have hc : ']' ≠ c := fun hc => hclose (hc ▸ List.mem_cons_self)
      simp [hc]
  | bare hne _ hopen =>
    cases h with
    | nil => exact absurd rfl hne
    | cons c h =>
      have hc : '[' ≠ c := fun hc => hopen (hc ▸ rfl)
      simp [hc]

/-- The host of a line is empty exactly behind a pair of brackets with nothing in between. -/
theorem IsServer.eq_nil_iff {s host : List Char} {peer election : UInt16} {role : Role}
    (h : IsServer host peer election s role) : host = [] ↔ "[]".toList <+: s := by
  cases h with
  | voter hhost _ _ => exact hhost.eq_nil_iff _
  | withRole hhost _ _ _ => exact hhost.eq_nil_iff _

theorem IsServer.two_le_length {s host : List Char} {peer election : UInt16} {role : Role}
    (h : IsServer host peer election s role) : 2 ≤ s.length := by
  cases h <;> simp only [List.length_append, List.length_cons] <;> omega

/-- The part for the servers begins as the line does, so it shows there whether the host is
empty. -/
theorem IsLine.eq_nil_iff {line host : List Char} {peer election : UInt16} {role : Role}
    {address : Option (List Char)} (h : IsLine host peer election role line address) :
    host = [] ↔ IsHostless line := by
  cases h with
  | server _ hserver => exact hserver.eq_nil_iff
  | @client s c _ _ hserver _ =>
    have hprefix : trim s <+: trim (s ++ ';' :: c) := trim_prefix_append_cons (by decide)
    rw [hserver.eq_nil_iff]
    constructor
    · intro hstart
      exact hstart.trans hprefix
    · intro hstart
      exact List.prefix_of_prefix_length_le hstart hprefix hserver.two_le_length

namespace Member
variable {line : List Char} {m : Member}

theorem addressed_of_lined (h : Lined m) : m.Addressed := by
  refine ⟨h.id, h.peerPort, h.electionPort, partsInto_of_eq String.toList_ofList,
    partsInto_of_eq String.toList_ofList, ?_⟩
  -- an address for clients names a host even where its line names none
  intro a ha
  obtain ⟨host, port, haddress, hport, hbare⟩ := h.client a ha
  exact ⟨host, port, partsInto_of_eq haddress, hbare.ne_nil, hport⟩

theorem host_eq_empty_iff (h : OfLine line m) : m.host = "" ↔ IsHostless line := by
  rw [← h.line.eq_nil_iff, String.toList_eq_nil_iff]

/-- Nothing but an empty host keeps an addressed member from being usable. -/
theorem usable_iff_of_addressed (h : m.Addressed) : m.Usable ↔ ¬ m.host = "" := by
  constructor
  · intro husable
    exact husable.host
  · intro hhost
    exact ⟨h, hhost⟩

end Member

/-- Some entry of the text gives the server with this id no host. -/
def HostlessEntry (text : String) (id : UInt64) : Prop :=
  ∃ left right numeral, left ++ '=' :: right ∈ entries text ∧ '=' ∉ left ∧
    trim left = "server.".toList ++ numeral ∧ IsNumeral 10 numeral id.toNat ∧ IsHostless right

theorem Member.host_eq_empty_iff_of_trim {right : List Char} {m : Member}
    (h : OfLine (trim right) m) : m.host = "" ↔ IsHostless right := by
  rw [host_eq_empty_iff h, IsHostless, IsHostless, trim_trim]

/-- A line without a host is the one that says what the server is: no other is about its id. -/
theorem hostlessEntry_iff {text : String} {sts : List Statement} (hspells : Spells text sts)
    (hdistinct : (sts.map Statement.subject).Nodup) {id : UInt64} {m : Member}
    (hst : Statement.server id m ∈ sts) : HostlessEntry text id ↔ m.host = "" := by
  constructor
  · intro h
    obtain ⟨left, right, numeral, hentry, hsep, hkey, hid, hhost⟩ := h
    obtain ⟨st', hst', left', right', heq, hsep', hpair⟩ := hspells.exists_statement hentry
    obtain ⟨rfl, rfl⟩ := eq_of_append_cons hsep hsep' heq
    rw [Statement.ofPair_iff, hkey, Key.of_server] at hpair
    obtain ⟨id', m', hid', hvalue, rfl⟩ := hpair
    obtain rfl := hid.unique (by decide) hid'
    -- no two statements are about one server, so these two are the same
    have hsame : Statement.server id m' = .server id m :=
      List.inj_on_of_nodup_map hdistinct hst' hst rfl
    cases hsame
    obtain ⟨-, hline⟩ := Member.read_eq_ok_iff_ofLine.mp hvalue
    exact (Member.host_eq_empty_iff_of_trim hline).mpr hhost
  · intro h
    obtain ⟨_, hentry, left, right, rfl, hsep, hpair⟩ := hspells.exists_entry hst
    cases hpair with
    | server hkey hid hvalue =>
      obtain ⟨-, hline⟩ := Member.read_eq_ok_iff_ofLine.mp hvalue
      exact ⟨left, right, _, hentry, hsep, hkey, hid,
        (Member.host_eq_empty_iff_of_trim hline).mp h⟩

namespace Configuration

/-- Whoever gets into a configuration has ports and addresses that part into a host and a port. All
that a member can lack is a host, and it lacks it exactly if its line has nothing between the
brackets in front. -/
theorem accepted_members_usable_iff_not_hostless (id : UInt64) (spec text : String)
    (asked : Option Policy) :
    (∀ m, Member.parse id spec = .ok m →
      m.Addressed ∧ (m.Usable ↔ ¬ IsHostless spec.toList)) ∧
    ∀ c m, parse text asked = .ok c → c.members.find? id = some m →
      m.Addressed ∧ (m.Usable ↔ ¬ HostlessEntry text id) := by
  constructor
  · intro m h
    have hread := Member.parse_eq_ok_iff.mp h
    have haddressed := Member.addressed_of_lined (Member.lined_of_read hread)
    obtain ⟨-, hline⟩ := Member.read_eq_ok_iff_ofLine.mp hread
    refine ⟨haddressed, ?_⟩
    rw [Member.usable_iff_of_addressed haddressed, Member.host_eq_empty_iff hline]
  · intro c m h hm
    have haddressed := Member.addressed_of_lined (lined_of_parse h hm)
    -- the member has the host that its line gives it, whatever its weight is
    obtain ⟨sts, hspells, hconsistent, hdenotes⟩ := parse_eq_ok_iff_denotes.mp h
    obtain ⟨m₀, hst, rfl⟩ := (hdenotes.members id m).mp hm
    refine ⟨haddressed, ?_⟩
    rw [Member.usable_iff_of_addressed haddressed,
      hostlessEntry_iff hspells hconsistent.distinct hst]

/-- A colon in the host, an address for clients that names none, and no host at all, for a server
that has a weight. -/
theorem bracketed_is_usable_and_hostless_is_not :
    let spec := "[::1]:2888:3888;2181"
    let text := "server.1=[::1]:2888:3888;2181\nserver.2= []:1:2:observer\nweight.2=5"
    let first := Member.mk 1 "::1" 2888 3888 (some "0.0.0.0:2181") .participant 1
    let second := Member.mk 2 "" 1 2 none .observer 5
    (Member.parse 1 spec = .ok first ∧ first.Usable) ∧
    ∃ c, parse text = .ok c ∧ c.members.find? 1 = some first ∧ ¬ HostlessEntry text 1 ∧
      c.members.find? 2 = some second ∧ second.Addressed ∧ HostlessEntry text 2 := by
  intro spec text first second
  obtain ⟨hmember, hfound⟩ := accepted_members_usable_iff_not_hostless 1 spec text none
  obtain ⟨-, hfound'⟩ := accepted_members_usable_iff_not_hostless 2 spec text none
  have hspec : Member.parse 1 spec = .ok first := by decide +kernel
  have hfirst : first.Usable := by
    obtain ⟨-, husable⟩ := hmember first hspec
    exact husable.mpr (by decide +kernel)
  let c : Configuration :=
    { version := 0
      policy := .weighted
      membership :=
        { all := IdMap.ofList [(1, first), (2, second)]
          totalVotingWeight := 1
          total_eq := rfl } }
  have htext : parse text = .ok c := by decide +kernel
  have hfind : c.members.find? 1 = some first := by decide +kernel
  have hfind' : c.members.find? 2 = some second := by decide +kernel
  obtain ⟨-, husable⟩ := hfound c first htext hfind
  obtain ⟨haddressed, husable'⟩ := hfound' c second htext hfind'
  have hsecond : ¬ second.Usable := fun h => h.host rfl
  exact ⟨⟨hspec, hfirst⟩, c, htext, hfind, husable.mp hfirst, hfind', haddressed,
    not_not.mp (hsecond ∘ husable'.mpr)⟩

/-- An empty host is turned down where it stands bare, and gets through between brackets. -/
theorem hostless_member_gets_through :
    let m := Member.mk 1 "" 1 2 none .participant 1
    (Member.parse 1 "[]:1:2" = .ok m ∧ m.peerAddress = ":1" ∧ ¬ m.Usable) ∧
    Member.parse 1 ":1:2" = .error (.serverSpec 1 .emptyHost) ∧
    ∃ c, parse "server.1=[]:1:2" = .ok c ∧ c.members.find? 1 = some m := by
  intro m
  let c : Configuration :=
    { version := 0
      policy := .majority
      membership :=
        { all := IdMap.ofList [(1, m)]
          totalVotingWeight := 1
          total_eq := rfl } }
  have hspec : Member.parse 1 "[]:1:2" = .ok m := by decide +kernel
  have haddress : m.peerAddress = ":1" := by decide +kernel
  have hbare : Member.parse 1 ":1:2" = .error (.serverSpec 1 .emptyHost) := by decide +kernel
  have htext : parse "server.1=[]:1:2" = .ok c := by decide +kernel
  have hfind : c.members.find? 1 = some m := by decide +kernel
  exact ⟨⟨hspec, haddress, fun h => h.host rfl⟩, hbare, c, htext, hfind⟩

end Configuration

end Electorate
