import Electorate.Command
import Electorate.Proofs.Configuration.Acceptance
import Electorate.Proofs.Configuration.Faults
import Electorate.Proofs.Member.Acceptance

/-! The text of a starter file, line by line: what each line says as long as its ports last, and
what is wrong with the first one whose ports do not. -/
namespace Electorate
open scoped BigOperators

theorem toNat_ofNat_of_le {n : ℕ} (h : n ≤ 65535) : (UInt64.ofNat n).toNat = n :=
  UInt64.toNat_ofNat_of_lt' (h.trans_lt (by decide))

namespace Command

def starterRole (servers : UInt64) (i : ℕ) : Role :=
  if i ≤ servers.toNat then .participant else .observer

/-- The member that the line of the `i`th server describes. -/
def starterMember (servers : UInt64) (i : ℕ) : Member where
  id := UInt64.ofNat i
  host := "127.0.0.1"
  peerPort := UInt16.ofNat (7700 + i)
  electionPort := UInt16.ofNat (7800 + i)
  clientAddress := some (String.ofList (addressText anyHost (UInt16.ofNat (7600 + i))))
  role := starterRole servers i

/-- The part of the line for the servers. -/
def starterServer (servers : UInt64) (i : ℕ) : List Char :=
  "127.0.0.1".toList ++ ':' :: (decimal (7700 + i) ++ ':' :: (decimal (7800 + i) ++ ':' ::
    (starterRole servers i).name.toList))

section
variable (servers : UInt64) (i : ℕ)

theorem starterLine_eq : starterLine servers i =
    ("server.".toList ++ decimal i) ++
      '=' :: (starterServer servers i ++ ';' :: decimal (7600 + i)) := by
  have hhost (s : List Char) :
      "=127.0.0.1:".toList ++ s = '=' :: ("127.0.0.1".toList ++ ':' :: s) := rfl
  unfold starterLine starterServer starterRole
  simp only [hhost, List.append_assoc, List.cons_append]

theorem isBlank_of_mem_starterServer :
    ∀ c ∈ starterServer servers i, isBlank c = false := by
  have hhost : ∀ c ∈ "127.0.0.1".toList, isBlank c = false := by simp [isBlank, blanks]
  unfold starterServer
  simp only [List.forall_mem_append, List.forall_mem_cons]
  exact ⟨hhost, rfl, forall_mem_decimal isBlank_digitChar _, rfl,
    forall_mem_decimal isBlank_digitChar _, rfl, isBlank_of_mem_name _⟩

/-- No character of the line is a blank, a line feed among others. -/
theorem isBlank_of_mem_starterLine : ∀ c ∈ starterLine servers i, isBlank c = false := by
  have hkey : ∀ c ∈ "server.".toList, isBlank c = false := by simp [isBlank, blanks]
  rw [starterLine_eq]
  simp only [List.forall_mem_append, List.forall_mem_cons]
  exact ⟨⟨hkey, forall_mem_decimal isBlank_digitChar _⟩, rfl,
    isBlank_of_mem_starterServer servers i, rfl, forall_mem_decimal isBlank_digitChar _⟩

theorem not_mem_starterServer : ';' ∉ starterServer servers i := by
  have hrole : ';' ∉ (starterRole servers i).name.toList := by
    cases starterRole servers i <;> decide
  unfold starterServer
  simp [not_mem_decimal (c := ';') (by decide), hrole]

/-- Each line describes its member, as long as its ports are in range. -/
theorem ofLine_starterMember (hlow : 1 ≤ i) (hhigh : i ≤ 57735) :
    Member.OfLine (starterServer servers i ++ ';' :: decimal (7600 + i))
      (starterMember servers i) := by
  have hserver : IsServer "127.0.0.1".toList (UInt16.ofNat (7700 + i)) (UInt16.ofNat (7800 + i))
      (trim (starterServer servers i)) (starterRole servers i) := by
    have hhost : IsHost "127.0.0.1".toList "127.0.0.1".toList :=
      IsHost.bare (by decide) (by decide +kernel) (by decide)
    have hrole : IsRole (starterRole servers i).name.toList (starterRole servers i) :=
      isRole_iff.mpr (role_parse_name _)
    rw [trim_eq_self (isBlank_of_mem_starterServer servers i)]
    exact IsServer.withRole hhost (isPort_decimal (by omega) (by omega))
      (isPort_decimal (by omega) (by omega)) hrole
  have hclient : IsClient (trim (decimal (7600 + i)))
      (addressText anyHost (UInt16.ofNat (7600 + i))) := by
    rw [trim_eq_self (forall_mem_decimal isBlank_digitChar _)]
    exact IsClient.port (isPort_decimal (by omega) (by omega)) (isAddress_iff.mpr rfl)
  have hid : UInt64.ofNat i ≠ 0 := by
    intro h
    have hzero := congrArg UInt64.toNat h
    rw [toNat_ofNat_of_le (by omega)] at hzero
    exact absurd hzero (Nat.ne_of_gt hlow)
  refine ⟨?_, hid, rfl⟩
  have hshown : (starterMember servers i).clientAddress.map String.toList =
      some (addressText anyHost (UInt16.ofNat (7600 + i))) :=
    congrArg some String.toList_ofList
  rw [hshown]
  exact IsLine.client (not_mem_starterServer servers i) hserver hclient

theorem trim_starterLine : trim (starterLine servers i) = starterLine servers i :=
  trim_eq_self (isBlank_of_mem_starterLine servers i)

theorem isEntry_starterLine : IsEntry (starterLine servers i) := by
  have hhead : (starterLine servers i).head? = some 's' := rfl
  rw [IsEntry, trim_starterLine, hhead]
  refine ⟨?_, by decide⟩
  intro hnil
  rw [hnil] at hhead
  cases hhead

/-- The line parts at its first equals sign into a key and what is said of the server. -/
theorem starterLine_parts : ∃ left right, starterLine servers i = left ++ '=' :: right ∧
    '=' ∉ left ∧ trim left = "server.".toList ++ decimal i ∧
      trim right = starterServer servers i ++ ';' :: decimal (7600 + i) := by
  have hkey : '=' ∉ "server.".toList ++ decimal i := by
    simp [not_mem_decimal (c := '=') (by decide)]
  have hblank := isBlank_of_mem_starterLine servers i
  rw [starterLine_eq, List.forall_mem_append, List.forall_mem_cons] at hblank
  exact ⟨_, _, starterLine_eq servers i, hkey, trim_eq_self hblank.1, trim_eq_self hblank.2.2⟩

variable {servers i}

theorem ofEntry_starterLine (hlow : 1 ≤ i) (hhigh : i ≤ 57735) :
    Statement.OfEntry (starterLine servers i)
      (.server (UInt64.ofNat i) (starterMember servers i)) := by
  obtain ⟨left, right, hline, hsep, hleft, hright⟩ := starterLine_parts servers i
  have hid : IsNumeral 10 (decimal i) (UInt64.ofNat i).toNat := by
    have hnumeral := isNumeral_decimal (UInt64.ofNat i)
    rwa [toNat_ofNat_of_le (by omega)] at hnumeral ⊢
  have hvalue : Member.read (UInt64.ofNat i) (trim right) = .ok (starterMember servers i) := by
    rw [Member.read_eq_ok_iff_ofLine, hright]
    exact ⟨rfl, ofLine_starterMember servers i hlow hhigh⟩
  exact ⟨left, right, hline, hsep, Statement.OfPair.server hleft hid hvalue⟩

/-- The election port of the next server would be one too high, whatever its role. -/
theorem lineFault_starterLine (seen : List Subject) (n : ℕ) :
    LineFault seen n (starterLine servers 57736) (.serverSpec 57736 (.port "65536")) := by
  obtain ⟨left, right, hline, hsep, hleft, hright⟩ := starterLine_parts servers 57736
  have hid : IsNumeral 10 (decimal 57736) (UInt64.toNat 57736) := isNumeral_decimal 57736
  have hvalue : Member.read 57736 (trim right) = .error (.port "65536") := by
    rw [hright]
    unfold starterServer
    cases starterRole servers 57736 <;> decide +kernel
  refine ⟨isEntry_starterLine servers 57736, ?_⟩
  rw [trim_starterLine]
  exact EntryFault.pair hline hsep (PairFault.server hleft (ServerFault.spec hid hvalue))

end

/-- The comments at the top. -/
def starterHead : List (List Char) :=
  ["# WolfQuorum dynamic membership".toList,
   "# server.<id>=<host>:<peerPort>:<electionPort>[:role][;clientPort]".toList]

def starterLines (servers : UInt64) (n : ℕ) : List (List Char) :=
  (List.range' 1 n).map (starterLine servers)

def starterStatements (servers : UInt64) (n : ℕ) : List Statement :=
  (List.range' 1 n).map fun i => .server (UInt64.ofNat i) (starterMember servers i)

theorem linesOf_starterText (servers observers : UInt64) :
    linesOf (starterText servers observers) =
      starterHead ++ (starterLines servers (servers + observers).toNat ++
        ["version=1".toList, []]) := by
  have hfree : ∀ line ∈ starterHead ++ (starterLines servers (servers + observers).toNat ++
      ["version=1".toList]), '\n' ∉ line := by
    have hhead : ∀ line ∈ starterHead, '\n' ∉ line := by decide +kernel
    have hlast : '\n' ∉ "version=1".toList := by decide +kernel
    rw [List.forall_mem_append, List.forall_mem_append, List.forall_mem_singleton, starterLines,
      List.forall_mem_map]
    refine ⟨hhead, ?_, hlast⟩
    -- a line feed in one of the other lines would be a blank
    intro i _ hfeed
    have hblank := isBlank_of_mem_starterLine servers i _ hfeed
    cases hblank
  have htext : (starterText servers observers).toList =
      (starterHead ++ (starterLines servers (servers + observers).toNat ++
        ["version=1".toList])).flatMap (· ++ ['\n']) := by
    unfold starterText
    exact String.toList_ofList
  rw [linesOf, htext, splitOn_flatMap hfree, List.append_assoc, List.append_assoc]
  rfl

section
variable {servers : UInt64} {n : ℕ}

/-- More servers only add lines. -/
theorem starterLines_begin {k : ℕ} (hk : k < n) :
    starterLines servers k ++ [starterLine servers (k + 1)] <+: starterLines servers n := by
  have hfirst : List.range' 1 k ++ [k + 1] = List.range' 1 (k + 1) := by
    rw [List.range'_concat, Nat.one_mul, Nat.add_comm 1 k]
  have hrest : List.range' 1 (k + 1) ++ List.range' (1 + (k + 1)) (n - (k + 1)) =
      List.range' 1 n := by
    rw [List.range'_append_1]
    congr 1
    omega
  have hlines : starterLines servers k ++ [starterLine servers (k + 1)] =
      starterLines servers (k + 1) := by
    rw [starterLines, starterLines, ← hfirst, List.map_append]
    rfl
  rw [hlines, starterLines, starterLines, ← hrest, List.map_append]
  exact List.prefix_append _ _

theorem entriesOf_starterLines :
    entriesOf (starterHead ++ starterLines servers n) = starterLines servers n := by
  have hhead : entriesOf starterHead = [] := by decide +kernel
  rw [entriesOf_append, hhead, List.nil_append]
  apply entriesOf_eq_self
  · intro line hline
    obtain ⟨i, -, rfl⟩ := List.mem_map.mp hline
    exact trim_starterLine servers i
  · intro line hline
    obtain ⟨i, -, rfl⟩ := List.mem_map.mp hline
    exact isEntry_starterLine servers i

theorem mem_starterStatements {st : Statement} : st ∈ starterStatements servers n ↔
    ∃ i, (1 ≤ i ∧ i ≤ n) ∧ st = .server (UInt64.ofNat i) (starterMember servers i) := by
  rw [starterStatements, List.mem_map]
  apply exists_congr
  intro i
  rw [List.mem_range'_1, eq_comm]
  apply and_congr_left
  intro _
  omega

/-- As long as the ports last, every line is read as the member that it is meant for. -/
theorem accepted_starterLines (servers : UInt64) (hn : n ≤ 57735) :
    Accepted (starterHead ++ starterLines servers n) (starterStatements servers n) := by
  constructor
  · rw [entriesOf_starterLines, starterLines, starterStatements, List.forall₂_map_left_iff,
      List.forall₂_map_right_iff, List.forall₂_same]
    intro i hi
    rw [List.mem_range'_1] at hi
    exact ofEntry_starterLine (by omega) (by omega)
  · rw [starterStatements, List.map_map]
    apply List.Nodup.map_on ?_ List.nodup_range'
    intro i hi j hj hsame
    rw [List.mem_range'_1] at hi hj
    -- different numbers stay different as ids
    have hids : UInt64.ofNat i = UInt64.ofNat j := Subject.server.inj hsame
    have hvalues := congrArg UInt64.toNat hids
    rwa [toNat_ofNat_of_le (by omega), toNat_ofNat_of_le (by omega)] at hvalues

/-- Everything that the text says, if the ports last. -/
def starterSays (servers : UInt64) (n : ℕ) : List Statement :=
  starterStatements servers n ++ [.version 1]

/-- A starter text says who is a server, and the version. -/
theorem spells_starterText {observers : UInt64} (hn : (servers + observers).toNat ≤ 57735) :
    Spells (starterText servers observers) (starterSays servers (servers + observers).toNat) := by
  have hversion : Statement.OfEntry "version=1".toList (.version 1) :=
    (Draft.ofEntry_iff_addEntry_empty (n := 1)).mpr (by decide +kernel)
  have hlast : entriesOf ["version=1".toList, []] = ["version=1".toList] := by decide +kernel
  have hlines := (accepted_starterLines servers hn).1
  have hentries : entries (starterText servers observers) =
      entriesOf (starterHead ++ starterLines servers (servers + observers).toNat) ++
        ["version=1".toList] := by
    rw [← hlast, ← entriesOf_append, List.append_assoc, ← linesOf_starterText]
    rfl
  rw [Spells, hentries, starterSays]
  exact List.rel_append hlines (List.Forall₂.cons hversion List.Forall₂.nil)

theorem server_mem_starterSays (hn : n ≤ 57735) {id : UInt64} {m : Member} :
    Statement.server id m ∈ starterSays servers n ↔
      (1 ≤ id.toNat ∧ id.toNat ≤ n) ∧ m = starterMember servers id.toNat := by
  have hlast : Statement.server id m ∉ [Statement.version 1] := by simp
  rw [starterSays, List.mem_append, or_iff_left hlast, mem_starterStatements]
  constructor
  · intro h
    obtain ⟨i, hi, hst⟩ := h
    obtain ⟨rfl, rfl⟩ := Statement.server.inj hst
    have hid : (UInt64.ofNat i).toNat = i := toNat_ofNat_of_le (by omega)
    rw [hid]
    exact ⟨hi, rfl⟩
  · intro h
    obtain ⟨hi, rfl⟩ := h
    exact ⟨id.toNat, hi, by rw [UInt64.ofNat_toNat]⟩

theorem weight_not_mem_starterSays (id w : UInt64) :
    Statement.weight id w ∉ starterSays servers n := by
  rw [starterSays, List.mem_append, mem_starterStatements]
  simp

theorem weightOf_starterSays (id : UInt64) : weightOf (starterSays servers n) id = 1 := by
  have hnone : (starterSays servers n).filterMap (Statement.weightFor? id) = [] := by
    rw [List.filterMap_eq_nil_iff]
    intro st hst
    rw [Option.eq_none_iff_forall_ne_some]
    intro w hw
    rw [Statement.weightFor?_eq_some_iff.mp hw] at hst
    exact weight_not_mem_starterSays id w hst
  rw [weightOf, hnone]
  rfl

theorem versionOf_starterSays : versionOf (starterSays servers n) = 1 := by
  have hnone : (starterStatements servers n).filterMap Statement.version? = [] := by
    rw [List.filterMap_eq_nil_iff]
    intro st hst
    obtain ⟨i, -, rfl⟩ := mem_starterStatements.mp hst
    rfl
  rw [versionOf, starterSays, List.filterMap_append, hnone]
  rfl

theorem isParticipant_starterMember {i : ℕ} :
    (starterMember servers i).isParticipant = true ↔ i ≤ servers.toNat := by
  rw [Member.isParticipant, starterMember, starterRole]
  split_ifs with hi <;> simp [hi]

theorem nodup_starterSays (hn : n ≤ 57735) :
    ((starterSays servers n).map Statement.subject).Nodup := by
  rw [starterSays, List.map_append, List.nodup_append']
  refine ⟨(accepted_starterLines servers hn).2, List.nodup_singleton _, ?_⟩
  -- the version is no server
  intro s hs hversion
  obtain ⟨st, hst, rfl⟩ := List.mem_map.mp hs
  obtain ⟨i, -, rfl⟩ := mem_starterStatements.mp hst
  cases List.mem_singleton.mp hversion

/-- There are too few servers for their weights not to fit. -/
theorem weight_starterSays_lt (hn : n ≤ 57735) :
    ∑ id ∈ votersOf (starterSays servers n), (weightOf (starterSays servers n) id).toNat
      < 2 ^ 64 := by
  have hlength : (starterSays servers n).length = n + 1 := by
    simp [starterSays, starterStatements]
  have hcard : (votersOf (starterSays servers n)).card ≤ n + 1 := by
    rw [← hlength]
    exact (List.toFinset_card_le _).trans (List.length_filterMap_le _ _)
  have hone (id : UInt64) : (weightOf (starterSays servers n) id).toNat = 1 := by
    rw [weightOf_starterSays]
    rfl
  calc ∑ id ∈ votersOf (starterSays servers n), (weightOf (starterSays servers n) id).toNat
      = (votersOf (starterSays servers n)).card := by simp only [hone, Finset.card_eq_sum_ones]
    _ ≤ n + 1 := hcard
    _ < 2 ^ 64 := by omega

/-- The first server always votes. -/
theorem consistent_starterSays (hn : n ≤ 57735) (hservers : 1 ≤ servers.toNat) (hpos : 1 ≤ n) :
    Consistent (starterSays servers n) := by
  have hfirst : Statement.server 1 (starterMember servers 1) ∈ starterSays servers n :=
    (server_mem_starterSays hn).mpr ⟨⟨le_rfl, hpos⟩, rfl⟩
  have hvoter : 1 ∈ votersOf (starterSays servers n) :=
    mem_votersOf.mpr ⟨_, hfirst, isParticipant_starterMember.mpr hservers⟩
  refine ⟨nodup_starterSays hn, ?_, weight_starterSays_lt hn, ⟨1, hvoter⟩⟩
  intro id w hw
  exact absurd hw (weight_not_mem_starterSays id w)

end

end Command

end Electorate
