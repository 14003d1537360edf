import Electorate.Proofs.Command.StarterText
import Electorate.Proofs.Configuration.Rejection
import Electorate.Proofs.Files.Tree
import Electorate.Proofs.Script

/-! Which starter files are written, and what is read from them again. -/
namespace Electorate.Command

/-- A majority of servers on one machine, the voters before the observers. -/
structure IsStarter (voters observers : ℕ) (c : Configuration) : Prop where
  policy : c.policy = .majority
  version : c.version = 1
  voting : ∀ id, c.voting.contains id = true ↔ 1 ≤ id.toNat ∧ id.toNat ≤ voters
  observing : ∀ id, c.observing.contains id = true ↔
    voters < id.toNat ∧ id.toNat ≤ voters + observers
  members : ∀ id m, c.members.find? id = some m →
    m.id = id ∧ m.host = "127.0.0.1" ∧ m.peerPort.toNat = 7700 + id.toNat ∧
      m.electionPort.toNat = 7800 + id.toNat ∧
      m.clientAddress = some ("0.0.0.0:" ++ toString (7600 + id.toNat))

section
variable {servers : UInt64} {n : ℕ} {c : Configuration} (hn : n ≤ 57735)
  (hdenotes : Denotes (starterSays servers n) none c)
include hn hdenotes

theorem find?_members_starter {id : UInt64} {m : Member} : c.members.find? id = some m ↔
    (1 ≤ id.toNat ∧ id.toNat ≤ n) ∧ m = starterMember servers id.toNat := by
  rw [hdenotes.members]
  simp only [server_mem_starterSays hn, weightOf_starterSays]
  constructor
  · intro h
    obtain ⟨_, ⟨hid, rfl⟩, rfl⟩ := h
    exact ⟨hid, rfl⟩
  · intro h
    obtain ⟨hid, rfl⟩ := h
    exact ⟨_, ⟨hid, rfl⟩, rfl⟩

theorem contains_filter_starter (p : Member → Bool) (id : UInt64) :
    (c.members.filter p).contains id = true ↔
      (1 ≤ id.toNat ∧ id.toNat ≤ n) ∧ p (starterMember servers id.toNat) = true := by
  rw [IdMap.contains, Option.isSome_iff_exists]
  simp only [IdMap.find?_filter_eq_some_iff, find?_members_starter hn hdenotes]
  constructor
  · intro h
    obtain ⟨_, ⟨hid, rfl⟩, hp⟩ := h
    exact ⟨hid, hp⟩
  · intro h
    obtain ⟨hid, hp⟩ := h
    exact ⟨_, ⟨hid, rfl⟩, hp⟩

/-- What the text says is a starter configuration. -/
theorem isStarter_of_denotes {observers : ℕ} (htotal : n = servers.toNat + observers) :
    IsStarter servers.toNat observers c := by
  refine ⟨?_, ?_, ?_, ?_, ?_⟩
  · have hnone : (starterSays servers n).any Statement.isWeight = false := by
      rw [List.any_eq_false]
      intro st hst hweight
      obtain ⟨id, w, rfl⟩ := Statement.isWeight_iff.mp hweight
      exact weight_not_mem_starterSays id w hst
    rw [hdenotes.policy, hnone]
    rfl
  · rw [hdenotes.version, versionOf_starterSays]
  · intro id
    have hvotes := contains_filter_starter hn hdenotes Member.isParticipant id
    rw [isParticipant_starterMember] at hvotes
    apply hvotes.trans
    omega
  · intro id
    have hobserves := contains_filter_starter hn hdenotes (fun m => !m.isParticipant) id
    simp only [Bool.not_eq_true', Bool.eq_false_iff, ne_eq, isParticipant_starterMember]
      at hobserves
    apply hobserves.trans
    omega
  · intro id m hm
    obtain ⟨⟨hlow, hhigh⟩, rfl⟩ := (find?_members_starter hn hdenotes).mp hm
    -- all three ports are in range, so none of them wraps around
    have hport {k : ℕ} (hk : k ≤ 7800) : (UInt16.ofNat (k + id.toNat)).toNat = k + id.toNat :=
      (port_of_range (by omega) (by omega)).1
    have haddress : String.ofList (addressText anyHost (UInt16.ofNat (7600 + id.toNat))) =
        "0.0.0.0:" ++ toString (7600 + id.toNat) := by
      have hnumeral (k : ℕ) : (toString k).toList = decimal k := String.toList_ofList
      rw [← String.toList_inj, String.toList_ofList, String.toList_append, addressText,
        hport (by decide), hnumeral]
      rfl
    exact ⟨UInt64.ofNat_toNat, rfl, hport (by decide), hport (by decide),
      congrArg some haddress⟩

end

section
variable {servers observers : UInt64}

/-- A starter text is read as what was asked for, as long as the ports last. -/
theorem exists_parse_starterText
    (htotal : (servers + observers).toNat = servers.toNat + observers.toNat)
    (hservers : 1 ≤ servers.toNat) (hports : servers.toNat + observers.toNat ≤ 57735) :
    ∃ c, Configuration.parse (starterText servers observers) = .ok c ∧
      IsStarter servers.toNat observers.toNat c := by
  have hn : (servers + observers).toNat ≤ 57735 := by omega
  have hspells := spells_starterText hn
  have hconsistent := consistent_starterSays hn hservers (by omega)
  obtain ⟨c, hdenotes⟩ := Configuration.exists_denotes hconsistent hspells.weight_eq_one none
  exact ⟨c, Configuration.parse_eq_ok_iff_denotes.mpr ⟨_, hspells, hconsistent, hdenotes⟩,
    isStarter_of_denotes hn hdenotes htotal⟩

/-- All lines before the first one without a port are accepted, and none after it is looked at. -/
theorem parse_starterText_of_lt (h : 57735 < (servers + observers).toNat) :
    Configuration.parse (starterText servers observers) =
      .error (.serverSpec 57736 (.port "65536")) := by
  have hbefore := accepted_starterLines servers (Nat.le_refl 57735)
  have hbegins : (starterHead ++ starterLines servers 57735) ++ [starterLine servers 57736] <+:
      linesOf (starterText servers observers) := by
    rw [linesOf_starterText, List.append_assoc, List.prefix_append_right_inj]
    exact (starterLines_begin h).trans (List.prefix_append _ _)
  exact Configuration.parse_eq_error_iff.mpr
    (Or.inl (FirstFault.of_begins hbefore (lineFault_starterLine _ _) hbegins))

variable {d d' : Disk} {output : String}

/-- A text that cannot be read again is not written. -/
theorem on_runInit_of_error {e : Error} (hservers : servers ≠ 0)
    (h : Configuration.parse (starterText servers observers) = .error e) :
    (runInit output servers observers).on d = ⟨.error e, d, []⟩ := by
  have hcheck : (Action.ofExcept (Configuration.parse (starterText servers observers))).on d =
      ⟨.error e, d, []⟩ := by
    rw [Action.on_ofExcept, h]
  unfold runInit
  rw [if_neg hservers]
  exact Action.on_bind_of_error hcheck _

/-- A text that can be read again is written and announced. -/
theorem on_runInit_of_ok {c : Configuration} (hservers : servers ≠ 0)
    (h : Configuration.parse (starterText servers observers) = .ok c)
    (hwrite : d.write output (starterText servers observers) = .ok d') :
    (runInit output servers observers).on d =
      ⟨.ok (), d', ["Membership file created: " ++ output,
        "Check it with: wolfquorum validate " ++ output]⟩ := by
  have hcheck : (Action.ofExcept (Configuration.parse (starterText servers observers))).on d =
      ⟨.ok c, d, []⟩ := by
    rw [Action.on_ofExcept, h]
  unfold runInit
  rw [if_neg hservers]
  simp only
  rw [Action.on_bind_of_quiet hcheck, Action.on_bind_of_ok (Action.on_writeFile_of_ok hwrite),
    on_printLines]
  rfl

end

/-- A starter file is written exactly if somebody votes and the ports last for all servers. It is
then read back as what was asked for. Otherwise no file is touched. -/
theorem init_writes_what_it_reads_back (d : Disk) (output : String)
    (servers observers : UInt64)
    (hfits : servers.toNat + observers.toNat + 7800 < UInt64.size)
    (haccepts : ∀ text, ∃ d', d.write output text = .ok d') :
    let o := (runInit output servers observers).on d
    (o.value = .ok () ↔ 1 ≤ servers.toNat ∧ servers.toNat + observers.toNat ≤ 57735) ∧
    (o.value = .ok () → ∃ text c, d.write output text = .ok o.files ∧
      o.files.read output = .ok text ∧ Configuration.parse text = .ok c ∧
        IsStarter servers.toNat observers.toNat c) ∧
    (servers = 0 → o = ⟨.error (.config .noServersAsked), d, []⟩) ∧
    (servers ≠ 0 → 57735 < servers.toNat + observers.toNat →
      o = ⟨.error (.serverSpec 57736 (.port "65536")), d, []⟩) := by
  intro o
  -- the counts are small enough for their sum not to wrap around
  have htotal : (servers + observers).toNat = servers.toNat + observers.toNat := by
    rw [UInt64.toNat_add]
    exact Nat.mod_eq_of_lt (by change _ < UInt64.size; omega)
  have hnone : servers = 0 → o = ⟨.error (.config .noServersAsked), d, []⟩ := by
    rintro rfl
    rfl
  have hports : servers ≠ 0 → 57735 < servers.toNat + observers.toNat →
      o = ⟨.error (.serverSpec 57736 (.port "65536")), d, []⟩ := by
    intro hservers hmany
    exact on_runInit_of_error hservers (parse_starterText_of_lt (htotal ▸ hmany))
  have hwritten : 1 ≤ servers.toNat ∧ servers.toNat + observers.toNat ≤ 57735 →
      ∃ c, d.write output (starterText servers observers) = .ok o.files ∧ o.value = .ok () ∧
        Configuration.parse (starterText servers observers) = .ok c ∧
          IsStarter servers.toNat observers.toNat c := by
    intro hcounts
    obtain ⟨c, hparse, hstarter⟩ := exists_parse_starterText htotal hcounts.1 hcounts.2
    obtain ⟨d', hwrite⟩ := haccepts (starterText servers observers)
    have hservers : servers ≠ 0 := by
      rintro rfl
      exact absurd hcounts.1 (by decide)
    have ho : o = _ := on_runInit_of_ok hservers hparse hwrite
    rw [ho]
    exact ⟨c, hwrite, rfl, hparse, hstarter⟩
  have hsucceeds : o.value = .ok () ↔
      1 ≤ servers.toNat ∧ servers.toNat + observers.toNat ≤ 57735 := by
    constructor
    · intro hok
      by_contra hcounts
      -- without voters and with too many servers alike the run ends in an error
      by_cases hservers : servers = 0
      · rw [hnone hservers] at hok
        cases hok
      · have hpos : servers.toNat ≠ 0 := fun h => hservers (UInt64.toNat_inj.mp h)
        rw [hports hservers (by omega)] at hok
        cases hok
    · intro hcounts
      obtain ⟨c, -, hok, -⟩ := hwritten hcounts
      exact hok
  refine ⟨hsucceeds, ?_, hnone, hports⟩
  intro hok
  obtain ⟨c, hwrite, -, hparse, hstarter⟩ := hwritten (hsucceeds.mp hok)
  exact ⟨_, c, hwrite, Disk.read_of_write hwrite, hparse, hstarter⟩

/-- A disk without a file. The work goes on deep in it, and another directory is empty. -/
def bareDisk : Disk where
  files := []
  directories := [["etc", "quorum"]]
  here := ["srv", "node"]

/-- The most servers that have ports, one more, and none that votes, for a file in the working
directory, for one above it and for one that the path names from the root. -/
theorem init_ends_with_the_ports :
    let outputs := ["members.cfg", "../members.cfg", "/etc/quorum/members.cfg"]
    (UInt64.toNat 3 + UInt64.toNat 57733 + 7800 < UInt64.size ∧
      ∀ output ∈ outputs, ∀ text, ∃ d, bareDisk.write output text = .ok d) ∧
    ∀ output ∈ outputs,
      (∃ d lines text c, (runInit output 3 57732).on bareDisk = ⟨.ok (), d, lines⟩ ∧
        d.read output = .ok text ∧ Configuration.parse text = .ok c ∧ IsStarter 3 57732 c) ∧
      (runInit output 3 57733).on bareDisk =
        ⟨.error (.serverSpec 57736 (.port "65536")), bareDisk, []⟩ ∧
      (runInit output 0 3).on bareDisk =
        ⟨.error (.config .noServersAsked), bareDisk, []⟩ := by
  intro outputs
  have haccepts : ∀ output ∈ outputs, ∀ text, ∃ d, bareDisk.write output text = .ok d := by
    intro output houtput
    apply Disk.accepts_iff.mpr
    simp only [outputs, List.mem_cons, List.not_mem_nil, or_false] at houtput
    rcases houtput with rfl | rfl | rfl
    · exact ⟨["srv", "node", "members.cfg"], by decide +kernel⟩
    · exact ⟨["srv", "members.cfg"], by decide +kernel⟩
    · exact ⟨["etc", "quorum", "members.cfg"], by decide +kernel⟩
  refine ⟨⟨by decide, haccepts⟩, ?_⟩
  intro output houtput
  have hsmall := init_writes_what_it_reads_back bareDisk output 3 57732 (by decide)
    (haccepts output houtput)
  have hlarge := init_writes_what_it_reads_back bareDisk output 3 57733 (by decide)
    (haccepts output houtput)
  have hnone := init_writes_what_it_reads_back bareDisk output 0 3 (by decide)
    (haccepts output houtput)
  -- nothing is to be computed of what the three runs come to
  generalize (runInit output 3 57732).on bareDisk = small at hsmall ⊢
  generalize (runInit output 3 57733).on bareDisk = large at hlarge ⊢
  generalize (runInit output 0 3).on bareDisk = none at hnone ⊢
  obtain ⟨⟨-, hsucceeds⟩, hread, -, -⟩ := hsmall
  obtain ⟨-, -, -, hports⟩ := hlarge
  obtain ⟨-, -, hzero, -⟩ := hnone
  have hok : small.value = .ok () := hsucceeds ⟨by decide, by decide⟩
  obtain ⟨text, c, -, htext, hparse, hstarter⟩ := hread hok
  obtain ⟨value, d, lines⟩ := small
  exact ⟨⟨d, lines, text, c, by rw [← hok], htext, hparse, hstarter⟩,
    hports (by decide) (by decide), hzero rfl⟩

end Electorate.Command
