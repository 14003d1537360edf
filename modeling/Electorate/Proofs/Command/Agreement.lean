import Electorate.Command
import Electorate.Proofs.Handover.Polling
import Electorate.Proofs.Script

/-! Counting acknowledgments for two configurations and playing the handover from one to the other
come to the same. -/
namespace Electorate

namespace Node

theorem quiet_loadMembership? (n : Node) : n.loadMembership?.Quiet := by
  rw [loadMembership?]
  cases n.dynamicConfig with
  | none => exact Action.quiet_pure none
  | some path =>
    refine (Action.quiet_readFile path).bind fun text => ?_
    refine (Action.quiet_ofExcept (Configuration.parse text n.policy)).bind fun c => ?_
    exact Action.quiet_pure (some c)

end Node

/-- Loading a membership changes no file and prints nothing. -/
theorem quiet_loadMembership (file : Option String) (node : Option Node) :
    (loadMembership file node).Quiet := by
  cases file with
  | some path =>
    refine (Action.quiet_readFile path).bind fun text => ?_
    exact Action.quiet_ofExcept (Configuration.parse text (node.bind Node.policy))
  | none =>
    cases node with
    | none => exact Action.quiet_ofExcept (.error (.config .noMembershipGiven))
    | some n =>
      refine n.quiet_loadMembership?.bind fun found => ?_
      cases found with
      | none => exact Action.quiet_ofExcept (.error (.config .noMembershipAnywhere))
      | some c => exact Action.quiet_pure c

namespace Command

/-- What a membership file gives, or the error that it does not load with. -/
def loaded (d : Disk) (file : Option String) (node : Option Node) :
    Except Error Configuration := ((loadMembership file node).on d).value

theorem on_loadMembership {d : Disk} {file : Option String} {node : Option Node}
    {v : Except Error Configuration} (h : loaded d file node = v) :
    (loadMembership file node).on d = ⟨v, d, []⟩ := by
  obtain ⟨v', hv'⟩ := quiet_loadMembership file node d
  rw [← h, loaded, hv']

/-- A configuration with the acknowledgments that count for it. -/
def counted (acks : List UInt64) (c : Configuration) : Entry := (Entry.start c).ackAll acks

theorem config_counted (acks : List UInt64) (c : Configuration) :
    (counted acks c).config = c := Entry.config_ackAll (Entry.start c) acks

/-- The version has no part in who votes. -/
theorem acks_counted_stamp (acks : List UInt64) (c : Configuration) (version : UInt64) :
    (counted acks (c.stamp version)).acks = (counted acks c).acks := by
  apply IdMap.eq_of_support
  ext id
  rw [counted, counted, Entry.mem_support_ackAll, Entry.mem_support_ackAll]
  exact Iff.rfl

/-- Replaying gives every configuration a slot, with those of the acknowledgments that count for it.
-/
theorem slots_replay (cs : List Configuration) (acks : List UInt64) :
    (replay cs acks).slots = cs.map fun c => some (counted acks c) := by
  have hregistered (t : Tracker) :
      (t.registerAll cs).slots = t.slots ++ cs.map fun c => some (Entry.start c) := by
    induction cs generalizing t with
    | nil => exact (List.append_nil t.slots).symm
    | cons c cs ih =>
      have hrest := ih (t.register c).1
      rw [List.map_cons, List.append_cons]
      exact hrest
  rw [replay, Tracker.slots_recordAll, hregistered, Tracker.empty, List.nil_append, List.map_map]
  rfl

/-- The line that is shown for a configuration. -/
def slotText (e : Entry) (reached : Bool) : String :=
  versionTag e.config.version ++ " (" ++ e.config.policy.name ++ "): " ++ toString e.acks.size ++
    " of " ++ toString e.config.voting.size ++ " voters acked, quorum " ++
    if reached then "reached" else "not reached"

def setsText (old new : Entry) : String := idsText old.acks ++ "," ++ idsText new.acks

/-- What is shown of a committed configuration and a proposed one. -/
def reportLines (old new : Entry) (oldReached newReached all : Bool) : List String :=
  [slotText old oldReached, slotText new newReached,
   "Phase:       DUAL",
   "Ack sets:    " ++ setsText old new,
   "All quorums: " ++ if all then "yes" else "no"]

theorem slotText_inj {e : Entry} {b b' : Bool} (h : slotText e b = slotText e b') : b = b' := by
  -- the two endings are of different length
  have hlength := congrArg String.length h
  simp only [slotText, String.length_append, Nat.add_left_cancel_iff] at hlength
  cases b <;> cases b' <;> first | rfl | exact absurd hlength (by decide)

/-- The lines tell which quorums are reached. -/
theorem reportLines_inj {old new : Entry} {a b d a' b' d' : Bool} :
    reportLines old new a b d = reportLines old new a' b' d' ↔ a = a' ∧ b = b' ∧ d = d' := by
  constructor
  · intro h
    simp only [reportLines, List.cons.injEq, and_true, true_and] at h
    obtain ⟨hold, hnew, hall⟩ := h
    refine ⟨slotText_inj hold, slotText_inj hnew, ?_⟩
    have hlength := congrArg String.length hall
    simp only [String.length_append, Nat.add_left_cancel_iff] at hlength
    cases d <;> cases d' <;> first | rfl | exact absurd hlength (by decide)
  · intro h
    obtain ⟨rfl, rfl, rfl⟩ := h
    rfl

theorem checkLines_replay (c p : Configuration) (acks : List UInt64) :
    let old := counted acks c
    let new := counted acks p
    checkLines (replay [c, p] acks) =
      reportLines old new old.hasQuorum new.hasQuorum (old.hasQuorum && new.hasQuorum) := by
  intro old new
  have hslots : replay [c, p] acks = ⟨[some old, some new]⟩ :=
    congrArg Tracker.mk (slots_replay [c, p] acks)
  have hall : (Tracker.mk [some old, some new]).hasAllQuorums =
      (old.hasQuorum && new.hasQuorum) := by
    simp [Tracker.hasAllQuorums, Tracker.active]
  rw [hslots, checkLines, hall]
  rfl

section
variable {c p admitted : Configuration} {enabled : Bool} {base : Option UInt64} {version : UInt64}

theorem propose_of_ok (h : ((Handover.start c enabled).propose base p version).2 = .ok admitted) :
    (Handover.start c enabled).propose base p version =
      (⟨c, enabled, some (Handover.watched c (p.stamp version) [])⟩, .ok (p.stamp version)) := by
  rw [Handover.propose] at h ⊢
  cases hr : (Handover.start c enabled).refusal? base p version with
  | some r =>
    rw [hr] at h
    cases h
  | none => rfl

/-- The handover sees the same acknowledgments, under the version that it gives the proposal. -/
theorem reconfigLines_of_admitted
    (h : ((Handover.start c enabled).propose base p version).2 = .ok admitted)
    (acks : List UInt64) :
    let old := counted acks c
    let new := counted acks p
    reconfigLines c p enabled base version acks =
      if !new.hasQuorum then
        .error (.refused (Refusal.mk .newConfigNoQuorum (some (versionTag version)) none))
      else if !old.hasQuorum then
        .ok ["… Proposal has quorum, committed config does not yet (" ++ setsText old new ++ ")"]
      else .ok ["✓ Committed " ++ versionTag version, (p.stamp version).text] := by
  intro old new
  -- nothing is heard before the proposal is admitted, and all of the list after it
  let h' : Handover := ⟨c, enabled, some (Handover.watched c (p.stamp version) acks)⟩
  have hheard : Handover.recordAll
      ⟨c, enabled, some (Handover.watched c (p.stamp version) [])⟩ acks = h' := by
    rw [Handover.recordAll_eq, Option.map_some, Handover.hear_watched]
    rfl
  have hw : h'.Watches (Handover.watched c (p.stamp version) acks) old.acks new.acks := by
    have hwatches := Handover.watches_watched h' (p.stamp version) acks
    rw [← counted, ← counted, acks_counted_stamp] at hwatches
    exact hwatches
  -- the version that the proposal is given has no part in its quorum
  have hold : Entry.hasQuorum ⟨c, old.acks⟩ = old.hasQuorum :=
    congrArg Entry.hasQuorum (Handover.entry_ackAll_start c acks).symm
  have hnew : Entry.hasQuorum ⟨p.stamp version, new.acks⟩ = new.hasQuorum := by
    rw [Entry.hasQuorum, Entry.hasQuorum, config_counted]
    rfl
  have htry : h'.tryCommit.2 =
      if !new.hasQuorum then
        .error (.refused (Refusal.mk .newConfigNoQuorum (some (versionTag version)) none))
      else if !old.hasQuorum then .ok none else .ok (some (p.stamp version)) := by
    rw [← hold, ← hnew]
    exact hw.tryCommit_eq rfl
  have hsummary : h'.ackSummary? = some (setsText old new) := hw.ackSummary?_eq rfl
  rw [reconfigLines, propose_of_ok h]
  simp only [hheard, htry, hsummary]
  cases new.hasQuorum <;> cases old.hasQuorum <;> rfl

end

section
variable {d : Disk} {node : Option Node} {committed : Option String} {proposed : String}
variable {c p : Configuration} {e : Error}

/-- The check prints its report of the two files and leaves the disk alone. -/
theorem on_check_of_loaded (hc : loaded d committed node = .ok c)
    (hp : loaded d (some proposed) node = .ok p) (acks : List UInt64) :
    (run node (.check committed [proposed] acks)).on d =
      ⟨.ok (), d, checkLines (replay [c, p] acks)⟩ := by
  have hfirst := on_loadMembership hc
  have hsecond := on_loadMembership hp
  have hnext : ([proposed].mapM fun path => loadMembership (some path) node).on d =
      ⟨.ok [p], d, []⟩ := Action.on_bind_of_quiet hsecond _
  rw [run, Action.on_bind_of_quiet hfirst, Action.on_bind_of_quiet hnext, on_printLines]

/-- The handover between the two files is played from the start, and ends in its lines or in its
error. -/
theorem on_reconfig_of_loaded (hc : loaded d committed node = .ok c)
    (hp : loaded d (some proposed) node = .ok p)
    (henabled : ∀ n, node = some n → n.reconfigEnabled = true) (base : Option UInt64)
    (version : UInt64) (acks : List UInt64) :
    (run node (.reconfig proposed committed base version acks)).on d =
      match reconfigLines c p true base version acks with
      | .ok lines => ⟨.ok (), d, lines⟩
      | .error e => ⟨.error e, d, []⟩ := by
  have hfirst := on_loadMembership hc
  have hsecond := on_loadMembership hp
  have hrest : (run node (.reconfig proposed committed base version acks)).on d =
      (Action.ofExcept (reconfigLines c p true base version acks) >>= printLines).on d := by
    unfold run
    rw [Action.on_bind_of_quiet hfirst, Action.on_bind_of_quiet hsecond]
    -- without a node the handover is taken to be enabled
    cases node with
    | none => rfl
    | some n => simp only [henabled n rfl]
  rw [hrest]
  cases reconfigLines c p true base version acks with
  | error e => exact Action.on_bind_of_error (Action.on_ofExcept (.error e) d) printLines
  | ok lines => rw [Action.on_bind_of_quiet (Action.on_ofExcept (.ok lines) d), on_printLines]

/-- Where the files do not load, both commands end in the error of the first that does not. -/
theorem on_check_and_reconfig_of_unloaded (h : loaded d committed node = .error e ∨
      (∃ c, loaded d committed node = .ok c) ∧ loaded d (some proposed) node = .error e)
    (base : Option UInt64) (version : UInt64) (acks : List UInt64) :
    (run node (.check committed [proposed] acks)).on d = ⟨.error e, d, []⟩ ∧
      (run node (.reconfig proposed committed base version acks)).on d = ⟨.error e, d, []⟩ := by
  rcases h with hc | ⟨⟨c, hc⟩, hp⟩
  · have hfirst := on_loadMembership hc
    exact ⟨Action.on_bind_of_error hfirst _, Action.on_bind_of_error hfirst _⟩
  · have hfirst := on_loadMembership hc
    have hsecond := on_loadMembership hp
    have hnext : ([proposed].mapM fun path => loadMembership (some path) node).on d =
        ⟨.error e, d, []⟩ := Action.on_bind_of_error hsecond _
    constructor
    · rw [run, Action.on_bind_of_quiet hfirst]
      exact Action.on_bind_of_error hnext _
    · unfold run
      rw [Action.on_bind_of_quiet hfirst]
      exact Action.on_bind_of_error hsecond _

end

/-- A command ends in an error that goes by a number, with nothing printed and nothing written. -/
def FailsWith (o : Script.Outcome (Except Error Unit)) (d : Disk) (number : Int) : Prop :=
  ∃ e code, o = ⟨.error e, d, []⟩ ∧ Error.code? e = some code ∧ code.number = number

/-- Wherever the proposal would be admitted, the handover commits where all quorums are reported,
waits on the same sets where only the proposal has one, and fails where the proposal has none.
Files that do not load end both commands in the same error. -/
theorem check_agrees_with_reconfig (d : Disk) (node : Option Node)
    (henabled : ∀ n, node = some n → n.reconfigEnabled = true) (committed : Option String)
    (proposed : String) (base : Option UInt64) (version : UInt64) (acks : List UInt64) :
    let check := (run node (.check committed [proposed] acks)).on d
    let reconfig := (run node (.reconfig proposed committed base version acks)).on d
    (∀ e, (loaded d committed node = .error e ∨
        (∃ c, loaded d committed node = .ok c) ∧ loaded d (some proposed) node = .error e) →
      check = ⟨.error e, d, []⟩ ∧ reconfig = ⟨.error e, d, []⟩) ∧
    ∀ c p admitted, loaded d committed node = .ok c → loaded d (some proposed) node = .ok p →
      ((Handover.start c true).propose base p version).2 = .ok admitted →
      let report := reportLines (counted acks c) (counted acks p)
      (∃ old new all, check = ⟨.ok (), d, report old new all⟩) ∧
      (reconfig = ⟨.ok (), d, ["✓ Committed " ++ versionTag version, (p.stamp version).text]⟩ ↔
        ∃ old new, check.printed = report old new true) ∧
      (reconfig = ⟨.ok (), d, ["… Proposal has quorum, committed config does not yet (" ++
          setsText (counted acks c) (counted acks p) ++ ")"]⟩ ↔
        ∃ all, check.printed = report false true all) ∧
      (FailsWith reconfig d (-13) ↔ ∃ old all, check.printed = report old false all) := by
  intro check reconfig
  refine ⟨fun e he => on_check_and_reconfig_of_unloaded he base version acks, ?_⟩
  intro c p admitted hc hp hadmitted report
  have hcheck := on_check_of_loaded hc hp acks
  have hreconfig := on_reconfig_of_loaded hc hp henabled base version acks
  rw [checkLines_replay] at hcheck
  rw [reconfigLines_of_admitted hadmitted] at hreconfig
  generalize (counted acks c).hasQuorum = old at hcheck hreconfig
  generalize (counted acks p).hasQuorum = new at hcheck hreconfig
  have hshown (a b whole : Bool) : check.printed = report a b whole ↔
      old = a ∧ new = b ∧ (old && new) = whole := by
    rw [← reportLines_inj]
    exact iff_of_eq (congrArg (fun o => Script.Outcome.printed o = report a b whole) hcheck)
  have hnumber : Code.number .newConfigNoQuorum = -13 := rfl
  -- which of the two quorums are reached decides what either command does
  refine ⟨⟨_, _, _, hcheck⟩, ?_, ?_, ?_⟩
  · simp only [hshown]
    cases old <;> cases new <;> simp [reconfig, hreconfig]
  · simp only [hshown]
    cases old <;> cases new <;> simp [reconfig, hreconfig]
  · simp only [hshown]
    cases old <;> cases new <;> simp [FailsWith, reconfig, hreconfig, Error.code?, hnumber]

/-- The trio and the quartet as files of one directory. -/
def twoFiles : FileTree where
  files :=
    [(["trio.cfg"], ("server.1=node:2888:3888\nserver.2=node:2888:3888\n" ++
        "server.3=node:2888:3888\nweight.1=2\nversion=1").toUTF8),
     (["quartet.cfg"], ("server.4=node:2888:3888\nserver.3=node:2888:3888\n" ++
        "server.2=node:2888:3888\nserver.1=node:2888:3888").toUTF8)]

/-- A handover that commits, and a proposal that is not on the disk. -/
theorem trio_is_checked_as_it_hands_over :
    let first := Configuration.mk 1 .weighted .trio
    let next := Configuration.mk 0 .majority .quartet
    let acks := [1, 2, 9, 2, 4]
    let missing := Error.file "No such file or directory"
    (loaded twoFiles (some "trio.cfg") none = .ok first ∧
      loaded twoFiles (some "quartet.cfg") none = .ok next ∧
      loaded twoFiles (some "quintet.cfg") none = .error missing) ∧
    (run none (.check (some "trio.cfg") ["quintet.cfg"] acks)).on twoFiles =
      ⟨.error missing, twoFiles, []⟩ ∧
    (run none (.reconfig "quartet.cfg" (some "trio.cfg") (some 1) 2 acks)).on twoFiles =
      ⟨.ok (), twoFiles, ["✓ Committed v2", (next.stamp 2).text]⟩ := by
  intro first next acks missing
  have hfirst : loaded twoFiles (some "trio.cfg") none = .ok first := by decide +kernel
  have hnext : loaded twoFiles (some "quartet.cfg") none = .ok next := by decide +kernel
  have hmissing : loaded twoFiles (some "quintet.cfg") none = .error missing := by decide +kernel
  have hadmitted :
      ((Handover.start first true).propose (some 1) next 2).2 = .ok (next.stamp 2) := by
    decide +kernel
  obtain ⟨hfails, -⟩ := check_agrees_with_reconfig twoFiles none nofun (some "trio.cfg")
    "quintet.cfg" (some 1) 2 acks
  obtain ⟨-, hagree⟩ := check_agrees_with_reconfig twoFiles none nofun (some "trio.cfg")
    "quartet.cfg" (some 1) 2 acks
  obtain ⟨-, hcommit, -⟩ := hagree first next (next.stamp 2) hfirst hnext hadmitted
  refine ⟨⟨hfirst, hnext, hmissing⟩, (hfails missing (Or.inr ⟨⟨first, hfirst⟩, hmissing⟩)).1, ?_⟩
  exact hcommit.mpr ⟨true, true, by decide +kernel⟩

end Command

end Electorate
