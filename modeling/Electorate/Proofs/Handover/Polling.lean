import Electorate.Proofs.Handover.Step
import Electorate.Proofs.Tracker.Acks

/-! What a caller may poll agrees with what a commit would find. -/
namespace Electorate.Handover

/-- The pending tracker watches the committed configuration and then the proposed one, each with
the voters it has heard from. -/
structure Watches (h : Handover) (q : Pending) (old new : IdSet) : Prop where
  order : q.committedSlot < q.proposedSlot
  committed : q.tracker.entryAt? q.committedSlot = some ⟨h.committed, old⟩
  proposed : q.tracker.entryAt? q.proposedSlot = some ⟨q.proposed, new⟩
  active : q.tracker.active = [⟨h.committed, old⟩, ⟨q.proposed, new⟩]

theorem entry_ackAll_start (c : Configuration) (ids : List UInt64) :
    (Entry.start c).ackAll ids = ⟨c, ((Entry.start c).ackAll ids).acks⟩ :=
  congrArg₂ Entry.mk (Entry.config_ackAll (Entry.start c) ids) rfl

theorem slots_watched (c p : Configuration) (ids : List UInt64) :
    (watched c p ids).tracker.slots =
      [some ⟨c, ((Entry.start c).ackAll ids).acks⟩,
        some ⟨p, ((Entry.start p).ackAll ids).acks⟩] := by
  rw [watched, Tracker.slots_recordAll, ← entry_ackAll_start c, ← entry_ackAll_start p]
  rfl

theorem watches_watched (h : Handover) (p : Configuration) (ids : List UInt64) :
    Watches h (watched h.committed p ids) ((Entry.start h.committed).ackAll ids).acks
      ((Entry.start p).ackAll ids).acks where
  order := Nat.zero_lt_one
  committed := by
    rw [Tracker.entryAt?, slots_watched]
    rfl
  proposed := by
    rw [Tracker.entryAt?, slots_watched]
    rfl
  active := by
    rw [Tracker.active, slots_watched]
    rfl

/-- Whatever is pending in a run is watched over in two slots of its own. -/
theorem exists_watches {past : List Event} {h : Handover} (hm : Mirrors past h) {q : Pending}
    (hq : h.pending = some q) : ∃ old new, Watches h q old new := by
  obtain ⟨since, hs⟩ := hm.standing hq
  have hw : q = watched h.committed q.proposed (ackIds since) :=
    Option.some.inj (hq.symm.trans (hm.pending hs))
  rw [hw]
  exact ⟨_, _, watches_watched h q.proposed (ackIds since)⟩

theorem Watches.hasQuorum_committed {h : Handover} {q : Pending} {old new : IdSet}
    (hw : Watches h q old new) :
    q.tracker.hasQuorum q.committedSlot = Entry.hasQuorum ⟨h.committed, old⟩ := by
  rw [Tracker.hasQuorum, hw.committed]

theorem Watches.hasQuorum_proposed {h : Handover} {q : Pending} {old new : IdSet}
    (hw : Watches h q old new) :
    q.tracker.hasQuorum q.proposedSlot = Entry.hasQuorum ⟨q.proposed, new⟩ := by
  rw [Tracker.hasQuorum, hw.proposed]

/-- Asking for all quorums asks for the two that a commit needs, since the tracker watches nothing
else. -/
theorem Watches.hasAllQuorums_iff {h : Handover} {q : Pending} {old new : IdSet}
    (hw : Watches h q old new) : q.tracker.hasAllQuorums = true ↔
      q.tracker.hasQuorum q.committedSlot = true ∧ q.tracker.hasQuorum q.proposedSlot = true := by
  rw [Tracker.hasAllQuorums, hw.active, hw.hasQuorum_committed, hw.hasQuorum_proposed]
  simp

/-- The answer to a commit in terms of the two sets alone. -/
theorem Watches.tryCommit_eq {h : Handover} {q : Pending} {old new : IdSet}
    (hq : h.pending = some q) (hw : Watches h q old new) :
    h.tryCommit.2 =
      if !Entry.hasQuorum ⟨q.proposed, new⟩ then
        .error (.refused
          (Refusal.mk .newConfigNoQuorum (some (versionTag q.proposed.version)) none))
      else if !Entry.hasQuorum ⟨h.committed, old⟩ then .ok none
      else .ok (some q.proposed) := by
  rw [← hw.hasQuorum_committed, ← hw.hasQuorum_proposed, tryCommit, hq]
  simp only
  split_ifs <;> rfl

theorem Watches.isVotingMember_iff {h : Handover} {q : Pending} {old new : IdSet}
    (hw : Watches h q old new) (id : UInt64) : q.tracker.isVotingMember id = true ↔
      h.committed.isVoter id = true ∧ q.proposed.isVoter id = true := by
  rw [Tracker.isVotingMember, hw.active]
  simp

theorem Watches.ackSummary?_eq {h : Handover} {q : Pending} {old new : IdSet}
    (hq : h.pending = some q) (hw : Watches h q old new) :
    h.ackSummary? = some (idsText old ++ "," ++ idsText new) := by
  rw [ackSummary?, hq, Option.map_some, Tracker.summary, hw.active]
  rfl

/-- A pending proposal is committed exactly if both slots report a quorum. -/
theorem commits_iff_of_pending {h : Handover} {q : Pending} (hq : h.pending = some q) :
    (∃ c, h.tryCommit.2 = .ok (some c)) ↔
      q.tracker.hasQuorum q.committedSlot = true ∧ q.tracker.hasQuorum q.proposedSlot = true := by
  rw [tryCommit, hq]
  by_cases hp : q.tracker.hasQuorum q.proposedSlot = true
  · by_cases hc : q.tracker.hasQuorum q.committedSlot = true
    · simp [hp, hc]
    · simp [hp, hc]
  · simp [hp]

/-- In every state of every run, the pending tracker watches exactly the committed configuration
and then the proposed one; all quorums are reported just when a commit would succeed; and a voting
member is one of both configurations. With nothing pending no quorums are reported, unlike by a
tracker that watches nothing. -/
theorem polling_agrees_with_commit (first : Configuration) (enabled : Bool) (calls : List Call) :
    let h := after first enabled calls
    (∀ q, h.pending = some q → ∃ old new, Watches h q old new ∧
      h.ackSummary? = some (idsText old ++ "," ++ idsText new)) ∧
    (h.hasAllQuorums = true ↔ ∃ c, h.tryCommit.2 = .ok (some c)) ∧
    (∀ id, h.isVotingMember id = true ↔ h.committed.isVoter id = true ∧
      ∀ p, h.proposed? = some p → p.isVoter id = true) ∧
    (h.proposed? = none → h.hasAllQuorums = false) ∧ Tracker.empty.hasAllQuorums = true := by
  intro h
  have hm : Mirrors (events first enabled calls) h := mirrors_after first enabled calls
  refine ⟨?_, ?_, ?_, ?_, rfl⟩
  · intro q hq
    obtain ⟨old, new, hw⟩ := exists_watches hm hq
    exact ⟨old, new, hw, hw.ackSummary?_eq hq⟩
  · cases hq : h.pending with
    | none => simp [hasAllQuorums, tryCommit, hq]
    | some q =>
      obtain ⟨old, new, hw⟩ := exists_watches hm hq
      rw [commits_iff_of_pending hq, ← hw.hasAllQuorums_iff, hasAllQuorums, hq]
  · intro id
    cases hq : h.pending with
    | none => simp [isVotingMember, proposed?, hq]
    | some q =>
      obtain ⟨old, new, hw⟩ := exists_watches hm hq
      rw [isVotingMember, hq, proposed?, hq]
      simpa using hw.isVotingMember_iff id
  · intro hp
    have hq : h.pending = none := Option.map_eq_none_iff.mp hp
    rw [hasAllQuorums, hq]

/-- Polled with both quorums in, and before anything is proposed. -/
theorem polled_while_trio_hands_over :
    let first := Configuration.mk 1 .majority .trio
    let next := Configuration.mk 0 .majority .quartet
    let h := after first true [.propose none next 2, .ack 4, .ack 2, .ack 1]
    (∃ q, h.pending = some q ∧ ∃ old new, Watches h q old new ∧
      h.ackSummary? = some (idsText old ++ "," ++ idsText new)) ∧
    ((∃ c, h.tryCommit.2 = .ok (some c)) ∧ h.hasAllQuorums = true) ∧
    ((after first true []).proposed? = none ∧
      (after first true []).hasAllQuorums = false) := by
  intro first next h
  have hq : ∃ q, h.pending = some q := Option.isSome_iff_exists.mp rfl
  have hcommit : ∃ c, h.tryCommit.2 = .ok (some c) := ⟨next.stamp 2, by decide +kernel⟩
  obtain ⟨q, hq⟩ := hq
  obtain ⟨hwatch, hpoll, -⟩ := polling_agrees_with_commit first true
    [.propose none next 2, .ack 4, .ack 2, .ack 1]
  obtain ⟨-, -, -, hidle, -⟩ := polling_agrees_with_commit first true []
  exact ⟨⟨q, hq, hwatch q hq⟩, ⟨hcommit, hpoll.mpr hcommit⟩, rfl, hidle rfl⟩

end Electorate.Handover
