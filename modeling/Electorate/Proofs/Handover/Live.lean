import Electorate.Proofs.Configuration.Draft
import Electorate.Proofs.Handover.Commit

/-! Whether a configuration that was loaded can decide at all, and what follows for a handover
between two of them. -/
namespace Electorate
open scoped BigOperators

namespace Configuration

/-- All voters as one set of acknowledgments. -/
def voterSet (c : Configuration) : IdSet := c.voting.mapIds fun _ _ => ()

theorem support_voterSet (c : Configuration) : c.voterSet.support = c.voters := by
  ext id
  rw [IdMap.mem_support, voterSet, IdMap.contains_mapIds, mem_voters]
  rfl

/-- Where weight counts, some voter has one. -/
def CarriesWeight (c : Configuration) : Prop :=
  c.policy = .weighted → ∃ id, c.isVoter id = true ∧ 0 < c.weight id

/-- All voters together hold more than half of the shares unless there is no share at all. -/
theorem isQuorum_voters_iff (c : Configuration) :
    c.IsQuorum c.voters ↔ ∃ id ∈ c.voters, 0 < c.policy.share c.membership id := by
  have hhalf (n : ℕ) : n / 2 < n ↔ 0 < n := by omega
  have hsum : c.IsQuorum c.voters ↔ 0 < ∑ id ∈ c.voters, c.policy.share c.membership id := by
    rw [IsQuorum, Policy.isQuorum_iff_share]
    exact hhalf _
  rw [hsum, Finset.sum_pos_iff]

theorem share_pos_iff {c : Configuration} {id : UInt64} (hp : c.policy = .weighted) :
    0 < c.policy.share c.membership id ↔ 0 < c.weight id := by
  rw [weight, hp, Policy.share, UInt64.lt_iff_toNat_lt, Membership.toNat_weight, UInt64.toNat_zero]

/-- All voters together are a quorum, unless they are weighed and weigh nothing. -/
theorem isQuorum_voters_iff_carriesWeight {c : Configuration}
    (hvoter : ∃ id, c.isVoter id = true) : c.IsQuorum c.voters ↔ c.CarriesWeight := by
  rw [isQuorum_voters_iff, CarriesWeight]
  cases hp : c.policy with
  | majority =>
    obtain ⟨id, hid⟩ := hvoter
    constructor
    · intro _ hne
      cases hne
    · intro _
      exact ⟨id, c.mem_voters.mpr hid, Nat.one_pos⟩
  | weighted =>
    simp only [← hp, share_pos_iff hp, mem_voters, forall_const]

/-- A configuration read from a text, under a policy that the text implies or that was asked for,
and then perhaps put under another version. -/
def Loaded (c : Configuration) : Prop :=
  ∃ text asked c₀ version, parse text asked = .ok c₀ ∧ c = c₀.stamp version

theorem Loaded.exists_voter {c : Configuration} (h : Loaded c) : ∃ id, c.isVoter id = true := by
  obtain ⟨text, asked, c₀, version, hparse, rfl⟩ := h
  have hvoter := exists_voter_of_parse hparse
  exact hvoter

end Configuration

namespace Handover

/-- Once every voter of both configurations has acknowledged, a commit finds both decided as far as
all their voters decide them. -/
theorem tryCommit_recordAll {past : List Event} {h : Handover} (hm : Mirrors past h)
    {p : Configuration} (hp : h.proposed? = some p) {ids : List UInt64}
    (hids : ∀ id, h.committed.isVoter id = true ∨ p.isVoter id = true → id ∈ ids) :
    (h.recordAll ids).tryCommit.2 = .ok (some p) ↔
      h.committed.IsQuorum h.committed.voters ∧ p.IsQuorum p.voters := by
  obtain ⟨since, hs⟩ := (proposed?_eq_some_iff hm).mp hp
  have hpending : (h.recordAll ids).pending =
      some (watched (h.recordAll ids).committed p (ackIds since ++ ids)) := by
    rw [recordAll_eq, hm.pending hs, Option.map_some, hear_watched]
  have hcommitted : (h.recordAll ids).committed = h.committed := by rw [recordAll_eq]
  -- who acknowledged before makes no difference once all voters have
  have hall (c : Configuration) (hc : ∀ id, c.isVoter id = true → id ∈ ids) :
      (ackIds since ++ ids).toFinset ∩ c.voters = c.voters := by
    apply Finset.inter_eq_right.mpr
    intro id hid
    rw [List.mem_toFinset]
    exact List.mem_append_right _ (hc id (c.mem_voters.mp hid))
  have hnew := hall p fun id hid => hids id (Or.inr hid)
  have hold := hall h.committed fun id hid => hids id (Or.inl hid)
  rcases tryCommit_cases hpending with ⟨hq, ht⟩ | ⟨hq, hc, ht⟩ | ⟨hq, hc, ht⟩
  · rw [hnew] at hq
    simp [ht, hq]
  · rw [hcommitted, hold] at hc
    simp [ht, hc]
  · rw [hnew] at hq
    rw [hcommitted, hold] at hc
    simp [ht, hq, hc]

/-- The voters of a configuration that was read from a text decide together unless it goes by
weight and no voter has any. So where it is committed, under whatever version, and a loaded one is
proposed, a commit after all voters of both have acknowledged succeeds exactly if neither is such a
configuration. -/
theorem loaded_configurations_commit_iff_carry_weight {text : String} {asked : Option Policy}
    {c : Configuration} (hparse : Configuration.parse text asked = .ok c) :
    (c.hasQuorum c.voterSet = true ↔ c.CarriesWeight) ∧
    ∀ (first : Configuration) (enabled : Bool) (calls : List Call) (version : UInt64)
      (p : Configuration) (ids : List UInt64),
      let h := after first enabled calls
      h.committed = c.stamp version → h.proposed? = some p → p.Loaded →
      (∀ id, c.isVoter id = true ∨ p.isVoter id = true → id ∈ ids) →
      ((h.recordAll ids).tryCommit.2 = .ok (some p) ↔ c.CarriesWeight ∧ p.CarriesWeight) := by
  have hdecides : c.IsQuorum c.voters ↔ c.CarriesWeight :=
    Configuration.isQuorum_voters_iff_carriesWeight (Configuration.exists_voter_of_parse hparse)
  constructor
  · rw [Configuration.hasQuorum_iff, Configuration.support_voterSet]
    exact hdecides
  · intro first enabled calls version p ids h hcommitted hp hproposed hids
    -- the version has no part in who votes or in what decides
    have hstamped : h.committed.IsQuorum h.committed.voters ↔ c.IsQuorum c.voters := by
      rw [hcommitted]
      rfl
    have hvoters : ∀ id, h.committed.isVoter id = true ∨ p.isVoter id = true → id ∈ ids := by
      rw [hcommitted]
      exact hids
    rw [tryCommit_recordAll (mirrors_after first enabled calls) hp hvoters, hstamped, hdecides,
      Configuration.isQuorum_voters_iff_carriesWeight hproposed.exists_voter]

/-- Two voters, of which one has all the weight. -/
def lopsided : Configuration where
  version := 5
  policy := .weighted
  membership :=
    { all := IdMap.ofList [(1, Member.mk 1 "a" 1 2 none .participant 3),
        (2, Member.mk 2 "b" 1 2 none .participant 0)]
      totalVotingWeight := 3
      total_eq := rfl }

def successor : Configuration where
  version := 0
  policy := .majority
  membership :=
    { all := IdMap.ofList [(2, Member.mk 2 "b" 1 2 none .participant 1),
        (3, Member.mk 3 "c" 1 2 none .observer 1)]
      totalVotingWeight := 1
      total_eq := rfl }

/-- A voter without weight does not keep the others from a handover. -/
theorem lopsided_hands_over_to_successor :
    let h := after lopsided true [.ack 1, .propose none successor 9, .ack 7]
    lopsided.hasQuorum lopsided.voterSet = true ∧
      (h.recordAll [2, 1]).tryCommit.2 = .ok (some (successor.stamp 9)) := by
  intro h
  have hlopsided : Configuration.parse
      "server.1=a:1:2\nserver.2=b:1:2\nweight.2=0\nweight.1=3\nversion=5" = .ok lopsided := by
    decide +kernel
  have hsuccessor : Configuration.parse "server.3=c:1:2:observer\nserver.2=b:1:2" =
      .ok successor := by decide +kernel
  have hcommitted : h.committed = lopsided := by decide +kernel
  have hproposed : h.proposed? = some (successor.stamp 9) := by decide +kernel
  have hnext : (successor.stamp 9).Loaded := ⟨_, none, successor, 9, hsuccessor, rfl⟩
  have hweight : lopsided.CarriesWeight := fun _ => ⟨1, by decide +kernel, by decide +kernel⟩
  have hold : lopsided.voting.ids = [1, 2] := by decide +kernel
  have hnew : (successor.stamp 9).voting.ids = [2] := by decide +kernel
  obtain ⟨hquorum, hcommit⟩ := loaded_configurations_commit_iff_carry_weight hlopsided
  refine ⟨hquorum.mpr hweight, ?_⟩
  refine (hcommit lopsided true _ 5 _ [2, 1] hcommitted hproposed hnext ?_).mpr ⟨hweight, nofun⟩
  intro id hid
  rcases hid with hid | hid
  · have hmem : id ∈ lopsided.voting.ids := (IdMap.mem_ids _).mpr hid
    rw [hold] at hmem
    simpa [or_comm] using hmem
  · have hmem : id ∈ (successor.stamp 9).voting.ids := (IdMap.mem_ids _).mpr hid
    rw [hnew] at hmem
    exact List.mem_cons.mpr (Or.inl (List.mem_singleton.mp hmem))

/-- One voter without weight, under the weighted policy that its weight line selects. -/
def weightless : Configuration where
  version := 7
  policy := .weighted
  membership :=
    { all := IdMap.ofList [(1, Member.mk 1 "a" 1 2 none .participant 0)]
      totalVotingWeight := 0
      total_eq := rfl }

/-- A sole voter of weight zero is read without complaint. A handover from it waits for ever, and
one to it fails, though everybody acknowledges. -/
theorem weightless_never_decides :
    Configuration.parse "server.1=a:1:2\nweight.1=0\nversion=7" = .ok weightless ∧
    weightless.hasQuorum weightless.voterSet = false ∧
    Configuration.parse "server.3=c:1:2:observer\nserver.2=b:1:2" = .ok successor ∧
    ((after weightless true [.propose none successor 9]).recordAll [1, 2]).tryCommit.2 = .ok none ∧
    ((after successor true [.propose none weightless 9]).recordAll [1, 2]).tryCommit.2 =
      .error (.refused (Refusal.mk .newConfigNoQuorum (some (versionTag 9)) none)) := by
  refine ⟨?_, ?_, ?_, ?_, ?_⟩ <;> decide +kernel

end Handover

end Electorate
