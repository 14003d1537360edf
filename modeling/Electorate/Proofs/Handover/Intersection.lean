import Electorate.Proofs.Handover.Commit

/-! Two handovers that both commit a proposal on top of one configuration share a voter of it. -/
namespace Electorate.Handover

/-- After the calls, a commit makes `p` follow a configuration with the members and the policy of
`C`. A commit in the middle of a run is one after the calls that precede it. -/
structure CommitsOn (C first : Configuration) (enabled : Bool) (calls : List Call)
    (p : Configuration) : Prop where
  membership : (after first enabled calls).committed.membership = C.membership
  policy : (after first enabled calls).committed.policy = C.policy
  commit : (after first enabled calls).tryCommit.2 = .ok (some p)

/-- A voter of `C`, with weight where weights count, that acknowledged after the admission of the
proposal `p` that stands. -/
structure Backs (C : Configuration) (past : List Event) (p : Configuration) (id : UInt64) :
    Prop where
  votes : C.isVoter id = true
  weighs : C.policy = .weighted → 0 < C.weight id
  acknowledges : ∃ since, Standing past p since ∧ ∃ answer, (Call.ack id, answer) ∈ since

/-- Before a commit that involves the configuration, a quorum of its voters has acknowledged since
the admission. -/
theorem CommitsOn.quorum {C first p : Configuration} {enabled : Bool} {calls : List Call}
    (h : CommitsOn C first enabled calls p) :
    ∃ since, Standing (events first enabled calls) p since ∧
      C.IsQuorum (acknowledged since ∩ C.voters) := by
  have hm := mirrors_after first enabled calls
  have hcommit := h.commit
  cases hp : (after first enabled calls).pending with
  | none => simp [tryCommit, hp] at hcommit
  | some q =>
    obtain ⟨since, hs⟩ := hm.standing hp
    rcases tryCommit_cases (hm.pending hs) with ⟨_, ht⟩ | ⟨_, _, ht⟩ | ⟨_, hc, ht⟩
    · simp [ht] at hcommit
    · simp [ht] at hcommit
    · have hq : q.proposed = p := by simpa [ht] using hcommit
      rw [hq] at hs
      refine ⟨since, hs, ?_⟩
      -- the version of the committed configuration has no part in its quorums
      rw [Configuration.IsQuorum, Configuration.voters, h.membership, h.policy] at hc
      exact hc

theorem backs_of_mem {C p : Configuration} {past since : List Event} {id : UInt64}
    (hs : Standing past p since) (hid : id ∈ acknowledged since ∩ C.voters)
    (hw : C.policy = .weighted → 0 < C.weight id) : Backs C past p id := by
  obtain ⟨hack, hv⟩ := Finset.mem_inter.mp hid
  exact ⟨C.mem_voters.mp hv, hw, since, hs, mem_acknowledged.mp hack⟩

/-- Two commits on top of one configuration, in any two runs, are backed by a common voter. So if
no voter backs both proposals, at most one of them is committed. -/
theorem commits_share_a_backer (C first₁ first₂ p₁ p₂ : Configuration) (enabled₁ enabled₂ : Bool)
    (calls₁ calls₂ : List Call) :
    (CommitsOn C first₁ enabled₁ calls₁ p₁ → CommitsOn C first₂ enabled₂ calls₂ p₂ →
      ∃ id, Backs C (events first₁ enabled₁ calls₁) p₁ id ∧
        Backs C (events first₂ enabled₂ calls₂) p₂ id) ∧
    ((∀ id, ¬ (Backs C (events first₁ enabled₁ calls₁) p₁ id ∧
        Backs C (events first₂ enabled₂ calls₂) p₂ id)) →
      ¬ (CommitsOn C first₁ enabled₁ calls₁ p₁ ∧ CommitsOn C first₂ enabled₂ calls₂ p₂)) := by
  have hshare (h₁ : CommitsOn C first₁ enabled₁ calls₁ p₁)
      (h₂ : CommitsOn C first₂ enabled₂ calls₂ p₂) :
      ∃ id, Backs C (events first₁ enabled₁ calls₁) p₁ id ∧
        Backs C (events first₂ enabled₂ calls₂) p₂ id := by
    obtain ⟨since₁, hs₁, hq₁⟩ := h₁.quorum
    obtain ⟨since₂, hs₂, hq₂⟩ := h₂.quorum
    obtain ⟨id, hid, _, hw⟩ :=
      hq₁.inter hq₂ Finset.inter_subset_right Finset.inter_subset_right
    obtain ⟨hid₁, hid₂⟩ := Finset.mem_inter.mp hid
    exact ⟨id, backs_of_mem hs₁ hid₁ hw, backs_of_mem hs₂ hid₂ hw⟩
  refine ⟨hshare, ?_⟩
  intro hnone hboth
  obtain ⟨id, hid⟩ := hshare hboth.1 hboth.2
  exact hnone id hid

/-- Two runs that begin at different versions of the trio. In the second one the first proposal is
given up. -/
theorem two_handovers_of_trio_share_a_backer :
    let C := Configuration.mk 1 .weighted .trio
    let next := Configuration.mk 0 .majority .quartet
    let rival := Configuration.mk 0 .weighted .quartet
    let calls := [Call.propose (some 1) next 2, .ack 1, .ack 2, .ack 3]
    let others := [Call.propose none next 8, .ack 2, .abandon, .setEnabled true,
      .propose none rival 9, .ack 4, .ack 3, .ack 1]
    CommitsOn C C true calls (next.stamp 2) ∧
      CommitsOn C (C.stamp 7) true others (rival.stamp 9) ∧
      ∃ id, Backs C (events C true calls) (next.stamp 2) id ∧
        Backs C (events (C.stamp 7) true others) (rival.stamp 9) id := by
  intro C next rival calls others
  have h₁ : CommitsOn C C true calls (next.stamp 2) := ⟨rfl, rfl, by decide +kernel⟩
  have h₂ : CommitsOn C (C.stamp 7) true others (rival.stamp 9) := ⟨rfl, rfl, by decide +kernel⟩
  exact ⟨h₁, h₂, (commits_share_a_backer C _ _ _ _ _ _ calls others).1 h₁ h₂⟩

end Electorate.Handover
