import Electorate.Proofs.Tracker.Answers

/-! Two trackers that decide under one configuration have heard a voter in common. -/
namespace Electorate.Tracker

theorem heard_subset_voters (c : Configuration) (calls : List Call) : heard c calls ⊆ c.voters :=
  Finset.filter_subset _ _

/-- Whatever else the two trackers watch, their quorums under `C` meet in a voter, and in one that
has weight where weights count. The majority rule owes this to the sets holding voters only. -/
theorem quorums_meet_across_trackers (C : Configuration) :
    (∀ calls₁ calls₂ s₁ s₂,
      (after calls₁).config? s₁ = some C → (after calls₂).config? s₂ = some C →
      (after calls₁).hasQuorum s₁ = true → (after calls₂).hasQuorum s₂ = true →
      ∃ acks₁ acks₂ : IdSet,
        (after calls₁).acked? s₁ = some acks₁ ∧ (after calls₂).acked? s₂ = some acks₂ ∧
        ∃ id, acks₁.contains id = true ∧ acks₂.contains id = true ∧
          C.isVoter id = true ∧ (C.policy = .weighted → 0 < C.weight id)) ∧
    ∀ calls s acks, (after calls).config? s = some C → (after calls).acked? s = some acks →
      ∀ B : IdSet, (∀ id, B.contains id = true → C.isVoter id = true) →
        (∀ id, acks.contains id = true → B.contains id = false) →
        ¬ (C.hasQuorum acks = true ∧ C.hasQuorum B = true) := by
  constructor
  · intro calls₁ calls₂ s₁ s₂ hc₁ hc₂ hq₁ hq₂
    obtain ⟨since₁, hin₁⟩ := config?_eq_some_iff.mp hc₁
    obtain ⟨since₂, hin₂⟩ := config?_eq_some_iff.mp hc₂
    obtain ⟨acks₁, ha₁, hm₁⟩ := acked?_of_inForce hin₁
    obtain ⟨acks₂, ha₂, hm₂⟩ := acked?_of_inForce hin₂
    obtain ⟨id, hid, hv, hw⟩ := Configuration.IsQuorum.inter
      ((hasQuorum_iff_of_inForce hin₁).mp hq₁) ((hasQuorum_iff_of_inForce hin₂).mp hq₂)
      (heard_subset_voters C since₁) (heard_subset_voters C since₂)
    obtain ⟨hid₁, hid₂⟩ := Finset.mem_inter.mp hid
    exact ⟨acks₁, acks₂, ha₁, ha₂, id, (hm₁ id).mpr (mem_heard.mp hid₁),
      (hm₂ id).mpr (mem_heard.mp hid₂), hv, hw⟩
  · intro calls s acks hc ha B hB hdisj hboth
    obtain ⟨since, hin⟩ := config?_eq_some_iff.mp hc
    -- both sets hold nobody but voters, so as quorums they would meet
    have hsub : acks.support ⊆ C.voters := by
      intro id hid
      exact C.mem_voters.mpr ((contains_of_inForce hin ha id).mp (acks.mem_support.mp hid)).1
    have hsubB : B.support ⊆ C.voters := by
      intro id hid
      exact C.mem_voters.mpr (hB id (B.mem_support.mp hid))
    obtain ⟨id, hid, _⟩ := Configuration.IsQuorum.inter ((C.hasQuorum_iff acks).mp hboth.1)
      ((C.hasQuorum_iff B).mp hboth.2) hsub hsubB
    obtain ⟨hid, hidB⟩ := Finset.mem_inter.mp hid
    have hout := hdisj id (acks.mem_support.mp hid)
    rw [B.mem_support.mp hidB] at hout
    exact Bool.noConfusion hout

/-- The trio in different slots of two trackers, each with a quorum, and a set that misses the
first. -/
theorem quorums_of_trio_meet :
    let C := Configuration.mk 1 .weighted .trio
    let other := Configuration.mk 2 .majority .quartet
    let one := after [.register C, .ack 1, .register other, .ack 2]
    let two := after [.register other, .ack 2, .register C, .retire 0, .ack 3, .ack 1]
    (one.hasQuorum 0 = true ∧ two.hasQuorum 1 = true ∧
      ∃ acks₁ acks₂ : IdSet, one.acked? 0 = some acks₁ ∧ two.acked? 1 = some acks₂ ∧
        ∃ id, acks₁.contains id = true ∧ acks₂.contains id = true ∧
          C.isVoter id = true ∧ (C.policy = .weighted → 0 < C.weight id)) ∧
    ∀ acks, one.acked? 0 = some acks →
      ¬ (C.hasQuorum acks = true ∧ C.hasQuorum (IdMap.ofIds [3]) = true) := by
  intro C other one two
  have hone : one.hasQuorum 0 = true := by decide +kernel
  have htwo : two.hasQuorum 1 = true := by decide +kernel
  refine ⟨⟨hone, htwo, (quorums_meet_across_trackers C).1 _ _ 0 1 rfl rfl hone htwo⟩, ?_⟩
  intro acks ha
  have hacks : one.acked? 0 = some (IdMap.ofIds [1, 2]) := by decide +kernel
  obtain rfl := Option.some.inj (hacks.symm.trans ha)
  apply (quorums_meet_across_trackers C).2 _ 0 _ rfl ha (IdMap.ofIds [3])
  · intro id hid
    rcases (IdMap.contains_insert IdMap.empty 3 id ()).mp hid with rfl | hid
    · decide +kernel
    · exact absurd hid (by simp)
  · intro id hid
    rcases (IdMap.contains_insert (IdMap.ofIds [1]) 2 id ()).mp hid with rfl | hid
    · decide +kernel
    · rcases (IdMap.contains_insert IdMap.empty 1 id ()).mp hid with rfl | hid
      · decide +kernel
      · exact absurd hid (by simp)

end Electorate.Tracker
