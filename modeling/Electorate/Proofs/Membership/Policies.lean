import Electorate.Proofs.Membership.Construction

/-! When counting the voters and weighing them come to the same, and that a common factor of all
weights decides nothing. -/
namespace Electorate
open scoped BigOperators

namespace Membership

/-- Weighing the voters decides no set of them in another way than counting them. -/
def WeightsIdle (m : Membership) : Prop :=
  ∀ acks : IdSet, (∀ id, acks.contains id = true → m.isVoter id = true) →
    Policy.weighted.hasQuorum m acks = Policy.majority.hasQuorum m acks

theorem weightsIdle_of_uniform {m : Membership} {w : ℕ} (hw : 0 < w)
    (hall : ∀ id, m.isVoter id = true → m.exactWeight id = w) : m.WeightsIdle := by
  intro acks hacks
  have hvoters : acks.support ⊆ m.voters := by
    intro id hid
    exact m.mem_voters.mpr (hacks id (acks.mem_support.mp hid))
  have hexact : ∀ id ∈ m.voters, m.exactWeight id = w := by
    intro id hid
    exact hall id (m.mem_voters.mp hid)
  rw [Bool.eq_iff_iff, Policy.hasQuorum_iff, Policy.hasQuorum_iff]
  exact Policy.isQuorum_weighted_iff_of_uniform hw hexact hvoters

/-- All voters have one and the same weight, which is not none. -/
def Uniform (m : Membership) : Prop :=
  ∃ w : UInt64, 1 ≤ w ∧ ∀ id v, m.voting.find? id = some v → v.weight = w

theorem uniform_iff {m : Membership} : m.Uniform ↔
    ∃ w : UInt64, 1 ≤ w ∧ ∀ v ∈ m.voting.values, v.weight = w := by
  simp only [Uniform, m.voting.mem_values, forall_exists_index]
  exact exists_congr fun w => and_congr_right fun _ => forall_comm

theorem Uniform.weightsIdle {m : Membership} (h : m.Uniform) : m.WeightsIdle := by
  obtain ⟨w, hw, hall⟩ := h
  have hpos : 0 < w.toNat := UInt64.le_iff_toNat_le.mp hw
  apply weightsIdle_of_uniform hpos
  intro id hid
  obtain ⟨v, hv⟩ := Option.isSome_iff_exists.mp hid
  rw [exactWeight, hv, Option.elim_some, hall id v hv]

end Membership

/-- The members with the weights of all voters among them multiplied. -/
def scaleVoters (k : ℕ) (all : IdMap Member) : IdMap Member :=
  all.mapIds fun _ x =>
    if x.isParticipant then { x with weight := UInt64.ofNat (x.weight.toNat * k) } else x

theorem filter_scaleVoters (k : ℕ) (all : IdMap Member) :
    (scaleVoters k all).filter Member.isParticipant =
      (all.filter Member.isParticipant).mapIds fun _ x =>
        if x.isParticipant then { x with weight := UInt64.ofNat (x.weight.toNat * k) } else x := by
  apply all.filter_mapIds
  intro _ x
  split_ifs <;> rfl

namespace Membership

section
variable {m : Membership} {k : ℕ} (hfits : m.totalVotingWeight.toNat * k < 2 ^ 64)
include hfits

/-- No voter outweighs the total, so each multiplied weight fits where the multiplied total does. -/
theorem elim_find?_scaleVoters (id : UInt64) :
    (((scaleVoters k m.all).filter Member.isParticipant).find? id).elim 0
      (fun v => v.weight.toNat) = m.exactWeight id * k := by
  rw [filter_scaleVoters, IdMap.find?_mapIds, exactWeight, voting]
  cases hv : (m.all.filter Member.isParticipant).find? id with
  | none => exact (Nat.zero_mul k).symm
  | some v =>
    have hvotes : v.isParticipant = true := (m.all.find?_filter_eq_some_iff.mp hv).2
    have hexact : m.exactWeight id = v.weight.toNat := by
      rw [exactWeight, voting, hv, Option.elim_some]
    have hle : v.weight.toNat ≤ m.totalVotingWeight.toNat := by
      rw [← hexact, ← Finset.sum_singleton m.exactWeight id]
      exact m.sum_exactWeight_le {id}
    have hsmall : v.weight.toNat * k < 2 ^ 64 := (Nat.mul_le_mul_right k hle).trans_lt hfits
    rw [Option.map_some, Option.elim_some, Option.elim_some, if_pos hvotes]
    exact UInt64.toNat_ofNat_of_lt hsmall

omit hfits in
theorem support_scaleVoters :
    ((scaleVoters k m.all).filter Member.isParticipant).support = m.voters := by
  ext id
  rw [IdMap.mem_support, filter_scaleVoters, IdMap.contains_mapIds, mem_voters, isVoter, voting]

theorem exactWeight_scaled {m' : Membership} (hm : ofMap (scaleVoters k m.all) = .ok m')
    (id : UInt64) : m'.exactWeight id = m.exactWeight id * k := by
  rw [← elim_find?_scaleVoters hfits id, exactWeight, voting, ofMap_eq_ok_iff.mp hm]

theorem exists_scaled : ∃ m', ofMap (scaleVoters k m.all) = .ok m' := by
  simp only [ofMap_eq_ok_iff]
  rw [exists_all_eq_iff, support_scaleVoters]
  simp only [elim_find?_scaleVoters hfits]
  rw [← Finset.sum_mul, ← m.total_exact]
  exact hfits

/-- A factor that leaves the total in range changes no decision, of whatever set of ids. -/
theorem hasQuorum_scaled (hk : 1 ≤ k) {m' : Membership}
    (hm : ofMap (scaleVoters k m.all) = .ok m') (acks : IdSet) :
    Policy.weighted.hasQuorum m' acks = Policy.weighted.hasQuorum m acks := by
  have hvoters : m'.voters = m.voters := by
    rw [voters, voting, ofMap_eq_ok_iff.mp hm]
    exact support_scaleVoters
  rw [Bool.eq_iff_iff, Policy.hasQuorum_iff, Policy.hasQuorum_iff]
  apply Policy.isQuorum_iff_of_share_mul hk hvoters
  intro id _
  exact exactWeight_scaled hfits hm id

end

end Membership

namespace Configuration

/-- The two answer alike on every set of voters of the first. -/
def DecidesAs (a b : Configuration) : Prop :=
  ∀ acks : IdSet, (∀ id, acks.contains id = true → a.isVoter id = true) →
    a.hasQuorum acks = b.hasQuorum acks

/-- Over the same members only the policies can make a difference, and only through weights that
make one. -/
theorem decidesAs_iff_of_members {a b : Configuration} (h : a.members = b.members) :
    a.DecidesAs b ↔ a.policy = b.policy ∨ a.membership.WeightsIdle := by
  obtain ⟨_, policy, m⟩ := a
  obtain ⟨_, policy', m'⟩ := b
  obtain rfl : m = m' := Membership.eq_of_all h
  cases policy with
  | majority =>
    cases policy' with
    | majority => exact iff_of_true (fun _ _ => rfl) (Or.inl rfl)
    | weighted =>
      rw [or_iff_right nofun]
      exact forall₂_congr fun acks hacks => eq_comm
  | weighted =>
    cases policy' with
    | majority =>
      rw [or_iff_right nofun]
      exact Iff.rfl
    | weighted => exact iff_of_true (fun _ _ => rfl) (Or.inl rfl)

end Configuration

end Electorate
