import Electorate.Proofs.Quorum

/-! The sum of acknowledged weights, taken in 64-bit words without a check. It is exact for every
set of ids, and voters alone move it. -/
namespace Electorate
open scoped BigOperators

/-- The sum on the way to the weight of the acknowledgments, after the first `n` ids. -/
def partialWeight (m : Membership) (acks : IdSet) (n : ℕ) : UInt64 :=
  (acks.ids.take n).foldl (fun sum id => sum + Policy.weight .weighted m id) 0

namespace Membership

theorem toNat_partialWeight (m : Membership) (acks : IdSet) (n : ℕ) :
    (partialWeight m acks n).toNat = ((acks.ids.take n).map m.exactWeight).sum :=
  toNat_foldl_weight_of_nodup m ((List.take_sublist n acks.ids).nodup acks.nodup_ids)

/-- No intermediate sum exceeds the total, so none wraps around. -/
theorem partialWeight_le (m : Membership) (acks : IdSet) (n : ℕ) :
    partialWeight m acks n ≤ m.totalVotingWeight := by
  rw [UInt64.le_iff_toNat_le, toNat_partialWeight]
  exact m.sum_map_exactWeight_le ((List.take_sublist n acks.ids).nodup acks.nodup_ids)

theorem partialWeight_of_size_le (m : Membership) {acks : IdSet} {n : ℕ} (h : acks.size ≤ n) :
    partialWeight m acks n = ackWeight m acks := by
  rw [partialWeight, List.take_of_length_le (by rwa [acks.length_ids]), ackWeight]

/-- Additions with a check would all succeed, and come to the same. -/
theorem sumWeights?_weights (m : Membership) (acks : IdSet) :
    sumWeights? (acks.ids.map (Policy.weight .weighted m)) = some (ackWeight m acks) := by
  have hfits : (0 : UInt64).toNat +
      ((acks.ids.map (Policy.weight .weighted m)).map UInt64.toNat).sum < UInt64.size := by
    have hexact : UInt64.toNat ∘ Policy.weight .weighted m = m.exactWeight := funext m.toNat_weight
    rw [UInt64.toNat_zero, Nat.zero_add, List.map_map, hexact]
    exact (m.sum_map_exactWeight_le acks.nodup_ids).trans_lt m.totalVotingWeight.toNat_lt_size
  rw [sumWeights?, foldlM_addWeight?_of_fits hfits, List.foldl_map, ackWeight]

/-- Ids that do not vote add nothing. -/
theorem sum_inter_voters (m : Membership) (A : Finset UInt64) :
    ∑ id ∈ A ∩ m.voters, m.exactWeight id = ∑ id ∈ A, m.exactWeight id := by
  apply Finset.sum_subset Finset.inter_subset_left
  intro id hid hnot
  apply m.exactWeight_eq_zero
  intro hvoter
  exact hnot (Finset.mem_inter.mpr ⟨hid, hvoter⟩)

theorem toNat_ackWeight_voters (m : Membership) (acks : IdSet) :
    (ackWeight m acks).toNat = ∑ id ∈ acks.support ∩ m.voters, m.exactWeight id := by
  rw [toNat_ackWeight, sum_inter_voters]

/-- The weighted rule sees nothing of a set but the exact weight of its voters. -/
theorem hasQuorum_weighted_iff (m : Membership) (acks : IdSet) :
    Policy.weighted.hasQuorum m acks = true ↔
      ∑ id ∈ m.voters, m.exactWeight id <
        2 * ∑ id ∈ acks.support ∩ m.voters, m.exactWeight id := by
  rw [Policy.hasQuorum_iff, Policy.IsQuorum, sum_inter_voters]
  omega

theorem hasQuorum_weighted_congr {m : Membership} {acks acks' : IdSet}
    (h : ∑ id ∈ acks.support, m.exactWeight id = ∑ id ∈ acks'.support, m.exactWeight id) :
    Policy.weighted.hasQuorum m acks = Policy.weighted.hasQuorum m acks' := by
  rw [Bool.eq_iff_iff, Policy.hasQuorum_iff, Policy.hasQuorum_iff, Policy.IsQuorum, Policy.IsQuorum,
    h]

/-- Whatever the set of ids, observers and strangers among them, no sum taken on the way to its
weight exceeds the total, so none wraps, and the last one is the exact weight of the voters in the
set. The weighted rule therefore compares exact weights, and neither one who does not vote nor a
voter without weight changes what it says. -/
theorem acknowledged_weight_is_exact (m : Membership) (acks : IdSet) :
    (∀ n, partialWeight m acks n ≤ m.totalVotingWeight ∧
      (partialWeight m acks n).toNat = ((acks.ids.take n).map m.exactWeight).sum ∧
      (acks.size ≤ n → partialWeight m acks n = ackWeight m acks)) ∧
    sumWeights? (acks.ids.map (Policy.weight .weighted m)) = some (ackWeight m acks) ∧
    (ackWeight m acks).toNat = ∑ id ∈ acks.support ∩ m.voters, m.exactWeight id ∧
    Policy.weighted.hasQuorum m acks =
      Policy.weighted.hasQuorum m (acks.restrict m.isVoter) ∧
    (Policy.weighted.hasQuorum m acks = true ↔ ∑ id ∈ m.voters, m.exactWeight id <
      2 * ∑ id ∈ acks.support ∩ m.voters, m.exactWeight id) ∧
    ∀ id, (∀ v, m.voting.find? id = some v → v.weight = 0) →
      Policy.weighted.hasQuorum m (acks.insert id ()) = Policy.weighted.hasQuorum m acks := by
  refine ⟨?_, m.sumWeights?_weights acks, m.toNat_ackWeight_voters acks, ?_,
    m.hasQuorum_weighted_iff acks, ?_⟩
  · intro n
    exact ⟨m.partialWeight_le acks n, m.toNat_partialWeight acks n, m.partialWeight_of_size_le⟩
  · have hvoters : (acks.restrict m.isVoter).support = acks.support ∩ m.voters := by
      rw [IdMap.support_restrict, ← Finset.filter_mem_eq_inter]
      simp only [mem_voters]
    apply hasQuorum_weighted_congr
    rw [hvoters, sum_inter_voters]
  · intro id hid
    have hzero : m.exactWeight id = 0 := by
      rw [exactWeight]
      cases hv : m.voting.find? id with
      | none => rfl
      | some v => rw [Option.elim_some, hid v hv, UInt64.toNat_zero]
    apply hasQuorum_weighted_congr
    rw [IdMap.support_insert, Finset.sum_insert_of_eq_zero_if_notMem fun _ => hzero]

/-- Three voters who have all the weight that fits between two of them, with an observer and a
stranger who acknowledge before the last of them. -/
theorem full_weight_is_exact_among_strangers :
    let m : Membership :=
      { all := IdMap.ofList ([(1, Role.participant, 1), (2, .observer, 9), (4, .participant, 0),
          (5, .participant, 18446744073709551614)].map fun (id, role, weight) =>
            (id, Member.mk id "node" 2888 3888 none role weight))
        totalVotingWeight := 18446744073709551615
        total_eq := rfl }
    let acks := IdMap.ofIds [1, 2, 3, 5]
    (acks.size ≤ 4 ∧ ∀ v, m.voting.find? 4 = some v → v.weight = 0) ∧
    (partialWeight m acks 4 = ackWeight m acks ∧ ackWeight m acks = m.totalVotingWeight ∧
      ackWeight m acks ≤ m.totalVotingWeight) ∧
    Policy.weighted.hasQuorum m (acks.insert 4 ()) = Policy.weighted.hasQuorum m acks := by
  intro m acks
  obtain ⟨hpartial, -, -, -, -, hidle⟩ := acknowledged_weight_is_exact m acks
  obtain ⟨hle, -, hlast⟩ := hpartial 4
  have hsize : acks.size ≤ 4 := by decide +kernel
  have hnothing : ∀ v, m.voting.find? 4 = some v → v.weight = 0 := by
    intro v hv
    have hfind : m.voting.find? 4 = some (Member.mk 4 "node" 2888 3888 none .participant 0) := by
      decide +kernel
    rw [← Option.some.inj (hfind.symm.trans hv)]
  exact ⟨⟨hsize, hnothing⟩, ⟨hlast hsize, by decide +kernel, hlast hsize ▸ hle⟩, hidle 4 hnothing⟩

end Membership

end Electorate
