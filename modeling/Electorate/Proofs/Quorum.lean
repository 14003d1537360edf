import Electorate.Configuration
import Electorate.Proofs.IdMap

/-! Quorums over exact sums. The decision made in 64-bit words agrees with them on every set of
voters, and any two quorums of one membership share a voter. -/
namespace Electorate
open scoped BigOperators

namespace Membership

def voters (m : Membership) : Finset UInt64 := m.voting.support

/-- The weight of a voter as an unbounded number. Other ids weigh nothing. -/
def exactWeight (m : Membership) (id : UInt64) : ℕ :=
  (m.voting.find? id).elim 0 (fun v => v.weight.toNat)

theorem mem_voters (m : Membership) {id : UInt64} : id ∈ m.voters ↔ m.isVoter id = true :=
  m.voting.mem_support

theorem exactWeight_eq_zero (m : Membership) {id : UInt64} (h : id ∉ m.voters) :
    m.exactWeight id = 0 := by
  have hn : m.voting.find? id = none := by
    rw [mem_voters, isVoter, IdMap.contains, Option.not_isSome_iff_eq_none] at h
    exact h
  rw [exactWeight, hn]
  rfl

end Membership

theorem addWeight?_eq_some {a b t : UInt64} (h : addWeight? a b = some t) :
    t.toNat = a.toNat + b.toNat := by
  unfold addWeight? at h
  split_ifs at h with hlt
  rw [← Option.some.inj h, UInt64.toNat_add, Nat.mod_eq_of_lt hlt]

theorem toNat_foldlM_addWeight? {ws : List UInt64} {a t : UInt64}
    (h : ws.foldlM addWeight? a = some t) : t.toNat = a.toNat + (ws.map UInt64.toNat).sum := by
  induction ws generalizing a with
  | nil =>
    rw [List.foldlM_nil] at h
    rw [← Option.some.inj h, List.map_nil, List.sum_nil, Nat.add_zero]
  | cons w ws ih =>
    rw [List.foldlM_cons] at h
    obtain ⟨s, hs, ht⟩ := Option.bind_eq_some_iff.mp h
    rw [ih ht, addWeight?_eq_some hs, List.map_cons, List.sum_cons, Nat.add_assoc]

/-- Where the exact sum fits in a word, the check at each addition never gives up. -/
theorem foldlM_addWeight?_of_fits {ws : List UInt64} {a : UInt64}
    (h : a.toNat + (ws.map UInt64.toNat).sum < UInt64.size) :
    ws.foldlM addWeight? a = some (ws.foldl (· + ·) a) := by
  induction ws generalizing a with
  | nil => rfl
  | cons w ws ih =>
    rw [List.map_cons, List.sum_cons, ← Nat.add_assoc] at h
    have hadd : addWeight? a w = some (a + w) := if_pos (by omega)
    rw [List.foldlM_cons, hadd]
    apply ih
    rwa [addWeight?_eq_some hadd]

/-- A sum of 64-bit words is exact if the exact sum fits. -/
theorem toNat_foldl_weights (w : UInt64 → UInt64) (ids : List UInt64) (a : UInt64)
    (h : a.toNat + (ids.map (fun id => (w id).toNat)).sum < UInt64.size) :
    (ids.foldl (fun sum id => sum + w id) a).toNat =
      a.toNat + (ids.map (fun id => (w id).toNat)).sum := by
  induction ids generalizing a with
  | nil => simp
  | cons id ids ih =>
    rw [List.map_cons, List.sum_cons, ← Nat.add_assoc] at h ⊢
    have hadd : (a + w id).toNat = a.toNat + (w id).toNat := by
      rw [UInt64.toNat_add]
      exact Nat.mod_eq_of_lt (by unfold UInt64.size at h; omega)
    rw [← hadd] at h ⊢
    exact ih (a + w id) h

namespace Membership

/-- The total is the exact sum over the voters, since no sum that wraps around is accepted. -/
theorem total_exact (m : Membership) :
    m.totalVotingWeight.toNat = ∑ id ∈ m.voters, m.exactWeight id := by
  have h := toNat_foldlM_addWeight? m.total_eq
  rw [votingWeights, List.map_map] at h
  rw [h, UInt64.toNat_zero, Nat.zero_add]
  exact m.voting.sum_values (fun v => v.weight.toNat)

/-- No set of ids, whoever is in it, outweighs all voters together. -/
theorem sum_exactWeight_le (m : Membership) (A : Finset UInt64) :
    ∑ id ∈ A, m.exactWeight id ≤ m.totalVotingWeight.toNat := by
  rw [total_exact]
  apply Finset.sum_le_sum_of_ne_zero
  intro id _ hne
  -- whoever does not vote weighs nothing
  by_contra hid
  exact hne (m.exactWeight_eq_zero hid)

theorem sum_map_exactWeight_le (m : Membership) {ids : List UInt64} (h : ids.Nodup) :
    (ids.map m.exactWeight).sum ≤ m.totalVotingWeight.toNat := by
  rw [← List.sum_toFinset m.exactWeight h]
  exact m.sum_exactWeight_le ids.toFinset

theorem toNat_weight (m : Membership) (id : UInt64) :
    (Policy.weight .weighted m id).toNat = m.exactWeight id := by
  unfold Policy.weight exactWeight
  cases m.voting.find? id <;> rfl

end Membership

/-- Each id is added once at most, so the sum of the weights never wraps, whoever the ids are. -/
theorem toNat_foldl_weight_of_nodup (m : Membership) {ids : List UInt64} (h : ids.Nodup) :
    (ids.foldl (fun sum id => sum + Policy.weight .weighted m id) 0).toNat =
      (ids.map m.exactWeight).sum := by
  have hsmall : (0 : UInt64).toNat +
      (ids.map (fun id => (Policy.weight .weighted m id).toNat)).sum < UInt64.size := by
    simp only [UInt64.toNat_zero, Nat.zero_add, m.toNat_weight]
    exact (m.sum_map_exactWeight_le h).trans_lt m.totalVotingWeight.toNat_lt_size
  rw [toNat_foldl_weights (Policy.weight .weighted m) ids 0 hsmall, UInt64.toNat_zero, Nat.zero_add]
  simp only [m.toNat_weight]

/-- Acknowledged weight is exact: nobody counts twice, and strangers weigh nothing. -/
theorem toNat_ackWeight (m : Membership) (acks : IdSet) :
    (ackWeight m acks).toNat = ∑ id ∈ acks.support, m.exactWeight id := by
  rw [ackWeight, toNat_foldl_weight_of_nodup m acks.nodup_ids, acks.sum_ids]

namespace Policy

/-- A set of voters decides if it holds more than half of the voters, or more than half of their
weight. Both are taken over numbers without bound, and the half is rounded down. -/
def IsQuorum (p : Policy) (m : Membership) (acks : Finset UInt64) : Prop :=
  match p with
  | majority => m.voters.card / 2 < acks.card
  | weighted => (∑ id ∈ m.voters, m.exactWeight id) / 2 < ∑ id ∈ acks, m.exactWeight id

instance (p : Policy) (m : Membership) (acks : Finset UInt64) : Decidable (p.IsQuorum m acks) :=
  match p with
  | majority => inferInstanceAs (Decidable (m.voters.card / 2 < acks.card))
  | weighted => inferInstanceAs
      (Decidable ((∑ id ∈ m.voters, m.exactWeight id) / 2 < ∑ id ∈ acks, m.exactWeight id))

theorem hasQuorum_iff (p : Policy) (m : Membership) (acks : IdSet) :
    p.hasQuorum m acks = true ↔ p.IsQuorum m acks.support := by
  cases p with
  | majority =>
    rw [hasQuorum, decide_eq_true_iff, IsQuorum, threshold, Membership.voters,
      IdMap.card_support, IdMap.card_support]
  | weighted =>
    rw [hasQuorum, decide_eq_true_iff, toNat_ackWeight, IsQuorum, threshold, m.total_exact]

/-- What an id adds to a set of voters: one, or its exact weight. -/
def share (p : Policy) (m : Membership) (id : UInt64) : ℕ :=
  match p with
  | majority => 1
  | weighted => m.exactWeight id

/-- Counted or weighed, a quorum holds more than half of all shares. -/
theorem isQuorum_iff_share (p : Policy) (m : Membership) (acks : Finset UInt64) :
    p.IsQuorum m acks ↔ (∑ id ∈ m.voters, p.share m id) / 2 < ∑ id ∈ acks, p.share m id := by
  cases p with
  | majority => simp [IsQuorum, share]
  | weighted => rfl

/-- Two quorums of voters cannot be disjoint, since each holds more than half of all shares. The
id they share has a share of its own, so under the weighted policy it has weight. -/
theorem IsQuorum.inter {p : Policy} {m : Membership} {A B : Finset UInt64}
    (hA : p.IsQuorum m A) (hB : p.IsQuorum m B) (hAv : A ⊆ m.voters) (hBv : B ⊆ m.voters) :
    ∃ id ∈ A ∩ B, 0 < p.share m id := by
  rw [isQuorum_iff_share] at hA hB
  by_contra hnone
  have hzero : ∑ id ∈ A ∩ B, p.share m id = 0 := by
    apply Finset.sum_eq_zero
    intro id hid
    by_contra hne
    exact hnone ⟨id, hid, Nat.pos_of_ne_zero hne⟩
  have hunion : ∑ id ∈ A ∪ B, p.share m id ≤ ∑ id ∈ m.voters, p.share m id :=
    Finset.sum_le_sum_of_subset (Finset.union_subset hAv hBv)
  have hsplit : ∑ id ∈ A ∪ B, p.share m id + ∑ id ∈ A ∩ B, p.share m id =
      ∑ id ∈ A, p.share m id + ∑ id ∈ B, p.share m id := Finset.sum_union_inter
  -- two numbers above half of the whole exceed the whole, also where the half is rounded down
  omega

/-- Shares that are all multiplied by one factor decide as before. -/
theorem isQuorum_iff_of_share_mul {p p' : Policy} {m m' : Membership} {k : ℕ} (hk : 0 < k)
    (hvoters : m'.voters = m.voters) {acks : Finset UInt64}
    (hshare : ∀ id ∈ m.voters ∪ acks, p'.share m' id = p.share m id * k) :
    p'.IsQuorum m' acks ↔ p.IsQuorum m acks := by
  have hsum (A : Finset UInt64) (hA : A ⊆ m.voters ∪ acks) :
      ∑ id ∈ A, p'.share m' id = (∑ id ∈ A, p.share m id) * k := by
    rw [Finset.sum_mul]
    apply Finset.sum_congr rfl
    intro id hid
    exact hshare id (hA hid)
  have hhalf (whole part : ℕ) : whole / 2 < part ↔ whole < 2 * part := by omega
  rw [isQuorum_iff_share, isQuorum_iff_share, hvoters, hsum m.voters Finset.subset_union_left,
    hsum acks Finset.subset_union_right]
  calc
    (∑ id ∈ m.voters, p.share m id) * k / 2 < (∑ id ∈ acks, p.share m id) * k
      ↔ (∑ id ∈ m.voters, p.share m id) * k < 2 * (∑ id ∈ acks, p.share m id) * k := by
        rw [hhalf, Nat.mul_assoc]
    _ ↔ ∑ id ∈ m.voters, p.share m id < 2 * ∑ id ∈ acks, p.share m id := Nat.mul_lt_mul_right hk
    _ ↔ (∑ id ∈ m.voters, p.share m id) / 2 < ∑ id ∈ acks, p.share m id := (hhalf _ _).symm

/-- Where all voters weigh the same, and more than nothing, weighing them is counting them. -/
theorem isQuorum_weighted_iff_of_uniform {m : Membership} {w : ℕ} (hw : 0 < w)
    (hall : ∀ id ∈ m.voters, m.exactWeight id = w) {acks : Finset UInt64}
    (hacks : acks ⊆ m.voters) :
    Policy.weighted.IsQuorum m acks ↔ Policy.majority.IsQuorum m acks := by
  apply isQuorum_iff_of_share_mul hw rfl
  intro id hid
  rw [Finset.union_eq_left.mpr hacks] at hid
  rw [share, share, hall id hid, Nat.one_mul]

end Policy

namespace Configuration

def voters (c : Configuration) : Finset UInt64 := c.membership.voters

def IsQuorum (c : Configuration) (acks : Finset UInt64) : Prop :=
  c.policy.IsQuorum c.membership acks

theorem mem_voters (c : Configuration) {id : UInt64} : id ∈ c.voters ↔ c.isVoter id = true :=
  c.membership.mem_voters

theorem hasQuorum_iff (c : Configuration) (acks : IdSet) :
    c.hasQuorum acks = true ↔ c.IsQuorum acks.support :=
  c.policy.hasQuorum_iff c.membership acks

theorem weight_pos_of_share {c : Configuration} {id : UInt64} (hp : c.policy = .weighted)
    (h : 0 < c.policy.share c.membership id) : 0 < c.weight id := by
  rw [hp, Policy.share, ← Membership.toNat_weight] at h
  rw [weight, hp]
  exact UInt64.lt_iff_toNat_lt.mpr h

theorem IsQuorum.inter {c : Configuration} {A B : Finset UInt64} (hA : c.IsQuorum A)
    (hB : c.IsQuorum B) (hAv : A ⊆ c.voters) (hBv : B ⊆ c.voters) :
    ∃ id ∈ A ∩ B, c.isVoter id = true ∧ (c.policy = .weighted → 0 < c.weight id) := by
  obtain ⟨id, hid, hpos⟩ := Policy.IsQuorum.inter hA hB hAv hBv
  have hv : id ∈ c.voters := hAv (Finset.mem_inter.mp hid).1
  exact ⟨id, hid, c.mem_voters.mp hv, fun hp => weight_pos_of_share hp hpos⟩

end Configuration

namespace Membership

/-- Three voters, the first of which weighs as much as the others together. -/
def trio : Membership where
  all := IdMap.ofList ([(1, 2), (2, 1), (3, 1)].map fun (id, weight) =>
    (id, Member.mk id "node" 2888 3888 none .participant weight))
  totalVotingWeight := 4
  total_eq := rfl

def quartet : Membership where
  all := IdMap.ofList ([1, 2, 3, 4].map fun id =>
    (id, Member.mk id "node" 2888 3888 none .participant 1))
  totalVotingWeight := 4
  total_eq := rfl

end Membership

example : Policy.weighted.IsQuorum .trio {1, 2} ∧ ¬ Policy.weighted.IsQuorum .trio {2, 3} ∧
    Policy.majority.IsQuorum .trio {2, 3} := by decide +kernel

end Electorate
