import Electorate.Proofs.Configuration.Reload
import Electorate.Proofs.Quorum

/-! A configuration decides as before when it has been written and read again, whatever weights the
text leaves out. -/
namespace Electorate

/-- A member as a text carries it. -/
def Policy.carried (p : Policy) (m : Member) : Member := { m with weight := p.writtenWeight m }

theorem Policy.carried_weighted {m : Member} (h : m.isParticipant = true) :
    Policy.carried .weighted m = m := by
  rw [carried, writtenWeight, if_pos ⟨rfl, h⟩]

/-- Carrying members over leaves every voter a voter. -/
theorem filter_carried (p : Policy) (members : IdMap Member) :
    (members.mapIds fun _ m => p.carried m).filter Member.isParticipant =
      (members.filter Member.isParticipant).mapIds fun _ m => p.carried m :=
  members.filter_mapIds _ _ fun _ _ => rfl

theorem filter_carried_weighted (members : IdMap Member) :
    (members.mapIds fun _ m => Policy.carried .weighted m).filter Member.isParticipant =
      members.filter Member.isParticipant := by
  rw [filter_carried]
  apply IdMap.mapIds_eq_self
  intro id m hm
  exact Policy.carried_weighted (members.find?_filter_eq_some_iff.mp hm).2

theorem voting_carried_weighted {m m' : Membership}
    (h : m'.all = m.all.mapIds fun _ x => Policy.carried .weighted x) : m'.voting = m.voting := by
  rw [Membership.voting, h, filter_carried_weighted]
  rfl

/-- What a text carries of a membership has a total weight again. Under the majority policy every
voter counts for one, and there are fewer voters than ids. -/
theorem exists_carried (p : Policy) (m : Membership) (hzero : m.all.contains 0 = false) :
    ∃ m' : Membership, m'.all = m.all.mapIds fun _ x => p.carried x := by
  suffices htotal :
      ∃ t, sumWeights? (votingWeights (m.all.mapIds fun _ x => p.carried x)) = some t by
    obtain ⟨t, ht⟩ := htotal
    exact ⟨⟨_, t, ht⟩, rfl⟩
  cases p with
  | weighted =>
    -- voters keep their weights, so the sum is the one that is known to fit
    rw [votingWeights, filter_carried_weighted]
    exact ⟨m.totalVotingWeight, m.total_eq⟩
  | majority =>
    refine ⟨_, foldlM_addWeight?_of_fits ?_⟩
    have hone : (votingWeights (m.all.mapIds fun _ x => Policy.carried .majority x)).map
        UInt64.toNat = List.replicate m.voting.size 1 := by
      rw [votingWeights, filter_carried, IdMap.values_mapIds, List.map_map, List.map_map]
      apply List.eq_replicate_iff.mpr
      constructor
      · rw [List.length_map, IdMap.toList, List.length_reverse]
        rfl
      · intro w hw
        obtain ⟨e, -, rfl⟩ := List.mem_map.mp hw
        rfl
    have hvoting : m.voting.contains 0 = false := by
      apply Bool.eq_false_of_not_eq_true
      intro h
      rw [m.all.contains_of_contains_filter h] at hzero
      cases hzero
    rw [hone, List.sum_replicate, smul_eq_mul, mul_one, UInt64.toNat_zero, zero_add]
    exact m.voting.size_lt_of_not_contains_zero hvoting

/-- Under the weighted policy only the voters and their weights are asked for. -/
theorem hasQuorum_congr {m m' : Membership} (h : m'.voting = m.voting) (acks : IdSet) :
    Policy.hasQuorum .weighted m' acks = Policy.hasQuorum .weighted m acks := by
  have htotal : m'.totalVotingWeight = m.totalVotingWeight := by
    have hweights : votingWeights m'.all = votingWeights m.all :=
      congrArg (fun voting => voting.values.map Member.weight) h
    have hsum := m'.total_eq
    rw [hweights, m.total_eq] at hsum
    exact (Option.some.inj hsum).symm
  have hweight : Policy.weight .weighted m' = Policy.weight .weighted m := by
    funext id
    rw [Policy.weight, Policy.weight, h]
  rw [Policy.hasQuorum, Policy.hasQuorum, Policy.threshold, Policy.threshold, ackWeight, ackWeight,
    htotal, hweight]

/-- What the text carries of the members is all that its decisions depend on. -/
theorem hasQuorum_carried {p : Policy} {m m' : Membership}
    (h : m'.all = m.all.mapIds fun _ x => p.carried x) (acks : IdSet) :
    p.hasQuorum m' acks = p.hasQuorum m acks := by
  cases p with
  | majority =>
    have hsize : m'.voting.size = m.voting.size := by
      rw [Membership.voting, h, filter_carried, IdMap.size_mapIds]
      rfl
    rw [Policy.hasQuorum, Policy.hasQuorum, Policy.threshold, Policy.threshold, hsize]
  | weighted => exact hasQuorum_congr (voting_carried_weighted h) acks

namespace Configuration

/-- What a text leaves out is not missed when it is written again. -/
theorem text_carried {c c' : Configuration} (hversion : c'.version = c.version)
    (hpolicy : c'.policy = c.policy)
    (hmembers : c'.members = c.members.mapIds fun _ m => c.policy.carried m) :
    c'.text = c.text := by
  have hservers : c'.members.values.map serverLine = c.members.values.map serverLine := by
    rw [hmembers, IdMap.values_mapIds, IdMap.values, List.map_map, List.map_map]
    rfl
  have hlines : c'.lines = c.lines := by
    rw [lines, lines, hservers, hversion, hpolicy]
    cases hp : c.policy with
    | majority => rfl
    | weighted =>
      rw [hp] at hmembers
      have hvoting : c'.voting = c.voting := voting_carried_weighted hmembers
      rw [hvoting]
  rw [text, text, hlines]

/-- A configuration made from a list of members or from a text, under any version. -/
inductive Made : Configuration → Prop where
  | ofMembers {version : UInt64} {policy : Policy} {members : List Member} {c : Configuration} :
      Configuration.ofMembers version policy members = .ok c → Made c
  | parse {text : String} {asked : Option Policy} {c : Configuration} :
      Configuration.parse text asked = .ok c → Made c
  | stamp {c : Configuration} (version : UInt64) : Made c → Made (c.stamp version)

theorem Made.id_eq {c : Configuration} (h : Made c) {id : UInt64} {m : Member}
    (hm : c.members.find? id = some m) : m.id = id := by
  induction h with
  | ofMembers hc =>
    obtain ⟨membership, hof, rfl⟩ := exists_of_map_eq_ok hc
    exact Membership.id_of_ofList hof hm
  | parse hc => exact id_of_parse hc hm
  | stamp version _ ih => exact ih hm

/-- Whoever made it, a configuration whose members can be written on one line each and read back is
read back from its text. It has the version and the policy that it had and the weights that count,
so it decides the same of every set of acknowledgments and is written the same. -/
theorem decisions_survive_text {c : Configuration} (hmade : Made c)
    (hvoter : ∃ id, c.isVoter id = true)
    (hlines : ∀ id m, c.members.find? id = some m → m.OneLine)
    (hreads : ∀ id m, c.members.find? id = some m →
      Member.parse m.id ({ m with weight := 1 } : Member).text = .ok { m with weight := 1 }) :
    ∃ c', parse c.text = .ok c' ∧ c'.version = c.version ∧ c'.policy = c.policy ∧
      (c'.members = c.members.mapIds fun _ m => { m with weight :=
        if c.policy = .weighted ∧ m.isParticipant = true then m.weight else 1 }) ∧
      (∀ acks, c'.hasQuorum acks = c.hasQuorum acks) ∧ c'.text = c.text := by
  have hread : ∀ id m, c.members.find? id = some m →
      Member.read m.id m.spec = .ok { m with weight := 1 } := by
    intro id m hm
    have hspec := eq_ok_of_mapError (hreads id m hm)
    rwa [Member.text, String.toList_ofList] at hspec
  -- id zero is refused, so nobody stands under it
  have hzero : c.members.contains 0 = false := by
    apply Bool.eq_false_of_not_eq_true
    intro h
    obtain ⟨m, hm⟩ := Option.isSome_iff_exists.mp h
    exact Member.id_ne_zero_of_read (hread 0 m hm) (hmade.id_eq hm)
  obtain ⟨m', hm'⟩ := exists_carried c.policy c.membership hzero
  have htext : text ⟨c.version, c.policy, m'⟩ = c.text := text_carried rfl rfl hm'
  refine ⟨⟨c.version, c.policy, m'⟩, ?_, rfl, rfl, hm', hasQuorum_carried hm', htext⟩
  rw [parse_text_iff ⟨fun _ _ hm => hmade.id_eq hm, hlines⟩ hvoter]
  refine ⟨?_, rfl, rfl, ?_, ?_⟩
  · intro id m hm
    rw [Member.reread_eq (hread id m hm)]
    exact hread id m hm
  · rw [members, hm']
    apply IdMap.eq_of_find?
    intro id
    rw [IdMap.find?_mapIds, IdMap.find?_mapIds]
    apply Option.map_congr
    intro m hm
    rw [Member.reread_eq (hread id m hm)]
    rfl
  · obtain ⟨id, hid⟩ := hvoter
    refine ⟨id, ?_⟩
    rw [isVoter, Membership.isVoter, Membership.voting, hm', filter_carried, IdMap.contains_mapIds]
    exact hid

/-- Weights on all members, none of which counts under the majority policy. -/
def uneven : Configuration where
  version := 0
  policy := .majority
  membership :=
    { all := IdMap.ofList [(4, Member.mk 4 "fe80::4" 1 2 (some "[::]:2181") .participant 6),
        (5, Member.mk 5 "e" 1 2 none .participant 0), (6, Member.mk 6 "f" 1 2 none .observer 9)]
      totalVotingWeight := 6
      total_eq := rfl }

/-- Under the majority policy the weights are not written, and no decision changes for it. -/
theorem uneven_decides_as_before :
    Made (uneven.stamp 31) ∧ ∃ c', parse (uneven.stamp 31).text = .ok c' ∧ c'.version = 31 ∧
      c'.policy = .majority ∧ c'.members.values.map Member.weight = [1, 1, 1] ∧
      (∀ acks, c'.hasQuorum acks = (uneven.stamp 31).hasQuorum acks) ∧
      c'.text = (uneven.stamp 31).text := by
  have hof : ofMembers 0 .majority [Member.mk 5 "e" 1 2 none .participant 0,
      Member.mk 4 "fe80::4" 1 2 (some "[::]:2181") .participant 6,
      Member.mk 6 "f" 1 2 none .observer 9] = .ok uneven := by
    decide +kernel
  have hmade : Made (uneven.stamp 31) := Made.stamp 31 (Made.ofMembers hof)
  have hvalues : (uneven.stamp 31).members.values =
      [Member.mk 4 "fe80::4" 1 2 (some "[::]:2181") .participant 6,
        Member.mk 5 "e" 1 2 none .participant 0, Member.mk 6 "f" 1 2 none .observer 9] := by
    decide +kernel
  have hlines : ∀ m ∈ (uneven.stamp 31).members.values, m.OneLine := by
    rw [hvalues]
    simp [Member.OneLine]
  have hreads : ∀ m ∈ (uneven.stamp 31).members.values,
      Member.parse m.id ({ m with weight := 1 } : Member).text = .ok { m with weight := 1 } := by
    rw [hvalues]
    decide +kernel
  have hmem (id : UInt64) (m : Member) (hm : (uneven.stamp 31).members.find? id = some m) :
      m ∈ (uneven.stamp 31).members.values := (IdMap.mem_values _).mpr ⟨id, hm⟩
  obtain ⟨c', hparse, hversion, hpolicy, hmembers, hquorum, htext⟩ :=
    decisions_survive_text hmade ⟨4, by decide +kernel⟩
      (fun id m hm => hlines m (hmem id m hm))
      (fun id m hm => hreads m (hmem id m hm))
  refine ⟨hmade, c', hparse, hversion, hpolicy, ?_, hquorum, htext⟩
  rw [hmembers]
  decide +kernel

end Configuration

end Electorate
