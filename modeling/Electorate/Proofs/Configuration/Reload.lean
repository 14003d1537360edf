import Electorate.Proofs.Configuration.Draft
import Electorate.Proofs.Configuration.Lines

/-! What a configuration is when it is read from its own text. -/
namespace Electorate

/-- The weight with which a member is found in a text. Only voters of the weighted policy have a
line for theirs. -/
def Policy.writtenWeight (p : Policy) (m : Member) : UInt64 :=
  if p = .weighted ∧ m.isParticipant = true then m.weight else 1

namespace Configuration

/-- Weights are written for the voters of a weighted configuration and for nobody else. -/
theorem find?_writtenWeights {c : Configuration} {id : UInt64} {m : Member}
    (hm : c.members.find? id = some m) : c.writtenWeights.find? id =
      if c.policy = .weighted ∧ m.isParticipant = true then some m.weight else none := by
  have hvoting : c.voting.find? id = if m.isParticipant = true then some m else none := by
    rw [voting, Membership.voting, IdMap.find?_filter]
    have hall : c.membership.all.find? id = some m := hm
    rw [hall, Option.filter_some]
  rw [writtenWeights]
  cases c.policy with
  | majority => rfl
  | weighted =>
    simp only [IdMap.find?_mapIds, hvoting]
    split_ifs <;> simp_all

/-- No weight line is left without its server line. -/
theorem servers_writtenDraft {c : Configuration} (id : UInt64)
    (h : c.writtenDraft.weights.contains id = true) :
    c.writtenDraft.servers.contains id = true := by
  rw [writtenDraft, IdMap.contains_mapIds]
  rw [writtenDraft, writtenWeights] at h
  cases hp : c.policy with
  | majority =>
    rw [hp] at h
    cases h
  | weighted =>
    rw [hp] at h
    simp only [IdMap.contains_mapIds] at h
    exact c.members.contains_of_contains_filter h

/-- The text makes the reader choose the policy that it was written under. -/
theorem policy_writtenDraft {c : Configuration} (hvoter : ∃ id, c.isVoter id = true) :
    c.writtenDraft.policy none = c.policy := by
  rw [Draft.policy, Option.getD_none, writtenDraft, writtenWeights]
  cases c.policy with
  | majority => rfl
  | weighted =>
    obtain ⟨id, hid⟩ := hvoter
    have hfalse : (c.voting.mapIds fun _ m => m.weight).isEmpty = false := by
      rw [IdMap.isEmpty_eq_false_iff]
      exact ⟨id, by rwa [IdMap.contains_mapIds]⟩
    simp only [hfalse]
    rfl

theorem members_writtenDraft {c : Configuration}
    (hread : ∀ id m, c.members.find? id = some m → Member.read m.id m.spec = .ok m.reread) :
    c.writtenDraft.members = c.members.mapIds fun _ m =>
      { m.reread with weight := c.policy.writtenWeight m } := by
  apply IdMap.eq_of_find?
  intro id
  simp only [Draft.members, writtenDraft, IdMap.find?_mapIds, Option.map_map]
  apply Option.map_congr
  intro m hm
  simp only [Function.comp_apply, find?_writtenWeights hm, Member.weight_of_read (hread id m hm)]
  rw [Policy.writtenWeight]
  split_ifs <;> rfl

/-- A text is read back if its server lines are, and with what they and the weight lines give. -/
theorem parse_text_iff {c c' : Configuration} (hw : c.Writable)
    (hvoter : ∃ id, c.isVoter id = true) : parse c.text = .ok c' ↔
      (∀ id m, c.members.find? id = some m → Member.read m.id m.spec = .ok m.reread) ∧
        c'.version = c.version ∧ c'.policy = c.policy ∧
        (c'.members = c.members.mapIds fun _ m =>
          { m.reread with weight := c.policy.writtenWeight m }) ∧
        ∃ id, c'.isVoter id = true := by
  rw [parse_eq_ok_iff]
  constructor
  · intro h
    obtain ⟨draft, hlines, hfinish⟩ := h
    obtain ⟨hread, rfl⟩ := (Draft.ofLines_text hw).mp hlines
    rw [Draft.finish_eq_ok_iff, members_writtenDraft hread, policy_writtenDraft hvoter] at hfinish
    obtain ⟨-, hmembers, hversion, hpolicy, hvotes⟩ := hfinish
    exact ⟨hread, hversion, hpolicy, hmembers, hvotes⟩
  · intro h
    obtain ⟨hread, hversion, hpolicy, hmembers, hvotes⟩ := h
    refine ⟨c.writtenDraft, (Draft.ofLines_text hw).mpr ⟨hread, rfl⟩, ?_⟩
    rw [Draft.finish_eq_ok_iff, members_writtenDraft hread, policy_writtenDraft hvoter]
    exact ⟨servers_writtenDraft, hmembers, hversion, hpolicy, hvotes⟩

theorem writable_of_parse {text : String} {asked : Option Policy} {c : Configuration}
    (h : parse text asked = .ok c) : c.Writable :=
  ⟨fun _ _ hm => id_of_parse h hm, fun _ _ hm => oneLine_of_parse h hm⟩

/-- A member is found as it was if its line keeps it and the weight beside it is its own. -/
theorem reread_with_weight_iff {m : Member} (hm : m.Lined) (w : UInt64) :
    (Member.read m.id m.spec = .ok m.reread ∧ { m.reread with weight := w } = m) ↔
      m.Rereads ∧ w = m.weight := by
  constructor
  · intro h
    obtain ⟨hread, hsame⟩ := h
    -- no line gives a weight, so what is read back alone has weight one
    have hreset := congrArg (fun x : Member => { x with weight := 1 }) hsame
    have hone : ({ m.reread with weight := 1 } : Member) = m.reread := by
      rw [← Member.weight_of_read hread]
    have hreread : m.reread = { m with weight := 1 } := hone.symm.trans hreset
    rw [hreread] at hread
    exact ⟨(Member.read_spec_iff hm).mp hread, congrArg Member.weight hsame⟩
  · intro h
    obtain ⟨hrereads, rfl⟩ := h
    have hread := (Member.read_spec_iff hm).mpr hrereads
    rw [Member.reread_eq hread]
    exact ⟨hread, rfl⟩

/-- Where the text chose the policy, only an observer can have a weight that is not written. -/
theorem writtenWeight_eq_iff {text : String} {c : Configuration} (h : parse text = .ok c)
    {id : UInt64} {m : Member} (hm : c.members.find? id = some m) :
    c.policy.writtenWeight m = m.weight ↔ (m.role = .observer → m.weight = 1) := by
  rw [Policy.writtenWeight]
  cases hrole : m.role with
  | observer =>
    rw [if_neg (by simp [Member.isParticipant, hrole])]
    simp [eq_comm]
  | participant =>
    have hvotes : m.isParticipant = true := by rw [Member.isParticipant, hrole]; rfl
    cases hp : c.policy with
    | majority => simp [weight_of_parse_majority h hp hm]
    | weighted => simp [hvotes]

/-- A configuration that was read from a text comes back from its own text, version, policy and
members, if no line loses part of a host or of an address for clients, and no observer has a weight
that its own line does not show. Otherwise it is refused or comes back with other members. -/
theorem reloads_iff_lines_keep_members {text : String} {c : Configuration}
    (h : parse text = .ok c) : parse c.text = .ok c ↔
      ∀ id m, c.members.find? id = some m →
        m.Rereads ∧ (m.role = .observer → m.weight = 1) := by
  rw [parse_text_iff (writable_of_parse h) (exists_voter_of_parse h)]
  constructor
  · intro hreload id m hm
    obtain ⟨hread, -, -, hmembers, -⟩ := hreload
    have hfind := congrArg (IdMap.find? · id) hmembers
    simp only [IdMap.find?_mapIds, hm, Option.map_some, Option.some.injEq] at hfind
    obtain ⟨hrereads, hweight⟩ :=
      (reread_with_weight_iff (lined_of_parse h hm) _).mp ⟨hread id m hm, hfind.symm⟩
    exact ⟨hrereads, (writtenWeight_eq_iff h hm).mp hweight⟩
  · intro hkeep
    have hmember : ∀ id m, c.members.find? id = some m →
        Member.read m.id m.spec = .ok m.reread ∧
          { m.reread with weight := c.policy.writtenWeight m } = m := by
      intro id m hm
      obtain ⟨hrereads, hobserver⟩ := hkeep id m hm
      exact (reread_with_weight_iff (lined_of_parse h hm) _).mpr
        ⟨hrereads, (writtenWeight_eq_iff h hm).mpr hobserver⟩
    refine ⟨fun id m hm => (hmember id m hm).1, rfl, rfl, ?_, exists_voter_of_parse h⟩
    exact (IdMap.mapIds_eq_self fun id m hm => (hmember id m hm).2).symm

/-- Two voters, one of them heavier, and an observer. -/
def mixedText : String :=
  "server.2=b:1:2\nserver.1=[::1]:1:2;2181\nserver.3=c:1:2:observer\nweight.1=3\nversion=2a"

def mixed : Configuration where
  version := 42
  policy := .weighted
  membership :=
    { all := IdMap.ofList [(1, Member.mk 1 "::1" 1 2 (some "0.0.0.0:2181") .participant 3),
        (2, Member.mk 2 "b" 1 2 none .participant 1), (3, Member.mk 3 "c" 1 2 none .observer 1)]
      totalVotingWeight := 4
      total_eq := rfl }

/-- Weights of voters, an observer and a host in brackets are all read back. -/
theorem mixed_reloads :
    parse mixedText = .ok mixed ∧ parse mixed.text = .ok mixed := by
  have hparse : parse mixedText = .ok mixed := by decide +kernel
  have hvalues : mixed.members.values =
      [Member.mk 1 "::1" 1 2 (some "0.0.0.0:2181") .participant 3,
        Member.mk 2 "b" 1 2 none .participant 1, Member.mk 3 "c" 1 2 none .observer 1] := by
    decide +kernel
  have hkeep : ∀ m ∈ mixed.members.values,
      m.Rereads ∧ (m.role = .observer → m.weight = 1) := by
    rw [hvalues]
    simp [Member.rereads_iff, isBlank, blanks]
  refine ⟨hparse, (reloads_iff_lines_keep_members hparse).mpr ?_⟩
  intro id m hm
  exact hkeep m (mixed.members.mem_values.mpr ⟨id, hm⟩)

/-- An observer with a weight of its own, which no line of the text gives. -/
def heavyObserver : Configuration where
  version := 0
  policy := .weighted
  membership :=
    { all := IdMap.ofList [(1, Member.mk 1 "a" 1 2 none .participant 1),
        (2, Member.mk 2 "b" 1 2 none .observer 5)]
      totalVotingWeight := 1
      total_eq := rfl }

/-- What it is read back as. -/
def lightObserver : Configuration where
  version := 0
  policy := .weighted
  membership :=
    { all := IdMap.ofList [(1, Member.mk 1 "a" 1 2 none .participant 1),
        (2, Member.mk 2 "b" 1 2 none .observer 1)]
      totalVotingWeight := 1
      total_eq := rfl }

/-- A host that is empty between its brackets, which are not written again. -/
def hostless : Configuration where
  version := 0
  policy := .majority
  membership :=
    { all := IdMap.ofList [(1, Member.mk 1 "" 1 2 none .participant 1)]
      totalVotingWeight := 1
      total_eq := rfl }

/-- The weight of an observer is lost on the way, and an empty host is written as nothing, which is
not read. -/
theorem heavy_observer_and_hostless_do_not_reload :
    (parse "server.1=a:1:2\nserver.2=b:1:2:observer\nweight.2=5" = .ok heavyObserver ∧
      parse heavyObserver.text = .ok lightObserver ∧
      lightObserver.members ≠ heavyObserver.members) ∧
    parse "server.1=[]:1:2" = .ok hostless ∧
      parse hostless.text = .error (.serverSpec 1 .emptyHost) := by
  refine ⟨⟨?_, ?_, ?_⟩, ?_, ?_⟩ <;> decide +kernel

end Configuration

end Electorate
