import Electorate.Configuration.Reader
import Electorate.Proofs.Membership.Construction
import Electorate.Proofs.Member.Reader

/-! What stands in a configuration that was read, whatever the text was. -/
namespace Electorate

namespace Draft

/-- The servers, each with the weight that is given for it. -/
def members (draft : Draft) : IdMap Member :=
  draft.servers.mapIds fun id m => { m with weight := (draft.weights.find? id).getD m.weight }

/-- Weights are taken over exactly if none is for a stranger. -/
theorem weighted_eq_ok_iff {draft : Draft} {members : IdMap Member} :
    draft.weighted = .ok members ↔
      (∀ id, draft.weights.contains id = true → draft.servers.contains id = true) ∧
        members = draft.members := by
  unfold weighted
  split
  · next id hfind =>
    constructor
    · intro h
      cases h
    · intro h
      -- the id that was found has a weight and no server
      have hstray := List.find?_some hfind
      rw [h.1 id (draft.weights.mem_ids.mp (List.mem_of_find?_eq_some hfind))] at hstray
      cases hstray
  · next hfind =>
    constructor
    · intro h
      refine ⟨?_, (Except.ok.inj h).symm⟩
      intro id hid
      simpa using List.find?_eq_none.mp hfind id (draft.weights.mem_ids.mpr hid)
    · intro h
      rw [h.2]
      rfl

/-- A draft makes a configuration if no weight is left over and someone votes. The total weight
must fit, which the configuration shows by itself. -/
theorem finish_eq_ok_iff {draft : Draft} {asked : Option Policy} {c : Configuration} :
    draft.finish asked = .ok c ↔
      (∀ id, draft.weights.contains id = true → draft.servers.contains id = true) ∧
        c.members = draft.members ∧ c.version = draft.version.getD 0 ∧
        c.policy = draft.policy asked ∧ ∃ id, c.isVoter id = true := by
  have hvoter (m : Membership) : m.voting.isEmpty = false ↔ ∃ id, m.isVoter id = true :=
    m.voting.isEmpty_eq_false_iff
  rw [finish, bind_eq_ok_iff]
  constructor
  · intro h
    obtain ⟨members, hweighted, h⟩ := h
    obtain ⟨membership, hof, hvotes⟩ := bind_eq_ok_iff.mp h
    obtain ⟨hstray, rfl⟩ := weighted_eq_ok_iff.mp hweighted
    split_ifs at hvotes with hempty
    obtain rfl := Except.ok.inj hvotes
    exact ⟨hstray, Membership.ofMap_eq_ok_iff.mp hof, rfl, rfl,
      (hvoter membership).mp (Bool.eq_false_of_not_eq_true hempty)⟩
  · intro h
    obtain ⟨hstray, hmembers, hversion, hpolicy, hvotes⟩ := h
    refine ⟨draft.members, weighted_eq_ok_iff.mpr ⟨hstray, rfl⟩, bind_eq_ok_iff.mpr
      ⟨c.membership, Membership.ofMap_eq_ok_iff.mpr hmembers, ?_⟩⟩
    rw [(hvoter c.membership).mpr hvotes, ← hversion, ← hpolicy]
    rfl

/-- Every server of the draft was read from a piece of one line. -/
def Sound (draft : Draft) : Prop :=
  ∀ id m, draft.servers.find? id = some m → ∃ s, '\n' ∉ s ∧ Member.read id s = .ok m

theorem sound_addServer {draft draft' : Draft} {n : Nat} {id value : List Char}
    (hvalue : '\n' ∉ value) (hs : Sound draft) (h : draft.addServer n id value = .ok draft') :
    Sound draft' := by
  obtain ⟨key, -, h⟩ := bind_eq_ok_iff.mp h
  obtain ⟨member, hread, h⟩ := bind_eq_ok_iff.mp h
  split_ifs at h
  obtain rfl := Except.ok.inj h
  intro k m hm
  rw [IdMap.find?_insert] at hm
  split_ifs at hm with hk
  · rw [hk, ← Option.some.inj hm]
    exact ⟨value, hvalue, eq_ok_of_mapError hread⟩
  · exact hs k m hm

theorem servers_of_addWeight {draft draft' : Draft} {n : Nat} {id value : List Char}
    (h : draft.addWeight n id value = .ok draft') : draft'.servers = draft.servers := by
  obtain ⟨key, -, h⟩ := bind_eq_ok_iff.mp h
  split at h
  · cases h
  · split_ifs at h
    rw [← Except.ok.inj h]

theorem servers_of_addVersion {draft draft' : Draft} {value : List Char}
    (h : draft.addVersion value = .ok draft') : draft'.servers = draft.servers := by
  unfold addVersion at h
  split at h
  · cases h
  · split at h
    · cases h
    · rw [← Except.ok.inj h]

theorem sound_addLine {draft draft' : Draft} {line : List Char × Nat} (hline : '\n' ∉ line.1)
    (hs : Sound draft) (h : draft.addLine line = .ok draft') : Sound draft' := by
  unfold addLine addEntry at h
  simp only at h
  split_ifs at h
  · rw [← Except.ok.inj h]
    exact hs
  · split at h
    · cases h
    · next left right hsplit =>
      have hright : '\n' ∉ trim right := by
        intro hm
        apply hline
        apply mem_of_mem_trim
        rw [(splitFirst?_eq_some hsplit).1]
        exact List.mem_append_right _ (List.mem_cons_of_mem _ (mem_of_mem_trim hm))
      split at h
      · exact sound_addServer hright hs h
      · rw [Sound, servers_of_addWeight h]
        exact hs
      · rw [Sound, servers_of_addVersion h]
        exact hs
      · cases h

/-- Every server in the draft of a text was read from one of its lines. -/
theorem sound_ofLines {text : List Char} {draft : Draft} (h : ofLines text = .ok draft) :
    Sound draft := by
  refine of_foldlM_eq_ok (P := Sound) ?_ ?_ h
  · intro d line d' hline hs hadd
    apply sound_addLine _ hs hadd
    exact not_mem_of_mem_splitOn (List.fst_mem_of_mem_zipIdx hline)
  · intro id m hm
    cases hm

end Draft

namespace Configuration

theorem parse_eq_ok_iff {text : String} {asked : Option Policy} {c : Configuration} :
    parse text asked = .ok c ↔
      ∃ draft, Draft.ofLines text.toList = .ok draft ∧ draft.finish asked = .ok c := bind_eq_ok_iff

/-- Every member of a configuration that was read is what one line gave, but for its weight. -/
theorem exists_read_of_parse {text : String} {asked : Option Policy} {c : Configuration}
    (h : parse text asked = .ok c) {id : UInt64} {m : Member} (hm : c.members.find? id = some m) :
    ∃ s m₀ w, '\n' ∉ s ∧ Member.read id s = .ok m₀ ∧ m = { m₀ with weight := w } := by
  obtain ⟨draft, hlines, hfinish⟩ := parse_eq_ok_iff.mp h
  obtain ⟨-, hmembers, -⟩ := Draft.finish_eq_ok_iff.mp hfinish
  rw [hmembers, Draft.members, IdMap.find?_mapIds] at hm
  obtain ⟨m₀, hfind, hm⟩ := Option.map_eq_some_iff.mp hm
  obtain ⟨s, hs, hread⟩ := Draft.sound_ofLines hlines id m₀ hfind
  exact ⟨s, m₀, _, hs, hread, hm.symm⟩

theorem lined_of_parse {text : String} {asked : Option Policy} {c : Configuration}
    (h : parse text asked = .ok c) {id : UInt64} {m : Member} (hm : c.members.find? id = some m) :
    m.Lined := by
  obtain ⟨s, m₀, w, -, hread, rfl⟩ := exists_read_of_parse h hm
  have hlined := Member.lined_of_read hread
  exact ⟨hlined.id, hlined.peerPort, hlined.electionPort, hlined.semicolon, hlined.bracket,
    hlined.client⟩

theorem id_of_parse {text : String} {asked : Option Policy} {c : Configuration}
    (h : parse text asked = .ok c) {id : UInt64} {m : Member} (hm : c.members.find? id = some m) :
    m.id = id := by
  obtain ⟨s, m₀, w, -, hread, rfl⟩ := exists_read_of_parse h hm
  have hid := Member.id_of_read hread
  exact hid

theorem oneLine_of_parse {text : String} {asked : Option Policy} {c : Configuration}
    (h : parse text asked = .ok c) {id : UInt64} {m : Member} (hm : c.members.find? id = some m) :
    m.OneLine := by
  obtain ⟨s, m₀, w, hs, hread, rfl⟩ := exists_read_of_parse h hm
  have honeLine := Member.oneLine_of_read hs hread
  exact ⟨honeLine.1, honeLine.2⟩

/-- Somebody votes in every parsed configuration. -/
theorem exists_voter_of_parse {text : String} {asked : Option Policy} {c : Configuration}
    (h : parse text asked = .ok c) : ∃ id, c.isVoter id = true := by
  obtain ⟨draft, -, hfinish⟩ := parse_eq_ok_iff.mp h
  obtain ⟨-, -, -, -, hvoter⟩ := Draft.finish_eq_ok_iff.mp hfinish
  exact hvoter

/-- A text that is left to choose chooses the majority policy only where it gives no weight. -/
theorem weight_of_parse_majority {text : String} {c : Configuration} (h : parse text = .ok c)
    (hp : c.policy = .majority) {id : UInt64} {m : Member} (hm : c.members.find? id = some m) :
    m.weight = 1 := by
  obtain ⟨draft, hlines, hfinish⟩ := parse_eq_ok_iff.mp h
  obtain ⟨-, hmembers, -, hpolicy, -⟩ := Draft.finish_eq_ok_iff.mp hfinish
  -- a single weight anywhere would have selected the other policy
  have hnone : draft.weights.find? id = none := by
    by_contra hsome
    have hfalse : draft.weights.isEmpty = false :=
      draft.weights.isEmpty_eq_false_iff.mpr ⟨id, Option.isSome_iff_ne_none.mpr hsome⟩
    rw [hp, Draft.policy, hfalse] at hpolicy
    cases hpolicy
  rw [hmembers, Draft.members, IdMap.find?_mapIds] at hm
  obtain ⟨m₀, hfind, hm⟩ := Option.map_eq_some_iff.mp hm
  obtain ⟨s, -, hread⟩ := Draft.sound_ofLines hlines id m₀ hfind
  rw [← hm, hnone]
  exact Member.weight_of_read hread

end Configuration

end Electorate
