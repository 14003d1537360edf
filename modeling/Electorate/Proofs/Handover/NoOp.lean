import Electorate.Proofs.Handover.Step
import Electorate.Proofs.Membership.Policies
import Electorate.Proofs.Text.Numeral
import Electorate.Proofs.Text.Trim

/-! Which proposals are turned down as changing nothing, and what it would change to install
them. -/
namespace Electorate

namespace Configuration

theorem sameAs_iff_of_version_ne {a b : Configuration} (h : a.version ≠ b.version) :
    a.sameAs b = true ↔ a.members = b.members := by
  rw [sameAs, Bool.or_eq_true, beq_iff_eq, beq_iff_eq]
  exact or_iff_right h

end Configuration

namespace Handover

/-- The error for a proposal that counts as the same as what is committed. -/
def noOp (c : Configuration) : Error :=
  .refused (Refusal.mk .badArguments (some (versionTag c.version ++ " is a no-op")) none)

/-- The error for a version that is not above the committed one. -/
def notFollowing (version committed : UInt64) : Error :=
  .refused (Refusal.mk .badArguments
    (some (versionTag version ++ " does not follow " ++ versionTag committed)) none)

theorem blank_not_mem_versionTag (version : UInt64) : ' ' ∉ (versionTag version).toList := by
  have hdigits : ∀ x ∈ hexadecimal version.toNat, x ≠ ' ' :=
    forall_mem_hexadecimal (by decide) version.toNat
  rw [versionTag, String.toList_ofList, List.mem_cons, not_or]
  refine ⟨by decide, ?_⟩
  intro hmem
  exact hdigits ' ' hmem rfl

/-- The two errors carry one code and are told apart by their texts. -/
theorem noOp_ne_notFollowing (c : Configuration) (version committed : UInt64) :
    notFollowing version committed ≠ noOp c := by
  intro h
  have htext : versionTag version ++ " does not follow " ++ versionTag committed =
      versionTag c.version ++ " is a no-op" := by
    simpa [notFollowing, noOp] using h
  have hchars : (versionTag version).toList ++ ' ' :: ("does not follow ".toList ++
      (versionTag committed).toList) =
        (versionTag c.version).toList ++ ' ' :: "is a no-op".toList := by
    have hlists := congrArg String.toList htext
    rw [String.append_assoc, String.toList_append, String.toList_append,
      String.toList_append] at hlists
    exact hlists
  -- both tags end at the first blank, and the words after it differ
  have hwords := (eq_of_append_cons (blank_not_mem_versionTag version)
    (blank_not_mem_versionTag c.version) hchars).2
  have hfirst : 'd' = 'i' := (List.cons.inj hwords).1
  exact absurd hfirst (by decide)

/-- How a proposal is answered that the state of the handover does not rule out. Whether it changes
anything is asked before its version. -/
theorem answer_of_idle {h : Handover} {base : Option UInt64} {c : Configuration}
    {version : UInt64} (he : h.enabled = true) (hp : h.proposed? = none)
    (hb : ∀ b, base = some b → b = h.committed.version) :
    (h.propose base c version).2 =
      if c.sameAs h.committed = true then .error (noOp c)
      else if version ≤ h.committed.version then
        .error (notFollowing version h.committed.version)
      else .ok (c.stamp version) := by
  have hpending : h.pending = none := Option.map_eq_none_iff.mp hp
  have hbase : base.filter (· != h.committed.version) = none := by
    simpa [Option.filter_eq_none_iff] using hb
  have hrefusal : h.refusal? base c version =
      if c.sameAs h.committed = true then
        some (Refusal.mk .badArguments (some (versionTag c.version ++ " is a no-op")) none)
      else if version ≤ h.committed.version then
        some (Refusal.mk .badArguments (some (versionTag version ++ " does not follow " ++
          versionTag h.committed.version)) none)
      else none := by
    simp [refusal?, he, hpending, hbase]
  rw [propose, hrefusal]
  split_ifs <;> rfl

/-- A proposal under another version than the committed one is turned down as a no-op just when it
has the committed members. It would then decide every set of voters as the committed configuration
does if both go by one policy or weights make no difference, as where all voters weigh the same;
otherwise it would not, and the change of policy is refused all the same. -/
theorem noop_rejections_keep_members {h : Handover} {base : Option UInt64} {c : Configuration}
    {version : UInt64} (he : h.enabled = true) (hp : h.proposed? = none)
    (hb : ∀ b, base = some b → b = h.committed.version)
    (hv : c.version ≠ h.committed.version) :
    ((h.propose base c version).2 = .error (noOp c) ↔ c.members = h.committed.members) ∧
    ((h.propose base c version).2 = .error (noOp c) →
      (∀ id, c.isVoter id = h.committed.isVoter id ∧
        c.membership.exactWeight id = h.committed.membership.exactWeight id) ∧
      (c.DecidesAs h.committed ↔
        c.policy = h.committed.policy ∨ c.membership.WeightsIdle) ∧
      ∀ w, 0 < w → (∀ id, c.isVoter id = true → c.membership.exactWeight id = w) →
        c.DecidesAs h.committed) := by
  have hiff : (h.propose base c version).2 = .error (noOp c) ↔
      c.members = h.committed.members := by
    rw [answer_of_idle he hp hb, ← Configuration.sameAs_iff_of_version_ne hv]
    split_ifs with hsame hle
    · exact iff_of_true rfl hsame
    · refine iff_of_false ?_ hsame
      intro hbad
      exact noOp_ne_notFollowing c version h.committed.version (Except.error.inj hbad)
    · exact iff_of_false nofun hsame
  refine ⟨hiff, ?_⟩
  intro hnoop
  have hmembers := hiff.mp hnoop
  have hmembership : c.membership = h.committed.membership := Membership.eq_of_all hmembers
  have hdecides := Configuration.decidesAs_iff_of_members hmembers
  refine ⟨?_, hdecides, ?_⟩
  · intro id
    rw [Configuration.isVoter, Configuration.isVoter, hmembership]
    exact ⟨rfl, rfl⟩
  · intro w hw hall
    exact hdecides.mpr (Or.inr (Membership.weightsIdle_of_uniform hw hall))

/-- Four voters of weight one go from counting to weighing, and nothing would change. -/
theorem quartet_by_weight_is_quartet_by_count :
    let first := Configuration.mk 1 .majority .trio
    let h := after first true [.propose none ⟨0, .majority, .quartet⟩ 2, .ack 1, .ack 2, .ack 3,
      .ack 4, .tryCommit]
    let c := Configuration.mk 7 .weighted .quartet
    (h.enabled = true ∧ h.proposed? = none ∧ (∀ b, some 2 = some b → b = h.committed.version) ∧
      c.version ≠ h.committed.version) ∧
    (h.propose (some 2) c 3).2 = .error (noOp c) ∧ c.DecidesAs h.committed := by
  intro first h c
  have he : h.enabled = true := by decide +kernel
  have hp : h.proposed? = none := by decide +kernel
  have hcommitted : h.committed = Configuration.mk 2 .majority .quartet := by decide +kernel
  have hb : ∀ b, some 2 = some b → b = h.committed.version := by
    intro b hb
    rw [hcommitted, ← Option.some.inj hb]
  have hv : c.version ≠ h.committed.version := by
    rw [hcommitted]
    decide
  have hmembers : c.members = h.committed.members := by
    rw [hcommitted]
    rfl
  have hresult := @noop_rejections_keep_members h (some 2) c 3 he hp hb hv
  have hnoop : (h.propose (some 2) c 3).2 = .error (noOp c) := hresult.1.mpr hmembers
  have hall : ∀ id, c.isVoter id = true → c.membership.exactWeight id = 1 := by
    have hids : (c.voting.ids.all fun id => c.membership.exactWeight id == 1) = true := by
      decide +kernel
    intro id hid
    have hone := List.all_eq_true.mp hids id ((IdMap.mem_ids _).mpr hid)
    exact beq_iff_eq.mp hone
  exact ⟨⟨he, hp, hb, hv⟩, hnoop, (hresult.2 hnoop).2.2 1 Nat.one_pos hall⟩

/-- Three voters of unequal weight go from counting to weighing. Two of them would no longer be a
quorum, and yet the proposal is turned down as a no-op. -/
theorem trio_by_weight_is_refused_as_trio_by_count :
    let first := Configuration.mk 1 .majority .trio
    let h := after first true []
    let c := Configuration.mk 0 .weighted .trio
    (h.enabled = true ∧ h.proposed? = none ∧ c.version ≠ h.committed.version) ∧
    (h.propose none c 2).2 = .error (noOp c) ∧
    (∀ id, (IdMap.ofIds [2, 3]).contains id = true → c.isVoter id = true) ∧
    h.committed.hasQuorum (IdMap.ofIds [2, 3]) = true ∧
    c.hasQuorum (IdMap.ofIds [2, 3]) = false := by
  intro first h c
  have hvoters : (IdMap.ofIds [2, 3]).ids.all c.isVoter = true := by decide +kernel
  refine ⟨⟨rfl, rfl, by decide⟩, by decide +kernel, ?_, by decide +kernel, by decide +kernel⟩
  intro id hid
  exact List.all_eq_true.mp hvoters id ((IdMap.mem_ids _).mpr hid)

end Handover

end Electorate
