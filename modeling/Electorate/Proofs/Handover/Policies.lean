import Electorate.Proofs.Handover.Step
import Electorate.Proofs.Tracker.Policies

/-! The two policies cannot be told apart where weights carry no information: not by one decision,
and not by the answers of a tracker or of a handover. -/
namespace Electorate

def Pending.under (p : Policy) (q : Pending) : Pending :=
  { q with proposed := q.proposed.under p, tracker := q.tracker.under p }

namespace Handover

def under (p : Policy) (h : Handover) : Handover :=
  { h with committed := h.committed.under p, pending := h.pending.map (Pending.under p) }

/-- The call with the policy replaced in what it proposes. -/
def Call.under (p : Policy) : Call → Call
  | .propose base c version => .propose base (c.under p) version
  | call => call

/-- The answer with the policy replaced in the configuration that it gives back. Errors and all
other answers stay as they are. -/
def Answer.under (p : Policy) : Answer → Answer
  | .proposed result => .proposed (result.map (Configuration.under p))
  | .commit result => .commit (result.map (Option.map (Configuration.under p)))
  | .dropped c => .dropped (c.map (Configuration.under p))
  | .committed c => .committed (c.under p)
  | .pending c => .pending (c.map (Configuration.under p))
  | answer => answer

/-- Neither for the committed configuration nor for a pending one does it make a difference whether
acknowledgments are counted or weighed. -/
structure Even (h : Handover) : Prop where
  committed : h.committed.membership.WeightsIdle
  pending : ∀ q, h.pending = some q → q.proposed.membership.WeightsIdle ∧ q.tracker.Even

section
variable (p : Policy) (h : Handover)

theorem proposed?_under : (h.under p).proposed? = h.proposed?.map (Configuration.under p) := by
  rw [proposed?, proposed?, under, Option.map_map, Option.map_map]
  rfl

/-- The grounds for a refusal leave the policies out of account. -/
theorem refusal?_under (base : Option UInt64) (c : Configuration) (version : UInt64) :
    (h.under p).refusal? base (c.under p) version = h.refusal? base c version := by
  have hsame : (c.under p).sameAs (h.under p).committed = c.sameAs h.committed := rfl
  have hversion : (h.under p).committed.version = h.committed.version := rfl
  have henabled : (h.under p).enabled = h.enabled := rfl
  have hshown : (c.under p).version = c.version := rfl
  unfold refusal?
  rw [hsame, hversion, henabled, hshown, under]
  cases h.pending <;> rfl

theorem propose_under (base : Option UInt64) (c : Configuration) (version : UInt64) :
    (h.under p).propose base (c.under p) version =
      ((h.propose base c version).1.under p,
        (h.propose base c version).2.map (Configuration.under p)) := by
  rw [propose, propose, refusal?_under]
  cases h.refusal? base c version <;> rfl

theorem recordAck_under (id : UInt64) :
    (h.under p).recordAck id = ((h.recordAck id).1.under p, (h.recordAck id).2) := by
  unfold recordAck
  cases hq : h.pending with
  | none =>
    have hnone : (h.under p).pending = none := by rw [under, hq, Option.map_none]
    rw [hnone]
  | some q =>
    have hsome : (h.under p).pending = some (q.under p) := by rw [under, hq, Option.map_some]
    rw [hsome]
    simp only [Pending.under, Tracker.recordAck_under]
    rfl

theorem isVotingMember_under (id : UInt64) :
    (h.under p).isVotingMember id = h.isVotingMember id := by
  rw [isVotingMember, isVotingMember, under]
  cases h.pending with
  | none => rfl
  | some q => exact q.tracker.isVotingMember_under p id

theorem abandon_under : (h.under p).abandon =
    (h.abandon.1.under p, h.abandon.2.map (Configuration.under p)) := by
  rw [abandon, abandon, proposed?_under]
  rfl

theorem ackSummary?_under : (h.under p).ackSummary? = h.ackSummary? := by
  rw [ackSummary?, ackSummary?, under, Option.map_map]
  congr 1
  exact funext fun q => q.tracker.summary_under p

theorem isInProgress_under : (h.under p).isInProgress = h.isInProgress := by
  rw [isInProgress, isInProgress, under, Option.isSome_map]

end

/-- Where weights are idle, it is decided alike whether to commit. -/
theorem tryCommit_under (p : Policy) {h : Handover} (he : h.Even) : (h.under p).tryCommit =
    (h.tryCommit.1.under p, h.tryCommit.2.map (Option.map (Configuration.under p))) := by
  unfold tryCommit
  cases hq : h.pending with
  | none =>
    have hnone : (h.under p).pending = none := by rw [under, hq, Option.map_none]
    rw [hnone]
    rfl
  | some q =>
    have hsome : (h.under p).pending = some (q.under p) := by rw [under, hq, Option.map_some]
    have heven := (he.pending q hq).2
    rw [hsome]
    simp only [Pending.under, Tracker.hasQuorum_under p heven]
    split_ifs <;> rfl

theorem hasAllQuorums_under (p : Policy) {h : Handover} (he : h.Even) :
    (h.under p).hasAllQuorums = h.hasAllQuorums := by
  rw [hasAllQuorums, hasAllQuorums, under]
  cases hq : h.pending with
  | none => rfl
  | some q => exact Tracker.hasAllQuorums_under p (he.pending q hq).2

/-- One call leaves the two handovers the same but for the policies, and answers them alike. -/
theorem step_under (p : Policy) {h : Handover} (he : h.Even) (call : Call) :
    (h.under p).step (call.under p) = ((h.step call).1.under p, (h.step call).2.under p) := by
  cases call with
  | propose base c version => simp only [Call.under, step, propose_under, Answer.under]
  | ack id => simp only [Call.under, step, recordAck_under, Answer.under]
  | isVotingMember id => simp only [Call.under, step, isVotingMember_under, Answer.under]
  | tryCommit => simp only [Call.under, step, tryCommit_under p he, Answer.under]
  | abandon => simp only [Call.under, step, abandon_under, Answer.under]
  | setEnabled on => rfl
  | committed => rfl
  | pending => simp only [Call.under, step, proposed?_under, Answer.under]

theorem even_watched {c q : Configuration} (hc : c.membership.WeightsIdle)
    (hq : q.membership.WeightsIdle) : (watched c q []).tracker.Even := by
  have hboth : ∀ x, Tracker.Call.register x ∈ [Tracker.Call.register c, .register q] →
      x.membership.WeightsIdle := by
    intro x hx
    simp only [List.mem_cons, Tracker.Call.register.injEq, List.not_mem_nil, or_false] at hx
    rcases hx with rfl | rfl
    · exact hc
    · exact hq
  exact Tracker.even_run Tracker.even_empty hboth

/-- Weights stay idle as long as those of every proposal are. -/
theorem even_step {h : Handover} (he : h.Even) {call : Call}
    (hcall : ∀ base c version, call = .propose base c version → c.membership.WeightsIdle) :
    Even (h.step call).1 := by
  have heffect := effect_step h call
  generalize h.step call = r at heffect ⊢
  cases heffect with
  | @admitted base c version ha =>
    have hidle : (c.stamp version).membership.WeightsIdle := hcall base c version rfl
    refine ⟨he.committed, ?_⟩
    intro q hq
    rw [← Option.some.inj hq]
    exact ⟨hidle, even_watched he.committed hidle⟩
  | committed hp => exact ⟨(he.pending _ hp).1, nofun⟩
  | dropped hp => exact ⟨he.committed, nofun⟩
  | kept hk hc hp =>
    refine ⟨hc ▸ he.committed, ?_⟩
    intro q hq
    rw [hp] at hq
    obtain ⟨q', hq', rfl⟩ := Option.map_eq_some_iff.mp hq
    obtain ⟨hidle, heven⟩ := he.pending q' hq'
    exact ⟨hidle, Tracker.even_recordAll heven _⟩

section
variable {h : Handover} (he : h.Even) {calls : List Call}
  (hcalls : ∀ base c version, Call.propose base c version ∈ calls → c.membership.WeightsIdle)
include he hcalls

theorem even_run : Even (h.run calls).1 := by
  induction calls generalizing h with
  | nil => exact he
  | cons call calls ih =>
    have hstep : Even (h.step call).1 :=
      even_step he fun base c version hc => hcalls base c version (hc ▸ List.mem_cons_self)
    exact ih hstep fun base c version hc => hcalls base c version (List.mem_cons_of_mem _ hc)

/-- A run with every configuration under another policy is the same run, and so are its answers. -/
theorem run_under (p : Policy) : (h.under p).run (calls.map (Call.under p)) =
    ((h.run calls).1.under p, (h.run calls).2.map (Answer.under p)) := by
  induction calls generalizing h with
  | nil => rfl
  | cons call calls ih =>
    have hstep : Even (h.step call).1 :=
      even_step he fun base c version hc => hcalls base c version (hc ▸ List.mem_cons_self)
    have hrest :=
      ih hstep fun base c version hc => hcalls base c version (List.mem_cons_of_mem _ hc)
    rw [List.map_cons, run, step_under p he, hrest]
    rfl

end

/-- Where all voters of a membership have one weight, counting them and weighing them decide every
set of them alike. A factor that leaves the total in range changes no weighted decision, of whatever
set. So a tracker that is told to use the other policy, for configurations with one weight each,
gives the same answers to the same calls, and so does a handover: only the policy of a configuration
that is given back shows which one it was. -/
theorem policies_coincide_without_information :
    (∀ m : Membership, m.Uniform → ∀ acks : IdSet,
      (∀ id, acks.contains id = true → m.isVoter id = true) →
        Policy.majority.hasQuorum m acks = Policy.weighted.hasQuorum m acks) ∧
    (∀ (m : Membership) (k : ℕ), 1 ≤ k → m.totalVotingWeight.toNat * k < 2 ^ 64 →
      ∃ m', Membership.ofMap (scaleVoters k m.all) = .ok m' ∧
        (∀ id, m'.exactWeight id = m.exactWeight id * k) ∧
        ∀ acks, Policy.weighted.hasQuorum m' acks = Policy.weighted.hasQuorum m acks) ∧
    (∀ (p : Policy) (calls : List Tracker.Call),
      (∀ c, Tracker.Call.register c ∈ calls → c.membership.Uniform) →
        (Tracker.empty.run (calls.map (Tracker.Call.under p))).2 =
          (Tracker.empty.run calls).2.map (Tracker.Answer.under p)) ∧
    ∀ (p : Policy) (first : Configuration) (enabled : Bool) (calls : List Call),
      first.membership.Uniform →
      (∀ base c version, Call.propose base c version ∈ calls → c.membership.Uniform) →
        let h := (start first enabled).run calls
        let h' := (start (first.under p) enabled).run (calls.map (Call.under p))
        h'.2 = h.2.map (Answer.under p) ∧ h'.1.hasAllQuorums = h.1.hasAllQuorums ∧
          h'.1.ackSummary? = h.1.ackSummary? ∧ h'.1.isInProgress = h.1.isInProgress := by
  refine ⟨?_, ?_, ?_, ?_⟩
  · intro m huniform acks hacks
    exact (huniform.weightsIdle acks hacks).symm
  · intro m k hk hfits
    obtain ⟨m', hm⟩ := Membership.exists_scaled hfits
    exact ⟨m', hm, Membership.exactWeight_scaled hfits hm, Membership.hasQuorum_scaled hfits hk hm⟩
  · intro p calls huniform
    have hidle : ∀ c, Tracker.Call.register c ∈ calls → c.membership.WeightsIdle :=
      fun c hc => (huniform c hc).weightsIdle
    exact congrArg Prod.snd (Tracker.run_under p Tracker.even_empty hidle)
  · intro p first enabled calls hfirst huniform h h'
    -- nothing is pending at the start, so only the committed weights matter there
    have heven : Even (start first enabled) := ⟨hfirst.weightsIdle, nofun⟩
    have hidle : ∀ base c version, Call.propose base c version ∈ calls →
        c.membership.WeightsIdle := by
      intro base c version hc
      exact (huniform base c version hc).weightsIdle
    have hrun : h' = (h.1.under p, h.2.map (Answer.under p)) := run_under heven hidle p
    have hafter : Even h.1 := even_run heven hidle
    rw [hrun]
    exact ⟨rfl, hasAllQuorums_under p hafter, ackSummary?_under p h.1, isInProgress_under p h.1⟩

/-- Three voters of weight five and a heavier observer, then four of weight one: what was counted
is now weighed. And three voters of unequal weight, as heavy as they can be made. -/
theorem fives_count_as_they_weigh :
    let fives : Membership :=
      { all := IdMap.ofList ([(1, Role.participant, 5), (2, .participant, 5), (3, .participant, 5),
          (4, .observer, 9)].map fun (id, role, weight) =>
            (id, Member.mk id "node" 2888 3888 none role weight))
        totalVotingWeight := 15
        total_eq := rfl }
    let first := Configuration.mk 1 .majority fives
    let next := Configuration.mk 0 .majority .quartet
    let watching := [Tracker.Call.register first, .ack 1, .hasQuorum 0, .register next, .ack 2,
      .hasQuorum 0, .hasAllQuorums, .retire 0]
    let calls := [Call.propose none next 2, .ack 1, .ack 2, .tryCommit, .ack 3, .tryCommit]
    (fives.Uniform ∧ Membership.quartet.Uniform ∧
      Membership.trio.totalVotingWeight.toNat * (2 ^ 62 - 1) < 2 ^ 64) ∧
    Policy.majority.hasQuorum fives (IdMap.ofIds [1, 2]) =
      Policy.weighted.hasQuorum fives (IdMap.ofIds [1, 2]) ∧
    (∃ m', Membership.ofMap (scaleVoters (2 ^ 62 - 1) Membership.trio.all) = .ok m' ∧
      Policy.weighted.hasQuorum m' (IdMap.ofIds [1, 2]) =
        Policy.weighted.hasQuorum .trio (IdMap.ofIds [1, 2])) ∧
    (Tracker.empty.run (watching.map (Tracker.Call.under .weighted))).2 =
      (Tracker.empty.run watching).2.map (Tracker.Answer.under .weighted) ∧
    ((start (first.under .weighted) true).run (calls.map (Call.under .weighted))).2 =
      ((start first true).run calls).2.map (Answer.under .weighted) := by
  intro fives first next watching calls
  obtain ⟨hdecide, hscale, htracker, hhandover⟩ := policies_coincide_without_information
  have hfives : fives.Uniform := Membership.uniform_iff.mpr ⟨5, by decide, by decide +kernel⟩
  have hquartet : Membership.quartet.Uniform :=
    Membership.uniform_iff.mpr ⟨1, by decide, by decide +kernel⟩
  have hfits : Membership.trio.totalVotingWeight.toNat * (2 ^ 62 - 1) < 2 ^ 64 := by decide
  have hvoters : ∀ id, (IdMap.ofIds [1, 2]).contains id = true → fives.isVoter id = true :=
    IdMap.all_ids_iff.mp (by decide +kernel)
  obtain ⟨m', hm, -, hsame⟩ := hscale .trio (2 ^ 62 - 1) (by decide) hfits
  have hwatching : ∀ c, Tracker.Call.register c ∈ watching → c.membership.Uniform := by
    intro c hc
    simp only [watching, List.mem_cons, Tracker.Call.register.injEq, reduceCtorEq, false_or,
      List.not_mem_nil, or_false] at hc
    rcases hc with rfl | rfl
    · exact hfives
    · exact hquartet
  have hcalls : ∀ base c version, Call.propose base c version ∈ calls → c.membership.Uniform := by
    intro base c version hc
    simp only [calls, List.mem_cons, Call.propose.injEq, reduceCtorEq, List.not_mem_nil,
      or_false] at hc
    rw [hc.2.1]
    exact hquartet
  exact ⟨⟨hfives, hquartet, hfits⟩, hdecide fives hfives _ hvoters, ⟨m', hm, hsame _⟩,
    htracker .weighted watching hwatching,
    (hhandover .weighted first true calls hfives hcalls).1⟩

end Handover

end Electorate
