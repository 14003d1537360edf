import Electorate.Proofs.Handover.Polling
import Electorate.Proofs.Tracker.Stability

/-! A handover that has all its quorums keeps them until it commits or is given up. -/
namespace Electorate.Handover

/-- The proposal `p` is pending and has every quorum that it needs. -/
def Ready (h : Handover) (p : Configuration) : Prop :=
  ∃ q, h.pending = some q ∧ q.proposed = p ∧ q.tracker.hasAllQuorums = true

/-- All quorums are reported exactly while some proposal is ready. -/
theorem hasAllQuorums_iff_ready {h : Handover} : h.hasAllQuorums = true ↔ ∃ p, Ready h p := by
  rw [hasAllQuorums]
  cases hq : h.pending with
  | none => simp [Ready, hq]
  | some q => simp [Ready, hq]

/-- A ready proposal stays ready until it is committed or given up. -/
theorem ready_step {h : Handover} {p : Configuration} {call : Call} (hr : Ready h p)
    (hcommit : call ≠ .tryCommit) (habandon : call ≠ .abandon) : Ready (h.step call).1 p := by
  obtain ⟨q, hq, hp, hall⟩ := hr
  have he := effect_step h call
  generalize h.step call = r at he ⊢
  cases he with
  | admitted ha =>
    -- while a proposal is pending no other one is admitted
    have hidle := ha.idle
    rw [hq] at hidle
    exact absurd hidle (by simp)
  | committed _ => exact absurd rfl hcommit
  | dropped _ => exact absurd rfl habandon
  | kept _ _ hpending =>
    rw [hq, Option.map_some] at hpending
    exact ⟨_, hpending, hp, Tracker.hasAllQuorums_recordAll _ hall⟩

theorem ready_run {h : Handover} {p : Configuration} {calls : List Call} (hr : Ready h p)
    (hcommit : Call.tryCommit ∉ calls) (habandon : Call.abandon ∉ calls) :
    Ready (h.run calls).1 p := by
  induction calls generalizing h with
  | nil => exact hr
  | cons call calls ih =>
    obtain ⟨hcommit, hcommits⟩ := not_or.mp (mt List.mem_cons.mpr hcommit)
    obtain ⟨habandon, habandons⟩ := not_or.mp (mt List.mem_cons.mpr habandon)
    exact ih (ready_step hr (Ne.symm hcommit) (Ne.symm habandon)) hcommits habandons

/-- The next attempt commits a ready proposal. -/
theorem tryCommit_of_ready {past : List Event} {h : Handover} (hm : Mirrors past h)
    {p : Configuration} (hr : Ready h p) :
    h.tryCommit = ({ h with committed := p, pending := none }, .ok (some p)) := by
  obtain ⟨q, hq, rfl, hall⟩ := hr
  obtain ⟨old, new, hw⟩ := exists_watches hm hq
  obtain ⟨hcommitted, hproposed⟩ := hw.hasAllQuorums_iff.mp hall
  rw [tryCommit, hq]
  simp [hcommitted, hproposed]

/-- Nothing else is admitted beside a ready proposal. -/
theorem propose_of_ready {h : Handover} {p : Configuration} (hr : Ready h p)
    (base : Option UInt64) (c : Configuration) (version : UInt64) :
    ∃ r, h.propose base c version = (h, .error (.refused r)) := by
  obtain ⟨q, hq, -⟩ := hr
  cases href : h.refusal? base c version with
  | some r => exact ⟨r, by rw [propose, href]⟩
  | none =>
    have hidle := pending_of_refusal?_eq_none href
    rw [hq] at hidle
    exact absurd hidle (by simp)

theorem after_append (first : Configuration) (enabled : Bool) (calls more : List Call) :
    after first enabled (calls ++ more) = ((after first enabled calls).run more).1 := by
  rw [after, after, run_append]

/-- What is decided stays decided. In a tracker a quorum is lost only by retiring its slot, all
quorums together only by registering a configuration, which begins without one, and a voting member
is gained only by a retirement. A handover that has all its quorums keeps them, and turns down all
proposals, until it is told to commit, which it then does, or to abandon. -/
theorem decisions_are_stable :
    (∀ (calls more : List Tracker.Call) (s : Nat), Tracker.Call.retire s ∉ more →
      (Tracker.after calls).hasQuorum s = true →
      (Tracker.after (calls ++ more)).hasQuorum s = true) ∧
    (∀ calls more : List Tracker.Call, (∀ c, Tracker.Call.register c ∉ more) →
      (Tracker.after calls).hasAllQuorums = true →
      (Tracker.after (calls ++ more)).hasAllQuorums = true) ∧
    (∀ (calls : List Tracker.Call) (c : Configuration),
      let r := (Tracker.after calls).register c
      r.1.hasQuorum r.2 = false ∧ r.1.hasAllQuorums = false) ∧
    (∀ (calls more : List Tracker.Call) (id : UInt64), (∀ s, Tracker.Call.retire s ∉ more) →
      (Tracker.after calls).isVotingMember id = false →
      (Tracker.after (calls ++ more)).isVotingMember id = false) ∧
    ∀ (first : Configuration) (enabled : Bool) (calls more : List Call),
      Call.tryCommit ∉ more → Call.abandon ∉ more →
      (after first enabled calls).hasAllQuorums = true →
      let h := after first enabled (calls ++ more)
      h.hasAllQuorums = true ∧
        (∀ base c version, ∃ r, h.propose base c version = (h, .error (.refused r))) ∧
        ∃ p, (after first enabled calls).proposed? = some p ∧
          h.tryCommit = ({ h with committed := p, pending := none }, .ok (some p)) := by
  refine ⟨?_, ?_, ?_, ?_, ?_⟩
  · intro calls more s hr h
    rw [Tracker.after_append]
    exact Tracker.hasQuorum_run hr h
  · intro calls more hr h
    rw [Tracker.after_append]
    exact Tracker.hasAllQuorums_run hr h
  · intro calls c
    exact Tracker.quorums_register (Tracker.after calls) c
  · intro calls more id hr h
    rw [Tracker.after_append]
    apply eq_false_of_ne_true
    intro hvoting
    rw [Tracker.isVotingMember_of_run hr hvoting] at h
    exact Bool.noConfusion h
  · intro first enabled calls more hcommit habandon hall h
    obtain ⟨p, hready⟩ := hasAllQuorums_iff_ready.mp hall
    have hp : (after first enabled calls).proposed? = some p := by
      obtain ⟨q, hq, rfl, -⟩ := hready
      rw [proposed?, hq, Option.map_some]
    -- what is ready after the first calls is ready after all of them
    have hlater : Ready h p := by
      have hrun := ready_run hready hcommit habandon
      rw [← after_append] at hrun
      exact hrun
    exact ⟨hasAllQuorums_iff_ready.mpr ⟨p, hlater⟩, propose_of_ready hlater, p, hp,
      tryCommit_of_ready (mirrors_after first enabled (calls ++ more)) hlater⟩

/-- Quorums outlast a retirement elsewhere, a registration, and a handover that is switched off for
a while. -/
theorem quorums_of_trio_and_quartet_stay :
    let first := Configuration.mk 1 .weighted .trio
    let next := Configuration.mk 0 .majority .quartet
    let calls : List Tracker.Call := [.register first, .ack 1, .ack 2]
    let more : List Tracker.Call := [.register next, .ack 4]
    let asked : List Call := [.propose none next 2, .ack 1, .ack 2, .ack 4]
    let later : List Call :=
      [.ack 9, .setEnabled false, .propose none first 7, .ack 3, .setEnabled true]
    (Tracker.after (calls ++ .retire 1 :: more)).hasQuorum 0 = true ∧
    (Tracker.after (calls ++ [.retire 1, .ack 4])).hasAllQuorums = true ∧
    (Tracker.after (calls ++ more)).isVotingMember 4 = false ∧
    (after first true asked).hasAllQuorums = true ∧
    (after first true (asked ++ later)).hasAllQuorums = true ∧
    (after first true (asked ++ later)).tryCommit.2 = .ok (some (next.stamp 2)) := by
  intro first next calls more asked later
  obtain ⟨hslot, hall, -, hmember, hhandover⟩ := decisions_are_stable
  have hquorum : (Tracker.after calls).hasQuorum 0 = true := by decide +kernel
  have hquorums : (Tracker.after calls).hasAllQuorums = true := by decide +kernel
  have houtside : (Tracker.after calls).isVotingMember 4 = false := by decide +kernel
  have hasked : (after first true asked).hasAllQuorums = true := by decide +kernel
  obtain ⟨hlater, -, p, hp, hcommit⟩ :=
    hhandover first true asked later (by simp [later]) (by simp [later]) hasked
  obtain rfl : next.stamp 2 = p := Option.some.inj hp
  refine ⟨?_, ?_, ?_, hasked, hlater, congrArg Prod.snd hcommit⟩
  · exact hslot calls (.retire 1 :: more) 0 (by simp [more]) hquorum
  · exact hall calls [.retire 1, .ack 4] (by simp) hquorums
  · exact hmember calls more 4 (by simp [more]) houtside

end Electorate.Handover
