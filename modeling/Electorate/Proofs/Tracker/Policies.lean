import Electorate.Proofs.Membership.Policies
import Electorate.Proofs.Tracker.Acks
import Electorate.Proofs.Tracker.Answers

/-! A tracker whose configurations have weights that make no difference answers alike under either
policy. -/
namespace Electorate

/-- The configuration with its policy replaced. -/
def Configuration.under (p : Policy) (c : Configuration) : Configuration := { c with policy := p }

namespace Entry

def under (p : Policy) (e : Entry) : Entry := { e with config := e.config.under p }

/-- Counting the acknowledgments and weighing them come to the same. For that they must come from
voters. -/
structure Even (e : Entry) : Prop where
  idle : e.config.membership.WeightsIdle
  voters : ∀ id, e.acks.contains id = true → e.config.isVoter id = true

theorem hasQuorum_under (p : Policy) {e : Entry} (h : e.Even) :
    (e.under p).hasQuorum = e.hasQuorum := by
  have hmembers : e.config.members = (e.config.under p).members := rfl
  have hdecides := (Configuration.decidesAs_iff_of_members hmembers).mpr (Or.inr h.idle)
  exact (hdecides e.acks h.voters).symm

theorem ack_under (p : Policy) (e : Entry) (id : UInt64) :
    (e.under p).ack id = (e.ack id).under p := by
  have hlacks : (e.under p).lacks id = e.lacks id := rfl
  rw [ack, ack, hlacks]
  split_ifs <;> rfl

theorem even_start {c : Configuration} (h : c.membership.WeightsIdle) : (start c).Even where
  idle := h
  voters := nofun

/-- Only voters are heard, so acknowledgments make no entry uneven. -/
theorem Even.ack {e : Entry} (h : e.Even) (id : UInt64) : (e.ack id).Even where
  idle := by
    rw [Tracker.config_ack]
    exact h.idle
  voters := by
    intro j hj
    rw [Tracker.config_ack]
    rcases (Tracker.mem_support_ack e).mp ((IdMap.mem_support _).mpr hj) with hold | ⟨rfl, hvotes⟩
    · exact h.voters j ((IdMap.mem_support _).mp hold)
    · exact hvotes

end Entry

namespace Tracker

def under (p : Policy) (t : Tracker) : Tracker := ⟨t.slots.map (Option.map (Entry.under p))⟩

/-- The call with the policy replaced in what it registers. -/
def Call.under (p : Policy) : Call → Call
  | .register c => .register (c.under p)
  | call => call

/-- The answer with the policy replaced in the configuration that it gives back. Any other answer
stays as it is. -/
def Answer.under (p : Policy) : Answer → Answer
  | .retired c => .retired (c.map (Configuration.under p))
  | .config c => .config (c.map (Configuration.under p))
  | answer => answer

section
variable (p : Policy) (t : Tracker)

theorem entryAt?_under (s : Nat) : entryAt? (t.under p) s = (t.entryAt? s).map (Entry.under p) := by
  rw [entryAt?, entryAt?, under, List.getElem?_map]
  cases t.slots[s]? <;> rfl

theorem active_under : (t.under p).active = t.active.map (Entry.under p) := by
  rw [active, active, under, List.filterMap_map, List.map_filterMap]
  rfl

theorem register_under (c : Configuration) :
    (t.under p).register (c.under p) = ((t.register c).1.under p, (t.register c).2) := by
  rw [register, register, under, under, List.map_append, List.length_map]
  rfl

theorem retire_under (s : Nat) : (t.under p).retire s =
    ((t.retire s).1.under p, (t.retire s).2.map (Configuration.under p)) := by
  rw [retire, retire, entryAt?_under, under, under, List.map_set, Option.map_map, Option.map_map]
  rfl

theorem recordAck_under (id : UInt64) :
    (t.under p).recordAck id = ((t.recordAck id).1.under p, (t.recordAck id).2) := by
  have hslots : (t.under p).slots.map (Option.map (Entry.ack · id)) =
      (t.slots.map (Option.map (Entry.ack · id))).map (Option.map (Entry.under p)) := by
    rw [under, List.map_map, List.map_map]
    apply List.map_congr_left
    intro x _
    cases x with
    | none => rfl
    | some e => exact congrArg some (e.ack_under p id)
  rw [recordAck, hslots, active_under, List.any_map]
  rfl

theorem isVotingMember_under (id : UInt64) :
    (t.under p).isVotingMember id = t.isVotingMember id := by
  rw [isVotingMember, active_under, List.all_map]
  rfl

theorem config?_under (s : Nat) :
    (t.under p).config? s = (t.config? s).map (Configuration.under p) := by
  rw [config?, config?, entryAt?_under, Option.map_map, Option.map_map]
  rfl

theorem acked?_under (s : Nat) : (t.under p).acked? s = t.acked? s := by
  rw [acked?, acked?, entryAt?_under, Option.map_map]
  rfl

theorem ackCount_under (s : Nat) : (t.under p).ackCount s = t.ackCount s := by
  rw [ackCount, ackCount, acked?_under]

theorem activeCount_under : (t.under p).activeCount = t.activeCount := by
  rw [activeCount, active_under, List.length_map, activeCount]

theorem phase_under : (t.under p).phase = t.phase := by
  rw [phase, phase, activeCount_under]

theorem summary_under : (t.under p).summary = t.summary := by
  rw [summary, summary, active_under, List.map_map]
  rfl

end

/-- In every slot in force it makes no difference whether acknowledgments are counted or weighed. -/
def Even (t : Tracker) : Prop := ∀ e ∈ t.active, e.Even

theorem even_empty : Even empty := nofun

theorem hasQuorum_under (p : Policy) {t : Tracker} (ht : t.Even) (s : Nat) :
    (t.under p).hasQuorum s = t.hasQuorum s := by
  rw [hasQuorum, hasQuorum, entryAt?_under]
  cases he : t.entryAt? s with
  | none => rfl
  | some e => exact Entry.hasQuorum_under p (ht e (mem_active.mpr ⟨s, he⟩))

/-- Where weights are idle, all quorums are reported under both policies alike. -/
theorem hasAllQuorums_under (p : Policy) {t : Tracker} (ht : t.Even) :
    (t.under p).hasAllQuorums = t.hasAllQuorums := by
  rw [hasAllQuorums, active_under, List.all_map, hasAllQuorums, Bool.eq_iff_iff, List.all_eq_true,
    List.all_eq_true]
  apply forall₂_congr
  intro e he
  rw [Function.comp_apply, Entry.hasQuorum_under p (ht e he)]

/-- One call leaves the two trackers the same but for the policies, and answers them alike. -/
theorem step_under (p : Policy) {t : Tracker} (ht : t.Even) (call : Call) :
    (t.under p).step (call.under p) = ((t.step call).1.under p, (t.step call).2.under p) := by
  cases call with
  | register c => simp only [Call.under, step, register_under, Answer.under]
  | retire s => simp only [Call.under, step, retire_under, Answer.under]
  | ack id => simp only [Call.under, step, recordAck_under, Answer.under]
  | isVotingMember id => simp only [Call.under, step, isVotingMember_under, Answer.under]
  | hasAllQuorums => simp only [Call.under, step, hasAllQuorums_under p ht, Answer.under]
  | hasQuorum s => simp only [Call.under, step, hasQuorum_under p ht, Answer.under]
  | config s => simp only [Call.under, step, config?_under, Answer.under]
  | acked s => simp only [Call.under, step, acked?_under, Answer.under]
  | ackCount s => simp only [Call.under, step, ackCount_under, Answer.under]
  | phase => simp only [Call.under, step, phase_under, Answer.under]
  | activeCount => simp only [Call.under, step, activeCount_under, Answer.under]
  | summary => simp only [Call.under, step, summary_under, Answer.under]

/-- Weights stay idle as long as those of every configuration registered are. -/
theorem even_step {t : Tracker} (ht : t.Even) {call : Call}
    (hcall : ∀ c, call = .register c → c.membership.WeightsIdle) : Even (t.step call).1 := by
  cases call with
  | register c =>
    have hactive : (t.register c).1.active = t.active ++ [Entry.start c] := List.filterMap_append
    rw [step, Even, hactive, List.forall_mem_append, List.forall_mem_singleton]
    exact ⟨ht, Entry.even_start (hcall c rfl)⟩
  | retire r =>
    intro e he
    obtain ⟨s, hs⟩ := mem_active.mp he
    -- the slot itself has been cleared, and in every other one nothing changes
    by_cases hr : s = r
    · subst hr
      cases (entryAt?_retire_self t s).symm.trans hs
    · exact ht e (mem_active.mpr ⟨s, (entryAt?_retire_of_ne t hr).symm.trans hs⟩)
  | ack id =>
    rw [step, Even, active_recordAck, List.forall_mem_map]
    intro e he
    exact (ht e he).ack id
  | _ => exact ht

theorem even_run {t : Tracker} (ht : t.Even) {calls : List Call}
    (hcalls : ∀ c, Call.register c ∈ calls → c.membership.WeightsIdle) : Even (t.run calls).1 := by
  induction calls generalizing t with
  | nil => exact ht
  | cons call calls ih =>
    have hstep : Even (t.step call).1 := even_step ht fun c hc => hcalls c (hc ▸ List.mem_cons_self)
    exact ih hstep fun c hc => hcalls c (List.mem_cons_of_mem _ hc)

theorem even_recordAll {t : Tracker} (ht : t.Even) (ids : List UInt64) :
    Even (t.recordAll ids) := by
  induction ids generalizing t with
  | nil => exact ht
  | cons id ids ih =>
    have hack : Even (t.step (.ack id)).1 := even_step ht nofun
    exact ih hack

/-- Whatever the calls, nobody can tell from the answers which policies the configurations go by,
unless one of them is given back. -/
theorem run_under (p : Policy) {t : Tracker} (ht : t.Even) {calls : List Call}
    (hcalls : ∀ c, Call.register c ∈ calls → c.membership.WeightsIdle) :
    (t.under p).run (calls.map (Call.under p)) =
      ((t.run calls).1.under p, (t.run calls).2.map (Answer.under p)) := by
  induction calls generalizing t with
  | nil => rfl
  | cons call calls ih =>
    have hstep : Even (t.step call).1 := even_step ht fun c hc => hcalls c (hc ▸ List.mem_cons_self)
    have hrest := ih hstep fun c hc => hcalls c (List.mem_cons_of_mem _ hc)
    rw [List.map_cons, run, step_under p ht, hrest]
    rfl

end Tracker

end Electorate
