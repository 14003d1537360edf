import Electorate.Proofs.Tracker.Acks
import Electorate.Proofs.Tracker.Answers

/-! What a tracker has decided stays decided. Sets of acknowledgments only grow, both quorum rules
are monotone in the set, and the empty set is a quorum under neither. -/
namespace Electorate
open scoped BigOperators

namespace Policy

/-- A quorum stays one as others join it. -/
theorem IsQuorum.mono {p : Policy} {m : Membership} {A B : Finset UInt64} (h : p.IsQuorum m A)
    (hAB : A ⊆ B) : p.IsQuorum m B := by
  rw [isQuorum_iff_share] at h ⊢
  have hsum : ∑ id ∈ A, p.share m id ≤ ∑ id ∈ B, p.share m id := Finset.sum_le_sum_of_subset hAB
  omega

/-- No acknowledgment is no quorum, also where there is no voter or no weight to reach. -/
theorem not_isQuorum_empty (p : Policy) (m : Membership) : ¬ p.IsQuorum m ∅ := by
  rw [isQuorum_iff_share, Finset.sum_empty]
  exact Nat.not_lt_zero _

end Policy

namespace Entry

/-- The same configuration, with nobody taken off its set. -/
structure Grows (e e' : Entry) : Prop where
  config : e'.config = e.config
  acks : e.acks.support ⊆ e'.acks.support

theorem Grows.refl (e : Entry) : e.Grows e := ⟨rfl, subset_rfl⟩

theorem grows_ack (e : Entry) (id : UInt64) : e.Grows (e.ack id) where
  config := Tracker.config_ack e id
  acks := by
    intro j hj
    exact (Tracker.mem_support_ack e).mpr (Or.inl hj)

theorem hasQuorum_iff (e : Entry) :
    e.hasQuorum = true ↔ e.config.IsQuorum e.acks.support := e.config.hasQuorum_iff e.acks

theorem Grows.hasQuorum {e e' : Entry} (hg : e.Grows e') (h : e.hasQuorum = true) :
    e'.hasQuorum = true := by
  rw [hasQuorum_iff] at h ⊢
  rw [hg.config]
  exact Policy.IsQuorum.mono h hg.acks

/-- Nobody at all is no quorum under either policy. -/
theorem hasQuorum_start (c : Configuration) : (start c).hasQuorum = false := by
  have hempty : (start c).acks.support = ∅ := by
    ext id
    simp [start]
  apply eq_false_of_ne_true
  intro h
  rw [hasQuorum_iff, hempty] at h
  exact Policy.not_isQuorum_empty c.policy c.membership h

end Entry

namespace Tracker

theorem hasQuorum_eq_true_iff {t : Tracker} {s : Nat} :
    t.hasQuorum s = true ↔ ∃ e, t.entryAt? s = some e ∧ e.hasQuorum = true := by
  rw [hasQuorum]
  cases t.entryAt? s <;> simp

theorem Call.onSlot_none (call : Call) (s : Nat) : call.onSlot s none = none := by
  cases call with
  | retire r => simp [onSlot]
  | _ => rfl

/-- Only a retirement of the slot itself takes an entry out. Every other call lets it grow. -/
theorem Call.onSlot_some (call : Call) (s : Nat) (e : Entry) :
    (call = .retire s ∧ call.onSlot s (some e) = none) ∨
      ∃ e', call.onSlot s (some e) = some e' ∧ e.Grows e' := by
  cases call with
  | retire r =>
    by_cases hr : r = s
    · exact Or.inl ⟨by rw [hr], by simp [onSlot, hr]⟩
    · exact Or.inr ⟨e, by simp [onSlot, hr], Entry.Grows.refl e⟩
  | ack id => exact Or.inr ⟨e.ack id, rfl, e.grows_ack id⟩
  | _ => exact Or.inr ⟨e, rfl, Entry.Grows.refl e⟩

theorem lt_length_of_entryAt? {t : Tracker} {s : Nat} {e : Entry} (h : t.entryAt? s = some e) :
    s < t.slots.length := by
  have hslot : t.slots[s]? = some (some e) := Option.join_eq_some_iff.mp h
  exact (List.getElem?_eq_some_iff.mp hslot).1

theorem entryAt?_step (t : Tracker) (call : Call) {s : Nat} (hs : s < t.slots.length) :
    entryAt? (t.step call).1 s = call.onSlot s (t.entryAt? s) := by
  rw [entryAt?, entryAt?, slots_step t call hs, List.getElem?_eq_getElem hs]
  rfl

/-- Short of its retirement, every call leaves an entry in its slot, grown at most. -/
theorem exists_entryAt?_step {t : Tracker} {call : Call} {s : Nat} {e : Entry}
    (hr : call ≠ .retire s) (h : t.entryAt? s = some e) :
    ∃ e', entryAt? (t.step call).1 s = some e' ∧ e.Grows e' := by
  have hlt := lt_length_of_entryAt? h
  rw [entryAt?_step t call hlt, h]
  rcases call.onSlot_some s e with ⟨hretire, -⟩ | hgrown
  · exact absurd hretire hr
  · exact hgrown

/-- Unless the call registers, every entry in force after it was in force before. -/
theorem exists_of_entryAt?_step {t : Tracker} {call : Call} {s : Nat} {e' : Entry}
    (hr : ∀ c, call ≠ .register c) (h : entryAt? (t.step call).1 s = some e') :
    ∃ e, t.entryAt? s = some e ∧ e.Grows e' := by
  have hnone : registrations [call] = 0 := by
    cases call with
    | register c => exact absurd rfl (hr c)
    | _ => rfl
  have hs : s < t.slots.length := by
    have hlt := lt_length_of_entryAt? h
    rw [length_step, hnone] at hlt
    exact hlt
  rw [entryAt?_step t call hs] at h
  cases he : t.entryAt? s with
  | none =>
    rw [he, Call.onSlot_none] at h
    exact absurd h (by simp)
  | some e =>
    rw [he] at h
    rcases call.onSlot_some s e with ⟨-, hgone⟩ | ⟨grown, hgrown, hg⟩
    · rw [hgone] at h
      exact absurd h (by simp)
    · obtain rfl : grown = e' := Option.some.inj (hgrown.symm.trans h)
      exact ⟨e, rfl, hg⟩

theorem entryAt?_register_self (t : Tracker) (c : Configuration) :
    entryAt? (t.register c).1 (t.register c).2 = some (Entry.start c) := by
  rw [entryAt?, register, List.getElem?_concat_length]
  rfl

theorem hasQuorum_step {t : Tracker} {call : Call} {s : Nat} (hr : call ≠ .retire s)
    (h : t.hasQuorum s = true) : (t.step call).1.hasQuorum s = true := by
  obtain ⟨e, he, hq⟩ := hasQuorum_eq_true_iff.mp h
  obtain ⟨e', he', hg⟩ := exists_entryAt?_step hr he
  exact hasQuorum_eq_true_iff.mpr ⟨e', he', hg.hasQuorum hq⟩

theorem hasAllQuorums_step {t : Tracker} {call : Call} (hr : ∀ c, call ≠ .register c)
    (h : t.hasAllQuorums = true) : (t.step call).1.hasAllQuorums = true := by
  rw [hasAllQuorums, active_all_iff] at h ⊢
  intro s e' he'
  obtain ⟨e, he, hg⟩ := exists_of_entryAt?_step hr he'
  exact hg.hasQuorum (h s e he)

theorem isVotingMember_of_step {t : Tracker} {call : Call} {id : UInt64}
    (hr : ∀ s, call ≠ .retire s) (h : (t.step call).1.isVotingMember id = true) :
    t.isVotingMember id = true := by
  rw [isVotingMember, active_all_iff] at h ⊢
  intro s e he
  obtain ⟨e', he', hg⟩ := exists_entryAt?_step (hr s) he
  rw [← hg.config]
  exact h s e' he'

/-- A configuration fresh in the tracker has no quorum, and so the tracker has not all of them. -/
theorem quorums_register (t : Tracker) (c : Configuration) :
    (t.register c).1.hasQuorum (t.register c).2 = false ∧
      (t.register c).1.hasAllQuorums = false := by
  have he := entryAt?_register_self t c
  have hq := Entry.hasQuorum_start c
  constructor
  · rw [hasQuorum, he]
    exact hq
  · apply eq_false_of_ne_true
    intro hall
    rw [hasAllQuorums, active_all_iff] at hall
    have hfresh := hall _ _ he
    rw [hq] at hfresh
    exact Bool.noConfusion hfresh

/-- A slot keeps its quorum until it is retired. -/
theorem hasQuorum_run {t : Tracker} {calls : List Call} {s : Nat} (hr : Call.retire s ∉ calls)
    (h : t.hasQuorum s = true) : (t.run calls).1.hasQuorum s = true := by
  induction calls generalizing t with
  | nil => exact h
  | cons call calls ih =>
    obtain ⟨hcall, hcalls⟩ := not_or.mp (mt List.mem_cons.mpr hr)
    exact ih hcalls (hasQuorum_step (Ne.symm hcall) h)

/-- All quorums stay reported until another configuration is registered. -/
theorem hasAllQuorums_run {t : Tracker} {calls : List Call} (hr : ∀ c, Call.register c ∉ calls)
    (h : t.hasAllQuorums = true) : (t.run calls).1.hasAllQuorums = true := by
  induction calls generalizing t with
  | nil => exact h
  | cons call calls ih =>
    have hcall : ∀ c, call ≠ .register c := by
      intro c hc
      exact hr c (hc ▸ List.mem_cons_self)
    have hcalls : ∀ c, Call.register c ∉ calls := fun c hc => hr c (List.mem_cons_of_mem _ hc)
    exact ih hcalls (hasAllQuorums_step hcall h)

/-- As long as nothing is retired, nobody becomes a voting member. -/
theorem isVotingMember_of_run {t : Tracker} {calls : List Call} {id : UInt64}
    (hr : ∀ s, Call.retire s ∉ calls) (h : (t.run calls).1.isVotingMember id = true) :
    t.isVotingMember id = true := by
  induction calls generalizing t with
  | nil => exact h
  | cons call calls ih =>
    have hcall : ∀ s, call ≠ .retire s := by
      intro s hs
      exact hr s (hs ▸ List.mem_cons_self)
    have hcalls : ∀ s, Call.retire s ∉ calls := fun s hs => hr s (List.mem_cons_of_mem _ hs)
    exact isVotingMember_of_step hcall (ih hcalls h)

theorem after_append (calls more : List Call) :
    after (calls ++ more) = ((after calls).run more).1 := by
  rw [after, after, run_append]

theorem hasAllQuorums_recordAll {t : Tracker} (ids : List UInt64) (h : t.hasAllQuorums = true) :
    (t.recordAll ids).hasAllQuorums = true := by
  induction ids generalizing t with
  | nil => exact h
  | cons id ids ih =>
    have hone : (t.step (.ack id)).1.hasAllQuorums = true := hasAllQuorums_step (by simp) h
    exact ih hone

end Tracker

end Electorate
