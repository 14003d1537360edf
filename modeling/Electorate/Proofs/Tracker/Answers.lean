import Electorate.Proofs.Tracker.History

/-! The answers of a tracker, read off the calls made so far. -/
namespace Electorate.Tracker

/-- A slot reports a quorum exactly if those heard since its registration are one. -/
theorem hasQuorum_iff_of_inForce {calls since : List Call} {s : Nat} {c : Configuration}
    (h : InForce calls s c since) :
    (after calls).hasQuorum s = true ↔ c.IsQuorum (heard c since) := by
  obtain ⟨acks, he, hsupp⟩ := entryAt?_of_inForce h
  rw [hasQuorum, he, ← hsupp]
  exact c.hasQuorum_iff acks

theorem config?_eq_some_iff {calls : List Call} {s : Nat} {c : Configuration} :
    (after calls).config? s = some c ↔ ∃ since, InForce calls s c since := by
  rw [config?, Option.map_eq_some_iff]
  constructor
  · intro h
    obtain ⟨e, he, rfl⟩ := h
    obtain ⟨since, hin, _⟩ := inForce_of_entryAt? he
    exact ⟨since, hin⟩
  · intro h
    obtain ⟨since, hin⟩ := h
    obtain ⟨acks, he, _⟩ := entryAt?_of_inForce hin
    exact ⟨⟨c, acks⟩, he, rfl⟩

/-- The ids of a slot are those of its voters that have acknowledged since its registration. -/
theorem acked?_of_inForce {calls since : List Call} {s : Nat} {c : Configuration}
    (h : InForce calls s c since) : ∃ acks : IdSet, (after calls).acked? s = some acks ∧
      ∀ id, acks.contains id = true ↔ c.isVoter id = true ∧ Call.ack id ∈ since := by
  obtain ⟨acks, he, hsupp⟩ := entryAt?_of_inForce h
  have ha : (after calls).acked? s = some acks := by
    rw [acked?, he]
    rfl
  refine ⟨acks, ha, ?_⟩
  intro id
  rw [← mem_heard, ← hsupp, IdMap.mem_support]

theorem contains_of_inForce {calls since : List Call} {s : Nat} {c : Configuration}
    {acks : IdSet} (h : InForce calls s c since) (ha : (after calls).acked? s = some acks)
    (id : UInt64) :
    acks.contains id = true ↔ c.isVoter id = true ∧ Call.ack id ∈ since := by
  obtain ⟨acks', ha', hmem⟩ := acked?_of_inForce h
  obtain rfl := Option.some.inj (ha'.symm.trans ha)
  exact hmem id

theorem mem_active {t : Tracker} {e : Entry} : e ∈ t.active ↔ ∃ s, t.entryAt? s = some e := by
  rw [active, List.mem_filterMap]
  constructor
  · intro h
    obtain ⟨x, hx, rfl⟩ := h
    obtain ⟨s, hs⟩ := List.mem_iff_getElem?.mp hx
    exact ⟨s, by rw [entryAt?, hs]; rfl⟩
  · intro h
    obtain ⟨s, hs⟩ := h
    exact ⟨some e, List.mem_of_getElem? (Option.join_eq_some_iff.mp hs), rfl⟩

theorem active_all_iff {t : Tracker} {P : Entry → Bool} :
    t.active.all P = true ↔ ∀ s e, t.entryAt? s = some e → P e = true := by
  rw [List.all_eq_true]
  constructor
  · intro h s e he
    exact h e (mem_active.mpr ⟨s, he⟩)
  · intro h e he
    obtain ⟨s, hs⟩ := mem_active.mp he
    exact h s e hs

theorem forall_entry_iff {calls : List Call} {R : Nat → Configuration → Prop} :
    (∀ s e, entryAt? (after calls) s = some e → R s e.config) ↔
      ∀ s c since, InForce calls s c since → R s c := by
  constructor
  · intro h s c since hin
    obtain ⟨acks, he, _⟩ := entryAt?_of_inForce hin
    exact h s _ he
  · intro h s e he
    obtain ⟨since, hin, _⟩ := inForce_of_entryAt? he
    exact h s e.config since hin

/-- All quorums are reported exactly if every configuration in force has one. -/
theorem hasAllQuorums_iff {calls : List Call} : (after calls).hasAllQuorums = true ↔
    ∀ s c since, InForce calls s c since → (after calls).hasQuorum s = true := by
  rw [hasAllQuorums, active_all_iff, ← forall_entry_iff]
  apply forall₃_congr
  intro s e he
  rw [hasQuorum, he]

/-- A voting member votes in every configuration in force. -/
theorem isVotingMember_iff {calls : List Call} {id : UInt64} :
    (after calls).isVotingMember id = true ↔
      ∀ s c since, InForce calls s c since → c.isVoter id = true := by
  rw [isVotingMember, active_all_iff, ← forall_entry_iff]

theorem entryAt?_retire_self (t : Tracker) (s : Nat) : entryAt? (t.retire s).1 s = none := by
  rw [entryAt?, retire, List.getElem?_set, if_pos rfl]
  split_ifs <;> rfl

theorem entryAt?_retire_of_ne (t : Tracker) {s other : Nat} (h : other ≠ s) :
    entryAt? (t.retire s).1 other = t.entryAt? other := by
  rw [entryAt?, entryAt?, retire, List.getElem?_set_ne (Ne.symm h)]

theorem retire_eq_self {t : Tracker} {s : Nat} (h : t.entryAt? s = none) : (t.retire s).1 = t := by
  have hset : t.slots.set s none = t.slots := by
    apply List.ext_getElem?
    intro i
    rw [List.getElem?_set]
    split_ifs with hi hlt
    · subst hi
      rw [entryAt?, List.getElem?_eq_getElem hlt] at h
      rw [List.getElem?_eq_getElem hlt]
      exact congrArg some (by simpa using h.symm)
    · subst hi
      exact (List.getElem?_eq_none (Nat.le_of_not_lt hlt)).symm
    · rfl
  rw [retire, hset]

/-- An acknowledgment is new if a voter of some configuration in force is not in its set yet. -/
theorem recordAck_eq_true_iff {t : Tracker} {id : UInt64} : (t.recordAck id).2 = true ↔
    ∃ s e, t.entryAt? s = some e ∧ e.config.isVoter id = true ∧ e.acks.contains id = false := by
  rw [recordAck, List.any_eq_true]
  constructor
  · intro h
    obtain ⟨e, he, hl⟩ := h
    obtain ⟨s, hs⟩ := mem_active.mp he
    rw [Entry.lacks, Bool.and_eq_true, Bool.not_eq_true'] at hl
    exact ⟨s, e, hs, hl.1, hl.2⟩
  · intro h
    obtain ⟨s, e, he, hv, hc⟩ := h
    refine ⟨e, mem_active.mpr ⟨s, he⟩, ?_⟩
    rw [Entry.lacks, hv, hc]
    rfl

/-- An acknowledgment is news exactly if some configuration in force has the id as a voter and has
not heard from it. -/
theorem recordAck_iff {calls : List Call} {id : UInt64} :
    ((after calls).recordAck id).2 = true ↔
      ∃ s c since, InForce calls s c since ∧ c.isVoter id = true ∧ Call.ack id ∉ since := by
  rw [recordAck_eq_true_iff]
  constructor
  · intro h
    obtain ⟨s, e, he, hv, hc⟩ := h
    obtain ⟨since, hin, hsupp⟩ := inForce_of_entryAt? he
    refine ⟨s, e.config, since, hin, hv, ?_⟩
    intro hack
    have hmem : id ∈ e.acks.support := by
      rw [hsupp]
      exact mem_heard.mpr ⟨hv, hack⟩
    simp [hc] at hmem
  · intro h
    obtain ⟨s, c, since, hin, hv, hack⟩ := h
    obtain ⟨acks, he, hsupp⟩ := entryAt?_of_inForce hin
    have hout : id ∉ acks.support := by
      rw [hsupp]
      exact fun h => hack (mem_heard.mp h).2
    exact ⟨s, ⟨c, acks⟩, he, hv, by simpa using hout⟩

/-- What the calls made so far settle about a tracker: the number of the next slot, what stands in
each slot, and the answers to the calls that retire, acknowledge and ask. -/
structure Settled (calls : List Call) : Prop where
  /-- The next slot is numbered by the registrations so far, and no earlier slot has its number. -/
  numbered (c : Configuration) :
    ((after calls).step (.register c)).2 = .slot (registrations calls)
  fresh {s : Nat} {c : Configuration} {since : List Call} (h : Opened calls s c since) :
    s < registrations calls
  /-- A slot shows the configuration registered there until a retirement follows. -/
  config (s : Nat) (c : Configuration) :
    (after calls).config? s = some c ↔ ∃ since, InForce calls s c since
  /-- Its set holds the voters that acknowledged since the registration, and no one else. -/
  acked {s : Nat} {c : Configuration} {since : List Call} (h : InForce calls s c since) :
    ∃ acks : IdSet, (after calls).acked? s = some acks ∧
      ∀ id, acks.contains id = true ↔ c.isVoter id = true ∧ Call.ack id ∈ since
  retireActive {s : Nat} {c : Configuration} {since : List Call} (h : InForce calls s c since) :
    ((after calls).step (.retire s)).2 = .retired (some c) ∧
      entryAt? ((after calls).step (.retire s)).1 s = none
  retireOther {s : Nat} (h : ∀ c since, ¬ InForce calls s c since) :
    (after calls).step (.retire s) = (after calls, .retired none)
  retireFrame {s other : Nat} (h : other ≠ s) :
    entryAt? ((after calls).step (.retire s)).1 other = entryAt? (after calls) other
  /-- An acknowledgment is new if some slot in force has the voter and has not heard from it. -/
  ack (id : UInt64) :
    ((after calls).step (.ack id)).2 = .flag true ↔
      ∃ s c since, InForce calls s c since ∧ c.isVoter id = true ∧ Call.ack id ∉ since
  onlyVoters {s : Nat} {c : Configuration} {acks : IdSet}
    (hc : (after calls).config? s = some c) (ha : (after calls).acked? s = some acks)
    {id : UInt64} (h : acks.contains id = true) : c.isVoter id = true
  /-- Two registrations of one configuration collect each what came after it. -/
  independent {s₁ s₂ : Nat} {c : Configuration} {since₁ since₂ : List Call} {acks₁ acks₂ : IdSet}
    (h₁ : InForce calls s₁ c since₁) (h₂ : InForce calls s₂ c since₂)
    (ha₁ : (after calls).acked? s₁ = some acks₁) (ha₂ : (after calls).acked? s₂ = some acks₂)
    (id : UInt64) : (acks₁.contains id = true ∧ ¬ acks₂.contains id = true) ↔
      c.isVoter id = true ∧ Call.ack id ∈ since₁ ∧ Call.ack id ∉ since₂
  allQuorums : (after calls).hasAllQuorums = true ↔
    ∀ s c since, InForce calls s c since → (after calls).hasQuorum s = true
  votingMember (id : UInt64) : (after calls).isVotingMember id = true ↔
    ∀ s c since, InForce calls s c since → c.isVoter id = true

/-- Every tracker reached from the empty one is settled by the calls that reached it. -/
theorem settled_by_calls (calls : List Call) : Settled calls where
  numbered c := by
    rw [← (reflects_after calls).length]
    rfl
  fresh h := lt_registrations_iff.mpr ⟨_, _, h⟩
  config s c := config?_eq_some_iff
  acked h := acked?_of_inForce h
  retireActive := by
    intro s c since h
    obtain ⟨acks, he, _⟩ := entryAt?_of_inForce h
    have hanswer : ((after calls).retire s).2 = some c := by
      rw [retire, he]
      rfl
    exact ⟨congrArg Answer.retired hanswer, entryAt?_retire_self _ s⟩
  retireOther := by
    intro s h
    have hn : entryAt? (after calls) s = none := by
      by_contra hne
      obtain ⟨e, he⟩ := Option.ne_none_iff_exists'.mp hne
      obtain ⟨since, hin, _⟩ := inForce_of_entryAt? he
      exact h e.config since hin
    rw [step, retire_eq_self hn, retire, hn]
    rfl
  retireFrame h := entryAt?_retire_of_ne _ h
  ack id := by rw [step, ← recordAck_iff, Answer.flag.injEq]
  onlyVoters := by
    intro s c acks hc ha id h
    obtain ⟨since, hin⟩ := config?_eq_some_iff.mp hc
    exact ((contains_of_inForce hin ha id).mp h).1
  independent := by
    intro s₁ s₂ c since₁ since₂ acks₁ acks₂ h₁ h₂ ha₁ ha₂ id
    rw [contains_of_inForce h₁ ha₁, contains_of_inForce h₂ ha₂]
    constructor
    · intro h
      exact ⟨h.1.1, h.1.2, fun hack => h.2 ⟨h.1.1, hack⟩⟩
    · intro h
      exact ⟨⟨h.1, h.2.1⟩, fun hboth => h.2.2 hboth.2⟩
  allQuorums := hasAllQuorums_iff
  votingMember id := isVotingMember_iff

/-- The trio in two slots, each with what was acknowledged since its own registration. -/
theorem trio_registered_twice :
    let C := Configuration.mk 1 .majority .trio
    let calls := [.register C, .ack 1, .retire 1, .register C, .ack 3, .ack 4, .retire 7]
    InForce calls 0 C [.ack 1, .retire 1, .register C, .ack 3, .ack 4, .retire 7] ∧
      InForce calls 1 C [.ack 3, .ack 4, .retire 7] ∧
      (after calls).acked? 0 = some (IdMap.ofIds [1, 3]) ∧
      (after calls).acked? 1 = some (IdMap.ofIds [3]) ∧
      ((IdMap.ofIds [1, 3]).contains 1 = true ∧ ¬ (IdMap.ofIds [3]).contains 1 = true) := by
  intro C calls
  have h₁ : InForce calls 0 C [.ack 1, .retire 1, .register C, .ack 3, .ack 4, .retire 7] :=
    ⟨⟨[], rfl, rfl⟩, by decide⟩
  have h₂ : InForce calls 1 C [.ack 3, .ack 4, .retire 7] :=
    ⟨⟨[.register C, .ack 1, .retire 1], rfl, rfl⟩, by decide⟩
  have ha₁ : (after calls).acked? 0 = some (IdMap.ofIds [1, 3]) := by decide +kernel
  have ha₂ : (after calls).acked? 1 = some (IdMap.ofIds [3]) := by decide +kernel
  exact ⟨h₁, h₂, ha₁, ha₂, ((settled_by_calls calls).independent h₁ h₂ ha₁ ha₂ 1).mpr
    (by decide +kernel)⟩

end Electorate.Tracker
