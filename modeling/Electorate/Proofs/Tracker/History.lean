import Electorate.Tracker.Call
import Electorate.Proofs.Quorum

/-! What stands in each slot of a tracker, read off the calls made so far. -/
namespace Electorate

/-- A list with one more element is cut where it could be cut before, or at that element. -/
theorem append_singleton_eq_iff {α : Type} {l before since : List α} {x y : α} :
    l ++ [x] = before ++ y :: since ↔
      (∃ earlier, since = earlier ++ [x] ∧ l = before ++ y :: earlier) ∨
      (since = [] ∧ l = before ∧ x = y) := by
  constructor
  · intro h
    rcases List.eq_nil_or_concat since with rfl | ⟨earlier, last, rfl⟩
    · obtain ⟨hl, hx⟩ := List.append_inj' h rfl
      exact Or.inr ⟨rfl, hl, List.singleton_inj.mp hx⟩
    · rw [List.concat_eq_append, ← List.cons_append, ← List.append_assoc] at h
      obtain ⟨hl, hx⟩ := List.append_inj' h rfl
      rw [List.singleton_inj.mp hx, List.concat_eq_append]
      exact Or.inl ⟨earlier, rfl, hl⟩
  · intro h
    rcases h with ⟨earlier, rfl, rfl⟩ | ⟨rfl, rfl, rfl⟩
    · simp
    · rfl

namespace Tracker

/-- How many configurations the calls register. -/
def registrations (calls : List Call) : Nat :=
  calls.countP fun
    | .register _ => true
    | _ => false

/-- The calls open `slot` for `config`, and `since` are the calls made after that. Slots are
numbered in the order of registration. -/
def Opened (calls : List Call) (slot : Nat) (config : Configuration) (since : List Call) : Prop :=
  ∃ before, calls = before ++ Call.register config :: since ∧ registrations before = slot

/-- A slot is in force from its registration until it is retired. -/
def InForce (calls : List Call) (slot : Nat) (config : Configuration) (since : List Call) : Prop :=
  Opened calls slot config since ∧ Call.retire slot ∉ since

/-- The voters of a configuration that acknowledge in the calls. -/
def heard (config : Configuration) (calls : List Call) : Finset UInt64 :=
  config.voters.filter (fun id => Call.ack id ∈ calls)

theorem mem_heard {config : Configuration} {calls : List Call} {id : UInt64} :
    id ∈ heard config calls ↔ config.isVoter id = true ∧ Call.ack id ∈ calls := by
  rw [heard, Finset.mem_filter, Configuration.mem_voters]

theorem heard_append_ack (c : Configuration) (calls : List Call) {id j : UInt64} :
    j ∈ heard c (calls ++ [Call.ack id]) ↔ j ∈ heard c calls ∨ (j = id ∧ c.isVoter id = true) := by
  simp only [mem_heard, List.mem_append, List.mem_singleton, Call.ack.injEq]
  by_cases hj : j = id
  · simp only [hj, or_true, and_true, true_and]
    exact ⟨Or.inr, fun h => h.elim And.left fun hv => hv⟩
  · simp only [hj, or_false, false_and]

theorem heard_append_of_ne (c : Configuration) (calls : List Call) {call : Call}
    (h : ∀ id, call ≠ Call.ack id) : heard c (calls ++ [call]) = heard c calls := by
  ext j
  simp [mem_heard, (h j).symm]

theorem after_append_singleton (calls : List Call) (call : Call) :
    after (calls ++ [call]) = ((after calls).step call).1 := by
  rw [after, after, run_append]
  rfl

theorem recordAll_after (calls : List Call) (ids : List UInt64) :
    (after calls).recordAll ids = after (calls ++ ids.map Call.ack) := by
  induction ids generalizing calls with
  | nil => rw [List.map_nil, List.append_nil]; rfl
  | cons id ids ih =>
    have hsplit : calls ++ (id :: ids).map Call.ack =
        (calls ++ [Call.ack id]) ++ ids.map Call.ack := by simp
    rw [hsplit, ← ih, after_append_singleton]
    rfl

theorem registrations_append_singleton (calls : List Call) (call : Call) :
    registrations (calls ++ [call]) = registrations calls + registrations [call] := by
  rw [registrations, List.countP_append]
  rfl

/-- After one more call a slot is open if it was before, or if that call has just registered it. -/
theorem opened_append_singleton {calls since : List Call} {call : Call} {s : Nat}
    {c : Configuration} : Opened (calls ++ [call]) s c since ↔
      (∃ earlier, since = earlier ++ [call] ∧ Opened calls s c earlier) ∨
      (since = [] ∧ call = Call.register c ∧ registrations calls = s) := by
  constructor
  · intro h
    obtain ⟨before, hsplit, hs⟩ := h
    rcases append_singleton_eq_iff.mp hsplit with ⟨earlier, rfl, hcalls⟩ | ⟨rfl, rfl, hcall⟩
    · exact Or.inl ⟨earlier, rfl, before, hcalls, hs⟩
    · exact Or.inr ⟨rfl, hcall, hs⟩
  · intro h
    rcases h with ⟨earlier, rfl, before, rfl, hs⟩ | ⟨rfl, rfl, hs⟩
    · exact ⟨before, by simp, hs⟩
    · exact ⟨calls, rfl, hs⟩

theorem not_opened_nil {since : List Call} {s : Nat} {c : Configuration} :
    ¬ Opened [] s c since := by
  intro h
  obtain ⟨before, hsplit, _⟩ := h
  simp at hsplit

/-- The slots handed out are the open ones. -/
theorem lt_registrations_iff {calls : List Call} {s : Nat} :
    s < registrations calls ↔ ∃ c since, Opened calls s c since := by
  have hone (c : Configuration) : registrations [Call.register c] = 1 := rfl
  induction calls using List.reverseRecOn with
  | nil =>
    constructor
    · intro h
      exact absurd h (Nat.not_lt_zero s)
    · intro h
      obtain ⟨c, since, ho⟩ := h
      exact absurd ho not_opened_nil
  | append_singleton calls call ih =>
    rw [registrations_append_singleton]
    constructor
    · intro h
      by_cases hs : s < registrations calls
      · obtain ⟨c, since, ho⟩ := ih.mp hs
        exact ⟨c, since ++ [call], opened_append_singleton.mpr (Or.inl ⟨since, rfl, ho⟩)⟩
      · -- the last call is the one that opens the slot
        cases call with
        | register c =>
          have hlast : registrations calls = s := by have := hone c; omega
          exact ⟨c, [], opened_append_singleton.mpr (Or.inr ⟨rfl, rfl, hlast⟩)⟩
        | _ => exact absurd h hs
    · intro h
      obtain ⟨c, since, ho⟩ := h
      rcases opened_append_singleton.mp ho with ⟨earlier, _, ho⟩ | ⟨_, rfl, hs⟩
      · have hlt := ih.mpr ⟨c, earlier, ho⟩
        omega
      · have := hone c
        omega

theorem mem_support_ack (e : Entry) {id j : UInt64} :
    j ∈ (e.ack id).acks.support ↔
      j ∈ e.acks.support ∨ (j = id ∧ e.config.isVoter id = true) := by
  unfold Entry.ack Entry.lacks
  simp only [IdMap.mem_support]
  split_ifs with h
  · simp only [Bool.and_eq_true] at h
    rw [IdMap.contains_insert]
    simp [h.1, or_comm]
  · -- an id left out either does not vote or stands in the set already
    constructor
    · exact Or.inl
    · intro hj
      rcases hj with hj | ⟨rfl, hv⟩
      · exact hj
      · simpa [hv] using h

@[simp] theorem config_ack (e : Entry) (id : UInt64) : (e.ack id).config = e.config := by
  unfold Entry.ack
  split_ifs <;> rfl

/-- What a call does to a slot that was there before it. -/
def Call.onSlot (call : Call) (s : Nat) (x : Option Entry) : Option Entry :=
  match call with
  | .retire r => if r = s then none else x
  | .ack id => x.map (Entry.ack · id)
  | _ => x

theorem length_step (t : Tracker) (call : Call) :
    (t.step call).1.slots.length = t.slots.length + registrations [call] := by
  cases call <;> simp [step, register, retire, recordAck, registrations]

/-- A call acts on each slot by itself. -/
theorem slots_step (t : Tracker) (call : Call) {s : Nat} (hs : s < t.slots.length) :
    (t.step call).1.slots[s]? = (t.slots[s]?).map (call.onSlot s) := by
  cases call with
  | register c =>
    rw [step, register, List.getElem?_append_left hs]
    exact Option.map_id'.symm
  | retire r =>
    rw [step, retire, List.getElem?_eq_getElem hs]
    by_cases hr : r = s
    · simp [Call.onSlot, hr, hs]
    · simp [Call.onSlot, hr, hs]
  | ack id =>
    rw [step, recordAck, List.getElem?_map]
    rfl
  | _ => exact Option.map_id'.symm

/-- What a slot opened for `c` holds after the calls `since`: nothing once it is retired, and
until then `c` with the voters heard since its registration. -/
structure Holds (s : Nat) (c : Configuration) (since : List Call) (x : Option Entry) : Prop where
  retired : Call.retire s ∈ since → x = none
  held : Call.retire s ∉ since → ∃ acks : IdSet, x = some ⟨c, acks⟩ ∧ acks.support = heard c since

theorem holds_start (s : Nat) (c : Configuration) : Holds s c [] (some (Entry.start c)) where
  retired h := absurd h List.not_mem_nil
  held _ := by
    refine ⟨IdMap.empty, rfl, ?_⟩
    ext id
    simp [mem_heard]

theorem holds_step {s : Nat} {c : Configuration} {since : List Call} {x : Option Entry}
    (h : Holds s c since x) (call : Call) : Holds s c (since ++ [call]) (call.onSlot s x) where
  retired hr := by
    rcases List.mem_append.mp hr with hr | hr
    · rw [h.retired hr]
      cases call <;> simp [Call.onSlot]
    · rw [← List.mem_singleton.mp hr]
      simp [Call.onSlot]
  held hr := by
    obtain ⟨hold, hnew⟩ := not_or.mp (mt List.mem_append.mpr hr)
    obtain ⟨acks, rfl, hsupp⟩ := h.held hold
    cases call with
    | retire r =>
      have hne : r ≠ s := fun he => hnew (by simp [he])
      refine ⟨acks, by simp [Call.onSlot, hne], ?_⟩
      rw [hsupp, heard_append_of_ne c since (by simp)]
    | ack id =>
      refine ⟨(Entry.ack ⟨c, acks⟩ id).acks, ?_, ?_⟩
      · exact congrArg some (congrArg₂ Entry.mk (config_ack ⟨c, acks⟩ id) rfl)
      · ext j
        rw [mem_support_ack, heard_append_ack, hsupp]
    | _ => exact ⟨acks, rfl, by rw [hsupp, heard_append_of_ne c since (by simp)]⟩

/-- A tracker reflects the calls if it has a slot for each registration and each slot holds what
the calls since its registration leave in it. -/
structure Reflects (calls : List Call) (t : Tracker) : Prop where
  length : t.slots.length = registrations calls
  slots : ∀ {s c since}, Opened calls s c since → ∃ x, t.slots[s]? = some x ∧ Holds s c since x

/-- A tracker keeps up with its history, call by call. -/
theorem reflects_step {calls : List Call} {t : Tracker} (h : Reflects calls t) (call : Call) :
    Reflects (calls ++ [call]) (t.step call).1 where
  length := by rw [length_step, h.length, registrations_append_singleton]
  slots := by
    intro s c since ho
    -- either the slot was there before the call, or the call opens it
    rcases opened_append_singleton.mp ho with ⟨earlier, rfl, hold⟩ | ⟨rfl, rfl, hs⟩
    · obtain ⟨x, hx, hholds⟩ := h.slots hold
      have hlt : s < t.slots.length := (List.getElem?_eq_some_iff.mp hx).1
      refine ⟨call.onSlot s x, ?_, holds_step hholds call⟩
      rw [slots_step t call hlt, hx]
      rfl
    · refine ⟨some (Entry.start c), ?_, holds_start s c⟩
      rw [← hs, ← h.length, step, register]
      exact List.getElem?_concat_length

/-- Whatever the calls, the tracker they leave behind reflects them. -/
theorem reflects_after (calls : List Call) : Reflects calls (after calls) := by
  -- on the last call, since that is where a history grows
  induction calls using List.reverseRecOn with
  | nil => exact ⟨rfl, fun h => absurd h not_opened_nil⟩
  | append_singleton calls call ih =>
    rw [after_append_singleton]
    exact reflects_step ih call

/-- A configuration in force stands in its slot, with those heard since its registration. -/
theorem entryAt?_of_inForce {calls since : List Call} {s : Nat} {c : Configuration}
    (h : InForce calls s c since) :
    ∃ acks : IdSet, entryAt? (after calls) s = some ⟨c, acks⟩ ∧ acks.support = heard c since := by
  obtain ⟨x, hx, hholds⟩ := (reflects_after calls).slots h.1
  obtain ⟨acks, rfl, hsupp⟩ := hholds.held h.2
  have he : entryAt? (after calls) s = some ⟨c, acks⟩ := by
    rw [entryAt?, hx]
    rfl
  exact ⟨acks, he, hsupp⟩

/-- Conversely, whatever stands in a slot is in force there. -/
theorem inForce_of_entryAt? {calls : List Call} {s : Nat} {e : Entry}
    (h : entryAt? (after calls) s = some e) :
    ∃ since, InForce calls s e.config since ∧ e.acks.support = heard e.config since := by
  have hslot : (after calls).slots[s]? = some (some e) := Option.join_eq_some_iff.mp h
  have hlt : s < registrations calls := by
    rw [← (reflects_after calls).length]
    exact (List.getElem?_eq_some_iff.mp hslot).1
  obtain ⟨c, since, ho⟩ := lt_registrations_iff.mp hlt
  obtain ⟨x, hx, hholds⟩ := (reflects_after calls).slots ho
  obtain rfl : x = some e := Option.some.inj (hx.symm.trans hslot)
  have hr : Call.retire s ∉ since := fun hr => by simpa using hholds.retired hr
  obtain ⟨acks, he, hsupp⟩ := hholds.held hr
  obtain rfl := Option.some.inj he
  exact ⟨since, ⟨ho, hr⟩, hsupp⟩

end Tracker

end Electorate
