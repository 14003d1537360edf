import Electorate.Proofs.Tracker.History

/-! What acknowledgments change in a tracker, one by one and in any number. -/
namespace Electorate

namespace Entry

def ackAll (e : Entry) (ids : List UInt64) : Entry := ids.foldl ack e

theorem config_ackAll (e : Entry) (ids : List UInt64) : (e.ackAll ids).config = e.config := by
  induction ids generalizing e with
  | nil => rfl
  | cons id ids ih => exact (ih (e.ack id)).trans (Tracker.config_ack e id)

theorem mem_support_ackAll (e : Entry) (ids : List UInt64) {id : UInt64} :
    id ∈ (e.ackAll ids).acks.support ↔
      id ∈ e.acks.support ∨ (id ∈ ids ∧ e.config.isVoter id = true) := by
  induction ids generalizing e with
  | nil => simp [ackAll]
  | cons first ids ih =>
    have hrest : id ∈ (e.ackAll (first :: ids)).acks.support ↔
        (id ∈ e.acks.support ∨ (id = first ∧ e.config.isVoter first = true)) ∨
          (id ∈ ids ∧ e.config.isVoter id = true) := by
      rw [← Tracker.mem_support_ack, ← Tracker.config_ack e first]
      exact ih (e.ack first)
    rw [hrest, List.mem_cons]
    by_cases hid : id = first
    · subst hid
      tauto
    · simp only [hid, false_and, or_false, false_or]

/-- Only which ids acknowledge matters, not how often or in what order. -/
theorem ackAll_congr (e : Entry) {ids ids' : List UInt64} (h : ∀ id, id ∈ ids ↔ id ∈ ids') :
    e.ackAll ids = e.ackAll ids' := by
  have hacks : (e.ackAll ids).acks = (e.ackAll ids').acks := by
    apply IdMap.eq_of_support
    ext id
    rw [mem_support_ackAll, mem_support_ackAll, h]
  have hconfig : (e.ackAll ids).config = (e.ackAll ids').config := by
    rw [config_ackAll, config_ackAll]
  exact congrArg₂ Entry.mk hconfig hacks

theorem ack_eq_self {e : Entry} {id : UInt64} (h : e.lacks id = false) : e.ack id = e := by
  rw [ack, h]
  rfl

/-- After an acknowledgment the set lacks what it lacked before, except for that one id. -/
theorem lacks_ack (e : Entry) (first id : UInt64) :
    (e.ack first).lacks id = (decide (id ≠ first) && e.lacks id) := by
  rw [ack]
  by_cases hid : id = first
  · subst hid
    split_ifs with h
    · simp [lacks, IdMap.contains]
    · simpa using h
  · split_ifs with h
    · simp [lacks, IdMap.contains, IdMap.find?_insert_of_ne, hid]
    · simp [hid]

end Entry

namespace Tracker

/-- Every slot hears the whole list by itself. -/
theorem slots_recordAll (t : Tracker) (ids : List UInt64) :
    (t.recordAll ids).slots = t.slots.map (Option.map (Entry.ackAll · ids)) := by
  induction ids generalizing t with
  | nil =>
    have hid : Option.map (fun e : Entry => e.ackAll []) = id := Option.map_id
    rw [hid, List.map_id]
    rfl
  | cons id ids ih =>
    calc
      ((t.recordAck id).1.recordAll ids).slots =
          (t.slots.map (Option.map (Entry.ack · id))).map (Option.map (Entry.ackAll · ids)) :=
        ih (t.recordAck id).1
      _ = t.slots.map (Option.map (Entry.ackAll · (id :: ids))) := by
        rw [List.map_map]
        apply List.map_congr_left
        intro x _
        exact Option.map_map ..

theorem entryAt?_recordAll (t : Tracker) (ids : List UInt64) (s : Nat) :
    entryAt? (t.recordAll ids) s = (t.entryAt? s).map (Entry.ackAll · ids) := by
  rw [entryAt?, entryAt?, slots_recordAll, List.getElem?_map]
  cases t.slots[s]? <;> rfl

/-- Neither order nor repetition of acknowledgments matters. -/
theorem recordAll_congr (t : Tracker) {ids ids' : List UInt64} (h : ∀ id, id ∈ ids ↔ id ∈ ids') :
    t.recordAll ids = t.recordAll ids' := by
  have hack : (fun e : Entry => e.ackAll ids) = fun e => e.ackAll ids' :=
    funext fun e => e.ackAll_congr h
  have hslots : (t.recordAll ids).slots = (t.recordAll ids').slots := by
    rw [slots_recordAll, slots_recordAll, hack]
  exact congrArg Tracker.mk hslots

theorem active_recordAck (t : Tracker) (id : UInt64) :
    (t.recordAck id).1.active = t.active.map (Entry.ack · id) := by
  rw [active, recordAck, active, List.filterMap_map, List.map_filterMap]
  rfl

/-- An acknowledgment is new after another one if it comes from someone else and was new before. -/
theorem recordAck_recordAck (t : Tracker) (first id : UInt64) :
    ((t.recordAck first).1.recordAck id).2 = (decide (id ≠ first) && (t.recordAck id).2) := by
  have hnew (t : Tracker) : (t.recordAck id).2 = t.active.any (Entry.lacks · id) := rfl
  rw [hnew, hnew, active_recordAck, List.any_map]
  induction t.active with
  | nil => simp
  | cons e rest ih =>
    simp only [List.any_cons, ih, Function.comp_apply, Entry.lacks_ack, Bool.and_or_distrib_left]

/-- An acknowledgment that is not new leaves every set as it was. -/
theorem recordAck_eq_self {t : Tracker} {id : UInt64} (h : (t.recordAck id).2 = false) :
    (t.recordAck id).1 = t := by
  have hlacks : ∀ e ∈ t.active, e.lacks id = false := by
    intro e he
    exact eq_false_of_ne_true fun hl => List.any_eq_false.mp h e he hl
  have hslot : ∀ x ∈ t.slots, x.map (Entry.ack · id) = x := by
    intro x hx
    cases x with
    | none => rfl
    | some e =>
      have he : e ∈ t.active := List.mem_filterMap.mpr ⟨some e, hx, rfl⟩
      exact congrArg some (Entry.ack_eq_self (hlacks e he))
  have hslots : t.slots.map (Option.map (Entry.ack · id)) = t.slots :=
    calc
      t.slots.map (Option.map (Entry.ack · id)) = t.slots.map (fun x => x) :=
        List.map_congr_left hslot
      _ = t.slots := List.map_id' t.slots
  rw [recordAck, hslots]

end Tracker

end Electorate
