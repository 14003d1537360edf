import Mathlib
import Electorate.IdMap

/-! The ids of a map as a finite set, with sums over the map as sums over that set. -/
namespace Electorate.IdMap
open scoped BigOperators
variable {α β : Type}

/-- The search that stops early still finds every entry, since what follows is lower. -/
theorem look_eq_some_iff {k : UInt64} {a : α} {l : List (UInt64 × α)}
    (h : l.Pairwise (fun a b => b.1 < a.1)) : look k l = some a ↔ (k, a) ∈ l := by
  induction l with
  | nil => simp [look]
  | cons x rest ih =>
    obtain ⟨i, b⟩ := x
    obtain ⟨hi, hr⟩ := List.pairwise_cons.mp h
    have hlow (c : α) (hc : (k, c) ∈ rest) : k < i := hi (k, c) hc
    unfold look
    split_ifs with hk hlt
    · subst hk
      have hnot (c : α) : (k, c) ∉ rest := fun hc => UInt64.lt_irrefl k (hlow c hc)
      simp only [Option.some.injEq, List.mem_cons, Prod.mk.injEq, true_and, hnot, or_false]
      exact eq_comm
    · have hnot : (k, a) ∉ rest := fun hc => UInt64.lt_asymm hlt (hlow a hc)
      simp [hk, hnot]
    · simp [hk, ih hr]

theorem find?_eq_some_iff (m : IdMap α) {k : UInt64} {a : α} :
    m.find? k = some a ↔ (k, a) ∈ m.entries := look_eq_some_iff m.descending

theorem mem_toList (m : IdMap α) {e : UInt64 × α} :
    e ∈ m.toList ↔ m.find? e.1 = some e.2 := by
  rw [find?_eq_some_iff]
  exact List.mem_reverse

/-- The ids under which something stands. -/
def support (m : IdMap α) : Finset UInt64 := m.ids.toFinset

@[simp] theorem mem_support (m : IdMap α) {k : UInt64} : k ∈ m.support ↔ m.contains k = true := by
  rw [support, List.mem_toFinset, ids, List.mem_map, contains, Option.isSome_iff_exists]
  constructor
  · intro h
    obtain ⟨e, he, rfl⟩ := h
    exact ⟨e.2, m.mem_toList.mp he⟩
  · intro h
    obtain ⟨a, ha⟩ := h
    exact ⟨(k, a), m.mem_toList.mpr ha, rfl⟩

theorem mem_ids (m : IdMap α) {k : UInt64} : k ∈ m.ids ↔ m.contains k = true := by
  rw [← mem_support, support, List.mem_toFinset]

theorem all_ids_iff {m : IdMap α} {p : UInt64 → Bool} :
    m.ids.all p = true ↔ ∀ k, m.contains k = true → p k = true := by
  simp only [List.all_eq_true, mem_ids]

/-- Ids are listed from low to high, each once. -/
theorem ids_ascending (m : IdMap α) : m.ids.Pairwise (· < ·) := by
  rw [ids, toList, List.map_reverse, List.pairwise_reverse, List.pairwise_map]
  exact m.descending

theorem nodup_ids (m : IdMap α) : m.ids.Nodup :=
  m.ids_ascending.imp fun h => UInt64.ne_of_lt h

/-- The search through the ids finds the lowest one that fits. -/
theorem find?_ids_eq_some_iff (m : IdMap α) {p : UInt64 → Bool} {k : UInt64} :
    m.ids.find? p = some k ↔
      (m.contains k = true ∧ p k = true) ∧ ∀ j, m.contains j = true → p j = true → k ≤ j := by
  have hascending := m.ids_ascending
  simp only [← mem_ids, List.find?_eq_some_iff_append, Bool.not_eq_true']
  constructor
  · intro h
    obtain ⟨hk, before, after, hids, hbefore⟩ := h
    rw [hids] at hascending ⊢
    refine ⟨⟨List.mem_append_right _ List.mem_cons_self, hk⟩, ?_⟩
    intro j hj hpj
    rcases List.mem_append.mp hj with hj | hj
    · exact absurd hpj (ne_true_of_eq_false (hbefore j hj))
    · obtain ⟨-, hafter, -⟩ := List.pairwise_append.mp hascending
      rcases List.mem_cons.mp hj with rfl | hj
      · exact UInt64.le_refl _
      · exact UInt64.le_of_lt ((List.pairwise_cons.mp hafter).1 j hj)
  · intro h
    obtain ⟨⟨hmem, hk⟩, hleast⟩ := h
    obtain ⟨before, after, hids⟩ := List.append_of_mem hmem
    refine ⟨hk, before, after, hids, ?_⟩
    -- an id before that one is lower, so it cannot fit
    intro j hj
    rw [hids] at hascending hleast
    apply eq_false_of_ne_true
    intro hpj
    have hlt : j < k := (List.pairwise_append.mp hascending).2.2 j hj k List.mem_cons_self
    exact UInt64.not_lt.mpr (hleast j (List.mem_append_left _ hj) hpj) hlt

/-- A map is determined by what it holds under each id, since the order of its entries is. -/
theorem eq_of_find? {m m' : IdMap α} (h : ∀ k, m.find? k = m'.find? k) : m = m' := by
  have hnodup (m : IdMap α) : m.entries.Nodup := by
    apply m.descending.imp
    intro a b hlt heq
    rw [heq] at hlt
    exact UInt64.lt_irrefl _ hlt
  have hmem (e : UInt64 × α) : e ∈ m.entries ↔ e ∈ m'.entries := by
    rw [← m.find?_eq_some_iff, ← m'.find?_eq_some_iff, h]
  have hperm : m.entries.Perm m'.entries :=
    (List.perm_ext_iff_of_nodup (hnodup m) (hnodup m')).mpr hmem
  have hentries : m.entries = m'.entries := by
    apply List.Perm.eq_of_pairwise _ m.descending m'.descending hperm
    intro a b _ _ hab hba
    exact absurd hba (UInt64.lt_asymm hab)
  cases m
  cases m'
  congr

/-- A set of ids is determined by its elements. -/
theorem eq_of_support {s s' : IdSet} (h : s.support = s'.support) : s = s' := by
  apply eq_of_find?
  intro k
  have hk : s.contains k = true ↔ s'.contains k = true := by
    rw [← mem_support, ← mem_support, h]
  rw [contains, contains, Option.isSome_iff_exists, Option.isSome_iff_exists] at hk
  -- an entry of a set says no more than that it is there
  apply Option.ext
  intro u
  constructor
  · intro hu
    obtain ⟨_, hu'⟩ := hk.mp ⟨u, hu⟩
    exact hu'
  · intro hu
    obtain ⟨_, hu'⟩ := hk.mpr ⟨u, hu⟩
    exact hu'

theorem card_support (m : IdMap α) : m.support.card = m.size := by
  rw [support, List.toFinset_card_of_nodup m.nodup_ids]
  simp [ids, toList, size]

/-- Where one id is left out, the entries can be counted in 64 bits. -/
theorem size_lt_of_not_contains_zero (m : IdMap α) (h : m.contains 0 = false) :
    m.size < UInt64.size := by
  have hsub : ∀ id ∈ m.support, id.toNat ∈ Finset.Ico 1 UInt64.size := by
    intro id hid
    have hne : id ≠ 0 := by
      rintro rfl
      rw [mem_support, h] at hid
      cases hid
    have hpos : 0 < id.toNat := Nat.pos_of_ne_zero fun h0 => hne (UInt64.toNat_inj.mp h0)
    exact Finset.mem_Ico.mpr ⟨hpos, id.toNat_lt_size⟩
  have hcard : m.support.card ≤ (Finset.Ico 1 UInt64.size).card :=
    Finset.card_le_card_of_injOn UInt64.toNat hsub fun _ _ _ _ => UInt64.toNat_inj.mp
  rw [card_support, Nat.card_Ico] at hcard
  have hpos : 0 < UInt64.size := by decide
  omega

theorem sum_ids (m : IdMap α) (f : UInt64 → ℕ) :
    (m.ids.map f).sum = ∑ id ∈ m.support, f id := by
  rw [support, List.sum_toFinset f m.nodup_ids]

/-- A sum over the values, each looked up under its id. -/
theorem sum_values (m : IdMap α) (f : α → ℕ) :
    (m.values.map f).sum = ∑ id ∈ m.support, (m.find? id).elim 0 f := by
  rw [← sum_ids, values, ids, List.map_map, List.map_map]
  congr 1
  apply List.map_congr_left
  intro e he
  simp [m.mem_toList.mp he]

@[simp] theorem contains_empty (k : UInt64) : (empty : IdMap α).contains k = false := rfl

theorem contains_insert (m : IdMap α) (k j : UInt64) (a : α) :
    (m.insert k a).contains j = true ↔ j = k ∨ m.contains j = true := by
  rw [contains, contains, find?_insert]
  split_ifs with h <;> simp [h]

theorem contains_insert_of_ne (m : IdMap α) {k j : UInt64} (h : j ≠ k) (a : α) :
    (m.insert k a).contains j = m.contains j := by
  rw [contains, contains, find?_insert_of_ne m h]

theorem contains_insert_eq_false_iff (m : IdMap α) {k j : UInt64} {a : α} :
    (m.insert k a).contains j = false ↔ j ≠ k ∧ m.contains j = false := by
  rw [← Bool.not_eq_true, contains_insert, not_or, Bool.not_eq_true]

/-- What is put under a new id leaves everything else where it is. -/
theorem find?_insert_eq_some_iff (m : IdMap α) {k : UInt64} (h : m.contains k = false)
    {a : α} {j : UInt64} {b : α} :
    (m.insert k a).find? j = some b ↔ (j = k ∧ b = a) ∨ m.find? j = some b := by
  have hnone : m.find? k = none := by
    rw [contains, Option.isSome_eq_false_iff, Option.isNone_iff_eq_none] at h
    exact h
  rw [find?_insert]
  split_ifs with hj
  · simp [hj, hnone, eq_comm]
  · simp [hj]

theorem look_map (k : UInt64) (f : UInt64 → α → β) (l : List (UInt64 × α)) :
    look k (l.map fun e => (e.1, f e.1 e.2)) = (look k l).map (f k) := by
  induction l with
  | nil => rfl
  | cons e l ih =>
    rw [List.map_cons, look, look]
    split_ifs with hk
    · rw [hk, Option.map_some]
    · rfl
    · exact ih

@[simp] theorem find?_mapIds (m : IdMap α) (f : UInt64 → α → β) (k : UInt64) :
    (m.mapIds f).find? k = (m.find? k).map (f k) := look_map k f m.entries

@[simp] theorem find?_filter (m : IdMap α) (p : α → Bool) (k : UInt64) :
    (m.filter p).find? k = (m.find? k).filter p := by
  apply Option.ext
  intro a
  rw [find?_eq_some_iff, Option.filter_eq_some_iff, find?_eq_some_iff, filter, List.mem_filter]

theorem find?_filter_eq_some_iff (m : IdMap α) {p : α → Bool} {k : UInt64} {a : α} :
    (m.filter p).find? k = some a ↔ m.find? k = some a ∧ p a = true := by
  rw [find?_filter, Option.filter_eq_some_iff]

theorem contains_of_contains_filter (m : IdMap α) {p : α → Bool} {k : UInt64}
    (h : (m.filter p).contains k = true) : m.contains k = true := by
  obtain ⟨a, ha⟩ := Option.isSome_iff_exists.mp h
  rw [contains, (m.find?_filter_eq_some_iff.mp ha).1]
  rfl

@[simp] theorem contains_mapIds (m : IdMap α) (f : UInt64 → α → β) (k : UInt64) :
    (m.mapIds f).contains k = m.contains k := by
  rw [contains, contains, find?_mapIds, Option.isSome_map]

theorem size_mapIds (m : IdMap α) (f : UInt64 → α → β) : (m.mapIds f).size = m.size :=
  List.length_map _

theorem values_mapIds (m : IdMap α) (f : UInt64 → α → β) :
    (m.mapIds f).values = m.toList.map fun e => f e.1 e.2 := by
  rw [values, toList, mapIds, ← List.map_reverse, List.map_map]
  rfl

theorem mapIds_eq_self {m : IdMap α} {f : UInt64 → α → α}
    (h : ∀ k a, m.find? k = some a → f k a = a) : m.mapIds f = m := by
  apply eq_of_find?
  intro k
  rw [find?_mapIds]
  cases hk : m.find? k with
  | none => rfl
  | some a => rw [Option.map_some, h k a hk]

/-- A filter looks at values only, so it may come before a change that it does not see. -/
theorem filter_mapIds (m : IdMap α) (f : UInt64 → α → α) (p : α → Bool)
    (h : ∀ k a, p (f k a) = p a) : (m.mapIds f).filter p = (m.filter p).mapIds f := by
  apply eq_of_find?
  intro k
  rw [find?_filter, find?_mapIds, find?_mapIds, find?_filter]
  cases m.find? k with
  | none => rfl
  | some a =>
    rw [Option.map_some, Option.filter_some, Option.filter_some, h]
    split_ifs <;> rfl

theorem mem_values (m : IdMap α) {a : α} : a ∈ m.values ↔ ∃ k, m.find? k = some a := by
  rw [values, List.mem_map]
  constructor
  · intro h
    obtain ⟨e, he, rfl⟩ := h
    exact ⟨e.1, m.mem_toList.mp he⟩
  · intro h
    obtain ⟨k, hk⟩ := h
    exact ⟨(k, a), m.mem_toList.mpr hk, rfl⟩

theorem place_of_forall_lt {k : UInt64} (a : α) {l : List (UInt64 × α)}
    (h : ∀ e ∈ l, e.1 < k) : place k a l = (k, a) :: l := by
  cases l with
  | nil => rfl
  | cons e l =>
    have he : e.1 < k := h e List.mem_cons_self
    rw [place, if_neg (UInt64.ne_of_lt he).symm, if_pos he]

theorem eq_of_entries {m m' : IdMap α} (h : m.entries = m'.entries) : m = m' := by
  cases m
  cases m'
  congr

theorem entries_insert (m : IdMap α) (k : UInt64) (a : α) :
    (m.insert k a).entries = place k a m.entries := rfl

/-- A map put together again from its entries, each changed on the way. -/
theorem foldl_insert_toList (m : IdMap α) (f : UInt64 → α → β) :
    m.toList.foldl (fun s e => s.insert e.1 (f e.1 e.2)) empty = m.mapIds f := by
  have hentries (l : List (UInt64 × α)) (hl : l.Pairwise (fun a b => b.1 < a.1)) :
      (l.foldr (fun e s => s.insert e.1 (f e.1 e.2)) empty).entries =
        l.map fun e => (e.1, f e.1 e.2) := by
    induction l with
    | nil => rfl
    | cons e l ih =>
      obtain ⟨he, hl⟩ := List.pairwise_cons.mp hl
      rw [List.foldr_cons, entries_insert, ih hl]
      -- ids come in ascending order, so each goes to the front
      apply place_of_forall_lt
      intro x hx
      obtain ⟨y, hy, rfl⟩ := List.mem_map.mp hx
      exact he y hy
  apply eq_of_entries
  rw [toList, List.foldl_reverse]
  exact hentries m.entries m.descending

/-- The same from the values alone, where each knows its id. -/
theorem foldl_insert_values (m : IdMap α) {key : α → UInt64}
    (hkey : ∀ k a, m.find? k = some a → key a = k) (f : α → β) :
    m.values.foldl (fun s a => s.insert (key a) (f a)) empty = m.mapIds fun _ a => f a := by
  rw [values, List.foldl_map, ← m.foldl_insert_toList]
  apply List.foldl_ext
  intro s e he
  rw [hkey e.1 e.2 (m.mem_toList.mp he)]

/-- Values that tell the id they stand under tell no id twice. -/
theorem nodup_map_values (m : IdMap α) {key : α → UInt64}
    (hkey : ∀ k a, m.find? k = some a → key a = k) : (m.values.map key).Nodup := by
  have hids : m.values.map key = m.ids := by
    rw [values, ids, List.map_map]
    apply List.map_congr_left
    intro e he
    exact hkey e.1 e.2 (m.mem_toList.mp he)
  rw [hids]
  exact m.nodup_ids

/-- The entries whose ids pass a test. -/
def restrict (m : IdMap α) (p : UInt64 → Bool) : IdMap α :=
  ⟨m.entries.filter (fun e => p e.1), m.descending.filter _⟩

theorem support_restrict (m : IdMap α) (p : UInt64 → Bool) :
    (m.restrict p).support = m.support.filter (fun k => p k = true) := by
  ext k
  simp only [Finset.mem_filter, mem_support, contains, Option.isSome_iff_exists, find?_eq_some_iff,
    restrict, List.mem_filter, exists_and_right]

theorem support_insert (m : IdMap α) (k : UInt64) (a : α) :
    (m.insert k a).support = Insert.insert k m.support := by
  ext j
  rw [mem_support, contains_insert, Finset.mem_insert, mem_support]

theorem length_ids (m : IdMap α) : m.ids.length = m.size := by
  rw [ids, toList, List.length_map, List.length_reverse, size]

theorem isEmpty_eq_false_iff (m : IdMap α) : m.isEmpty = false ↔ ∃ k, m.contains k = true := by
  rw [isEmpty, List.isEmpty_eq_false_iff_exists_mem]
  constructor
  · intro h
    obtain ⟨e, he⟩ := h
    exact ⟨e.1, by rw [contains, m.find?_eq_some_iff.mpr he]; rfl⟩
  · intro h
    obtain ⟨k, hk⟩ := h
    obtain ⟨a, ha⟩ := Option.isSome_iff_exists.mp hk
    exact ⟨(k, a), m.find?_eq_some_iff.mp ha⟩

end Electorate.IdMap
