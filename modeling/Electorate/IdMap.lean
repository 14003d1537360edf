namespace Electorate

/-- Entries under 64-bit ids, highest id first and no id twice. The order makes
equal contents equal values, and a new highest id costs one step. -/
structure IdMap (α : Type) where
  entries : List (UInt64 × α)
  descending : entries.Pairwise (fun a b => b.1 < a.1)
  deriving DecidableEq

/-- The ids of an acknowledgment, or any other finite set of ids. -/
abbrev IdSet := IdMap Unit

namespace IdMap
variable {α β : Type}

/-- The value under `k` in a descending list. The search ends at the first lower id. -/
def look (k : UInt64) : List (UInt64 × α) → Option α
  | [] => none
  | (i, a) :: rest => if k = i then some a else if i < k then none else look k rest

/-- Puts `a` under `k`, in place of what was there. -/
def place (k : UInt64) (a : α) : List (UInt64 × α) → List (UInt64 × α)
  | [] => [(k, a)]
  | (i, b) :: rest =>
    if k = i then (k, a) :: rest
    else if i < k then (k, a) :: (i, b) :: rest
    else (i, b) :: place k a rest

theorem mem_place {k : UInt64} {a : α} {l : List (UInt64 × α)} {e : UInt64 × α}
    (h : e ∈ place k a l) : e = (k, a) ∨ e ∈ l := by
  induction l with
  | nil => simpa [place] using h
  | cons x rest ih =>
    obtain ⟨i, b⟩ := x
    unfold place at h
    split at h
    · rcases List.mem_cons.mp h with h | h
      · exact Or.inl h
      · exact Or.inr (List.mem_cons_of_mem _ h)
    · split at h
      · rcases List.mem_cons.mp h with h | h
        · exact Or.inl h
        · exact Or.inr h
      · rcases List.mem_cons.mp h with h | h
        · exact Or.inr (h ▸ List.mem_cons_self)
        · exact (ih h).imp id (List.mem_cons_of_mem _)

theorem descending_place (k : UInt64) (a : α) {l : List (UInt64 × α)}
    (h : l.Pairwise (fun a b => b.1 < a.1)) :
    (place k a l).Pairwise (fun a b => b.1 < a.1) := by
  induction l with
  | nil => simp [place]
  | cons x rest ih =>
    obtain ⟨i, b⟩ := x
    obtain ⟨hi, hr⟩ := List.pairwise_cons.mp h
    unfold place
    split
    · next hk => subst hk; exact List.pairwise_cons.mpr ⟨hi, hr⟩
    · next hk =>
      split
      · next hlt =>
        refine List.pairwise_cons.mpr ⟨?_, h⟩
        intro e he
        rcases List.mem_cons.mp he with he | he
        · exact he ▸ hlt
        · exact UInt64.lt_trans (hi e he) hlt
      · next hlt =>
        have hki : k < i := UInt64.lt_of_le_of_ne (UInt64.not_lt.mp hlt) hk
        refine List.pairwise_cons.mpr ⟨?_, ih hr⟩
        intro e he
        rcases mem_place he with he | he
        · exact he ▸ hki
        · exact hi e he

def empty : IdMap α := ⟨[], List.Pairwise.nil⟩

instance : Inhabited (IdMap α) := ⟨empty⟩

def find? (m : IdMap α) (k : UInt64) : Option α := look k m.entries

def contains (m : IdMap α) (k : UInt64) : Bool := (m.find? k).isSome

def insert (m : IdMap α) (k : UInt64) (a : α) : IdMap α :=
  ⟨place k a m.entries, descending_place k a m.descending⟩

/-- Later entries of the list replace earlier ones of the same id. -/
def ofList (l : List (UInt64 × α)) : IdMap α :=
  l.foldl (fun m e => m.insert e.1 e.2) empty

def ofIds (ids : List UInt64) : IdSet := ofList (ids.map fun id => (id, ()))

/-- The entries in ascending order of id, the order in which they are shown. -/
def toList (m : IdMap α) : List (UInt64 × α) := m.entries.reverse

def ids (m : IdMap α) : List UInt64 := m.toList.map Prod.fst

def values (m : IdMap α) : List α := m.toList.map Prod.snd

def size (m : IdMap α) : Nat := m.entries.length

def isEmpty (m : IdMap α) : Bool := m.entries.isEmpty

def filter (m : IdMap α) (p : α → Bool) : IdMap α :=
  ⟨m.entries.filter (fun e => p e.2), m.descending.filter _⟩

def mapIds (m : IdMap α) (f : UInt64 → α → β) : IdMap β :=
  ⟨m.entries.map (fun e => (e.1, f e.1 e.2)), by
    simpa [List.pairwise_map] using m.descending⟩

@[simp] theorem find?_empty (k : UInt64) : (empty : IdMap α).find? k = none := rfl

theorem look_place_self (k : UInt64) (a : α) (l : List (UInt64 × α)) :
    look k (place k a l) = some a := by
  induction l with
  | nil => simp [place, look]
  | cons x rest ih =>
    obtain ⟨i, b⟩ := x
    unfold place
    split
    · simp [look]
    · split
      · simp [look]
      · next hk hlt => simp [look, hk, hlt, ih]

theorem look_place_of_ne {k j : UInt64} (hj : j ≠ k) (a : α) {l : List (UInt64 × α)}
    (h : l.Pairwise (fun a b => b.1 < a.1)) : look j (place k a l) = look j l := by
  induction l with
  | nil => simp [place, look, hj]
  | cons x rest ih =>
    obtain ⟨i, b⟩ := x
    obtain ⟨hi, hr⟩ := List.pairwise_cons.mp h
    unfold place
    split
    · next hk =>
      subst hk
      simp [look, hj]
    · next hk =>
      split
      · next hlt =>
        by_cases hkj : k < j
        · have hij : i < j := UInt64.lt_trans hlt hkj
          have hne : j ≠ i := fun he => UInt64.lt_irrefl _ (he ▸ hij)
          simp [look, hj, hkj, hne, hij]
        · simp [look, hj, hkj]
      · simp [look, ih hr]

@[simp] theorem find?_insert_self (m : IdMap α) (k : UInt64) (a : α) :
    (m.insert k a).find? k = some a := look_place_self k a m.entries

theorem find?_insert_of_ne (m : IdMap α) {k j : UInt64} (h : j ≠ k) (a : α) :
    (m.insert k a).find? j = m.find? j := look_place_of_ne h a m.descending

theorem find?_insert (m : IdMap α) (k j : UInt64) (a : α) :
    (m.insert k a).find? j = if j = k then some a else m.find? j := by
  split
  · next h => subst h; exact find?_insert_self m j a
  · next h => exact find?_insert_of_ne m h a

end IdMap

end Electorate
