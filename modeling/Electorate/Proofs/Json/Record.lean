import Mathlib
import Electorate.Json.Record

/-! What the reader takes from the fields of an object, whatever their order is and whatever stands
between them, and which documents it reads as single values. -/
namespace Electorate
namespace Json

/-- What stands under a name, in the order of the fields. -/
def values (name : String) (fields : List (String × Json)) : List Json :=
  (fields.filter (fun f => f.1 == name)).map Prod.snd

theorem eq_of_perm_of_length_le_one {α : Type} {l l' : List α} (h : l.Perm l')
    (hone : l'.length ≤ 1) : l = l' := by
  match l', hone with
  | [], _ => exact h.eq_nil
  | [_], _ => exact List.perm_singleton.mp h

theorem toList_injective {α : Type} : Function.Injective (Option.toList (α := α)) := by
  intro o o' h
  cases o <;> cases o' <;> simp_all

section
variable {name : String} {fields fields' : List (String × Json)} {v : Json}

theorem mem_values : v ∈ values name fields ↔ (name, v) ∈ fields := by
  simp [values]

theorem values_eq_nil_iff : values name fields = [] ↔ name ∉ fields.map Prod.fst := by
  simp [List.eq_nil_iff_forall_not_mem, mem_values]

theorem values_append :
    values name (fields ++ fields') = values name fields ++ values name fields' := by
  simp [values]

theorem values_cons_self : values name ((name, v) :: fields) = v :: values name fields := by
  simp [values]

theorem values_cons_of_ne {other : String} (h : other ≠ name) :
    values name ((other, v) :: fields) = values name fields := by
  simp [values, h]

/-- The order of the fields changes no more than the order of the values. -/
theorem values_perm (h : fields.Perm fields') (name : String) :
    (values name fields).Perm (values name fields') :=
  (h.filter _).map _

/-- Names are kept with all that stands under them or not at all. -/
theorem values_filter (keep : String → Prop) [DecidablePred keep] :
    values name (fields.filter fun f => keep f.1) =
      if keep name then values name fields else [] := by
  induction fields with
  | nil => simp [values]
  | cons f fields ih =>
    obtain ⟨other, v⟩ := f
    by_cases hf : other = name
    · subst hf
      by_cases hkeep : keep other
      · simp [hkeep, values_cons_self, ih]
      · simp [hkeep, ih]
    · by_cases hkeep : keep other
      · simp [hkeep, values_cons_of_ne hf, ih]
      · simp [hkeep, values_cons_of_ne hf, ih]

/-- Where no name stands twice, there is nothing under a name but the value that it is given. -/
theorem values_of_nodup (hnodup : (fields.map Prod.fst).Nodup) (h : (name, v) ∈ fields) :
    values name fields = [v] := by
  induction fields with
  | nil => cases h
  | cons f fields ih =>
    obtain ⟨other, w⟩ := f
    obtain ⟨hother, hrest⟩ := List.nodup_cons.mp hnodup
    rcases List.mem_cons.mp h with hfirst | h
    · obtain ⟨rfl, rfl⟩ := Prod.mk.inj hfirst
      rw [values_cons_self, values_eq_nil_iff.mpr hother]
    · have hne : other ≠ name := by
        rintro rfl
        exact hother (List.mem_map.mpr ⟨_, h, rfl⟩)
      rw [values_cons_of_ne hne, ih hrest h]

theorem length_values_insert {before after : List (String × Json)} :
    (values name (before ++ (name, v) :: after)).length =
      (values name (before ++ after)).length + 1 := by
  rw [values_append, values_append, values_cons_self, List.length_append, List.length_append,
    List.length_cons, Nat.add_assoc]

theorem length_values : (values name fields).length = (fields.map Prod.fst).count name := by
  rw [values, List.length_map, ← List.countP_eq_length_filter, List.count, List.countP_map]
  rfl

theorem nodup_iff_length_values :
    (fields.map Prod.fst).Nodup ↔ ∀ name, (values name fields).length ≤ 1 := by
  simp only [List.nodup_iff_count_le_one, length_values]

/-- Looking up a name finds the first value under it. -/
theorem lookup_eq_head? : fields.lookup name = (values name fields).head? := by
  induction fields with
  | nil => rfl
  | cons f fields ih =>
    obtain ⟨other, v⟩ := f
    by_cases hother : other = name
    · subst hother
      simp [values_cons_self]
    · have hname : (name == other) = false := by simpa using Ne.symm hother
      rw [List.lookup_cons, hname, values_cons_of_ne hother]
      exact ih

theorem toList_lookup (h : (values name fields).length ≤ 1) :
    (fields.lookup name).toList = values name fields := by
  rw [lookup_eq_head?]
  generalize values name fields = vs at h
  match vs with
  | [] => rfl
  | [v] => rfl

theorem isSome_lookup_iff : (fields.lookup name).isSome = true ↔ name ∈ fields.map Prod.fst := by
  rw [lookup_eq_head?, ← not_iff_not, ← values_eq_nil_iff]
  simp

section
variable {names : List String} {taken taken' : List (String × Json)}

/-- A field is taken up if it is known and new, and passed over if it is not known. -/
theorem takeField?_eq_some_iff : takeField? names taken (some name, v) = some taken' ↔
    (name ∉ names ∧ taken' = taken) ∨
    (name ∈ names ∧ name ∉ taken.map Prod.fst ∧ taken' = (name, v) :: taken) := by
  rw [takeField?]
  by_cases hname : name ∈ names
  · by_cases hthere : name ∈ taken.map Prod.fst
    · rw [if_neg (not_not.mpr hname), if_pos (isSome_lookup_iff.mpr hthere)]
      simp [hname, hthere]
    · rw [if_neg (not_not.mpr hname), if_neg (mt isSome_lookup_iff.mp hthere)]
      simp [hname, hthere, eq_comm]
  · rw [if_pos hname]
    simp [hname, eq_comm]

/-- The fields of the known names, last first. -/
def known (names : List String) (fields : List (String × Json)) : List (String × Json) :=
  (fields.filter fun f => f.1 ∈ names).reverse

theorem known_cons_of_mem (h : name ∈ names) :
    known names ((name, v) :: fields) = known names fields ++ [(name, v)] := by
  simp [known, h]

theorem known_cons_of_not_mem (h : name ∉ names) :
    known names ((name, v) :: fields) = known names fields := by
  simp [known, h]

/-- Known names keep all their values, and others lose them. -/
theorem values_known (names : List String) (fields : List (String × Json)) (name : String) :
    (values name (known names fields)).Perm (if name ∈ names then values name fields else []) := by
  rw [← values_filter (· ∈ names)]
  exact values_perm (List.reverse_perm _) name

theorem nodup_known_iff : ((known names fields).map Prod.fst).Nodup ↔
    ∀ name ∈ names, (values name fields).length ≤ 1 := by
  rw [nodup_iff_length_values]
  apply forall_congr'
  intro name
  rw [(values_known names fields name).length_eq]
  split_ifs with hname <;> simp [hname]

theorem toList_lookup_known (h : (values name fields).length ≤ 1) (hname : name ∈ names) :
    ((known names fields).lookup name).toList = values name fields := by
  have hperm := values_known names fields name
  rw [if_pos hname] at hperm
  rw [toList_lookup (hperm.length_eq.trans_le h)]
  exact eq_of_perm_of_length_le_one hperm h

/-- Going through the fields, all of the known ones are taken up, unless a name comes twice. -/
theorem foldlM_takeField?_eq_some_iff (h : (taken.map Prod.fst).Nodup) :
    fields.foldlM (fun taken f => takeField? names taken (some f.1, f.2)) taken = some taken' ↔
      taken' = known names fields ++ taken ∧ (taken'.map Prod.fst).Nodup := by
  -- by induction on the fields to come, whatever has been taken up before them
  induction fields generalizing taken with
  | nil =>
    have hnil : known names [] ++ taken = taken := rfl
    rw [List.foldlM_nil, Option.pure_def, Option.some_inj, hnil, eq_comm]
    exact (and_iff_left_of_imp fun htaken => htaken ▸ h).symm
  | cons f fields ih =>
    obtain ⟨name, v⟩ := f
    rw [List.foldlM_cons, Option.bind_eq_bind, Option.bind_eq_some_iff]
    simp only [takeField?_eq_some_iff]
    by_cases hname : name ∈ names
    · have hcons (hnew : name ∉ taken.map Prod.fst) : (((name, v) :: taken).map Prod.fst).Nodup :=
        List.nodup_cons.mpr ⟨hnew, h⟩
      rw [known_cons_of_mem hname, List.append_assoc, List.singleton_append]
      constructor
      · intro hrun
        obtain ⟨_, ⟨hother, -⟩ | ⟨-, hnew, rfl⟩, hrun⟩ := hrun
        · exact absurd hname hother
        · exact (ih (hcons hnew)).mp hrun
      · intro hrun
        -- the names are distinct in the end, so this one was new
        have hnew : name ∉ taken.map Prod.fst := by
          obtain ⟨rfl, hnodup⟩ := hrun
          rw [List.map_append, List.map_cons] at hnodup
          exact (List.nodup_cons.mp hnodup.of_append_right).1
        exact ⟨_, Or.inr ⟨hname, hnew, rfl⟩, (ih (hcons hnew)).mpr hrun⟩
    · rw [known_cons_of_not_mem hname, ← ih h]
      constructor
      · intro hrun
        obtain ⟨_, ⟨-, rfl⟩ | ⟨hknown, -⟩, hrun⟩ := hrun
        · exact hrun
        · exact absurd hknown hname
      · intro hrun
        exact ⟨taken, Or.inl ⟨hname, rfl⟩, hrun⟩

/-- Each known name of an object has a slot for what stands under it, which must not be more than
one value. The order of the fields does not matter, nor do fields of other names. -/
theorem fields?_record_eq_some_iff {slots : List (Option Json)} :
    (Json.record fields).fields? names = some slots ↔
      names.map (fun name => values name fields) = slots.map Option.toList := by
  have hrun (taken : List (String × Json)) :
      fields.foldlM (fun taken f => takeField? names taken (some f.1, f.2)) [] = some taken ↔
        taken = known names fields ∧ (taken.map Prod.fst).Nodup := by
    have hempty : (([] : List (String × Json)).map Prod.fst).Nodup := List.nodup_nil
    rw [foldlM_takeField?_eq_some_iff hempty, List.append_nil]
  rw [record, fields?, List.foldlM_map, Option.map_eq_some_iff]
  simp only [hrun]
  constructor
  · intro h
    obtain ⟨_, ⟨rfl, hnodup⟩, rfl⟩ := h
    rw [List.map_map]
    apply List.map_congr_left
    intro name hname
    exact (toList_lookup_known (nodup_known_iff.mp hnodup name hname) hname).symm
  · intro h
    -- a slot has room for one value
    have hone : ∀ name ∈ names, (values name fields).length ≤ 1 := by
      intro name hname
      have hmem : values name fields ∈ slots.map Option.toList := by
        rw [← h]
        exact List.mem_map_of_mem hname
      obtain ⟨slot, -, hslot⟩ := List.mem_map.mp hmem
      rw [← hslot]
      exact Option.length_toList_le
    refine ⟨_, ⟨rfl, nodup_known_iff.mpr hone⟩, ?_⟩
    apply List.map_injective_iff.mpr toList_injective
    rw [← h, List.map_map]
    apply List.map_congr_left
    intro name hname
    exact toList_lookup_known (hone name hname) hname

end

end

section
variable {v : Json}

theorem natural?_eq_some_iff {bound n : ℕ} :
    v.natural? bound = some n ↔ v = .natural n ∧ n < bound := by
  cases v with
  | natural k =>
    simp only [natural?, Option.ite_none_right_eq_some, Option.some.injEq, Json.natural.injEq]
    constructor
    · intro h
      obtain ⟨hk, rfl⟩ := h
      exact ⟨rfl, hk⟩
    · intro h
      obtain ⟨rfl, hk⟩ := h
      exact ⟨hk, rfl⟩
  | _ => simp [natural?]

theorem word64?_eq_some_iff {n : UInt64} : v.word64? = some n ↔ v = .word n := by
  simp only [word64?, word, Option.map_eq_some_iff, natural?_eq_some_iff]
  constructor
  · intro h
    obtain ⟨k, ⟨rfl, hk⟩, rfl⟩ := h
    rw [UInt64.toNat_ofNat_of_lt' hk]
  · intro h
    exact ⟨n.toNat, ⟨h, n.toNat_lt_size⟩, UInt64.ofNat_toNat⟩

theorem word16?_eq_some_iff {n : UInt16} : v.word16? = some n ↔ v = .natural n.toNat := by
  simp only [word16?, Option.map_eq_some_iff, natural?_eq_some_iff]
  constructor
  · intro h
    obtain ⟨k, ⟨rfl, hk⟩, rfl⟩ := h
    rw [UInt16.toNat_ofNat_of_lt' hk]
  · intro h
    exact ⟨n.toNat, ⟨h, n.toNat_lt_size⟩, UInt16.ofNat_toNat⟩

theorem text?_eq_some_iff {s : String} : v.text? = some s ↔ v = .text s := by
  cases v <;> simp [text?, text]

/-- A choice is a name, or an object with that name as its only key. -/
theorem choice?_eq_some_iff {α : Type} {ofName? : String → Option α} {a : α} :
    v.choice? ofName? = some a ↔
      ∃ s, ofName? s = some a ∧ (v = .text s ∨ v = .object [(some s, .null)]) := by
  unfold choice?
  split
  · simp [text]
  · simp [text]
  · next hs ho =>
    simp only [reduceCtorEq, false_iff, not_exists, not_and, not_or, text]
    intro s _
    exact ⟨hs s, ho s⟩

section
variable {α : Type} {read : Json → Option α} {a : α}

theorem orNull?_eq_some_iff {write : α → Json} {o : Option α} (hnull : read .null = none)
    (hread : ∀ v a, read v = some a ↔ v = write a) :
    v.orNull? read = some o ↔ v = orNull write o := by
  have hne (a : α) : write a ≠ .null := by
    intro ha
    rw [← ha, (hread _ a).mpr rfl] at hnull
    cases hnull
  unfold orNull?
  split
  · cases o with
    | none => simp [orNull]
    | some a => simpa [orNull] using (hne a).symm
  · next hv =>
    rw [Option.map_eq_some_iff]
    cases o with
    | none => simpa [orNull] using hv
    | some a => simp [orNull, hread]

theorem orDefault_eq_some_iff {default : α} {slot : Option Json} :
    orDefault read default slot = some a ↔
      (∃ v, slot = some v ∧ read v = some a) ∨ (slot = none ∧ a = default) := by
  cases slot <;> simp [orDefault, eq_comm]

end

end

end Json
end Electorate
