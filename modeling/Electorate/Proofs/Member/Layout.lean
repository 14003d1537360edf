import Electorate.Proofs.Member.Stored

/-! The objects that a member is read back from, in whatever order and company its fields stand, and
the changes of a single field after which no member is read at all. -/
namespace Electorate

/-- A number, but none of the natural ones below the bound. -/
inductive Json.IsOutside (bound : ℕ) : Json → Prop
  | large {n : ℕ} (h : bound ≤ n) : IsOutside bound (.natural n)
  | other : IsOutside bound .otherNumber

namespace Member
open Json (values)

/-- An object that is made of the fields of a member: those with known names are, in some order, the
stored ones, less some that may be missing. Fields of other names stand anywhere among them. -/
def IsLayout (m : Member) (fields : List (String × Json)) : Prop :=
  ∃ omitted : List String, (∀ name ∈ omitted, m.MayLack name) ∧
    (fields.filter fun f => f.1 ∈ fieldNames).Perm (m.stored.filter fun f => f.1 ∉ omitted)

/-- The known names that no object may lack. -/
def requiredNames : List String := ["id", "host", "peer_port", "election_port", "learner_type"]

/-- A value that never stands under the name. -/
inductive IsMisfit : String → Json → Prop
  | nullWeight : IsMisfit "weight" .null
  | word {name : String} {v : Json} (hname : name ∈ ["id", "weight"])
      (h : v.IsOutside UInt64.size) : IsMisfit name v
  | port {name : String} {v : Json} (hname : name ∈ ["peer_port", "election_port"])
      (h : v.IsOutside UInt16.size) : IsMisfit name v

/-- Changes of one field: a required one is left out, a known one stands once more with whatever
value, or a value that does not fit is put under a name, in place of what stood there, if anything
did. -/
inductive Spoils : List (String × Json) → List (String × Json) → Prop
  | leftOut {before after : List (String × Json)} {name : String} {v : Json}
      (h : name ∈ requiredNames) : Spoils (before ++ (name, v) :: after) (before ++ after)
  | repeated {before after : List (String × Json)} {name : String} {v : Json}
      (h : name ∈ fieldNames) (hthere : name ∈ (before ++ after).map Prod.fst) :
      Spoils (before ++ after) (before ++ (name, v) :: after)
  | misfit {before after : List (String × Json)} {name : String} {old : List Json} {v : Json}
      (h : IsMisfit name v) :
      Spoils (before ++ old.map (Prod.mk name) ++ after) (before ++ (name, v) :: after)

section
variable {m : Member} {fields fields' : List (String × Json)} {name : String} {v : Json}

theorem map_fst_stored : m.stored.map Prod.fst = fieldNames := rfl

/-- The fields as they are written, with nothing left out. -/
theorem isLayout_stored (m : Member) : m.IsLayout m.stored := by
  have hknown : (m.stored.filter fun f => f.1 ∈ fieldNames) = m.stored := by
    rw [List.filter_eq_self]
    intro f hf
    rw [decide_eq_true_eq, ← map_fst_stored]
    exact List.mem_map_of_mem hf
  have hkept : (m.stored.filter fun f => f.1 ∉ ([] : List String)) = m.stored := by simp
  refine ⟨[], nofun, ?_⟩
  rw [hknown, hkept]

theorem values_stored (h : (name, v) ∈ m.stored) : values name m.stored = [v] := by
  refine Json.values_of_nodup ?_ h
  rw [map_fst_stored]
  decide

/-- In every layout each known name shows the field of the member. -/
theorem IsLayout.shows (h : m.IsLayout fields) (hname : name ∈ fieldNames) :
    m.Shows name (values name fields) := by
  obtain ⟨omitted, hlack, hperm⟩ := h
  have hvalues := Json.values_perm hperm name
  rw [Json.values_filter (· ∈ fieldNames), Json.values_filter (· ∉ omitted),
    if_pos hname] at hvalues
  by_cases homit : name ∈ omitted
  · rw [if_neg (not_not.mpr homit), List.perm_nil] at hvalues
    rw [hvalues]
    exact .lacking (hlack name homit)
  · rw [← map_fst_stored (m := m), List.mem_map] at hname
    obtain ⟨⟨_, v⟩, hv, rfl⟩ := hname
    rw [if_pos homit, values_stored hv, List.perm_singleton] at hvalues
    rw [hvalues]
    exact .stored hv

theorem Shows.length_le_one {vs : List Json} (h : m.Shows name vs) : vs.length ≤ 1 := by
  obtain ⟨slot, rfl⟩ := h.exists_slot
  cases slot <;> simp

theorem mem_fieldNames_of_required (h : name ∈ requiredNames) : name ∈ fieldNames := by
  have hsubset : requiredNames ⊆ fieldNames := by decide
  exact hsubset h

theorem not_mayLack_of_required (h : name ∈ requiredNames) : ¬ m.MayLack name := by
  rintro (⟨rfl, -⟩ | ⟨rfl, -⟩)
  · exact absurd h (by decide)
  · exact absurd h (by decide)

theorem exists_word_of_stored (hname : name ∈ ["id", "weight"]) (h : (name, v) ∈ m.stored) :
    ∃ w, v = .word w := by
  simp only [List.mem_cons, List.not_mem_nil, or_false] at hname
  rcases hname with rfl | rfl
  · exact ⟨m.id, by simpa [stored] using h⟩
  · exact ⟨m.weight, by simpa [stored] using h⟩

theorem exists_port_of_stored (hname : name ∈ ["peer_port", "election_port"])
    (h : (name, v) ∈ m.stored) : ∃ p : UInt16, v = .natural p.toNat := by
  simp only [List.mem_cons, List.not_mem_nil, or_false] at hname
  rcases hname with rfl | rfl
  · exact ⟨m.peerPort, by simpa [stored] using h⟩
  · exact ⟨m.electionPort, by simpa [stored] using h⟩

theorem IsMisfit.mem_fieldNames (h : IsMisfit name v) : name ∈ fieldNames := by
  have hwords : ["id", "weight"] ⊆ fieldNames := by decide
  have hports : ["peer_port", "election_port"] ⊆ fieldNames := by decide
  cases h with
  | nullWeight => exact hwords (by decide)
  | word hname _ => exact hwords hname
  | port hname _ => exact hports hname

theorem IsMisfit.not_mem_stored (h : IsMisfit name v) : (name, v) ∉ m.stored := by
  intro hstored
  cases h with
  | nullWeight =>
    obtain ⟨w, hw⟩ := exists_word_of_stored (by decide) hstored
    cases hw
  | word hname hout =>
    obtain ⟨w, rfl⟩ := exists_word_of_stored hname hstored
    cases hout with
    | large hlarge => exact absurd w.toNat_lt_size (Nat.not_lt.mpr hlarge)
  | port hname hout =>
    obtain ⟨p, rfl⟩ := exists_port_of_stored hname hstored
    cases hout with
    | large hlarge => exact absurd p.toNat_lt_size (Nat.not_lt.mpr hlarge)

theorem IsMisfit.ne_object (h : IsMisfit name v) (entries : List (Option String × Json)) :
    v ≠ .object entries := by
  rintro rfl
  cases h with
  | word _ hout => cases hout
  | port _ hout => cases hout

/-- A misfit shows no member whatever. -/
theorem IsMisfit.not_shows (h : IsMisfit name v) {vs : List Json} (hv : v ∈ vs) :
    ¬ m.Shows name vs := by
  intro hshows
  cases hshows with
  | stored hstored =>
    obtain rfl := List.mem_singleton.mp hv
    exact h.not_mem_stored hstored
  | lacking _ => cases hv
  | roleKey => exact h.ne_object _ (List.mem_singleton.mp hv)

/-- No member is read where a known name shows what it shows of none. -/
theorem ofJson?_record_eq_none (hname : name ∈ fieldNames)
    (h : ∀ m : Member, ¬ m.Shows name (values name fields)) :
    ofJson? (Json.record fields) = none := by
  rw [Option.eq_none_iff_forall_ne_some]
  intro m hm
  exact h m (ofJson?_record_eq_some_iff.mp hm name hname)

theorem ofJson?_eq_none_of_lacks (h : name ∈ requiredNames) (hlacks : values name fields = []) :
    ofJson? (Json.record fields) = none := by
  apply ofJson?_record_eq_none (mem_fieldNames_of_required h)
  intro m hshows
  rw [hlacks] at hshows
  cases hshows with
  | lacking hlack => exact not_mayLack_of_required h hlack

/-- With a known field given twice nothing is read, even if both agree. -/
theorem ofJson?_eq_none_of_repeated (h : name ∈ fieldNames)
    (htwo : 1 < (values name fields).length) : ofJson? (Json.record fields) = none := by
  apply ofJson?_record_eq_none h
  intro m hshows
  exact absurd hshows.length_le_one (Nat.not_le.mpr htwo)

theorem ofJson?_eq_none_of_misfit (h : IsMisfit name v) (hv : (name, v) ∈ fields) :
    ofJson? (Json.record fields) = none :=
  ofJson?_record_eq_none h.mem_fieldNames fun _ => h.not_shows (Json.mem_values.mpr hv)

/-- A member is read from every layout of its fields. -/
theorem IsLayout.read (h : m.IsLayout fields) : ofJson? (Json.record fields) = some m := by
  rw [ofJson?_record_eq_some_iff]
  intro name hname
  exact h.shows hname

/-- Nothing is read from a layout that was spoiled. -/
theorem IsLayout.spoiled (h : m.IsLayout fields) (hspoils : Spoils fields fields') :
    ofJson? (Json.record fields') = none := by
  cases hspoils with
  | @leftOut before after name v hrequired =>
    -- the layout has the name once, so nothing is left under it
    have hone := (h.shows (mem_fieldNames_of_required hrequired)).length_le_one
    rw [Json.length_values_insert] at hone
    apply ofJson?_eq_none_of_lacks hrequired
    rw [← List.length_eq_zero_iff]
    omega
  | @repeated before after name v hname hthere =>
    have hne : values name (before ++ after) ≠ [] :=
      mt Json.values_eq_nil_iff.mp (not_not.mpr hthere)
    have hpos := List.length_pos_iff.mpr hne
    apply ofJson?_eq_none_of_repeated hname
    rw [Json.length_values_insert]
    omega
  | misfit hmisfit =>
    exact ofJson?_eq_none_of_misfit hmisfit (List.mem_append_right _ List.mem_cons_self)

end

/-- A member is read back from what is written for it and from every other object that is made of
its fields, and no longer once one field is changed in a way that spoils the object. -/
theorem layouts_read_back_until_spoiled (m : Member) :
    ofJson? m.toJson = some m ∧
      ∀ fields, m.IsLayout fields → ofJson? (Json.record fields) = some m ∧
        ∀ fields', Spoils fields fields' → ofJson? (Json.record fields') = none := by
  refine ⟨m.isLayout_stored.read, ?_⟩
  intro fields hlayout
  refine ⟨hlayout.read, ?_⟩
  intro fields' hspoils
  exact hlayout.spoiled hspoils

/-- An observer without what it may lack, its fields out of order and among others, and then with
one field less, with one more, and with a value that does not fit. -/
theorem scattered_observer_is_read_until_spoiled :
    let m := Member.mk 7 "::1" 2888 3888 none .observer 1
    let front : List (String × Json) := [("zone", .null), ("learner_type", .text "observer")]
    let back : List (String × Json) :=
      [("zone", .array []), ("peer_port", .natural 2888), ("host", .text "::1")]
    let rest := front ++ ("election_port", .natural 3888) :: back
    let fields := ("id", .natural 7) :: rest
    let twice := ("host", .text "a") :: fields
    let weightless := ("weight", .null) :: fields
    let outside := ("id", .natural 7) :: front ++ ("election_port", .natural 65536) :: back
    (m.IsLayout fields ∧ ofJson? (Json.record fields) = some m) ∧
      (Spoils fields rest ∧ ofJson? (Json.record rest) = none) ∧
      (Spoils fields twice ∧ ofJson? (Json.record twice) = none) ∧
      (Spoils fields weightless ∧ ofJson? (Json.record weightless) = none) ∧
      (Spoils fields outside ∧ ofJson? (Json.record outside) = none) := by
  intro m front back rest fields twice weightless outside
  have hlayout : m.IsLayout fields := by
    refine ⟨["client_address", "weight"], ?_, ?_⟩
    · intro name hname
      simp only [List.mem_cons, List.not_mem_nil, or_false] at hname
      exact hname.imp (fun h => ⟨h, rfl⟩) fun h => ⟨h, rfl⟩
    · let kept : List (String × Json) :=
        [("host", .text "::1"), ("peer_port", .natural 2888), ("election_port", .natural 3888),
         ("learner_type", .text "observer")]
      have hknown : (fields.filter fun f => f.1 ∈ fieldNames) =
          ("id", .natural 7) :: kept.reverse := rfl
      have hstored : (m.stored.filter fun f => f.1 ∉ ["client_address", "weight"]) =
          ("id", .natural 7) :: kept := rfl
      rw [hknown, hstored]
      exact List.Perm.cons _ (List.reverse_perm kept)
  obtain ⟨-, hlayouts⟩ := layouts_read_back_until_spoiled m
  obtain ⟨hread, hspoiled⟩ := hlayouts fields hlayout
  have hrest : Spoils fields rest := @Spoils.leftOut [] rest "id" (.natural 7) (by decide)
  have htwice : Spoils fields twice := @Spoils.repeated [] fields "host" _ (by decide) (by decide)
  have hweightless : Spoils fields weightless :=
    @Spoils.misfit [] fields "weight" [] _ .nullWeight
  have hport : IsMisfit "election_port" (.natural 65536) := .port (by decide) (.large (by decide))
  have houtside : Spoils fields outside :=
    @Spoils.misfit (("id", .natural 7) :: front) back "election_port" [.natural 3888] _ hport
  exact ⟨⟨hlayout, hread⟩, ⟨hrest, hspoiled _ hrest⟩, ⟨htwice, hspoiled _ htwice⟩,
    ⟨hweightless, hspoiled _ hweightless⟩, ⟨houtside, hspoiled _ houtside⟩⟩

end Member
end Electorate
