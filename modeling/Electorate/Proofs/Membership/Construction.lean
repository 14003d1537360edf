import Electorate.Proofs.Except
import Electorate.Proofs.Quorum

/-! Which members make up a membership, given as a list or as a map, what stands in it then, and
which error is reported otherwise. -/
namespace Electorate
open scoped BigOperators

/-- The weight of the participants of a list, as an unbounded number. -/
def participantWeight (members : List Member) : ℕ :=
  ((members.filter Member.isParticipant).map fun x => x.weight.toNat).sum

theorem participantWeight_perm {members members' : List Member} (h : members.Perm members') :
    participantWeight members = participantWeight members' :=
  ((h.filter _).map _).sum_eq

/-- An id that is taken up leaves the ids that follow new, as none comes twice. -/
theorem new_of_insert {α : Type} {map : IdMap α} {m : Member} {rest : List Member}
    (hids : ((m :: rest).map Member.id).Nodup)
    (hnew : ∀ x ∈ m :: rest, map.contains x.id = false) (a : α) :
    ∀ x ∈ rest, (map.insert m.id a).contains x.id = false := by
  obtain ⟨hm, -⟩ := List.nodup_cons.mp hids
  intro x hx
  have hne : x.id ≠ m.id := fun he => hm (he ▸ List.mem_map_of_mem hx)
  rw [map.contains_insert_of_ne hne]
  exact hnew x (List.mem_cons_of_mem _ hx)

namespace Membership

theorem eq_of_all {m m' : Membership} (h : m.all = m'.all) : m = m' := by
  obtain ⟨all, total, htotal⟩ := m
  obtain ⟨all', total', htotal'⟩ := m'
  obtain rfl : all = all' := h
  -- the total weight follows from the members
  obtain rfl : total = total' := Option.some.inj (htotal.symm.trans htotal')
  rfl

/-- The first member of the list whose id a member before it has. -/
def FirstRepeat (members : List Member) (x : Member) : Prop :=
  ∃ before after, members = before ++ x :: after ∧ (before.map Member.id).Nodup ∧
    x.id ∈ before.map Member.id

/-- Participants vote and observers do not, every entry stands unchanged on one of the two sides
and no entry on both, and the total is the exact sum over the voters. -/
structure Parted (m : Membership) : Prop where
  voting : ∀ id x, m.voting.find? id = some x ↔ m.all.find? id = some x ∧ x.role = .participant
  observing : ∀ id x, m.observing.find? id = some x ↔ m.all.find? id = some x ∧ x.role = .observer
  disjoint : ∀ id, m.voting.contains id = true → m.observing.contains id = false
  together : (m.voting.toList ++ m.observing.toList).Perm m.all.toList
  total : m.totalVotingWeight.toNat = (m.voting.values.map fun v => v.weight.toNat).sum

theorem isParticipant_iff {x : Member} : x.isParticipant = true ↔ x.role = .participant :=
  beq_iff_eq

theorem not_isParticipant_iff {x : Member} : (!x.isParticipant) = true ↔ x.role = .observer := by
  rw [Bool.not_eq_true', Member.isParticipant, beq_eq_false_iff_ne]
  cases x.role <;> simp

theorem parted (m : Membership) : m.Parted where
  voting id x := by rw [voting, IdMap.find?_filter_eq_some_iff, isParticipant_iff]
  observing id x := by rw [observing, IdMap.find?_filter_eq_some_iff, not_isParticipant_iff]
  disjoint := by
    intro id hid
    obtain ⟨x, hx⟩ := Option.isSome_iff_exists.mp hid
    obtain ⟨hall, hvotes⟩ := m.all.find?_filter_eq_some_iff.mp hx
    rw [observing, IdMap.contains, IdMap.find?_filter, hall, Option.filter_some, hvotes]
    rfl
  together := by
    have hentries : (m.voting.entries ++ m.observing.entries).Perm m.all.entries :=
      List.filter_append_perm (fun e : UInt64 × Member => e.2.isParticipant) m.all.entries
    refine List.Perm.trans ?_ (hentries.trans (List.reverse_perm _).symm)
    exact (List.reverse_perm _).append (List.reverse_perm _)
  total := by
    rw [total_exact]
    exact (m.voting.sum_values fun v => v.weight.toNat).symm

/-- The weights that are added up are those of the participants. -/
theorem sum_votingWeights (all : IdMap Member) :
    ((votingWeights all).map UInt64.toNat).sum = participantWeight all.values := by
  have hvalues : (all.filter Member.isParticipant).values =
      all.values.filter Member.isParticipant := by
    rw [IdMap.values, IdMap.values, IdMap.toList, IdMap.toList, IdMap.filter, List.filter_map,
      List.filter_reverse]
    rfl
  rw [votingWeights, hvalues, List.map_map, participantWeight]
  rfl

/-- Members make up a membership if the exact weight of the participants fits in a word. The order
in which the weights are added does not matter. -/
theorem exists_all_eq_iff_participantWeight {all : IdMap Member} :
    (∃ m : Membership, m.all = all) ↔ participantWeight all.values < 2 ^ 64 := by
  rw [← sum_votingWeights]
  constructor
  · intro h
    obtain ⟨m, rfl⟩ := h
    have htotal := toNat_foldlM_addWeight? m.total_eq
    rw [UInt64.toNat_zero, Nat.zero_add] at htotal
    rw [← htotal]
    exact m.totalVotingWeight.toNat_lt_size
  · intro h
    have hfits : (0 : UInt64).toNat + ((votingWeights all).map UInt64.toNat).sum < UInt64.size := by
      rwa [UInt64.toNat_zero, Nat.zero_add]
    exact ⟨⟨all, _, foldlM_addWeight?_of_fits hfits⟩, rfl⟩

/-- The same over the ids under which the participants stand. -/
theorem exists_all_eq_iff {all : IdMap Member} : (∃ m : Membership, m.all = all) ↔
    ∑ id ∈ (all.filter Member.isParticipant).support,
      ((all.filter Member.isParticipant).find? id).elim 0 (fun v => v.weight.toNat) <
        UInt64.size := by
  have hsum : participantWeight all.values = ∑ id ∈ (all.filter Member.isParticipant).support,
      ((all.filter Member.isParticipant).find? id).elim 0 (fun v => v.weight.toNat) := by
    rw [← sum_votingWeights, votingWeights, List.map_map]
    exact IdMap.sum_values _ fun v : Member => v.weight.toNat
  rw [exists_all_eq_iff_participantWeight, hsum]
  exact Iff.rfl

/-- Members make up a membership in one way at most, since the total weight follows from them. -/
theorem ofMap_eq_ok_iff {members : IdMap Member} {m : Membership} :
    Membership.ofMap members = .ok m ↔ m.all = members := by
  constructor
  · intro h
    unfold Membership.ofMap at h
    split at h
    · rw [← Except.ok.inj h]
    · cases h
  · intro h
    subst h
    unfold Membership.ofMap
    split
    · next total htotal =>
      have ht : total = m.totalVotingWeight := Option.some.inj (htotal.symm.trans m.total_eq)
      subst ht
      rfl
    · next hnone =>
      rw [m.total_eq] at hnone
      cases hnone

/-- The only fault of a map is a total that does not fit. -/
theorem ofMap_eq_error_iff {members : IdMap Member} {e : Error} :
    Membership.ofMap members = .error e ↔
      e = .config .weightOverflow ∧ 2 ^ 64 ≤ participantWeight members.values := by
  rw [← not_lt, ← exists_all_eq_iff_participantWeight]
  unfold Membership.ofMap
  split
  · next total htotal =>
    refine iff_of_false nofun ?_
    intro h
    exact h.2 ⟨⟨members, total, htotal⟩, rfl⟩
  · next hnone =>
    constructor
    · intro h
      refine ⟨(Except.error.inj h).symm, ?_⟩
      intro hm
      obtain ⟨m, rfl⟩ := hm
      rw [m.total_eq] at hnone
      cases hnone
    · intro h
      rw [h.1]

theorem addNew_eq_ok_iff {map map' : IdMap Member} {x : Member} :
    addNew map x = .ok map' ↔ map.contains x.id = false ∧ map' = map.insert x.id x := by
  unfold addNew
  split_ifs with hold
  · simp [hold]
  · simp [hold, eq_comm]

theorem addNew_eq_error_iff {map : IdMap Member} {x : Member} {e : Error} :
    addNew map x = .error e ↔ map.contains x.id = true ∧ e = .duplicateServer x.id := by
  unfold addNew
  split_ifs with hold
  · simp [hold, eq_comm]
  · simp [hold]

/-- A member that is taken up stands in the map instead of at the head of the list. -/
theorem find?_insert_iff_mem_cons {first : Member} {members : List Member} {map : IdMap Member}
    (hnew : map.contains first.id = false) (id : UInt64) (x : Member) :
    (x ∈ members ∧ x.id = id) ∨ (map.insert first.id first).find? id = some x ↔
      (x ∈ first :: members ∧ x.id = id) ∨ map.find? id = some x := by
  rw [map.find?_insert_eq_some_iff hnew, List.mem_cons]
  constructor
  · rintro (⟨hx, hid⟩ | ⟨hid, rfl⟩ | hx)
    · exact Or.inl ⟨Or.inr hx, hid⟩
    · exact Or.inl ⟨Or.inl rfl, hid.symm⟩
    · exact Or.inr hx
  · rintro (⟨rfl | hx, hid⟩ | hx)
    · exact Or.inr (Or.inl ⟨hid.symm, rfl⟩)
    · exact Or.inl ⟨hx, hid⟩
    · exact Or.inr (Or.inr hx)

/-- Members are taken up one by one if each has an id of its own, and then nothing else changes. -/
theorem foldlM_addNew_eq_ok_iff {members : List Member} {map map' : IdMap Member} :
    members.foldlM addNew map = .ok map' ↔
      (members.map Member.id).Nodup ∧ (∀ x ∈ members, map.contains x.id = false) ∧
        ∀ id x, map'.find? id = some x ↔ (x ∈ members ∧ x.id = id) ∨ map.find? id = some x := by
  -- the rest of the members come to a map that has the first one already
  induction members generalizing map with
  | nil =>
    constructor
    · intro h
      obtain rfl := Except.ok.inj h
      simp
    · intro h
      have hsame : map' = map := by
        apply IdMap.eq_of_find?
        intro id
        exact Option.ext fun x => by simpa using h.2.2 id x
      rw [hsame]
      rfl
  | cons first members ih =>
    rw [List.foldlM_cons, bind_eq_ok_iff, List.map_cons, List.nodup_cons, List.forall_mem_cons]
    simp only [addNew_eq_ok_iff, ih]
    constructor
    · intro h
      obtain ⟨_, ⟨hnew, rfl⟩, hnodup, hothers, hentries⟩ := h
      refine ⟨⟨?_, hnodup⟩, ⟨hnew, ?_⟩, ?_⟩
      · intro hmem
        obtain ⟨x, hx, hid⟩ := List.mem_map.mp hmem
        exact (IdMap.contains_insert_eq_false_iff _ |>.mp (hothers x hx)).1 hid
      · intro x hx
        exact (IdMap.contains_insert_eq_false_iff _ |>.mp (hothers x hx)).2
      · intro id x
        rw [hentries, find?_insert_iff_mem_cons hnew]
    · intro h
      obtain ⟨⟨hfirst, hnodup⟩, ⟨hnew, hothers⟩, hentries⟩ := h
      have hnext := new_of_insert (List.nodup_cons.mpr ⟨hfirst, hnodup⟩)
        (List.forall_mem_cons.mpr ⟨hnew, hothers⟩) first
      refine ⟨_, ⟨hnew, rfl⟩, hnodup, hnext, ?_⟩
      intro id x
      rw [hentries, find?_insert_iff_mem_cons hnew]

/-- What has an id of its own is taken up, whatever it weighs. -/
theorem exists_foldlM_addNew {members : List Member} {map : IdMap Member}
    (hids : (members.map Member.id).Nodup) (hnew : ∀ x ∈ members, map.contains x.id = false) :
    ∃ map', members.foldlM addNew map = .ok map' := by
  induction members generalizing map with
  | nil => exact ⟨map, rfl⟩
  | cons first members ih =>
    obtain ⟨map', hrest⟩ := ih (List.nodup_cons.mp hids).2 (new_of_insert hids hnew first)
    refine ⟨map', ?_⟩
    rw [List.foldlM_cons, bind_eq_ok_iff]
    exact ⟨_, addNew_eq_ok_iff.mpr ⟨hnew first List.mem_cons_self, rfl⟩, hrest⟩

theorem foldlM_addNew_empty_iff {members : List Member} {map : IdMap Member} :
    members.foldlM addNew IdMap.empty = .ok map ↔
      (members.map Member.id).Nodup ∧ ∀ id x, map.find? id = some x ↔ x ∈ members ∧ x.id = id := by
  rw [foldlM_addNew_eq_ok_iff]
  simp

/-- The values of a map whose entries are the members of a list, each under its own id. -/
theorem values_perm {members : List Member} {map : IdMap Member}
    (hnodup : (members.map Member.id).Nodup)
    (h : ∀ id x, map.find? id = some x ↔ x ∈ members ∧ x.id = id) : map.values.Perm members := by
  have hkeys : ∀ id x, map.find? id = some x → x.id = id := fun id x hx => ((h id x).mp hx).2
  rw [List.perm_ext_iff_of_nodup (map.nodup_map_values hkeys).of_map hnodup.of_map]
  intro x
  rw [IdMap.mem_values]
  constructor
  · intro hx
    obtain ⟨id, hx⟩ := hx
    exact ((h id x).mp hx).1
  · intro hx
    exact ⟨x.id, (h x.id x).mpr ⟨hx, rfl⟩⟩

/-- Without a repeated id all members are taken up, whatever they weigh. -/
theorem foldlM_addNew_of_nodup {members : List Member} (h : (members.map Member.id).Nodup) :
    ∃ map : IdMap Member,
      members.foldlM addNew IdMap.empty = .ok map ∧ map.values.Perm members := by
  obtain ⟨map, hfold⟩ := exists_foldlM_addNew h fun x _ => IdMap.contains_empty x.id
  exact ⟨map, hfold, values_perm h (foldlM_addNew_empty_iff.mp hfold).2⟩

/-- A list makes a membership if no id comes twice, and one that holds the members of the list
under their ids. -/
theorem ofList_eq_ok_iff {members : List Member} {m : Membership} : ofList members = .ok m ↔
    (members.map Member.id).Nodup ∧ ∀ id x, m.all.find? id = some x ↔ x ∈ members ∧ x.id = id := by
  rw [ofList, bind_eq_ok_iff]
  simp only [ofMap_eq_ok_iff, foldlM_addNew_empty_iff, exists_eq_right']

/-- A list makes a membership exactly if no id repeats and the exact total fits. -/
theorem exists_ofList_iff {members : List Member} : (∃ m, ofList members = .ok m) ↔
    (members.map Member.id).Nodup ∧ participantWeight members < 2 ^ 64 := by
  constructor
  · intro h
    obtain ⟨m, hm⟩ := h
    obtain ⟨hnodup, hentries⟩ := ofList_eq_ok_iff.mp hm
    rw [← participantWeight_perm (values_perm hnodup hentries)]
    exact ⟨hnodup, exists_all_eq_iff_participantWeight.mp ⟨m, rfl⟩⟩
  · intro h
    obtain ⟨hnodup, hweight⟩ := h
    obtain ⟨map, hfold, hperm⟩ := foldlM_addNew_of_nodup hnodup
    rw [← participantWeight_perm hperm] at hweight
    obtain ⟨m, rfl⟩ := exists_all_eq_iff_participantWeight.mpr hweight
    exact ⟨m, ofList_eq_ok_iff.mpr (foldlM_addNew_empty_iff.mp hfold)⟩

/-- Members taken from a list stand under their own ids. -/
theorem id_of_ofList {members : List Member} {m : Membership} (h : ofList members = .ok m)
    {id : UInt64} {x : Member} (hx : m.all.find? id = some x) : x.id = id :=
  (((ofList_eq_ok_iff.mp h).2 id x).mp hx).2

theorem ofList_of_perm {members members' : List Member} (hperm : members.Perm members')
    {m : Membership} (h : ofList members = .ok m) : ofList members' = .ok m := by
  rw [ofList_eq_ok_iff] at h ⊢
  obtain ⟨hnodup, hentries⟩ := h
  refine ⟨(hperm.map Member.id).nodup_iff.mp hnodup, ?_⟩
  intro id x
  rw [hentries, hperm.mem_iff]

theorem FirstRepeat.not_nodup {members : List Member} {x : Member} (h : FirstRepeat members x) :
    ¬ (members.map Member.id).Nodup := by
  obtain ⟨before, after, rfl, -, hrepeat⟩ := h
  intro hnodup
  rw [List.map_append, List.map_cons] at hnodup
  exact (List.nodup_append.mp hnodup).2.2 x.id hrepeat x.id List.mem_cons_self rfl

/-- A list is turned down at the first member whose id came before. -/
theorem foldlM_addNew_eq_error_iff {members : List Member} {e : Error} :
    members.foldlM addNew IdMap.empty = .error e ↔
      ∃ x, FirstRepeat members x ∧ e = .duplicateServer x.id := by
  rw [foldlM_eq_error_iff]
  simp only [addNew_eq_error_iff, foldlM_addNew_empty_iff]
  have hold {before : List Member} {map : IdMap Member}
      (hentries : ∀ id x, map.find? id = some x ↔ x ∈ before ∧ x.id = id) (id : UInt64) :
      map.contains id = true ↔ id ∈ before.map Member.id := by
    rw [IdMap.contains, Option.isSome_iff_exists, List.mem_map]
    exact exists_congr (hentries id)
  constructor
  · intro h
    obtain ⟨before, x, after, map, rfl, ⟨hnodup, hentries⟩, hrepeat, he⟩ := h
    exact ⟨x, ⟨before, after, rfl, hnodup, (hold hentries x.id).mp hrepeat⟩, he⟩
  · intro h
    obtain ⟨x, ⟨before, after, rfl, hnodup, hrepeat⟩, he⟩ := h
    -- nothing is repeated before that member, so all that comes before it is taken up
    obtain ⟨map, hfold⟩ := exists_foldlM_addNew hnodup fun x _ => IdMap.contains_empty x.id
    obtain ⟨-, hentries⟩ := foldlM_addNew_empty_iff.mp hfold
    exact ⟨before, x, after, map, rfl, ⟨hnodup, hentries⟩, (hold hentries x.id).mpr hrepeat, he⟩

/-- Where any id repeats, one of the repeats is the first. -/
theorem exists_firstRepeat_iff {members : List Member} :
    (∃ x, FirstRepeat members x) ↔ ¬ (members.map Member.id).Nodup := by
  constructor
  · intro h
    obtain ⟨x, hx⟩ := h
    exact hx.not_nodup
  · intro h
    cases hfold : members.foldlM addNew IdMap.empty with
    | ok map => exact absurd (foldlM_addNew_empty_iff.mp hfold).1 h
    | error e =>
      obtain ⟨x, hx, -⟩ := foldlM_addNew_eq_error_iff.mp hfold
      exact ⟨x, hx⟩

/-- The id reported is the first one that repeats. -/
theorem ofList_eq_duplicate_iff {members : List Member} {id : UInt64} :
    ofList members = .error (.duplicateServer id) ↔ ∃ x, FirstRepeat members x ∧ x.id = id := by
  rw [ofList, bind_eq_error_iff]
  simp only [foldlM_addNew_eq_error_iff, ofMap_eq_error_iff, reduceCtorEq, false_and, and_false,
    exists_false, or_false, Error.duplicateServer.injEq]
  exact exists_congr fun x => and_congr_right fun _ => eq_comm

/-- The weights are added only where no id is repeated. -/
theorem ofList_eq_overflow_iff {members : List Member} :
    ofList members = .error (.config .weightOverflow) ↔
      (members.map Member.id).Nodup ∧ 2 ^ 64 ≤ participantWeight members := by
  rw [ofList, bind_eq_error_iff]
  simp only [foldlM_addNew_eq_error_iff, ofMap_eq_error_iff, reduceCtorEq, and_false, exists_false,
    false_or, true_and]
  constructor
  · intro h
    obtain ⟨map, hfold, hweight⟩ := h
    obtain ⟨hnodup, hentries⟩ := foldlM_addNew_empty_iff.mp hfold
    rw [participantWeight_perm (values_perm hnodup hentries)] at hweight
    exact ⟨hnodup, hweight⟩
  · intro h
    obtain ⟨hnodup, hweight⟩ := h
    obtain ⟨map, hfold, hperm⟩ := foldlM_addNew_of_nodup hnodup
    rw [← participantWeight_perm hperm] at hweight
    exact ⟨map, hfold, hweight⟩

/-- A list is turned down at the first member whose id came before, if there is one; otherwise for
the weight of its participants, if that is beyond 64 bits as an unbounded sum; and otherwise it
makes up one membership, whatever its order, with each member under its own id. A map, under
whatever keys, can be at fault for the weight alone. In every membership participants and observers
are parted, with nothing lost and the exact total. -/
theorem construction_fails_on_repeats_then_on_weight (members : List Member) (all : IdMap Member) :
    ((∀ id, ofList members = .error (.duplicateServer id) ↔
        ∃ x, FirstRepeat members x ∧ x.id = id) ∧
      ((∃ x, FirstRepeat members x) ↔ ¬ (members.map Member.id).Nodup) ∧
      (ofList members = .error (.config .weightOverflow) ↔
        (members.map Member.id).Nodup ∧ 2 ^ 64 ≤ participantWeight members) ∧
      ((∃ m, ofList members = .ok m) ↔
        (members.map Member.id).Nodup ∧ participantWeight members < 2 ^ 64)) ∧
    (∀ m, ofList members = .ok m → m.Parted ∧
      (∀ id x, m.all.find? id = some x ↔ x ∈ members ∧ x.id = id) ∧
      ∀ members', members.Perm members' → ofList members' = .ok m) ∧
    (ofMap all = .error (.config .weightOverflow) ↔ 2 ^ 64 ≤ participantWeight all.values) ∧
    ((∃ m, ofMap all = .ok m) ↔ participantWeight all.values < 2 ^ 64) ∧
    ∀ m, ofMap all = .ok m → m.all = all ∧ m.Parted := by
  refine ⟨⟨fun id => ofList_eq_duplicate_iff, exists_firstRepeat_iff, ofList_eq_overflow_iff,
    exists_ofList_iff⟩, ?_, ?_, ?_, ?_⟩
  · intro m hm
    exact ⟨m.parted, (ofList_eq_ok_iff.mp hm).2, fun members' hperm => ofList_of_perm hperm hm⟩
  · rw [ofMap_eq_error_iff, and_iff_right rfl]
  · simp only [ofMap_eq_ok_iff, exists_all_eq_iff_participantWeight]
  · intro m hm
    exact ⟨ofMap_eq_ok_iff.mp hm, m.parted⟩

/-- One participant uses up all the weight there is. With an observer beside it the list is fine in
either order, and so is a map that has the two under other ids; with a second participant it is not,
unless a repeated id comes first. -/
theorem heaviest_participant_goes_with_observers_only :
    let heavy := Member.mk 1 "a" 1 2 none .participant 18446744073709551615
    let light := Member.mk 2 "b" 1 2 none .participant 1
    let watching := Member.mk 2 "b" 1 2 none .observer 5
    let swapped := IdMap.ofList [(2, heavy), (1, watching)]
    (ofList [heavy, light] = .error (.config .weightOverflow) ∧
      ofList [heavy, light, watching] = .error (.duplicateServer 2)) ∧
    (∃ m, ofList [heavy, watching] = .ok m ∧ ofList [watching, heavy] = .ok m ∧ m.Parted) ∧
    ∃ m, ofMap swapped = .ok m ∧ m.all = swapped ∧ m.Parted := by
  intro heavy light watching swapped
  obtain ⟨⟨-, -, hheavy, -⟩, -⟩ :=
    construction_fails_on_repeats_then_on_weight [heavy, light] swapped
  obtain ⟨⟨hrepeat, -⟩, -⟩ :=
    construction_fails_on_repeats_then_on_weight [heavy, light, watching] swapped
  obtain ⟨⟨-, -, -, hfits⟩, hmade, -, hmap, hswapped⟩ :=
    construction_fails_on_repeats_then_on_weight [heavy, watching] swapped
  have hnodup : ([heavy, light].map Member.id).Nodup := by decide
  have hfirst : FirstRepeat [heavy, light, watching] watching :=
    ⟨[heavy, light], [], rfl, hnodup, by decide⟩
  obtain ⟨m, hm⟩ := hfits.mpr ⟨by decide, by decide⟩
  obtain ⟨hparted, -, hperm⟩ := hmade m hm
  obtain ⟨m', hm'⟩ := hmap.mpr (by decide +kernel)
  exact ⟨⟨hheavy.mpr ⟨hnodup, by decide⟩, (hrepeat 2).mpr ⟨watching, hfirst, rfl⟩⟩,
    ⟨m, hm, hperm _ (List.Perm.swap _ _ _), hparted⟩, m', hm', hswapped m' hm'⟩

end Membership

end Electorate
