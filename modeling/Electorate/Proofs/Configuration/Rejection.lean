import Electorate.Proofs.Configuration.Acceptance
import Electorate.Proofs.Configuration.Faults

/-! The reader turns down a text at its first line that is rejected, and at what is wrong with the
text as a whole only where no line is. -/
namespace Electorate
open scoped BigOperators

namespace Draft

/-- Something is said about the subject. -/
def Mentions (draft : Draft) : Subject → Prop
  | .server id => draft.servers.contains id = true
  | .weight id => draft.weights.contains id = true
  | .version => draft.version.isSome = true

theorem not_mentions_empty (s : Subject) : ¬ empty.Mentions s := by
  intro h
  cases s <;> cases h

theorem mentions_give {draft : Draft} {st : Statement} {s : Subject} :
    (draft.give st).Mentions s ↔ s = st.subject ∨ draft.Mentions s := by
  cases st <;> cases s <;> simp [give, Mentions, Statement.subject, IdMap.contains_insert]

theorem mentions_foldl_give {draft : Draft} {sts : List Statement} {s : Subject} :
    (sts.foldl give draft).Mentions s ↔ s ∈ sts.map Statement.subject ∨ draft.Mentions s := by
  induction sts generalizing draft with
  | nil => simp
  | cons st sts ih =>
    rw [List.foldl_cons, ih, mentions_give, List.map_cons, List.mem_cons]
    tauto

theorem mentions_ofStatements {sts : List Statement} {s : Subject} :
    (ofStatements sts).Mentions s ↔ s ∈ sts.map Statement.subject := by
  rw [ofStatements, mentions_foldl_give, or_iff_left (not_mentions_empty s)]

theorem readId_eq_error_iff {n : ℕ} {s : List Char} {e : Error} : readId n s = .error e ↔
    (∀ id : UInt64, ¬ IsNumeral 10 s id.toNat) ∧ e = .config (.serverId n (String.ofList s)) := by
  rw [← readWord64_eq_none_iff, readId]
  cases readWord64 s <;> simp [eq_comm]

section
variable {draft : Draft} {seen : List Subject} (hseen : ∀ s, draft.Mentions s ↔ s ∈ seen)
  {n : ℕ} {numeral value : List Char} {e : Error}
include hseen

theorem addServer_eq_error_iff :
    draft.addServer n numeral value = .error e ↔ ServerFault seen n numeral value e := by
  have hold (id : UInt64) : draft.servers.contains id = true ↔ Subject.server id ∈ seen :=
    hseen (.server id)
  rw [addServer, bind_eq_error_iff]
  simp only [bind_eq_error_iff, readId_eq_error_iff, readId_eq_ok_iff, mapError_eq_error_iff]
  constructor
  · intro h
    -- in the order of the checks: the id, then the value, then whether the id is new
    rcases h with ⟨hid, rfl⟩ | ⟨id, hid, ⟨fault, hvalue, rfl⟩ | ⟨m, hvalue, h⟩⟩
    · exact ServerFault.id hid
    · exact ServerFault.spec hid hvalue
    · split_ifs at h with hcontains
      obtain rfl := Except.error.inj h
      exact ServerFault.repeated hid (eq_ok_of_mapError hvalue) ((hold id).mp hcontains)
  · intro h
    cases h with
    | id hid => exact Or.inl ⟨hid, rfl⟩
    | spec hid hvalue => exact Or.inr ⟨_, hid, Or.inl ⟨_, hvalue, rfl⟩⟩
    | @repeated id m hid hvalue hrepeat =>
      refine Or.inr ⟨id, hid, Or.inr ⟨m, ?_, if_pos ((hold id).mpr hrepeat)⟩⟩
      rw [hvalue]
      rfl

theorem addWeight_eq_error_iff :
    draft.addWeight n numeral value = .error e ↔ WeightFault seen n numeral value e := by
  have hold (id : UInt64) : draft.weights.contains id = true ↔ Subject.weight id ∈ seen :=
    hseen (.weight id)
  rw [addWeight, bind_eq_error_iff]
  simp only [readId_eq_error_iff, readId_eq_ok_iff]
  constructor
  · intro h
    rcases h with ⟨hid, rfl⟩ | ⟨id, hid, h⟩
    · exact WeightFault.id hid
    · cases hvalue : readWord64 value with
      | none =>
        rw [hvalue] at h
        obtain rfl := Except.error.inj h
        exact WeightFault.weight hid (readWord64_eq_none_iff.mp hvalue)
      | some w =>
        rw [hvalue] at h
        simp only at h
        split_ifs at h with hcontains
        obtain rfl := Except.error.inj h
        exact WeightFault.repeated hid (readWord64_eq_some_iff.mp hvalue)
          ((hold id).mp hcontains)
  · intro h
    cases h with
    | id hid => exact Or.inl ⟨hid, rfl⟩
    | weight hid hvalue =>
      refine Or.inr ⟨_, hid, ?_⟩
      rw [readWord64_eq_none_iff.mpr hvalue]
    | repeated hid hvalue hrepeat =>
      refine Or.inr ⟨_, hid, ?_⟩
      rw [readWord64_eq_some_iff.mpr hvalue]
      exact if_pos ((hold _).mpr hrepeat)

theorem addVersion_eq_error_iff :
    draft.addVersion value = .error e ↔ VersionFault seen value e := by
  have hold : draft.version.isSome = true ↔ Subject.version ∈ seen := hseen .version
  rw [addVersion]
  cases hversion : draft.version with
  | some old =>
    rw [hversion] at hold
    have hrepeat := hold.mp rfl
    constructor
    · intro h
      obtain rfl := Except.error.inj h
      exact VersionFault.repeated hrepeat
    · intro h
      cases h with
      | repeated _ => rfl
      | version hnew _ => exact absurd hrepeat hnew
  | none =>
    rw [hversion] at hold
    have hnew : Subject.version ∉ seen := by
      intro hrepeat
      cases hold.mpr hrepeat
    constructor
    · intro h
      cases hvalue : readHex64 value with
      | none =>
        rw [hvalue] at h
        obtain rfl := Except.error.inj h
        exact VersionFault.version hnew (readHex64_eq_none_iff.mp hvalue)
      | some v =>
        rw [hvalue] at h
        cases h
    · intro h
      cases h with
      | repeated hrepeat => exact absurd hrepeat hnew
      | version _ hvalue =>
        rw [readHex64_eq_none_iff.mpr hvalue]

end

/-- The key decides what can be wrong with the value. -/
theorem pairFault_iff {seen : List Subject} {n : ℕ} {key value : List Char} {e : Error} :
    PairFault seen n key value e ↔
      match Key.of key with
      | .server numeral => ServerFault seen n numeral value e
      | .weight numeral => WeightFault seen n numeral value e
      | .version => VersionFault seen value e
      | .other => e = .config (.unknownKey n (String.ofList key)) := by
  constructor
  · intro h
    cases h with
    | server hkey hfault =>
      rw [hkey, Key.of_server]
      exact hfault
    | weight hkey hfault =>
      rw [hkey, Key.of_weight]
      exact hfault
    | version hkey hfault =>
      rw [hkey, Key.of_version]
      exact hfault
    | key hserver hweight hversion =>
      have hkey := Key.eq_of key
      cases hk : Key.of key with
      | server numeral =>
        rw [hk] at hkey
        exact absurd hkey (hserver numeral)
      | weight numeral =>
        rw [hk] at hkey
        exact absurd hkey (hweight numeral)
      | version =>
        rw [hk] at hkey
        exact absurd hkey hversion
      | other => rfl
  · intro h
    have hkey := Key.eq_of key
    cases hk : Key.of key with
    | server numeral =>
      rw [hk] at h hkey
      exact PairFault.server hkey h
    | weight numeral =>
      rw [hk] at h hkey
      exact PairFault.weight hkey h
    | version =>
      rw [hk] at h hkey
      exact PairFault.version hkey h
    | other =>
      rw [hk] at h
      obtain rfl := h
      -- a key of one of the three kinds would have been taken for it
      refine PairFault.key ?_ ?_ ?_
      · intro numeral hserver
        rw [hserver, Key.of_server] at hk
        cases hk
      · intro numeral hweight
        rw [hweight, Key.of_weight] at hk
        cases hk
      · intro hversion
        rw [hversion, Key.of_version] at hk
        cases hk

section
variable {draft : Draft} {seen : List Subject} (hseen : ∀ s, draft.Mentions s ↔ s ∈ seen)
  {n : ℕ} {e : Error}
include hseen

/-- An entry is rejected exactly for its fault, given what was mentioned before. -/
theorem addEntry_eq_error_iff {entry : List Char} :
    draft.addEntry n entry = .error e ↔ EntryFault seen n entry e := by
  rw [addEntry]
  cases hsplit : splitFirst? '=' entry with
  | none =>
    have hsep : '=' ∉ entry := splitFirst?_eq_none.mp hsplit
    constructor
    · intro h
      obtain rfl := Except.error.inj h
      exact EntryFault.separator hsep
    · intro h
      cases h with
      | separator _ => rfl
      | pair hentry _ _ =>
        rw [hentry] at hsep
        simp at hsep
  | some halves =>
    obtain ⟨left, right⟩ := halves
    obtain ⟨hentry, hsep⟩ := splitFirst?_eq_some hsplit
    have hpair : EntryFault seen n entry e ↔ PairFault seen n (trim left) (trim right) e := by
      constructor
      · intro h
        cases h with
        | separator hnone =>
          rw [hentry] at hnone
          simp at hnone
        | pair hentry' hsep' h =>
          obtain ⟨rfl, rfl⟩ := eq_of_append_cons hsep hsep' (hentry.symm.trans hentry')
          exact h
      · intro h
        exact EntryFault.pair hentry hsep h
    rw [hpair, pairFault_iff]
    simp only
    cases Key.of (trim left) with
    | server numeral => exact addServer_eq_error_iff hseen
    | weight numeral => exact addWeight_eq_error_iff hseen
    | version => exact addVersion_eq_error_iff hseen
    | other => simp [eq_comm]

theorem addLine_eq_error_iff {line : List Char} :
    draft.addLine (line, n) = .error e ↔ LineFault seen n line e := by
  have hidle : isIdle (trim line) = true ↔ ¬ IsEntry line := by
    rw [isIdle_eq, Bool.not_eq_true', decide_eq_false_iff_not]
    exact Iff.rfl
  rw [addLine, LineFault]
  simp only
  by_cases hentry : IsEntry line
  · rw [if_neg (hidle.not.mpr (not_not.mpr hentry)), addEntry_eq_error_iff hseen,
      and_iff_right hentry]
  · rw [if_pos (hidle.mpr hentry)]
    constructor
    · intro h
      cases h
    · intro h
      exact absurd h.1 hentry

end

/-- Lines make a draft if none of them is rejected. -/
theorem foldlM_addLine_empty_iff {lines : List (List Char)} {n : ℕ} {draft : Draft} :
    (lines.zipIdx n).foldlM addLine empty = .ok draft ↔
      ∃ sts, Accepted lines sts ∧ draft = ofStatements sts := by
  rw [foldlM_addLine_eq_ok_iff]
  simp only [takes_iff, lacks_empty, implies_true, and_true, Accepted, and_assoc]
  exact Iff.rfl

/-- Lines make no draft if one of them is rejected, and the first such line gives the error. -/
theorem ofLines_eq_error_iff {text : String} {e : Error} :
    ofLines text.toList = .error e ↔ FirstFault text e := by
  rw [ofLines, foldlM_eq_error_iff, FirstFault, linesOf]
  constructor
  · intro h
    obtain ⟨before, numbered, after, draft, hsplit, hbefore, hline⟩ := h
    obtain ⟨before, rest, hlines, rfl, hrest⟩ := List.zipIdx_eq_append_iff.mp hsplit
    obtain ⟨line, after, rfl, rfl, rfl⟩ := List.zipIdx_eq_cons_iff.mp hrest.symm
    -- the draft so far mentions what the lines before that one are about, and nothing else
    obtain ⟨sts, haccepted, rfl⟩ := foldlM_addLine_empty_iff.mp hbefore
    rw [Nat.add_comm] at hline
    exact ⟨before, line, after, sts, hlines, haccepted,
      (addLine_eq_error_iff fun _ => mentions_ofStatements).mp hline⟩
  · intro h
    obtain ⟨before, line, after, sts, hlines, haccepted, hline⟩ := h
    refine ⟨before.zipIdx 1, (line, before.length + 1), after.zipIdx (before.length + 2),
      ofStatements sts, ?_, foldlM_addLine_empty_iff.mpr ⟨sts, haccepted, rfl⟩,
      (addLine_eq_error_iff fun _ => mentions_ofStatements).mpr hline⟩
    rw [hlines, List.zipIdx_append, List.zipIdx_cons, Nat.add_comm]

/-- A weight without a server is reported, and of several the one with the lowest id. -/
theorem weighted_eq_error_iff {draft : Draft} {e : Error} :
    draft.weighted = .error e ↔
      ∃ id, ((draft.weights.contains id = true ∧ draft.servers.contains id = false) ∧
        ∀ j, draft.weights.contains j = true → draft.servers.contains j = false → id ≤ j) ∧
          e = .config (.strayWeight id) := by
  have hfind (id : UInt64) :
      draft.weights.ids.find? (fun id => !draft.servers.contains id) = some id ↔
        (draft.weights.contains id = true ∧ draft.servers.contains id = false) ∧
          ∀ j, draft.weights.contains j = true → draft.servers.contains j = false → id ≤ j := by
    rw [IdMap.find?_ids_eq_some_iff]
    simp only [Bool.not_eq_true']
  simp only [← hfind]
  unfold weighted
  split
  · next id hsome =>
    simp only [hsome, Option.some.injEq, exists_eq_left', Except.error.injEq, eq_comm]
  · next hnone => simp [hnone]

/-- What the statements make up is finished unless something is wrong with all of them together. -/
theorem finish_ofStatements_eq_error_iff {sts : List Statement}
    (hdistinct : (sts.map Statement.subject).Nodup)
    (hone : ∀ id m, Statement.server id m ∈ sts → m.weight = 1) {asked : Option Policy}
    {e : Error} : (ofStatements sts).finish asked = .error e ↔ TextFault sts e := by
  have hunplaced (id : UInt64) : (ofStatements sts).servers.contains id = false ↔
      ∀ m, Statement.server id m ∉ sts := by
    rw [← Bool.not_eq_true, contains_servers_ofStatements hdistinct, not_exists]
  have hweight : 2 ^ 64 ≤ participantWeight (ofStatements sts).members.values ↔
      2 ^ 64 ≤ ∑ id ∈ votersOf sts, (weightOf sts id).toNat := by
    rw [← not_lt, ← not_lt, ← Membership.exists_all_eq_iff_participantWeight,
      exists_membership_iff hdistinct hone]
  rw [finish, bind_eq_error_iff]
  simp only [bind_eq_error_iff, weighted_eq_error_iff, weighted_eq_ok_iff,
    Membership.ofMap_eq_error_iff, Membership.ofMap_eq_ok_iff, placed_ofStatements_iff hdistinct]
  simp only [hunplaced, contains_weights_ofStatements hdistinct]
  constructor
  · intro h
    rcases h with ⟨id, ⟨⟨⟨w, hw⟩, hstray⟩, hleast⟩, rfl⟩ |
      ⟨_, ⟨hplaced, rfl⟩, ⟨rfl, hheavy⟩ | ⟨membership, hall, hvotes⟩⟩
    · exact TextFault.stray hw hstray fun j w' hw' => hleast j ⟨w', hw'⟩
    · exact TextFault.overflow hplaced (hweight.mp hheavy)
    · split_ifs at hvotes with hempty
      obtain rfl := Except.error.inj hvotes
      refine TextFault.noVoter hplaced ?_
      rw [← exists_isVoter_iff hdistinct hone hall]
      intro hvoter
      rw [membership.voting.isEmpty_eq_false_iff.mpr hvoter] at hempty
      cases hempty
  · intro h
    cases h with
    | stray hw hstray hleast =>
      refine Or.inl ⟨_, ⟨⟨⟨_, hw⟩, hstray⟩, ?_⟩, rfl⟩
      intro j hj
      obtain ⟨w', hw'⟩ := hj
      exact hleast j w' hw'
    | overflow hplaced hheavy =>
      exact Or.inr ⟨_, ⟨hplaced, rfl⟩, Or.inl ⟨rfl, hweight.mpr hheavy⟩⟩
    | noVoter hplaced hvoter =>
      -- without voters there is nothing to add up, so there is a membership
      have hfits : ∑ id ∈ votersOf sts, (weightOf sts id).toNat < 2 ^ 64 := by
        rw [Finset.not_nonempty_iff_eq_empty.mp hvoter, Finset.sum_empty]
        exact Nat.two_pow_pos 64
      obtain ⟨membership, hall⟩ := (exists_membership_iff hdistinct hone).mpr hfits
      refine Or.inr ⟨_, ⟨hplaced, rfl⟩, Or.inr ⟨membership, hall, if_pos ?_⟩⟩
      rw [← exists_isVoter_iff hdistinct hone hall] at hvoter
      exact eq_true_of_ne_false fun hfull =>
        hvoter (membership.voting.isEmpty_eq_false_iff.mp hfull)

end Draft

namespace Configuration

/-- A text is rejected for its first faulty line, or if there is none for what all its statements
come to. -/
theorem parse_eq_error_iff {text : String} {asked : Option Policy} {e : Error} :
    parse text asked = .error e ↔
      FirstFault text e ∨ ∃ sts, Accepted (linesOf text) sts ∧ TextFault sts e := by
  rw [parse, bind_eq_error_iff, Draft.ofLines_eq_error_iff]
  apply or_congr_right
  constructor
  · intro h
    obtain ⟨draft, hlines, hfinish⟩ := h
    obtain ⟨sts, hspells, hdistinct, rfl⟩ := Draft.ofLines_eq_ok_iff.mp hlines
    exact ⟨sts, ⟨hspells, hdistinct⟩,
      (Draft.finish_ofStatements_eq_error_iff hdistinct hspells.weight_eq_one).mp hfinish⟩
  · intro h
    obtain ⟨sts, ⟨hspells, hdistinct⟩, hfault⟩ := h
    have hone := Spells.weight_eq_one hspells
    exact ⟨Draft.ofStatements sts, Draft.ofLines_eq_ok_iff.mpr ⟨sts, hspells, hdistinct, rfl⟩,
      (Draft.finish_ofStatements_eq_error_iff hdistinct hone).mpr hfault⟩

/-- Either some line is the first that is rejected or none is. -/
theorem exists_firstFault_iff {text : String} :
    (∃ e, FirstFault text e) ↔ ¬ ∃ sts, Accepted (linesOf text) sts := by
  have haccepted : (∃ draft, Draft.ofLines text.toList = .ok draft) ↔
      ∃ sts, Accepted (linesOf text) sts := by
    simp only [Draft.ofLines_eq_ok_iff]
    constructor
    · intro h
      obtain ⟨draft, sts, hspells, hdistinct, -⟩ := h
      exact ⟨sts, hspells, hdistinct⟩
    · intro h
      obtain ⟨sts, hspells, hdistinct⟩ := h
      exact ⟨_, sts, hspells, hdistinct, rfl⟩
  rw [← haccepted]
  simp only [← Draft.ofLines_eq_error_iff]
  cases Draft.ofLines text.toList <;> simp

/-- A text is turned down with the error of its first line that is rejected, and where no line is,
with what is wrong with all of them together. The error is always about the text, whatever follows
the line does not change it, and what was said before is rejected where it is said again. -/
theorem parse_fails_at_first_fault (text : String) (asked : Option Policy) :
    (∀ e, parse text asked = .error e ↔
      FirstFault text e ∨ ∃ sts, Accepted (linesOf text) sts ∧ TextFault sts e) ∧
    ((∃ e, FirstFault text e) ↔ ¬ ∃ sts, Accepted (linesOf text) sts) ∧
    (∀ e, parse text asked = .error e → e.IsTextual ∧ e.isConfigError = true) ∧
    ∀ before line after sts, linesOf text = before ++ line :: after → Accepted before sts →
      (∀ e, LineFault (sts.map Statement.subject) (before.length + 1) line e →
        ∀ text' asked', before ++ [line] <+: linesOf text' → parse text' asked' = .error e) ∧
      ∀ st, IsEntry line → Statement.OfEntry (trim line) st →
        st.subject ∈ sts.map Statement.subject → parse text asked = .error st.subject.repeated := by
  refine ⟨fun e => parse_eq_error_iff, exists_firstFault_iff, ?_, ?_⟩
  · intro e h
    have htextual : e.IsTextual := by
      rcases parse_eq_error_iff.mp h with hfirst | ⟨sts, -, hwhole⟩
      · exact hfirst.isTextual
      · exact hwhole.isTextual
    exact ⟨htextual, htextual.isConfigError⟩
  · intro before line after sts hlines hbefore
    constructor
    · intro e hline text' asked' hbegins
      exact parse_eq_error_iff.mpr (Or.inl (FirstFault.of_begins hbefore hline hbegins))
    · intro st hentry hst hold
      have hline : LineFault (sts.map Statement.subject) (before.length + 1) line
          st.subject.repeated := ⟨hentry, EntryFault.of_ofEntry hst hold⟩
      exact parse_eq_error_iff.mpr (Or.inl ⟨before, line, after, sts, hlines, hbefore, hline⟩)

/-- The id on line four cannot be read, which is what is reported whatever comes after it and under
whatever policy, although the version on line five cannot be read either. And a server that comes
twice is reported the second time, however its id is written. -/
theorem bad_id_is_reported_whatever_follows :
    let text := "# late servers\n\nserver.1=a:1:2\n server.one = b:1:2\nversion=x"
    let line := " server.+01 = b:1:2:observer".toList
    let text' := "#\nserver.1=a:1:2\n server.+01 = b:1:2:observer"
    (parse text = .error (.config (.serverId 4 "one")) ∧
      ∀ more asked, parse (text ++ "\n" ++ more) asked = .error (.config (.serverId 4 "one"))) ∧
    (IsEntry line ∧ Statement.OfEntry (trim line)
      (.server 1 (Member.mk 1 "b" 1 2 none .observer 1))) ∧
    parse text' = .error (.duplicateServer 1) := by
  intro text line text'
  have hparse : parse text = .error (.config (.serverId 4 "one")) := by decide +kernel
  have hread {entry : List Char} {st : Statement}
      (h : Draft.empty.addEntry 1 entry = .ok (Draft.empty.give st)) :
      Statement.OfEntry entry st := Draft.ofEntry_iff_addEntry_empty.mpr h
  have hentry : IsEntry line := by decide +kernel
  have hsecond : Statement.OfEntry (trim line) (.server 1 (Member.mk 1 "b" 1 2 none .observer 1)) :=
    hread (by decide +kernel)
  refine ⟨⟨hparse, ?_⟩, ⟨hentry, hsecond⟩, ?_⟩
  · intro more asked
    obtain ⟨herror, -, -, hstable⟩ := parse_fails_at_first_fault text none
    -- an error that names a line is about that line, so the lines up to it give it again
    rcases (herror _).mp hparse with hfirst | ⟨_, -, hwhole⟩
    · obtain ⟨before, line, after, sts, hlines, hbefore, hline⟩ := hfirst
      refine (hstable before line after sts hlines hbefore).1 _ hline _ asked ?_
      rw [linesOf_append, hlines]
      exact ⟨after ++ linesOf more, by simp⟩
    · cases hwhole
  · obtain ⟨-, -, -, hstable⟩ := parse_fails_at_first_fault text' none
    have hlines : linesOf text' = ["#".toList, "server.1=a:1:2".toList] ++ line :: [] := by
      decide +kernel
    have hentries : entriesOf ["#".toList, "server.1=a:1:2".toList] =
        ["server.1=a:1:2".toList] := by decide +kernel
    have hbefore : Accepted ["#".toList, "server.1=a:1:2".toList]
        [.server 1 (Member.mk 1 "a" 1 2 none .participant 1)] := by
      refine ⟨?_, List.nodup_singleton _⟩
      rw [hentries]
      exact .cons (hread (by decide +kernel)) .nil
    exact (hstable _ _ _ _ hlines hbefore).2 _ hentry hsecond List.mem_cons_self

end Configuration

end Electorate
