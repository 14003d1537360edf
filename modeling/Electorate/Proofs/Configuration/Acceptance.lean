import Electorate.Proofs.Configuration.Draft
import Electorate.Proofs.Configuration.Format
import Electorate.Proofs.Quorum

/-! The reader accepts the texts of the format and no others, and makes of them what they
describe. -/
namespace Electorate
open scoped BigOperators

namespace Draft

/-- A draft with one more statement in it. -/
def give (draft : Draft) : Statement → Draft
  | .server id m => { draft with servers := draft.servers.insert id m }
  | .weight id w => { draft with weights := draft.weights.insert id w }
  | .version v => { draft with version := some v }

/-- Nothing is said yet about what the statement is about. -/
def Lacks (draft : Draft) : Statement → Prop
  | .server id _ => draft.servers.contains id = false
  | .weight id _ => draft.weights.contains id = false
  | .version _ => draft.version = none

def Holds (draft : Draft) : Statement → Prop
  | .server id m => draft.servers.find? id = some m
  | .weight id w => draft.weights.find? id = some w
  | .version v => draft.version = some v

/-- The statements can be given one after the other, each about something new. -/
def Takes : Draft → List Statement → Prop
  | _, [] => True
  | draft, st :: sts => draft.Lacks st ∧ (draft.give st).Takes sts

theorem readId_eq_ok_iff {n : Nat} {s : List Char} {id : UInt64} :
    readId n s = .ok id ↔ IsNumeral 10 s id.toNat := by
  rw [← readWord64_eq_some_iff, readId]
  cases readWord64 s <;> simp

section
variable {draft draft' : Draft} {n : Nat} {numeral value : List Char}

theorem addServer_eq_ok_iff : draft.addServer n numeral value = .ok draft' ↔
    ∃ st, (∃ id m, IsNumeral 10 numeral (UInt64.toNat id) ∧ Member.read id value = .ok m ∧
      st = .server id m) ∧ draft.Lacks st ∧ draft' = draft.give st := by
  constructor
  · intro h
    obtain ⟨id, hid, h⟩ := bind_eq_ok_iff.mp h
    obtain ⟨m, hm, h⟩ := bind_eq_ok_iff.mp h
    split_ifs at h with hold
    exact ⟨_, ⟨id, m, readId_eq_ok_iff.mp hid, eq_ok_of_mapError hm, rfl⟩,
      eq_false_of_ne_true hold, (Except.ok.inj h).symm⟩
  · intro h
    obtain ⟨_, ⟨id, m, hid, hm, rfl⟩, hnew, rfl⟩ := h
    have hread : (Member.read id value).mapError (Error.serverSpec id) = .ok m := by
      rw [hm]
      rfl
    refine bind_eq_ok_iff.mpr ⟨id, readId_eq_ok_iff.mpr hid, bind_eq_ok_iff.mpr ⟨m, hread, ?_⟩⟩
    exact if_neg (ne_true_of_eq_false hnew)

theorem addWeight_eq_ok_iff : draft.addWeight n numeral value = .ok draft' ↔
    ∃ st, (∃ id w, IsNumeral 10 numeral (UInt64.toNat id) ∧ IsNumeral 10 value (UInt64.toNat w) ∧
      st = .weight id w) ∧ draft.Lacks st ∧ draft' = draft.give st := by
  rw [addWeight, bind_eq_ok_iff]
  simp only [readId_eq_ok_iff, ← readWord64_eq_some_iff]
  constructor
  · intro h
    obtain ⟨id, hid, h⟩ := h
    cases hw : readWord64 value with
    | none =>
      rw [hw] at h
      cases h
    | some w =>
      rw [hw] at h
      simp only at h
      split_ifs at h with hold
      exact ⟨_, ⟨id, w, hid, rfl, rfl⟩, eq_false_of_ne_true hold, (Except.ok.inj h).symm⟩
  · intro h
    obtain ⟨_, ⟨id, w, hid, hw, rfl⟩, hnew, rfl⟩ := h
    refine ⟨id, hid, ?_⟩
    rw [hw]
    exact if_neg (ne_true_of_eq_false hnew)

theorem addVersion_eq_ok_iff : draft.addVersion value = .ok draft' ↔
    ∃ st, (∃ v, IsNumeral 16 value (UInt64.toNat v) ∧ st = .version v) ∧
      draft.Lacks st ∧ draft' = draft.give st := by
  simp only [← readHex64_eq_some_iff, addVersion]
  cases hversion : draft.version with
  | some old => simp [Lacks, hversion]
  | none =>
    cases readHex64 value with
    | none => simp
    | some v => simp [Lacks, hversion, give, eq_comm]

end

/-- An entry is taken up exactly if it makes a statement about something new. -/
theorem addEntry_eq_ok_iff {draft draft' : Draft} {n : Nat} {entry : List Char} :
    draft.addEntry n entry = .ok draft' ↔
      ∃ st, Statement.OfEntry entry st ∧ draft.Lacks st ∧ draft' = draft.give st := by
  rw [addEntry]
  cases hsplit : splitFirst? '=' entry with
  | none =>
    have hsep : '=' ∉ entry := splitFirst?_eq_none.mp hsplit
    constructor
    · intro h
      cases h
    · intro h
      obtain ⟨st, ⟨left, right, hentry, -⟩, -⟩ := h
      rw [hentry] at hsep
      simp at hsep
  | some halves =>
    obtain ⟨left, right⟩ := halves
    obtain ⟨hentry, hsep⟩ := splitFirst?_eq_some hsplit
    have hpair (st : Statement) :
        Statement.OfEntry entry st ↔ Statement.OfPair (trim left) (trim right) st := by
      constructor
      · intro h
        obtain ⟨left', right', hentry', hsep', h⟩ := h
        obtain ⟨rfl, rfl⟩ := eq_of_append_cons hsep hsep' (hentry.symm.trans hentry')
        exact h
      · intro h
        exact ⟨left, right, hentry, hsep, h⟩
    -- the reader goes by the key, and so does what the pair says
    simp only [hpair, Statement.ofPair_iff]
    cases Key.of (trim left) with
    | server numeral => exact addServer_eq_ok_iff
    | weight numeral => exact addWeight_eq_ok_iff
    | version => exact addVersion_eq_ok_iff
    | other => simp

theorem isIdle_eq (s : List Char) : isIdle s = !decide (s ≠ [] ∧ s.head? ≠ some '#') := by
  cases s with
  | nil => rfl
  | cons c s => simp [isIdle, Bool.beq_eq_decide_eq]

theorem entriesOf_cons_of_idle {line : List Char} {lines : List (List Char)}
    (h : isIdle (trim line) = true) : entriesOf (line :: lines) = entriesOf lines := by
  rw [isIdle_eq, Bool.not_eq_true'] at h
  rw [entriesOf, List.map_cons, List.filter_cons, h]
  rfl

theorem entriesOf_cons_of_not_idle {line : List Char} {lines : List (List Char)}
    (h : ¬ isIdle (trim line) = true) :
    entriesOf (line :: lines) = trim line :: entriesOf lines := by
  rw [isIdle_eq, Bool.not_eq_true', Bool.not_eq_false] at h
  rw [entriesOf, List.map_cons, List.filter_cons, h]
  rfl

/-- The lines are taken up if every entry among them says something new. -/
theorem foldlM_addLine_eq_ok_iff {lines : List (List Char)} {n : Nat} {draft draft' : Draft} :
    (lines.zipIdx n).foldlM addLine draft = .ok draft' ↔
      ∃ sts, List.Forall₂ Statement.OfEntry (entriesOf lines) sts ∧ draft.Takes sts ∧
        draft' = sts.foldl give draft := by
  -- both the draft so far and the number of the next line change from one line to the next
  induction lines generalizing n draft with
  | nil =>
    constructor
    · intro h
      exact ⟨[], List.Forall₂.nil, trivial, (Except.ok.inj h).symm⟩
    · intro h
      obtain ⟨sts, hsts, -, rfl⟩ := h
      cases hsts
      rfl
  | cons line lines ih =>
    rw [List.zipIdx_cons, List.foldlM_cons, bind_eq_ok_iff, addLine]
    simp only
    by_cases hidle : isIdle (trim line) = true
    · rw [if_pos hidle, entriesOf_cons_of_idle hidle]
      simp only [Except.ok.injEq, exists_eq_left', ih]
    · rw [if_neg hidle, entriesOf_cons_of_not_idle hidle]
      simp only [addEntry_eq_ok_iff, ih]
      constructor
      · intro h
        obtain ⟨next, ⟨st, hst, hnew, rfl⟩, sts, hsts, htakes, rfl⟩ := h
        exact ⟨st :: sts, List.Forall₂.cons hst hsts, ⟨hnew, htakes⟩, rfl⟩
      · intro h
        obtain ⟨_, hsts, htakes, rfl⟩ := h
        cases hsts with
        | cons hst hsts => exact ⟨_, ⟨_, hst, htakes.1, rfl⟩, _, hsts, htakes.2, rfl⟩

theorem lacks_empty (st : Statement) : empty.Lacks st := by
  cases st <;> rfl

theorem lacks_give {draft : Draft} {st st' : Statement} :
    (draft.give st).Lacks st' ↔ st'.subject ≠ st.subject ∧ draft.Lacks st' := by
  cases st <;> cases st' <;>
    simp [give, Lacks, Statement.subject, IdMap.contains_insert_eq_false_iff]

/-- Statements are taken if no two are about the same thing, of which nothing is said before. -/
theorem takes_iff {draft : Draft} {sts : List Statement} :
    draft.Takes sts ↔ (sts.map Statement.subject).Nodup ∧ ∀ st ∈ sts, draft.Lacks st := by
  induction sts generalizing draft with
  | nil => simp [Takes]
  | cons st sts ih =>
    rw [Takes, ih, List.map_cons, List.nodup_cons, List.forall_mem_cons, List.mem_map]
    simp only [lacks_give]
    constructor
    · intro h
      obtain ⟨hnew, hnodup, hall⟩ := h
      refine ⟨⟨?_, hnodup⟩, hnew, fun st' hst' => (hall st' hst').2⟩
      intro hsame
      obtain ⟨st', hst', hsubject⟩ := hsame
      exact (hall st' hst').1 hsubject
    · intro h
      obtain ⟨⟨hother, hnodup⟩, hnew, hall⟩ := h
      exact ⟨hnew, hnodup, fun st' hst' => ⟨fun he => hother ⟨st', hst', he⟩, hall st' hst'⟩⟩

theorem holds_give {draft : Draft} {st st' : Statement} (h : draft.Lacks st) :
    (draft.give st).Holds st' ↔ st' = st ∨ draft.Holds st' := by
  cases st with
  | server id m =>
    cases st' <;> simp [give, Holds, draft.servers.find?_insert_eq_some_iff h]
  | weight id w =>
    cases st' <;> simp [give, Holds, draft.weights.find?_insert_eq_some_iff h]
  | version v =>
    have hnone : draft.version = none := h
    cases st' <;> simp [give, Holds, hnone, eq_comm]

theorem not_holds_empty (st : Statement) : ¬ empty.Holds st := by
  cases st <;> exact nofun

/-- An entry says what it adds to a draft in which nothing has been said. -/
theorem ofEntry_iff_addEntry_empty {n : Nat} {entry : List Char} {st : Statement} :
    Statement.OfEntry entry st ↔ empty.addEntry n entry = .ok (empty.give st) := by
  rw [addEntry_eq_ok_iff]
  constructor
  · intro h
    exact ⟨st, h, lacks_empty st, rfl⟩
  · intro h
    obtain ⟨st', hentry, hnew, hsame⟩ := h
    have hholds : (empty.give st).Holds st' := by
      rw [hsame, holds_give hnew]
      exact Or.inl rfl
    rcases (holds_give (lacks_empty st)).mp hholds with rfl | hempty
    · exact hentry
    · exact absurd hempty (not_holds_empty st')

/-- A draft holds what has been said, and nothing else. -/
theorem holds_foldl_give {draft : Draft} {sts : List Statement} (h : draft.Takes sts)
    {st : Statement} : (sts.foldl give draft).Holds st ↔ st ∈ sts ∨ draft.Holds st := by
  induction sts generalizing draft with
  | nil => simp
  | cons first sts ih =>
    obtain ⟨hnew, htakes⟩ := h
    rw [List.foldl_cons, ih htakes, holds_give hnew, List.mem_cons]
    tauto

theorem eq_of_holds {draft draft' : Draft} (h : ∀ st, draft.Holds st ↔ draft'.Holds st) :
    draft = draft' := by
  obtain ⟨servers, weights, version⟩ := draft
  obtain ⟨servers', weights', version'⟩ := draft'
  have hservers : servers = servers' :=
    IdMap.eq_of_find? fun id => Option.ext fun m => h (.server id m)
  have hweights : weights = weights' :=
    IdMap.eq_of_find? fun id => Option.ext fun w => h (.weight id w)
  have hversion : version = version' := Option.ext fun v => h (.version v)
  rw [hservers, hweights, hversion]

/-- The draft that the statements make up, in whatever order they come. -/
def ofStatements (sts : List Statement) : Draft := sts.foldl give empty

theorem holds_ofStatements {sts : List Statement} (h : (sts.map Statement.subject).Nodup)
    (st : Statement) : (ofStatements sts).Holds st ↔ st ∈ sts := by
  have htakes : empty.Takes sts := takes_iff.mpr ⟨h, fun st _ => lacks_empty st⟩
  rw [ofStatements, holds_foldl_give htakes]
  simp [not_holds_empty]

/-- Statements that are all about different things can come in any order. -/
theorem ofStatements_congr {sts sts' : List Statement} (h : (sts.map Statement.subject).Nodup)
    (hperm : sts.Perm sts') : ofStatements sts = ofStatements sts' := by
  have h' : (sts'.map Statement.subject).Nodup := (hperm.map Statement.subject).nodup_iff.mp h
  apply eq_of_holds
  intro st
  rw [holds_ofStatements h, holds_ofStatements h', hperm.mem_iff]

/-- The lines of a text make a draft if each entry says something about which no other says
anything. -/
theorem ofLines_eq_ok_iff {text : String} {draft : Draft} :
    ofLines text.toList = .ok draft ↔
      ∃ sts, Spells text sts ∧ (sts.map Statement.subject).Nodup ∧ draft = ofStatements sts := by
  rw [ofLines, foldlM_addLine_eq_ok_iff]
  simp only [takes_iff, lacks_empty, implies_true, and_true]
  exact Iff.rfl

section
variable {sts : List Statement} (hdistinct : (sts.map Statement.subject).Nodup)
include hdistinct

theorem find?_servers_ofStatements {id : UInt64} {m : Member} :
    (ofStatements sts).servers.find? id = some m ↔ Statement.server id m ∈ sts :=
  holds_ofStatements hdistinct (.server id m)

theorem find?_weights_ofStatements {id w : UInt64} :
    (ofStatements sts).weights.find? id = some w ↔ Statement.weight id w ∈ sts :=
  holds_ofStatements hdistinct (.weight id w)

theorem contains_servers_ofStatements {id : UInt64} :
    (ofStatements sts).servers.contains id = true ↔ ∃ m, Statement.server id m ∈ sts := by
  rw [IdMap.contains, Option.isSome_iff_exists]
  exact exists_congr fun m => find?_servers_ofStatements hdistinct

theorem contains_weights_ofStatements {id : UInt64} :
    (ofStatements sts).weights.contains id = true ↔ ∃ w, Statement.weight id w ∈ sts := by
  rw [IdMap.contains, Option.isSome_iff_exists]
  exact exists_congr fun w => find?_weights_ofStatements hdistinct

/-- No weight is left over in the draft if the statements give each of them to a server. -/
theorem placed_ofStatements_iff :
    (∀ id, (ofStatements sts).weights.contains id = true →
      (ofStatements sts).servers.contains id = true) ↔
        ∀ id w, Statement.weight id w ∈ sts → ∃ m, Statement.server id m ∈ sts := by
  simp only [contains_servers_ofStatements hdistinct, contains_weights_ofStatements hdistinct,
    forall_exists_index]

omit hdistinct in
/-- All elements of a list are one value if they are what an option holds. -/
theorem head?_eq_of_mem_iff {α : Type} {l : List α} {x : Option α} (h : ∀ a, a ∈ l ↔ x = some a) :
    l.head? = x := by
  cases l with
  | nil => exact (Option.eq_none_iff_forall_ne_some.mpr fun a ha => nomatch (h a).mpr ha).symm
  | cons a l => exact ((h a).mp List.mem_cons_self).symm

theorem weightOf_eq (id : UInt64) :
    weightOf sts id = ((ofStatements sts).weights.find? id).getD 1 := by
  rw [weightOf]
  congr 1
  apply head?_eq_of_mem_iff
  intro w
  rw [find?_weights_ofStatements hdistinct, List.mem_filterMap]
  simp only [Statement.weightFor?_eq_some_iff, exists_eq_right]

theorem versionOf_eq : versionOf sts = (ofStatements sts).version.getD 0 := by
  rw [versionOf]
  congr 1
  apply head?_eq_of_mem_iff
  intro v
  have hholds : (ofStatements sts).version = some v ↔ Statement.version v ∈ sts :=
    holds_ofStatements hdistinct (.version v)
  rw [hholds, List.mem_filterMap]
  simp only [Statement.version?_eq_some_iff, exists_eq_right]

/-- Unless a policy is asked for, voters are weighed if any weight is given and counted if none is.
-/
theorem policy_ofStatements (asked : Option Policy) :
    (ofStatements sts).policy asked =
      asked.getD (if sts.any Statement.isWeight then .weighted else .majority) := by
  have hany : (ofStatements sts).weights.isEmpty = false ↔ sts.any Statement.isWeight = true := by
    rw [IdMap.isEmpty_eq_false_iff, List.any_eq_true]
    simp only [contains_weights_ofStatements hdistinct, Statement.isWeight_iff]
    constructor
    · intro h
      obtain ⟨id, w, hst⟩ := h
      exact ⟨_, hst, id, w, rfl⟩
    · intro h
      obtain ⟨_, hst, id, w, rfl⟩ := h
      exact ⟨id, w, hst⟩
  rw [policy]
  cases hw : sts.any Statement.isWeight with
  | true =>
    rw [hany.mpr hw]
    rfl
  | false =>
    have hempty : (ofStatements sts).weights.isEmpty = true := by
      apply eq_true_of_ne_false
      intro hfull
      rw [hany.mp hfull] at hw
      cases hw
    rw [hempty]
    rfl

/-- A member is as its server line says, with the weight that another line gives or else one. -/
theorem find?_members_ofStatements (hone : ∀ id m, Statement.server id m ∈ sts → m.weight = 1)
    {id : UInt64} {m : Member} :
    (ofStatements sts).members.find? id = some m ↔
      ∃ m₀, Statement.server id m₀ ∈ sts ∧ m = { m₀ with weight := weightOf sts id } := by
  rw [members, IdMap.find?_mapIds, Option.map_eq_some_iff]
  simp only [find?_servers_ofStatements hdistinct, weightOf_eq hdistinct]
  constructor
  · intro h
    obtain ⟨m₀, hm₀, rfl⟩ := h
    exact ⟨m₀, hm₀, by rw [hone id m₀ hm₀]⟩
  · intro h
    obtain ⟨m₀, hm₀, rfl⟩ := h
    exact ⟨m₀, hm₀, by rw [hone id m₀ hm₀]⟩

theorem support_voters_ofStatements
    (hone : ∀ id m, Statement.server id m ∈ sts → m.weight = 1) :
    ((ofStatements sts).members.filter Member.isParticipant).support = votersOf sts := by
  ext id
  rw [IdMap.mem_support, IdMap.contains, Option.isSome_iff_exists, mem_votersOf]
  simp only [IdMap.find?_filter_eq_some_iff, find?_members_ofStatements hdistinct hone]
  constructor
  · intro h
    obtain ⟨_, ⟨m₀, hm₀, rfl⟩, hvotes⟩ := h
    exact ⟨m₀, hm₀, hvotes⟩
  · intro h
    obtain ⟨m₀, hm₀, hvotes⟩ := h
    exact ⟨_, ⟨m₀, hm₀, rfl⟩, hvotes⟩

theorem exists_isVoter_iff (hone : ∀ id m, Statement.server id m ∈ sts → m.weight = 1)
    {membership : Membership} (h : membership.all = (ofStatements sts).members) :
    (∃ id, membership.isVoter id = true) ↔ (votersOf sts).Nonempty := by
  rw [← support_voters_ofStatements hdistinct hone, ← h]
  exact exists_congr fun id => (IdMap.mem_support _).symm

/-- The exact sum of the weights of the voters decides whether there is a membership. -/
theorem exists_membership_iff (hone : ∀ id m, Statement.server id m ∈ sts → m.weight = 1) :
    (∃ m : Membership, m.all = (ofStatements sts).members) ↔
      ∑ id ∈ votersOf sts, (weightOf sts id).toNat < 2 ^ 64 := by
  -- a member weighs in the draft what the statements give it
  have hsum : ∑ id ∈ votersOf sts,
      (((ofStatements sts).members.filter Member.isParticipant).find? id).elim 0
        (fun v => v.weight.toNat) = ∑ id ∈ votersOf sts, (weightOf sts id).toNat := by
    apply Finset.sum_congr rfl
    intro id hid
    obtain ⟨m₀, hm₀, hvotes⟩ := mem_votersOf.mp hid
    have hfind : ((ofStatements sts).members.filter Member.isParticipant).find? id =
        some { m₀ with weight := weightOf sts id } := by
      rw [IdMap.find?_filter_eq_some_iff, find?_members_ofStatements hdistinct hone]
      exact ⟨⟨m₀, hm₀, rfl⟩, hvotes⟩
    rw [hfind]
    rfl
  rw [Membership.exists_all_eq_iff, support_voters_ofStatements hdistinct hone, hsum]
  exact Iff.rfl

/-- What the statements make up is finished if no weight is left over and someone votes, as what
they denote. -/
theorem finish_ofStatements_iff (hone : ∀ id m, Statement.server id m ∈ sts → m.weight = 1)
    {asked : Option Policy} {c : Configuration} :
    (ofStatements sts).finish asked = .ok c ↔
      (∀ id w, Statement.weight id w ∈ sts → ∃ m, Statement.server id m ∈ sts) ∧
        (votersOf sts).Nonempty ∧ Denotes sts asked c := by
  have hmembers : c.members = (ofStatements sts).members ↔
      ∀ id m, c.members.find? id = some m ↔
        ∃ m₀, Statement.server id m₀ ∈ sts ∧ m = { m₀ with weight := weightOf sts id } := by
    simp only [← find?_members_ofStatements hdistinct hone]
    constructor
    · intro h id m
      rw [h]
    · intro h
      exact IdMap.eq_of_find? fun id => Option.ext fun m => h id m
  -- who votes is read from the members, so these come first in either direction
  rw [finish_eq_ok_iff, placed_ofStatements_iff hdistinct]
  constructor
  · intro h
    obtain ⟨hstray, hall, hversion, hpolicy, hvoter⟩ := h
    refine ⟨hstray, (exists_isVoter_iff hdistinct hone hall).mp hvoter, hmembers.mp hall, ?_, ?_⟩
    · rw [hversion, versionOf_eq hdistinct]
    · rw [hpolicy, policy_ofStatements hdistinct]
  · intro h
    obtain ⟨hstray, hvoter, hdenotes⟩ := h
    have hall := hmembers.mpr hdenotes.members
    refine ⟨hstray, hall, ?_, ?_, (exists_isVoter_iff hdistinct hone hall).mpr hvoter⟩
    · rw [hdenotes.version, versionOf_eq hdistinct]
    · rw [hdenotes.policy, policy_ofStatements hdistinct]

end

end Draft

/-- No line gives a server a weight, so a weight always comes from a line of its own. -/
theorem Spells.weight_eq_one {text : String} {sts : List Statement} (h : Spells text sts) :
    ∀ id m, Statement.server id m ∈ sts → m.weight = 1 := by
  intro id m hst
  obtain ⟨entry, -, hentry⟩ := h.exists_entry hst
  exact hentry.weight_eq_one

namespace Configuration

/-- A text is read if its entries agree, and as what they denote. -/
theorem parse_eq_ok_iff_denotes {text : String} {asked : Option Policy} {c : Configuration} :
    parse text asked = .ok c ↔ ∃ sts, Spells text sts ∧ Consistent sts ∧ Denotes sts asked c := by
  rw [parse_eq_ok_iff]
  constructor
  · intro h
    obtain ⟨draft, hlines, hfinish⟩ := h
    obtain ⟨sts, hspells, hdistinct, rfl⟩ := Draft.ofLines_eq_ok_iff.mp hlines
    have hone := hspells.weight_eq_one
    obtain ⟨-, hall, -⟩ := Draft.finish_eq_ok_iff.mp hfinish
    have hfits := (Draft.exists_membership_iff hdistinct hone).mp ⟨c.membership, hall⟩
    obtain ⟨hplaced, hvotes, hdenotes⟩ := (Draft.finish_ofStatements_iff hdistinct hone).mp hfinish
    exact ⟨sts, hspells, ⟨hdistinct, hplaced, hfits, hvotes⟩, hdenotes⟩
  · intro h
    obtain ⟨sts, hspells, hconsistent, hdenotes⟩ := h
    have hlines : Draft.ofLines text.toList = .ok (Draft.ofStatements sts) :=
      Draft.ofLines_eq_ok_iff.mpr ⟨sts, hspells, hconsistent.distinct, rfl⟩
    refine ⟨Draft.ofStatements sts, hlines, ?_⟩
    rw [Draft.finish_ofStatements_iff hconsistent.distinct hspells.weight_eq_one]
    exact ⟨hconsistent.placed, hconsistent.votes, hdenotes⟩

/-- Entries that agree denote some configuration. -/
theorem exists_denotes {sts : List Statement} (h : Consistent sts)
    (hone : ∀ id m, Statement.server id m ∈ sts → m.weight = 1) (asked : Option Policy) :
    ∃ c, Denotes sts asked c := by
  obtain ⟨membership, hall⟩ := (Draft.exists_membership_iff h.distinct hone).mpr h.fits
  refine ⟨⟨versionOf sts, _, membership⟩, ?_, rfl, rfl⟩
  intro id m
  rw [← Draft.find?_members_ofStatements h.distinct hone, ← hall]
  rfl

/-- Neither the order of the entries nor the way they are written shows in what is read. -/
theorem parse_of_perm {text text' : String} {sts sts' : List Statement} (hspells : Spells text sts)
    (hspells' : Spells text' sts') (hperm : sts.Perm sts') {asked : Option Policy}
    {c : Configuration} (h : parse text asked = .ok c) : parse text' asked = .ok c := by
  obtain ⟨draft, hlines, hfinish⟩ := parse_eq_ok_iff.mp h
  obtain ⟨found, hfound, hdistinct, rfl⟩ := Draft.ofLines_eq_ok_iff.mp hlines
  obtain rfl := hfound.unique hspells
  have hdistinct' : (sts'.map Statement.subject).Nodup :=
    (hperm.map Statement.subject).nodup_iff.mp hdistinct
  have hlines' : Draft.ofLines text'.toList = .ok (Draft.ofStatements sts') :=
    Draft.ofLines_eq_ok_iff.mpr ⟨sts', hspells', hdistinct', rfl⟩
  rw [Draft.ofStatements_congr hdistinct hperm] at hfinish
  exact parse_eq_ok_iff.mpr ⟨_, hlines', hfinish⟩

/-- A text is accepted exactly if each of its entries is of the format and all agree with each
other. It is then read as what the entries denote, whatever their order and however numbers, blanks
and comments are written. -/
theorem parse_accepts_exactly_the_format (text : String) (asked : Option Policy) :
    ((∃ c, parse text asked = .ok c) ↔ ∃ sts, Spells text sts ∧ Consistent sts) ∧
    (∀ c sts, parse text asked = .ok c → Spells text sts → Denotes sts asked c) ∧
    ∀ text' sts sts' c, Spells text sts → Spells text' sts' → sts.Perm sts' →
      (parse text asked = .ok c ↔ parse text' asked = .ok c) := by
  refine ⟨?_, ?_, ?_⟩
  · constructor
    · intro h
      obtain ⟨c, h⟩ := h
      obtain ⟨sts, hspells, hconsistent, -⟩ := parse_eq_ok_iff_denotes.mp h
      exact ⟨sts, hspells, hconsistent⟩
    · intro h
      obtain ⟨sts, hspells, hconsistent⟩ := h
      obtain ⟨c, hdenotes⟩ := exists_denotes hconsistent hspells.weight_eq_one asked
      exact ⟨c, parse_eq_ok_iff_denotes.mpr ⟨sts, hspells, hconsistent, hdenotes⟩⟩
  · intro c sts h hspells
    obtain ⟨sts', hspells', -, hdenotes⟩ := parse_eq_ok_iff_denotes.mp h
    rwa [hspells.unique hspells']
  · intro text' sts sts' c hspells hspells' hperm
    exact ⟨parse_of_perm hspells hspells' hperm, parse_of_perm hspells' hspells hperm.symm⟩

/-- A heavy voter and an observer, under a policy that was asked for. -/
def pair : Configuration where
  version := 31
  policy := .majority
  membership :=
    { all := IdMap.ofList [(1, Member.mk 1 "a" 1 2 none .participant 3),
        (2, Member.mk 2 "b" 1 2 none .observer 1)]
      totalVotingWeight := 3
      total_eq := rfl }

/-- Two layouts of one configuration: a weight before its server, ids with a sign and with leading
zeros, digits in either case, a comment and blanks. -/
theorem pair_is_read_in_two_layouts :
    let text := "# late servers\n weight.+01 = 3\n\nserver.1=a:1:2\nversion=1F\nserver.2=b:1:2:observer"
    let text' := "server.002 = b:1:2:observer\nversion=+01f\nserver.+1=a:1:2\nweight.1=003"
    let first := Statement.server 1 (Member.mk 1 "a" 1 2 none .participant 1)
    let second := Statement.server 2 (Member.mk 2 "b" 1 2 none .observer 1)
    let sts := [Statement.weight 1 3, first, .version 31, second]
    let sts' := [second, .version 31, first, Statement.weight 1 3]
    (Spells text sts ∧ Spells text' sts') ∧ Denotes sts (some .majority) pair ∧
      parse text' (some .majority) = .ok pair := by
  intro text text' first second sts sts'
  have hparse : parse text (some .majority) = .ok pair := by decide +kernel
  have hentries : entries text = ["weight.+01 = 3".toList, "server.1=a:1:2".toList,
      "version=1F".toList, "server.2=b:1:2:observer".toList] := by decide +kernel
  have hentries' : entries text' = ["server.002 = b:1:2:observer".toList, "version=+01f".toList,
      "server.+1=a:1:2".toList, "weight.1=003".toList] := by decide +kernel
  have hread {entry : List Char} {st : Statement}
      (h : Draft.empty.addEntry 1 entry = .ok (Draft.empty.give st)) :
      Statement.OfEntry entry st := Draft.ofEntry_iff_addEntry_empty.mpr h
  have hspells : Spells text sts := by
    rw [Spells, hentries]
    exact .cons (hread (by decide +kernel)) <| .cons (hread (by decide +kernel)) <|
      .cons (hread (by decide +kernel)) <| .cons (hread (by decide +kernel)) .nil
  have hspells' : Spells text' sts' := by
    rw [Spells, hentries']
    exact .cons (hread (by decide +kernel)) <| .cons (hread (by decide +kernel)) <|
      .cons (hread (by decide +kernel)) <| .cons (hread (by decide +kernel)) .nil
  obtain ⟨-, hdenotes, hlayout⟩ := parse_accepts_exactly_the_format text (some .majority)
  have hperm : sts.Perm sts' := (List.reverse_perm sts).symm
  exact ⟨⟨hspells, hspells'⟩, hdenotes pair sts hparse hspells,
    (hlayout text' sts sts' pair hspells hspells' hperm).mp hparse⟩

end Configuration

end Electorate
