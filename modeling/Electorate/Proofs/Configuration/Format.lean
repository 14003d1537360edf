import Electorate.Proofs.Configuration.Lines
import Electorate.Proofs.Text.Digits

/-! The format of a configuration text, apart from any way to read it: what its entries say, when
they agree with each other, and which configuration they describe together. -/
namespace Electorate
open scoped BigOperators

/-- What one entry says. -/
inductive Statement where
  | server (id : UInt64) (member : Member)
  | weight (id weight : UInt64)
  | version (version : UInt64)

/-- What an entry is about. An id counts as a number, however it is written. -/
inductive Subject where
  | server (id : UInt64)
  | weight (id : UInt64)
  | version
  deriving DecidableEq

namespace Statement

def subject : Statement → Subject
  | server id _ => .server id
  | weight id _ => .weight id
  | version _ => .version

def isWeight : Statement → Bool
  | weight _ _ => true
  | _ => false

def weightFor? (id : UInt64) : Statement → Option UInt64
  | weight i w => if i = id then some w else none
  | _ => none

def version? : Statement → Option UInt64
  | version v => some v
  | _ => none

def voter? : Statement → Option UInt64
  | server id m => if m.isParticipant then some id else none
  | _ => none

/-- What a key and a value say, both without outer blanks. -/
inductive OfPair (key value : List Char) : Statement → Prop where
  | server {numeral : List Char} {id : UInt64} {m : Member}
      (hkey : key = "server.".toList ++ numeral) (hid : IsNumeral 10 numeral id.toNat)
      (hvalue : Member.read id value = .ok m) : OfPair key value (.server id m)
  | weight {numeral : List Char} {id w : UInt64}
      (hkey : key = "weight.".toList ++ numeral) (hid : IsNumeral 10 numeral id.toNat)
      (hvalue : IsNumeral 10 value w.toNat) : OfPair key value (.weight id w)
  | version {v : UInt64} (hkey : key = "version".toList) (hvalue : IsNumeral 16 value v.toNat) :
      OfPair key value (.version v)

/-- The key of an entry ends at the first equals sign. -/
def OfEntry (entry : List Char) (st : Statement) : Prop :=
  ∃ left right, entry = left ++ '=' :: right ∧ '=' ∉ left ∧ OfPair (trim left) (trim right) st

end Statement

/-- The lines that say something, without their outer blanks. -/
def entriesOf (lines : List (List Char)) : List (List Char) :=
  (lines.map trim).filter fun s => decide (s ≠ [] ∧ s.head? ≠ some '#')

def entries (text : String) : List (List Char) := entriesOf (text.toList.splitOn '\n')

/-- Every entry of the text says something, in this order. -/
def Spells (text : String) (sts : List Statement) : Prop :=
  List.Forall₂ Statement.OfEntry (entries text) sts

def votersOf (sts : List Statement) : Finset UInt64 := (sts.filterMap Statement.voter?).toFinset

/-- The weight that is given for a server, or else one. -/
def weightOf (sts : List Statement) (id : UInt64) : UInt64 :=
  (sts.filterMap (Statement.weightFor? id)).head?.getD 1

def versionOf (sts : List Statement) : UInt64 := (sts.filterMap Statement.version?).head?.getD 0

/-- Entries that agree with each other: none is about what another is about, weights are given for
servers, the weights of all voters together fit in a word, and someone votes. -/
structure Consistent (sts : List Statement) : Prop where
  distinct : (sts.map Statement.subject).Nodup
  placed : ∀ id w, Statement.weight id w ∈ sts → ∃ m, Statement.server id m ∈ sts
  fits : ∑ id ∈ votersOf sts, (weightOf sts id).toNat < 2 ^ 64
  votes : (votersOf sts).Nonempty

/-- The configuration that the entries describe, under the policy that was asked for if one was. -/
structure Denotes (sts : List Statement) (asked : Option Policy) (c : Configuration) : Prop where
  members : ∀ id m, c.members.find? id = some m ↔
    ∃ m₀, Statement.server id m₀ ∈ sts ∧ m = { m₀ with weight := weightOf sts id }
  version : c.version = versionOf sts
  policy : c.policy = asked.getD (if sts.any Statement.isWeight then .weighted else .majority)

namespace Statement

theorem isWeight_iff {st : Statement} : st.isWeight = true ↔ ∃ id w, st = .weight id w := by
  cases st <;> simp [isWeight]

theorem weightFor?_eq_some_iff {id w : UInt64} {st : Statement} :
    st.weightFor? id = some w ↔ st = .weight id w := by
  cases st <;> simp [weightFor?]

theorem version?_eq_some_iff {v : UInt64} {st : Statement} :
    st.version? = some v ↔ st = .version v := by
  cases st <;> simp [version?]

theorem voter?_eq_some_iff {id : UInt64} {st : Statement} :
    st.voter? = some id ↔ ∃ m, st = .server id m ∧ m.isParticipant = true := by
  cases st with
  | server i m => by_cases hm : m.isParticipant = true <;> simp [voter?, hm]
  | _ => simp [voter?]

end Statement

theorem mem_votersOf {sts : List Statement} {id : UInt64} :
    id ∈ votersOf sts ↔ ∃ m, Statement.server id m ∈ sts ∧ m.isParticipant = true := by
  rw [votersOf, List.mem_toFinset, List.mem_filterMap]
  simp only [Statement.voter?_eq_some_iff]
  constructor
  · intro h
    obtain ⟨_, hst, m, rfl, hm⟩ := h
    exact ⟨m, hst, hm⟩
  · intro h
    obtain ⟨m, hst, hm⟩ := h
    exact ⟨_, hst, m, rfl, hm⟩

/-- A key is what it is taken for. -/
theorem Key.eq_of (key : List Char) :
    match Key.of key with
    | .server id => key = "server.".toList ++ id
    | .weight id => key = "weight.".toList ++ id
    | .version => key = "version".toList
    | .other => True := by
  unfold Key.of
  -- in the order in which the reader tries the three kinds of key
  cases hserver : after? "server.".toList key with
  | some id => exact after?_eq_some_iff.mp hserver
  | none =>
    cases hweight : after? "weight.".toList key with
    | some id => exact after?_eq_some_iff.mp hweight
    | none =>
      by_cases hversion : key = "version".toList
      · simpa only [if_pos hversion] using hversion
      · simp only [if_neg hversion]

theorem IsNumeral.unique {base : ℕ} (hbase : base ≤ 16) {s : List Char} {a b : UInt64}
    (ha : IsNumeral base s a.toNat) (hb : IsNumeral base s b.toNat) : a = b := by
  have hreadA := (readWord_eq_some_iff hbase).mpr ha
  have hreadB := (readWord_eq_some_iff hbase).mpr hb
  exact Option.some.inj (hreadA.symm.trans hreadB)

namespace Statement

/-- The key decides what kind of statement it is, and there is none for any other key. -/
theorem ofPair_iff {key value : List Char} {st : Statement} : OfPair key value st ↔
    match Key.of key with
    | .server numeral => ∃ id m, IsNumeral 10 numeral (UInt64.toNat id) ∧
        Member.read id value = .ok m ∧ st = .server id m
    | .weight numeral => ∃ id w, IsNumeral 10 numeral (UInt64.toNat id) ∧
        IsNumeral 10 value (UInt64.toNat w) ∧ st = .weight id w
    | .version => ∃ v, IsNumeral 16 value (UInt64.toNat v) ∧ st = .version v
    | .other => False := by
  constructor
  · intro h
    cases h with
    | server hkey hid hvalue =>
      rw [hkey, Key.of_server]
      exact ⟨_, _, hid, hvalue, rfl⟩
    | weight hkey hid hvalue =>
      rw [hkey, Key.of_weight]
      exact ⟨_, _, hid, hvalue, rfl⟩
    | version hkey hvalue =>
      rw [hkey, Key.of_version]
      exact ⟨_, hvalue, rfl⟩
  · intro h
    -- the key is spelled as its kind has it
    have hkey := Key.eq_of key
    cases hk : Key.of key with
    | server numeral =>
      rw [hk] at h hkey
      obtain ⟨id, m, hid, hvalue, rfl⟩ := h
      exact OfPair.server hkey hid hvalue
    | weight numeral =>
      rw [hk] at h hkey
      obtain ⟨id, w, hid, hvalue, rfl⟩ := h
      exact OfPair.weight hkey hid hvalue
    | version =>
      rw [hk] at h hkey
      obtain ⟨v, hvalue, rfl⟩ := h
      exact OfPair.version hkey hvalue
    | other =>
      rw [hk] at h
      exact h.elim

theorem OfPair.unique {key value : List Char} {st st' : Statement} (h : OfPair key value st)
    (h' : OfPair key value st') : st = st' := by
  rw [ofPair_iff] at h h'
  cases hk : Key.of key with
  | server numeral =>
    rw [hk] at h h'
    obtain ⟨id, m, hid, hvalue, rfl⟩ := h
    obtain ⟨id', m', hid', hvalue', rfl⟩ := h'
    obtain rfl := hid.unique (by decide) hid'
    rw [Except.ok.inj (hvalue.symm.trans hvalue')]
  | weight numeral =>
    rw [hk] at h h'
    obtain ⟨id, w, hid, hvalue, rfl⟩ := h
    obtain ⟨id', w', hid', hvalue', rfl⟩ := h'
    rw [hid.unique (by decide) hid', hvalue.unique (by decide) hvalue']
  | version =>
    rw [hk] at h h'
    obtain ⟨v, hvalue, rfl⟩ := h
    obtain ⟨v', hvalue', rfl⟩ := h'
    rw [hvalue.unique (by decide) hvalue']
  | other =>
    rw [hk] at h
    exact h.elim

/-- An entry makes one statement at most. -/
theorem OfEntry.unique {entry : List Char} {st st' : Statement} (h : OfEntry entry st)
    (h' : OfEntry entry st') : st = st' := by
  obtain ⟨left, right, hentry, hsep, hpair⟩ := h
  obtain ⟨left', right', hentry', hsep', hpair'⟩ := h'
  obtain ⟨rfl, rfl⟩ := eq_of_append_cons hsep hsep' (hentry.symm.trans hentry')
  exact hpair.unique hpair'

/-- No line gives a server a weight. -/
theorem OfEntry.weight_eq_one {entry : List Char} {id : UInt64} {m : Member}
    (h : OfEntry entry (.server id m)) : m.weight = 1 := by
  obtain ⟨left, right, -, -, hpair⟩ := h
  cases hpair with
  | server _ _ hvalue => exact Member.weight_of_read hvalue

end Statement

/-- A text says one thing at most. -/
theorem Spells.unique {text : String} {sts sts' : List Statement} (h : Spells text sts)
    (h' : Spells text sts') : sts = sts' := by
  have hunique : Relator.RightUnique Statement.OfEntry := fun _ _ _ hst hst' => hst.unique hst'
  exact List.right_unique_forall₂' hunique h h'

theorem exists_of_forall₂ {α β : Type} {R : α → β → Prop} {l : List α} {l' : List β}
    (h : List.Forall₂ R l l') {b : β} (hb : b ∈ l') : ∃ a ∈ l, R a b := by
  induction h with
  | nil => cases hb
  | @cons a _ _ _ hfirst _ ih =>
    rcases List.mem_cons.mp hb with rfl | hb
    · exact ⟨a, List.mem_cons_self, hfirst⟩
    · obtain ⟨a', ha', hrest⟩ := ih hb
      exact ⟨a', List.mem_cons_of_mem _ ha', hrest⟩

/-- What is said is said by some entry. -/
theorem Spells.exists_entry {text : String} {sts : List Statement} (h : Spells text sts)
    {st : Statement} (hst : st ∈ sts) : ∃ entry ∈ entries text, Statement.OfEntry entry st :=
  exists_of_forall₂ h hst

/-- Every entry says something. -/
theorem Spells.exists_statement {text : String} {sts : List Statement} (h : Spells text sts)
    {entry : List Char} (hentry : entry ∈ entries text) :
    ∃ st ∈ sts, Statement.OfEntry entry st :=
  exists_of_forall₂ (List.Forall₂.flip h) hentry

end Electorate
