import Electorate.Proofs.Configuration.Format

/-! What can be wrong with a configuration text, apart from any way to read it: with one of its
lines, given what the lines before it are about, and with all of them together. -/
namespace Electorate
open scoped BigOperators

/-- The error for an entry about something that an entry before it is about. -/
def Subject.repeated : Subject → Error
  | server id => .duplicateServer id
  | weight id => .config (.duplicateWeight id)
  | version => .config .duplicateVersion

/-- What is wrong with the numeral and the value of a server on line `n`, after entries about the
subjects in `seen`. A server that cannot be read is not yet a repeated one. -/
inductive ServerFault (seen : List Subject) (n : ℕ) (numeral value : List Char) : Error → Prop where
  | id (hid : ∀ id : UInt64, ¬ IsNumeral 10 numeral id.toNat) :
      ServerFault seen n numeral value (.config (.serverId n (String.ofList numeral)))
  | spec {id : UInt64} {fault : SpecFault} (hid : IsNumeral 10 numeral id.toNat)
      (hvalue : Member.read id value = .error fault) :
      ServerFault seen n numeral value (.serverSpec id fault)
  | repeated {id : UInt64} {m : Member} (hid : IsNumeral 10 numeral id.toNat)
      (hvalue : Member.read id value = .ok m) (hold : Subject.server id ∈ seen) :
      ServerFault seen n numeral value (Subject.server id).repeated

/-- The same for a weight. -/
inductive WeightFault (seen : List Subject) (n : ℕ) (numeral value : List Char) : Error → Prop where
  | id (hid : ∀ id : UInt64, ¬ IsNumeral 10 numeral id.toNat) :
      WeightFault seen n numeral value (.config (.serverId n (String.ofList numeral)))
  | weight {id : UInt64} (hid : IsNumeral 10 numeral id.toNat)
      (hvalue : ∀ w : UInt64, ¬ IsNumeral 10 value w.toNat) :
      WeightFault seen n numeral value (.config (.weight n (String.ofList value)))
  | repeated {id w : UInt64} (hid : IsNumeral 10 numeral id.toNat)
      (hvalue : IsNumeral 10 value w.toNat) (hold : Subject.weight id ∈ seen) :
      WeightFault seen n numeral value (Subject.weight id).repeated

/-- What is wrong with the value of a version. That of a repeated version does not matter. -/
inductive VersionFault (seen : List Subject) (value : List Char) : Error → Prop where
  | repeated (hold : Subject.version ∈ seen) : VersionFault seen value Subject.version.repeated
  | version (hnew : Subject.version ∉ seen) (hvalue : ∀ v : UInt64, ¬ IsNumeral 16 value v.toNat) :
      VersionFault seen value (.version (String.ofList value))

/-- What is wrong with a key and a value, both without outer blanks. -/
inductive PairFault (seen : List Subject) (n : ℕ) (key value : List Char) : Error → Prop where
  | server {numeral : List Char} {e : Error} (hkey : key = "server.".toList ++ numeral)
      (hfault : ServerFault seen n numeral value e) : PairFault seen n key value e
  | weight {numeral : List Char} {e : Error} (hkey : key = "weight.".toList ++ numeral)
      (hfault : WeightFault seen n numeral value e) : PairFault seen n key value e
  | version {e : Error} (hkey : key = "version".toList) (hfault : VersionFault seen value e) :
      PairFault seen n key value e
  | key (hserver : ∀ numeral, key ≠ "server.".toList ++ numeral)
      (hweight : ∀ numeral, key ≠ "weight.".toList ++ numeral) (hversion : key ≠ "version".toList) :
      PairFault seen n key value (.config (.unknownKey n (String.ofList key)))

/-- What is wrong with an entry. Its key ends at the first equals sign. -/
inductive EntryFault (seen : List Subject) (n : ℕ) (entry : List Char) : Error → Prop where
  | separator (hsep : '=' ∉ entry) :
      EntryFault seen n entry (.config (.notAnEntry n (String.ofList entry)))
  | pair {left right : List Char} {e : Error} (hentry : entry = left ++ '=' :: right)
      (hsep : '=' ∉ left) (hfault : PairFault seen n (trim left) (trim right) e) :
      EntryFault seen n entry e

/-- Whether a line says anything: it is not blank and no comment. -/
def IsEntry (line : List Char) : Prop := trim line ≠ [] ∧ (trim line).head? ≠ some '#'

instance (line : List Char) : Decidable (IsEntry line) :=
  inferInstanceAs (Decidable (trim line ≠ [] ∧ (trim line).head? ≠ some '#'))

theorem entriesOf_append (lines more : List (List Char)) :
    entriesOf (lines ++ more) = entriesOf lines ++ entriesOf more := by
  rw [entriesOf, List.map_append, List.filter_append]
  rfl

/-- Lines without outer blanks that all say something are the entries. -/
theorem entriesOf_eq_self {lines : List (List Char)} (htrim : ∀ line ∈ lines, trim line = line)
    (hentry : ∀ line ∈ lines, IsEntry line) : entriesOf lines = lines := by
  have hmap : lines.map trim = lines := by
    rw [List.map_congr_left htrim, List.map_id']
  rw [entriesOf, hmap, List.filter_eq_self]
  intro line hline
  have hsays := hentry line hline
  rw [IsEntry, htrim line hline] at hsays
  exact decide_eq_true hsays

/-- Line `n` is rejected with an error, after entries about the subjects in `seen`. -/
def LineFault (seen : List Subject) (n : ℕ) (line : List Char) (e : Error) : Prop :=
  IsEntry line ∧ EntryFault seen n (trim line) e

/-- None of the lines is rejected: they say something, in this order, about one subject each. -/
def Accepted (lines : List (List Char)) (sts : List Statement) : Prop :=
  List.Forall₂ Statement.OfEntry (entriesOf lines) sts ∧ (sts.map Statement.subject).Nodup

/-- The lines of a text, the first of which has number one. A line ends at a line feed. -/
def linesOf (text : String) : List (List Char) := text.toList.splitOn '\n'

/-- The first line that is rejected, with the error. Every line counts, also those that say
nothing. -/
def FirstFault (text : String) (e : Error) : Prop :=
  ∃ before line after sts, linesOf text = before ++ line :: after ∧ Accepted before sts ∧
    LineFault (sts.map Statement.subject) (before.length + 1) line e

/-- What is wrong with lines none of which is rejected: that a weight is left over, the lowest one,
or else that the weights do not fit, or else that nobody votes. -/
inductive TextFault (sts : List Statement) : Error → Prop where
  | stray {id w : UInt64} (hweight : Statement.weight id w ∈ sts)
      (hstray : ∀ m, Statement.server id m ∉ sts)
      (hleast : ∀ id' w', Statement.weight id' w' ∈ sts →
        (∀ m, Statement.server id' m ∉ sts) → id ≤ id') :
      TextFault sts (.config (.strayWeight id))
  | overflow (hplaced : ∀ id w, Statement.weight id w ∈ sts → ∃ m, Statement.server id m ∈ sts)
      (hweight : 2 ^ 64 ≤ ∑ id ∈ votersOf sts, (weightOf sts id).toNat) :
      TextFault sts (.config .weightOverflow)
  | noVoter (hplaced : ∀ id w, Statement.weight id w ∈ sts → ∃ m, Statement.server id m ∈ sts)
      (hvoter : ¬ (votersOf sts).Nonempty) : TextFault sts (.config .noParticipants)

/-- The errors that are about a configuration text. -/
def Error.IsTextual : Error → Prop
  | config _ | serverSpec _ _ | duplicateServer _ | version _ => True
  | settings | refused _ | violated _ | file _ | json => False

/-- Every fault of a text counts among the errors of configuration. -/
theorem Error.IsTextual.isConfigError {e : Error} (h : e.IsTextual) : e.isConfigError = true := by
  cases e with
  | config | serverSpec | duplicateServer | version => rfl
  | _ => cases h

theorem Subject.isTextual_repeated (s : Subject) : s.repeated.IsTextual := by
  cases s <;> trivial

theorem FirstFault.isTextual {text : String} {e : Error} (h : FirstFault text e) :
    e.IsTextual := by
  obtain ⟨before, line, after, sts, -, -, -, hfault⟩ := h
  cases hfault with
  | separator => trivial
  | pair _ _ hpair =>
    cases hpair with
    | server _ hserver =>
      cases hserver with
      | repeated => exact Subject.isTextual_repeated _
      | _ => trivial
    | weight _ hweight =>
      cases hweight with
      | repeated => exact Subject.isTextual_repeated _
      | _ => trivial
    | version _ hversion =>
      cases hversion with
      | repeated => exact Subject.isTextual_repeated _
      | version => trivial
    | key => trivial

theorem TextFault.isTextual {sts : List Statement} {e : Error} (h : TextFault sts e) :
    e.IsTextual := by
  cases h <;> trivial

/-- An entry is rejected if it is about something that came before, whatever else it says. -/
theorem EntryFault.of_ofEntry {seen : List Subject} {n : ℕ} {entry : List Char} {st : Statement}
    (hentry : Statement.OfEntry entry st) (hold : st.subject ∈ seen) :
    EntryFault seen n entry st.subject.repeated := by
  obtain ⟨left, right, hentry, hsep, hpair⟩ := hentry
  refine EntryFault.pair hentry hsep ?_
  cases hpair with
  | server hkey hid hvalue => exact PairFault.server hkey (ServerFault.repeated hid hvalue hold)
  | weight hkey hid hvalue => exact PairFault.weight hkey (WeightFault.repeated hid hvalue hold)
  | version hkey hvalue => exact PairFault.version hkey (VersionFault.repeated hold)

/-- The lines up to the one that is rejected decide, so that what follows them does not matter. -/
theorem FirstFault.of_begins {text : String} {before : List (List Char)} {line : List Char}
    {sts : List Statement} {e : Error} (hbefore : Accepted before sts)
    (hline : LineFault (sts.map Statement.subject) (before.length + 1) line e)
    (hbegins : before ++ [line] <+: linesOf text) : FirstFault text e := by
  obtain ⟨after, hlines⟩ := hbegins
  refine ⟨before, line, after, sts, ?_, hbefore, hline⟩
  rw [← hlines, List.append_assoc]
  rfl

theorem linesOf_append (text more : String) :
    linesOf (text ++ "\n" ++ more) = linesOf text ++ linesOf more := by
  have hchars : (text ++ "\n" ++ more).toList = text.toList ++ '\n' :: more.toList := by
    rw [String.toList_append, String.toList_append, List.append_assoc]
    rfl
  rw [linesOf, hchars]
  exact List.splitOnP_append_cons _ _ (beq_self_eq_true '\n')

end Electorate
