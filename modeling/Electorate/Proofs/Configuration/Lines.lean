import Electorate.Configuration.Reader
import Electorate.Proofs.Member.Spec
import Electorate.Proofs.Membership.Construction

/-! What the lines of a written configuration are read as. -/
namespace Electorate

/-- A member as its own line gives it. A line that is no use leaves the member as it is. -/
def Member.reread (m : Member) : Member :=
  match Member.read m.id m.spec with
  | .ok m' => m'
  | .error _ => m

theorem Member.reread_eq {m m' : Member} (h : Member.read m.id m.spec = .ok m') :
    m.reread = m' := by
  rw [Member.reread, h]

/-- Whether a character may stand in the key of an entry that is no comment. -/
def isKeyChar (c : Char) : Bool := !isBlank c && c != '=' && c != '#'

namespace Key

theorem of_server (id : List Char) : Key.of ("server.".toList ++ id) = .server id := by
  rw [Key.of, after?_append]

theorem of_weight (id : List Char) : Key.of ("weight.".toList ++ id) = .weight id := by
  have hserver : after? "server.".toList ("weight.".toList ++ id) = none := rfl
  rw [Key.of, hserver]
  simp only [after?_append]

theorem of_version : Key.of "version".toList = .version := by decide +kernel

end Key

theorem isKeyChar_decimal (n : Nat) : ∀ c ∈ decimal n, isKeyChar c = true :=
  forall_mem_decimal (by decide) n

theorem isKeyChar_append {start : List Char} (h : ∀ c ∈ start, isKeyChar c = true) (n : Nat) :
    ∀ c ∈ start ++ decimal n, isKeyChar c = true := by
  intro c hc
  rcases List.mem_append.mp hc with hc | hc
  · exact h c hc
  · exact isKeyChar_decimal n c hc

namespace Draft

/-- An entry is taken up under its key, with the blanks around the value dropped. -/
theorem addLine_append {key : List Char} (hkey : ∀ c ∈ key, isKeyChar c = true)
    (value : List Char) (draft : Draft) (n : Nat) :
    addLine draft (key ++ '=' :: value, n) =
      match Key.of key with
      | .server id => draft.addServer n id (trim value)
      | .weight id => draft.addWeight n id (trim value)
      | .version => draft.addVersion (trim value)
      | .other => .error (.config (.unknownKey n (String.ofList key))) := by
  have hblank : ∀ c ∈ key, isBlank c = false := by
    intro c hc
    have h := hkey c hc
    simp only [isKeyChar, Bool.and_eq_true, Bool.not_eq_true'] at h
    exact h.1.1
  have hsep : '=' ∉ key := by
    intro hc
    exact absurd (hkey '=' hc) (by decide)
  -- neither empty nor a comment, even where the key is empty
  have hidle : isIdle (key ++ '=' :: trimEnd value) = false := by
    cases key with
    | nil => rfl
    | cons c key =>
      have hc : c ≠ '#' := by
        rintro rfl
        exact absurd (hkey '#' List.mem_cons_self) (by decide)
      simpa [isIdle] using hc
  have hline : trim (key ++ '=' :: value) = key ++ '=' :: trimEnd value := by
    rw [trim_append_cons (by decide), trimStart_eq_self hblank]
  rw [addLine]
  simp only [hline, hidle]
  rw [addEntry, splitFirst?_append hsep]
  simp only [trim_eq_self hblank, trim_trimEnd]
  rfl

theorem readId_decimal (n : Nat) (id : UInt64) : readId n (decimal id.toNat) = .ok id := by
  rw [readId, readWord64_decimal]

theorem addServer_decimal (draft : Draft) (n : Nat) (id : UInt64) (value : List Char) :
    draft.addServer n (decimal id.toNat) value =
      ((Member.read id value).mapError (.serverSpec id)).bind fun member =>
        if draft.servers.contains id then .error (.duplicateServer id)
        else .ok { draft with servers := draft.servers.insert id member } := by
  rw [addServer, readId_decimal]
  rfl

theorem addWeight_decimal (draft : Draft) (n : Nat) (id w : UInt64) :
    draft.addWeight n (decimal id.toNat) (decimal w.toNat) =
      if draft.weights.contains id then .error (.config (.duplicateWeight id))
      else .ok { draft with weights := draft.weights.insert id w } := by
  rw [addWeight, readId_decimal, readWord64_decimal]
  rfl

/-- A written server line is taken up exactly if the member is read back from its own text. -/
theorem addLine_serverLine {draft draft' : Draft} {m : Member} {n : Nat}
    (hnew : draft.servers.contains m.id = false) :
    addLine draft (Configuration.serverLine m, n) = .ok draft' ↔
      Member.read m.id m.spec = .ok m.reread ∧
        draft' = { draft with servers := draft.servers.insert m.id m.reread } := by
  have hkey : ∀ c ∈ "server.".toList ++ decimal m.id.toNat, isKeyChar c = true :=
    isKeyChar_append (by simp [isKeyChar, isBlank, blanks]) _
  have hadd : addLine draft (Configuration.serverLine m, n) =
      ((Member.read m.id m.spec).mapError (.serverSpec m.id)).bind fun member =>
        .ok { draft with servers := draft.servers.insert m.id member } := by
    have hline : Configuration.serverLine m =
        ("server.".toList ++ decimal m.id.toNat) ++ '=' :: m.spec :=
      (List.append_assoc _ _ _).symm
    rw [hline, addLine_append hkey, Key.of_server]
    simp only [addServer_decimal, Member.read_trim, hnew, Bool.false_eq_true, if_false]
  -- the id is new and can be read, so all depends on the rest of the line
  rw [hadd]
  cases h : Member.read m.id m.spec with
  | error e =>
    constructor
    · intro hbad
      cases hbad
    · intro hbad
      cases hbad.1
  | ok m' =>
    rw [Member.reread_eq h]
    constructor
    · intro hok
      exact ⟨rfl, (Except.ok.inj hok).symm⟩
    · intro hok
      rw [hok.2]
      rfl

/-- A written weight line is always taken up. -/
theorem addLine_weightLine {draft : Draft} {m : Member} {n : Nat}
    (hnew : draft.weights.contains m.id = false) :
    addLine draft (Configuration.weightLine m, n) =
      .ok { draft with weights := draft.weights.insert m.id m.weight } := by
  have hkey : ∀ c ∈ "weight.".toList ++ decimal m.id.toNat, isKeyChar c = true :=
    isKeyChar_append (by simp [isKeyChar, isBlank, blanks]) _
  have htrim : trim (decimal m.weight.toNat) = decimal m.weight.toNat :=
    trim_eq_self (forall_mem_decimal isBlank_digitChar _)
  have hline : Configuration.weightLine m =
      ("weight.".toList ++ decimal m.id.toNat) ++ '=' :: decimal m.weight.toNat :=
    (List.append_assoc _ _ _).symm
  rw [hline, addLine_append hkey, Key.of_weight]
  simp only [htrim, addWeight_decimal, hnew, Bool.false_eq_true, if_false]

theorem addLine_versionLine {draft : Draft} (hnew : draft.version = none) (version : UInt64)
    (n : Nat) : addLine draft (Configuration.versionLine version, n) =
      .ok { draft with version := some version } := by
  have htrim : trim (hexadecimal version.toNat) = hexadecimal version.toNat :=
    trim_eq_self (forall_mem_hexadecimal isBlank_digitChar _)
  have hline : Configuration.versionLine version =
      "version".toList ++ '=' :: hexadecimal version.toNat := rfl
  have hkey : ∀ c ∈ "version".toList, isKeyChar c = true := by
    simp [isKeyChar, isBlank, blanks]
  rw [hline, addLine_append hkey, Key.of_version]
  simp only [addVersion, hnew, htrim, readHex64_hexadecimal]

/-- Server lines are all taken up, each with what it is read as, provided that all can be read. -/
theorem foldlM_serverLines {servers : List Member} (hids : (servers.map Member.id).Nodup) {n : Nat}
    {draft draft' : Draft} (hnew : ∀ m ∈ servers, draft.servers.contains m.id = false) :
    ((servers.map Configuration.serverLine).zipIdx n).foldlM addLine draft = .ok draft' ↔
      (∀ m ∈ servers, Member.read m.id m.spec = .ok m.reread) ∧
        draft' = { draft with
          servers := servers.foldl (fun s m => s.insert m.id m.reread) draft.servers } := by
  induction servers generalizing n draft with
  | nil =>
    constructor
    · intro h
      exact ⟨nofun, (Except.ok.inj h).symm⟩
    · intro h
      rw [h.2]
      rfl
  | cons m servers ih =>
    have hnext := new_of_insert hids hnew m.reread
    obtain ⟨-, hids⟩ := List.nodup_cons.mp hids
    rw [List.map_cons, List.zipIdx_cons, List.foldlM_cons, bind_eq_ok_iff, List.forall_mem_cons]
    constructor
    · intro h
      obtain ⟨next, hline, hrest⟩ := h
      obtain ⟨hread, rfl⟩ := (addLine_serverLine (hnew m List.mem_cons_self)).mp hline
      obtain ⟨hreads, hdraft⟩ := (ih hids hnext).mp hrest
      exact ⟨⟨hread, hreads⟩, hdraft⟩
    · intro h
      obtain ⟨⟨hread, hreads⟩, hdraft⟩ := h
      exact ⟨_, (addLine_serverLine (hnew m List.mem_cons_self)).mpr ⟨hread, rfl⟩,
        (ih hids hnext).mpr ⟨hreads, hdraft⟩⟩

theorem foldlM_weightLines {voters : List Member} (hids : (voters.map Member.id).Nodup) {n : Nat}
    {draft : Draft} (hnew : ∀ m ∈ voters, draft.weights.contains m.id = false) :
    ((voters.map Configuration.weightLine).zipIdx n).foldlM addLine draft =
      .ok { draft with
        weights := voters.foldl (fun s m => s.insert m.id m.weight) draft.weights } := by
  induction voters generalizing n draft with
  | nil => rfl
  | cons m voters ih =>
    have hnext := new_of_insert hids hnew m.weight
    obtain ⟨-, hids⟩ := List.nodup_cons.mp hids
    rw [List.map_cons, List.zipIdx_cons, List.foldlM_cons,
      addLine_weightLine (hnew m List.mem_cons_self)]
    exact ih hids hnext

end Draft

namespace Configuration

/-- Each member stands under its own id and on one line. -/
structure Writable (c : Configuration) : Prop where
  id : ∀ id m, c.members.find? id = some m → m.id = id
  oneLine : ∀ id m, c.members.find? id = some m → m.OneLine

/-- The weights that stand in the text. -/
def writtenWeights (c : Configuration) : IdMap UInt64 :=
  match c.policy with
  | .majority => IdMap.empty
  | .weighted => c.voting.mapIds fun _ m => m.weight

/-- What the text is read as, if it can be read. -/
def writtenDraft (c : Configuration) : Draft where
  servers := c.members.mapIds fun _ m => m.reread
  weights := c.writtenWeights
  version := some c.version

theorem not_mem_entry {start value : List Char} (hstart : '\n' ∉ start) (hvalue : '\n' ∉ value)
    (n : Nat) : '\n' ∉ start ++ (decimal n ++ '=' :: value) := by
  have hid : '\n' ∉ decimal n := not_mem_decimal (by decide) n
  simp [hstart, hid, hvalue]

theorem not_mem_serverLine {m : Member} (h : m.OneLine) : '\n' ∉ serverLine m :=
  not_mem_entry (by decide +kernel) (Member.not_mem_spec h) _

theorem not_mem_weightLine (m : Member) : '\n' ∉ weightLine m :=
  not_mem_entry (by decide +kernel) (not_mem_decimal (by decide) _) _

theorem not_mem_versionLine (version : UInt64) : '\n' ∉ versionLine version := by
  have hkey : '\n' ∉ "version=".toList := by decide +kernel
  have hversion : '\n' ∉ hexadecimal version.toNat := by
    intro hc
    exact forall_mem_hexadecimal (P := (· ≠ '\n')) (by decide) _ _ hc rfl
  intro h
  rcases List.mem_append.mp h with h | h
  · exact hkey h
  · exact hversion h

/-- No written line holds a line break, so that the text parts into the lines again. -/
theorem not_mem_of_mem_lines {c : Configuration} (hw : c.Writable) :
    ∀ line ∈ c.lines, '\n' ∉ line := by
  rw [lines, List.forall_mem_append, List.forall_mem_append, List.forall_mem_singleton,
    List.forall_mem_map]
  refine ⟨⟨?_, ?_⟩, not_mem_versionLine c.version⟩
  · intro m hm
    obtain ⟨id, hfind⟩ := c.members.mem_values.mp hm
    exact not_mem_serverLine (hw.oneLine id m hfind)
  · cases c.policy with
    | majority => exact nofun
    | weighted =>
      intro line hline
      obtain ⟨m, -, hm⟩ := List.mem_map.mp hline
      rw [← hm]
      exact not_mem_weightLine m

theorem voter_of_find? {c : Configuration} {id : UInt64} {m : Member}
    (h : c.voting.find? id = some m) : c.members.find? id = some m ∧ m.isParticipant = true :=
  c.members.find?_filter_eq_some_iff.mp h

end Configuration

/-- After the server lines the weights and the version are left, which can all be read. -/
theorem Draft.foldlM_tail {c : Configuration} (hw : c.Writable) (servers : IdMap Member) (n : Nat) :
    (((match c.policy with
        | .majority => []
        | .weighted => c.voting.values.map Configuration.weightLine) ++
      [Configuration.versionLine c.version]).zipIdx n).foldlM addLine ⟨servers, IdMap.empty, none⟩ =
      .ok ⟨servers, c.writtenWeights, some c.version⟩ := by
  have hvoter : ∀ id m, c.voting.find? id = some m → m.id = id := by
    intro id m hm
    exact hw.id id m (Configuration.voter_of_find? hm).1
  have hversion (weights : IdMap UInt64) (k : Nat) :
      ([Configuration.versionLine c.version].zipIdx k).foldlM addLine ⟨servers, weights, none⟩ =
        .ok ⟨servers, weights, some c.version⟩ := by
    rw [List.zipIdx_cons, List.foldlM_cons, addLine_versionLine rfl]
    rfl
  rw [List.zipIdx_append, List.foldlM_append, Configuration.writtenWeights]
  cases c.policy with
  | majority => exact hversion _ _
  | weighted =>
    simp only
    rw [foldlM_weightLines (c.voting.nodup_map_values hvoter) (fun _ _ => rfl),
      c.voting.foldl_insert_values hvoter]
    exact hversion _ _

/-- A written configuration is read as the draft that it stands for, if every server line can be
read. -/
theorem Draft.ofLines_text {c : Configuration} (hw : c.Writable) {draft : Draft} :
    Draft.ofLines c.text.toList = .ok draft ↔
      (∀ id m, c.members.find? id = some m → Member.read m.id m.spec = .ok m.reread) ∧
        draft = c.writtenDraft := by
  have hne : c.lines ≠ [] := by simp [Configuration.lines]
  have hreads : (∀ m ∈ c.members.values, Member.read m.id m.spec = .ok m.reread) ↔
      ∀ id m, c.members.find? id = some m → Member.read m.id m.spec = .ok m.reread := by
    simp only [c.members.mem_values]
    exact ⟨fun h id m hm => h m ⟨id, hm⟩, fun h m hm => h hm.choose m hm.choose_spec⟩
  have hids := c.members.nodup_map_values hw.id
  -- no line holds a line feed, so the text parts into the lines that it was joined from
  rw [Draft.ofLines, Configuration.text, String.toList_ofList,
    List.splitOn_intercalate '\n' (Configuration.not_mem_of_mem_lines hw) hne, Configuration.lines,
    List.append_assoc, List.zipIdx_append, List.foldlM_append, bind_eq_ok_iff, ← hreads]
  constructor
  · intro h
    obtain ⟨next, hnext, htail⟩ := h
    obtain ⟨hread, rfl⟩ := (foldlM_serverLines hids (fun _ _ => rfl)).mp hnext
    refine ⟨hread, ?_⟩
    rw [Draft.empty, c.members.foldl_insert_values hw.id] at htail
    exact (Except.ok.inj ((foldlM_tail hw _ _).symm.trans htail)).symm
  · intro h
    obtain ⟨hread, rfl⟩ := h
    refine ⟨_, (foldlM_serverLines hids (fun _ _ => rfl)).mpr ⟨hread, rfl⟩, ?_⟩
    rw [Draft.empty, c.members.foldl_insert_values hw.id]
    exact foldlM_tail hw _ _

end Electorate
