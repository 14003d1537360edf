import Mathlib
import Electorate.Files.Tree
import Electorate.Proofs.Except

/-! A text that was written to a file is what is read from it, whichever directory the path
starts from. -/
namespace Electorate.Disk

variable {d d' : Disk}

theorem isDirectory_iff {place : List String} : d.isDirectory place = true ↔
    place <+: d.here ∨ (∃ made ∈ d.directories, place <+: made) ∨
      ∃ f ∈ d.files, place <+: f.1 ∧ place.length < f.1.length := by
  simp only [isDirectory, Bool.or_eq_true, List.any_eq_true, Bool.and_eq_true, decide_eq_true_eq,
    List.isPrefixOf_iff_prefix, or_assoc]

@[simp] theorem here_put (place : List String) (bytes : ByteArray) :
    (d.put place bytes).here = d.here := rfl

/-- Whatever is in a directory, a file is put there or stays there under its own name. -/
theorem isDirectory_put {place dir : List String} (bytes : ByteArray)
    (h : d.isDirectory dir = true) : (d.put place bytes).isDirectory dir = true := by
  rw [isDirectory_iff] at h ⊢
  rcases h with hhere | hmade | ⟨f, hf, hwithin⟩
  · exact Or.inl hhere
  · exact Or.inr (Or.inl hmade)
  · by_cases hplace : f.1 = place
    · exact Or.inr (Or.inr ⟨(place, bytes), List.mem_cons_self, hplace ▸ hwithin⟩)
    · have hkept : f ∈ d.files.filter (fun f => f.1 != place) :=
        List.mem_filter.mpr ⟨hf, bne_iff_ne.mpr hplace⟩
      exact Or.inr (Or.inr ⟨f, List.mem_cons_of_mem _ hkept, hwithin⟩)

/-- A way leads to the same place on every disk that has the directories along it. -/
theorem walk_of_directories (hdirectories : ∀ p, d.isDirectory p = true → d'.isDirectory p = true)
    {components start place : List String} (h : d.walk start components = .ok place) :
    d'.walk start components = .ok place := by
  -- the walk goes on from wherever the first component leads to
  induction components generalizing start with
  | nil => exact h
  | cons c rest ih =>
    rw [walk] at h ⊢
    by_cases hstart : d.isDirectory start = true
    · have hstart' := hdirectories start hstart
      simp only [hstart, hstart', Bool.not_true, Bool.false_eq_true, if_false] at h ⊢
      split_ifs at h ⊢
      · exact ih h
      · exact ih h
      · exact ih h
    · have hstop : d.isDirectory start = false := eq_false_of_ne_true hstart
      simp only [hstop, Bool.not_false, if_true] at h
      cases h

theorem resolve_of_directories (hhere : d'.here = d.here)
    (hdirectories : ∀ p, d.isDirectory p = true → d'.isDirectory p = true) {path : String}
    {place : List String} (h : d.resolve path = .ok place) : d'.resolve path = .ok place := by
  unfold resolve at h ⊢
  simp only [hhere] at h ⊢
  split_ifs at h ⊢
  · exact walk_of_directories hdirectories h
  · exact walk_of_directories hdirectories h

theorem fromUTF8?_toUTF8 (text : String) : String.fromUTF8? text.toUTF8 = some text :=
  dif_pos text.isValidUTF8

theorem write_eq_ok_iff {path text : String} : d.write path text = .ok d' ↔
    ∃ place, d.resolve path = .ok place ∧ d.isDirectory place = false ∧
      d' = d.put place text.toUTF8 := by
  rw [write, bind_eq_ok_iff]
  apply exists_congr
  intro place
  apply and_congr_right
  intro _
  cases d.isDirectory place <;> simp [eq_comm]

/-- A path takes every text or none: it takes them if it leads anywhere but to a directory. -/
theorem accepts_iff {path : String} : (∀ text, ∃ d', d.write path text = .ok d') ↔
    ∃ place, d.resolve path = .ok place ∧ d.isDirectory place = false := by
  simp only [write_eq_ok_iff]
  constructor
  · intro h
    obtain ⟨_, place, hplace, hfile, -⟩ := h ""
    exact ⟨place, hplace, hfile⟩
  · intro h text
    obtain ⟨place, hplace, hfile⟩ := h
    exact ⟨_, place, hplace, hfile, rfl⟩

theorem read_of_write {path text : String} (h : d.write path text = .ok d') :
    d'.read path = .ok text := by
  obtain ⟨place, hplace, -, rfl⟩ := write_eq_ok_iff.mp h
  have hresolve : (d.put place text.toUTF8).resolve path = .ok place :=
    resolve_of_directories (here_put _ _) (fun _ => isDirectory_put _) hplace
  have hcontents : (d.put place text.toUTF8).contents? place = some text.toUTF8 :=
    List.lookup_cons_self
  refine bind_eq_ok_iff.mpr ⟨place, hresolve, ?_⟩
  rw [hcontents]
  simp only [fromUTF8?_toUTF8]

end Electorate.Disk
