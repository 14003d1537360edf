import Mathlib
import Electorate.Text.Blank
import Electorate.Text.Split

/-! Trimming a text around a character that is no blank, and where a text parts. -/
namespace Electorate

section
variable {a b s : List Char} {c : Char}

theorem trimStart_append_cons (hc : isBlank c = false) :
    trimStart (a ++ c :: b) = trimStart a ++ c :: b := by
  induction a with
  | nil => simp [trimStart, hc]
  | cons x a ih =>
    unfold trimStart at ih ⊢
    rw [List.cons_append, List.dropWhile_cons, List.dropWhile_cons]
    split_ifs
    · exact ih
    · rfl

theorem trimEnd_append_cons (hc : isBlank c = false) :
    trimEnd (a ++ c :: b) = a ++ c :: trimEnd b := by
  have hreverse : (a ++ c :: b).reverse = b.reverse ++ c :: a.reverse := by simp
  have hdrop : trimStart (b.reverse ++ c :: a.reverse) = trimStart b.reverse ++ c :: a.reverse :=
    trimStart_append_cons hc
  rw [trimStart, trimStart] at hdrop
  rw [trimEnd, hreverse, hdrop, trimEnd]
  simp

/-- Only the part before a character that is no blank is trimmed in front, and only the part after
it at the end. -/
theorem trim_append_cons (hc : isBlank c = false) :
    trim (a ++ c :: b) = trimStart a ++ c :: trimEnd b := by
  rw [trim, trimStart_append_cons hc, trimEnd_append_cons hc]

theorem trimEnd_prefix_self (s : List Char) : trimEnd s <+: s := by
  have hsuffix : s.reverse.dropWhile isBlank <:+ s.reverse := List.dropWhile_suffix _
  have hprefix := List.reverse_prefix.mpr hsuffix
  rwa [List.reverse_reverse] at hprefix

/-- More text after a character that is no blank only adds to what is left. -/
theorem trim_prefix_append_cons (hc : isBlank c = false) : trim a <+: trim (a ++ c :: b) := by
  rw [trim_append_cons hc]
  exact (trimEnd_prefix_self (trimStart a)).trans (List.prefix_append _ _)

theorem trimStart_cons (hc : isBlank c = false) : trimStart (c :: b) = c :: b :=
  trimStart_append_cons (a := []) hc

theorem trimStart_eq_self (h : ∀ x ∈ s, isBlank x = false) : trimStart s = s := by
  cases s with
  | nil => rfl
  | cons x s => exact trimStart_cons (h x List.mem_cons_self)

theorem trimEnd_eq_self (h : ∀ x ∈ s, isBlank x = false) : trimEnd s = s := by
  have hreverse : trimStart s.reverse = s.reverse := by
    apply trimStart_eq_self
    intro x hx
    exact h x (List.mem_reverse.mp hx)
  rw [trimStart] at hreverse
  rw [trimEnd, hreverse, List.reverse_reverse]

theorem trim_eq_self (h : ∀ x ∈ s, isBlank x = false) : trim s = s := by
  rw [trim, trimStart_eq_self h, trimEnd_eq_self h]

theorem trimStart_eq_nil (h : ∀ x ∈ s, isBlank x = true) : trimStart s = [] :=
  List.dropWhile_eq_nil_iff.mpr h

theorem trimEnd_eq_nil (h : ∀ x ∈ s, isBlank x = true) : trimEnd s = [] := by
  have hreverse : trimStart s.reverse = [] := by
    apply trimStart_eq_nil
    intro x hx
    exact h x (List.mem_reverse.mp hx)
  rw [trimStart] at hreverse
  rw [trimEnd, hreverse, List.reverse_nil]

/-- A text is blank throughout, or can be split at something that is not. -/
theorem blank_or_split (s : List Char) :
    (∀ x ∈ s, isBlank x = true) ∨ ∃ a c b, s = a ++ c :: b ∧ isBlank c = false := by
  by_cases h : ∀ x ∈ s, isBlank x = true
  · exact Or.inl h
  · simp only [not_forall, Bool.not_eq_true] at h
    obtain ⟨c, hmem, hc⟩ := h
    obtain ⟨a, b, hs⟩ := List.append_of_mem hmem
    exact Or.inr ⟨a, c, b, hs, hc⟩

theorem trimStart_trimStart (s : List Char) : trimStart (trimStart s) = trimStart s := by
  rw [trimStart, trimStart, List.dropWhile_idempotent]

theorem trimEnd_trimEnd (s : List Char) : trimEnd (trimEnd s) = trimEnd s := by
  rw [trimEnd, trimEnd, List.reverse_reverse, List.dropWhile_idempotent]

theorem trim_trimStart (s : List Char) : trim (trimStart s) = trim s := by
  rw [trim, trim, trimStart_trimStart]

theorem trim_trimEnd (s : List Char) : trim (trimEnd s) = trim s := by
  rcases blank_or_split s with h | ⟨a, c, b, rfl, hc⟩
  · rw [trimEnd_eq_nil h, trim, trim, trimStart_eq_nil h]
    rfl
  · rw [trimEnd_append_cons hc, trim_append_cons hc, trim_append_cons hc, trimEnd_trimEnd]

theorem trim_trim (s : List Char) : trim (trim s) = trim s := by
  rw [show trim s = trimEnd (trimStart s) from rfl, trim_trimEnd, trim_trimStart]
  rfl

theorem mem_of_mem_trimStart (h : c ∈ trimStart s) : c ∈ s :=
  (List.dropWhile_sublist _).subset h

theorem mem_of_mem_trimEnd (h : c ∈ trimEnd s) : c ∈ s := by
  have hreverse : c ∈ trimStart s.reverse := List.mem_reverse.mp h
  exact List.mem_reverse.mp (mem_of_mem_trimStart hreverse)

theorem mem_of_mem_trim (h : c ∈ trim s) : c ∈ s :=
  mem_of_mem_trimStart (mem_of_mem_trimEnd h)

theorem length_trimStart_le (s : List Char) : (trimStart s).length ≤ s.length :=
  (List.dropWhile_sublist _).length_le

/-- What is left begins with a character that is no blank. -/
theorem isBlank_of_trimStart_eq_cons (h : trimStart s = c :: b) : isBlank c = false := by
  have hne : trimStart s ≠ [] := by simp [h]
  have hhead := List.head_dropWhile_not (p := isBlank) (l := s) hne
  have hc : (trimStart s).head hne = c := by simp [h]
  rw [← hc]
  exact hhead

end

theorem after?_append (start s : List Char) : after? start (start ++ s) = some s := by
  induction start with
  | nil => cases s <;> rfl
  | cons c start ih => simp [after?, ih]

theorem after?_eq_some_iff {start s rest : List Char} :
    after? start s = some rest ↔ s = start ++ rest := by
  constructor
  · intro h
    induction start generalizing s with
    | nil =>
      rw [after?] at h
      exact Option.some.inj h
    | cons c start ih =>
      cases s with
      | nil => cases h
      | cons d s =>
        rw [after?] at h
        split_ifs at h with hc
        rw [hc, ih h, List.cons_append]
  · intro h
    rw [h, after?_append]

/-- A text parts in one way at its first separator. -/
theorem eq_of_append_cons {sep : Char} {a b a' b' : List Char} (ha : sep ∉ a) (ha' : sep ∉ a')
    (h : a ++ sep :: b = a' ++ sep :: b') : a = a' ∧ b = b' := by
  have hsplit := splitFirst?_append ha b
  rw [h, splitFirst?_append ha' b'] at hsplit
  obtain ⟨ha, hb⟩ := Prod.mk.inj (Option.some.inj hsplit)
  exact ⟨ha.symm, hb.symm⟩

theorem splitLast?_append {sep : Char} (a : List Char) {b : List Char} (h : sep ∉ b) :
    splitLast? sep (a ++ sep :: b) = some (a, b) := by
  have hreverse : (a ++ sep :: b).reverse = b.reverse ++ sep :: a.reverse := by simp
  have hb : sep ∉ b.reverse := fun hm => h (List.mem_reverse.mp hm)
  rw [splitLast?, hreverse, splitFirst?_append hb, Option.map_some, List.reverse_reverse,
    List.reverse_reverse]

/-- The cut is at the last separator. -/
theorem splitLast?_eq_some {sep : Char} {s a b : List Char} (h : splitLast? sep s = some (a, b)) :
    s = a ++ sep :: b ∧ sep ∉ b := by
  obtain ⟨⟨x, y⟩, hxy, hab⟩ := Option.map_eq_some_iff.mp h
  obtain ⟨rfl, rfl⟩ := Prod.mk.inj hab
  obtain ⟨hs, hx⟩ := splitFirst?_eq_some hxy
  refine ⟨?_, fun hm => hx (List.mem_reverse.mp hm)⟩
  rw [← List.reverse_reverse s, hs]
  simp

theorem splitLast?_eq_none {sep : Char} {s : List Char} (h : splitLast? sep s = none) :
    sep ∉ s := by
  have hreverse : sep ∉ s.reverse := splitFirst?_eq_none.mp (Option.map_eq_none_iff.mp h)
  exact fun hm => hreverse (List.mem_reverse.mpr hm)

theorem not_mem_of_mem_splitOn {sep : Char} {s line : List Char} (h : line ∈ s.splitOn sep) :
    sep ∉ line := by
  induction s generalizing line with
  | nil =>
    rw [List.splitOn_nil, List.mem_singleton] at h
    simp [h]
  | cons c s ih =>
    rw [List.splitOn_cons_eq_if_modifyHead] at h
    split_ifs at h with hc
    · rcases List.mem_cons.mp h with rfl | h
      · exact List.not_mem_nil
      · exact ih h
    · cases hs : s.splitOn sep with
      | nil => exact absurd hs (List.splitOn_ne_nil _ _)
      | cons first rest =>
        rw [hs] at h ih
        rcases List.mem_cons.mp h with rfl | h
        · intro hm
          rcases List.mem_cons.mp hm with rfl | hm
          · exact hc (beq_self_eq_true _)
          · exact ih List.mem_cons_self hm
        · exact ih (List.mem_cons_of_mem _ h)

/-- A text parts at a separator into the pieces that it is joined from, if none of them holds
one. -/
theorem splitOn_eq_iff {sep : Char} {s : List Char} {pieces : List (List Char)}
    (hne : pieces ≠ []) : s.splitOn sep = pieces ↔
      s = [sep].intercalate pieces ∧ ∀ piece ∈ pieces, sep ∉ piece := by
  constructor
  · intro h
    refine ⟨?_, ?_⟩
    · rw [← h, List.intercalate_splitOn]
    · intro piece hpiece
      rw [← h] at hpiece
      exact not_mem_of_mem_splitOn hpiece
  · intro h
    obtain ⟨rfl, hfree⟩ := h
    exact List.splitOn_intercalate sep hfree hne

/-- Lines that each end in a separator leave an empty one behind the last. -/
theorem splitOn_flatMap {sep : Char} {lines : List (List Char)} (h : ∀ line ∈ lines, sep ∉ line) :
    (lines.flatMap (· ++ [sep])).splitOn sep = lines ++ [[]] := by
  induction lines with
  | nil => rfl
  | cons line lines ih =>
    rw [List.forall_mem_cons] at h
    obtain ⟨hline, hlines⟩ := h
    rw [List.flatMap_cons, List.append_assoc, List.singleton_append,
      List.splitOn_append_cons_self_of_not_mem hline, ih hlines, List.cons_append]

end Electorate
