namespace Electorate

/-- The text before and after the first `sep`, and nothing where there is none. -/
def splitFirst? (sep : Char) (s : List Char) : Option (List Char × List Char) :=
  match s.dropWhile (· != sep) with
  | [] => none
  | _ :: rest => some (s.takeWhile (· != sep), rest)

/-- The text before and after the last `sep`, and nothing where there is none. -/
def splitLast? (sep : Char) (s : List Char) : Option (List Char × List Char) :=
  (splitFirst? sep s.reverse).map fun halves => (halves.2.reverse, halves.1.reverse)

/-- What follows `start` in a text that begins with it. -/
def after? : (start s : List Char) → Option (List Char)
  | [], s => some s
  | c :: start, d :: s => if c = d then after? start s else none
  | _ :: _, [] => none

theorem splitFirst?_eq_some {sep : Char} {s a b : List Char} (h : splitFirst? sep s = some (a, b)) :
    s = a ++ sep :: b ∧ sep ∉ a := by
  unfold splitFirst? at h
  split at h
  · simp at h
  · next c rest hd =>
    obtain ⟨rfl, rfl⟩ := Prod.mk.injEq .. ▸ Option.some.inj h
    have hc : c = sep := by
      have hn := List.head_dropWhile_not (p := (· != sep)) (l := s) (by simp [hd])
      simpa [hd] using hn
    subst hc
    refine ⟨?_, ?_⟩
    · rw [← hd, List.takeWhile_append_dropWhile]
    · intro hm
      have hall := List.all_takeWhile (p := (· != c)) (l := s)
      simpa using List.all_eq_true.mp hall c hm

theorem splitFirst?_append {sep : Char} {a : List Char} (h : sep ∉ a) (b : List Char) :
    splitFirst? sep (a ++ sep :: b) = some (a, b) := by
  have ha : ∀ c ∈ a, (c != sep) = true := fun c hc => by
    simp only [bne_iff_ne, ne_eq]
    exact fun he => h (he ▸ hc)
  simp [splitFirst?, List.dropWhile_append_of_pos ha, List.takeWhile_append_of_pos ha]

theorem splitFirst?_eq_none {sep : Char} {s : List Char} :
    splitFirst? sep s = none ↔ sep ∉ s := by
  constructor
  · intro h hm
    obtain ⟨a, b, rfl, ha⟩ := List.eq_append_cons_of_mem hm
    rw [splitFirst?_append ha] at h
    simp at h
  · intro h
    cases hs : splitFirst? sep s with
    | none => rfl
    | some p => exact absurd (by simp [(splitFirst?_eq_some hs).1]) h

end Electorate
