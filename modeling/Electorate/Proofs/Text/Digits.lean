import Electorate.Proofs.Text.Numeral

/-! Which texts are numerals, and of which number. -/
namespace Electorate

/-- A character that stands for `d`, where letters may be of either case. -/
def IsDigit (base : ℕ) (c : Char) (d : ℕ) : Prop :=
  d < base ∧ (c = d.digitChar ∨ c = d.digitChar.toUpper)

/-- An optional plus sign and at least one digit, the last digit being the least. Leading zeros
make no difference. -/
def IsNumeral (base : ℕ) (s : List Char) (n : ℕ) : Prop :=
  ∃ digits values, (s = digits ∨ s = '+' :: digits) ∧ digits ≠ [] ∧
    List.Forall₂ (IsDigit base) digits.reverse values ∧ n = Nat.ofDigits base values

theorem IsDigit.ne_plus {base : ℕ} (hbase : base ≤ 16) {c : Char} {d : ℕ} (h : IsDigit base c d) :
    c ≠ '+' := by
  have hall : ∀ d < 16, d.digitChar ≠ '+' ∧ d.digitChar.toUpper ≠ '+' := by decide
  have hd : d < 16 := by
    have hlt := h.1
    omega
  rcases h.2 with rfl | rfl
  · exact (hall d hd).1
  · exact (hall d hd).2

/-- The three ranges of characters that the reader looks at hold the digits and no other. -/
theorem isDigit_of_digitValue? {base : ℕ} {c : Char} {d : ℕ} (h : digitValue? base c = some d) :
    IsDigit base c d := by
  have hdecimal : ∀ d < 10, Char.ofNat (d + 48) = d.digitChar := by decide
  have hlower : ∀ d < 16, 10 ≤ d → Char.ofNat (d + 87) = d.digitChar := by decide
  have hupper : ∀ d < 16, 10 ≤ d → Char.ofNat (d + 55) = d.digitChar.toUpper := by decide
  have hchar {shift : ℕ} (hshift : shift ≤ c.toNat) (hd : c.toNat - shift = d) :
      c = Char.ofNat (d + shift) := by
    have hsum : d + shift = c.toNat := by omega
    rw [hsum, Char.ofNat_toNat]
  unfold digitValue? at h
  rw [Option.filter_eq_some_iff, decide_eq_true_eq] at h
  obtain ⟨hvalue, hbase⟩ := h
  refine ⟨hbase, ?_⟩
  split_ifs at hvalue with hnumber hsmall hlarge
  · have hd : c.toNat - 48 = d := Option.some.inj hvalue
    have hlow : 48 ≤ c.toNat := hnumber.1
    have hhigh : c.toNat ≤ 57 := hnumber.2
    exact Or.inl ((hchar hlow hd).trans (hdecimal d (by omega)))
  · have hd : c.toNat - 87 = d := Option.some.inj hvalue
    have hlow : 97 ≤ c.toNat := hsmall.1
    have hhigh : c.toNat ≤ 102 := hsmall.2
    exact Or.inl ((hchar (by omega) hd).trans (hlower d (by omega) (by omega)))
  · have hd : c.toNat - 55 = d := Option.some.inj hvalue
    have hlow : 65 ≤ c.toNat := hlarge.1
    have hhigh : c.toNat ≤ 70 := hlarge.2
    exact Or.inr ((hchar (by omega) hd).trans (hupper d (by omega) (by omega)))

theorem digitValue?_eq_some_iff {base : ℕ} (hbase : base ≤ 16) {c : Char} {d : ℕ} :
    digitValue? base c = some d ↔ IsDigit base c d := by
  constructor
  · exact isDigit_of_digitValue?
  · intro h
    have hall : ∀ d < 16, digitValue? 16 d.digitChar.toUpper = some d := by decide
    obtain ⟨hd, rfl | rfl⟩ := h
    · exact digitValue?_digitChar hbase hd
    · exact digitValue?_of_lt (hall d (by omega)) hd

theorem digitsValue?_eq_some_iff {base : ℕ} (hbase : base ≤ 16) {s : List Char} {n : ℕ} :
    digitsValue? base s = some n ↔
      ∃ values, List.Forall₂ (IsDigit base) s.reverse values ∧ n = Nat.ofDigits base values := by
  induction s using List.reverseRecOn generalizing n with
  | nil =>
    simp [digitsValue?, eq_comm]
  | append_singleton s c ih =>
    rw [digitsValue?_append, Option.bind_eq_some_iff, List.reverse_append]
    constructor
    · intro h
      obtain ⟨m, hm, h⟩ := h
      obtain ⟨d, hd, rfl⟩ := Option.map_eq_some_iff.mp h
      obtain ⟨values, hvalues, rfl⟩ := ih.mp hm
      refine ⟨d :: values, List.Forall₂.cons ((digitValue?_eq_some_iff hbase).mp hd) hvalues, ?_⟩
      rw [Nat.ofDigits_cons, Nat.add_comm]
    · intro h
      obtain ⟨values, hvalues, rfl⟩ := h
      cases hvalues with
      | @cons _ d _ values hd hvalues =>
        refine ⟨Nat.ofDigits base values, ih.mpr ⟨values, hvalues, rfl⟩, ?_⟩
        rw [(digitValue?_eq_some_iff hbase).mpr hd, Option.map_some, Nat.ofDigits_cons,
          Nat.add_comm]

/-- Without a sign, a text is read as a number below the bound if it is all digits. -/
theorem filter_digitsValue?_eq_some_iff {base : ℕ} (hbase : base ≤ 16) {bound : ℕ}
    {digits : List Char} {n : ℕ} :
    (if digits.isEmpty then none else (digitsValue? base digits).filter (· < bound)) = some n ↔
      (digits ≠ [] ∧ ∃ values, List.Forall₂ (IsDigit base) digits.reverse values ∧
        n = Nat.ofDigits base values) ∧ n < bound := by
  rw [← digitsValue?_eq_some_iff hbase]
  cases digits with
  | nil => simp
  | cons c rest => simp [Option.filter_eq_some_iff]

/-- A sign is no digit, so no text that starts with one is all digits. -/
theorem not_forall₂_isDigit_of_sign {base : ℕ} (hbase : base ≤ 16) (rest : List Char)
    (values : List ℕ) : ¬ List.Forall₂ (IsDigit base) ('+' :: rest).reverse values := by
  intro h
  rw [← values.reverse_reverse, List.forall₂_reverse_iff] at h
  generalize values.reverse = reversed at h
  cases h with
  | cons hdigit _ => exact hdigit.ne_plus hbase rfl

/-- A text is read as a number below the bound if it is a numeral of that number. -/
theorem readNumeral_eq_some_iff {base : ℕ} (hbase : base ≤ 16) {bound : ℕ} {s : List Char}
    {n : ℕ} : readNumeral base bound s = some n ↔ IsNumeral base s n ∧ n < bound := by
  unfold readNumeral
  simp only
  split
  · next rest =>
    rw [filter_digitsValue?_eq_some_iff hbase]
    apply and_congr_left
    intro _
    constructor
    · intro h
      obtain ⟨hne, values, hvalues, hn⟩ := h
      exact ⟨rest, values, Or.inr rfl, hne, hvalues, hn⟩
    · intro h
      obtain ⟨digits, values, hs | hs, hne, hvalues, hn⟩ := h
      · rw [← hs] at hvalues
        exact absurd hvalues (not_forall₂_isDigit_of_sign hbase rest values)
      · obtain rfl := (List.cons.inj hs).2
        exact ⟨hne, values, hvalues, hn⟩
  · next hplain =>
    rw [filter_digitsValue?_eq_some_iff hbase]
    apply and_congr_left
    intro _
    constructor
    · intro h
      obtain ⟨hne, values, hvalues, hn⟩ := h
      exact ⟨s, values, Or.inl rfl, hne, hvalues, hn⟩
    · intro h
      obtain ⟨digits, values, hs | hs, hne, hvalues, hn⟩ := h
      · obtain rfl := hs
        exact ⟨hne, values, hvalues, hn⟩
      · exact absurd hs (hplain digits)

/-- A word of any width is read from the numerals of its value, if those below the bound are the
values of words. -/
theorem map_readNumeral_eq_some_iff {base bound : ℕ} (hbase : base ≤ 16) {α : Type}
    {ofNat : ℕ → α} {toNat : α → ℕ} (hword : ∀ w, ofNat (toNat w) = w)
    (hvalue : ∀ n < bound, toNat (ofNat n) = n) (hlt : ∀ w, toNat w < bound) {s : List Char}
    {w : α} : (readNumeral base bound s).map ofNat = some w ↔ IsNumeral base s (toNat w) := by
  rw [Option.map_eq_some_iff]
  constructor
  · intro h
    obtain ⟨n, hn, rfl⟩ := h
    obtain ⟨hnumeral, hbound⟩ := (readNumeral_eq_some_iff hbase).mp hn
    rwa [hvalue n hbound]
  · intro h
    exact ⟨toNat w, (readNumeral_eq_some_iff hbase).mpr ⟨h, hlt w⟩, hword w⟩

theorem readWord_eq_some_iff {base : ℕ} (hbase : base ≤ 16) {s : List Char} {w : UInt64} :
    (readNumeral base UInt64.size s).map UInt64.ofNat = some w ↔ IsNumeral base s w.toNat :=
  map_readNumeral_eq_some_iff hbase (fun _ => UInt64.ofNat_toNat)
    (fun _ => UInt64.toNat_ofNat_of_lt') UInt64.toNat_lt_size

theorem readWord16_eq_some_iff {s : List Char} {w : UInt16} :
    readWord16 s = some w ↔ IsNumeral 10 s w.toNat :=
  map_readNumeral_eq_some_iff (by decide) (fun _ => UInt16.ofNat_toNat)
    (fun _ => UInt16.toNat_ofNat_of_lt') UInt16.toNat_lt_size

theorem readWord64_eq_some_iff {s : List Char} {w : UInt64} :
    readWord64 s = some w ↔ IsNumeral 10 s w.toNat := readWord_eq_some_iff (by decide)

theorem isNumeral_decimal (w : UInt64) : IsNumeral 10 (decimal w.toNat) w.toNat :=
  readWord64_eq_some_iff.mp (readWord64_decimal w)

theorem readHex64_eq_some_iff {s : List Char} {w : UInt64} :
    readHex64 s = some w ↔ IsNumeral 16 s w.toNat := readWord_eq_some_iff (by decide)

theorem readWord64_eq_none_iff {s : List Char} :
    readWord64 s = none ↔ ∀ w : UInt64, ¬ IsNumeral 10 s w.toNat := by
  simp only [← readWord64_eq_some_iff]
  exact Option.eq_none_iff_forall_ne_some

theorem readHex64_eq_none_iff {s : List Char} :
    readHex64 s = none ↔ ∀ w : UInt64, ¬ IsNumeral 16 s w.toNat := by
  simp only [← readHex64_eq_some_iff]
  exact Option.eq_none_iff_forall_ne_some

end Electorate
