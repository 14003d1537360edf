import Mathlib
import Electorate.Text.Blank
import Electorate.Text.Numeral

/-! Written numerals are read back, in both bases. -/
namespace Electorate

/-- A smaller base reads the same digits, as far as they are below it. -/
theorem digitValue?_of_lt {base d : Nat} {c : Char} (h : digitValue? 16 c = some d)
    (hd : d < base) : digitValue? base c = some d := by
  unfold digitValue? at h ⊢
  rw [Option.filter_eq_some_iff] at h ⊢
  exact ⟨h.1, decide_eq_true hd⟩

theorem digitValue?_digitChar {base d : Nat} (hbase : base ≤ 16) (hd : d < base) :
    digitValue? base d.digitChar = some d := by
  have hall : ∀ d < 16, digitValue? 16 d.digitChar = some d := by decide
  exact digitValue?_of_lt (hall d (by omega)) hd

/-- One more digit is worth itself, and the others are worth the base times more. -/
theorem digitsValue?_append (base : Nat) (s : List Char) (c : Char) :
    digitsValue? base (s ++ [c]) =
      (digitsValue? base s).bind fun n => (digitValue? base c).map (base * n + ·) := by
  rw [digitsValue?, List.foldlM_append]
  simp [digitsValue?, Option.bind_eq_bind]

/-- The last digit is read last, as it is written last. -/
theorem digitsValue?_toDigits {base : Nat} (hone : 1 < base) (hbase : base ≤ 16) (n : Nat) :
    digitsValue? base (Nat.toDigits base n) = some n := by
  induction n using Nat.strong_induction_on with
  | h n ih =>
    rw [Nat.toDigits_eq_if hone]
    split_ifs with hn
    · have hd := digitValue?_digitChar hbase hn
      simp [digitsValue?, hd]
    · have hdiv : n / base < n := Nat.div_lt_self (by omega) hone
      have hmod : n % base < base := Nat.mod_lt n (by omega)
      have hsum : base * (n / base) + n % base = n := Nat.div_add_mod n base
      rw [digitsValue?_append, ih (n / base) hdiv, Option.bind_some,
        digitValue?_digitChar hbase hmod, Option.map_some, hsum]

theorem exists_digit_of_mem {base : Nat} (hone : 1 < base) {n : Nat} {c : Char}
    (hc : c ∈ Nat.toDigits base n) : ∃ d < base, c = d.digitChar := by
  induction n using Nat.strong_induction_on with
  | h n ih =>
    rw [Nat.toDigits_eq_if hone] at hc
    split_ifs at hc with hn
    · exact ⟨n, hn, List.mem_singleton.mp hc⟩
    · rcases List.mem_append.mp hc with hc | hc
      · exact ih (n / base) (Nat.div_lt_self (by omega) hone) hc
      · exact ⟨n % base, Nat.mod_lt n (by omega), List.mem_singleton.mp hc⟩

/-- What holds of the sixteen digits holds of every character of a numeral. -/
theorem forall_mem_toDigits {P : Char → Prop} (hP : ∀ d < 16, P (Nat.digitChar d)) {base : Nat}
    (hone : 1 < base) (hbase : base ≤ 16) (n : Nat) : ∀ c ∈ Nat.toDigits base n, P c := by
  intro c hc
  obtain ⟨d, hd, rfl⟩ := exists_digit_of_mem hone hc
  exact hP d (by omega)

theorem forall_mem_decimal {P : Char → Prop} (hP : ∀ d < 16, P (Nat.digitChar d)) (n : Nat) :
    ∀ c ∈ decimal n, P c := forall_mem_toDigits hP (by decide) (by decide) n

theorem forall_mem_hexadecimal {P : Char → Prop} (hP : ∀ d < 16, P (Nat.digitChar d)) (n : Nat) :
    ∀ c ∈ hexadecimal n, P c := forall_mem_toDigits hP (by decide) (by decide) n

theorem not_mem_decimal {c : Char} (hc : ∀ d < 16, Nat.digitChar d ≠ c) (n : Nat) :
    c ∉ decimal n := by
  intro hmem
  have hne : ∀ x ∈ decimal n, x ≠ c := forall_mem_decimal hc n
  exact hne c hmem rfl

theorem isBlank_digitChar : ∀ d < 16, isBlank (Nat.digitChar d) = false := by decide

/-- What is written in digits is read back, in every base up to sixteen. -/
theorem readNumeral_toDigits {base bound : Nat} (hone : 1 < base) (hbase : base ≤ 16) {n : Nat}
    (hn : n < bound) : readNumeral base bound (Nat.toDigits base n) = some n := by
  have hvalue := digitsValue?_toDigits hone hbase n
  have hplus : ∀ c ∈ Nat.toDigits base n, c ≠ '+' :=
    forall_mem_toDigits (by decide) hone hbase n
  have hnil : Nat.toDigits base n ≠ [] := Nat.toDigits_ne_nil
  generalize Nat.toDigits base n = s at hvalue hplus hnil
  cases s with
  | nil => exact absurd rfl hnil
  | cons c rest =>
    -- a numeral is written without a sign
    have hc : c ≠ '+' := hplus c List.mem_cons_self
    have hdigits : readNumeral base bound (c :: rest) =
        (digitsValue? base (c :: rest)).filter (· < bound) := by
      unfold readNumeral
      split
      · next hsign => exact absurd (List.cons.inj hsign).1 hc
      · rfl
    rw [hdigits, hvalue, Option.filter_some, if_pos (decide_eq_true hn)]

theorem readWord64_decimal (w : UInt64) : readWord64 (decimal w.toNat) = some w := by
  rw [readWord64, decimal, readNumeral_toDigits (by decide) (by decide) w.toNat_lt_size,
    Option.map_some, UInt64.ofNat_toNat]

theorem readHex64_hexadecimal (w : UInt64) : readHex64 (hexadecimal w.toNat) = some w := by
  rw [readHex64, hexadecimal, readNumeral_toDigits (by decide) (by decide) w.toNat_lt_size,
    Option.map_some, UInt64.ofNat_toNat]

theorem readWord16_decimal (w : UInt16) : readWord16 (decimal w.toNat) = some w := by
  rw [readWord16, decimal, readNumeral_toDigits (by decide) (by decide) w.toNat_lt_size,
    Option.map_some, UInt16.ofNat_toNat]

end Electorate
