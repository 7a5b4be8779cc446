import CarbideOS.Lib.Text

namespace Decimal

/-- A number without a sign and without a leading zero. Zero itself has neither spelling. -/
def Canonical (ds : List Char) : Prop :=
  ds ≠ [] ∧ ds.head? ≠ some '0' ∧ ∀ d ∈ ds, d.isDigit = true

def value (ds : List Char) : Nat := Nat.ofDigitChars 10 ds 0

theorem toNat_of_isDigit {d : Char} (h : d.isDigit = true) : 48 ≤ d.toNat ∧ d.toNat ≤ 57 := by
  simp only [Char.isDigit, Bool.and_eq_true, decide_eq_true_eq] at h
  exact ⟨h.1, h.2⟩

/-- One digit spells its own value. -/
theorem toDigits_digit {d : Char} (h : d.isDigit = true) :
    Nat.toDigits 10 (d.toNat - 48) = [d] := by
  have range := toNat_of_isDigit h
  have small : d.toNat - 48 < 10 := by omega
  have code : (Nat.digitChar (d.toNat - 48)).toNat = d.toNat := by
    have := Nat.toNat_digitChar_of_lt_ten small
    omega
  rw [Nat.toDigits_of_lt_base small, Char.toNat_inj.mp code]

/-- Reading digits on continues the spelling of the number read so far. -/
theorem toDigits_append (ds : List Char) (n : Nat) (positive : 0 < n)
    (digits : ∀ d ∈ ds, d.isDigit = true) :
    Nat.toDigits 10 (Nat.ofDigitChars 10 ds n) = Nat.toDigits 10 n ++ ds := by
  induction ds generalizing n with
  | nil => simp [Nat.ofDigitChars]
  | cons d ds ih =>
    have hd := digits d (by simp)
    have range := toNat_of_isDigit hd
    have next : 0 < 10 * n + (d.toNat - 48) := by omega
    have step := Nat.toDigits_append_toDigits (b := 10) (n := n) (d := d.toNat - 48) (by decide)
      positive (by omega)
    rw [toDigits_digit hd] at step
    rw [Nat.ofDigitChars_cons]
    have rest := ih (10 * n + (d.toNat - 48)) next fun c hc => digits c (by simp [hc])
    calc
      _ = Nat.toDigits 10 (10 * n + (d.toNat - 48)) ++ ds := rest
      _ = (Nat.toDigits 10 n ++ [d]) ++ ds := by rw [step]
      _ = Nat.toDigits 10 n ++ d :: ds := by simp

theorem ofDigitChars_le (ds : List Char) (n : Nat) : n ≤ Nat.ofDigitChars 10 ds n := by
  induction ds generalizing n with
  | nil => simp [Nat.ofDigitChars]
  | cons d ds ih =>
    rw [Nat.ofDigitChars_cons]
    have := ih (10 * n + (d.toNat - '0'.toNat))
    omega

/-- A canonical text is the spelling of the number it denotes. -/
theorem Canonical.spelled {ds : List Char} (h : Canonical ds) :
    0 < value ds ∧ Nat.toDigits 10 (value ds) = ds := by
  obtain ⟨some, leading, digits⟩ := h
  cases ds with
  | nil => exact absurd rfl some
  | cons d ds =>
    have hd := digits d (by simp)
    have range := toNat_of_isDigit hd
    have nonzero : d.toNat ≠ 48 := by
      intro same
      have : d = '0' := Char.toNat_inj.mp same
      exact leading (by simp [this])
    have positive : 0 < d.toNat - 48 := by omega
    have start : value (d :: ds) = Nat.ofDigitChars 10 ds (d.toNat - 48) := by
      simp [value, Nat.ofDigitChars_cons]
    have spelled := toDigits_append ds (d.toNat - 48) positive fun c hc => digits c (by simp [hc])
    rw [toDigits_digit hd] at spelled
    rw [start]
    have atLeast := ofDigitChars_le ds (d.toNat - 48)
    exact ⟨by omega, spelled⟩

/-- Every positive number has a canonical spelling. -/
theorem canonical_toDigits {n : Nat} (h : 0 < n) : Canonical (Nat.toDigits 10 n) := by
  have digits : ∀ d ∈ Nat.toDigits 10 n, d.isDigit = true :=
    fun d hd => Nat.isDigit_of_mem_toDigits (by decide) (by decide) hd
  refine ⟨Nat.toDigits_ne_nil, ?_, digits⟩
  induction n using Nat.strongRecOn with
  | ind n ih =>
    by_cases small : n < 10
    · rw [Nat.toDigits_of_lt_base small]
      interval_cases n <;> simp [Nat.digitChar]
    · have split := Nat.toDigits_of_base_le (b := 10) (n := n) (by decide) (by omega)
      have before := ih (n / 10) (by omega) (by omega)
        (fun d hd => Nat.isDigit_of_mem_toDigits (by decide) (by decide) hd)
      rw [split]
      cases spelled : Nat.toDigits 10 (n / 10) with
      | nil => exact absurd spelled Nat.toDigits_ne_nil
      | cons d ds =>
        rw [spelled] at before
        simpa using before

theorem value_toDigits (n : Nat) : value (Nat.toDigits 10 n) = n := Nat.ofDigitChars_ten_toDigits

/-- Canonical texts and positive numbers correspond. -/
theorem canonical_iff {ds : List Char} {n : Nat} :
    Canonical ds ∧ value ds = n ↔ 0 < n ∧ ds = Nat.toDigits 10 n := by
  constructor
  · rintro ⟨canonical, rfl⟩
    obtain ⟨positive, spelled⟩ := canonical.spelled
    exact ⟨positive, spelled.symm⟩
  · rintro ⟨positive, rfl⟩
    exact ⟨canonical_toDigits positive, value_toDigits n⟩

theorem toString_inj {n m : Nat} : toString n = toString m ↔ n = m := by
  constructor
  · intro h
    have digits : Nat.toDigits 10 n = Nat.toDigits 10 m := by
      simpa using congrArg String.toList h
    rw [← value_toDigits n, ← value_toDigits m, digits]
  · rintro rfl
    rfl

/-- The texts of canonical numbers are the spellings of the positive ones. -/
theorem canonical_iff_toString {s : String} :
    Canonical s.toList ↔ ∃ n, 0 < n ∧ s = toString n := by
  have spelled : ∀ n, s = toString n ↔ s.toList = Nat.toDigits 10 n := by
    intro n
    rw [← String.toList_inj]
    simp
  constructor
  · intro h
    obtain ⟨positive, digits⟩ := h.spelled
    exact ⟨value s.toList, positive, (spelled _).mpr digits.symm⟩
  · rintro ⟨n, positive, h⟩
    rw [(spelled n).mp h]
    exact canonical_toDigits positive

end Decimal

namespace Text

/-- A text of digits only has no sign to strip. -/
theorem parseUnsigned_of_digits {bits : Nat} {s : String} (nonempty : s.toList ≠ [])
    (digits : s.toList.all Char.isDigit = true) :
    parseUnsigned bits s =
      if Decimal.value s.toList < 2 ^ bits then some (Decimal.value s.toList) else none := by
  cases spelled : s.toList with
  | nil => exact absurd spelled nonempty
  | cons d ds =>
    rw [spelled] at digits
    have unsigned : d ≠ '+' := by
      rintro rfl
      simp at digits
    simp only [parseUnsigned, spelled]
    split
    · rename_i same
      exact absurd (List.cons.inj same).1 unsigned
    · simp [digits, Decimal.value, Nat.ofDigitChars]

/-- The three checks a revision is read with. -/
theorem canonical_checks (s : String) :
    (s.isEmpty || startsWith s "0" || !(s.toList.all Char.isDigit)) = false ↔
      Decimal.Canonical s.toList := by
  have empty : s.isEmpty = s.toList.isEmpty := by
    rw [Bool.eq_iff_iff, String.isEmpty_iff, List.isEmpty_iff, ← String.toList_inj]
    simp
  have zero : "0".toList = ['0'] := rfl
  rw [empty, startsWith, zero]
  cases s.toList with
  | nil => simp [Decimal.Canonical]
  | cons d ds =>
    have leading : (['0'].isPrefixOf (d :: ds) = false) ↔ d ≠ '0' := by
      simp only [List.isPrefixOf, Bool.and_true, beq_eq_false_iff_ne, ne_eq]
      exact not_congr eq_comm
    simp only [List.isEmpty_cons, Bool.false_or, Bool.or_eq_false_iff, leading]
    simp [Decimal.Canonical]

end Text
