import SpaceLang.Expr.Integer

/-!
# The numbers that digits denote

A row of digits without a sign denotes its value in base ten (`denoted?_of_all_isDigit`), which is
no negative number, and the digits of a number denote that number (`denoted?_toString`).
-/

namespace SpaceLang.Integer

variable {digits : List Char}

theorem denoted?_of_all_isDigit (hne : digits ≠ []) (h : digits.all Char.isDigit) :
    denoted? digits = some (Int.ofNat (digits.foldl accumulate 0)) := by
  obtain ⟨c, cs, rfl⟩ := List.exists_cons_of_ne_nil hne
  have hc : c.isDigit := by
    rw [List.all_cons, Bool.and_eq_true] at h
    exact h.1
  have hminus : c ≠ '-' := by
    rintro rfl
    exact absurd hc (by decide)
  have hplus : c ≠ '+' := by
    rintro rfl
    exact absurd hc (by decide)
  have hsign : denoted? (c :: cs) = (natural? (c :: cs)).map Int.ofNat := by
    unfold denoted?
    split
    · next heq => exact absurd (List.cons.inj heq).1 hminus
    · next heq => exact absurd (List.cons.inj heq).1 hplus
    · rfl
  rw [hsign, natural?, if_pos ⟨hne, h⟩, Option.map_some]

theorem toString_digits (n : Nat) :
    (toString n).toList ≠ [] ∧ (toString n).toList.all Char.isDigit := by
  have hdigits : (toString n).toList = Nat.toDigits 10 n := by
    rw [Nat.toString_eq_ofList_toDigits, String.toList_ofList]
  rw [hdigits, List.all_eq_true]
  exact ⟨Nat.toDigits_ne_nil, fun c hc => Nat.isDigit_of_mem_toDigits (by decide) (by decide) hc⟩

theorem denoted?_toString (n : Nat) : denoted? (toString n).toList = some (n : Int) := by
  obtain ⟨hne, hall⟩ := toString_digits n
  have hvalue : (Nat.toDigits 10 n).foldl accumulate 0 = n :=
    Nat.ofDigitChars_eq_foldl.symm.trans Nat.ofDigitChars_ten_toDigits
  rw [denoted?_of_all_isDigit hne hall, Nat.toString_eq_ofList_toDigits, String.toList_ofList,
    hvalue]
  rfl

/-! ## Integers of 64 bits -/

theorem fits_iff {n : Int} : fits n ↔ Int64.minValue.toInt ≤ n ∧ n ≤ Int64.maxValue.toInt := by
  rw [fits, Bool.and_eq_true, decide_eq_true_eq, decide_eq_true_eq]

theorem toInt_ofInt {n : Int} (h : fits n) : (Int64.ofInt n).toInt = n := by
  obtain ⟨hlow, hhigh⟩ := fits_iff.1 h
  rw [Int64.toInt_minValue] at hlow
  rw [Int64.toInt_maxValue] at hhigh
  exact Int64.toInt_ofInt_of_le hlow (by omega)

theorem fits_toInt (v : Int64) : fits v.toInt :=
  fits_iff.2 ⟨v.minValue_le_toInt, v.toInt_le⟩

end SpaceLang.Integer
