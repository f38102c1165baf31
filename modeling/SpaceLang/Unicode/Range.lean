/-!
# Ranges of code points

A property of characters is given by its ranges of code points, first and last included, in
ascending order. The look-up reads them in that order and ends at the first range that begins
beyond the code point, so ASCII characters are settled by the first few. `inRanges_iff` says that it
misses none of the ranges, since they ascend.
-/

namespace SpaceLang.Unicode

/-- Whether a code point lies in one of the ranges, which are in ascending order. -/
def inRanges : List (Nat × Nat) → Nat → Bool
  | [], _ => false
  | (first, last) :: ranges, n => first ≤ n && (n ≤ last || inRanges ranges n)

/-- Whether no range is empty and each begins behind the one before, the first at `n` or behind. -/
def ascendFrom : Nat → List (Nat × Nat) → Bool
  | _, [] => true
  | n, (first, last) :: ranges => n ≤ first && first ≤ last && ascendFrom (last + 1) ranges

theorem le_first_of_ascendFrom {n : Nat} {ranges : List (Nat × Nat)} {r : Nat × Nat}
    (h : ascendFrom n ranges) (hr : r ∈ ranges) : n ≤ r.1 := by
  induction ranges generalizing n with
  | nil => cases hr
  | cons q ranges ih =>
    simp only [ascendFrom, Bool.and_eq_true, decide_eq_true_eq] at h
    rcases List.mem_cons.1 hr with rfl | hr
    · exact h.1.1
    · have := ih h.2 hr
      omega

/-- The look-up finds a code point if and only if one of the ranges holds it. -/
theorem inRanges_iff {n m : Nat} {ranges : List (Nat × Nat)} (h : ascendFrom m ranges) :
    inRanges ranges n ↔ ∃ r ∈ ranges, r.1 ≤ n ∧ n ≤ r.2 := by
  induction ranges generalizing m with
  | nil => simp [inRanges]
  | cons q ranges ih =>
    simp only [ascendFrom, Bool.and_eq_true, decide_eq_true_eq] at h
    simp only [inRanges, Bool.and_eq_true, Bool.or_eq_true, decide_eq_true_eq, List.mem_cons,
      exists_eq_or_imp, ih h.2]
    constructor
    · rintro ⟨hq, hn | hr⟩
      · exact .inl ⟨hq, hn⟩
      · exact .inr hr
    · rintro (hq | ⟨r, hr, hn⟩)
      · exact ⟨hq.1, .inl hq.2⟩
      · have := le_first_of_ascendFrom h.2 hr
        exact ⟨by omega, .inr ⟨r, hr, hn⟩⟩

end SpaceLang.Unicode
