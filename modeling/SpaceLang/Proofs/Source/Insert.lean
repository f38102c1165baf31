import SpaceLang.Proofs.Source.Line

/-!
# Places behind an insertion

Where a text is put in at a place of another one, all that stands behind the place moves down by the
line feeds of what is put in. On the line of the place it moves along with the place, which goes to
the end of what is put in, and on every later line it keeps its column (`Position.isShifted_after`).
-/

namespace SpaceLang.Position

/-- Whether `q` has moved to `q'` where `w` has been put in at `place`. -/
structure IsShifted (place : Position) (w : List Char) (q q' : Position) : Prop where
  line : q'.line.toNat = q.line.toNat + w.count '\n'
  column : q.line = place.line →
    q'.column.toNat + place.column.toNat = q.column.toNat + (place.after w).column.toNat
  column_below : q.line ≠ place.line → q'.column = q.column

variable {front w rest : List Char}

theorem line_after_eq_iff (hlen : (front ++ rest).length < UInt32.size - 1) :
    (start.after (front ++ rest)).line = (start.after front).line ↔ '\n' ∉ rest := by
  rw [List.length_append] at hlen
  have hfront := at_start.after front (by rw [List.nil_append]; omega)
  have hall := at_start.after (front ++ rest)
    (by simp only [List.nil_append, List.length_append]; omega)
  rw [← UInt32.toNat_inj, hall.1, hfront.1, List.nil_append, List.nil_append, List.count_append,
    ← List.count_eq_zero]
  omega

theorem isShifted_after (hlen : (front ++ w ++ rest).length < UInt32.size - 1) :
    IsShifted (start.after front) w (start.after (front ++ rest))
      (start.after (front ++ w ++ rest)) := by
  simp only [List.length_append] at hlen
  have hplace := at_start.after front (by rw [List.nil_append]; omega)
  have hend := hplace.after w (by simp only [List.nil_append, List.length_append]; omega)
  have hq := at_start.after (front ++ rest)
    (by simp only [List.nil_append, List.length_append]; omega)
  have hq' := at_start.after (front ++ w ++ rest)
    (by simp only [List.nil_append, List.length_append]; omega)
  rw [List.nil_append] at hplace hend hq hq'
  have hline : (start.after (front ++ rest)).line = (start.after front).line ↔ '\n' ∉ rest :=
    line_after_eq_iff (by rw [List.length_append]; omega)
  refine ⟨?_, fun h => ?_, fun h => ?_⟩
  · rw [hq.1, hq'.1, List.count_append, List.count_append, List.count_append]
    omega
  · rw [hline] at h
    rw [hq.2, hq'.2, hplace.2, hend.2, lastLine_append_of_not_mem _ h,
      lastLine_append_of_not_mem _ h, List.length_append, List.length_append]
    omega
  · have hmem : '\n' ∈ rest := by simpa [hline] using h
    rw [← UInt32.toNat_inj, hq.2, hq'.2, lastLine_append_of_mem _ hmem,
      lastLine_append_of_mem _ hmem]

end SpaceLang.Position
