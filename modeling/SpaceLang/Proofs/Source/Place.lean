import SpaceLang.Source.Position

/-!
# Positions as numbers

`p.At text` says in numbers that `p` is the place after `text`: one more than the line feeds of the
text and one more than the characters behind the last of them. As long as the text is shorter than
the counters can count, the position that the characters add up to is that place (`At.after`), and
more characters lead to a later one (`At.lt_after`).
-/

namespace SpaceLang.Position

/-- The characters of a text behind its last line feed. -/
def lastLine (text : List Char) : List Char :=
  (text.reverse.takeWhile (· ≠ '\n')).reverse

/-- The place after a text that begins at the first line and column. -/
def At (p : Position) (text : List Char) : Prop :=
  p.line.toNat = text.count '\n' + 1 ∧ p.column.toNat = (lastLine text).length + 1

theorem At.unique {p q : Position} {text : List Char} (hp : p.At text) (hq : q.At text) :
    p = q := by
  have hline : p.line = q.line := UInt32.toNat_inj.1 (hp.1.trans hq.1.symm)
  have hcolumn : p.column = q.column := UInt32.toNat_inj.1 (hp.2.trans hq.2.symm)
  cases p
  cases q
  simp_all

theorem lastLine_append_newline (text : List Char) : lastLine (text ++ ['\n']) = [] := by
  simp [lastLine]

theorem lastLine_append_singleton (text : List Char) {c : Char} (h : c ≠ '\n') :
    lastLine (text ++ [c]) = lastLine text ++ [c] := by
  simp [lastLine, h]

theorem length_lastLine_le (text : List Char) : (lastLine text).length ≤ text.length := by
  have h := (List.takeWhile_prefix (fun c => decide (c ≠ '\n')) (l := text.reverse)).length_le
  simpa [lastLine] using h

/-- One character further, while the counters do not wrap. -/
theorem At.next {p : Position} {text : List Char} (h : p.At text) (c : Char)
    (hlen : text.length + 1 < UInt32.size - 1) : (p.next c).At (text ++ [c]) := by
  have hline := h.1
  have hcolumn := h.2
  have hcount : text.count '\n' ≤ text.length := List.count_le_length
  have hlast := length_lastLine_le text
  have hsize : UInt32.size = 0x100000000 := rfl
  unfold Position.next
  split
  · next hc =>
    subst hc
    refine ⟨?_, ?_⟩
    · simp only [UInt32.toNat_add, UInt32.toNat_one, hline, List.count_append,
        List.count_singleton_self]
      omega
    · rw [lastLine_append_newline]
      rfl
  · next hc =>
    refine ⟨?_, ?_⟩
    · have hzero : [c].count '\n' = 0 := by simp [hc]
      rw [hline, List.count_append, hzero, Nat.add_zero]
    · simp only [UInt32.toNat_add, UInt32.toNat_one, hcolumn, lastLine_append_singleton text hc,
        List.length_append, List.length_singleton]
      omega

theorem At.after {p : Position} {text : List Char} (h : p.At text) (cs : List Char)
    (hlen : (text ++ cs).length < UInt32.size - 1) : (p.after cs).At (text ++ cs) := by
  induction cs generalizing p text with
  | nil => simpa using h
  | cons c cs ih =>
    rw [List.length_append, List.length_cons] at hlen
    have hnext := h.next c (by omega)
    have hrest := ih hnext (by simp only [List.length_append, List.length_singleton]; omega)
    rwa [List.append_assoc] at hrest

theorem at_start : start.At [] := ⟨rfl, rfl⟩

/-! ## Order -/

theorem lt_irrefl (p : Position) : ¬ p < p := by
  rw [lt_def]
  rintro (h | ⟨-, h⟩)
  · exact UInt32.lt_irrefl _ h
  · exact UInt32.lt_irrefl _ h

theorem lt_trans {p q r : Position} (h : p < q) (h' : q < r) : p < r := by
  rw [lt_def] at *
  simp only [UInt32.lt_iff_toNat_lt, ← UInt32.toNat_inj] at *
  omega

theorem le_refl (p : Position) : p ≤ p := .inr rfl

theorem le_of_lt {p q : Position} (h : p < q) : p ≤ q := .inl h

theorem lt_of_le_of_lt {p q r : Position} (h : p ≤ q) (h' : q < r) : p < r := by
  rcases h with h | rfl
  · exact lt_trans h h'
  · exact h'

theorem lt_of_lt_of_le {p q r : Position} (h : p < q) (h' : q ≤ r) : p < r := by
  rcases h' with h' | rfl
  · exact lt_trans h h'
  · exact h

theorem le_trans {p q r : Position} (h : p ≤ q) (h' : q ≤ r) : p ≤ r := by
  rcases h with h | rfl
  · exact le_of_lt (lt_of_lt_of_le h h')
  · exact h'

theorem le_antisymm {p q : Position} (h : p ≤ q) (h' : q ≤ p) : p = q := by
  rcases h with h | h
  · exact absurd (lt_of_lt_of_le h h') (lt_irrefl p)
  · exact h

theorem not_le_of_lt {p q : Position} (h : p < q) : ¬ q ≤ p :=
  fun h' => lt_irrefl p (lt_of_lt_of_le h h')

theorem At.lt_next {p : Position} {text : List Char} (h : p.At text) (c : Char)
    (hlen : text.length + 1 < UInt32.size - 1) : p < p.next c := by
  have hnext := h.next c hlen
  rw [lt_def, UInt32.lt_iff_toNat_lt, UInt32.lt_iff_toNat_lt, ← UInt32.toNat_inj, h.1, h.2,
    hnext.1, hnext.2]
  by_cases hc : c = '\n'
  · left
    simp [hc]
  · right
    rw [lastLine_append_singleton text hc]
    simp [hc]

theorem At.lt_after {p : Position} {text cs : List Char} (h : p.At text) (hcs : cs ≠ [])
    (hlen : (text ++ cs).length < UInt32.size - 1) : p < p.after cs := by
  induction cs generalizing p text with
  | nil => exact absurd rfl hcs
  | cons c cs ih =>
    rw [List.length_append, List.length_cons] at hlen
    have hlt := h.lt_next c (by omega)
    by_cases hnil : cs = []
    · rw [hnil]
      exact hlt
    · have hlen' : (text ++ [c] ++ cs).length < UInt32.size - 1 := by
        simp only [List.length_append, List.length_singleton]
        omega
      exact lt_trans hlt (ih (h.next c (by omega)) hnil hlen')

theorem after_lt_after {xs ys text : List Char} (hxs : xs <+: text) (hys : ys <+: text)
    (hlen : text.length < UInt32.size - 1) (h : xs.length < ys.length) :
    start.after xs < start.after ys := by
  obtain ⟨rest, rfl⟩ := List.prefix_of_prefix_length_le hxs hys (Nat.le_of_lt h)
  have hle := hys.length_le
  rw [List.length_append] at h hle
  have hfront := at_start.after xs (by rw [List.nil_append]; omega)
  have hrest : rest ≠ [] := List.length_pos_iff.1 (by omega)
  rw [after_append]
  exact hfront.lt_after hrest (by simp only [List.nil_append, List.length_append]; omega)

theorem after_inj {xs ys text : List Char} (hxs : xs <+: text) (hys : ys <+: text)
    (hlen : text.length < UInt32.size - 1) (h : start.after xs = start.after ys) : xs = ys := by
  rcases Nat.lt_trichotomy xs.length ys.length with hlt | heq | hlt
  · exact absurd (h ▸ after_lt_after hxs hys hlen hlt) (lt_irrefl _)
  · exact (List.prefix_of_prefix_length_le hxs hys (Nat.le_of_eq heq)).eq_of_length heq
  · exact absurd (h ▸ after_lt_after hys hxs hlen hlt) (lt_irrefl _)

/-- The places of a text are ordered as the parts in front of them. -/
theorem after_lt_after_iff {xs ys text : List Char} (hxs : xs <+: text) (hys : ys <+: text)
    (hlen : text.length < UInt32.size - 1) :
    start.after xs < start.after ys ↔ xs.length < ys.length := by
  refine ⟨fun h => ?_, after_lt_after hxs hys hlen⟩
  rcases Nat.lt_trichotomy xs.length ys.length with hlt | heq | hlt
  · exact hlt
  · have hsame := (List.prefix_of_prefix_length_le hxs hys (Nat.le_of_eq heq)).eq_of_length heq
    rw [hsame] at h
    exact absurd h (lt_irrefl _)
  · exact absurd (lt_trans h (after_lt_after hys hxs hlen hlt)) (lt_irrefl _)

theorem At.le_after {p : Position} {text cs : List Char} (h : p.At text)
    (hlen : (text ++ cs).length < UInt32.size - 1) : p ≤ p.after cs := by
  by_cases hcs : cs = []
  · rw [hcs]
    exact le_refl p
  · exact le_of_lt (h.lt_after hcs hlen)

end SpaceLang.Position
