import SpaceLang.Proofs.Source.Line
import SpaceLang.Token.Reader

/-!
# The line that a reader stands on

A reader counts lines and columns as it moves, one character at a time; `Line.ofPosition` cuts the
source at its line feeds and drops a carriage return in front of one. Both agree wherever a reader
can stand (`line_of_advanceBy`): the line that is found ends with what the reader has passed of it,
and goes on with the character to come, unless the line ends there.
-/

namespace SpaceLang

variable {pre post : List Char}

namespace Position

theorem getLast?_of_lastLine {c : Char} (h : (lastLine pre).getLast? = some c) :
    pre.getLast? = some c := by
  rw [lastLine, List.getLast?_reverse] at h
  rw [← List.head?_reverse]
  cases hreverse : pre.reverse with
  | nil => simp [hreverse] at h
  | cons d ds =>
    rw [hreverse, List.takeWhile_cons] at h
    split at h
    · exact h
    · cases h

end Position

namespace Line

open Position (lastLine)

theorem take_first (h : ¬ (pre.getLast? = some '\r' ∧ post.head? = some '\n')) :
    (first (lastLine pre ++ post)).take (lastLine pre).length = lastLine pre := by
  have hline := Position.not_mem_lastLine pre
  by_cases hpost : post.head? = some '\n'
  · obtain ⟨rest, rfl⟩ := List.head?_eq_some_iff.1 hpost
    have hreturn : (lastLine pre).getLast? ≠ some '\r' := fun hlast =>
      h ⟨Position.getLast?_of_lastLine hlast, hpost⟩
    rw [first_append_newline hline, if_neg hreturn, List.take_length]
  · rw [first_append hline hpost, List.take_left]

theorem getElem?_first (pre post : List Char) :
    (first (lastLine pre ++ post))[(lastLine pre).length]? = firstChar? post := by
  have hline := Position.not_mem_lastLine pre
  by_cases hpost : post.head? = some '\n'
  · obtain ⟨rest, rfl⟩ := List.head?_eq_some_iff.1 hpost
    have hlength : (first (lastLine pre ++ '\n' :: rest)).length ≤ (lastLine pre).length := by
      rw [first_append_newline hline]
      split
      · simp
      · exact Nat.le_refl _
    exact List.getElem?_eq_none hlength
  · rw [first_append hline hpost, List.getElem?_append_right (Nat.le_refl _), Nat.sub_self,
      ← List.head?_eq_getElem?, head?_first]

end Line

namespace Reader

variable {source : String}

theorem position_advanceBy (hsource : source.toList = pre ++ post) :
    ((ofString source).advanceBy pre.length).position = Position.start.after pre :=
  (passes_advanceBy ((rest_ofString source).trans hsource)).position_eq

/-- **The line that a reader counts is the line that is looked up.** Behind any first part of a
source that the counters can count, the line at the position of the reader has its line and its
column. The line begins with what the reader has passed behind the last line feed, unless that ends
between the two characters of a line end. At the column stands the character to come, or nothing
where the line ends. -/
theorem line_of_advanceBy (hsource : source.toList = pre ++ post)
    (hlength : source.length < UInt32.size - 1) :
    let p := ((ofString source).advanceBy pre.length).position
    let line := Line.ofPosition source p
    line.number = p.line.toNat ∧ line.column = p.column.toNat ∧ '\n' ∉ line.text.toList ∧
    (¬ (pre.getLast? = some '\r' ∧ post.head? = some '\n') →
      line.text.toList.take (line.column - 1) = Position.lastLine pre) ∧
    line.text.toList[line.column - 1]? = Line.firstChar? post := by
  have hlen : ([] ++ pre).length < UInt32.size - 1 := by
    rw [← String.length_toList, hsource, List.length_append] at hlength
    rw [List.nil_append]
    omega
  have hp : (Position.start.after pre).At pre := Position.at_start.after pre hlen
  intro p line
  have hpos : p = Position.start.after pre := position_advanceBy hsource
  have hline : line = ⟨pre.count '\n' + 1,
      String.ofList (Line.first (Position.lastLine pre ++ post)),
      (Position.lastLine pre).length + 1⟩ := Line.ofPosition_eq hsource (hpos ▸ hp)
  rw [hline, hpos]
  refine ⟨hp.1.symm, hp.2.symm, ?_, fun h => ?_, ?_⟩
  · rw [String.toList_ofList]
    exact Line.not_mem_first _
  · rw [String.toList_ofList, Nat.add_sub_cancel]
    exact Line.take_first h
  · rw [String.toList_ofList, Nat.add_sub_cancel]
    exact Line.getElem?_first pre post

/-- A carriage return that no line feed follows is a character like any other. -/
theorem line_of_advanceBy_return :
    let line := Line.ofPosition "a\nb\rc" ((ofString "a\nb\rc").advanceBy 4).position
    line.number = 2 ∧ line.column = 3 ∧ line.text.toList.take 2 = ['b', '\r'] ∧
      line.text.toList[2]? = some 'c' := by
  have hsource : "a\nb\rc".toList = ['a', '\n', 'b', '\r'] ++ ['c'] := rfl
  obtain ⟨hnumber, hcolumn, -, htake, hget⟩ := line_of_advanceBy hsource (by decide)
  rw [hcolumn] at htake hget
  exact ⟨hnumber, hcolumn, htake (by decide), hget⟩

end Reader

end SpaceLang
