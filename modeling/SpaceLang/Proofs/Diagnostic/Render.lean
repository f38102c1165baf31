import SpaceLang.Proofs.Diagnostic.OneLine
import SpaceLang.Proofs.Source.Line
import SpaceLang.Proofs.Token.Mode

/-!
# A drawing points at the character at fault

No token begins with white space, so a diagnostic stands at a character that can be seen, or at the
end of the source (`Module.isVisible_of_error`). Such a character is on the line that the drawing
shows, and it is neither among the spaces left out in front nor in the white space left out at the
end. So the arrow, shortened by the spaces in front, ends below it (`Diagnostic.render_points`).
-/

namespace SpaceLang

open Unicode (isWhiteSpace)
open Position (lastLine)

/-! ## Where diagnostics stand -/

namespace Position

/-- Whether `p` is the place of a character that is no white space, or the end, in a text that
begins at `q`. -/
def IsVisible (p q : Position) (text : List Char) : Prop :=
  ∃ before rest, text = before ++ rest ∧ p = q.after before ∧ ∀ c ∈ rest.head?, ¬ isWhiteSpace c

theorem IsVisible.append_left {p q : Position} {text : List Char} (front : List Char)
    (h : p.IsVisible (q.after front) text) : p.IsVisible q (front ++ text) := by
  obtain ⟨before, rest, rfl, rfl, hrest⟩ := h
  exact ⟨front ++ before, rest, (List.append_assoc ..).symm, (after_append ..).symm, hrest⟩

end Position

theorem Token.isVisible_of_scan {p : Position} {text : List Char} {ts : List Token}
    (h : scan p text = .ok ts) : ∀ t ∈ ts, t.position.IsVisible p text := by
  refine scan_induct (motive := fun p text ts => ∀ t ∈ ts, t.position.IsVisible p text) ?_ ?_ h
  · intro p gap _ t ht
    obtain rfl := List.mem_singleton.1 ht
    exact ⟨gap, [], (List.append_nil _).symm, rfl, by simp⟩
  · intro p gap lexeme rest kind value ts _ hstart _ ih t ht
    rcases List.mem_cons.1 ht with rfl | ht
    · refine ⟨gap, lexeme ++ rest, rfl, rfl, fun c hc hspace => ?_⟩
      exact hstart (.inl ⟨c, hc, hspace⟩)
    · exact ((ih t ht).append_left lexeme).append_left gap

/-- The diagnostic of a source stands where it can be seen, or at the end, and is told on one
line. -/
theorem Module.isVisible_of_error {source : String} {e : Diagnostic}
    (h : ofSource source = .error e) :
    e.position.IsVisible .start source.toList ∧ e.cause.IsOneLine := by
  rcases Token.ofSource_agrees source with ⟨⟨ts, hts⟩, -⟩ | ⟨before, behind, htext, herror, -⟩
  · rw [ofSource_of_ok hts] at h
    obtain ⟨d, hd⟩ := ofTokens_eq_error.1 h
    rw [Token.ofSource_eq_scan] at hts
    obtain ⟨us, q, rfl, -⟩ := Token.exists_lexical_of_scan hts
    obtain ⟨hlist, hposition, habout⟩ := Rule.isWithin_spaceDecl hd
    rw [Cursor.toList_ofTokens_concat] at hlist
    have hcurrent := d.current_mem_toList
    rw [hlist] at hcurrent habout
    refine ⟨?_, habout.isOneLine hcurrent (Token.isOneLine_describe_of_scan hts)⟩
    rw [hposition]
    exact Token.isVisible_of_scan hts _ hcurrent
  · rw [ofSource_of_error herror] at h
    cases h
    refine ⟨⟨before, _, htext, rfl, ?_⟩, Cause.isOneLine_unterminatedString⟩
    rintro _ ⟨⟩
    decide

/-! ## Parts of a drawing -/

namespace Diagnostic

variable {before rest xs ys : List Char} {c : Char}

theorem takeWhile_space_eq_nil (h : ys.head? ≠ some ' ') : ys.takeWhile (· = ' ') = [] := by
  cases ys with
  | nil => rfl
  | cons c ys =>
    apply List.takeWhile_cons_of_neg
    intro hc
    exact h (congrArg some (of_decide_eq_true hc))

theorem indent_append_le (hys : ys.head? ≠ some ' ') : indent (xs ++ ys) ≤ xs.length := by
  rw [indent, List.takeWhile_append]
  split
  · rw [takeWhile_space_eq_nil hys, List.append_nil]
  · exact (List.takeWhile_prefix _).length_le

theorem exists_eq_replicate_indent (line : List Char) :
    ∃ tail, line = List.replicate (indent line) ' ' ++ tail ∧ tail.head? ≠ some ' ' := by
  have hall : ∀ c ∈ line.takeWhile (· = ' '), c = ' ' := fun c hc =>
    of_decide_eq_true (List.all_eq_true.1 List.all_takeWhile c hc)
  refine ⟨line.dropWhile (· = ' '), ?_, fun hhead => ?_⟩
  · rw [indent, ← List.eq_replicate_of_mem hall, List.takeWhile_append_dropWhile]
  · have hnot := List.head?_dropWhile_not (fun c => decide (c = ' ')) line
    rw [hhead] at hnot
    exact absurd hnot (by decide)

theorem indent_replicate_append {n : Nat} (h : ys.head? ≠ some ' ') :
    indent (List.replicate n ' ' ++ ys) = n := by
  rw [indent, List.takeWhile_append_of_pos (by simp), takeWhile_space_eq_nil h, List.append_nil,
    List.length_replicate]

theorem indent_append_return (line : List Char) : indent (line ++ ['\r']) = indent line := by
  have hreturn : ['\r'].takeWhile (· = ' ') = [] := rfl
  rw [indent, indent, List.takeWhile_append, hreturn, List.append_nil]
  split
  · next hall => rw [(List.takeWhile_prefix _).eq_of_length hall]
  · rfl

theorem indent_first (cs : List Char) :
    indent (Line.first cs) = indent (cs.takeWhile (· ≠ '\n')) := by
  rcases Line.takeWhile_eq_first cs with h | h
  · rw [h]
  · rw [h, indent_append_return]

theorem trimEnd_append_return (line : List Char) : trimEnd (line ++ ['\r']) = trimEnd line := by
  have hspace : isWhiteSpace '\r' := by decide
  rw [trimEnd, List.reverse_append, List.reverse_singleton, List.singleton_append,
    List.dropWhile_cons_of_pos hspace]
  rfl

theorem mem_of_mem_trimEnd (h : c ∈ trimEnd xs) : c ∈ xs := by
  have hmem := (List.dropWhile_suffix _).subset (List.mem_reverse.1 h)
  exact List.mem_reverse.1 hmem

theorem trimEnd_append_cons (hc : ¬ isWhiteSpace c) :
    trimEnd (xs ++ c :: ys) = xs ++ c :: trimEnd ys := by
  have hreverse : (xs ++ c :: ys).reverse = ys.reverse ++ c :: xs.reverse := by simp
  rw [trimEnd, trimEnd, hreverse, List.dropWhile_append, List.dropWhile_cons_of_neg hc]
  split
  · next hnil =>
    rw [List.isEmpty_iff.1 hnil]
    simp
  · simp

/-! ### The line at fault -/

theorem indent_first_lastLine_append (before rest : List Char) :
    indent (Line.first (lastLine before ++ rest)) =
      indent (lastLine before ++ rest.takeWhile (· ≠ '\n')) := by
  rw [indent_first, Position.takeWhile_append (Position.not_mem_lastLine before)]

section

variable (hrest : ∀ c ∈ rest.head?, ¬ isWhiteSpace c)

include hrest

theorem first_lastLine_append :
    Line.first (lastLine before ++ rest) = lastLine before ++ Line.first rest := by
  apply Line.first_append (Position.not_mem_lastLine before)
  intro hc
  exact hrest '\n' hc (by decide)

theorem indent_le (before : List Char) :
    indent (lastLine before ++ rest.takeWhile (· ≠ '\n')) ≤ (lastLine before).length := by
  apply indent_append_le
  cases rest with
  | nil => simp
  | cons c cs =>
    have hc : c ≠ '\n' := by
      rintro rfl
      exact hrest '\n' rfl (by decide)
    rw [List.takeWhile_cons_of_pos (p := (· ≠ '\n')) (decide_eq_true hc)]
    intro heq
    exact hrest ' ' heq (by decide)

theorem getElem?_trimEnd_drop (h : c ∈ rest.head?) {n : Nat} (hn : n ≤ (lastLine before).length) :
    (trimEnd ((Line.first (lastLine before ++ rest)).drop n))[(lastLine before).length - n]? =
      some c := by
  obtain ⟨cs, rfl⟩ := List.head?_eq_some_iff.1 h
  have hc := hrest c rfl
  obtain ⟨tail, htail⟩ : ∃ tail, Line.first (c :: cs) = c :: tail := by
    apply Line.exists_first_cons
    · rintro rfl
      exact hc (by decide)
    · rintro rfl
      exact hc (by decide)
  have hlength : ((lastLine before).drop n).length = (lastLine before).length - n :=
    List.length_drop
  rw [first_lastLine_append hrest, htail, List.drop_append_of_le_length hn,
    trimEnd_append_cons hc, ← hlength, List.getElem?_append_right (Nat.le_refl _), Nat.sub_self]
  rfl

end

/-! ### The five lines -/

/-- The third line. -/
def barLine (number : List Char) : List Char :=
  List.replicate (number.length + 1) ' ' ++ ['|']

/-- The fourth line, for the line at fault. -/
def textLine (number line : List Char) : List Char :=
  number ++ [' ', '|', ' '] ++ trimEnd (line.drop (indent line))

/-- The fifth line. -/
def arrowLine (number : List Char) (length : Nat) : List Char :=
  List.replicate (number.length + 1) ' ' ++ ['|', ' '] ++ List.replicate length '-' ++ ['^']

/-- A drawing, for a place behind the text `before`. -/
theorem toList_render {e : Diagnostic} {source : String} (hsource : source.toList = before ++ rest)
    (hp : e.position.At before) (file : Option String) :
    let line := Line.first (lastLine before ++ rest)
    let number := Nat.toDigits 10 e.position.line.toNat
    (e.render source file).toList = ['\n'].intercalate
      [e.headline.toList, ("-> " ++ file.getD defaultFile).toList, barLine number,
        textLine number line, arrowLine number ((lastLine before).length - indent line)] := by
  have hnumber : (toString e.position.line.toNat).toList =
      Nat.toDigits 10 e.position.line.toNat := by
    rw [Nat.toString_eq_ofList_toDigits, String.toList_ofList]
  have hlength : (toString e.position.line.toNat).length =
      (Nat.toDigits 10 e.position.line.toNat).length := by
    rw [← String.length_toList, hnumber]
  have harrow : ∀ m n : Nat, m + 1 - n - 1 = m - n := by omega
  intro line number
  rw [render, String.toList_intercalate, Line.ofPosition_eq hsource hp, ← hp.1]
  simp only [List.map_cons, List.map_nil, bar, arrow, String.toList_append, String.toList_ofList,
    hnumber, hlength, harrow]
  simp [barLine, textLine, arrowLine, line, number]

theorem not_mem_lines {e : Diagnostic} {file : Option String} {l line : List Char} {n length : Nat}
    (h : e.cause.IsOneLine) (hfile : ∀ name ∈ file, '\n' ∉ name.toList) (hline : '\n' ∉ line)
    (hl : l ∈ [e.headline.toList, ("-> " ++ file.getD defaultFile).toList,
      barLine (Nat.toDigits 10 n), textLine (Nat.toDigits 10 n) line,
      arrowLine (Nat.toDigits 10 n) length]) : '\n' ∉ l := by
  have hname : '\n' ∉ (file.getD defaultFile).toList := by
    cases file with
    | none => decide
    | some name => exact hfile name rfl
  have hnumber : '\n' ∉ Nat.toDigits 10 n := by
    intro hmem
    exact absurd (Nat.isDigit_of_mem_toDigits (by decide) (by decide) hmem) (by decide)
  simp only [List.mem_cons, List.not_mem_nil, or_false] at hl
  rcases hl with rfl | rfl | rfl | rfl | rfl
  · exact (isOneLine_headline h).not_mem
  · rw [String.toList_append, List.mem_append, not_or]
    exact ⟨by decide, hname⟩
  · simp [barLine]
  · rw [textLine, List.mem_append, List.mem_append, not_or, not_or]
    exact ⟨⟨hnumber, by decide⟩, fun hmem => hline (List.mem_of_mem_drop (mem_of_mem_trimEnd hmem))⟩
  · simp [arrowLine]

/-- The lines of a drawing that is told on one line. -/
theorem splitOn_render {e : Diagnostic} {source : String} {file : Option String}
    (hsource : source.toList = before ++ rest) (hp : e.position.At before) (h : e.cause.IsOneLine)
    (hfile : ∀ name ∈ file, '\n' ∉ name.toList) :
    let line := Line.first (lastLine before ++ rest)
    let number := Nat.toDigits 10 e.position.line.toNat
    (e.render source file).toList.splitOn '\n' =
      [e.headline.toList, ("-> " ++ file.getD defaultFile).toList, barLine number,
        textLine number line, arrowLine number ((lastLine before).length - indent line)] := by
  intro line number
  rw [toList_render hsource hp file]
  apply List.splitOn_intercalate
  · exact fun l => not_mem_lines h hfile (Line.not_mem_first _)
  · exact List.cons_ne_nil _ _

theorem getElem?_bar {number line l : List Char} {length : Nat}
    (hl : l ∈ [barLine number, textLine number line, arrowLine number length]) :
    l[number.length + 1]? = some '|' := by
  simp only [List.mem_cons, List.not_mem_nil, or_false] at hl
  rcases hl with rfl | rfl | rfl
  · simp [barLine]
  · rw [textLine, List.append_assoc, List.getElem?_append_right (by omega), Nat.add_sub_cancel_left]
    rfl
  · rw [arrowLine, List.append_assoc, List.append_assoc, List.getElem?_append_right (by simp),
      List.length_replicate, Nat.sub_self]
    rfl

theorem getElem?_arrowLine_iff {number : List Char} {length i : Nat} :
    (arrowLine number length)[i]? = some '^' ↔ i = number.length + 3 + length := by
  have hshaft : '^' ∉ List.replicate (number.length + 1) ' ' ++ ['|', ' '] ++
      List.replicate length '-' := by
    simp
  have hlength : (List.replicate (number.length + 1) ' ' ++ ['|', ' '] ++
      List.replicate length '-').length = number.length + 3 + length := by
    simp only [List.length_append, List.length_replicate, List.length_cons, List.length_nil]
  rw [arrowLine, ← hlength]
  generalize List.replicate (number.length + 1) ' ' ++ ['|', ' '] ++
    List.replicate length '-' = shaft at hshaft
  by_cases hi : i < shaft.length
  · rw [List.getElem?_append_left hi]
    constructor
    · intro heq
      exact absurd (List.mem_of_getElem? heq) hshaft
    · intro heq
      omega
  · rw [List.getElem?_append_right (by omega), List.getElem?_singleton]
    constructor
    · intro heq
      split at heq
      · omega
      · cases heq
    · intro heq
      rw [if_pos (by omega)]

/-- **The arrow ends below the character at fault.** A diagnostic on a source is drawn in five
lines. The bars of the last three stand one below the other, behind the line number, which the
fourth line begins with. The tip of the arrow in the last line stands as far to the right as the
column at fault, less the spaces that the line at fault begins with, and above it stands the
character at fault, unless the source ends there. -/
theorem render_points {source : String} {e : Diagnostic} {file : Option String}
    (hlen : source.length < UInt32.size - 1) (h : Module.ofSource source = .error e)
    (hfile : ∀ name ∈ file, '\n' ∉ name.toList) :
    ∃ before rest, source.toList = before ++ rest ∧ e.position.At before ∧
    ∃ spaces tail, lastLine before ++ rest.takeWhile (· ≠ '\n') =
        List.replicate spaces ' ' ++ tail ∧ tail.head? ≠ some ' ' ∧
    ∃ l₁ l₂ l₃ l₄ l₅, (e.render source file).toList.splitOn '\n' = [l₁, l₂, l₃, l₄, l₅] ∧
      let number := Nat.toDigits 10 e.position.line.toNat
      let tip := number.length + 3 + (e.position.column.toNat - 1 - spaces)
      (∀ l ∈ [l₃, l₄, l₅], l[number.length + 1]? = some '|') ∧ number <+: l₄ ∧
      spaces ≤ e.position.column.toNat - 1 ∧ (∀ i, l₅[i]? = some '^' ↔ i = tip) ∧
      ∀ c ∈ rest.head?, l₄[tip]? = some c := by
  obtain ⟨⟨before, rest, hsource, hposition, hrest⟩, honeLine⟩ := Module.isVisible_of_error h
  have hat : e.position.At before := by
    have hlength := congrArg List.length hsource
    rw [String.length_toList, List.length_append] at hlength
    rw [hposition]
    exact Position.at_start.after before (by rw [List.nil_append]; omega)
  have hcolumn : e.position.column.toNat - 1 = (lastLine before).length := by
    rw [hat.2, Nat.add_sub_cancel]
  have hspaces := indent_first_lastLine_append before rest
  have hle := indent_le hrest before
  obtain ⟨tail, hline, htail⟩ :=
    exists_eq_replicate_indent (lastLine before ++ rest.takeWhile (· ≠ '\n'))
  have hsplit := splitOn_render hsource hat honeLine hfile
  refine ⟨before, rest, hsource, hat, _, tail, hline, htail, _, _, _, _, _, hsplit,
    fun l => getElem?_bar, ?_, hcolumn ▸ hle, fun i => ?_, fun c hc => ?_⟩
  · rw [textLine, List.append_assoc]
    exact List.prefix_append _ _
  · rw [hcolumn, hspaces]
    exact getElem?_arrowLine_iff
  · have hprefix : ∀ n : List Char, (n ++ [' ', '|', ' ']).length = n.length + 3 := by simp
    rw [hcolumn, textLine, hspaces, ← hprefix, List.getElem?_append_right (Nat.le_add_right _ _),
      Nat.add_sub_cancel_left]
    exact getElem?_trimEnd_drop hrest hc hle

/-- An operator behind two spaces on the second line of a source without a space. The arrow ends
at index 4, below the operator. -/
theorem render_points_operator :
    let e : Diagnostic := ⟨.expectedSpaceDeclaration "`+`", ⟨2, 3⟩⟩
    "\n  + 1".length < UInt32.size - 1 ∧ Module.ofSource "\n  + 1" = .error e ∧
    (∀ name ∈ some "main.sp", '\n' ∉ name.toList) ∧
    ∃ l₁ l₂ l₃ l₄ l₅, (e.render "\n  + 1" (some "main.sp")).toList.splitOn '\n' =
        [l₁, l₂, l₃, l₄, l₅] ∧
      (∀ l ∈ [l₃, l₄, l₅], l[2]? = some '|') ∧ ['2'] <+: l₄ ∧
      (∀ i : Nat, l₅[i]? = some '^' ↔ i = 4) ∧ l₄[4]? = some '+' := by
  have hlen : "\n  + 1".length < UInt32.size - 1 := by decide
  have herror : Module.ofSource "\n  + 1" =
      .error ⟨.expectedSpaceDeclaration "`+`", ⟨2, 3⟩⟩ := by
    rw [Module.ofSource, Token.ofSource_eq_scan]
    cbv
  have hfile : ∀ name ∈ some "main.sp", '\n' ∉ name.toList := by
    rintro _ ⟨⟩
    decide
  obtain ⟨before, rest, hsource, hat, spaces, tail, hline, htail, l₁, l₂, l₃, l₄, l₅, hsplit, hbars,
    hnumber, -, htip, hchar⟩ := render_points hlen herror hfile
  -- the position fixes the place, and the line fixes its spaces
  have hplace : before = ['\n', ' ', ' '] := by
    have hprefix : before <+: "\n  + 1".toList := ⟨rest, hsource.symm⟩
    have hafter : (Position.start.after before).At before :=
      Position.at_start.after before (Nat.lt_of_le_of_lt hprefix.length_le (by decide))
    exact Position.after_inj hprefix ⟨['+', ' ', '1'], rfl⟩ (by decide) (hafter.unique hat)
  subst hplace
  obtain rfl : rest = ['+', ' ', '1'] := List.append_cancel_left hsource.symm
  have hspaces : spaces = 2 := by
    rw [← indent_replicate_append (n := spaces) htail, ← hline]
    rfl
  subst hspaces
  exact ⟨hlen, herror, hfile, l₁, l₂, l₃, l₄, l₅, hsplit, hbars, hnumber, htip, hchar '+' rfl⟩

end Diagnostic

end SpaceLang
