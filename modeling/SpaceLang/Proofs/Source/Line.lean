import Mathlib.Data.List.TakeWhile
import SpaceLang.Proofs.Source.Place
import SpaceLang.Source.Line

/-!
# The line of a place

For a place in a text, `Line.ofPosition` finds the line that the place is on, which is what stands
behind the last line feed before it and what follows up to the next one, and gives back the column
(`Line.ofPosition_eq`). Where no line feed follows at once, the line is the text before the place
with what the rest begins with behind it (`Line.first_append`).
-/

namespace SpaceLang

namespace Position

variable {text : List Char}

theorem not_mem_takeWhile (text : List Char) : '\n' ∉ text.takeWhile (· ≠ '\n') := by
  intro h
  simpa using List.mem_takeWhile_imp h

theorem takeWhile_append {front : List Char} (h : '\n' ∉ front) (text : List Char) :
    (front ++ text).takeWhile (· ≠ '\n') = front ++ text.takeWhile (· ≠ '\n') := by
  apply List.takeWhile_append_of_pos
  intro c hc
  apply decide_eq_true
  rintro rfl
  exact h hc

theorem not_mem_lastLine (text : List Char) : '\n' ∉ lastLine text :=
  fun h => not_mem_takeWhile text.reverse (List.mem_reverse.1 h)

theorem lastLine_eq_self (h : '\n' ∉ text) : lastLine text = text := by
  have hall : ∀ c ∈ text.reverse, decide (c ≠ '\n') := by
    intro c hc
    apply decide_eq_true
    rintro rfl
    exact h (List.mem_reverse.1 hc)
  rw [lastLine, List.takeWhile_eq_self_iff.2 hall, List.reverse_reverse]

theorem lastLine_append_newline_append (front text : List Char) :
    lastLine (front ++ '\n' :: text) = lastLine text := by
  have hnewline : ('\n' :: front.reverse).takeWhile (fun c => decide (c ≠ '\n')) = [] := rfl
  have hreverse : (front ++ '\n' :: text).reverse = text.reverse ++ '\n' :: front.reverse := by
    simp
  rw [lastLine, lastLine, hreverse, List.takeWhile_append, hnewline, List.append_nil]
  by_cases h : (text.reverse.takeWhile fun c => decide (c ≠ '\n')).length = text.reverse.length
  · rw [if_pos h, (List.takeWhile_prefix _).eq_of_length h]
  · rw [if_neg h]

theorem lastLine_append_of_mem (front : List Char) (h : '\n' ∈ text) :
    lastLine (front ++ text) = lastLine text := by
  obtain ⟨xs, ys, rfl⟩ := List.append_of_mem h
  rw [← List.append_assoc, lastLine_append_newline_append, lastLine_append_newline_append]

theorem lastLine_append_of_not_mem (front : List Char) (h : '\n' ∉ text) :
    lastLine (front ++ text) = lastLine front ++ text := by
  have hreverse : '\n' ∉ text.reverse := fun hmem => h (List.mem_reverse.1 hmem)
  rw [lastLine, List.reverse_append, takeWhile_append hreverse, List.reverse_append,
    List.reverse_reverse]
  rfl

end Position

namespace Line

open Position (lastLine At)

variable {before rest xs ys : List Char} {c : Char}

theorem skip_count (before rest : List Char) :
    skip (before.count '\n') (before ++ rest) = lastLine before ++ rest := by
  induction before with
  | nil => simp [skip, lastLine]
  | cons c before ih =>
    by_cases hc : c = '\n'
    · subst hc
      have hlast := Position.lastLine_append_newline_append [] before
      rw [List.nil_append] at hlast
      rw [List.count_cons_self, List.cons_append, skip, if_pos rfl, ih, hlast]
    · rw [List.count_cons_of_ne hc]
      by_cases hmem : '\n' ∈ before
      · obtain ⟨front, back, rfl⟩ := List.append_of_mem hmem
        have hlast : lastLine (c :: (front ++ '\n' :: back)) =
            lastLine (front ++ '\n' :: back) := by
          rw [← List.cons_append, Position.lastLine_append_newline_append,
            Position.lastLine_append_newline_append]
        obtain ⟨n, hn⟩ := Nat.exists_eq_succ_of_ne_zero
          (Nat.ne_of_gt (List.count_pos_iff.2 hmem))
        rw [hn] at ih ⊢
        rw [List.cons_append, skip, if_neg hc, ih, hlast]
      · have hline : lastLine (c :: before) = c :: before := by
          apply Position.lastLine_eq_self
          rw [List.mem_cons, not_or]
          exact ⟨fun h => hc h.symm, hmem⟩
        rw [List.count_eq_zero_of_not_mem hmem, skip, hline]

/-- The line at a place of a source, with the column of the place. -/
theorem ofPosition_eq {source : String} {p : Position} (hsource : source.toList = before ++ rest)
    (hp : p.At before) : ofPosition source p =
      ⟨before.count '\n' + 1, String.ofList (first (lastLine before ++ rest)),
        (lastLine before).length + 1⟩ := by
  have hline : max p.line.toNat 1 = before.count '\n' + 1 := by rw [hp.1]; omega
  have hcolumn : max p.column.toNat 1 = (lastLine before).length + 1 := by rw [hp.2]; omega
  rw [ofPosition]
  simp only [hline, hcolumn, Nat.add_sub_cancel, hsource, skip_count]

/-! ## The end of a line -/

theorem first_eq (cs : List Char) : first cs =
    if (cs.takeWhile (· ≠ '\n')).length < cs.length ∧
        (cs.takeWhile (· ≠ '\n')).getLast? = some '\r' then
      (cs.takeWhile (· ≠ '\n')).dropLast
    else cs.takeWhile (· ≠ '\n') := by
  have hbody : cs.takeWhile (· ≠ '\n') = cs.takeWhile (· != '\n') := by
    congr 1
    funext c
    rw [Bool.eq_iff_iff, decide_eq_true_eq, bne_iff_ne]
  rw [hbody]
  rfl

theorem takeWhile_eq_first (cs : List Char) :
    cs.takeWhile (· ≠ '\n') = first cs ∨ cs.takeWhile (· ≠ '\n') = first cs ++ ['\r'] := by
  rw [first_eq]
  split
  · next h =>
    obtain ⟨front, hfront⟩ := List.getLast?_eq_some_iff.1 h.2
    right
    rw [hfront, List.dropLast_concat]
  · left
    rfl

theorem not_mem_first (cs : List Char) : '\n' ∉ first cs := by
  have hnot := Position.not_mem_takeWhile cs
  rcases takeWhile_eq_first cs with h | h
  · rwa [h] at hnot
  · rw [h] at hnot
    exact fun hmem => hnot (List.mem_append_left _ hmem)

theorem first_append (hxs : '\n' ∉ xs) (hys : ys.head? ≠ some '\n') :
    first (xs ++ ys) = xs ++ first ys := by
  rw [first_eq, first_eq, Position.takeWhile_append hxs]
  cases ys with
  | nil => simp
  | cons c ys =>
    have hc : c ≠ '\n' := by
      rintro rfl
      exact hys rfl
    rw [List.takeWhile_cons_of_pos (p := (· ≠ '\n')) (decide_eq_true hc)]
    generalize hbody : c :: ys.takeWhile (· ≠ '\n') = body
    have hne : body ≠ [] := by
      rw [← hbody]
      exact List.cons_ne_nil _ _
    -- the last character of the line is not one of those in front
    have hlast : (xs ++ body).getLast? = body.getLast? := by
      rw [List.getLast?_append, List.getLast?_eq_some_getLast hne, Option.some_or]
    have hshort : (xs ++ body).length < (xs ++ c :: ys).length ↔
        body.length < (c :: ys).length := by
      rw [List.length_append, List.length_append, Nat.add_lt_add_iff_left]
    by_cases h : body.length < (c :: ys).length ∧ body.getLast? = some '\r'
    · rw [if_pos h, if_pos ⟨hshort.2 h.1, hlast.trans h.2⟩, List.dropLast_append_of_ne_nil hne]
    · rw [if_neg h, if_neg fun h' => h ⟨hshort.1 h'.1, hlast.symm.trans h'.2⟩]

/-- The first character of the line that a text begins with. There is none where the line ends at
once. -/
def firstChar? : List Char → Option Char
  | [] => none
  | '\n' :: _ => none
  | '\r' :: '\n' :: _ => none
  | c :: _ => some c

theorem head?_first (cs : List Char) : (first cs).head? = firstChar? cs := by
  fun_cases firstChar? cs with
  | case1 => rfl
  | case2 cs => simp [first]
  | case3 cs => simp [first]
  | case4 c cs hc hreturn =>
    have hline : (c :: cs).takeWhile (· ≠ '\n') = c :: cs.takeWhile (· ≠ '\n') :=
      List.takeWhile_cons_of_pos (decide_eq_true hc)
    rw [first_eq, hline]
    split
    · next h =>
      cases hbody : cs.takeWhile (· ≠ '\n') with
      | cons d ds => rfl
      | nil =>
        -- the line is a carriage return, which only a line feed may follow
        rw [hbody] at h
        cases cs with
        | nil => exact absurd h.1 (Nat.lt_irrefl _)
        | cons d ds =>
          have hd : d = '\n' := by
            refine Decidable.byContradiction fun hne => ?_
            rw [List.takeWhile_cons_of_pos (p := (· ≠ '\n')) (decide_eq_true hne)] at hbody
            cases hbody
          exact absurd (hd ▸ rfl) (hreturn ds (Option.some.inj h.2))
    · rfl

theorem exists_first_cons (hc : c ≠ '\n') (hreturn : c ≠ '\r') (cs : List Char) :
    ∃ tail, first (c :: cs) = c :: tail := by
  apply List.head?_eq_some_iff.1
  rw [head?_first, firstChar?]
  · exact hc
  · exact fun _ h => absurd h hreturn

/-- What stands on a line in front of its end is all of the line, except for a carriage return that
belongs to the end. -/
theorem first_append_newline (hxs : '\n' ∉ xs) (ys : List Char) :
    first (xs ++ '\n' :: ys) = if xs.getLast? = some '\r' then xs.dropLast else xs := by
  have hbody : (xs ++ '\n' :: ys).takeWhile (· ≠ '\n') = xs := by
    rw [Position.takeWhile_append hxs, List.takeWhile_cons_of_neg (by simp), List.append_nil]
  have hlength : xs.length < (xs ++ '\n' :: ys).length := by
    simp only [List.length_append, List.length_cons]
    omega
  rw [first_eq, hbody]
  simp only [hlength, true_and]

end Line

end SpaceLang
