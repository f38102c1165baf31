import SpaceLang.Proofs.Source.Line

/-!
# Line ends of two characters

`crlf` puts a carriage return in front of every line feed of a text. The line feed begins a new line
whatever column it stands in, so no position behind it moves (`Position.after_crlf`). The lines stay
the same (`Line.skip_crlf`, `Line.first_crlf`), except that one which ended with a carriage return
and a line feed keeps the one and ends with the two that are new.
-/

namespace SpaceLang

/-- A text with a carriage return in front of every line feed. -/
def crlf : List Char → List Char
  | [] => []
  | c :: cs => if c = '\n' then '\r' :: '\n' :: crlf cs else c :: crlf cs

variable {c : Char} {cs ds : List Char}

@[simp] theorem crlf_nil : crlf [] = [] := rfl

theorem crlf_newline : crlf ('\n' :: cs) = '\r' :: '\n' :: crlf cs := by
  rw [crlf, if_pos rfl]

theorem crlf_cons (h : c ≠ '\n') : crlf (c :: cs) = c :: crlf cs := by
  rw [crlf, if_neg h]

theorem crlf_append : crlf (cs ++ ds) = crlf cs ++ crlf ds := by
  induction cs with
  | nil => rfl
  | cons c cs ih =>
    by_cases hc : c = '\n'
    · subst hc
      rw [List.cons_append, crlf_newline, crlf_newline, ih, List.cons_append, List.cons_append]
    · rw [List.cons_append, crlf_cons hc, crlf_cons hc, ih, List.cons_append]

theorem crlf_eq_self (h : '\n' ∉ cs) : crlf cs = cs := by
  induction cs with
  | nil => rfl
  | cons c cs ih =>
    rw [List.mem_cons, not_or] at h
    rw [crlf_cons (Ne.symm h.1), ih h.2]

namespace Position

theorem next_return (p : Position) : (p.next '\r').next '\n' = p.next '\n' := rfl

theorem after_crlf (p : Position) (cs : List Char) : p.after (crlf cs) = p.after cs := by
  induction cs generalizing p with
  | nil => rfl
  | cons c cs ih =>
    by_cases hc : c = '\n'
    · subst hc
      rw [crlf_newline, after_cons, after_cons, next_return, ih, after_cons]
    · rw [crlf_cons hc, after_cons, ih, after_cons]

end Position

/-! ## Lines -/

namespace Line

theorem skip_crlf (n : Nat) (cs : List Char) : skip n (crlf cs) = crlf (skip n cs) := by
  fun_induction skip n cs with
  | case1 cs => rw [skip]
  | case2 n => rw [crlf_nil, skip]
  | case3 n cs ih =>
    rw [crlf_newline, skip, if_neg (by decide), skip, if_pos rfl, ih]
  | case4 n c cs hc ih => rw [crlf_cons hc, skip, if_neg hc, ih]

theorem first_append_return (h : '\n' ∉ cs) (ds : List Char) :
    first (cs ++ '\r' :: '\n' :: ds) = cs := by
  have hline : '\n' ∉ cs ++ ['\r'] := by simpa using h
  have hfirst := first_append_newline hline ds
  rwa [List.getLast?_concat, if_pos rfl, List.dropLast_concat, List.append_assoc] at hfirst

/-- A line stays as it is, or it keeps a carriage return that was a part of its end. -/
theorem first_crlf (cs : List Char) :
    first (crlf cs) = first cs ∨ first (crlf cs) = first cs ++ ['\r'] := by
  by_cases h : '\n' ∈ cs
  · obtain ⟨body, rest, rfl, hbody⟩ := List.eq_append_cons_of_mem h
    have hline := takeWhile_eq_first (body ++ '\n' :: rest)
    rw [Position.takeWhile_append hbody] at hline
    rw [crlf_append, crlf_newline, crlf_eq_self hbody, first_append_return hbody]
    simpa using hline
  · rw [crlf_eq_self h]
    exact .inl rfl

end Line

end SpaceLang
