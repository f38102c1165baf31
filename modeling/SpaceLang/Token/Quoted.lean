/-!
# String literals

A string literal is a body between double quotes. In the body a backslash and the character after it
stand together, so that an escaped quote closes nothing. `body?` finds the body of the literal that
a text begins with, and `unescape` gives the text that a body stands for: three letters after a
backslash stand for line ends and the tab, any other character for itself.
-/

namespace SpaceLang.Quoted

/-- The body of a literal, given what follows its opening quote. There is none if the text ends
before a closing quote, also when it ends with a backslash. -/
def body? : List Char → Option (List Char)
  | [] => none
  | '"' :: _ => some []
  | ['\\'] => none
  | '\\' :: c :: cs => (body? cs).map (fun body => '\\' :: c :: body)
  | c :: cs => (body? cs).map (fun body => c :: body)

/-- What a backslash and the character `c` stand for. -/
def escaped (c : Char) : Char :=
  if c = 'n' then '\n' else if c = 'r' then '\r' else if c = 't' then '\t' else c

/-- The text that a body stands for. -/
def unescape : List Char → List Char
  | [] => []
  | ['\\'] => []
  | '\\' :: c :: cs => escaped c :: unescape cs
  | c :: cs => c :: unescape cs

/-- A literal begins with its body and a closing quote. -/
theorem eq_append_of_body? {cs body : List Char} (h : body? cs = some body) :
    ∃ rest, cs = body ++ '"' :: rest := by
  fun_induction body? cs generalizing body with
  | case1 => simp at h
  | case2 rest => exact ⟨rest, by simp_all⟩
  | case3 => simp at h
  | case4 c cs ih =>
    obtain ⟨b, hb, rfl⟩ := Option.map_eq_some_iff.1 h
    obtain ⟨rest, rfl⟩ := ih hb
    exact ⟨rest, rfl⟩
  | case5 c cs _ _ _ ih =>
    obtain ⟨b, hb, rfl⟩ := Option.map_eq_some_iff.1 h
    obtain ⟨rest, rfl⟩ := ih hb
    exact ⟨rest, rfl⟩

end SpaceLang.Quoted
