import SpaceLang.Proofs.Token.Scan

/-!
# Lexemes

A lexeme is what one token is written as. `IsLexeme rest lexeme kind value` says which token a
lexeme in front of `rest` is: a word or a number ends only where it could not go on, an operator of
one character only where none of two begins, and the value of a string literal is what its body
stands for, by the relation `Quoted.IsBody`. Where no layout begins, the lexeme in front and the
first piece are the same (`IsLexeme.first?`, `exists_lexeme_of_first?`), so a scan puts the token of
the lexeme in front of what follows (`Token.scan_lexeme`) and succeeds in no other way
(`Token.exists_lexeme_of_scan`).
-/

namespace SpaceLang

open Unicode (isWhiteSpace)
open Piece (isWordStart isWordPart first? mark)

/-! ## Bodies of string literals -/

namespace Quoted

/-- A text is read character by character, and behind a backslash two at a time. -/
theorem escape_induct {motive : List Char → Prop} (nil : motive []) (backslash : motive ['\\'])
    (escape : ∀ c cs, motive cs → motive ('\\' :: c :: cs))
    (plain : ∀ c cs, c ≠ '\\' → motive cs → motive (c :: cs)) (cs : List Char) : motive cs := by
  fun_induction unescape cs with
  | case1 => exact nil
  | case2 => exact backslash
  | case3 c cs ih => exact escape c cs ih
  | case4 c cs hlast hpair ih =>
    refine plain c cs ?_ ih
    rintro rfl
    cases cs with
    | nil => exact hlast rfl rfl
    | cons d ds => exact hpair d ds rfl rfl

theorem body?_escape {c : Char} {cs : List Char} :
    body? ('\\' :: c :: cs) = (body? cs).map fun body => '\\' :: c :: body := by
  rw [body?]

theorem body?_plain {c : Char} {cs : List Char} (hquote : c ≠ '"') (hback : c ≠ '\\') :
    body? (c :: cs) = (body? cs).map fun body => c :: body := by
  rw [body?]
  · exact hquote
  · exact fun h => absurd h hback
  · exact fun _ _ h => absurd h hback

theorem unescape_plain {c : Char} {cs : List Char} (h : c ≠ '\\') :
    unescape (c :: cs) = c :: unescape cs := by
  rw [unescape]
  · exact fun h' => absurd h' h
  · exact fun _ _ h' => absurd h' h

/-- What may stand between the quotes of a literal, and the text that it stands for. -/
inductive IsBody : List Char → List Char → Prop
  | nil : IsBody [] []
  | plain {c : Char} {raw value : List Char} : c ≠ '"' → c ≠ '\\' → IsBody raw value →
      IsBody (c :: raw) (c :: value)
  | lineFeed {raw value : List Char} : IsBody raw value →
      IsBody ('\\' :: 'n' :: raw) ('\n' :: value)
  | carriageReturn {raw value : List Char} : IsBody raw value →
      IsBody ('\\' :: 'r' :: raw) ('\r' :: value)
  | tab {raw value : List Char} : IsBody raw value → IsBody ('\\' :: 't' :: raw) ('\t' :: value)
  | other {c : Char} {raw value : List Char} : c ≠ 'n' → c ≠ 'r' → c ≠ 't' → IsBody raw value →
      IsBody ('\\' :: c :: raw) (c :: value)

variable {raw value rest cs : List Char}

theorem IsBody.escaped (c : Char) (h : IsBody raw value) :
    IsBody ('\\' :: c :: raw) (escaped c :: value) := by
  unfold Quoted.escaped
  split
  · next hn =>
    subst hn
    exact .lineFeed h
  split
  · next hr =>
    subst hr
    exact .carriageReturn h
  split
  · next ht =>
    subst ht
    exact .tab h
  · next hn hr ht => exact .other hn hr ht h

theorem IsBody.body? (h : IsBody raw value) : body? (raw ++ '"' :: rest) = some raw := by
  induction h with
  | nil => rfl
  | plain hquote hback _ ih => simp [Quoted.body?, hback, ih]
  | lineFeed _ ih | carriageReturn _ ih | tab _ ih | other _ _ _ _ ih => simp [Quoted.body?, ih]

theorem IsBody.unescape (h : IsBody raw value) : unescape raw = value := by
  induction h with
  | nil => rfl
  | plain _ hback _ ih => simp [Quoted.unescape, hback, ih]
  | lineFeed _ ih | carriageReturn _ ih | tab _ ih => simp [Quoted.unescape, Quoted.escaped, ih]
  | other hn hr ht _ ih => simp [Quoted.unescape, Quoted.escaped, hn, hr, ht, ih]

theorem isBody_of_body? (h : body? cs = some raw) : ∃ value, IsBody raw value := by
  induction cs using escape_induct generalizing raw with
  | nil => cases h
  | backslash => cases h
  | escape c cs ih =>
    rw [body?_escape] at h
    obtain ⟨body, hbody, rfl⟩ := Option.map_eq_some_iff.1 h
    obtain ⟨value, hvalue⟩ := ih hbody
    exact ⟨_, hvalue.escaped c⟩
  | plain c cs hback ih =>
    by_cases hquote : c = '"'
    · subst hquote
      cases h
      exact ⟨[], .nil⟩
    · rw [body?_plain hquote hback] at h
      obtain ⟨body, hbody, rfl⟩ := Option.map_eq_some_iff.1 h
      obtain ⟨value, hvalue⟩ := ih hbody
      exact ⟨_, .plain hquote hback hvalue⟩

end Quoted

/-! ## Lexemes -/

/-- Whether a text begins with white space or a comment. -/
def AtLayout (text : List Char) : Prop :=
  (∃ c ∈ text.head?, isWhiteSpace c) ∨ ['/', '/'] <+: text

/-- What a token is written as in front of `rest`, with the kind and the value of the token. -/
inductive IsLexeme (rest : List Char) : List Char → TokenKind → String → Prop
  | keyword {c : Char} {run : List Char} : isWordStart c → IsRun isWordPart run rest →
      String.ofList (c :: run) ∈ reservedWords →
      IsLexeme rest (c :: run) .keyword (String.ofList (c :: run))
  | identifier {c : Char} {run : List Char} : isWordStart c → IsRun isWordPart run rest →
      String.ofList (c :: run) ∉ reservedWords →
      IsLexeme rest (c :: run) .identifier (String.ofList (c :: run))
  | number {c : Char} {run : List Char} : c.isDigit → IsRun Char.isDigit run rest →
      IsLexeme rest (c :: run) .number (String.ofList (c :: run))
  | string {raw value : List Char} : Quoted.IsBody raw value →
      IsLexeme rest ('"' :: raw ++ ['"']) .string (String.ofList value)
  | pair {c d : Char} : String.ofList [c, d] ∈ pairOperators →
      IsLexeme rest [c, d] .operator (String.ofList [c, d])
  | single {c : Char} : c ∈ singleOperators →
      (∀ d ∈ rest.head?, String.ofList [c, d] ∉ pairOperators) →
      IsLexeme rest [c] .operator (String.ofList [c])
  | symbol {c : Char} : ¬ isWordStart c → ¬ c.isDigit → c ≠ '"' → c ∉ singleOperators →
      IsLexeme rest [c] .symbol (String.ofList [c])

variable {c d : Char} {cs rest lexeme : List Char} {kind : TokenKind} {value : String}
  {piece : Piece}

theorem IsLexeme.ne_nil (h : IsLexeme rest lexeme kind value) : lexeme ≠ [] := by
  cases h <;> simp

/-! ## The first piece -/

theorem not_isWordStart_of_isDigit (h : c.isDigit) : isWordStart c = false := by
  simp only [Char.isDigit, Bool.and_eq_true, decide_eq_true_eq, ge_iff_le, UInt32.le_iff_toNat_le]
    at h
  have halpha : Unicode.isAlphabetic c = false := by
    rw [Unicode.isAlphabetic, ← Bool.not_eq_true,
      Unicode.inRanges_iff Unicode.ascendFrom_alphabeticRanges]
    rintro ⟨r, hr, hle, -⟩
    have hfirst := Unicode.le_first_of_ascendFrom Unicode.ascendFrom_alphabeticRanges hr
    have hlast : c.toNat ≤ 0x39 := h.2
    omega
  have hunderscore : c ≠ '_' := by
    rintro rfl
    exact absurd h.2 (by decide)
  simp [isWordStart, halpha, hunderscore]

theorem isWordPart_of_isWordStart (h : isWordStart c) : isWordPart c := by
  rw [isWordStart, Bool.or_eq_true] at h
  rcases h with h | h <;> simp [isWordPart, h]

theorem not_isWordStart_of_mem (h : c ∈ '"' :: singleOperators) :
    isWordStart c = false ∧ c.isDigit = false := by
  have hall : ('"' :: singleOperators).all (fun c => !isWordStart c && !c.isDigit) := by decide
  simpa using List.all_eq_true.1 hall c h

theorem mem_singleOperators_of_pair (h : String.ofList [c, d] ∈ pairOperators) :
    c ∈ singleOperators := by
  have hall : pairOperators.all (fun s => s.toList.all (· ∈ singleOperators)) := by decide
  have hboth := List.all_eq_true.1 hall _ h
  simp only [String.toList_ofList, List.all_cons, Bool.and_eq_true, decide_eq_true_eq] at hboth
  exact hboth.1

theorem mark_of_pair (h : String.ofList [c, d] ∈ pairOperators) :
    mark c (d :: cs) = .operator [c, d] := by
  rw [mark, if_pos h]

theorem mark_of_single (h : c ∈ singleOperators)
    (hpair : ∀ d ∈ cs.head?, String.ofList [c, d] ∉ pairOperators) : mark c cs = .operator [c] := by
  cases cs with
  | nil => rw [mark, if_pos h]
  | cons d ds => rw [mark, if_neg (hpair d rfl), if_pos h]

theorem mark_of_symbol (h : c ∉ singleOperators) : mark c cs = .symbol c := by
  cases cs with
  | nil => rw [mark, if_neg h]
  | cons d ds => rw [mark, if_neg (fun hpair => h (mem_singleOperators_of_pair hpair)), if_neg h]

theorem first?_of_not_atLayout (h : ¬ AtLayout (c :: cs)) : first? c cs =
    if isWordStart c then some (.word (c :: cs.takeWhile isWordPart))
    else if c.isDigit then some (.digits (c :: cs.takeWhile Char.isDigit))
    else if c = '"' then (Quoted.body? cs).map .literal
    else some (mark c cs) := by
  have hspace : ¬ isWhiteSpace c := fun hc => h (.inl ⟨c, rfl, hc⟩)
  have hcomment : ¬ (c = '/' ∧ cs.head? = some '/') := by
    rintro ⟨rfl, hslash⟩
    obtain ⟨ds, rfl⟩ := List.head?_eq_some_iff.1 hslash
    exact h (.inr ⟨ds, rfl⟩)
  rw [first?, if_neg hspace, if_neg hcomment]

theorem first?_of_operator (h : ¬ AtLayout (c :: cs)) (hc : c ∈ singleOperators) :
    first? c cs = some (mark c cs) := by
  obtain ⟨hword, hdigit⟩ := not_isWordStart_of_mem (List.mem_cons_of_mem '"' hc)
  have hquote : c ≠ '"' := by
    rintro rfl
    exact absurd hc (by decide)
  rw [first?_of_not_atLayout h, hword, hdigit, if_neg Bool.false_ne_true, if_neg Bool.false_ne_true,
    if_neg hquote]

theorem not_atLayout_quote : ¬ AtLayout ('"' :: cs) := by
  rintro (⟨c, hc, hspace⟩ | ⟨ds, hds⟩)
  · obtain rfl : '"' = c := by simpa using hc
    exact absurd hspace (by decide)
  · exact absurd (List.cons.inj hds).1 (by decide)

theorem first?_quote : first? '"' cs = (Quoted.body? cs).map .literal := by
  rw [first?_of_not_atLayout not_atLayout_quote, if_neg (by decide), if_neg (by decide), if_pos rfl]

/-- Only a string literal that nothing closes has no first piece. -/
theorem first?_eq_none (hstart : ¬ AtLayout (c :: cs)) (h : first? c cs = none) :
    c = '"' ∧ Quoted.body? cs = none := by
  rw [first?_of_not_atLayout hstart] at h
  by_cases hword : isWordStart c
  · rw [if_pos hword] at h
    cases h
  by_cases hdigit : c.isDigit
  · rw [if_neg hword, if_pos hdigit] at h
    cases h
  by_cases hquote : c = '"'
  · rw [if_neg hword, if_neg hdigit, if_pos hquote] at h
    exact ⟨hquote, Option.map_eq_none_iff.1 h⟩
  · rw [if_neg hword, if_neg hdigit, if_neg hquote] at h
    cases h

theorem IsLexeme.first? (h : IsLexeme rest lexeme kind value)
    (hstart : ¬ AtLayout (lexeme ++ rest)) :
    ∃ c cs piece, lexeme ++ rest = c :: cs ∧ first? c cs = some piece ∧ piece.text = lexeme ∧
      piece.content? = some (kind, value) := by
  cases h with
  | @keyword c run hc hrun hword =>
    rw [List.cons_append] at hstart
    refine ⟨c, run ++ rest, .word (c :: run), rfl, ?_, rfl, ?_⟩
    · rw [first?_of_not_atLayout hstart, if_pos hc, hrun.takeWhile]
    · simp only [Piece.content?, if_pos hword]
  | @identifier c run hc hrun hword =>
    rw [List.cons_append] at hstart
    refine ⟨c, run ++ rest, .word (c :: run), rfl, ?_, rfl, ?_⟩
    · rw [first?_of_not_atLayout hstart, if_pos hc, hrun.takeWhile]
    · simp only [Piece.content?, if_neg hword]
  | @number c run hc hrun =>
    rw [List.cons_append] at hstart
    have hword := not_isWordStart_of_isDigit hc
    refine ⟨c, run ++ rest, .digits (c :: run), rfl, ?_, rfl, rfl⟩
    rw [first?_of_not_atLayout hstart, hword, if_neg Bool.false_ne_true, if_pos hc, hrun.takeWhile]
  | @string raw value hbody =>
    refine ⟨'"', raw ++ '"' :: rest, .literal raw, by simp, ?_, rfl, ?_⟩
    · rw [first?_quote, hbody.body?, Option.map_some]
    · rw [Piece.content?, hbody.unescape]
  | @pair c d hpair =>
    rw [List.cons_append, List.cons_append, List.nil_append] at hstart
    refine ⟨c, d :: rest, .operator [c, d], rfl, ?_, rfl, rfl⟩
    rw [first?_of_operator hstart (mem_singleOperators_of_pair hpair), mark_of_pair hpair]
  | @single c hc hpair =>
    rw [List.cons_append, List.nil_append] at hstart
    refine ⟨c, rest, .operator [c], rfl, ?_, rfl, rfl⟩
    rw [first?_of_operator hstart hc, mark_of_single hc hpair]
  | @symbol c hword hdigit hquote hc =>
    rw [List.cons_append, List.nil_append] at hstart
    refine ⟨c, rest, .symbol c, rfl, ?_, rfl, rfl⟩
    rw [first?_of_not_atLayout hstart, if_neg hword, if_neg hdigit, if_neg hquote,
      mark_of_symbol hc]

theorem exists_lexeme_of_first? (hstart : ¬ AtLayout (c :: cs)) (h : first? c cs = some piece) :
    ∃ rest kind value, c :: cs = piece.text ++ rest ∧ IsLexeme rest piece.text kind value ∧
      piece.content? = some (kind, value) := by
  rw [first?_of_not_atLayout hstart] at h
  by_cases hword : isWordStart c
  · rw [if_pos hword, Option.some_inj] at h
    subst h
    have hrun := isRun_takeWhile isWordPart cs
    refine ⟨cs.dropWhile isWordPart, _, _, ?_, ?_, rfl⟩
    · rw [Piece.text, List.cons_append, List.takeWhile_append_dropWhile]
    · split
      · next hmem => exact .keyword hword hrun hmem
      · next hmem => exact .identifier hword hrun hmem
  rw [if_neg hword] at h
  by_cases hdigit : c.isDigit
  · rw [if_pos hdigit, Option.some_inj] at h
    subst h
    refine ⟨cs.dropWhile Char.isDigit, _, _, ?_, .number hdigit (isRun_takeWhile _ cs), rfl⟩
    rw [Piece.text, List.cons_append, List.takeWhile_append_dropWhile]
  rw [if_neg hdigit] at h
  by_cases hquote : c = '"'
  · rw [if_pos hquote] at h
    obtain ⟨raw, hraw, rfl⟩ := Option.map_eq_some_iff.1 h
    obtain ⟨rest, rfl⟩ := Quoted.eq_append_of_body? hraw
    obtain ⟨value, hvalue⟩ := Quoted.isBody_of_body? hraw
    refine ⟨rest, .string, _, ?_, .string hvalue, ?_⟩
    · simp [hquote, Piece.text]
    · rw [Piece.content?, hvalue.unescape]
  rw [if_neg hquote, Option.some_inj] at h
  subst h
  by_cases hc : c ∈ singleOperators
  · cases cs with
    | nil =>
      have hnone : ∀ d ∈ ([] : List Char).head?, String.ofList [c, d] ∉ pairOperators := by simp
      rw [mark_of_single hc hnone]
      exact ⟨[], _, _, rfl, .single hc hnone, rfl⟩
    | cons d ds =>
      by_cases hpair : String.ofList [c, d] ∈ pairOperators
      · rw [mark_of_pair hpair]
        exact ⟨ds, _, _, rfl, .pair hpair, rfl⟩
      · have hnone : ∀ e ∈ (d :: ds).head?, String.ofList [c, e] ∉ pairOperators := by
          simpa using hpair
        rw [mark_of_single hc hnone]
        exact ⟨d :: ds, _, _, rfl, .single hc hnone, rfl⟩
  · rw [mark_of_symbol hc]
    exact ⟨cs, _, _, rfl, .symbol hword hdigit hquote hc, rfl⟩

/-- No two lexemes stand at the beginning of a text, and none is that of two tokens. -/
theorem IsLexeme.unique {rest' lexeme' : List Char} {kind' : TokenKind} {value' : String}
    (h : IsLexeme rest lexeme kind value) (h' : IsLexeme rest' lexeme' kind' value')
    (hstart : ¬ AtLayout (lexeme ++ rest)) (htext : lexeme ++ rest = lexeme' ++ rest') :
    lexeme = lexeme' ∧ rest = rest' ∧ kind = kind' ∧ value = value' := by
  obtain ⟨c, cs, piece, hcons, hfirst, hlexeme, hcontent⟩ := h.first? hstart
  obtain ⟨c', cs', piece', hcons', hfirst', hlexeme', hcontent'⟩ := h'.first? (htext ▸ hstart)
  obtain ⟨rfl, rfl⟩ := List.cons.inj (hcons.symm.trans (htext.trans hcons'))
  obtain rfl := Option.some.inj (hfirst.symm.trans hfirst')
  have hlex : lexeme = lexeme' := hlexeme.symm.trans hlexeme'
  subst hlex
  obtain ⟨rfl, rfl⟩ := Prod.mk.inj (Option.some.inj (hcontent.symm.trans hcontent'))
  exact ⟨rfl, List.append_cancel_left htext, rfl, rfl⟩

/-! ## Scanning a lexeme -/

namespace Token

variable {p : Position} {ts : List Token}

theorem scan_lexeme (h : IsLexeme rest lexeme kind value) (hstart : ¬ AtLayout (lexeme ++ rest)) :
    scan p (lexeme ++ rest) =
      (scan (p.after lexeme) rest).map (⟨kind, value, ⟨p, p.after lexeme⟩⟩ :: ·) := by
  obtain ⟨c, cs, piece, htext, hfirst, rfl, hcontent⟩ := h.first? hstart
  have hdrop : (c :: cs).drop piece.text.length = rest := by rw [← htext, List.drop_left]
  rw [htext, scan_of_some hfirst, hdrop, Piece.token?, hcontent]
  rfl

theorem exists_lexeme_of_scan (hstart : ¬ AtLayout (c :: cs)) (h : scan p (c :: cs) = .ok ts) :
    ∃ lexeme rest kind value us, c :: cs = lexeme ++ rest ∧ IsLexeme rest lexeme kind value ∧
      scan (p.after lexeme) rest = .ok us ∧ ts = ⟨kind, value, ⟨p, p.after lexeme⟩⟩ :: us := by
  cases hfirst : first? c cs with
  | none =>
    rw [scan_of_none hfirst] at h
    cases h
  | some piece =>
    obtain ⟨rest, kind, value, htext, hlexeme, -⟩ := exists_lexeme_of_first? hstart hfirst
    rw [htext] at hstart
    rw [htext, scan_lexeme hlexeme hstart] at h
    cases hrest : scan (p.after piece.text) rest with
    | error d =>
      rw [hrest] at h
      cases h
    | ok us =>
      rw [hrest] at h
      cases h
      exact ⟨piece.text, rest, kind, value, us, htext, hlexeme, hrest, rfl⟩

end Token

end SpaceLang
