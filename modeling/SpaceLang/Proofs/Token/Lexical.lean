import SpaceLang.Proofs.Token.Decomposition

/-!
# What can be a token

`IsLexical kind value` says which kinds and values belong together. They are those of the tokens
that a source can have (`Token.exists_lexical_of_scan`): each of them can be written, and a row of
them with single spaces between can be read again (`Token.scan_write`). A string is written between
quotes, with a backslash in front of its quotes and backslashes, and everything else as its value.
-/

namespace SpaceLang

open Unicode (isWhiteSpace)
open Piece (isWordStart isWordPart)

/-- Whether a text has the form of an identifier or a reserved word. -/
def isWord (s : String) : Bool :=
  match s.toList with
  | [] => false
  | c :: cs => isWordStart c && cs.all isWordPart

/-- Whether a text is an identifier: a word that is not reserved. -/
def isFreeWord (s : String) : Bool := isWord s && s ∉ reservedWords

/-- Whether a token of a source can have a kind and a value; the end marker is not meant. -/
inductive IsLexical : TokenKind → String → Prop
  | keyword {s : String} : s ∈ reservedWords → IsLexical .keyword s
  | identifier {s : String} : isFreeWord s → IsLexical .identifier s
  | number {s : String} : s.toList ≠ [] → s.toList.all Char.isDigit → IsLexical .number s
  | string {s : String} : IsLexical .string s
  | pair {s : String} : s ∈ pairOperators → IsLexical .operator s
  | single {c : Char} : c ∈ singleOperators → IsLexical .operator (String.ofList [c])
  | symbol {c : Char} : ¬ isWhiteSpace c → ¬ isWordStart c → ¬ c.isDigit → c ≠ '"' →
      c ∉ singleOperators → IsLexical .symbol (String.ofList [c])

variable {s : String} {c : Char} {cs rest lexeme : List Char} {kind : TokenKind} {value : String}

theorem isWord_ofList :
    isWord (String.ofList (c :: cs)) = (isWordStart c && cs.all isWordPart) := by
  simp [isWord]

theorem isWord_iff : isWord s ↔ ∃ c cs, s = String.ofList (c :: cs) ∧ isWordStart c ∧
    ∀ d ∈ cs, isWordPart d := by
  constructor
  · intro h
    unfold isWord at h
    split at h
    · cases h
    · next c cs hs =>
      rw [Bool.and_eq_true, List.all_eq_true] at h
      exact ⟨c, cs, by rw [← hs, String.ofList_toList], h⟩
  · rintro ⟨c, cs, rfl, hc, hcs⟩
    rw [isWord_ofList, hc, Bool.true_and, List.all_eq_true]
    exact hcs

theorem isWord_of_mem_reservedWords (h : s ∈ reservedWords) : isWord s := by
  revert s
  decide

theorem isFreeWord_iff : isFreeWord s ↔ isWord s ∧ s ∉ reservedWords := by
  simp [isFreeWord]

/-! ## Every token is lexical -/

theorem IsLexeme.isLexical (h : IsLexeme rest lexeme kind value)
    (hstart : ¬ AtLayout (lexeme ++ rest)) : IsLexical kind value := by
  cases h with
  | keyword _ _ hmem => exact .keyword hmem
  | identifier hc hrun hmem =>
    exact .identifier (isFreeWord_iff.2 ⟨isWord_iff.2 ⟨_, _, rfl, hc, hrun.1⟩, hmem⟩)
  | @number c run hc hrun =>
    refine .number (by simp) ?_
    rw [String.toList_ofList, List.all_cons, hc, Bool.true_and, List.all_eq_true]
    exact hrun.1
  | string => exact .string
  | pair hpair => exact .pair hpair
  | single hc => exact .single hc
  | @symbol c hword hdigit hquote hc =>
    have hspace : ¬ isWhiteSpace c := fun h => hstart (atLayout_of_isWhiteSpace h)
    exact .symbol hspace hword hdigit hquote hc

/-- The kind and the value of a token. -/
abbrev Content := TokenKind × String

/-- A kind and a value that a token of a source can have. -/
def Content.Lexical (content : Content) : Prop := IsLexical content.1 content.2

namespace Token

def content (t : Token) : Content := (t.kind, t.value)

/-- A token that a source can have, apart from the end marker. -/
def Lexical (t : Token) : Prop := t.content.Lexical

/-- The tokens of a text are lexical but for the last one, which is an end marker. -/
theorem exists_lexical_of_scan {p : Position} {text : List Char} {us : List Token}
    (h : scan p text = .ok us) : ∃ ts q, us = ts ++ [endOfFile q] ∧ ∀ t ∈ ts, t.Lexical := by
  refine scan_induct (motive := fun _ _ us =>
    ∃ ts q, us = ts ++ [endOfFile q] ∧ ∀ t ∈ ts, t.Lexical) ?_ ?_ h
  · intro p gap _
    exact ⟨[], p.after gap, rfl, by simp⟩
  · rintro p gap lexeme rest kind value _ _ hstart hlexeme ⟨ts, q, rfl, hts⟩
    refine ⟨_ :: ts, q, rfl, ?_⟩
    rw [List.forall_mem_cons]
    exact ⟨hlexeme.isLexical hstart, hts⟩

end Token

/-! ## Everything lexical can be written -/

/-- A character of a string literal as written. -/
def Quoted.escape (c : Char) : List Char := if c = '"' ∨ c = '\\' then ['\\', c] else [c]

/-- A kind and a value as written. -/
def writeToken (content : Content) : List Char :=
  if content.1 = .string then '"' :: content.2.toList.flatMap Quoted.escape ++ ['"']
  else content.2.toList

/-- Kinds and values as written, with single spaces between. -/
def writeTokens (row : List Content) : List Char :=
  [' '].intercalate (row.map writeToken)

theorem Quoted.isBody_flatMap_escape (cs : List Char) : IsBody (cs.flatMap escape) cs := by
  induction cs with
  | nil => exact .nil
  | cons c cs ih =>
    rw [List.flatMap_cons, escape]
    split
    · next h =>
      have hescaped : escaped c = c := by rcases h with rfl | rfl <;> rfl
      have hbody := ih.escaped c
      rwa [hescaped] at hbody
    · next h =>
      rw [not_or] at h
      exact .plain h.1 h.2 ih

theorem not_atLayout_cons (hspace : ¬ isWhiteSpace c) (hslash : c = '/' → cs.head? ≠ some '/') :
    ¬ AtLayout (c :: cs) := by
  intro h
  rcases h.cases with ⟨d, ds, heq, hd⟩ | ⟨ds, heq⟩
  · exact hspace ((List.cons.inj heq).1 ▸ hd)
  · obtain ⟨rfl, rfl⟩ := List.cons.inj heq
    exact hslash rfl rfl

theorem not_atLayout_of_isWordStart (h : isWordStart c ∨ c.isDigit) : ¬ AtLayout (c :: cs) := by
  refine not_atLayout_cons (fun hspace => ?_) ?_
  · obtain ⟨hpart, hdigit⟩ := not_isWordPart_of_isWhiteSpace hspace
    rcases h with hword | h
    · exact absurd (isWordPart_of_isWordStart hword) (by simp [hpart])
    · exact absurd h (by simp [hdigit])
  · rintro rfl
    exact absurd h (by decide)

theorem not_isWhiteSpace_of_mem (h : c ∈ singleOperators) : ¬ isWhiteSpace c := by
  have hall : singleOperators.all (fun c => !isWhiteSpace c) := by decide
  simpa using List.all_eq_true.1 hall c h

theorem isRun_of_separated {q : Char → Bool} {run : List Char} (hq : q ' ' = false)
    (hrun : ∀ c ∈ run, q c) (hrest : ∀ d ∈ rest.head?, d = ' ') : IsRun q run rest :=
  ⟨hrun, fun d hd => hrest d hd ▸ hq⟩

theorem IsLexical.isLexeme (h : IsLexical kind value) (hrest : ∀ d ∈ rest.head?, d = ' ') :
    IsLexeme rest (writeToken (kind, value)) kind value ∧
      ¬ AtLayout (writeToken (kind, value) ++ rest) := by
  cases h with
  | @keyword value hmem =>
    obtain ⟨c, cs, rfl, hc, hcs⟩ := isWord_iff.1 (isWord_of_mem_reservedWords hmem)
    have hwrite : writeToken (.keyword, String.ofList (c :: cs)) = c :: cs := by simp [writeToken]
    rw [hwrite]
    exact ⟨.keyword hc (isRun_of_separated (by decide) hcs hrest) hmem,
      not_atLayout_of_isWordStart (.inl hc)⟩
  | @identifier value hfree =>
    obtain ⟨hword, hmem⟩ := isFreeWord_iff.1 hfree
    obtain ⟨c, cs, rfl, hc, hcs⟩ := isWord_iff.1 hword
    have hwrite : writeToken (.identifier, String.ofList (c :: cs)) = c :: cs := by
      simp [writeToken]
    rw [hwrite]
    exact ⟨.identifier hc (isRun_of_separated (by decide) hcs hrest) hmem,
      not_atLayout_of_isWordStart (.inl hc)⟩
  | @number value hne hdigits =>
    obtain ⟨c, cs, hcons⟩ := List.exists_cons_of_ne_nil hne
    have hvalue : value = String.ofList (c :: cs) := by rw [← hcons, String.ofList_toList]
    rw [hcons, List.all_cons, Bool.and_eq_true, List.all_eq_true] at hdigits
    have hwrite : writeToken (.number, value) = c :: cs := hcons
    rw [hwrite, hvalue]
    exact ⟨.number hdigits.1 (isRun_of_separated (by decide) hdigits.2 hrest),
      not_atLayout_of_isWordStart (.inr hdigits.1)⟩
  | @string value =>
    have hlexeme : IsLexeme rest _ _ _ :=
      .string (Quoted.isBody_flatMap_escape value.toList)
    rw [String.ofList_toList] at hlexeme
    exact ⟨hlexeme, not_atLayout_cons (by decide) (by simp)⟩
  | @pair value hpair =>
    have hall : pairOperators.all (fun s => singleOperators.any fun c =>
        c ≠ '/' && s = String.ofList [c, '=']) := by decide
    obtain ⟨c, hc, hcases⟩ := List.any_eq_true.1 (List.all_eq_true.1 hall value hpair)
    rw [Bool.and_eq_true, decide_eq_true_eq, decide_eq_true_eq] at hcases
    obtain ⟨hslash, rfl⟩ := hcases
    have hwrite : writeToken (.operator, String.ofList [c, '=']) = [c, '='] := by simp [writeToken]
    rw [hwrite]
    exact ⟨.pair hpair,
      not_atLayout_cons (not_isWhiteSpace_of_mem hc) (fun heq => absurd heq hslash)⟩
  | @single c hc =>
    have hwrite : writeToken (.operator, String.ofList [c]) = [c] := by simp [writeToken]
    rw [hwrite]
    refine ⟨.single hc fun d hd hpair => ?_,
      not_atLayout_cons (not_isWhiteSpace_of_mem hc) fun _ hslash => ?_⟩
    · rw [hrest d hd] at hpair
      exact absurd (eq_of_pair hpair) (by decide)
    · exact absurd (hrest '/' hslash) (by decide)
  | @symbol c hspace hword hdigit hquote hc =>
    have hwrite : writeToken (.symbol, String.ofList [c]) = [c] := by simp [writeToken]
    rw [hwrite]
    refine ⟨.symbol hword hdigit hquote hc, not_atLayout_cons hspace ?_⟩
    rintro rfl
    exact absurd hc (by decide)

namespace Token

/-- **What is written is read.** A row of lexical kinds and values, written with single spaces
between, is read into tokens of those kinds and values and the end marker. -/
theorem scan_write {row : List Content} (h : ∀ content ∈ row, content.Lexical) (p : Position) :
    ∃ ts q, scan p (writeTokens row) = .ok (ts ++ [endOfFile q]) ∧ ts.map content = row := by
  induction row generalizing p with
  | nil => exact ⟨[], p, scan_nil, rfl⟩
  | cons content row ih =>
    obtain ⟨kind, value⟩ := content
    obtain ⟨hcontent, hrow⟩ := List.forall_mem_cons.1 h
    cases row with
    | nil =>
      obtain ⟨hlexeme, hstart⟩ :=
        IsLexical.isLexeme hcontent (by simp : ∀ d ∈ ([] : List Char).head?, d = ' ')
      have hscan := scan_lexeme (p := p) hlexeme hstart
      rw [List.append_nil, scan_nil] at hscan
      have hwrite : writeTokens [(kind, value)] = writeToken (kind, value) :=
        List.intercalate_singleton
      rw [hwrite]
      exact ⟨[⟨kind, value, ⟨p, p.after (writeToken (kind, value))⟩⟩], _, hscan, rfl⟩
    | cons next row =>
      have hwrite : writeTokens ((kind, value) :: next :: row) =
          writeToken (kind, value) ++ ' ' :: writeTokens (next :: row) := by
        simp [writeTokens, List.intercalate_cons_cons]
      have hspace : ∀ d ∈ (' ' :: writeTokens (next :: row)).head?, d = ' ' := by simp
      obtain ⟨hlexeme, hstart⟩ := IsLexical.isLexeme hcontent hspace
      obtain ⟨ts, q, hscan, hts⟩ := ih hrow ((p.after (writeToken (kind, value))).next ' ')
      refine ⟨⟨kind, value, ⟨p, p.after (writeToken (kind, value))⟩⟩ :: ts, q, ?_, ?_⟩
      · rw [hwrite, scan_lexeme hlexeme hstart, scan_whiteSpace (by decide), hscan]
        rfl
      · rw [List.map_cons, hts]
        rfl

/-- **Sources have the lexical tokens.** A row of lexical kinds and values, written with single
spaces between, is a source with tokens of those kinds and values and the end marker; and the tokens
of any source are lexical, but for the end marker behind them. -/
theorem ofSource_writeTokens :
    (∀ row : List Content, (∀ content ∈ row, content.Lexical) →
      ∃ ts q, ofSource (String.ofList (writeTokens row)) = .ok (ts ++ [endOfFile q]) ∧
        ts.map content = row) ∧
    ∀ source us, ofSource source = .ok us →
      ∃ ts q, us = ts ++ [endOfFile q] ∧ ∀ t ∈ ts, t.Lexical := by
  refine ⟨fun row hrow => ?_, fun source us h => ?_⟩
  · rw [ofSource_eq_scan, String.toList_ofList]
    exact scan_write hrow .start
  · rw [ofSource_eq_scan] at h
    exact exists_lexical_of_scan h

/-- Two slashes in a row, and two in a string with a quote and a backslash. -/
theorem ofSource_writeTokens_slashes :
    let row : List Content :=
      [(.operator, "/"), (.operator, "/"), (.string, "\"\\//"), (.symbol, ";")]
    (∀ content ∈ row, content.Lexical) ∧
    String.ofList (writeTokens row) = "/ / \"\\\"\\\\//\" ;" ∧
    ∃ ts q, ofSource (String.ofList (writeTokens row)) = .ok (ts ++ [endOfFile q]) ∧
      ts.map content = row := by
  intro row
  have hrow : ∀ content ∈ row, content.Lexical := by
    have hslash : IsLexical .operator "/" := @IsLexical.single '/' (by decide)
    have hsemicolon : IsLexical .symbol ";" :=
      @IsLexical.symbol ';' (by decide) (by decide) (by decide) (by decide) (by decide)
    simp only [row, List.forall_mem_cons]
    exact ⟨hslash, hslash, .string, hsemicolon, by simp⟩
  exact ⟨hrow, rfl, ofSource_writeTokens.1 row hrow⟩

end Token

end SpaceLang
