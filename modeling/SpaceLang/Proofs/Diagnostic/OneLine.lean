import SpaceLang.Diagnostic.Render
import SpaceLang.Proofs.Expr.Integer
import SpaceLang.Proofs.Rule.Blame
import SpaceLang.Proofs.Token.Escape
import SpaceLang.Proofs.Token.Lexical

/-!
# What a diagnostic says fits on one line

A text `IsOneLine` if no line end is in it. The tokens of a source are described on one line
(`Token.isOneLine_describe_of_scan`): a string literal in printable ASCII
(`Escape.isPrintable_text`), and every other token by its value, which holds no white space. The
words of a cause are put together from such descriptions, from names and from fixed texts, so they
fit on one line as well (`Cause.IsAbout.isOneLine_message`, `Diagnostic.isOneLine_headline`).
-/

namespace SpaceLang

/-- Whether a text is free of line ends. -/
def IsOneLine (s : String) : Prop := ∀ c ∈ s.toList, c ≠ '\n' ∧ c ≠ '\r'

instance (s : String) : Decidable (IsOneLine s) :=
  List.decidableBAll (fun c => c ≠ '\n' ∧ c ≠ '\r') s.toList

variable {s t : String} {c : Char} {cs : List Char}

@[simp] theorem isOneLine_append : IsOneLine (s ++ t) ↔ IsOneLine s ∧ IsOneLine t := by
  simp only [IsOneLine, String.toList_append, List.forall_mem_append]

theorem IsOneLine.not_mem (h : IsOneLine s) : '\n' ∉ s.toList :=
  fun hmem => (h '\n' hmem).1 rfl

theorem isOneLine_of_forall {q : Char → Prop} (hn : ¬ q '\n') (hr : ¬ q '\r')
    (h : ∀ c ∈ s.toList, q c) : IsOneLine s := by
  intro c hc
  constructor
  · rintro rfl
    exact hn (h _ hc)
  · rintro rfl
    exact hr (h _ hc)

/-- Whether a text is in printable ASCII. -/
def IsPrintable (s : String) : Prop := ∀ c ∈ s.toList, ' ' ≤ c ∧ c ≤ '~'

instance (s : String) : Decidable (IsPrintable s) :=
  List.decidableBAll (fun c => ' ' ≤ c ∧ c ≤ '~') s.toList

@[simp] theorem isPrintable_append : IsPrintable (s ++ t) ↔ IsPrintable s ∧ IsPrintable t := by
  simp only [IsPrintable, String.toList_append, List.forall_mem_append]

theorem IsPrintable.isOneLine (h : IsPrintable s) : IsOneLine s :=
  isOneLine_of_forall (by decide) (by decide) h

theorem isOneLine_of_isDigit (h : ∀ c ∈ s.toList, c.isDigit) : IsOneLine s :=
  isOneLine_of_forall (by decide) (by decide) h

theorem isOneLine_toString (n : Nat) : IsOneLine (toString n) :=
  isOneLine_of_isDigit (List.all_eq_true.1 (Integer.toString_digits n).2)

/-! ## Tokens -/

theorem Escape.isPrintable_text (s : String) : IsPrintable (text s) := fun _ hc => mem_text hc

theorem IsLexical.isOneLine {kind : TokenKind} (h : IsLexical kind s) (hkind : kind ≠ .string) :
    IsOneLine s := by
  cases h with
  | keyword hmem =>
    have hall : ∀ s ∈ reservedWords, IsOneLine s := by decide
    exact hall s hmem
  | identifier hfree =>
    obtain ⟨c, cs, rfl, hc, hcs⟩ := isWord_iff.1 (isFreeWord_iff.1 hfree).1
    refine isOneLine_of_forall (q := fun c => Piece.isWordPart c) (by decide) (by decide) ?_
    rw [String.toList_ofList, List.forall_mem_cons]
    exact ⟨isWordPart_of_isWordStart hc, hcs⟩
  | number _ hall => exact isOneLine_of_isDigit (List.all_eq_true.1 hall)
  | string => exact absurd rfl hkind
  | pair hpair =>
    have hall : ∀ s ∈ pairOperators, IsOneLine s := by decide
    exact hall s hpair
  | single hc =>
    have hall : singleOperators.all (fun c => IsOneLine (String.ofList [c])) := by decide
    exact of_decide_eq_true (List.all_eq_true.1 hall _ hc)
  | @symbol c hspace =>
    refine isOneLine_of_forall (q := fun c => ¬ Unicode.isWhiteSpace c) (by decide) (by decide) ?_
    rwa [String.toList_ofList, List.forall_mem_singleton]

namespace Token

variable {u : Token}

theorem isOneLine_describe_iff (hstring : u.kind ≠ .string) (hend : u.kind ≠ .endOfFile) :
    IsOneLine u.describe ↔ IsOneLine u.value := by
  have hquote : IsOneLine "`" := by decide
  rw [describe_of_other hstring hend, isOneLine_append, isOneLine_append]
  exact ⟨fun h => h.1.2, fun h => ⟨⟨hquote, h⟩, hquote⟩⟩

theorem isOneLine_describe_of_endOfFile (h : u.kind = .endOfFile) : IsOneLine u.describe := by
  rw [describe_of_endOfFile h]
  decide

theorem isPrintable_describe_of_string (h : u.kind = .string) : IsPrintable u.describe := by
  have hopen : IsPrintable "string \"" := by decide
  have hclose : IsPrintable "\"" := by decide
  rw [describe_of_string h, isPrintable_append, isPrintable_append]
  exact ⟨⟨hopen, Escape.isPrintable_text _⟩, hclose⟩

theorem Lexical.isOneLine_describe (h : u.Lexical) : IsOneLine u.describe := by
  by_cases hend : u.kind = .endOfFile
  · exact isOneLine_describe_of_endOfFile hend
  by_cases hstring : u.kind = .string
  · exact (isPrintable_describe_of_string hstring).isOneLine
  · exact (isOneLine_describe_iff hstring hend).2 (IsLexical.isOneLine h hstring)

theorem isOneLine_describe_of_scan {p : Position} {text : List Char} {ts : List Token}
    (h : scan p text = .ok ts) : ∀ t ∈ ts, IsOneLine t.describe := by
  obtain ⟨us, q, rfl, hlexical⟩ := exists_lexical_of_scan h
  rw [List.forall_mem_append, List.forall_mem_singleton]
  exact ⟨fun t ht => (hlexical t ht).isOneLine_describe, isOneLine_describe_of_endOfFile rfl⟩

end Token

/-! ## Diagnostics -/

section

variable {ts : List Token} {u : Token} {cause : Cause}

theorem IsNamed.isOneLine (h : IsNamed ts s) (hts : ∀ t ∈ ts, IsOneLine t.describe) :
    IsOneLine s := by
  obtain ⟨t, ht, hkind, rfl⟩ := h
  exact (Token.isOneLine_describe_iff (by simp [hkind]) (by simp [hkind])).1 (hts t ht)

theorem Cause.isOneLine_of_mem_expectations (h : s ∈ expectations) : IsOneLine s := by
  revert s
  decide

/-- Whether a cause is told on one line. -/
def Cause.IsOneLine (cause : Cause) : Prop :=
  SpaceLang.IsOneLine cause.message ∧ ∀ tip ∈ cause.tip?, SpaceLang.IsOneLine tip

theorem Cause.isOneLine_unterminatedString : unterminatedString.IsOneLine := by
  constructor
  · decide +kernel
  · rintro _ ⟨⟩
    decide +kernel

/-- Over tokens that are described on one line, the message of a cause is one line. -/
theorem Cause.IsAbout.isOneLine_message (h : cause.IsAbout ts u) (hu : u ∈ ts)
    (hts : ∀ t ∈ ts, SpaceLang.IsOneLine t.describe) : SpaceLang.IsOneLine cause.message := by
  have hdescribe := hts u hu
  have hvalue : u.kind = .keyword ∨ u.kind = .number → SpaceLang.IsOneLine u.value := by
    intro hkind
    refine (Token.isOneLine_describe_iff ?_ ?_).1 hdescribe
    · rcases hkind with hkind | hkind <;> simp [hkind]
    · rcases hkind with hkind | hkind <;> simp [hkind]
  obtain ⟨hfields, hfits, hnamed⟩ := h
  have hname : ∀ name ∈ cause.names, SpaceLang.IsOneLine name :=
    fun name hmem => (hnamed name hmem).isOneLine hts
  unfold message
  cases cause with
  | unterminatedString => exact absurd hfields id
  | expectedSpaceDeclaration | expectedTypeDeclaration | expectedClassName | invalidAccessor =>
    obtain rfl := hfields
    simp only [isOneLine_append]
    exact ⟨by decide +kernel, hdescribe⟩
  | expectedToken expected found =>
    obtain ⟨rfl, -⟩ := hfields
    simp only [isOneLine_append]
    exact ⟨⟨⟨by decide +kernel, isOneLine_of_mem_expectations hfits⟩, by decide +kernel⟩,
      hdescribe⟩
  | unexpectedEndOfFile expected =>
    simp only [isOneLine_append]
    exact ⟨⟨by decide +kernel, isOneLine_of_mem_expectations hfits⟩, by decide +kernel⟩
  | unknownMemberDeclaration member found =>
    obtain rfl := hfields
    simp only [isOneLine_append]
    exact ⟨⟨⟨by decide +kernel, hname member (List.mem_singleton_self _)⟩, by decide +kernel⟩,
      hdescribe⟩
  | duplicateAccessor property accessor =>
    obtain rfl := hfields
    simp only [isOneLine_append]
    exact ⟨⟨⟨⟨by decide +kernel, hname property (List.mem_singleton_self _)⟩, by decide +kernel⟩,
      hvalue (.inl hfits)⟩, by decide +kernel⟩
  | missingInitializer variableName =>
    simp only [isOneLine_append]
    exact ⟨⟨by decide +kernel, hname variableName (List.mem_singleton_self _)⟩,
      by decide +kernel⟩
  | unexpectedToken token =>
    obtain ⟨rfl, -⟩ := hfields
    simp only [isOneLine_append]
    exact ⟨⟨by decide +kernel, hdescribe⟩, by decide +kernel⟩
  | numberParseError token =>
    obtain rfl := hfields
    simp only [isOneLine_append]
    exact ⟨⟨by decide +kernel, hvalue (.inr hfits)⟩, by decide +kernel⟩

theorem Cause.IsAbout.isOneLine_tip {tip : String} (h : cause.IsAbout ts u)
    (hts : ∀ t ∈ ts, SpaceLang.IsOneLine t.describe) (htip : tip ∈ cause.tip?) :
    SpaceLang.IsOneLine tip := by
  cases cause with
  | unterminatedString => exact absurd h.describes id
  | expectedToken expected found =>
    have htext : tip ∈ if expected = "`;`" then some "did you miss a semicolon?" else none := htip
    by_cases hsemicolon : expected = "`;`"
    · rw [if_pos hsemicolon] at htext
      cases htext
      decide +kernel
    · rw [if_neg hsemicolon] at htext
      cases htext
  | unknownMemberDeclaration | numberParseError =>
    cases htip
    decide +kernel
  | missingInitializer variableName =>
    have hname := (h.named variableName (List.mem_singleton_self _)).isOneLine hts
    cases htip
    simp only [isOneLine_append]
    exact ⟨⟨by decide +kernel, hname⟩, by decide +kernel⟩
  | _ => cases htip

theorem Cause.IsAbout.isOneLine (h : cause.IsAbout ts u) (hu : u ∈ ts)
    (hts : ∀ t ∈ ts, SpaceLang.IsOneLine t.describe) : cause.IsOneLine :=
  ⟨h.isOneLine_message hu hts, fun _ htip => h.isOneLine_tip hts htip⟩

theorem Diagnostic.isOneLine_headline {e : Diagnostic} (h : e.cause.IsOneLine) :
    IsOneLine e.headline := by
  have hkind : IsOneLine e.cause.kind.name := by
    cases e.cause.kind <;> decide
  have hposition : IsOneLine e.position.describe := by
    simp only [Position.describe, isOneLine_append]
    exact ⟨⟨⟨by decide, isOneLine_toString _⟩, by decide⟩, isOneLine_toString _⟩
  have hfront : IsOneLine ("Error: " ++ e.cause.kind.name ++ " (" ++ e.display) := by
    simp only [display, isOneLine_append]
    exact ⟨⟨⟨by decide, hkind⟩, by decide⟩, ⟨h.1, by decide⟩, hposition⟩
  unfold headline
  cases htip : e.cause.tip? with
  | none => exact isOneLine_append.2 ⟨isOneLine_append.2 ⟨hfront, by decide⟩, by decide⟩
  | some tip =>
    have hword : IsOneLine ("; " ++ tip) := isOneLine_append.2 ⟨by decide, h.2 tip htip⟩
    exact isOneLine_append.2 ⟨isOneLine_append.2 ⟨hfront, hword⟩, by decide⟩

end

end SpaceLang
