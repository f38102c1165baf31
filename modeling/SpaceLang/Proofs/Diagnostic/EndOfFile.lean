import SpaceLang.Proofs.Grammar.Module
import SpaceLang.Proofs.Rule.Blame
import SpaceLang.Proofs.Rule.MissingValue

/-!
# What is said at the end of a file

A message that ends with "found end of file" is about an end marker: whatever text a token has, it
stands in quotes, and no other message ends like this one (`Cause.IsAbout.saysEndOfFile_iff`). An
end marker is reported in these words wherever it is refused, except in one place. A declaration
without a type that lacks its value is refused alike in front of every token, so a source that
breaks off behind `let` and a name is told about the value alone
(`Module.ofTokens_error_saysEndOfFile`).
-/

namespace SpaceLang

/-- Whether a message ends with the words for an end marker in the place of something else. -/
def Cause.SaysEndOfFile (cause : Cause) : Prop :=
  "found end of file".toList <:+ cause.message.toList

/-! ## The end of a message -/

theorem not_suffix_append {phrase : List Char} {tail : String} (htail : ¬ tail.toList <:+ phrase)
    (hphrase : ¬ phrase <:+ tail.toList) (front : String) :
    ¬ phrase <:+ (front ++ tail).toList := by
  rw [String.toList_append]
  intro h
  rcases List.suffix_or_suffix_of_suffix (List.suffix_append _ _) h with h | h
  · exact htail h
  · exact hphrase h

theorem suffix_append {phrase : List Char} {tail : String} (h : phrase <:+ tail.toList)
    (front : String) : phrase <:+ (front ++ tail).toList := by
  rw [String.toList_append]
  exact h.trans (List.suffix_append _ _)

namespace Token

variable {t : Token}

theorem exists_describe (h : t.isEndOfFile = false) :
    ∃ front, t.describe = front ++ "`" ∨ t.describe = front ++ "\"" := by
  unfold describe
  cases hkind : t.kind with
  | endOfFile => exact absurd hkind (of_decide_eq_false h)
  | string => exact ⟨_, .inr rfl⟩
  | _ => exact ⟨_, .inl rfl⟩

theorem suffix_describe_iff {front : String} (hfront : "found ".toList <:+ front.toList) :
    "found end of file".toList <:+ (front ++ t.describe).toList ↔ t.isEndOfFile := by
  cases h : t.isEndOfFile with
  | true =>
    obtain ⟨lead, hlead⟩ := hfront
    rw [describe_of_endOfFile (of_decide_eq_true h), String.toList_append, ← hlead,
      List.append_assoc]
    exact ⟨fun _ => rfl, fun _ => List.suffix_append _ _⟩
  | false =>
    obtain ⟨rest, hrest | hrest⟩ := exists_describe h
    · rw [hrest, ← String.append_assoc]
      exact ⟨fun hs => absurd hs (not_suffix_append (by decide) (by decide) _), by simp⟩
    · rw [hrest, ← String.append_assoc]
      exact ⟨fun hs => absurd hs (not_suffix_append (by decide) (by decide) _), by simp⟩

end Token

/-! ## Causes -/

/-- A cause says that an end marker is found if and only if it is about one, unless it is about the
value of a variable. -/
theorem Cause.IsAbout.saysEndOfFile_iff {cause : Cause} {ts : List Token} {t : Token}
    (h : cause.IsAbout ts t) :
    cause.SaysEndOfFile ↔ t.isEndOfFile ∧ ∀ name, cause ≠ .missingInitializer name := by
  have hkind : ∀ k, t.kind = k → k ≠ .endOfFile → t.isEndOfFile = false := by
    rintro k rfl hk
    exact Token.isEndOfFile_eq_false hk
  obtain ⟨hfields, hfits, -⟩ := h
  unfold SaysEndOfFile message
  cases cause with
  | unterminatedString => exact absurd hfields id
  | expectedSpaceDeclaration | expectedTypeDeclaration | expectedClassName | invalidAccessor =>
    obtain rfl := hfields
    simp only [ne_eq, reduceCtorEq, not_false_eq_true, implies_true, and_true]
    exact Token.suffix_describe_iff (by decide)
  | expectedToken expected found =>
    obtain ⟨rfl, -⟩ := hfields
    simp only [ne_eq, reduceCtorEq, not_false_eq_true, implies_true, and_true]
    exact Token.suffix_describe_iff (suffix_append (by decide) _)
  | unexpectedEndOfFile expected =>
    have hend : t.isEndOfFile := hfields
    simp only [ne_eq, reduceCtorEq, not_false_eq_true, implies_true, and_true, hend, iff_true]
    exact suffix_append (by decide) _
  | unknownMemberDeclaration member found =>
    obtain rfl := hfields
    simp only [ne_eq, reduceCtorEq, not_false_eq_true, implies_true, and_true]
    exact Token.suffix_describe_iff (suffix_append (by decide) _)
  | duplicateAccessor property accessor =>
    have hend := hkind .keyword hfits (by decide)
    simp only [hend, Bool.false_eq_true, false_and, iff_false]
    exact not_suffix_append (by decide) (by decide) _
  | missingInitializer variableName =>
    simp only [ne_eq, missingInitializer.injEq, forall_eq', and_false, iff_false]
    exact not_suffix_append (by decide) (by decide) _
  | unexpectedToken token =>
    simp only [hfields.2, Bool.false_eq_true, false_and, iff_false]
    exact not_suffix_append (by decide) (by decide) _
  | numberParseError token =>
    have hend := hkind .number hfits (by decide)
    simp only [hend, Bool.false_eq_true, false_and, iff_false]
    exact not_suffix_append (by decide) (by decide) _

/-! ## Modules -/

namespace Module

/-- **The end of a file is reported, except behind `let` and a name.** Where a token list makes no
module, the message ends with "found end of file" if and only if the token that is refused is an end
marker and the two tokens before it are not the word `let` and a name. -/
theorem ofTokens_error_saysEndOfFile {tokens : List Token} {e : Diagnostic}
    (h : ofTokens tokens = .error e) :
    ∃ d, Rule.spaceDecl (.ofTokens tokens) = .error e d ∧
      (e.cause.SaysEndOfFile ↔ d.current.isEndOfFile ∧ ∀ name, ¬ d.IsBehindLet name) := by
  obtain ⟨d, hd⟩ := ofTokens_eq_error.1 h
  have htold := Rule.tells_spaceDecl (Cursor.isClear_ofTokens tokens)
  rw [hd] at htold
  refine ⟨d, hd, ?_⟩
  rw [(Rule.blames_spaceDecl _ hd).cause.saysEndOfFile_iff]
  exact and_congr_right fun _ => forall_congr' fun name => not_congr (htold name)

/-- The tokens `space a`, which lack a semicolon. -/
theorem ofTokens_error_saysEndOfFile_name :
    ∃ d, Rule.spaceDecl (.ofTokens [⟨.keyword, "space", ⟨⟨1, 1⟩, ⟨1, 6⟩⟩⟩,
        ⟨.identifier, "a", ⟨⟨1, 7⟩, ⟨1, 8⟩⟩⟩, .endOfFile ⟨1, 8⟩]) =
      .error ⟨.unexpectedEndOfFile "`;`", ⟨1, 8⟩⟩ d ∧
    ((Cause.unexpectedEndOfFile "`;`").SaysEndOfFile ↔
      d.current.isEndOfFile ∧ ∀ name, ¬ d.IsBehindLet name) := by
  refine ofTokens_error_saysEndOfFile ?_
  cbv

/-- A value is missed at the end of a file too. The tokens are
`space a; class b \x7b void c() \x7b let x`. -/
theorem not_saysEndOfFile_let :
    ∃ d, Rule.spaceDecl (.ofTokens [⟨.keyword, "space", ⟨⟨1, 1⟩, ⟨1, 6⟩⟩⟩,
        ⟨.identifier, "a", ⟨⟨1, 7⟩, ⟨1, 8⟩⟩⟩, ⟨.symbol, ";", ⟨⟨1, 8⟩, ⟨1, 9⟩⟩⟩,
        ⟨.keyword, "class", ⟨⟨1, 10⟩, ⟨1, 15⟩⟩⟩, ⟨.identifier, "b", ⟨⟨1, 16⟩, ⟨1, 17⟩⟩⟩,
        ⟨.symbol, leftBrace, ⟨⟨1, 18⟩, ⟨1, 19⟩⟩⟩, ⟨.keyword, "void", ⟨⟨1, 20⟩, ⟨1, 24⟩⟩⟩,
        ⟨.identifier, "c", ⟨⟨1, 25⟩, ⟨1, 26⟩⟩⟩, ⟨.symbol, "(", ⟨⟨1, 26⟩, ⟨1, 27⟩⟩⟩,
        ⟨.symbol, ")", ⟨⟨1, 27⟩, ⟨1, 28⟩⟩⟩, ⟨.symbol, leftBrace, ⟨⟨1, 29⟩, ⟨1, 30⟩⟩⟩,
        ⟨.keyword, "let", ⟨⟨1, 31⟩, ⟨1, 34⟩⟩⟩, ⟨.identifier, "x", ⟨⟨1, 35⟩, ⟨1, 36⟩⟩⟩,
        .endOfFile ⟨1, 36⟩]) = .error ⟨.missingInitializer "x", ⟨1, 36⟩⟩ d ∧
      d.current.isEndOfFile ∧ ¬ (Cause.missingInitializer "x").SaysEndOfFile := by
  apply Exists.intro
  refine ⟨?_, ?_, ?_⟩
  · cbv
  · rfl
  · unfold Cause.SaysEndOfFile
    decide

end Module

end SpaceLang
