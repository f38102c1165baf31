import SpaceLang.Token.Basic

/-!
# The kinds of tokens

What the tests of a token say of its kind and its value. Each test fixes the kind, so a token that
passes one is no end marker and fails the tests for other kinds, and the tests for one kind tell the
values apart. The description of a token is one of three, and the kind says which.
-/

namespace SpaceLang.Token

variable {t : Token} {s s' w w' : String}

theorem isKeyword_iff : t.isKeyword w ↔ t.kind = .keyword ∧ t.value = w := by
  rw [isKeyword, Bool.and_eq_true, decide_eq_true_eq, decide_eq_true_eq]

theorem isSymbol_iff : t.isSymbol s ↔ t.kind = .symbol ∧ t.value = s := by
  rw [isSymbol, Bool.and_eq_true, decide_eq_true_eq, decide_eq_true_eq]

theorem isOperator_iff : t.isOperator w ↔ t.kind = .operator ∧ t.value = w := by
  rw [isOperator, Bool.and_eq_true, decide_eq_true_eq, decide_eq_true_eq]

theorem isTypeName_iff :
    t.isTypeName ↔ t.kind = .identifier ∨ t.kind = .keyword ∧ t.value ∈ builtinTypes := by
  rw [isTypeName, Bool.or_eq_true, Bool.and_eq_true, decide_eq_true_eq, decide_eq_true_eq,
    List.contains_iff_mem]

/-! ## Tokens before the end -/

theorem isEndOfFile_eq_false (h : t.kind ≠ .endOfFile) : t.isEndOfFile = false := by
  rw [isEndOfFile, decide_eq_false_iff_not]
  exact h

theorem not_endOfFile_of_kind (h : t.kind = .identifier) : t.isEndOfFile = false :=
  isEndOfFile_eq_false (by simp [h])

theorem not_endOfFile_of_isKeyword (h : t.isKeyword w) : t.isEndOfFile = false :=
  isEndOfFile_eq_false (by simp [(isKeyword_iff.1 h).1])

theorem not_endOfFile_of_isSymbol (h : t.isSymbol s) : t.isEndOfFile = false :=
  isEndOfFile_eq_false (by simp [(isSymbol_iff.1 h).1])

theorem not_endOfFile_of_isOperator (h : t.isOperator w) : t.isEndOfFile = false :=
  isEndOfFile_eq_false (by simp [(isOperator_iff.1 h).1])

theorem not_endOfFile_of_isTypeName (h : t.isTypeName) : t.isEndOfFile = false := by
  rcases isTypeName_iff.1 h with hk | ⟨hk, -⟩
  · exact not_endOfFile_of_kind hk
  · exact isEndOfFile_eq_false (by simp [hk])

/-! ## Other kinds -/

theorem isSymbol_eq_false_of_kind (h : t.kind ≠ .symbol) : t.isSymbol s = false := by
  rw [isSymbol, Bool.and_eq_false_imp]
  intro hk
  exact absurd (of_decide_eq_true hk) h

theorem isKeyword_eq_false_of_kind (h : t.kind ≠ .keyword) : t.isKeyword w = false := by
  rw [isKeyword, Bool.and_eq_false_imp]
  intro hk
  exact absurd (of_decide_eq_true hk) h

theorem not_symbol_of_isKeyword (h : t.isKeyword w) (s : String) : t.isSymbol s = false :=
  isSymbol_eq_false_of_kind (by simp [(isKeyword_iff.1 h).1])

theorem not_symbol_of_isOperator (h : t.isOperator w) (s : String) : t.isSymbol s = false :=
  isSymbol_eq_false_of_kind (by simp [(isOperator_iff.1 h).1])

theorem not_symbol_of_isTypeName (h : t.isTypeName) (s : String) : t.isSymbol s = false := by
  rcases isTypeName_iff.1 h with hk | ⟨hk, -⟩
  · exact isSymbol_eq_false_of_kind (by simp [hk])
  · exact isSymbol_eq_false_of_kind (by simp [hk])

theorem not_keyword_of_isSymbol (h : t.isSymbol s) (w : String) : t.isKeyword w = false :=
  isKeyword_eq_false_of_kind (by simp [(isSymbol_iff.1 h).1])

theorem not_keyword_of_isOperator (h : t.isOperator w) (w' : String) : t.isKeyword w' = false :=
  isKeyword_eq_false_of_kind (by simp [(isOperator_iff.1 h).1])

theorem isOperator_eq_false (h : t.isSymbol s) : t.isOperator w = false := by
  rw [Bool.eq_false_iff]
  intro hw
  have hk := (isSymbol_iff.1 h).1.symm.trans (isOperator_iff.1 hw).1
  cases hk

/-! ## Other values -/

theorem isSymbol_eq_false (h : t.isSymbol s) (hs : s ≠ s') : t.isSymbol s' = false := by
  rw [Bool.eq_false_iff]
  intro h'
  exact hs ((isSymbol_iff.1 h).2.symm.trans (isSymbol_iff.1 h').2)

theorem isKeyword_eq_false (h : t.isKeyword w) (hw : w ≠ w') : t.isKeyword w' = false := by
  rw [Bool.eq_false_iff]
  intro h'
  exact hw ((isKeyword_iff.1 h).2.symm.trans (isKeyword_iff.1 h').2)

theorem not_keyword_of_isTypeName (h : t.isTypeName) (hw : w ∉ builtinTypes) :
    t.isKeyword w = false := by
  rcases isTypeName_iff.1 h with hk | ⟨-, hmem⟩
  · exact isKeyword_eq_false_of_kind (by simp [hk])
  · rw [Bool.eq_false_iff]
    intro h'
    exact hw ((isKeyword_iff.1 h').2 ▸ hmem)

/-! ## Descriptions -/

theorem describe_of_endOfFile (h : t.kind = .endOfFile) : t.describe = "end of file" := by
  rw [describe, h]

theorem describe_of_string (h : t.kind = .string) :
    t.describe = "string \"" ++ Escape.text t.value ++ "\"" := by
  rw [describe, h]

theorem describe_of_other (hstring : t.kind ≠ .string) (hend : t.kind ≠ .endOfFile) :
    t.describe = "`" ++ t.value ++ "`" := by
  unfold describe
  cases hkind : t.kind with
  | string => exact absurd hkind hstring
  | endOfFile => exact absurd hkind hend
  | _ => rfl

end SpaceLang.Token
