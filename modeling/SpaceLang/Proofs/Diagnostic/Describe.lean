import SpaceLang.Proofs.Diagnostic.OneLine

/-!
# A description tells tokens apart

A message names the token it refuses by a description. The first character tells whether that token
is an end marker, a string literal or something else (`Token.head?_describe`), so no value can
imitate the description of another kind. The value stands behind it, as it is or escaped in a way
that can be undone. So tokens with one description are alike (`Token.describe_eq_iff`), and the
value of a string literal is read back from it (`Token.exists_describe_of_string`). The main result,
`Token.describe_faithful`, adds that the tokens of a source are described on one line.
-/

namespace SpaceLang.Token

variable {t u : Token}

/-! ## The first character -/

/-- What a description begins with. -/
def describeHead : TokenKind → Char
  | .endOfFile => 'e'
  | .string => 's'
  | _ => '`'

theorem describeHead_of_other {kind : TokenKind} (hstring : kind ≠ .string)
    (hend : kind ≠ .endOfFile) : describeHead kind = '`' := by
  cases kind with
  | string => exact absurd rfl hstring
  | endOfFile => exact absurd rfl hend
  | _ => rfl

theorem head?_describe (t : Token) : t.describe.toList.head? = some (describeHead t.kind) := by
  by_cases hend : t.kind = .endOfFile
  · rw [describe_of_endOfFile hend, hend]
    rfl
  by_cases hstring : t.kind = .string
  · rw [describe_of_string hstring, hstring, String.toList_append, String.toList_append]
    rfl
  · rw [describe_of_other hstring hend, describeHead_of_other hstring hend, String.toList_append,
      String.toList_append]
    rfl

theorem kind_iff_of_describe_eq (h : t.describe = u.describe) :
    (t.kind = .endOfFile ↔ u.kind = .endOfFile) ∧ (t.kind = .string ↔ u.kind = .string) := by
  have hsort : ∀ kind kind', describeHead kind = describeHead kind' →
      (kind = .endOfFile ↔ kind' = .endOfFile) ∧ (kind = .string ↔ kind' = .string) := by
    intro kind kind'
    cases kind <;> cases kind' <;> decide
  have hhead := t.head?_describe
  rw [h, u.head?_describe] at hhead
  exact hsort _ _ (Option.some.inj hhead).symm

/-! ## Tokens with one description -/

/-- Whether two tokens are end markers, or string literals with one value, or tokens of any other
kinds with one value. -/
inductive Alike (t u : Token) : Prop
  | endOfFile : t.kind = .endOfFile → u.kind = .endOfFile → Alike t u
  | string : t.kind = .string → u.kind = .string → t.value = u.value → Alike t u
  | other : t.kind ≠ .endOfFile → t.kind ≠ .string → u.kind ≠ .endOfFile → u.kind ≠ .string →
      t.value = u.value → Alike t u

theorem describe_eq_iff : t.describe = u.describe ↔ Alike t u := by
  constructor
  · intro h
    obtain ⟨hend, hstring⟩ := kind_iff_of_describe_eq h
    by_cases ht : t.kind = .endOfFile
    · exact .endOfFile ht (hend.1 ht)
    by_cases ht' : t.kind = .string
    · rw [describe_of_string ht', describe_of_string (hstring.1 ht'), String.append_left_inj,
        String.append_right_inj] at h
      exact .string ht' (hstring.1 ht') (Escape.text_injective h)
    · have hu := mt hend.2 ht
      have hu' := mt hstring.2 ht'
      rw [describe_of_other ht' ht, describe_of_other hu' hu, String.append_left_inj,
        String.append_right_inj] at h
      exact .other ht ht' hu hu' h
  · rintro (⟨ht, hu⟩ | ⟨ht, hu, hvalue⟩ | ⟨ht, ht', hu, hu', hvalue⟩)
    · rw [describe_of_endOfFile ht, describe_of_endOfFile hu]
    · rw [describe_of_string ht, describe_of_string hu, hvalue]
    · rw [describe_of_other ht' ht, describe_of_other hu' hu, hvalue]

/-! ## String literals -/

theorem exists_describe_of_string (h : t.kind = .string) :
    ∃ body, t.describe = "string \"" ++ body ++ "\"" ∧
      Escape.undo? body.toList = some t.value.toList :=
  ⟨Escape.text t.value, describe_of_string h, Escape.undo?_text t.value⟩

/-! ## The tokens of a source -/

/-- **A description is faithful and fits on one line.** Two tokens have one description if and only
if they are alike. The tokens of a source are described without a line end, and among them a string
literal in printable ASCII, where the text between the quotes gives its value once the escapes are
undone. -/
theorem describe_faithful :
    (∀ t u : Token, t.describe = u.describe ↔ Alike t u) ∧
    ∀ source ts, ofSource source = .ok ts → ∀ t ∈ ts, IsOneLine t.describe ∧
      (t.kind = .string → IsPrintable t.describe ∧
        ∃ body, t.describe = "string \"" ++ body ++ "\"" ∧
          Escape.undo? body.toList = some t.value.toList) := by
  refine ⟨fun t u => describe_eq_iff, fun source ts h t ht => ⟨?_, fun hstring => ?_⟩⟩
  · rw [ofSource_eq_scan] at h
    exact isOneLine_describe_of_scan h t ht
  · exact ⟨isPrintable_describe_of_string hstring, exists_describe_of_string hstring⟩

/-- A literal of a line end, a quote and a letter outside ASCII. It is not described as the word of
the same value would be. -/
theorem describe_faithful_literal :
    let t : Token := ⟨.string, "\n'\u00e9", ⟨⟨1, 1⟩, ⟨1, 7⟩⟩⟩
    let u : Token := ⟨.identifier, "\n'\u00e9", ⟨⟨1, 1⟩, ⟨1, 7⟩⟩⟩
    ofSource "\"\\n'\u00e9\"" = .ok [t, .endOfFile ⟨1, 7⟩] ∧
    t.describe = "string \"\\n\\'\\u\x7be9\x7d\"" ∧ IsOneLine t.describe ∧
    (∃ body, t.describe = "string \"" ++ body ++ "\"" ∧
      Escape.undo? body.toList = some t.value.toList) ∧
    t.describe ≠ u.describe := by
  intro t u
  have hsource : ofSource "\"\\n'\u00e9\"" = .ok [t, .endOfFile ⟨1, 7⟩] := by
    rw [ofSource_eq_scan]
    cbv
  have hmem : t ∈ [t, endOfFile ⟨1, 7⟩] := List.mem_cons_self
  obtain ⟨hline, hstring⟩ := describe_faithful.2 _ _ hsource t hmem
  refine ⟨hsource, by decide, hline, (hstring rfl).2, fun h => ?_⟩
  cases (describe_faithful.1 t u).1 h with
  | endOfFile ht _ => cases ht
  | string _ hu _ => cases hu
  | other _ ht _ _ _ => exact ht rfl

end SpaceLang.Token
