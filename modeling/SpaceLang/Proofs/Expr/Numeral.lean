import Mathlib.Data.Nat.Digits.Defs
import SpaceLang.Proofs.Expr.Integer
import SpaceLang.Proofs.Grammar.Expr
import SpaceLang.Proofs.Tree.WellFormed

/-!
# Numbers are read exactly or refused

`IsNumeral text n` says that a text is a row of decimal digits behind one sign or none, and that `n`
is what the digits denote by their places. An integer literal is read from the numerals of 64 bits
and from no other text (`Integer.ofString?_eq_some_iff`, `Integer.ofString?_eq_none_iff`), and the
operand that begins with a number is that literal, or the number is refused where it stands. The
numbers of a source have no sign, so only their size can be at fault.
-/

namespace SpaceLang

namespace Integer

variable {text digits : List Char} {n : Int} {v : Int64} {s : String}

/-! ## Numerals -/

/-- A row of decimal digits of ASCII. -/
def IsDigits (digits : List Char) : Prop := digits ≠ [] ∧ ∀ c ∈ digits, c.isDigit

/-- The number that digits denote, each of them counted by its place. -/
def value (digits : List Char) : Nat :=
  Nat.ofDigits 10 (digits.reverse.map fun c => c.toNat - '0'.toNat)

/-- A text that denotes an integer of any size: digits, behind one sign or none. -/
inductive IsNumeral : List Char → Int → Prop
  | unsigned {digits : List Char} : IsDigits digits → IsNumeral digits (value digits)
  | positive {digits : List Char} : IsDigits digits → IsNumeral ('+' :: digits) (value digits)
  | negative {digits : List Char} : IsDigits digits → IsNumeral ('-' :: digits) (-(value digits))

theorem foldl_accumulate (digits : List Char) : digits.foldl accumulate 0 = value digits := by
  induction digits using List.reverseRecOn with
  | nil => rfl
  | append_singleton digits c ih =>
    rw [List.foldl_append, ih, List.foldl_cons, List.foldl_nil, accumulate, value, value,
      List.reverse_append, List.reverse_singleton, List.singleton_append, List.map_cons,
      Nat.ofDigits_cons, Nat.add_comm]

theorem natural?_eq_some_iff {k : Nat} :
    natural? digits = some k ↔ IsDigits digits ∧ value digits = k := by
  simp only [natural?, foldl_accumulate, IsDigits, List.all_eq_true, Option.ite_none_right_eq_some,
    Option.some.injEq]

/-- What the two signs and no sign denote. -/
theorem denoted?_eq_some_iff : denoted? text = some n ↔ IsNumeral text n := by
  constructor
  · intro h
    unfold denoted? at h
    split at h
    · obtain ⟨m, hm, rfl⟩ := Option.map_eq_some_iff.1 h
      obtain ⟨k, hk, hm⟩ := Option.bind_eq_some_iff.1 hm
      obtain ⟨hdigits, rfl⟩ := natural?_eq_some_iff.1 hk
      obtain rfl := Option.some.inj hm
      exact .negative hdigits
    · obtain ⟨k, hk, rfl⟩ := Option.map_eq_some_iff.1 h
      obtain ⟨hdigits, rfl⟩ := natural?_eq_some_iff.1 hk
      exact .positive hdigits
    · obtain ⟨k, hk, rfl⟩ := Option.map_eq_some_iff.1 h
      obtain ⟨hdigits, rfl⟩ := natural?_eq_some_iff.1 hk
      exact .unsigned hdigits
  · intro h
    cases h with
    | unsigned hdigits =>
      rw [denoted?_of_all_isDigit hdigits.1 (List.all_eq_true.2 hdigits.2), foldl_accumulate]
      rfl
    | positive hdigits => rw [denoted?, natural?_eq_some_iff.2 ⟨hdigits, rfl⟩]; rfl
    | negative hdigits => rw [denoted?, natural?_eq_some_iff.2 ⟨hdigits, rfl⟩]; rfl

theorem IsNumeral.unique {m : Int} (h : IsNumeral text n) (h' : IsNumeral text m) : n = m :=
  Option.some.inj ((denoted?_eq_some_iff.2 h).symm.trans (denoted?_eq_some_iff.2 h'))

/-! ## Numerals of 64 bits -/

theorem fits_iff_bounds : fits n ↔ -2 ^ 63 ≤ n ∧ n ≤ 2 ^ 63 - 1 := by
  rw [fits_iff, Int64.toInt_minValue, Int64.toInt_maxValue]

theorem ofString?_eq_some_iff : ofString? s = some v ↔ IsNumeral s.toList v.toInt := by
  rw [← denoted?_eq_some_iff, ofString?]
  cases denoted? s.toList with
  | none => simp
  | some n =>
    simp only [Option.ite_none_right_eq_some, Option.some.injEq]
    constructor
    · rintro ⟨hfits, rfl⟩
      exact (toInt_ofInt hfits).symm
    · rintro rfl
      exact ⟨fits_toInt v, Int64.ofInt_toInt v⟩

theorem ofString?_eq_none_iff : ofString? s = none ↔ ∀ n, IsNumeral s.toList n → ¬ fits n := by
  simp only [← denoted?_eq_some_iff, ofString?]
  cases denoted? s.toList <;> simp

end Integer

/-! ## Operands -/

namespace Rule

variable {c : Cursor}

/-- A number is read from its text alone. -/
theorem operand_of_number (hk : c.current.kind = .number) : operand c =
    match Integer.ofString? c.current.value with
    | some v => .ok (.integer v c.current.span) c.advance
    | none => .error ⟨.numberParseError c.current.value, c.current.position⟩ c := by
  rw [operand, operandWith, bind_of_ok (show current c = .ok c.current c from rfl), hk]
  dsimp only
  cases Integer.ofString? c.current.value <;> rfl

theorem reads_of_number (hk : c.current.kind = .number) : c.Reads [c.current] c.advance :=
  .current (Token.isEndOfFile_eq_false (by simp [hk]))

theorem operand_number_eq_ok (hk : c.current.kind = .number) {n : Int} :
    (∃ v : Int64, v.toInt = n ∧ ∃ d, c.Reads [c.current] d ∧
      operand c = .ok (.integer v c.current.span) d) ↔
    Integer.IsNumeral c.current.value.toList n ∧ -2 ^ 63 ≤ n ∧ n ≤ 2 ^ 63 - 1 := by
  rw [operand_of_number hk, ← Integer.fits_iff_bounds]
  constructor
  · rintro ⟨v, rfl, d, -, hv⟩
    split at hv
    · next w hw =>
      cases hv
      exact ⟨Integer.ofString?_eq_some_iff.1 hw, Integer.fits_toInt v⟩
    · cases hv
  · rintro ⟨hn, hfits⟩
    have hv := Integer.toInt_ofInt hfits
    rw [← hv] at hn
    refine ⟨.ofInt n, hv, c.advance, reads_of_number hk, ?_⟩
    rw [Integer.ofString?_eq_some_iff.2 hn]

theorem operand_number_eq_error (hk : c.current.kind = .number)
    (h : ¬ ∃ n, Integer.IsNumeral c.current.value.toList n ∧ -2 ^ 63 ≤ n ∧ n ≤ 2 ^ 63 - 1) :
    operand c = .error ⟨.numberParseError c.current.value, c.current.position⟩ c := by
  have hnone : Integer.ofString? c.current.value = none :=
    Integer.ofString?_eq_none_iff.2 fun n hn hfits => h ⟨n, hn, Integer.fits_iff_bounds.1 hfits⟩
  rw [operand_of_number hk, hnone]

end Rule

/-! ## Numbers of a source -/

theorem Token.exists_digits_of_number {source : String} {ts : List Token} {t : Token}
    (h : ofSource source = .ok ts) (ht : t ∈ ts) (hk : t.kind = .number) :
    ∃ before digits rest, source.toList = before ++ (digits ++ rest) ∧
      Integer.IsDigits digits ∧ (∀ d ∈ rest.head?, d.isDigit = false) ∧
      t = ⟨.number, String.ofList digits,
        ⟨.after .start before, .after .start (before ++ digits)⟩⟩ := by
  rw [ofSource_eq_scan] at h
  obtain ⟨before, lexeme, rest, hsource, hlexeme, hspan⟩ :=
    exists_lexeme_of_mem h ht (isEndOfFile_eq_false (by simp [hk]))
  obtain ⟨kind, value, span⟩ := t
  dsimp only at hk hlexeme hspan
  subst hk hspan
  cases hlexeme with
  | @number c run hc hrun =>
    refine ⟨before, c :: run, rest, hsource, ⟨List.cons_ne_nil _ _, ?_⟩, hrun.2, rfl⟩
    rw [List.forall_mem_cons]
    exact ⟨hc, hrun.1⟩

theorem Token.ofSource_of_isDigits {source : String} (h : Integer.IsDigits source.toList) :
    ofSource source = .ok [⟨.number, source, ⟨.start, .after .start source.toList⟩⟩,
      .endOfFile (.after .start source.toList)] := by
  obtain ⟨c, run, hcons⟩ := List.exists_cons_of_ne_nil h.1
  obtain ⟨hc, hall⟩ := List.forall_mem_cons.1 (hcons ▸ h.2)
  have hrun : IsRun Char.isDigit run [] := ⟨hall, by simp⟩
  have hstart : ¬ AtLayout (c :: run ++ []) := not_atLayout_of_isWordStart (.inr hc)
  have hscan := scan_lexeme (p := .start) (.number hc hrun) hstart
  rw [List.append_nil, scan_nil, ← hcons, String.ofList_toList] at hscan
  rw [ofSource_eq_scan, hscan]
  rfl

namespace Rule

/-- **Integers are exact or refused.** A number is read as the integer that its text denotes, if
that has 64 bits, and no other token is consumed; otherwise the number is refused, and none is
consumed. Hence a row of digits in a source, however long, is read as its value if that is less than
`2 ^ 63`, and refused if it is not. -/
theorem operand_number_exact :
    (∀ c : Cursor, c.current.kind = .number →
      (∀ n : Int, (∃ v : Int64, v.toInt = n ∧ ∃ d, c.Reads [c.current] d ∧
          operand c = .ok (.integer v c.current.span) d) ↔
        Integer.IsNumeral c.current.value.toList n ∧ -2 ^ 63 ≤ n ∧ n ≤ 2 ^ 63 - 1) ∧
      ((¬ ∃ n, Integer.IsNumeral c.current.value.toList n ∧ -2 ^ 63 ≤ n ∧ n ≤ 2 ^ 63 - 1) →
        operand c = .error ⟨.numberParseError c.current.value, c.current.position⟩ c)) ∧
    ∀ source ts, Token.ofSource source = .ok ts → ∀ c : Cursor, c.current ∈ ts →
      c.current.kind = .number →
      ∃ before digits rest, source.toList = before ++ (digits ++ rest) ∧
        Integer.IsDigits digits ∧ (∀ d ∈ rest.head?, d.isDigit = false) ∧
        c.current = ⟨.number, String.ofList digits,
          ⟨.after .start before, .after .start (before ++ digits)⟩⟩ ∧
        (Integer.value digits ≤ 2 ^ 63 - 1 → ∃ v : Int64, v.toInt = Integer.value digits ∧
          ∃ d, c.Reads [c.current] d ∧ operand c = .ok (.integer v c.current.span) d) ∧
        (2 ^ 63 - 1 < Integer.value digits →
          operand c = .error ⟨.numberParseError c.current.value, c.current.position⟩ c) := by
  refine ⟨fun c hk => ⟨fun n => operand_number_eq_ok hk, operand_number_eq_error hk⟩, ?_⟩
  intro source ts hts c hc hk
  obtain ⟨before, digits, rest, hsource, hdigits, hrest, ht⟩ :=
    Token.exists_digits_of_number hts hc hk
  have hvalue : c.current.value.toList = digits := by rw [ht, String.toList_ofList]
  have hnumeral : Integer.IsNumeral c.current.value.toList (Integer.value digits) := by
    rw [hvalue]
    exact .unsigned hdigits
  refine ⟨before, digits, rest, hsource, hdigits, hrest, ht, fun hle => ?_, fun hlt => ?_⟩
  · exact (operand_number_eq_ok hk).2 ⟨hnumeral, by omega, by omega⟩
  · refine operand_number_eq_error hk ?_
    rintro ⟨n, hn, -, hle⟩
    rw [hn.unique hnumeral] at hle
    omega

/-- The least integer of 64 bits, which only a token with a sign can denote, and the least number of
a source that has more. -/
theorem operand_number_exact_bounds :
    let least := Cursor.ofTokens [⟨.number, "-9223372036854775808", ⟨⟨1, 1⟩, ⟨1, 21⟩⟩⟩]
    let above := Cursor.ofTokens
      [⟨.number, "9223372036854775808", ⟨⟨1, 1⟩, ⟨1, 20⟩⟩⟩, .endOfFile ⟨1, 20⟩]
    least.current.kind = .number ∧ (∃ v : Int64, v.toInt = -2 ^ 63 ∧ ∃ d,
      least.Reads [least.current] d ∧ operand least = .ok (.integer v least.current.span) d) ∧
    Token.ofSource "9223372036854775808" = .ok above.toList ∧ above.current ∈ above.toList ∧
      above.current.kind = .number ∧
      operand above = .error ⟨.numberParseError "9223372036854775808", ⟨1, 1⟩⟩ above := by
  intro least above
  obtain ⟨hnumber, hsource⟩ := operand_number_exact
  have hdigits : Integer.IsDigits "9223372036854775808".toList :=
    ⟨by decide, List.all_eq_true.1 rfl⟩
  have hleast : Integer.IsNumeral "-9223372036854775808".toList (-2 ^ 63) := .negative hdigits
  have htokens : Token.ofSource "9223372036854775808" = .ok above.toList :=
    Token.ofSource_of_isDigits hdigits
  have hmem : above.current ∈ above.toList := List.mem_cons_self
  obtain ⟨_, digits, _, -, -, -, habove, -, herror⟩ := hsource _ _ htokens above hmem rfl
  have hread : digits = "9223372036854775808".toList := by
    have hvalue : "9223372036854775808" = String.ofList digits := congrArg Token.value habove
    rw [hvalue, String.toList_ofList]
  refine ⟨rfl, ((hnumber least rfl).1 _).2 ⟨hleast, by decide, by decide⟩, htokens, hmem, rfl, ?_⟩
  exact herror (by rw [hread]; decide)

end Rule

end SpaceLang
