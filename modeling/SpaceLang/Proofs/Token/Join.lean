import SpaceLang.Proofs.Token.Decomposition
import SpaceLang.Proofs.Token.Move

/-!
# Texts joined by a line feed

A line feed ends words, numbers, operators and comments alike, so gaps and lexemes stay what they
are with a line feed and any text behind them. A scan therefore reads the tokens in front of a line
feed as if nothing followed, and goes on behind it (`Token.scan_append_newline`). As a scan is the
same at every height of a source (`Token.scan_down`), the tokens of two joined texts are those of
the one and, moved down, those of the other (`Token.ofSource_join`).
-/

namespace SpaceLang

variable {gap lexeme rest behind text : List Char} {kind : TokenKind} {value : String}

/-! ## In front of a line feed -/

theorem IsRun.append_newline {q : Char → Bool} {run : List Char} (h : IsRun q run rest)
    (hq : q '\n' = false) : IsRun q run (rest ++ '\n' :: behind) := by
  refine ⟨h.1, ?_⟩
  cases rest with
  | nil => simpa using hq
  | cons c cs => exact h.2

theorem IsGap.append_newline (h : IsGap rest gap) : IsGap (rest ++ '\n' :: behind) gap := by
  induction h with
  | nil => exact .nil
  | space hc _ ih => exact .space hc ih
  | comment hrun _ ih =>
    refine .comment ?_ ih
    rw [← List.append_assoc]
    exact hrun.append_newline rfl

theorem spacedLike_append_newline : SpacedLike rest (rest ++ '\n' :: behind) := by
  intro c hc
  cases rest with
  | nil =>
    obtain rfl : '\n' = c := Option.some.inj hc
    exact .inl (by decide)
  | cons d ds => exact .inr hc

theorem not_atLayout_append_newline (h : ¬ AtLayout text) (hne : text ≠ []) :
    ¬ AtLayout (text ++ '\n' :: behind) := by
  obtain ⟨c, cs, rfl⟩ := List.exists_cons_of_ne_nil hne
  exact fun hlayout => h (hlayout.of_spacedLike spacedLike_append_newline)

/-! ## Scans -/

namespace Token

variable {p : Position} {ts : List Token}

/-- A scan reads what stands in front of a line feed and goes on behind it. -/
theorem scan_append_newline (h : scan p text = .ok ts) :
    ∃ us q, ts = us ++ [endOfFile q] ∧ ∀ behind, scan p (text ++ '\n' :: behind) =
      (scan ((p.after text).next '\n') behind).map (us ++ ·) := by
  refine scan_induct (motive := fun p text ts => ∃ us q, ts = us ++ [endOfFile q] ∧
    ∀ behind, scan p (text ++ '\n' :: behind) =
      (scan ((p.after text).next '\n') behind).map (us ++ ·)) ?_ ?_ h
  · intro p gap hgap
    refine ⟨[], p.after gap, rfl, fun behind => ?_⟩
    have hgap' : IsGap ('\n' :: behind) gap := hgap.append_newline
    rw [scan_gap hgap', scan_whiteSpace (by decide)]
    cases scan ((p.after gap).next '\n') behind <;> rfl
  · rintro p gap lexeme rest kind value _ hgap hrest hlexeme ⟨us, q, rfl, hscan⟩
    refine ⟨⟨kind, value, ⟨p.after gap, (p.after gap).after lexeme⟩⟩ :: us, q, rfl,
      fun behind => ?_⟩
    have hgap' : IsGap (lexeme ++ rest ++ '\n' :: behind) gap := hgap.append_newline
    have hrest' : ¬ AtLayout (lexeme ++ rest ++ '\n' :: behind) :=
      not_atLayout_append_newline hrest (List.append_ne_nil_of_left_ne_nil hlexeme.ne_nil rest)
    rw [List.append_assoc] at hgap' hrest'
    rw [List.append_assoc, List.append_assoc, scan_gap hgap',
      scan_lexeme (hlexeme.of_spacedLike spacedLike_append_newline) hrest', hscan,
      Position.after_append, Position.after_append]
    cases scan ((((p.after gap).after lexeme).after rest).next '\n') behind <;> rfl

/-! ## Sources -/

variable {s₁ s₂ : String}

theorem ofSource_append_newline {ts₁ : List Token} (h₁ : ofSource s₁ = .ok ts₁) (s₂ : String) :
    ∃ us q, ts₁ = us ++ [endOfFile q] ∧
      (∀ ts₂, ofSource s₂ = .ok ts₂ →
        ofSource (s₁ ++ "\n" ++ s₂) = .ok (us ++ ts₂.map (mapSpan (Span.map (.below s₁))))) ∧
      ∀ d, ofSource s₂ = .error d → ofSource (s₁ ++ "\n" ++ s₂) = .error (d.map (.below s₁)) := by
  have hjoin : (s₁ ++ "\n" ++ s₂).toList = s₁.toList ++ '\n' :: s₂.toList := by simp
  rw [ofSource_eq_scan] at h₁
  obtain ⟨us, q, rfl, hscan⟩ := scan_append_newline h₁
  refine ⟨us, q, rfl, fun ts₂ h₂ => ?_, fun d h₂ => ?_⟩
  · rw [ofSource_eq_scan] at h₂
    rw [ofSource_eq_scan, hjoin, hscan, Position.next_newline_after_start, (scan_down _ _ _).1 _ h₂]
    rfl
  · rw [ofSource_eq_scan] at h₂
    rw [ofSource_eq_scan, hjoin, hscan, Position.next_newline_after_start, (scan_down _ _ _).2 _ h₂]
    rfl

theorem line_below {p : Position} (hlen : (s₁ ++ "\n" ++ s₂).length < UInt32.size - 1)
    (hp : p.IsIn .start s₂.toList) : 1 ≤ p.line.toNat ∧
      (p.below s₁).line.toNat = p.line.toNat + (s₁.toList.count '\n' + 1) := by
  have hcount : s₁.toList.count '\n' ≤ s₁.toList.length := List.count_le_length
  have hlength : s₁.toList.length + (s₂.toList.length + 1) < UInt32.size - 1 := by
    rw [← String.length_toList] at hlen
    simpa [Nat.add_assoc, Nat.add_comm 1] using hlen
  exact ⟨(hp.line_bounds (by omega)).1, hp.line_down (by omega)⟩

/-- **Joined texts are read one after the other.** Two texts with a line feed between have the
tokens of the first one, without its end marker, and behind them those of the second one, each
further down by the lines of the first; where the second one is refused, the joined text is refused
for the same cause, which shows further down as well. No line number wraps on the way. -/
theorem ofSource_join {s₁ s₂ : String} {ts₁ : List Token}
    (hlen : (s₁ ++ "\n" ++ s₂).length < UInt32.size - 1) (h₁ : ofSource s₁ = .ok ts₁) :
    ∃ us q, ts₁ = us ++ [endOfFile q] ∧
      (∀ ts₂, ofSource s₂ = .ok ts₂ →
        ofSource (s₁ ++ "\n" ++ s₂) = .ok (us ++ ts₂.map (mapSpan (Span.map (.below s₁)))) ∧
        ∀ t ∈ ts₂, ∀ p ∈ [t.span.start, t.span.stop],
          (p.below s₁).line.toNat = p.line.toNat + (s₁.toList.count '\n' + 1)) ∧
      ∀ d, ofSource s₂ = .error d →
        ofSource (s₁ ++ "\n" ++ s₂) = .error (d.map (.below s₁)) ∧
        (d.position.below s₁).line.toNat =
          d.position.line.toNat + (s₁.toList.count '\n' + 1) := by
  obtain ⟨us, q, hts₁, hok, herror⟩ := ofSource_append_newline h₁ s₂
  refine ⟨us, q, hts₁, fun ts₂ h₂ => ⟨hok ts₂ h₂, fun t ht => ?_⟩,
    fun d h₂ => ⟨herror d h₂, ?_⟩⟩
  · rw [ofSource_eq_scan] at h₂
    obtain ⟨hstart, hstop⟩ := isIn_of_scan.1 _ h₂ t ht
    simpa using ⟨(line_below hlen hstart).2, (line_below hlen hstop).2⟩
  · rw [ofSource_eq_scan] at h₂
    exact (line_below hlen (isIn_of_scan.2 _ h₂)).2

/-- An open comment in front, and behind it a literal of two lines. -/
theorem ofSource_join_comment_literal :
    ("/\n//\"" ++ "\n" ++ "/\"\n\"").length < UInt32.size - 1 ∧
    ofSource "/\n//\"" = .ok [⟨.operator, "/", ⟨⟨1, 1⟩, ⟨1, 2⟩⟩⟩, .endOfFile ⟨2, 4⟩] ∧
    ofSource ("/\n//\"" ++ "\n" ++ "/\"\n\"") = .ok [⟨.operator, "/", ⟨⟨1, 1⟩, ⟨1, 2⟩⟩⟩,
      ⟨.operator, "/", ⟨⟨3, 1⟩, ⟨3, 2⟩⟩⟩, ⟨.string, "\n", ⟨⟨3, 2⟩, ⟨4, 2⟩⟩⟩, .endOfFile ⟨4, 2⟩] := by
  have hlen : ("/\n//\"" ++ "\n" ++ "/\"\n\"").length < UInt32.size - 1 := by decide
  have h₁ : ofSource "/\n//\"" =
      .ok [⟨.operator, "/", ⟨⟨1, 1⟩, ⟨1, 2⟩⟩⟩, .endOfFile ⟨2, 4⟩] := by
    have hslash : Piece.first? '/' ['\n', '/', '/', '"'] = some (.operator ['/']) := rfl
    have hcomment : Piece.first? '/' ['/', '"'] = some (.comment ['"']) := rfl
    rw [ofSource_eq_scan, show "/\n//\"".toList = ['/', '\n', '/', '/', '"'] from rfl,
      scan_of_some hslash]
    dsimp only [Piece.text, List.length, List.drop]
    rw [scan_whiteSpace (by decide), scan_of_some hcomment]
    dsimp only [Piece.text, List.length, List.drop]
    rw [scan_nil]
    rfl
  have h₂ : ofSource "/\"\n\"" = .ok [⟨.operator, "/", ⟨⟨1, 1⟩, ⟨1, 2⟩⟩⟩,
      ⟨.string, "\n", ⟨⟨1, 2⟩, ⟨2, 2⟩⟩⟩, .endOfFile ⟨2, 2⟩] := by
    rw [ofSource_eq_scan]
    cbv
  obtain ⟨us, q, heq, hok, -⟩ := ofSource_join hlen h₁
  obtain ⟨rfl, -⟩ := List.append_inj' (show [_] ++ [_] = us ++ [endOfFile q] from heq) rfl
  exact ⟨hlen, h₁, (hok _ h₂).1⟩

end Token

end SpaceLang
