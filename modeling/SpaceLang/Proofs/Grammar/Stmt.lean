import SpaceLang.Proofs.Grammar.Expr
import SpaceLang.Stmt.Rule

/-!
# Statements are read by their grammar

`stmt` is sound and complete for the phrase `IsStmt`, whatever follows: a statement ends with its
semicolon. Completeness needs that the first two tokens give the kind of statement away. An
expression begins neither with `return` nor with `let`, and the grammar leaves no expression that
begins like a declaration.
-/

namespace SpaceLang

open Grammar

namespace Grammar

theorem endsExpr_semicolon {t : Token} (h : t.isSymbol ";") : EndsExpr t :=
  endsExpr_of_isSymbol h rfl (by decide)

theorem IsStmt.first {ts : List Token} {s : Stmt} (h : IsStmt ts s) :
    ∃ t us, ts = t :: us ∧ ∀ sym, t.isSymbol sym = false := by
  cases h with
  | bareReturn hk => exact ⟨_, _, rfl, Token.not_symbol_of_isKeyword hk⟩
  | valueReturn hk => exact ⟨_, _, rfl, Token.not_symbol_of_isKeyword hk⟩
  | implicit hk => exact ⟨_, _, rfl, Token.not_symbol_of_isKeyword hk⟩
  | explicit ht => exact ⟨_, _, rfl, Token.not_symbol_of_isTypeName ht⟩
  | expr hE =>
    obtain ⟨t, us, rfl, ht⟩ := hE.first
    exact ⟨t, _, rfl, ht.not_symbol⟩

theorem IsStmt.ne_nil {ts : List Token} {s : Stmt} (h : IsStmt ts s) : ts ≠ [] := by
  obtain ⟨t, us, rfl, -⟩ := h.first
  exact List.cons_ne_nil t us

theorem beginsDeclaration_eq {c d : Cursor} {ts us : List Token} (hr : c.Reads (ts ++ us) d)
    (hts : ts ≠ []) (hus : us ≠ []) :
    beginsDeclaration (ts ++ us) = (c.current.isTypeName && (c.peek 1).kind = .identifier) := by
  have htwo : ∃ t u vs, ts ++ us = t :: u :: vs := by
    obtain ⟨t, ts, rfl⟩ := List.exists_cons_of_ne_nil hts
    obtain ⟨u, vs, h⟩ := List.exists_cons_of_ne_nil (List.append_ne_nil_of_right_ne_nil ts hus)
    exact ⟨t, u, vs, by rw [List.cons_append, h]⟩
  obtain ⟨t, u, vs, h⟩ := htwo
  rw [h] at hr ⊢
  obtain ⟨rfl, ht, rfl, -⟩ := hr
  rw [beginsDeclaration, Cursor.peek_succ ht, Cursor.peek_zero]

end Grammar

namespace Rule

/-! ## When the rules succeed -/

section

variable {c d : Cursor} {s : Stmt}

theorem initializer?_eq_ok {v : Option Expr} : initializer? c = .ok v d ↔
    (c.current.isOperator "=" ∧ ∃ e, expr c.advance = .ok e d ∧ some e = v) ∨
      ¬ c.current.isOperator "=" ∧ none = v ∧ c = d := by
  simp only [initializer?, bind_eq_ok, current_eq_ok, ite_eq_ok, pure_eq_ok, seqRight_eq_ok,
    advance_eq_ok, map_eq_ok, and_assoc, exists_and_left, exists_eq_left']

theorem returnStmt_eq_ok : returnStmt c = .ok s d ↔
    (c.advance.current.isSymbol ";" ∧
      .ret none ⟨c.current.position, c.advance.advance.previousEnd⟩ = s ∧ c.advance.advance = d) ∨
    ¬ c.advance.current.isSymbol ";" ∧ ∃ e c', expr c.advance = .ok e c' ∧
      c'.current.isSymbol ";" ∧ .ret (some e) ⟨c.current.position, c'.advance.previousEnd⟩ = s ∧
        c'.advance = d := by
  simp only [returnStmt, bind_eq_ok, advance_eq_ok, current_eq_ok, ite_eq_ok, pure_eq_ok,
    map_eq_ok, symbol_eq_ok, spanFrom_eq_ok, and_assoc, exists_and_left, exists_eq_left']
  refine or_congr (by rw [and_self_left]) (and_congr_right fun _ => ⟨?_, ?_⟩)
  · rintro ⟨_, c', ⟨e, he, rfl⟩, h⟩
    exact ⟨e, c', he, h⟩
  · rintro ⟨e, c', he, h⟩
    exact ⟨some e, c', ⟨e, he, rfl⟩, h⟩

theorem implicitVariable_eq_ok : implicitVariable c = .ok s d ↔
    c.advance.current.kind = .identifier ∧
    ∃ e c', initializer? c.advance.advance = .ok (some e) c' ∧ c'.current.isSymbol ";" ∧
      .declare ⟨c.advance.current.value, none, some e,
        ⟨c.current.position, c'.advance.previousEnd⟩⟩ = s ∧ c'.advance = d := by
  simp only [implicitVariable, bind_eq_ok, advance_eq_ok, identifier_eq_ok, and_assoc,
    exists_and_left, exists_eq_left']
  refine and_congr_right fun _ => ⟨?_, ?_⟩
  · rintro ⟨v, c', hv, h⟩
    cases v with
    | none => simp [fail_eq_ok] at h
    | some e =>
      simp only [bind_eq_ok, symbol_eq_ok, spanFrom_eq_ok, pure_eq_ok, and_assoc, exists_and_left,
        exists_eq_left'] at h
      exact ⟨e, c', hv, h⟩
  · rintro ⟨e, c', hv, h⟩
    refine ⟨some e, c', hv, ?_⟩
    simpa only [bind_eq_ok, symbol_eq_ok, spanFrom_eq_ok, pure_eq_ok, and_assoc, exists_and_left,
      exists_eq_left'] using h

theorem explicitVariable_eq_ok : explicitVariable c = .ok s d ↔
    c.current.isTypeName ∧ c.advance.current.kind = .identifier ∧
    ∃ v c', initializer? c.advance.advance = .ok v c' ∧ c'.current.isSymbol ";" ∧
      .declare ⟨c.advance.current.value, some c.current.value, v,
        ⟨c.current.position, c'.advance.previousEnd⟩⟩ = s ∧ c'.advance = d := by
  simp only [explicitVariable, bind_eq_ok, typeName_eq_ok, identifier_eq_ok, pure_eq_ok,
    symbol_eq_ok, spanFrom_eq_ok, and_assoc, exists_and_left, exists_eq_left']

theorem exprStmt_eq_ok : exprStmt c = .ok s d ↔
    ∃ e c', expr c = .ok e c' ∧ c'.current.isSymbol ";" ∧
      .expr e ⟨c.current.position, c'.advance.previousEnd⟩ = s ∧ c'.advance = d := by
  simp only [exprStmt, bind_eq_ok, current_eq_ok, symbol_eq_ok, spanFrom_eq_ok, pure_eq_ok,
    and_assoc, exists_and_left, exists_eq_left']

theorem stmt_eq_ok : stmt c = .ok s d ↔
    (c.current.isKeyword "return" ∧ returnStmt c = .ok s d) ∨
    ¬ c.current.isKeyword "return" ∧ ((c.current.isKeyword "let" ∧ implicitVariable c = .ok s d) ∨
      ¬ c.current.isKeyword "let" ∧
        (((c.current.isTypeName && (c.peek 1).kind = .identifier) ∧ explicitVariable c = .ok s d) ∨
          ¬ (c.current.isTypeName && (c.peek 1).kind = .identifier) ∧ exprStmt c = .ok s d)) := by
  simp only [stmt, bind_eq_ok, current_eq_ok, peek_eq_ok, ite_eq_ok, and_assoc, exists_and_left,
    exists_eq_left']

end

/-! ## Initializers -/

theorem initializer?_sound : Sound initializer? IsInitializer := by
  intro c d v h
  rcases initializer?_eq_ok.1 h with ⟨hq, e, he, rfl⟩ | ⟨-, rfl, rfl⟩
  · obtain ⟨ts, hr, hE⟩ := expr_sound he
    exact ⟨c.current :: ts, ⟨rfl, Token.not_endOfFile_of_isOperator hq, hr⟩, .some hq hE⟩
  · exact ⟨[], rfl, .none⟩

theorem initializer?_complete :
    Complete initializer? IsInitializer (fun t => EndsExpr t ∧ t.isOperator "=" = false) := by
  intro c d ts v hr hI hf
  rw [initializer?_eq_ok]
  cases hI with
  | none =>
    obtain rfl : c = d := hr
    exact .inr ⟨by simp [hf.2], rfl, rfl⟩
  | @some q ts e hq hE =>
    obtain ⟨rfl, -, hr⟩ := hr
    exact .inl ⟨hq, e, expr_complete hr hE hf.1, rfl⟩

/-! ## Soundness -/

theorem returnStmt_sound {c d : Cursor} {s : Stmt} (hk : c.current.isKeyword "return")
    (h : returnStmt c = .ok s d) : ∃ ts, c.Reads ts d ∧ IsStmt ts s := by
  have hk' := Token.not_endOfFile_of_isKeyword hk
  rcases returnStmt_eq_ok.1 h with ⟨hs, rfl, rfl⟩ | ⟨-, e, c₁, he, hs, rfl, rfl⟩
  · have hr : c.Reads [c.current, c.advance.current] c.advance.advance :=
      ⟨rfl, hk', rfl, Token.not_endOfFile_of_isSymbol hs, rfl⟩
    refine ⟨_, hr, ?_⟩
    rw [hr.span_eq (List.cons_ne_nil _ _)]
    exact .bareReturn hk hs
  · obtain ⟨ts, hr, hE⟩ := expr_sound he
    have hr' : c.Reads (c.current :: (ts ++ [c₁.current])) c₁.advance :=
      ⟨rfl, hk', hr.append (.current (Token.not_endOfFile_of_isSymbol hs))⟩
    refine ⟨_, hr', ?_⟩
    rw [hr'.span_eq (List.cons_ne_nil _ _)]
    exact .valueReturn hk hE hs

theorem implicitVariable_sound {c d : Cursor} {s : Stmt} (hk : c.current.isKeyword "let")
    (h : implicitVariable c = .ok s d) : ∃ ts, c.Reads ts d ∧ IsStmt ts s := by
  obtain ⟨hn, e, c₁, hv, hs, rfl, rfl⟩ := implicitVariable_eq_ok.1 h
  obtain ⟨us, hr, hI⟩ := initializer?_sound hv
  cases hI with
  | @some q ts e hq hE =>
    have hr' : c.Reads (c.current :: c.advance.current :: q :: (ts ++ [c₁.current])) c₁.advance :=
      ⟨rfl, Token.not_endOfFile_of_isKeyword hk, rfl, Token.not_endOfFile_of_kind hn,
        hr.append (.current (Token.not_endOfFile_of_isSymbol hs))⟩
    refine ⟨_, hr', ?_⟩
    rw [hr'.span_eq (List.cons_ne_nil _ _)]
    exact .implicit hk hn hq hE hs

theorem explicitVariable_sound : Sound explicitVariable IsStmt := by
  intro c d s h
  obtain ⟨ht, hn, v, c₁, hv, hs, rfl, rfl⟩ := explicitVariable_eq_ok.1 h
  obtain ⟨ts, hr, hI⟩ := initializer?_sound hv
  have hr' : c.Reads (c.current :: c.advance.current :: (ts ++ [c₁.current])) c₁.advance :=
    ⟨rfl, Token.not_endOfFile_of_isTypeName ht, rfl, Token.not_endOfFile_of_kind hn,
      hr.append (.current (Token.not_endOfFile_of_isSymbol hs))⟩
  refine ⟨_, hr', ?_⟩
  rw [hr'.span_eq (List.cons_ne_nil _ _)]
  exact .explicit ht hn hI hs

theorem exprStmt_sound {c d : Cursor} {s : Stmt}
    (hc : (c.current.isTypeName && (c.peek 1).kind = .identifier) = false)
    (h : exprStmt c = .ok s d) : ∃ ts, c.Reads ts d ∧ IsStmt ts s := by
  obtain ⟨e, c₁, he, hs, rfl, rfl⟩ := exprStmt_eq_ok.1 h
  obtain ⟨ts, hr, hE⟩ := expr_sound he
  have hr' : c.Reads (ts ++ [c₁.current]) c₁.advance :=
    hr.append (.current (Token.not_endOfFile_of_isSymbol hs))
  rw [← beginsDeclaration_eq hr' hE.ne_nil (List.cons_ne_nil _ _)] at hc
  refine ⟨_, hr', ?_⟩
  rw [hr'.span_eq (List.append_ne_nil_of_right_ne_nil ts (List.cons_ne_nil _ _))]
  exact .expr hE hs hc

theorem stmt_sound : Sound stmt IsStmt := by
  intro c d s h
  rcases stmt_eq_ok.1 h with ⟨hk, h⟩ | ⟨-, ⟨hk, h⟩ | ⟨-, ⟨-, h⟩ | ⟨hc, h⟩⟩⟩
  · exact returnStmt_sound hk h
  · exact implicitVariable_sound hk h
  · exact explicitVariable_sound h
  · exact exprStmt_sound (Bool.eq_false_iff.2 hc) h

/-! ## Completeness -/

theorem stmt_complete : Complete stmt IsStmt (fun _ => True) := by
  intro c d ts s hr hS _
  rw [stmt_eq_ok]
  have hspan := hr.span_eq hS.ne_nil
  cases hS with
  | bareReturn hk hs =>
    obtain ⟨rfl, -, rfl, -, rfl⟩ := hr
    exact .inl ⟨hk, returnStmt_eq_ok.2 (.inl ⟨hs, congrArg _ hspan, rfl⟩)⟩
  | valueReturn hk hE hs =>
    obtain ⟨rfl, -, hr⟩ := hr
    obtain ⟨c₁, hr₁, rfl, -, rfl⟩ := Cursor.reads_append.1 hr
    have hfirst : c.advance.current.isSymbol ";" = false := by
      obtain ⟨t, us, rfl, ht⟩ := hE.first
      exact hr₁.1 ▸ ht.not_symbol ";"
    have he := expr_complete hr₁ hE (endsExpr_semicolon hs)
    refine .inl ⟨hk, returnStmt_eq_ok.2 (.inr ⟨Bool.eq_false_iff.1 hfirst, _, c₁, he, hs, ?_, rfl⟩)⟩
    rw [hspan]
  | @implicit k n q ts e semi hk hn hq hE hs =>
    obtain ⟨rfl, -, rfl, -, hr⟩ := hr
    have hr' : c.advance.advance.Reads ((q :: ts) ++ [semi]) d := hr
    obtain ⟨c₁, hr₁, rfl, -, rfl⟩ := Cursor.reads_append.1 hr'
    have hreturn := Token.isKeyword_eq_false hk (show "let" ≠ "return" by decide)
    have hv := initializer?_complete hr₁ (.some hq hE)
      ⟨endsExpr_semicolon hs, Token.isOperator_eq_false hs⟩
    refine .inr ⟨Bool.eq_false_iff.1 hreturn, .inl ⟨hk, ?_⟩⟩
    refine implicitVariable_eq_ok.2 ⟨hn, e, c₁, hv, hs, ?_, rfl⟩
    rw [hspan]
  | explicit ht hn hI hs =>
    obtain ⟨rfl, ht', rfl, -, hr⟩ := hr
    obtain ⟨c₁, hr₁, rfl, -, rfl⟩ := Cursor.reads_append.1 hr
    have hreturn := Token.not_keyword_of_isTypeName ht (show "return" ∉ builtinTypes by decide)
    have hlet := Token.not_keyword_of_isTypeName ht (show "let" ∉ builtinTypes by decide)
    have hsecond : (c.peek 1).kind = .identifier := by
      rw [Cursor.peek_succ ht', Cursor.peek_zero, hn]
    have hv := initializer?_complete hr₁ hI
      ⟨endsExpr_semicolon hs, Token.isOperator_eq_false hs⟩
    refine .inr ⟨Bool.eq_false_iff.1 hreturn, .inr ⟨Bool.eq_false_iff.1 hlet,
      .inl ⟨by simp [ht, hsecond], ?_⟩⟩⟩
    refine explicitVariable_eq_ok.2 ⟨ht, hn, _, c₁, hv, hs, ?_, rfl⟩
    rw [hspan]
  | expr hE hs hd =>
    rw [beginsDeclaration_eq hr hE.ne_nil (List.cons_ne_nil _ _)] at hd
    obtain ⟨c₁, hr₁, rfl, -, rfl⟩ := Cursor.reads_append.1 hr
    have hkeyword : ∀ {w}, w ≠ "this" → c.current.isKeyword w = false := by
      intro w hw
      obtain ⟨t, us, rfl, ht⟩ := hE.first
      exact hr₁.1 ▸ ht.not_keyword hw
    have hreturn := hkeyword (show "return" ≠ "this" by decide)
    have hlet := hkeyword (show "let" ≠ "this" by decide)
    have he := expr_complete hr₁ hE (endsExpr_semicolon hs)
    refine .inr ⟨Bool.eq_false_iff.1 hreturn, .inr ⟨Bool.eq_false_iff.1 hlet,
      .inr ⟨Bool.eq_false_iff.1 hd, ?_⟩⟩⟩
    refine exprStmt_eq_ok.2 ⟨_, c₁, he, hs, ?_, rfl⟩
    rw [hspan]

end Rule

end SpaceLang
