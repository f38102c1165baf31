import SpaceLang.Proofs.Rule.Phrase

/-!
# Expressions are read by their grammar

`expr` is sound for the phrase `IsExpr`, and complete in front of any token that could not go on
with an expression: one without the text of an operator that is no dot. The two inductions differ.
Soundness follows the rule, which calls itself where fewer tokens remain (`expr_induct`);
completeness follows the number of tokens of the phrase, since the arguments of a call are fewer
tokens than the call.
-/

namespace SpaceLang

namespace Grammar

variable {α : Type} {P : Phrase α} {t : Token} {ts us : List Token} {e : Expr}

/-! ## How expressions begin -/

/-- Whether an operand can begin with a token. -/
def BeginsOperand (t : Token) : Prop := t.kind = .number ∨ t.kind = .string ∨ IsName t

theorem BeginsOperand.not_symbol (h : BeginsOperand t) (s : String) : t.isSymbol s = false := by
  rcases h with hk | hk | hk | hw
  · exact Token.isSymbol_eq_false_of_kind (by simp [hk])
  · exact Token.isSymbol_eq_false_of_kind (by simp [hk])
  · exact Token.isSymbol_eq_false_of_kind (by simp [hk])
  · exact Token.not_symbol_of_isKeyword hw s

theorem BeginsOperand.not_endOfFile (h : BeginsOperand t) : t.isEndOfFile = false := by
  rcases h with hk | hk | hk | hw
  · exact Token.isEndOfFile_eq_false (by simp [hk])
  · exact Token.isEndOfFile_eq_false (by simp [hk])
  · exact Token.not_endOfFile_of_kind hk
  · exact Token.not_endOfFile_of_isKeyword hw

theorem BeginsOperand.not_keyword (h : BeginsOperand t) {w : String} (hw : w ≠ "this") :
    t.isKeyword w = false := by
  rcases h with hk | hk | hk | hthis
  · exact Token.isKeyword_eq_false_of_kind (by simp [hk])
  · exact Token.isKeyword_eq_false_of_kind (by simp [hk])
  · exact Token.isKeyword_eq_false_of_kind (by simp [hk])
  · exact Token.isKeyword_eq_false hthis hw.symm

theorem IsOperand.first (h : IsOperand ts e) : ∃ t us, ts = t :: us ∧ BeginsOperand t := by
  cases h with
  | integer h => exact ⟨_, _, rfl, .inl h⟩
  | string h => exact ⟨_, _, rfl, .inr (.inl h)⟩
  | name h => exact ⟨_, _, rfl, .inr (.inr h)⟩
  | call h => exact ⟨_, _, rfl, .inr (.inr h)⟩

theorem IsExpr.first {ts e} (h : IsExpr ts e) : ∃ t us, ts = t :: us ∧ BeginsOperand t := by
  cases h with
  | operand h => exact h.first
  | @binary _ us o _ _ _ hl _ _ =>
    obtain ⟨t, vs, rfl, ht⟩ := hl.first
    exact ⟨t, vs ++ o :: us, rfl, ht⟩

theorem IsExpr.ne_nil (h : IsExpr ts e) : ts ≠ [] := by
  obtain ⟨t, us, rfl, _⟩ := h.first
  exact List.cons_ne_nil t us

theorem IsOperand.ne_nil (h : IsOperand ts e) : ts ≠ [] :=
  (IsExpr.operand h).ne_nil

/-! ## Spans -/

theorem IsOperand.span_eq (h : IsOperand ts e) : e.span = .ofTokens ts := by
  cases h <;> rfl

theorem IsExpr.span_eq (h : IsExpr ts e) : e.span = .ofTokens ts := by
  cases h with
  | operand h => exact h.span_eq
  | binary => rfl

theorem join_eq {l r : Expr} (o : Token) (op : BinaryOperator) (hl : IsExpr ts l)
    (hr : IsOperand us r) : l.join op r = .binary op l r (.ofTokens (ts ++ o :: us)) := by
  have hstart := Span.start_ofTokens_append (o :: us) hl.ne_nil
  have hstop := Span.stop_ofTokens_append (ts ++ [o]) hr.ne_nil
  rw [List.append_assoc, List.singleton_append] at hstop
  rw [Expr.join, hl.span_eq, hr.span_eq, Span.join, ← hstart, ← hstop]

/-! ## Chains -/

/-- An operator and the operand behind it. -/
inductive IsOperation : Phrase (BinaryOperator × Expr)
  | mk {o ts op e} : BinaryOperator.ofSymbol? o.value = some op → IsOperand ts e →
      IsOperation (o :: ts) (op, e)

theorem Many.snoc {a : α} {as : List α} (h : Many P ts as) (ha : P us a) :
    Many P (ts ++ us) (as ++ [a]) := by
  induction h with
  | nil => simpa using Many.cons ha .nil
  | cons hb _ ih =>
    rw [List.append_assoc]
    exact .cons hb ih

theorem IsExpr.foldl {others : List (BinaryOperator × Expr)} (h : IsExpr ts e)
    (hM : Many IsOperation us others) :
    IsExpr (ts ++ us) (others.foldl (fun left (op, right) => left.join op right) e) := by
  induction hM generalizing ts e with
  | nil => rwa [List.append_nil]
  | cons ho _ ih =>
    obtain @⟨o, ts', op, r, ho, hr⟩ := ho
    rw [← List.append_assoc]
    refine ih ?_
    dsimp only
    rw [join_eq o op h hr]
    exact .binary h ho hr

theorem IsExpr.exists_operand {ts e} (h : IsExpr ts e) :
    ∃ us vs first others, ts = us ++ vs ∧ IsOperand us first ∧ Many IsOperation vs others ∧
      e = others.foldl (fun left (op, right) => left.join op right) first := by
  cases h with
  | operand h => exact ⟨ts, [], e, [], (List.append_nil ts).symm, h, .nil, rfl⟩
  | @binary ts us o op l r hl ho hr =>
    obtain ⟨us', vs, first, others, rfl, hf, hM, he⟩ := hl.exists_operand
    refine ⟨us', vs ++ o :: us, first, others ++ [(op, r)], List.append_assoc .., hf,
      hM.snoc (.mk ho hr), ?_⟩
    rw [List.foldl_append, ← he, ← join_eq o op hl hr]
    rfl

/-! ## Phrases of bounded length -/

/-- The phrases of at most `n` tokens. -/
def Phrase.upTo (n : Nat) (P : Phrase α) : Phrase α := fun ts a => P ts a ∧ ts.length ≤ n

theorem Many.mono {Q : Phrase α} {as : List α} (h : Many P ts as)
    (hP : ∀ us a, P us a → Q us a) : Many Q ts as := by
  induction h with
  | nil => exact .nil
  | cons ha _ ih => exact .cons (hP _ _ ha) ih

theorem Many.upTo {n : Nat} {as : List α} (h : Many P ts as) (hn : ts.length ≤ n) :
    Many (P.upTo n) ts as := by
  induction h with
  | nil => exact .nil
  | cons ha _ ih =>
    rw [List.length_append] at hn
    exact .cons ⟨ha, by omega⟩ (ih (by omega))

theorem CommaList.upTo {n : Nat} {as : List α} (h : CommaList P ts as) (hn : ts.length ≤ n) :
    CommaList (P.upTo n) ts as := by
  cases h with
  | nil => exact .nil
  | cons ha hM =>
    rw [List.length_append] at hn
    have hM' : Many ((After "," P).upTo n) _ _ := hM.upTo (by omega)
    refine .cons ⟨ha, by omega⟩ (hM'.mono ?_)
    rintro _ _ ⟨⟨hs, hb⟩, hn⟩
    rw [List.length_cons] at hn
    exact .mk hs ⟨hb, by omega⟩

/-! ## Where expressions end -/

/-- Whether an expression ends in front of a token: it is neither an operator nor a dot. -/
def EndsExpr (t : Token) : Prop :=
  BinaryOperator.ofSymbol? t.value = none ∧ t.isSymbol "." = false

theorem endsExpr_of_isSymbol {s : String} (h : t.isSymbol s)
    (hop : BinaryOperator.ofSymbol? s = none) (hdot : s ≠ ".") : EndsExpr t := by
  exact ⟨(Token.isSymbol_iff.1 h).2 ▸ hop, Token.isSymbol_eq_false h hdot⟩

theorem not_dot_of_ofSymbol? {op : BinaryOperator}
    (h : BinaryOperator.ofSymbol? t.value = some op) : t.isSymbol "." = false := by
  have hv := BinaryOperator.symbol_eq_of_ofSymbol? h
  cases op <;> simp [Token.isSymbol, ← hv, BinaryOperator.symbol]

end Grammar

namespace Rule

open Grammar

/-! ## When the rules succeed -/

section

variable {c d : Cursor} {argument : Rule Expr} {target e : Expr}

theorem callWith_eq_ok : callWith argument target c = .ok e d ↔
    ((c.current.isSymbol "." && (c.peek 1).kind = .identifier && (c.peek 2).isSymbol "(") ∧
      ∃ arguments c', commaList ")" argument c.advance.advance.advance = .ok arguments c' ∧
        c'.current.isSymbol ")" ∧ .call target c.advance.current.value arguments
          ⟨target.span.start, c'.advance.previousEnd⟩ = e ∧ c'.advance = d) ∨
    ¬ (c.current.isSymbol "." && (c.peek 1).kind = .identifier && (c.peek 2).isSymbol "(") ∧
      target = e ∧ c = d := by
  simp only [callWith, bind_eq_ok, current_eq_ok, peek_eq_ok, ite_eq_ok, pure_eq_ok, advance_eq_ok,
    symbol_eq_ok, spanFrom_eq_ok, and_assoc, exists_and_left, exists_eq_left']

theorem operandWith_eq_ok : operandWith argument c = .ok e d ↔
    (c.current.kind = .number ∧ ∃ v, Integer.ofString? c.current.value = some v ∧
      .integer v c.current.span = e ∧ c.advance = d) ∨
    (c.current.kind = .string ∧ .string c.current.value c.current.span = e ∧ c.advance = d) ∨
    IsName c.current ∧
      callWith argument (.identifier c.current.value c.current.span) c.advance = .ok e d := by
  simp only [operandWith, bind_eq_ok, current_eq_ok, and_assoc, exists_and_left, exists_eq_left',
    IsName, Token.isKeyword, Bool.and_eq_true, decide_eq_true_eq]
  cases hk : c.current.kind with
  | number =>
    cases hv : Integer.ofString? c.current.value with
    | none => simp [fail_eq_ok]
    | some v => simp [map_eq_ok, advance_eq_ok, and_comm]
  | string => simp [map_eq_ok, advance_eq_ok, and_comm]
  | identifier => simp [bind_eq_ok, advance_eq_ok, and_assoc]
  | keyword => simp [ite_eq_ok, bind_eq_ok, advance_eq_ok, fail_eq_ok, and_assoc]
  | symbol | operator | endOfFile => simp [fail_eq_ok]

theorem chainWith_eq_ok : chainWith argument c = .ok e d ↔
    ∃ first c', operandWith argument c = .ok first c' ∧
    ∃ others, many (fun t => BinaryOperator.ofSymbol? t.value)
        (fun operator => do
          let _ ← advance
          return (operator, ← operandWith argument)) c' = .ok others d ∧
      others.foldl (fun left (operator, right) => left.join operator right) first = e := by
  simp only [chainWith, bind_eq_ok, pure_eq_ok, exists_eq_right_right]

end

/-! ## Soundness -/

/-- What holds of a failing rule, and of a chain if it holds of the arguments, holds of
expressions. -/
theorem expr_induct {Q : Cursor → EStateM.Result Diagnostic Cursor Expr → Prop}
    (guard : ∀ c, Q c (fail (missing "expression") c))
    (chain : ∀ argument, (∀ c, Q c (argument c)) → ∀ c, Q c (chainWith argument c)) (c : Cursor) :
    Q c (expr c) := by
  induction hn : c.remaining using Nat.strongRecOn generalizing c with
  | _ n ih =>
    subst hn
    rw [expr]
    refine chain _ (fun d => ?_) c
    by_cases hd : d.remaining < c.remaining
    · rw [if_pos hd]
      exact ih _ hd d rfl
    · rw [if_neg hd]
      exact guard d

theorem beginsCall {c : Cursor}
    (h : c.current.isSymbol "." && (c.peek 1).kind = .identifier && (c.peek 2).isSymbol "(") :
    c.current.isSymbol "." ∧ c.advance.current.kind = .identifier ∧
      c.advance.advance.current.isSymbol "(" := by
  simp only [Bool.and_eq_true, decide_eq_true_eq] at h
  obtain ⟨⟨hdot, hm⟩, ho⟩ := h
  have hdot' := Token.not_endOfFile_of_isSymbol hdot
  rw [Cursor.peek_succ hdot', Cursor.peek_zero] at hm
  rw [Cursor.peek_succ hdot', Cursor.peek_succ (Token.not_endOfFile_of_kind hm),
    Cursor.peek_zero] at ho
  exact ⟨hdot, hm, ho⟩

theorem callWith_sound {argument : Rule Expr} (h : Sound argument IsExpr) {c d : Cursor} {e : Expr}
    (hn : IsName c.current)
    (hc : callWith argument (.identifier c.current.value c.current.span) c.advance = .ok e d) :
    ∃ ts, c.Reads ts d ∧ IsOperand ts e := by
  have ht : c.current.isEndOfFile = false := BeginsOperand.not_endOfFile (.inr (.inr hn))
  rcases callWith_eq_ok.1 hc with ⟨htest, as, d₁, ha, hclose, rfl, rfl⟩ | ⟨-, rfl, rfl⟩
  · obtain ⟨hdot, hm, ho⟩ := beginsCall htest
    have hdot' := Token.not_endOfFile_of_isSymbol hdot
    have hm' := Token.not_endOfFile_of_kind hm
    have ho' := Token.not_endOfFile_of_isSymbol ho
    obtain ⟨ts, hr, hL⟩ := commaList_sound h ha
    have hr' : c.Reads (c.current :: c.advance.current :: c.advance.advance.current ::
        c.advance.advance.advance.current :: (ts ++ [d₁.current])) d₁.advance :=
      ⟨rfl, ht, rfl, hdot', rfl, hm', rfl, ho',
        hr.append (.current (Token.not_endOfFile_of_isSymbol hclose))⟩
    refine ⟨_, hr', ?_⟩
    have hspan := hr'.span_eq (List.cons_ne_nil _ _)
    rw [Token.position] at hspan
    rw [Expr.span, hspan]
    exact .call hn hdot hm ho hL hclose
  · exact ⟨[c.current], .current ht, .name hn⟩

theorem ofString?_eq_some {text : String} {v : Int64} : Integer.ofString? text = some v ↔
    ∃ n, Integer.denoted? text.toList = some n ∧ Integer.fits n ∧ .ofInt n = v := by
  unfold Integer.ofString?
  cases Integer.denoted? text.toList with
  | none => simp
  | some n => simp

theorem operandWith_sound {argument : Rule Expr} (h : Sound argument IsExpr) :
    Sound (operandWith argument) IsOperand := by
  intro c d e hc
  rcases operandWith_eq_ok.1 hc with ⟨hk, v, hv, rfl, rfl⟩ | ⟨hk, rfl, rfl⟩ | ⟨hn, hc⟩
  · obtain ⟨n, hn, hfits, rfl⟩ := ofString?_eq_some.1 hv
    exact ⟨[c.current], .current (Token.isEndOfFile_eq_false (by simp [hk])), .integer hk hn hfits⟩
  · exact ⟨[c.current], .current (Token.isEndOfFile_eq_false (by simp [hk])), .string hk⟩
  · exact callWith_sound h hn hc

theorem operation_sound {argument : Rule Expr} (h : Sound argument IsExpr) ⦃op : BinaryOperator⦄
    ⦃c d : Cursor⦄ ⦃a : BinaryOperator × Expr⦄
    (hop : BinaryOperator.ofSymbol? c.current.value = some op)
    (hc : (do let _ ← advance; return (op, ← operandWith argument) :
      Rule (BinaryOperator × Expr)) c = .ok a d) :
    ∃ t ts, c.Reads (t :: ts) d ∧ IsOperation (t :: ts) a := by
  simp only [bind_eq_ok, advance_eq_ok, pure_eq_ok] at hc
  obtain ⟨_, _, ⟨rfl, rfl⟩, e, d, he, rfl, rfl⟩ := hc
  obtain ⟨ts, hr, hO⟩ := operandWith_sound h he
  cases heof : c.current.isEndOfFile with
  | false => exact ⟨c.current, ts, ⟨rfl, heof, hr⟩, .mk hop hO⟩
  | true =>
    -- An end marker is not passed, and no operand begins with it.
    obtain ⟨t, us, rfl, ht⟩ := hO.first
    have hcur := hr.1
    rw [Cursor.advance_of_endOfFile heof] at hcur
    rw [hcur, ht.not_endOfFile] at heof
    exact absurd heof (by simp)

theorem chainWith_sound {argument : Rule Expr} (h : Sound argument IsExpr) :
    Sound (chainWith argument) IsExpr := by
  intro c d e hc
  obtain ⟨first, c₁, hf, others, hm, rfl⟩ := chainWith_eq_ok.1 hc
  obtain ⟨ts, hr, hO⟩ := operandWith_sound h hf
  obtain ⟨us, hr', hM, -⟩ := many_sound (operation_sound h) hm
  exact ⟨ts ++ us, hr.append hr', (IsExpr.operand hO).foldl hM⟩

theorem expr_sound : Sound expr IsExpr := by
  have h := expr_induct (Q := fun c r => ∀ d e, r = .ok e d → ∃ ts, c.Reads ts d ∧ IsExpr ts e)
    (fun c d e h => absurd h (by simp [fail_eq_ok]))
    (fun argument h c d e hc => chainWith_sound (fun c d e => h c d e) hc)
  exact fun c d e => h c d e

/-! ## Completeness -/

theorem callWith_of_not_dot (argument : Rule Expr) (target : Expr) {c : Cursor}
    (h : c.current.isSymbol "." = false) : callWith argument target c = .ok target c := by
  exact callWith_eq_ok.2 (.inr ⟨by simp [h], rfl, rfl⟩)

theorem callWith_complete {argument : Rule Expr} {n : Nat}
    (h : Complete argument (Phrase.upTo n IsExpr) EndsExpr) {target : Expr} {c d : Cursor}
    {dot m o close : Token} {ts : List Token} {as : List Expr} (hdot : dot.isSymbol ".")
    (hm : m.kind = .identifier) (ho : o.isSymbol "(") (hL : CommaList IsExpr ts as)
    (hn : ts.length ≤ n) (hclose : close.isSymbol ")")
    (hr : c.Reads (dot :: m :: o :: (ts ++ [close])) d) :
    callWith argument target c =
      .ok (.call target m.value as ⟨target.span.start, close.span.stop⟩) d := by
  have hr' : c.Reads ((dot :: m :: o :: ts) ++ [close]) d := hr
  have hend := hr'.previousEnd_concat
  obtain ⟨rfl, hdot', rfl, hm', rfl, ho', hr⟩ := hr
  obtain ⟨c₁, hr₁, rfl, hclose', rfl⟩ := Cursor.reads_append.1 hr
  have hpeek₁ : (c.peek 1).kind = .identifier := by
    rw [Cursor.peek_succ hdot', Cursor.peek_zero, hm]
  have hpeek₂ : (c.peek 2).isSymbol "(" := by
    rw [Cursor.peek_succ hdot', Cursor.peek_succ hm', Cursor.peek_zero, ho]
  have hargs : commaList ")" argument c.advance.advance.advance = .ok as c₁ := by
    refine commaList_complete h ?_ (fun ht => endsExpr_of_isSymbol ht rfl (by decide))
      (hL.upTo hn) hr₁ hclose ?_ (endsExpr_of_isSymbol hclose rfl (by decide))
    · rintro ts e ⟨he, -⟩
      obtain ⟨t, us, rfl, ht⟩ := he.first
      exact ⟨t, us, rfl, ht.not_symbol ")"⟩
    · exact Token.isSymbol_eq_false hclose (by decide)
  refine callWith_eq_ok.2 (.inl ⟨?_, as, c₁, hargs, hclose, ?_, rfl⟩)
  · simp [hdot, hpeek₁, hpeek₂]
  · rw [hend]

theorem operandWith_complete {argument : Rule Expr} {n : Nat}
    (h : Complete argument (Phrase.upTo n IsExpr) EndsExpr) :
    Complete (operandWith argument) (Phrase.upTo (n + 1) IsOperand)
      (fun t => t.isSymbol "." = false) := by
  rintro c d ts e hr ⟨hO, hn⟩ hf
  rw [operandWith_eq_ok]
  cases hO with
  | @integer t n hk hv hfits =>
    obtain ⟨rfl, -, rfl⟩ := hr
    exact .inl ⟨hk, _, ofString?_eq_some.2 ⟨n, hv, hfits, rfl⟩, rfl, rfl⟩
  | string hk =>
    obtain ⟨rfl, -, rfl⟩ := hr
    exact .inr (.inl ⟨hk, rfl, rfl⟩)
  | name hN =>
    obtain ⟨rfl, -, rfl⟩ := hr
    exact .inr (.inr ⟨hN, callWith_of_not_dot argument _ hf⟩)
  | @call t dot m o ts as close hN hdot hm ho hL hclose =>
    obtain ⟨rfl, -, hr⟩ := hr
    have hspan := Span.ofTokens_append_singleton c.current close (dot :: m :: o :: ts)
    simp only [List.cons_append] at hspan
    simp only [List.length_cons, List.length_append] at hn
    refine .inr (.inr ⟨hN, ?_⟩)
    rw [hspan]
    exact callWith_complete h hdot hm ho hL (by omega) hclose hr

theorem chainWith_complete {argument : Rule Expr} {n : Nat}
    (h : Complete argument (Phrase.upTo n IsExpr) EndsExpr) :
    Complete (chainWith argument) (Phrase.upTo (n + 1) IsExpr) EndsExpr := by
  rintro c d ts e hr ⟨hE, hn⟩ hf
  obtain ⟨us, vs, first, others, rfl, hO, hM, rfl⟩ := hE.exists_operand
  obtain ⟨c₁, hr₁, hr₂⟩ := Cursor.reads_append.1 hr
  rw [List.length_append] at hn
  have hfirst : operandWith argument c = .ok first c₁ := by
    refine operandWith_complete h hr₁ ⟨hO, by omega⟩ ?_
    cases hM with
    | nil =>
      obtain rfl : c₁ = d := hr₂
      exact hf.2
    | cons ho _ =>
      obtain ⟨ho, _⟩ := ho
      obtain rfl := hr₂.1
      exact not_dot_of_ofSymbol? ho
  have hothers : many (fun t => BinaryOperator.ofSymbol? t.value)
      (fun operator => do
        let _ ← advance
        return (operator, ← operandWith argument)) c₁ = .ok others d := by
    refine many_complete (fun t => t.isSymbol "." = false) ?_ ?_ (fun _ _ => not_dot_of_ofSymbol?)
      (hM.upTo (show _ ≤ n + 1 by omega)) hr₂ hf.1 hf.2
    · rintro _ _ ⟨⟨ho, _⟩, -⟩
      exact ⟨_, _, _, rfl, ho⟩
    · rintro op c d _ _ hop hr ⟨⟨ho, hO⟩, hn⟩ hf
      obtain ⟨rfl, -, hr⟩ := hr
      obtain rfl := Option.some.inj (hop.symm.trans ho)
      rw [List.length_cons] at hn
      simp only [bind_eq_ok, advance_eq_ok, pure_eq_ok]
      exact ⟨_, _, ⟨rfl, rfl⟩, _, _, operandWith_complete h hr ⟨hO, by omega⟩ hf, rfl, rfl⟩
  exact chainWith_eq_ok.2 ⟨first, c₁, hfirst, others, hothers, rfl⟩

theorem expr_complete_upTo (n : Nat) : Complete expr (Phrase.upTo n IsExpr) EndsExpr := by
  induction n with
  | zero =>
    rintro c d ts e - ⟨hE, hn⟩
    exact absurd (List.length_eq_zero_iff.1 (Nat.le_zero.1 hn)) hE.ne_nil
  | succ n ih =>
    rw [expr_eq]
    exact chainWith_complete ih

theorem expr_complete : Complete expr IsExpr EndsExpr :=
  fun _ _ ts _ hr hE hf => expr_complete_upTo ts.length hr ⟨hE, Nat.le_refl _⟩ hf

end Rule

end SpaceLang
