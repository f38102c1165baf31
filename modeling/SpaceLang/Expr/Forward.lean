import SpaceLang.Expr.Rule
import SpaceLang.Rule.Forward

/-!
# Expressions move forward

The rules of expressions never give a token back, if the rule of their arguments does not.

`expr` reads the arguments of a call by itself as long as fewer tokens remain than where it began.
An argument stands behind the dot, the name and the parenthesis of its call, so there always are
fewer, and `expr_eq` leaves the condition out: an expression is a chain of operands whose arguments
are expressions.
-/

namespace SpaceLang.Rule

theorem Forward.callWith {argument : Rule Expr} (h : Forward argument) (target : Expr) :
    Forward (callWith argument target) := by
  unfold Rule.callWith
  refine forward_current.bind fun _ => (forward_peek _).bind fun _ => (forward_peek _).bind fun _ =>
    .ite ?_ (forward_pure _)
  exact forward_advance.bind fun _ => forward_advance.bind fun _ => forward_advance.bind fun _ =>
    (h.commaList _).bind fun _ => (forward_symbol _).bind fun _ =>
      (forward_spanFrom _).bind fun _ => forward_pure _

theorem Forward.operandWith {argument : Rule Expr} (h : Forward argument) :
    Forward (operandWith argument) := by
  unfold Rule.operandWith
  refine forward_current.bind fun t => ?_
  split
  · split
    · exact forward_advance.bind fun _ => forward_pure _
    · exact forward_fail _
  · exact forward_advance.bind fun _ => forward_pure _
  · exact forward_advance.bind fun _ => h.callWith _
  · exact .ite (forward_advance.bind fun _ => h.callWith _) (forward_fail _)
  · exact forward_fail _
  · exact forward_fail _

theorem Forward.chainWith {argument : Rule Expr} (h : Forward argument) :
    Forward (chainWith argument) :=
  h.operandWith.bind fun _ =>
    (Forward.many fun _ => forward_advance.bind fun _ => h.operandWith.bind fun _ =>
      forward_pure _).bind fun _ => forward_pure _

/-- A call reads its arguments where fewer tokens remain. -/
theorem callWith_congr_at {argument argument' : Rule Expr} {target : Expr} {c : Cursor}
    (hf : Forward argument)
    (h : ∀ c', c'.remaining < c.remaining → argument c' = argument' c') :
    callWith argument target c = callWith argument' target c := by
  refine bind_congr_at rfl fun t c₁ h₁ => ?_
  cases h₁
  refine bind_congr_at rfl fun t₁ c₁ h₁ => ?_
  cases h₁
  refine bind_congr_at rfl fun t₂ c₁ h₁ => ?_
  cases h₁
  split
  · next hc =>
    have hdot : c.current.isEndOfFile = false := by
      simp only [Bool.and_eq_true, Token.isSymbol, decide_eq_true_eq] at hc
      simp [Token.isEndOfFile, hc.1.1.1]
    refine bind_congr_at rfl fun _ c₁ h₁ => ?_
    refine bind_congr_at rfl fun _ c₂ h₂ => ?_
    refine bind_congr_at rfl fun _ c₃ h₃ => ?_
    refine bind_congr_at (commaList_congr_at hf fun c₄ h₄ => h c₄ ?_) fun _ _ _ => rfl
    cases h₁
    have := Cursor.remaining_advance_lt hdot
    have := forward_advance.of_ok h₂
    have := forward_advance.of_ok h₃
    omega
  · rfl

theorem operandWith_congr_at {argument argument' : Rule Expr} {c : Cursor} (hf : Forward argument)
    (h : ∀ c', c'.remaining < c.remaining → argument c' = argument' c') :
    operandWith argument c = operandWith argument' c := by
  refine bind_congr_at rfl fun t c₁ h₁ => ?_
  cases h₁
  have name : ∀ e : Expr, (advance >>= fun _ => callWith argument e) c =
      (advance >>= fun _ => callWith argument' e) c := fun e =>
    bind_congr_at rfl fun _ c₂ h₂ => callWith_congr_at hf fun c₃ h₃ =>
      h c₃ (Nat.lt_of_lt_of_le h₃ (forward_advance.of_ok h₂))
  generalize c.current.kind = k
  cases k with
  | identifier => exact name _
  | keyword =>
    dsimp only
    split
    · exact name _
    · rfl
  | _ => rfl

theorem chainWith_congr_at {argument argument' : Rule Expr} {c : Cursor} (hf : Forward argument)
    (h : ∀ c', c'.remaining < c.remaining → argument c' = argument' c') :
    chainWith argument c = chainWith argument' c := by
  refine bind_congr_at (operandWith_congr_at hf h) fun first c₁ h₁ => ?_
  have hle := hf.operandWith.of_ok h₁
  refine bind_congr_at (many_congr_at fun op c₂ h₂ => ?_) fun _ _ _ => rfl
  refine bind_congr_at rfl fun _ c₃ h₃ => ?_
  have hle' := forward_advance.of_ok h₃
  exact bind_congr_at (operandWith_congr_at hf fun c₄ h₄ => h c₄ (by omega)) fun _ _ _ => rfl

/-- The rule of arguments with the condition that `expr` puts on them. -/
private def guarded (n : Nat) : Rule Expr := fun c =>
  if c.remaining < n then expr c else fail (missing "expression") c

private theorem expr_apply (c : Cursor) : expr c = chainWith (guarded c.remaining) c := by
  rw [expr]
  rfl

private theorem forward_guarded {n : Nat}
    (h : ∀ c : Cursor, c.remaining < n → (stop expr c).remaining ≤ c.remaining) :
    Forward (guarded n) := by
  intro c
  by_cases hc : c.remaining < n
  · have : stop (guarded n) c = stop expr c := by simp only [stop, guarded, if_pos hc]
    exact this ▸ h c hc
  · have : stop (guarded n) c = c := by simp only [stop, guarded, if_neg hc, fail]
    exact Nat.le_of_eq (by rw [this])

theorem forward_expr : Forward expr := by
  intro c
  induction hn : c.remaining using Nat.strongRecOn generalizing c with
  | _ n ih =>
    subst hn
    have hg : Forward (guarded c.remaining) := forward_guarded fun d hd => ih _ hd d rfl
    have : stop expr c = stop (chainWith (guarded c.remaining)) c := by
      simp only [stop, expr_apply]
    exact this ▸ hg.chainWith c

/-- An expression is a chain of operands whose arguments are expressions. -/
theorem expr_eq : expr = chainWith expr := by
  funext c
  rw [expr_apply]
  refine chainWith_congr_at (forward_guarded fun d _ => forward_expr d) fun d hd => ?_
  simp only [guarded, if_pos hd]

end SpaceLang.Rule
