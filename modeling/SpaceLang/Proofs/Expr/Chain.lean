import Mathlib.Data.List.Induction
import SpaceLang.Proofs.Rule.Progress

/-!
# An expression is the longest chain of operands

`Operations` says which operators and operands follow each other from a cursor to another one: each
operator is a token with the text of one, whatever its kind, and each operand is what `operand`
reads behind it. Every cursor has a longest row of them (`exists_operations`), which ends in front
of a token that is no operator or at an operand that cannot be read; `expr` reads the former and
fails with the latter (`expr_eq_chain`).

The tree of a chain leans to the left. `Expr.spine` takes such a tree apart again, into the operand
on the far left and, for each node from there to the root, the operator, the right operand and the
span of the node.
-/

namespace SpaceLang

namespace Expr

/-- Whether an expression is an operation. -/
def isBinary : Expr → Bool
  | binary .. => true
  | _ => false

/-- Operands joined from the left, each node from the start of the first operand to the end of its
own right one. -/
def chain (first : Expr) (others : List (BinaryOperator × Expr)) : Expr :=
  others.foldl (fun left (op, right) =>
    .binary op left right ⟨first.span.start, right.span.stop⟩) first

/-- The operand on the far left of an expression and the nodes from there to the root. -/
def spine : Expr → Expr × List (BinaryOperator × Expr × Span)
  | binary op left right span => (left.spine.1, left.spine.2 ++ [(op, right, span)])
  | e => (e, [])

variable {first : Expr} {others : List (BinaryOperator × Expr)}

theorem chain_concat (first : Expr) (others : List (BinaryOperator × Expr)) (op : BinaryOperator)
    (right : Expr) : chain first (others ++ [(op, right)]) =
      .binary op (chain first others) right ⟨first.span.start, right.span.stop⟩ := by
  rw [chain, List.foldl_append, ← chain]
  rfl

theorem start_span_chain (first : Expr) (others : List (BinaryOperator × Expr)) :
    (chain first others).span.start = first.span.start := by
  induction others using List.reverseRecOn with
  | nil => rfl
  | append_singleton others last _ =>
    obtain ⟨op, right⟩ := last
    rw [chain_concat]
    rfl

theorem foldl_join_eq_chain (first : Expr) (others : List (BinaryOperator × Expr)) :
    others.foldl (fun left (op, right) => left.join op right) first = chain first others := by
  induction others using List.reverseRecOn with
  | nil => rfl
  | append_singleton others last ih =>
    obtain ⟨op, right⟩ := last
    rw [List.foldl_append, ih, chain_concat, ← start_span_chain first others]
    rfl

theorem spine_of_not_binary {e : Expr} (h : e.isBinary = false) : e.spine = (e, []) := by
  cases e with
  | binary => exact absurd h (by simp [isBinary])
  | _ => rfl

/-- A chain has one node for each operator, in the order of the operators. -/
theorem spine_chain (h : first.isBinary = false) (others : List (BinaryOperator × Expr)) :
    (chain first others).spine =
      (first, others.map fun (op, right) => (op, right, ⟨first.span.start, right.span.stop⟩)) := by
  induction others using List.reverseRecOn with
  | nil => exact spine_of_not_binary h
  | append_singleton others last ih =>
    obtain ⟨op, right⟩ := last
    rw [chain_concat, spine, ih, List.map_append]
    rfl

end Expr

namespace Rule

/-! ## Operations -/

/-- Operators and operands in a row, from a cursor to a cursor. -/
inductive Operations : Cursor → List (BinaryOperator × Expr) → Cursor → Prop
  | nil {c} : Operations c [] c
  | cons {c c' d op right others} : BinaryOperator.ofSymbol? c.current.value = some op →
      operand c.advance = .ok right c' → Operations c' others d →
      Operations c ((op, right) :: others) d

/-- An operand and operations in a row behind it. -/
def IsChain (c : Cursor) (first : Expr) (others : List (BinaryOperator × Expr)) (d : Cursor) :
    Prop :=
  ∃ c', operand c = .ok first c' ∧ Operations c' others d

variable {c d : Cursor} {e : Expr} {error : Diagnostic} {others : List (BinaryOperator × Expr)}

/-- What follows an operand: an operator and one more operand. -/
def operation (operator : BinaryOperator) : Rule (BinaryOperator × Expr) := do
  let _ ← advance
  return (operator, ← operand)

/-- The operations that follow an operand, as far as there are any. -/
def operations : Rule (List (BinaryOperator × Expr)) :=
  many (fun t => BinaryOperator.ofSymbol? t.value) operation

theorem expr_eq_operations : expr = do
    let first ← operand
    let others ← operations
    return others.foldl (fun left (operator, right) => left.join operator right) first :=
  expr_eq

theorem operation_of_ok {op : BinaryOperator} (h : operand c.advance = .ok e d) :
    operation op c = .ok (op, e) d := by
  simp only [operation, bind_eq_ok, advance_eq_ok, pure_eq_ok]
  exact ⟨_, _, ⟨rfl, rfl⟩, e, d, h, rfl, rfl⟩

theorem operation_of_error {op : BinaryOperator} (h : operand c.advance = .error error d) :
    operation op c = .error error d := by
  simp only [operation, bind_eq_error, advance_eq_ok]
  exact .inr ⟨_, _, ⟨rfl, rfl⟩, .inl h⟩

theorem remaining_lt_of_operand (h : operand c.advance = .ok e d) : d.remaining < c.remaining :=
  -- An operator does not get past an end marker, but no operand begins with one.
  Nat.lt_of_lt_of_le (consumes_operand h) c.remaining_advance_le

theorem Operations.foldWhile_eq (h : Operations c others d)
    (items : List (BinaryOperator × Expr)) :
    foldWhile (fun t => BinaryOperator.ofSymbol? t.value) (collect operation) items c =
      foldWhile (fun t => BinaryOperator.ofSymbol? t.value) (collect operation)
        (others.reverse ++ items) d := by
  induction h generalizing items with
  | nil => rfl
  | @cons c c' d op right others hop hright _ ih =>
    have hstep : collect operation items op c = .ok ((op, right) :: items) c' := by
      simp only [collect, bind_eq_ok, pure_eq_ok]
      exact ⟨_, _, operation_of_ok hright, rfl, rfl⟩
    rw [foldWhile_of_ok hop hstep (remaining_lt_of_operand hright), ih, List.reverse_cons,
      List.append_assoc]
    rfl

theorem Operations.operations_of_none (h : Operations c others d)
    (hd : BinaryOperator.ofSymbol? d.current.value = none) : operations c = .ok others d := by
  have hloop := (h.foldWhile_eq []).trans (foldWhile_of_none hd)
  rw [List.append_nil] at hloop
  simp only [operations, many_eq, map_eq_ok]
  exact ⟨_, hloop, List.reverse_reverse others⟩

theorem Operations.operations_of_error {op : BinaryOperator} {d' : Cursor}
    (h : Operations c others d) (hd : BinaryOperator.ofSymbol? d.current.value = some op)
    (herror : operand d.advance = .error error d') : operations c = .error error d' := by
  have hstep : collect operation (others.reverse ++ []) op d = .error error d' := by
    simp only [collect, bind_eq_error]
    exact .inl (operation_of_error herror)
  simp only [operations, many_eq, map_eq_error]
  exact (h.foldWhile_eq []).trans (foldWhile_of_error hd hstep)

/-- From every cursor there is a longest row of operations. -/
theorem exists_operations (c : Cursor) : ∃ others d, Operations c others d ∧
    (BinaryOperator.ofSymbol? d.current.value = none ∨
      ∃ op error d', BinaryOperator.ofSymbol? d.current.value = some op ∧
        operand d.advance = .error error d') := by
  induction hn : c.remaining using Nat.strongRecOn generalizing c with
  | _ n ih =>
    subst hn
    cases hop : BinaryOperator.ofSymbol? c.current.value with
    | none => exact ⟨[], c, .nil, .inl hop⟩
    | some op =>
      cases hright : operand c.advance with
      | error error d => exact ⟨[], c, .nil, .inr ⟨op, error, d, hop, hright⟩⟩
      | ok right c' =>
        obtain ⟨others, d, hothers, hend⟩ := ih _ (remaining_lt_of_operand hright) c' rfl
        exact ⟨(op, right) :: others, d, .cons hop hright hothers, hend⟩

/-! ## Chains -/

theorem isBinary_of_operand (h : operand c = .ok e d) : e.isBinary = false := by
  rcases operandWith_eq_ok.1 h with ⟨-, v, -, rfl, -⟩ | ⟨-, rfl, -⟩ | ⟨-, hcall⟩
  · rfl
  · rfl
  · rcases callWith_eq_ok.1 hcall with ⟨-, arguments, c', -, -, rfl, -⟩ | ⟨-, rfl, -⟩
    · rfl
    · rfl

theorem Operations.isBinary (h : Operations c others d) :
    ∀ p ∈ others, p.2.isBinary = false := by
  induction h with
  | nil => simp
  | cons _ hright _ ih => exact List.forall_mem_cons.2 ⟨isBinary_of_operand hright, ih⟩

theorem IsChain.expr_eq_ok {first : Expr} (h : IsChain c first others d)
    (hd : BinaryOperator.ofSymbol? d.current.value = none) :
    expr c = .ok (.chain first others) d := by
  obtain ⟨c', hfirst, hothers⟩ := h
  rw [expr_eq_operations, bind_of_ok hfirst, bind_of_ok (hothers.operations_of_none hd),
    Expr.foldl_join_eq_chain]
  rfl

theorem IsChain.expr_eq_error {first : Expr} {op : BinaryOperator} {d' : Cursor}
    (h : IsChain c first others d) (hd : BinaryOperator.ofSymbol? d.current.value = some op)
    (herror : operand d.advance = .error error d') : expr c = .error error d' := by
  obtain ⟨c', hfirst, hothers⟩ := h
  rw [expr_eq_operations, bind_of_ok hfirst,
    bind_of_error (hothers.operations_of_error hd herror)]

theorem exists_isChain (c : Cursor) :
    (∃ error d, operand c = .error error d) ∨ ∃ first others d, IsChain c first others d ∧
      (BinaryOperator.ofSymbol? d.current.value = none ∨
        ∃ op error d', BinaryOperator.ofSymbol? d.current.value = some op ∧
          operand d.advance = .error error d') := by
  cases hfirst : operand c with
  | error error d => exact .inl ⟨error, d, rfl⟩
  | ok first c' =>
    obtain ⟨others, d, hothers, hend⟩ := exists_operations c'
    exact .inr ⟨first, others, d, ⟨c', hfirst, hothers⟩, hend⟩

theorem expr_of_operand_error (h : operand c = .error error d) : expr c = .error error d := by
  rw [expr_eq_operations, bind_of_error h]

/-- **An expression is the longest chain of operands, joined from the left.** It is read if an
operand is, and one more behind each token with the text of an operator that follows an operand, up
to the first token behind an operand that has no such text. The tree has one node for each operator,
which joins what stands before it with an operand that is no such node, and spans from the first
operand to that one. Where an operand cannot be read, its failure is that of the expression. -/
theorem expr_eq_chain (c : Cursor) :
    (∀ e d, expr c = .ok e d ↔ ∃ first others, IsChain c first others d ∧
      BinaryOperator.ofSymbol? d.current.value = none ∧ e = .chain first others) ∧
    (∀ first others d, IsChain c first others d →
      first.isBinary = false ∧ (∀ p ∈ others, p.2.isBinary = false) ∧
      (Expr.chain first others).spine =
        (first, others.map fun (op, right) =>
          (op, right, ⟨first.span.start, right.span.stop⟩))) ∧
    ∀ error d, expr c = .error error d ↔ operand c = .error error d ∨
      ∃ first others d', IsChain c first others d' ∧
        (BinaryOperator.ofSymbol? d'.current.value).isSome ∧
          operand d'.advance = .error error d := by
  refine ⟨fun e d => ⟨fun h => ?_, ?_⟩, ?_, fun error d => ⟨fun h => ?_, ?_⟩⟩
  · rcases exists_isChain c with ⟨error, d', herror⟩ | ⟨first, others, d', hchain, hend⟩
    · rw [expr_of_operand_error herror] at h
      cases h
    · rcases hend with hend | ⟨op, error, d'', hop, herror⟩
      · rw [hchain.expr_eq_ok hend] at h
        cases h
        exact ⟨first, others, hchain, hend, rfl⟩
      · rw [hchain.expr_eq_error hop herror] at h
        cases h
  · rintro ⟨first, others, hchain, hend, rfl⟩
    exact hchain.expr_eq_ok hend
  · rintro first others d ⟨c', hfirst, hothers⟩
    have hbinary := isBinary_of_operand hfirst
    exact ⟨hbinary, hothers.isBinary, Expr.spine_chain hbinary others⟩
  · rcases exists_isChain c with ⟨error', d', herror⟩ | ⟨first, others, d', hchain, hend⟩
    · rw [expr_of_operand_error herror] at h
      cases h
      exact .inl herror
    · rcases hend with hend | ⟨op, error', d'', hop, herror⟩
      · rw [hchain.expr_eq_ok hend] at h
        cases h
      · rw [hchain.expr_eq_error hop herror] at h
        cases h
        exact .inr ⟨first, others, d', hchain, by rw [hop]; rfl, herror⟩
  · rintro (herror | ⟨first, others, d', hchain, hsome, herror⟩)
    · exact expr_of_operand_error herror
    · obtain ⟨op, hop⟩ := Option.isSome_iff_exists.1 hsome
      exact hchain.expr_eq_error hop herror

/-- The chain `1 "+" 2` in front of a semicolon: the text of a string is an operator too. -/
theorem expr_eq_chain_string : ∃ c first right d,
    c = Cursor.ofTokens [⟨.number, "1", ⟨⟨1, 1⟩, ⟨1, 2⟩⟩⟩, ⟨.string, "+", ⟨⟨1, 3⟩, ⟨1, 6⟩⟩⟩,
      ⟨.number, "2", ⟨⟨1, 7⟩, ⟨1, 8⟩⟩⟩, ⟨.symbol, ";", ⟨⟨1, 8⟩, ⟨1, 9⟩⟩⟩] ∧
    IsChain c first [(.add, right)] d ∧ expr c = .ok (.chain first [(.add, right)]) d ∧
    (Expr.chain first [(.add, right)]).spine =
      (.integer 1 ⟨⟨1, 1⟩, ⟨1, 2⟩⟩,
        [(.add, .integer 2 ⟨⟨1, 7⟩, ⟨1, 8⟩⟩, ⟨⟨1, 1⟩, ⟨1, 8⟩⟩)]) := by
  have hinteger : ∀ c v, c.current.kind = .number → Integer.ofString? c.current.value = some v →
      operand c = .ok (.integer v c.current.span) c.advance :=
    fun c v hk hv => operandWith_eq_ok.2 (.inl ⟨hk, v, hv, rfl, rfl⟩)
  generalize hc : Cursor.ofTokens [⟨.number, "1", ⟨⟨1, 1⟩, ⟨1, 2⟩⟩⟩,
    ⟨.string, "+", ⟨⟨1, 3⟩, ⟨1, 6⟩⟩⟩, ⟨.number, "2", ⟨⟨1, 7⟩, ⟨1, 8⟩⟩⟩,
    ⟨.symbol, ";", ⟨⟨1, 8⟩, ⟨1, 9⟩⟩⟩] = c
  have hchain : IsChain c (.integer 1 c.current.span)
      [(.add, .integer 2 c.advance.advance.current.span)] c.advance.advance.advance := by
    subst hc
    exact ⟨_, hinteger _ 1 rfl rfl, .cons rfl (hinteger _ 2 rfl rfl) .nil⟩
  have hend : BinaryOperator.ofSymbol? c.advance.advance.advance.current.value = none := by
    subst hc
    rfl
  have hexpr := ((expr_eq_chain c).1 _ _).2 ⟨_, _, hchain, hend, rfl⟩
  have hspine := ((expr_eq_chain c).2.1 _ _ _ hchain).2.2
  refine ⟨c, _, _, _, rfl, hchain, hexpr, hspine.trans ?_⟩
  subst hc
  rfl

end Rule

end SpaceLang
