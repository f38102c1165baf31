import SpaceLang.Proofs.Rule.Traverse

/-!
# Every rule makes progress

A rule that reads a construct succeeds only behind the cursor that it began at (`Consumes`). So
does every step of a repetition, and the test by which `foldWhile` would end a repetition that
stands still never fails: a repetition is the plain loop `Repeats`, which goes on at a later cursor
or ends, and it ends after no more steps than tokens remain (`Progresses`). The one rule that calls
itself, `expr`, does so only where fewer tokens remain (`RecursBelow`).

Some rules take the token that they begin at for granted and try to consume it. They do not stand
still at an end marker either, as a later part of them consumes a token that is none.
-/

namespace SpaceLang.Rule

variable {α β σ : Type} {g : α → α} {r r' : Rule α}

/-! ## What consumes a token -/

/-- Whether the rule consumes a token wherever it succeeds. -/
def Consumes (r : Rule α) : Prop := ∀ ⦃c a d⦄, r c = .ok a d → d.remaining < c.remaining

/-- The terms that ask for a token. -/
def Terms.gaining : Terms := { Terms.plain with gains := True }

theorem Consumes.of_built (hr : ∀ c, Built id .gaining g r r' c) : Consumes r :=
  fun c _ _ h => (hr c).gains trivial h

theorem Consumes.bind_pure (hr : Consumes r) (m : α → β) :
    Consumes (r >>= fun a => pure (m a)) := by
  intro c b d h
  obtain ⟨a, c', ha, hb⟩ := bind_eq_ok.1 h
  obtain ⟨-, rfl⟩ := pure_eq_ok.1 hb
  exact hr ha

theorem Consumes.advance_seqRight (hr : Consumes r) : Consumes (advance *> r) :=
  fun c _ _ h => Nat.lt_of_lt_of_le (hr h) c.remaining_advance_le

theorem consumes_operand : Consumes operand :=
  .of_built fun _ => built_operand

/-! ## Loops -/

/-- The loop that takes a step as long as the test succeeds: after `n` steps, each of which has
consumed a token, the test fails, or a step fails and the loop with it. -/
inductive Repeats (test : Token → Option β) (step : σ → β → Rule σ) :
    Nat → σ → Cursor → EStateM.Result Diagnostic Cursor σ → Prop
  | done {s c} : test c.current = none → Repeats test step 0 s c (.ok s c)
  | failed {s c b e d} : test c.current = some b → step s b c = .error e d →
      Repeats test step 0 s c (.error e d)
  | next {n s s' c b d result} : test c.current = some b → step s b c = .ok s' d →
      d.remaining < c.remaining → Repeats test step n s' d result →
      Repeats test step (n + 1) s c result

/-- Whether a repetition is the loop of its steps, and ends. -/
def Progresses (test : Token → Option β) (step : σ → β → Rule σ) : Prop :=
  ∀ s c, ∃ n ≤ c.remaining, Repeats test step n s c (foldWhile test step s c)

theorem Consumes.progresses {step : σ → β → Rule σ} (h : ∀ s b, Consumes (step s b))
    (test : Token → Option β) : Progresses test step := by
  intro s c
  fun_induction foldWhile test step s c with
  | case1 s c ht => exact ⟨0, Nat.zero_le _, .done ht⟩
  | case2 s c b ht e d hs => exact ⟨0, Nat.zero_le _, .failed ht hs⟩
  | case3 s c b ht s' d hs hless ih =>
    obtain ⟨n, hn, hrest⟩ := ih
    exact ⟨n + 1, Nat.lt_of_le_of_lt hn hless, .next ht hs hless hrest⟩
  | case4 s c b ht s' d hs hless => exact absurd (h s b hs) hless

/-- The step of `many`, which puts one more item in front of those read before. -/
def collect (item : β → Rule α) (items : List α) (b : β) : Rule (List α) :=
  return (← item b) :: items

theorem many_eq (test : Token → Option β) (item : β → Rule α) :
    many test item = List.reverse <$> foldWhile test (collect item) [] :=
  rfl

theorem Consumes.progresses_collect {item : β → Rule α} (h : ∀ b, Consumes (item b))
    (test : Token → Option β) : Progresses test (collect item) :=
  Consumes.progresses (fun items b => (h b).bind_pure (· :: items)) test

/-- Every loop of the rules progresses. Those of parameters and arguments begin behind the first
item. -/
structure LoopsProgress : Prop where
  spaceName : Progresses (fun t => if t.isSymbol "." then some () else none)
    (collect fun _ => advance *> identifier "space name")
  declarations : Progresses (fun t => if t.isEndOfFile then none else some ())
    (collect fun _ => typeDecl)
  members : Progresses (fun t => if t.isSymbol rightBrace then none else some ())
    (collect fun _ => member)
  parameters : Progresses (fun t => if t.isSymbol "," then some () else none)
    (collect fun _ => advance *> parameter)
  statements : Progresses (fun t => if t.isSymbol rightBrace then none else some ())
    (collect fun _ => stmt)
  accessors : ∀ property, Progresses (fun t => if t.isSymbol rightBrace then none else some ())
    (fun seen _ => accessor property seen)
  arguments : Progresses (fun t => if t.isSymbol "," then some () else none)
    (collect fun _ => advance *> expr)
  operators : Progresses (fun t => BinaryOperator.ofSymbol? t.value) (collect fun operator => do
    let _ ← advance
    return (operator, ← operand))

theorem loopsProgress : LoopsProgress where
  spaceName := Consumes.progresses_collect
    (fun _ => (Consumes.of_built fun _ => built_identifier (by decide)).advance_seqRight) _
  declarations := Consumes.progresses_collect (fun _ => .of_built fun _ => built_typeDecl) _
  members := Consumes.progresses_collect (fun _ => .of_built fun _ => built_member) _
  parameters := Consumes.progresses_collect
    (fun _ => (Consumes.of_built fun _ => built_parameter).advance_seqRight) _
  statements := Consumes.progresses_collect (fun _ => .of_built fun _ => built_stmt) _
  accessors _ := Consumes.progresses (fun _ _ => .of_built fun _ => built_accessor False.elim _) _
  arguments := Consumes.progresses_collect
    (fun _ => (Consumes.of_built fun _ => built_expr).advance_seqRight) _
  operators := Consumes.progresses_collect
    (fun operator => (consumes_operand.bind_pure (operator, ·)).advance_seqRight) _

/-! ## Recursion -/

/-- Whether a rule that is made of another one calls it only where fewer tokens remain: it does the
same as `r` with any rule that agrees with `r` there. -/
def RecursBelow (body : Rule α → Rule α) (r : Rule α) : Prop :=
  ∀ c r', (∀ c', c'.remaining < c.remaining → r' c' = r c') → body r' c = r c

theorem recursBelow_expr : RecursBelow chainWith expr := by
  intro c r' h
  have hchain : chainWith expr c = chainWith r' c :=
    chainWith_congr_at forward_expr fun c' hc' => (h c' hc').symm
  rw [← hchain, ← expr_eq]

end SpaceLang.Rule
