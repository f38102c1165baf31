import SpaceLang.Proofs.Rule.Traverse

/-!
# Every diagnostic is about the current token

A rule that fails stands on the token that it refuses: its diagnostic has the position of that token
and a cause made from it (`Diagnostic.IsAbout`). The primitive rules fail so, and wherever a rule
that is built from them fails, one of them does (`Built.refuses`). A cause may hold a name that
another rule has read; what the terms of a run say is that it is the name of an identifier.

What a diagnostic says of the token alone, whatever the list, is `Diagnostic.Describes`, and every
rule that reads a construct says it of the token it stops at (`Rule.describesCurrent_all`).
-/

namespace SpaceLang.Rule

variable {α : Type} {f : Position → Position} {u : Terms} {g : α → α} {r r' : Rule α}
  {c d : Cursor} {e : Diagnostic}

/-- A failing run refuses the token that it stands on then, for a cause that fits it and with names
as its terms have them. -/
theorem Built.refuses (hr : Built f u g r r' c) (h : r c = .error e d) :
    e.Describes d.current ∧ e.cause.Fits d.current ∧
      (u.named → ∀ name ∈ e.cause.names, IsNamed d.toList name) := by
  induction hr with
  | pure => cases h
  | bind _ _ _ _ ihr ihk =>
    rcases bind_eq_error.1 h with hfirst | ⟨a, c', hfirst, hsecond⟩
    · exact ihr hfirst
    · exact ihk a c' hfirst hsecond
  | look hrun _ _ ih => exact ih (hrun ▸ h)
  | advance => cases h
  | fail _ hdescribes hfits hnamed =>
    cases h
    exact ⟨⟨rfl, hdescribes⟩, hfits, hnamed⟩
  | spanFrom => cases h
  | step _ _ ht hless _ _ ihstep ihrest =>
    rw [foldWhile_eq_bind ht hless] at h
    rcases bind_eq_error.1 h with hfirst | ⟨s', c', hfirst, hrest⟩
    · exact ihstep hfirst
    · exact ihrest s' c' hfirst hrest
  | declare _ _ _ _ ih => exact ih h

theorem isWithin_spaceDecl (h : spaceDecl c = .error e d) : d.toList = c.toList ∧ e.IsAbout d := by
  have hspace := built_spaceDecl (f := id) (u := { Terms.plain with named := True }) (c := c)
  obtain ⟨ts, hts⟩ := hspace.reads_of_error h
  obtain ⟨hdescribes, hfits, hnamed⟩ := hspace.refuses h
  exact ⟨hts.toList_eq, hdescribes.position, hdescribes.cause, hfits, hnamed trivial⟩

theorem blames_spaceDecl (c : Cursor) {d : Cursor} {e : Diagnostic}
    (h : spaceDecl c = .error e d) : e.IsAbout d :=
  (isWithin_spaceDecl h).2

/-! ## What every diagnostic says of the current token -/

/-- Wherever the rule fails, it describes the token that it stands on then. -/
def DescribesCurrent (r : Rule α) : Prop :=
  ∀ ⦃c d e⦄, r c = .error e d → e.Describes d.current

/-- Wherever the rule fails, it describes the token that it stood on before, and still stands
there. -/
def RefusesCurrent (r : Rule α) : Prop :=
  ∀ ⦃c d e⦄, r c = .error e d → d = c ∧ e.Describes c.current

theorem DescribesCurrent.of_built (hr : ∀ c, Built id .plain g r r' c) : DescribesCurrent r :=
  fun c _ _ h => ((hr c).refuses h).1

theorem refusesCurrent_accept (test : Token → Bool) (expected : String) :
    RefusesCurrent (accept test expected) := by
  intro c d e hrun
  obtain ⟨-, rfl, rfl⟩ := accept_eq_error.1 hrun
  exact ⟨rfl, rfl, describes_missing expected c.current⟩

/-- **Every failure describes the current token.** Wherever a rule fails that reads a construct,
from any cursor over any tokens, its diagnostic describes the token that the cursor then stands on.
A rule that expects a single token has not moved then. No rule takes a literal for unterminated. -/
theorem describesCurrent_all :
    (DescribesCurrent spaceDecl ∧ DescribesCurrent typeDecl ∧ DescribesCurrent classDecl ∧
      DescribesCurrent member ∧ DescribesCurrent stmt ∧ DescribesCurrent returnStmt ∧
      DescribesCurrent implicitVariable ∧ DescribesCurrent explicitVariable ∧
      DescribesCurrent expr ∧ DescribesCurrent operand ∧
      ∀ target, DescribesCurrent (call target)) ∧
    (∀ k expected, RefusesCurrent (kind k expected)) ∧ (∀ s, RefusesCurrent (symbol s)) ∧
    RefusesCurrent typeName := by
  refine ⟨⟨?_, ?_, ?_, ?_, ?_, ?_, ?_, ?_, ?_, ?_, fun target => ?_⟩, fun k expected => ?_,
    fun s => ?_, ?_⟩
  · exact .of_built fun _ => built_spaceDecl
  · exact .of_built fun _ => built_typeDecl
  · exact .of_built fun _ => built_classDecl False.elim
  · exact .of_built fun _ => built_member
  · exact .of_built fun _ => built_stmt
  · exact .of_built fun _ => built_returnStmt False.elim
  · exact .of_built fun _ => built_implicitVariable id
  · exact .of_built fun _ => built_explicitVariable
  · exact .of_built fun _ => built_expr
  · exact .of_built fun _ => built_operand
  · exact .of_built fun _ => built_call id target
  · exact refusesCurrent_accept _ _
  · exact refusesCurrent_accept _ _
  · exact refusesCurrent_accept _ _

/-- The member `C p { get; get` behind another token. -/
theorem describesCurrent_all_accessor :
    ∃ d, member ⟨[⟨.symbol, ";", ⟨⟨1, 1⟩, ⟨1, 2⟩⟩⟩], ⟨.identifier, "C", ⟨⟨1, 3⟩, ⟨1, 4⟩⟩⟩,
        [⟨.identifier, "p", ⟨⟨1, 5⟩, ⟨1, 6⟩⟩⟩, ⟨.symbol, leftBrace, ⟨⟨1, 7⟩, ⟨1, 8⟩⟩⟩,
          ⟨.keyword, "get", ⟨⟨1, 9⟩, ⟨1, 12⟩⟩⟩, ⟨.symbol, ";", ⟨⟨1, 12⟩, ⟨1, 13⟩⟩⟩,
          ⟨.keyword, "get", ⟨⟨2, 1⟩, ⟨2, 4⟩⟩⟩, .endOfFile ⟨2, 4⟩], rfl, 6, rfl⟩ =
      .error ⟨.duplicateAccessor "p" "get", ⟨2, 1⟩⟩ d ∧
    (⟨.duplicateAccessor "p" "get", ⟨2, 1⟩⟩ : Diagnostic).Describes d.current := by
  refine Exists.imp (fun d hrun => ⟨hrun, describesCurrent_all.1.2.2.2.1 hrun⟩) ?_
  apply Exists.intro
  cbv

end SpaceLang.Rule
