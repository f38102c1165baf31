import SpaceLang.Proofs.Grammar.Module
import SpaceLang.Proofs.Rule.Lookahead
import SpaceLang.Proofs.Token.Lexical

/-!
# Positions are copied and never looked at

`Cursor.relocate f` puts the position `f p` in the place of every position `p` of the tokens of a
cursor. Then the same tokens are ahead but for their positions, and a rule, which decides by kinds
and values alone, does what it does from the cursor itself, in other positions (`Built.relocate`).
So a module is relocated with its tokens (`Module.ofTokens_relocate`), and what the layout of a
source can change about it is nothing but spans.
-/

namespace SpaceLang

/-! ## Cursors -/

namespace Cursor

variable (f : Position → Position)

/-- A cursor with `f` applied to the positions of its tokens. -/
def relocate (c : Cursor) : Cursor where
  consumed := c.consumed.map (Token.mapSpan (Span.map f))
  current := c.current.mapSpan (Span.map f)
  next := c.next.map (Token.mapSpan (Span.map f))
  closed := by
    rw [List.getLastD_map]
    exact c.closed
  remaining := c.remaining
  remaining_eq := by rw [List.length_map, c.remaining_eq]

@[simp] theorem consumed_relocate (c : Cursor) :
    (c.relocate f).consumed = c.consumed.map (Token.mapSpan (Span.map f)) := rfl

@[simp] theorem current_relocate (c : Cursor) :
    (c.relocate f).current = c.current.mapSpan (Span.map f) := rfl

@[simp] theorem next_relocate (c : Cursor) :
    (c.relocate f).next = c.next.map (Token.mapSpan (Span.map f)) := rfl

theorem advance_relocate (c : Cursor) : (c.relocate f).advance = c.advance.relocate f := by
  cases hc : c.current.isEndOfFile with
  | true =>
    have hc' : (c.relocate f).current.isEndOfFile := hc
    rw [advance_of_endOfFile hc, advance_of_endOfFile hc']
  | false =>
    obtain ⟨t, ts, hn⟩ := List.exists_cons_of_ne_nil (next_ne_nil hc)
    have hn' : (c.relocate f).next =
        t.mapSpan (Span.map f) :: ts.map (Token.mapSpan (Span.map f)) := by
      rw [next_relocate, hn, List.map_cons]
    obtain ⟨h₁, h₂, h₃⟩ := advance_eq hc hn
    obtain ⟨h₁', h₂', h₃'⟩ := advance_eq (c := c.relocate f) hc hn'
    apply Cursor.ext
    · rw [h₁', consumed_relocate, consumed_relocate, h₁, List.map_cons, current_relocate]
    · rw [h₂', current_relocate, h₂]
    · rw [h₃', next_relocate, h₃]

theorem previousEnd_relocate (c : Cursor) : (c.relocate f).previousEnd = f c.previousEnd := by
  obtain ⟨consumed, _, _, _, _, _⟩ := c
  cases consumed <;> rfl

theorem ofTokens_map_mapSpan {ts : List Token} (hts : ts ≠ []) :
    ofTokens (ts.map (Token.mapSpan (Span.map f))) = (ofTokens ts).relocate f := by
  obtain ⟨t, ts, rfl⟩ := List.exists_cons_of_ne_nil hts
  have hrest : (ofTokens ((t :: ts).map (Token.mapSpan (Span.map f)))).current ::
      (ofTokens ((t :: ts).map (Token.mapSpan (Span.map f)))).next =
        ((ofTokens (t :: ts)).current :: (ofTokens (t :: ts)).next).map
          (Token.mapSpan (Span.map f)) := by
    have hlast : (ts.map (Token.mapSpan (Span.map f))).getLastD (t.mapSpan (Span.map f)) =
        (ts.getLastD t).mapSpan (Span.map f) := List.getLastD_map
    cases hend : (ts.getLastD t).isEndOfFile with
    | true =>
      rw [rest_ofTokens_of_endOfFile hend, List.map_cons, rest_ofTokens_of_endOfFile]
      rw [hlast]
      exact hend
    | false =>
      rw [rest_ofTokens_of_not_endOfFile hend, List.map_cons, rest_ofTokens_of_not_endOfFile]
      · rw [hlast, List.map_append, List.map_cons]
        rfl
      · rw [hlast]
        exact hend
  obtain ⟨hcurrent, hnext⟩ := List.cons.inj hrest
  apply Cursor.ext
  · rw [consumed_relocate, consumed_ofTokens, consumed_ofTokens, List.map_nil]
  · exact hcurrent
  · exact hnext

theorem matches_relocate (c : Cursor) (n : Nat) : c.Matches f n (c.relocate f) := by
  rw [Matches, ahead, ahead, current_relocate, next_relocate, ← List.map_cons,
    upToEndOfFile_map_mapSpan, List.map_take]

theorem Reads.relocate {c d : Cursor} {ts : List Token} (h : c.Reads ts d) :
    (c.relocate f).Reads (ts.map (Token.mapSpan (Span.map f))) (d.relocate f) := by
  induction ts generalizing c with
  | nil => rw [show c = d from h, List.map_nil, reads_nil]
  | cons t ts ih =>
    obtain ⟨rfl, ht, h⟩ := h
    refine ⟨rfl, ht, ?_⟩
    rw [advance_relocate]
    exact ih h

end Cursor

/-! ## Rules -/

namespace Rule

variable {α : Type} {f : Position → Position}

/-- A result with `f` applied to the positions of its diagnostic and its cursor, and `g` to what was
read. -/
def relocateResult (f : Position → Position) (g : α → α) :
    EStateM.Result Diagnostic Cursor α → EStateM.Result Diagnostic Cursor α
  | .ok a d => .ok (g a) (d.relocate f)
  | .error e d => .error (e.map f) (d.relocate f)

/-- A rule does from relocated tokens what it does from the tokens, in other positions. -/
theorem Built.relocate {u : Terms} {g : α → α} {r r' : Rule α} {c : Cursor}
    (hr : Built f u g r r' c) : r' (c.relocate f) = relocateResult f g (r c) := by
  obtain ⟨ts, hts, hrun⟩ := hr.localAt
  obtain ⟨d, hd, hr'⟩ := hrun (c.relocate f) (fun _ => c.previousEnd_relocate f)
    (c.matches_relocate f _)
  obtain rfl := hd.unique (hts.relocate f)
  rw [hr', stop]
  cases r c <;> rfl

end Rule

/-! ## Tokens of the same kinds and values -/

theorem Token.map_forget_of_content {ts us : List Token}
    (h : ts.map Token.content = us.map Token.content) :
    ts.map (Token.mapSpan .forget) = us.map (Token.mapSpan .forget) := by
  have hmap : ∀ ts : List Token, ts.map (Token.mapSpan .forget) =
      (ts.map Token.content).map fun content => ⟨content.1, content.2, default⟩ := by
    intro ts
    rw [List.map_map]
    rfl
  rw [hmap, hmap, h]

/-- What the rules make of tokens is determined by their kinds and values but for positions. -/
theorem Rule.spaceDecl_of_content {ts us : List Token}
    (h : ts.map Token.content = us.map Token.content) :
    relocateResult (fun _ => default) (Space.mapSpan .forget) (spaceDecl (.ofTokens ts)) =
      relocateResult (fun _ => default) (Space.mapSpan .forget) (spaceDecl (.ofTokens us)) := by
  have hforget : Span.map (fun _ => default) = Span.forget := rfl
  by_cases hts : ts = []
  · subst hts
    obtain rfl : us = [] := by simpa using h.symm
    rfl
  · have hus : us ≠ [] := by
      rintro rfl
      exact hts (by simpa using h)
    have hrun := fun ts => (built_spaceDecl (f := fun _ => default) (u := .plain)
      (c := .ofTokens ts)).relocate
    rw [hforget] at hrun
    rw [← hrun, ← hrun, ← Cursor.ofTokens_map_mapSpan _ hts, ← Cursor.ofTokens_map_mapSpan _ hus,
      hforget, Token.map_forget_of_content h]

/-! ## Modules -/

namespace Module

/-- **Layout never influences structure.** Any function on positions, applied to the spans of a
token list, is applied to the positions of the module or of the diagnostic that the list makes, and
changes nothing else. So of two lists with the same kinds and values either both make a module, and
the modules are equal up to spans, or both are refused for the same cause at the same token. -/
theorem ofTokens_relocate :
    (∀ (f : Position → Position) (tokens : List Token), tokens ≠ [] →
      ofTokens (tokens.map (Token.mapSpan (Span.map f))) =
        ((ofTokens tokens).map (mapSpan (Span.map f))).mapError (Diagnostic.map f)) ∧
    ∀ ts us : List Token, ts.map Token.content = us.map Token.content →
      (∃ m m', ofTokens ts = .ok m ∧ ofTokens us = .ok m' ∧ m.bare = m'.bare) ∨
      ∃ e e', ofTokens ts = .error e ∧ ofTokens us = .error e' ∧ e.cause = e'.cause ∧
        ∃ d d', Rule.spaceDecl (.ofTokens ts) = .error e d ∧
          Rule.spaceDecl (.ofTokens us) = .error e' d' ∧
          d.consumed.length = d'.consumed.length := by
  constructor
  · intro f tokens hne
    unfold ofTokens
    rw [Cursor.ofTokens_map_mapSpan f hne, (Rule.built_spaceDecl (u := .plain)).relocate]
    cases Rule.spaceDecl (.ofTokens tokens) <;> rfl
  · intro ts us h
    have hrun := Rule.spaceDecl_of_content h
    cases h₁ : Rule.spaceDecl (.ofTokens ts) with
    | ok space d =>
      cases h₂ : Rule.spaceDecl (.ofTokens us) with
      | ok space' d' =>
        rw [h₁, h₂, Rule.relocateResult, Rule.relocateResult, EStateM.Result.ok.injEq] at hrun
        refine .inl ⟨_, _, ofTokens_eq_ok.2 ⟨space, d, h₁, rfl⟩,
          ofTokens_eq_ok.2 ⟨space', d', h₂, rfl⟩, ?_⟩
        rw [bare, bare, mapSpan, mapSpan, hrun.1]
        rfl
      | error e' d' =>
        rw [h₁, h₂] at hrun
        cases hrun
    | error e d =>
      cases h₂ : Rule.spaceDecl (.ofTokens us) with
      | ok space' d' =>
        rw [h₁, h₂] at hrun
        cases hrun
      | error e' d' =>
        rw [h₁, h₂, Rule.relocateResult, Rule.relocateResult, EStateM.Result.error.injEq] at hrun
        obtain ⟨he, hd⟩ := hrun
        have hcause : e.cause = e'.cause := (congrArg Diagnostic.cause he :)
        have hlength := congrArg (fun c => c.consumed.length) hd
        simp only [Cursor.consumed_relocate, List.length_map] at hlength
        exact .inr ⟨e, e', ofTokens_eq_error.2 ⟨d, h₁⟩, ofTokens_eq_error.2 ⟨d', h₂⟩, hcause, d, d',
          rfl, rfl, hlength⟩

/-- The tokens `space a;class` on one line and on three lines, which lack a class name. -/
theorem ofTokens_relocate_lines :
    let ts : List Token := [⟨.keyword, "space", ⟨⟨1, 1⟩, ⟨1, 6⟩⟩⟩,
      ⟨.identifier, "a", ⟨⟨1, 7⟩, ⟨1, 8⟩⟩⟩, ⟨.symbol, ";", ⟨⟨1, 8⟩, ⟨1, 9⟩⟩⟩,
      ⟨.keyword, "class", ⟨⟨1, 9⟩, ⟨1, 14⟩⟩⟩, .endOfFile ⟨1, 14⟩]
    let us : List Token := [⟨.keyword, "space", ⟨⟨1, 1⟩, ⟨1, 6⟩⟩⟩,
      ⟨.identifier, "a", ⟨⟨2, 1⟩, ⟨2, 2⟩⟩⟩, ⟨.symbol, ";", ⟨⟨2, 2⟩, ⟨2, 3⟩⟩⟩,
      ⟨.keyword, "class", ⟨⟨3, 1⟩, ⟨3, 6⟩⟩⟩, .endOfFile ⟨3, 6⟩]
    let f : Position → Position := fun p => ⟨p.column, p.line⟩
    ts ≠ [] ∧ ofTokens (ts.map (Token.mapSpan (Span.map f))) =
      .error ⟨.expectedClassName "end of file", ⟨14, 1⟩⟩ ∧
    ts.map Token.content = us.map Token.content ∧
    ∃ e e', ofTokens ts = .error e ∧ ofTokens us = .error e' ∧
      e.position = ⟨1, 14⟩ ∧ e'.position = ⟨3, 6⟩ ∧ e.cause = e'.cause ∧
      ∃ d d', Rule.spaceDecl (.ofTokens ts) = .error e d ∧
        Rule.spaceDecl (.ofTokens us) = .error e' d' ∧
        d.consumed.length = d'.consumed.length := by
  intro ts us f
  have hts : ofTokens ts = .error ⟨.expectedClassName "end of file", ⟨1, 14⟩⟩ := by cbv
  have hus : ofTokens us = .error ⟨.expectedClassName "end of file", ⟨3, 6⟩⟩ := by cbv
  have hne : ts ≠ [] := List.cons_ne_nil _ _
  have hcontent : ts.map Token.content = us.map Token.content := rfl
  obtain ⟨hmap, hsame⟩ := ofTokens_relocate
  refine ⟨hne, ?_, hcontent, ?_⟩
  · rw [hmap f ts hne, hts]
    rfl
  · rcases hsame ts us hcontent with ⟨m, _, hm, -⟩ | ⟨e, e', he, he', h⟩
    · rw [hts] at hm
      cases hm
    · refine ⟨e, e', he, he', ?_, ?_, h⟩
      · rw [hts, Except.error.injEq] at he
        rw [← he]
      · rw [hus, Except.error.injEq] at he'
        rw [← he']

end Module

end SpaceLang
