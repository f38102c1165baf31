import SpaceLang.Proofs.Diagnostic.Render
import SpaceLang.Proofs.Token.LineEnd

/-!
# Modules behind other line ends

A source that has a carriage return in front of every line feed makes the same module or is refused
for the same reason at the same place, unless a string literal goes on over the end of a line
(`Module.ofSource_crlf`). A drawing does not tell the two sources apart either: a carriage return
that a line keeps is white space at its end (`Diagnostic.render_crlf`).
-/

namespace SpaceLang

/-- A source with a carriage return in front of every line feed. -/
def returned (source : String) : String := String.ofList (crlf source.toList)

/-! ## Drawings -/

namespace Diagnostic

theorem trimEnd_drop_append_return (line : List Char) :
    trimEnd ((line ++ ['\r']).drop (indent (line ++ ['\r']))) =
      trimEnd (line.drop (indent line)) := by
  have hle : indent line ≤ line.length := (List.takeWhile_prefix _).length_le
  rw [indent_append_return, List.drop_append_of_le_length hle, trimEnd_append_return]

theorem render_crlf (e : Diagnostic) (source : String) (file : Option String) :
    e.render (returned source) file = e.render source file := by
  have hline : ∀ n, (Line.first (Line.skip n (crlf source.toList)) =
      Line.first (Line.skip n source.toList)) ∨ (Line.first (Line.skip n (crlf source.toList)) =
      Line.first (Line.skip n source.toList) ++ ['\r']) := by
    intro n
    rw [Line.skip_crlf]
    exact Line.first_crlf _
  simp only [render, Line.ofPosition, returned, String.toList_ofList]
  rcases hline (max e.position.line.toNat 1 - 1) with h | h
  · rw [h]
  · rw [h, trimEnd_drop_append_return, indent_append_return]

end Diagnostic

/-! ## Modules -/

namespace Module

/-- **Line ends make no difference.** With a carriage return in front of every line feed, a source
is cut into the same tokens at the same places, or not at all for the same reason, except that the
line feeds of a string literal have the carriage return in the value of its token. So if no literal
goes on over the end of a line, the source makes the same module or has the same diagnostic. Every
diagnostic is drawn the same way against the one source and the other. -/
theorem ofSource_crlf (source : String) :
    Token.AreReturned .start source.toList (Token.ofSource source)
      (Token.ofSource (returned source)) ∧
    ((∀ ts, Token.ofSource source = .ok ts → ∀ t ∈ ts, ∀ body,
      t.IsLiteral .start source.toList body → '\n' ∉ body) →
        ofSource (returned source) = ofSource source) ∧
    ∀ (e : Diagnostic) (file : Option String),
      e.render (returned source) file = e.render source file := by
  have hscan : Token.AreReturned .start source.toList (Token.ofSource source)
      (Token.ofSource (returned source)) := by
    rw [Token.ofSource_eq_scan, Token.ofSource_eq_scan, returned, String.toList_ofList]
    exact Token.areReturned_scan source.toList .start
  refine ⟨hscan, fun hfree => ?_, fun e file => e.render_crlf source file⟩
  rw [ofSource, ofSource, hscan.eq hfree]

set_option maxRecDepth 8000 in
/-- A string literal on the last of two lines. -/
theorem ofSource_crlf_literal :
    let source := "space a;\nclass B\x7bC d=\"e\";\x7d"
    (∀ ts, Token.ofSource source = .ok ts → ∀ t ∈ ts, ∀ body,
      t.IsLiteral .start source.toList body → '\n' ∉ body) ∧
    (∃ m, ofSource source = .ok m ∧ m.classes = [⟨"B", [.field ⟨"d", "C",
      some (.string "e" ⟨⟨2, 13⟩, ⟨2, 16⟩⟩), ⟨⟨2, 9⟩, ⟨2, 17⟩⟩⟩], ⟨⟨2, 1⟩, ⟨2, 18⟩⟩⟩]) ∧
    ofSource (returned source) = ofSource source := by
  intro source
  have hts : Token.ofSource "space a;\nclass B\x7bC d=\"e\";\x7d" = .ok [
      ⟨.keyword, "space", ⟨⟨1, 1⟩, ⟨1, 6⟩⟩⟩, ⟨.identifier, "a", ⟨⟨1, 7⟩, ⟨1, 8⟩⟩⟩,
      ⟨.symbol, ";", ⟨⟨1, 8⟩, ⟨1, 9⟩⟩⟩, ⟨.keyword, "class", ⟨⟨2, 1⟩, ⟨2, 6⟩⟩⟩,
      ⟨.identifier, "B", ⟨⟨2, 7⟩, ⟨2, 8⟩⟩⟩, ⟨.symbol, leftBrace, ⟨⟨2, 8⟩, ⟨2, 9⟩⟩⟩,
      ⟨.identifier, "C", ⟨⟨2, 9⟩, ⟨2, 10⟩⟩⟩, ⟨.identifier, "d", ⟨⟨2, 11⟩, ⟨2, 12⟩⟩⟩,
      ⟨.operator, "=", ⟨⟨2, 12⟩, ⟨2, 13⟩⟩⟩, ⟨.string, "e", ⟨⟨2, 13⟩, ⟨2, 16⟩⟩⟩,
      ⟨.symbol, ";", ⟨⟨2, 16⟩, ⟨2, 17⟩⟩⟩, ⟨.symbol, rightBrace, ⟨⟨2, 17⟩, ⟨2, 18⟩⟩⟩,
      .endOfFile ⟨2, 18⟩] := by
    rw [Token.ofSource_eq_scan]
    cbv
  have hm : ofSource "space a;\nclass B\x7bC d=\"e\";\x7d" =
      .ok ⟨"main", ⟨"a", [⟨"B", [.field ⟨"d", "C", some (.string "e" ⟨⟨2, 13⟩, ⟨2, 16⟩⟩),
        ⟨⟨2, 9⟩, ⟨2, 17⟩⟩⟩], ⟨⟨2, 1⟩, ⟨2, 18⟩⟩⟩], none,
        ⟨⟨1, 1⟩, ⟨2, 18⟩⟩⟩, ⟨⟨1, 1⟩, ⟨2, 18⟩⟩⟩ := by
    rw [ofSource_of_ok hts]
    cbv
  have hfree : ∀ ts, Token.ofSource source = .ok ts → ∀ t ∈ ts, ∀ body,
      t.IsLiteral .start source.toList body → '\n' ∉ body := by
    rintro _ h t ht body ⟨before, behind, value, -, hbody, rfl⟩
    rw [hts, Except.ok.injEq] at h
    subst h
    have hvalue : String.ofList value = "e" := by
      simp only [List.mem_cons, Token.mk.injEq, reduceCtorEq, false_and, false_or,
        List.not_mem_nil, or_false, true_and, Token.endOfFile] at ht
      exact ht.1
    obtain rfl : value = ['e'] := by
      rw [← String.toList_ofList (l := value), hvalue]
      rfl
    rcases hbody with _ | ⟨-, -, ⟨⟩⟩ | _ | _ | _ | ⟨-, -, -, ⟨⟩⟩
    all_goals decide
  exact ⟨hfree, ⟨_, hm, rfl⟩, (ofSource_crlf source).2.1 hfree⟩

end Module

end SpaceLang
