import SpaceLang.Proofs.Grammar.Class
import SpaceLang.Space.Rule

/-!
# Modules are read by their grammar

`spaceDecl` is sound and complete for the phrase `IsSpace` in front of an end marker. Everything
behind the first end marker of a token list is ignored, so `Module.ofTokens` makes a module of a
list exactly if the tokens before it stand for that module (`Module.ofTokens_iff_grammar`), and the
grammar gives no list two trees.
-/

namespace SpaceLang

open Grammar

theorem Grammar.IsClass.exists_before_end {ts : List Token} {cl : Class} (h : IsClass ts cl) :
    ∃ t us b, ts = t :: us ∧ (if t.isEndOfFile then none else some ()) = some b := by
  obtain ⟨t, us, rfl, ht⟩ := h.first
  exact ⟨t, us, (), rfl, by simp [Token.not_endOfFile_of_isKeyword ht]⟩

namespace Rule

/-! ## When the rules succeed -/

section

variable {c d : Cursor}

theorem spaceName_eq_ok {name : String} : spaceName c = .ok name d ↔
    c.current.kind = .identifier ∧
    ∃ segments, many (fun t => if t.isSymbol "." then some () else none)
        (fun _ => advance *> identifier "space name") c.advance = .ok segments d ∧
      ".".intercalate (c.current.value :: segments) = name := by
  simp only [spaceName, bind_eq_ok, identifier_eq_ok, pure_eq_ok, and_assoc, exists_and_left,
    exists_eq_left', exists_eq_right_right]

theorem spaceDecl_eq_ok {space : Space} : spaceDecl c = .ok space d ↔
    c.current.isKeyword "space" ∧ ∃ name c', spaceName c.advance = .ok name c' ∧
      c'.current.isSymbol ";" ∧
    ∃ classes, many (fun t => if t.isEndOfFile then none else some ()) (fun _ => typeDecl)
        c'.advance = .ok classes d ∧
      ⟨name, classes, none, ⟨c.current.position, d.previousEnd⟩⟩ = space := by
  simp only [spaceDecl, bind_eq_ok, current_eq_ok, ite_eq_ok, fail_eq_ok, false_and, and_false,
    exists_false, false_or, Bool.not_eq_true', Bool.not_eq_false, advance_eq_ok, symbol_eq_ok,
    spanFrom_eq_ok, pure_eq_ok, and_assoc, exists_and_left, exists_eq_left', exists_eq_right_right]

end

/-! ## Names of spaces -/

theorem identifier_sound (expected : String) : Sound (identifier expected) IsIdentifier := by
  intro c d name h
  obtain ⟨hn, rfl, rfl⟩ := identifier_eq_ok.1 h
  exact ⟨[c.current], .current (Token.not_endOfFile_of_kind hn), .mk hn⟩

theorem spaceName_sound : Sound spaceName IsSpaceName := by
  intro c d name h
  obtain ⟨hn, segments, hm, rfl⟩ := spaceName_eq_ok.1 h
  obtain ⟨ts, hr, hM, -⟩ := many_sound (identifier_sound _).after hm
  exact ⟨c.current :: ts, ⟨rfl, Token.not_endOfFile_of_kind hn, hr⟩, .mk hn hM⟩

theorem spaceName_complete :
    Complete spaceName IsSpaceName (fun t => t.isSymbol "." = false) := by
  rintro c d _ _ hr ⟨hn, hM⟩ hf
  obtain ⟨rfl, -, hr⟩ := hr
  refine spaceName_eq_ok.2 ⟨hn, _, ?_, rfl⟩
  refine many_complete (fun _ => True) ?_ ?_ (fun _ _ _ => trivial) hM hr (by simp [hf]) trivial
  · rintro _ _ ⟨hdot, _⟩
    exact ⟨_, _, (), rfl, by simp [hdot]⟩
  · rintro _ c d _ _ - hr ⟨-, ⟨hn⟩⟩ -
    obtain ⟨-, -, rfl, -, rfl⟩ := hr
    exact seqRight_eq_ok.2 ⟨_, _, rfl, identifier_eq_ok.2 ⟨hn, rfl, rfl⟩⟩

/-! ## Spaces -/

theorem spaceDecl_sound {c d : Cursor} {space : Space} (h : spaceDecl c = .ok space d) :
    ∃ ts, c.Reads ts d ∧ IsSpace ts space ∧ d.current.isEndOfFile := by
  obtain ⟨hk, name, c₁, hname, hs, classes, hm, rfl⟩ := spaceDecl_eq_ok.1 h
  obtain ⟨ts, hr₁, hN⟩ := spaceName_sound hname
  obtain ⟨us, hr₂, hM, hend⟩ := many_sound (typeDecl_sound.exists_cons fun h => h.ne_nil rfl) hm
  have hr : c.Reads (c.current :: (ts ++ c₁.current :: us)) d :=
    ⟨rfl, Token.not_endOfFile_of_isKeyword hk,
      hr₁.append ⟨rfl, Token.not_endOfFile_of_isSymbol hs, hr₂⟩⟩
  refine ⟨_, hr, ?_, by simpa using hend⟩
  rw [hr.span_eq (List.cons_ne_nil _ _)]
  exact .mk hk hN hs hM

theorem spaceDecl_complete : Complete spaceDecl IsSpace (fun t => t.isEndOfFile) := by
  rintro c d _ _ hr @⟨k, ts, name, s, us, classes, hk, hN, hs, hM⟩ hf
  have hspan := hr.span_eq (List.cons_ne_nil _ _)
  obtain ⟨rfl, -, hr⟩ := hr
  obtain ⟨c₁, hr₁, rfl, -, hr₂⟩ := Cursor.reads_append.1 hr
  have hname := spaceName_complete hr₁ hN (Token.isSymbol_eq_false hs (by decide))
  have hclasses : many (fun t => if t.isEndOfFile then none else some ()) (fun _ => typeDecl)
      c₁.advance = .ok classes d := by
    refine many_complete (fun _ => True) ?_ ?_ (fun _ _ _ => trivial) hM hr₂ (by simp [hf]) trivial
    · exact fun _ _ hC => hC.exists_before_end
    · exact fun _ _ _ _ _ _ hr hC _ => typeDecl_complete hr hC trivial
  refine spaceDecl_eq_ok.2 ⟨hk, name, c₁, hname, hs, classes, hclasses, ?_⟩
  rw [hspan]

end Rule

/-! ## Modules -/

namespace Module

variable {tokens : List Token} {m m' : Module}

theorem ofTokens_eq_ok : ofTokens tokens = .ok m ↔
    ∃ space d, Rule.spaceDecl (.ofTokens tokens) = .ok space d ∧
      m = ⟨mainName, space, space.span⟩ := by
  unfold ofTokens
  cases Rule.spaceDecl (.ofTokens tokens) with
  | ok space d => simp [eq_comm]
  | error e d => simp

theorem ofTokens_eq_error {e : Diagnostic} : ofTokens tokens = .error e ↔
    ∃ d, Rule.spaceDecl (.ofTokens tokens) = .error e d := by
  unfold ofTokens
  cases Rule.spaceDecl (.ofTokens tokens) with
  | ok space d => simp
  | error e d => simp

theorem ofSource_of_ok {source : String} {ts : List Token} (h : Token.ofSource source = .ok ts) :
    ofSource source = ofTokens ts := by
  rw [ofSource, h]
  rfl

theorem ofSource_of_error {source : String} {e : Diagnostic}
    (h : Token.ofSource source = .error e) : ofSource source = .error e := by
  rw [ofSource, h]
  rfl

theorem takeWhile_append {ts : List Token} (h : ∀ t ∈ ts, t.isEndOfFile = false)
    (us : List Token) : (ts ++ us).takeWhile (fun t => !t.isEndOfFile) =
      ts ++ us.takeWhile (fun t => !t.isEndOfFile) :=
  List.takeWhile_append_of_pos (by simpa using h)

theorem isModule_of_ofTokens (h : ofTokens tokens = .ok m) :
    IsModule (tokens.takeWhile (fun t => !t.isEndOfFile)) m := by
  obtain ⟨space, d, hspace, rfl⟩ := ofTokens_eq_ok.1 h
  obtain ⟨ts, hr, hS, hd⟩ := Rule.spaceDecl_sound hspace
  rw [← hr.eq_takeWhile_of_ofTokens hd]
  have hspan : space.span = .ofTokens ts := by
    cases hS
    rfl
  rw [hspan]
  exact .mk hS

theorem ofTokens_of_isModule (h : IsModule (tokens.takeWhile (fun t => !t.isEndOfFile)) m) :
    ofTokens tokens = .ok m := by
  obtain ⟨d, hr, hd⟩ := Cursor.exists_reads_ofTokens tokens
  generalize tokens.takeWhile (fun t => !t.isEndOfFile) = ts at h hr
  obtain ⟨hS⟩ := h
  refine ofTokens_eq_ok.2 ⟨_, d, Rule.spaceDecl_complete hr hS hd, ?_⟩
  cases hS
  rfl

/-- **The parser is the grammar.** A token list makes a module exactly if the tokens before its
first end marker stand for that module, spans included, and no tokens stand for two modules. -/
theorem ofTokens_iff_grammar (tokens : List Token) :
    (∀ m, ofTokens tokens = .ok m ↔
      IsModule (tokens.takeWhile (fun t => !t.isEndOfFile)) m) ∧
    ∀ m m', IsModule (tokens.takeWhile (fun t => !t.isEndOfFile)) m →
      IsModule (tokens.takeWhile (fun t => !t.isEndOfFile)) m' → m = m' := by
  refine ⟨fun m => ⟨isModule_of_ofTokens, ofTokens_of_isModule⟩, fun m m' h h' => ?_⟩
  have heq := (ofTokens_of_isModule h).symm.trans (ofTokens_of_isModule h')
  exact Except.ok.inj heq

end Module

end SpaceLang
