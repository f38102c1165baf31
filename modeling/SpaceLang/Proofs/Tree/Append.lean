import SpaceLang.Proofs.Rule.Viable
import SpaceLang.Proofs.Token.Join
import SpaceLang.Proofs.Tree.WellFormed

/-!
# Sources that go on

A source that makes a module may go on behind a line feed. Its tokens stay what they are
(`Token.scan_append_newline`), and the rules read a space the same way whatever follows its tokens:
they go on with the classes behind it (`Rule.spaceDecl_resume`). So whatever is appended, the module
keeps its name and its classes, or the diagnostic is about the text appended
(`Module.ofSource_append`).
-/

namespace SpaceLang

open Grammar

/-! ## Spaces that go on -/

namespace Rule

theorem classes_resume {c d : Cursor} {ts : List Token} {classes : List Class}
    (hM : Many IsClass ts classes) (hr : c.Reads ts d) :
    (∀ all d', many (fun t => if t.isEndOfFile then none else some ()) (fun _ => typeDecl) c =
      .ok all d' → ∃ us others, d.Reads us d' ∧ Many IsClass us others ∧
        all = classes ++ others) ∧
    ∀ e d', many (fun t => if t.isEndOfFile then none else some ()) (fun _ => typeDecl) c =
      .error e d' → ∃ us b c', d.Reads us c' ∧
        (if c'.current.isEndOfFile then none else some ()) = some b ∧ typeDecl c' = .error e d' :=
  many_resume (fun _ => True) (fun _ _ hC => hC.exists_before_end)
    (fun _ _ _ _ _ _ hr hC _ => typeDecl_complete hr hC trivial) (fun _ _ _ => trivial)
    (typeDecl_sound.exists_cons fun h => h.ne_nil rfl) hM hr trivial

theorem spaceDecl_eq_of_name {c d : Cursor} {name : String} (hk : c.current.isKeyword "space")
    (hname : spaceName c.advance = .ok name d) (hs : d.current.isSymbol ";") :
    spaceDecl c = (do
      let classes ← many (fun t => if t.isEndOfFile then none else some ()) (fun _ => typeDecl)
      return ⟨name, classes, none, ← spanFrom c.current.position⟩ : Rule Space) d.advance := by
  have hstart : advance c = .ok c.current c.advance := rfl
  have hsemicolon : symbol ";" d = .ok d.current d.advance := symbol_eq_ok.2 ⟨hs, rfl, rfl⟩
  rw [spaceDecl, bind_of_ok (current_eq_ok.2 ⟨rfl, rfl⟩), if_neg (by simp [hk])]
  dsimp only
  rw [bind_of_ok hstart, bind_of_ok hname, bind_of_ok hsemicolon]

/-- What follows a space belongs to it, and where it is refused, the space has been read. -/
theorem spaceDecl_resume {c d : Cursor} {ts : List Token} {space : Space} (hr : c.Reads ts d)
    (hS : IsSpace ts space) :
    (∀ space' d', spaceDecl c = .ok space' d' →
      space'.name = space.name ∧ space.classes <+: space'.classes) ∧
    ∀ e d', spaceDecl c = .error e d' → ∃ us, d.Reads us d' := by
  obtain @⟨k, ts, name, s, us, classes, hk, hN, hs, hM⟩ := hS
  obtain ⟨rfl, -, hr⟩ := hr
  obtain ⟨c₁, hr₁, rfl, -, hr₂⟩ := Cursor.reads_append.1 hr
  have hname := spaceName_complete hr₁ hN (Token.isSymbol_eq_false hs (by decide))
  obtain ⟨hok, herror⟩ := classes_resume hM hr₂
  rw [spaceDecl_eq_of_name hk hname hs]
  refine ⟨fun space' d' h => ?_, fun e d' h => ?_⟩
  · simp only [bind_eq_ok, spanFrom_eq_ok, pure_eq_ok] at h
    obtain ⟨all, c₂, hall, _, _, -, rfl, -⟩ := h
    obtain ⟨_, others, -, -, rfl⟩ := hok all c₂ hall
    exact ⟨rfl, List.prefix_append _ _⟩
  · simp only [bind_eq_error, spanFrom_eq_error, pure_eq_error, and_false, exists_false, or_false]
      at h
    obtain ⟨us, _, c', hus, -, hc'⟩ := herror e d' h
    obtain ⟨vs, hvs, -⟩ := failsBehind_typeDecl c' hc'
    exact ⟨us ++ vs, hus.append hvs⟩

end Rule

/-! ## Token lists that go on -/

namespace Module

/-- The diagnostic of a list that goes on behind a module is about a token behind it, and the module
of such a list begins with the one before. -/
theorem ofTokens_append {us vs : List Token} {p q : Position} {m : Module}
    (hus : ∀ t ∈ us, t.isEndOfFile = false) (hm : ofTokens (us ++ [.endOfFile p]) = .ok m) :
    (∃ e, ofTokens (us ++ (vs ++ [.endOfFile q])) = .error e ∧
      ∃ t ∈ vs ++ [.endOfFile q], e.position = t.position) ∨
    ∃ m', ofTokens (us ++ (vs ++ [.endOfFile q])) = .ok m' ∧
      m'.rootSpace.name = m.rootSpace.name ∧ m.classes <+: m'.classes := by
  have htake : (us ++ [Token.endOfFile p]).takeWhile (fun t => !t.isEndOfFile) = us :=
    (takeWhile_append hus _).trans (List.append_nil us)
  have hmodule := isModule_of_ofTokens hm
  rw [htake] at hmodule
  obtain ⟨hS⟩ := hmodule
  obtain ⟨d₁, hreads, -⟩ := Cursor.exists_reads_ofTokens (us ++ (vs ++ [.endOfFile q]))
  rw [takeWhile_append hus] at hreads
  obtain ⟨d, hr, -⟩ := Cursor.reads_append.1 hreads
  obtain ⟨hok, herror⟩ := Rule.spaceDecl_resume hr hS
  cases hrun : Rule.spaceDecl (.ofTokens (us ++ (vs ++ [.endOfFile q]))) with
  | ok space d' => exact .inr ⟨_, ofTokens_eq_ok.2 ⟨space, d', hrun, rfl⟩, hok space d' hrun⟩
  | error e d' =>
    obtain ⟨ws, hws⟩ := herror e d' hrun
    have hposition := (Rule.blames_spaceDecl _ hrun).position
    refine .inl ⟨e, ofTokens_eq_error.2 ⟨d', hrun⟩, d'.current, ?_, hposition⟩
    have hrest := hr.rest_eq
    rw [← List.append_assoc, Cursor.rest_ofTokens_concat, List.append_assoc] at hrest
    rw [List.append_cancel_left hrest, hws.rest_eq]
    exact List.mem_append_right _ (List.mem_cons_self ..)

/-- **What has been read stays read.** Whatever is appended to a source that makes a module, behind
a line feed, the longer source makes a module of the same name that begins with the same classes,
spans included, or its diagnostic has a line behind those of the source. -/
theorem ofSource_append {s t : String} {m : Module}
    (hlen : (s ++ "\n" ++ t).length < UInt32.size - 1) (h : ofSource s = .ok m) :
    (∃ e, ofSource (s ++ "\n" ++ t) = .error e ∧
      s.toList.count '\n' + 1 < e.position.line.toNat) ∨
    ∃ m', ofSource (s ++ "\n" ++ t) = .ok m' ∧
      m'.rootSpace.name = m.rootSpace.name ∧ m.classes <+: m'.classes := by
  obtain ⟨ts₁, h₁, hm⟩ := ofSource_eq_ok.1 h
  obtain ⟨us, p, rfl, hok, herror⟩ := Token.ofSource_append_newline h₁ t
  cases h₂ : Token.ofSource t with
  | error d =>
    have hin : d.position.IsIn .start t.toList := by
      rw [Token.ofSource_eq_scan] at h₂
      exact Token.isIn_of_scan.2 _ h₂
    obtain ⟨hfirst, hline⟩ := Token.line_below hlen hin
    refine .inl ⟨_, ofSource_of_error (herror d h₂), ?_⟩
    rw [Diagnostic.map, hline]
    omega
  | ok ts₂ =>
    have hus : ∀ u ∈ us, u.isEndOfFile = false := by
      obtain ⟨us', p', heq, hlexical, -⟩ := Token.takeWhile_of_ofSource h₁
      obtain ⟨rfl, -⟩ := List.append_inj' heq rfl
      exact fun u hu => (hlexical u hu).not_endOfFile
    obtain ⟨vs, q, rfl, -, -⟩ := Token.takeWhile_of_ofSource h₂
    have htokens := ofSource_of_ok (hok _ h₂)
    rw [List.map_append] at htokens
    rw [htokens]
    refine (ofTokens_append hus hm).imp_left ?_
    rintro ⟨e, he, u, hu, hposition⟩
    -- The token that is refused is one of those appended, moved down.
    have hmoved : u ∈ (vs ++ [Token.endOfFile q]).map (Token.mapSpan (Span.map (.below s))) := by
      rw [List.map_append]
      exact hu
    obtain ⟨v, hv, rfl⟩ := List.mem_map.1 hmoved
    have hin : v.position.IsIn .start t.toList := by
      rw [Token.ofSource_eq_scan] at h₂
      exact (Token.isIn_of_scan.1 _ h₂ v hv).1
    obtain ⟨hfirst, hline⟩ := Token.line_below hlen hin
    have hbelow : e.position = v.position.below s := hposition
    refine ⟨e, he, ?_⟩
    rw [hbelow, hline]
    omega

set_option maxRecDepth 8000 in
/-- Behind a source with a class, another class. -/
theorem ofSource_append_class : ∃ m : Module,
    ("space a;class B\x7b\x7d" ++ "\n" ++ "class C\x7b\x7d").length < UInt32.size - 1 ∧
    ofSource "space a;class B\x7b\x7d" = .ok m ∧ m.classes = [⟨"B", [], ⟨⟨1, 9⟩, ⟨1, 18⟩⟩⟩] ∧
    ∃ m', ofSource ("space a;class B\x7b\x7d" ++ "\n" ++ "class C\x7b\x7d") = .ok m' ∧
      m'.rootSpace.name = m.rootSpace.name ∧ m.classes <+: m'.classes := by
  have hlen : ("space a;class B\x7b\x7d" ++ "\n" ++ "class C\x7b\x7d").length <
      UInt32.size - 1 := by
    decide
  have hm : ofSource "space a;class B\x7b\x7d" = .ok ⟨"main", ⟨"a",
      [⟨"B", [], ⟨⟨1, 9⟩, ⟨1, 18⟩⟩⟩], none, ⟨⟨1, 1⟩, ⟨1, 18⟩⟩⟩, ⟨⟨1, 1⟩, ⟨1, 18⟩⟩⟩ := by
    rw [ofSource, Token.ofSource_eq_scan]
    cbv
  have hmore : ∃ m', ofSource ("space a;class B\x7b\x7d" ++ "\n" ++ "class C\x7b\x7d") =
      .ok m' := by
    rw [ofSource, Token.ofSource_eq_scan]
    apply Exists.intro
    cbv
  obtain ⟨m', hm'⟩ := hmore
  refine ⟨_, hlen, hm, rfl, (ofSource_append hlen hm).resolve_left ?_⟩
  rintro ⟨e, he, -⟩
  rw [hm'] at he
  cases he

end Module

end SpaceLang
