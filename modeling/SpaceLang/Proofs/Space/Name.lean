import SpaceLang.Proofs.Space.Segments
import SpaceLang.Proofs.Tree.WellFormed

/-!
# The name of a space is its identifiers

The tokens between the word `space` and the first semicolon are the segments of the name and dots
between them. Joining the segments and splitting the name again gives the identifiers among those
tokens, in order (`Module.segments_of_ofSource`): no identifier has a dot in it, and what stands
around the dots in the source makes no token.
-/

namespace SpaceLang

/-- The identifiers among some tokens, by their text. -/
def Token.identifiers (ts : List Token) : List String :=
  (ts.filter fun t => t.kind = .identifier).map Token.value

namespace Grammar

variable {ts : List Token} {segments : List String} {name : String}

theorem Many.identifiers_eq (h : Many (After "." IsIdentifier) ts segments) :
    Token.identifiers ts = segments ∧ ∀ t ∈ ts, t.isSymbol ";" = false := by
  induction h with
  | nil => exact ⟨rfl, by simp⟩
  | @cons us vs s segments hs _ ih =>
    obtain ⟨hdot, ⟨hn⟩⟩ := hs
    obtain ⟨hidentifiers, hrest⟩ := ih
    have hk := (Token.isSymbol_iff.1 hdot).1
    constructor
    · rw [← hidentifiers]
      simp [Token.identifiers, hk, hn]
    · simp only [List.cons_append, List.nil_append, List.forall_mem_cons]
      exact ⟨Token.isSymbol_eq_false hdot (by decide),
        Token.isSymbol_eq_false_of_kind (by simp [hn]), hrest⟩

/-- The name of a space is that of the identifiers among its tokens. -/
theorem IsSpaceName.name_eq (h : IsSpaceName ts name) :
    name = ".".intercalate (Token.identifiers ts) ∧ Token.identifiers ts ≠ [] ∧
      ∀ t ∈ ts, t.isSymbol ";" = false := by
  obtain @⟨n, ts, segments, hn, hM⟩ := h
  obtain ⟨rfl, hrest⟩ := hM.identifiers_eq
  have hcons : Token.identifiers (n :: ts) = n.value :: Token.identifiers ts := by
    simp [Token.identifiers, hn]
  rw [hcons, List.forall_mem_cons]
  exact ⟨rfl, List.cons_ne_nil _ _, Token.isSymbol_eq_false_of_kind (by simp [hn]), hrest⟩

end Grammar

theorem Token.isFreeWord_of_mem_identifiers {ts : List Token} {w : String}
    (hts : ∀ t ∈ ts, t.Lexical) (h : w ∈ identifiers ts) : isFreeWord w := by
  obtain ⟨t, ht, rfl⟩ := List.mem_map.1 h
  obtain ⟨hmem, hk⟩ := List.mem_filter.1 ht
  exact (hts t hmem).isFreeWord (of_decide_eq_true hk)

namespace Module

open Grammar

/-- **The segments of a space are its identifiers.** A source that makes a module begins with the
word `space`, and the identifiers from there to the first semicolon are the segments of the name.
None of them is empty, reserved or has a dot, and the name joins them with dots. -/
theorem segments_of_ofSource {source : String} {m : Module} (h : ofSource source = .ok m) :
    ∃ k header s rest, Token.ofSource source = .ok (k :: (header ++ s :: rest)) ∧
      k.isKeyword "space" ∧ (∀ t ∈ header, t.isSymbol ";" = false) ∧ s.isSymbol ";" ∧
      m.rootSpace.segments = Token.identifiers header ∧
      (∀ w ∈ m.rootSpace.segments, w ≠ "" ∧ isFreeWord w ∧ '.' ∉ w.toList) ∧
      ".".intercalate m.rootSpace.segments = m.rootSpace.name := by
  obtain ⟨us, hus, hm⟩ := ofSource_eq_ok.1 h
  obtain ⟨ts, q, rfl, hts, htake⟩ := Token.takeWhile_of_ofSource hus
  have hmodule := isModule_of_ofTokens hm
  rw [htake] at hmodule
  obtain ⟨@⟨k, header, name, s, rest, classes, hk, hname, hs, -⟩⟩ := hmodule
  obtain ⟨hjoin, hne, hheader⟩ := hname.name_eq
  have hlexical : ∀ t ∈ header, t.Lexical := fun t ht => hts t (by simp [ht])
  have hfree : ∀ w ∈ Token.identifiers header, isFreeWord w := fun w =>
    Token.isFreeWord_of_mem_identifiers hlexical
  have hsegments := Space.segments_eq
    (s := ⟨name, classes, none, .ofTokens (k :: (header ++ s :: rest))⟩) hne hfree hjoin
  refine ⟨k, header, s, rest ++ [.endOfFile q], ?_, hk, hheader, hs, hsegments, ?_, ?_⟩
  · rw [hus, List.cons_append, List.append_assoc, List.cons_append]
  · rw [hsegments]
    intro w hw
    refine ⟨?_, hfree w hw, Space.not_dot_of_isFreeWord (hfree w hw)⟩
    rintro rfl
    exact absurd (hfree "" hw) (by decide)
  · rw [hsegments, hjoin]

set_option maxRecDepth 4000 in
/-- The dot of this name stands between two line ends. -/
theorem segments_of_ofSource_lines : ∃ m : Module, ofSource "space A\n.\nB;" = .ok m ∧
    m.rootSpace.segments = ["A", "B"] ∧
    ∃ k header s rest, Token.ofSource "space A\n.\nB;" = .ok (k :: (header ++ s :: rest)) ∧
      k.isKeyword "space" ∧ (∀ t ∈ header, t.isSymbol ";" = false) ∧ s.isSymbol ";" ∧
      m.rootSpace.segments = Token.identifiers header ∧
      (∀ w ∈ m.rootSpace.segments, w ≠ "" ∧ isFreeWord w ∧ '.' ∉ w.toList) ∧
      ".".intercalate m.rootSpace.segments = m.rootSpace.name := by
  have hts : Token.ofSource "space A\n.\nB;" = .ok [
      ⟨.keyword, "space", ⟨⟨1, 1⟩, ⟨1, 6⟩⟩⟩, ⟨.identifier, "A", ⟨⟨1, 7⟩, ⟨1, 8⟩⟩⟩,
      ⟨.symbol, ".", ⟨⟨2, 1⟩, ⟨2, 2⟩⟩⟩, ⟨.identifier, "B", ⟨⟨3, 1⟩, ⟨3, 2⟩⟩⟩,
      ⟨.symbol, ";", ⟨⟨3, 2⟩, ⟨3, 3⟩⟩⟩, .endOfFile ⟨3, 3⟩] := by
    rw [Token.ofSource_eq_scan]
    cbv
  have hdot : Token.isSymbol ⟨.symbol, ".", ⟨⟨2, 1⟩, ⟨2, 2⟩⟩⟩ "." := Token.isSymbol_iff.2 ⟨rfl, rfl⟩
  have hlast := After.mk hdot (@IsIdentifier.mk ⟨.identifier, "B", ⟨⟨3, 1⟩, ⟨3, 2⟩⟩⟩ rfl)
  have hothers := Many.cons hlast .nil
  have hname := @IsSpaceName.mk ⟨.identifier, "A", ⟨⟨1, 7⟩, ⟨1, 8⟩⟩⟩ _ _ rfl hothers
  have hspace := @IsSpace.mk ⟨.keyword, "space", ⟨⟨1, 1⟩, ⟨1, 6⟩⟩⟩ _ _
    ⟨.symbol, ";", ⟨⟨3, 2⟩, ⟨3, 3⟩⟩⟩ _ _ (Token.isKeyword_iff.2 ⟨rfl, rfl⟩) hname
    (Token.isSymbol_iff.2 ⟨rfl, rfl⟩) .nil
  have hm := ofSource_eq_ok.2 ⟨_, hts, ofTokens_of_isModule (.mk hspace)⟩
  exact ⟨_, hm, by decide, segments_of_ofSource hm⟩

end Module

end SpaceLang
