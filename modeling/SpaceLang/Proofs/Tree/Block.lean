import SpaceLang.Proofs.Token.Order
import SpaceLang.Proofs.Tree.Node
import SpaceLang.Proofs.Tree.WellFormed

/-!
# Nodes and the tokens inside their spans

The tokens of a source whose spans lie inside the span of a node are the tokens that the node was
read from, and its rule reads it again from these alone (`exists_block_of_node`). Nothing else lies
inside, since the tokens of a source are in order and not empty; only the end marker, which is
empty, may stand at the very end of the last class.
-/

namespace SpaceLang

open Grammar

/-- Whether a stretch lies inside another one. -/
def Span.contains (outer inner : Span) : Bool :=
  outer.start ≤ inner.start && inner.stop ≤ outer.stop

/-- The tokens inside a span. -/
def tokensInside (span : Span) (ts : List Token) : List Token :=
  ts.filter fun t => span.contains t.span

theorem Span.contains_iff {outer inner : Span} :
    outer.contains inner ↔ outer.start ≤ inner.start ∧ inner.stop ≤ outer.stop := by
  rw [Span.contains, Bool.and_eq_true, decide_eq_true_eq, decide_eq_true_eq]

variable {p q : Position} {before block behind ts us : List Token} {span : Span}

theorem tokensInside_append :
    tokensInside span (ts ++ us) = tokensInside span ts ++ tokensInside span us :=
  List.filter_append ..

/-- Of tokens in order, a block of them is what lies inside the cover of the block. -/
theorem tokensInside_cover (h : InOrder p (before ++ block ++ behind) q) (hne : block ≠ []) :
    tokensInside (.ofTokens block) (before ++ block ++ behind) = block := by
  obtain ⟨r, hleft, hbehind⟩ := InOrder.append_iff.1 h
  obtain ⟨r', hbefore, hblock⟩ := InOrder.append_iff.1 hleft
  obtain ⟨hstart, hcover, hstop⟩ := hblock.cover hne
  have hout : before.filter (fun t => (Span.ofTokens block).contains t.span) = [] := by
    rw [List.filter_eq_nil_iff]
    intro t ht hin
    obtain ⟨-, hlt, hle⟩ := hbefore.mem ht
    have hfirst := Position.lt_of_lt_of_le hlt (Position.le_trans hle hstart)
    exact Position.not_le_of_lt hfirst (Span.contains_iff.1 hin).1
  have hin : block.filter (fun t => (Span.ofTokens block).contains t.span) = block := by
    rw [List.filter_eq_self]
    intro t ht
    obtain ⟨hfirst, -, hlast⟩ := hcover.mem ht
    exact Span.contains_iff.2 ⟨hfirst, hlast⟩
  have hout' : behind.filter (fun t => (Span.ofTokens block).contains t.span) = [] := by
    rw [List.filter_eq_nil_iff]
    intro t ht hin
    obtain ⟨hle, hlt, -⟩ := hbehind.mem ht
    have hlast := Position.lt_of_le_of_lt (Position.le_trans hstop hle) hlt
    exact Position.not_le_of_lt hlast (Span.contains_iff.1 hin).2
  rw [tokensInside, List.filter_append, List.filter_append, hout, hin, hout', List.nil_append,
    List.append_nil]

theorem tokensInside_endOfFile (h : InOrder p (before ++ block ++ behind) q) (hne : block ≠ []) :
    tokensInside (.ofTokens block) [.endOfFile q] = [] ∨
      tokensInside (.ofTokens block) [.endOfFile q] = [.endOfFile q] ∧ behind = [] ∧
        (Span.ofTokens block).stop = q := by
  obtain ⟨r, hleft, hbehind⟩ := InOrder.append_iff.1 h
  obtain ⟨r', -, hblock⟩ := InOrder.append_iff.1 hleft
  obtain ⟨-, -, hstop⟩ := hblock.cover hne
  cases hin : (Span.ofTokens block).contains (Token.endOfFile q).span with
  | false =>
    left
    simp [tokensInside, hin]
  | true =>
    right
    have hend : q ≤ (Span.ofTokens block).stop := (Span.contains_iff.1 hin).2
    refine ⟨by simp [tokensInside, hin], ?_, ?_⟩
    · cases hbehind with
      | nil => rfl
      | cons hle hlt hrest =>
        have hlast := Position.lt_of_le_of_lt (Position.le_trans hstop hle) hlt
        have hlater := Position.lt_of_lt_of_le hlast hrest.le
        exact absurd hend (Position.not_le_of_lt hlater)
    · exact Position.le_antisymm (Position.le_trans hstop hbehind.le) hend

/-! ## Reading a block again -/

theorem Cursor.exists_reads_block (hne : block ≠ []) (h : ∀ t ∈ block, t.isEndOfFile = false)
    {last : List Token} (hlast : last = [] ∨ ∃ q, last = [.endOfFile q]) :
    ∃ d q', (ofTokens (block ++ last)).Reads block d ∧ d.current = .endOfFile q' := by
  obtain ⟨d, hr, -⟩ := exists_reads_ofTokens (block ++ last)
  have htake : (block ++ last).takeWhile (fun t => !t.isEndOfFile) = block := by
    rw [List.takeWhile_append_of_pos (by simpa using h)]
    rcases hlast with rfl | ⟨q, rfl⟩
    all_goals simp [Token.isEndOfFile, Token.endOfFile]
  have hlist : ∃ q', (ofTokens (block ++ last)).current :: (ofTokens (block ++ last)).next =
      block ++ [.endOfFile q'] := by
    obtain ⟨t, us, rfl⟩ := List.exists_cons_of_ne_nil hne
    rcases hlast with rfl | ⟨q, rfl⟩
    · rw [List.append_nil]
      exact ⟨_, rest_ofTokens_of_not_endOfFile (h _ List.getLastD_mem_cons)⟩
    · have hend : ((us ++ [Token.endOfFile q]).getLastD t).isEndOfFile := by
        rw [List.getLastD_concat]
        rfl
      exact ⟨q, rest_ofTokens_of_endOfFile hend⟩
  rw [htake] at hr
  obtain ⟨q', hlist⟩ := hlist
  rw [hr.rest_eq] at hlist
  exact ⟨d, q', hr, (List.cons.inj (List.append_cancel_left hlist)).1⟩

theorem endsExpr_endOfFile (q : Position) : EndsExpr (.endOfFile q) := ⟨rfl, rfl⟩

/-- The rule of a node reads it from its tokens alone, up to an end marker. -/
theorem Node.IsPhrase.exists_readAt {x : Node} (h : x.IsPhrase block)
    (hmarker : ∀ t ∈ block, t.isEndOfFile = false) {last : List Token}
    (hlast : last = [] ∨ ∃ q, last = [.endOfFile q]) :
    ∃ d, x.ReadAt (.ofTokens (block ++ last)) d ∧ d.current.isEndOfFile := by
  obtain ⟨d, q', hr, hd⟩ := Cursor.exists_reads_block h.ne_nil hmarker hlast
  refine ⟨d, h.readAt hr (hd ▸ endsExpr_endOfFile q'), ?_⟩
  rw [hd]
  rfl

theorem Span.ofTokens_eq (hne : block ≠ []) :
    ∃ first last, block.head? = some first ∧ block.getLast? = some last ∧
      Span.ofTokens block = ⟨first.span.start, last.span.stop⟩ := by
  obtain ⟨t, us, rfl⟩ := List.exists_cons_of_ne_nil hne
  exact ⟨t, us.getLastD t, rfl, List.getLast?_cons.trans (by simp), rfl⟩

namespace Module

/-- **Nodes are their tokens.** The tokens inside the span of a node are a block of the tokens of
the source, the span runs from the first of them to the last one, and the rule of the node reads the
node from the block alone and ends at its end. -/
theorem exists_block_of_node {source : String} {ts : List Token} {m : Module} {x : Node}
    (hlen : source.length < UInt32.size - 1) (hts : Token.ofSource source = .ok ts)
    (hm : ofTokens ts = .ok m) (hx : m.HasNode x) :
    tokensInside x.span ts <:+: ts ∧
    (∃ first last, (tokensInside x.span ts).head? = some first ∧
      (tokensInside x.span ts).getLast? = some last ∧
        x.span = ⟨first.span.start, last.span.stop⟩) ∧
    ∃ d, x.ReadAt (.ofTokens (tokensInside x.span ts)) d ∧ d.current.isEndOfFile := by
  obtain ⟨us, q, rfl, hlexical, htake⟩ := Token.takeWhile_of_ofSource hts
  obtain ⟨us', q', heq, horder⟩ := Token.inOrder_of_ofSource hts hlen
  obtain ⟨rfl, hq⟩ := List.append_inj' heq rfl
  obtain rfl : q = q' := congrArg (fun t => t.span.start) (List.cons.inj hq).1
  have hmodule := isModule_of_ofTokens hm
  rw [htake] at hmodule
  obtain ⟨block, ⟨before, behind, rfl⟩, hphrase⟩ := hx.exists_phrase hmodule
  have hne := hphrase.ne_nil
  have hspan := hphrase.span_eq
  have hmarker : ∀ t ∈ block, t.isEndOfFile = false := fun t ht =>
    (hlexical t (by simp [ht])).not_endOfFile
  have hinside : tokensInside x.span (before ++ block ++ behind ++ [.endOfFile q]) =
      block ++ tokensInside x.span [.endOfFile q] := by
    rw [tokensInside_append, hspan, tokensInside_cover horder hne]
  rw [hinside]
  rcases tokensInside_endOfFile horder hne with hend | ⟨hend, rfl, hstop⟩
  · rw [hspan, hend]
    refine ⟨⟨before, behind ++ [.endOfFile q], by simp⟩, ?_,
      hphrase.exists_readAt hmarker (.inl rfl)⟩
    rw [List.append_nil]
    exact Span.ofTokens_eq hne
  · rw [hspan, hend]
    refine ⟨⟨before, [], by simp⟩, ?_, hphrase.exists_readAt hmarker (.inr ⟨q, rfl⟩)⟩
    obtain ⟨first, last, hfirst, -, hcover⟩ := Span.ofTokens_eq hne
    refine ⟨first, .endOfFile q, ?_, by simp, ?_⟩
    · rw [List.head?_append, hfirst]
      rfl
    · rw [hcover] at hstop ⊢
      rw [← hstop]
      rfl

set_option maxRecDepth 8000 in
/-- The sum that a field begins with is three tokens of the source. -/
theorem exists_block_of_sum :
    let source := "space a;class B\x7bC d=e+f;\x7d"
    let sum := Node.expr (.binary .add (.identifier "e" ⟨⟨1, 21⟩, ⟨1, 22⟩⟩)
      (.identifier "f" ⟨⟨1, 23⟩, ⟨1, 24⟩⟩) ⟨⟨1, 21⟩, ⟨1, 24⟩⟩)
    let block : List Token := [⟨.identifier, "e", ⟨⟨1, 21⟩, ⟨1, 22⟩⟩⟩,
      ⟨.operator, "+", ⟨⟨1, 22⟩, ⟨1, 23⟩⟩⟩, ⟨.identifier, "f", ⟨⟨1, 23⟩, ⟨1, 24⟩⟩⟩]
    source.length < UInt32.size - 1 ∧ ∃ ts m, Token.ofSource source = .ok ts ∧
      ofTokens ts = .ok m ∧ m.HasNode sum ∧ tokensInside sum.span ts = block ∧ block <:+: ts ∧
      (∃ first last, block.head? = some first ∧ block.getLast? = some last ∧
        sum.span = ⟨first.span.start, last.span.stop⟩) ∧
      ∃ d, sum.ReadAt (.ofTokens block) d ∧ d.current.isEndOfFile := by
  intro source sum block
  have hlen : source.length < UInt32.size - 1 := by decide
  have hts : Token.ofSource "space a;class B\x7bC d=e+f;\x7d" = .ok [
      ⟨.keyword, "space", ⟨⟨1, 1⟩, ⟨1, 6⟩⟩⟩, ⟨.identifier, "a", ⟨⟨1, 7⟩, ⟨1, 8⟩⟩⟩,
      ⟨.symbol, ";", ⟨⟨1, 8⟩, ⟨1, 9⟩⟩⟩, ⟨.keyword, "class", ⟨⟨1, 9⟩, ⟨1, 14⟩⟩⟩,
      ⟨.identifier, "B", ⟨⟨1, 15⟩, ⟨1, 16⟩⟩⟩, ⟨.symbol, leftBrace, ⟨⟨1, 16⟩, ⟨1, 17⟩⟩⟩,
      ⟨.identifier, "C", ⟨⟨1, 17⟩, ⟨1, 18⟩⟩⟩, ⟨.identifier, "d", ⟨⟨1, 19⟩, ⟨1, 20⟩⟩⟩,
      ⟨.operator, "=", ⟨⟨1, 20⟩, ⟨1, 21⟩⟩⟩, ⟨.identifier, "e", ⟨⟨1, 21⟩, ⟨1, 22⟩⟩⟩,
      ⟨.operator, "+", ⟨⟨1, 22⟩, ⟨1, 23⟩⟩⟩, ⟨.identifier, "f", ⟨⟨1, 23⟩, ⟨1, 24⟩⟩⟩,
      ⟨.symbol, ";", ⟨⟨1, 24⟩, ⟨1, 25⟩⟩⟩, ⟨.symbol, rightBrace, ⟨⟨1, 25⟩, ⟨1, 26⟩⟩⟩,
      .endOfFile ⟨1, 26⟩] := by
    rw [Token.ofSource_eq_scan]
    cbv
  have hsource : ofSource "space a;class B\x7bC d=e+f;\x7d" =
      .ok ⟨"main", ⟨"a", [⟨"B", [.field ⟨"d", "C", some (.binary .add
        (.identifier "e" ⟨⟨1, 21⟩, ⟨1, 22⟩⟩) (.identifier "f" ⟨⟨1, 23⟩, ⟨1, 24⟩⟩)
        ⟨⟨1, 21⟩, ⟨1, 24⟩⟩), ⟨⟨1, 17⟩, ⟨1, 25⟩⟩⟩], ⟨⟨1, 9⟩, ⟨1, 26⟩⟩⟩], none,
        ⟨⟨1, 1⟩, ⟨1, 26⟩⟩⟩, ⟨⟨1, 1⟩, ⟨1, 26⟩⟩⟩ := by
    rw [ofSource_of_ok hts]
    cbv
  have hm := (ofSource_of_ok hts).symm.trans hsource
  refine ⟨hlen, _, _, hts, hm, ?hnode, rfl, exists_block_of_node hlen hts hm ?hnode⟩
  exact ⟨_, .head _, .child (.child .top (.head _)) (.head _)⟩

end Module

end SpaceLang
