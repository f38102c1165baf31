import SpaceLang.Proofs.Tree.Block

/-!
# Spans are nested as the tree is

`outer.Nests inner` says that a span is not empty and holds the spans `inner`, one behind the other.
The span of a node nests those of its children, and the span of a module those of its classes, which
stand behind the semicolon of its header (`Module.ofSource_nests`). The spans are those of blocks of
tokens, so all of it follows from the order of the tokens: where tokens are in order, so are the
covers of blocks that stand in them one behind the other (`Node.Blocks.within`,
`Node.Blocks.pairwise`).
-/

namespace SpaceLang

open Grammar Position

/-- Whether a stretch is not empty and holds others, one behind the other. -/
structure Span.Nests (outer : Span) (inner : List Span) : Prop where
  nonempty : outer.start < outer.stop
  inside : ∀ s ∈ inner, outer.contains s
  ordered : inner.Pairwise fun s t => s.stop ≤ t.start

variable {p q : Position} {ts us : List Token} {x : Node} {xs : List Node}

theorem InOrder.lt (h : InOrder p ts q) (hne : ts ≠ []) : p < q := by
  obtain ⟨t, us, rfl⟩ := List.exists_cons_of_ne_nil hne
  obtain ⟨hstart, hlt, hstop⟩ := h.mem (List.mem_cons_self ..)
  exact lt_of_le_of_lt hstart (lt_of_lt_of_le hlt hstop)

theorem InOrder.of_infix (h : InOrder p ts q) (hus : us <:+: ts) : ∃ r r', InOrder r us r' := by
  obtain ⟨before, behind, rfl⟩ := hus
  obtain ⟨r', hleft, -⟩ := InOrder.append_iff.1 h
  obtain ⟨r, -, hblock⟩ := InOrder.append_iff.1 hleft
  exact ⟨r, r', hblock⟩

namespace Node

theorem IsPhrase.cover (hx : x.IsPhrase ts) (h : InOrder p ts q) :
    p ≤ x.span.start ∧ InOrder x.span.start ts x.span.stop ∧ x.span.stop ≤ q := by
  rw [hx.span_eq]
  exact h.cover hx.ne_nil

theorem Blocks.within (hxs : Blocks ts xs) (h : InOrder p ts q) :
    ∀ x ∈ xs, p ≤ x.span.start ∧ x.span.stop ≤ q := by
  intro x hx
  obtain ⟨us, ⟨before, behind, rfl⟩, hphrase⟩ := hxs.exists_infix hx
  obtain ⟨r', hleft, hbehind⟩ := InOrder.append_iff.1 h
  obtain ⟨r, hbefore, hblock⟩ := InOrder.append_iff.1 hleft
  obtain ⟨hstart, -, hstop⟩ := hphrase.cover hblock
  exact ⟨le_trans hbefore.le hstart, le_trans hstop hbehind.le⟩

theorem Blocks.pairwise (hxs : Blocks ts xs) (h : InOrder p ts q) :
    xs.Pairwise fun x y => x.span.stop ≤ y.span.start := by
  induction hxs generalizing p with
  | nil => exact .nil
  | skip _ ih =>
    cases h with
    | cons _ _ h => exact ih h
  | cons hx hxs ih =>
    obtain ⟨r, hblock, hbehind⟩ := InOrder.append_iff.1 h
    obtain ⟨-, -, hstop⟩ := hx.cover hblock
    refine .cons (fun y hy => ?_) (ih hbehind)
    exact le_trans hstop (hxs.within hbehind y hy).1

theorem Blocks.nests (hxs : Blocks ts xs) {span : Span} (hne : ts ≠ [])
    (h : InOrder span.start ts span.stop) : span.Nests (xs.map Node.span) := by
  refine ⟨h.lt hne, ?_, List.pairwise_map.2 (hxs.pairwise h)⟩
  intro s hs
  obtain ⟨x, hx, rfl⟩ := List.mem_map.1 hs
  exact Span.contains_iff.2 (hxs.within h x hx)

end Node

theorem Grammar.IsModule.nests {m : Module} (hm : IsModule ts m) (h : InOrder p ts q) :
    m.span.Nests (m.classes.map Class.span) ∧
    ∃ k ns s behind, ts = k :: (ns ++ s :: behind) ∧ k.isKeyword "space" ∧
      IsSpaceName ns m.rootSpace.name ∧ s.isSymbol ";" ∧ m.span.start = k.span.start ∧
      ∀ c ∈ m.classes, s.span.stop ≤ c.span.start := by
  have hspan := hm.span_eq.1
  obtain ⟨k, ns, s, us, rfl, hk, hname, hs, hblocks⟩ := hm.exists_header
  have hne : k :: (ns ++ s :: us) ≠ [] := List.cons_ne_nil k _
  have hcover : InOrder m.span.start (k :: (ns ++ s :: us)) m.span.stop := by
    rw [hspan]
    exact (h.cover hne).2.1
  refine ⟨?_, k, ns, s, us, rfl, hk, hname, hs, by rw [hspan]; rfl, fun c hc => ?_⟩
  · have hall : Node.Blocks (k :: (ns ++ s :: us)) (m.classes.map Node.decl) :=
      .skip (hblocks.skip.append_left ns)
    have hnests := hall.nests hne hcover
    rwa [List.map_map] at hnests
  · have hall : InOrder p (k :: ns ++ [s] ++ us) q := by simpa using h
    obtain ⟨r, hheader, hclasses⟩ := InOrder.append_iff.1 hall
    obtain ⟨-, -, hstop⟩ := hheader.mem (List.mem_append_right _ (List.mem_singleton_self s))
    exact le_trans hstop (hblocks.within hclasses _ (List.mem_map_of_mem hc)).1

/-- A node of a module in tokens in order: its span holds those of its children. -/
theorem Module.HasNode.nests {m : Module} (hx : m.HasNode x) (hm : IsModule ts m)
    (h : InOrder p ts q) : x.span.Nests (x.children.map Node.span) := by
  obtain ⟨us, hus, hphrase⟩ := hx.exists_phrase hm
  obtain ⟨r, r', hblock⟩ := h.of_infix hus
  exact hphrase.blocks.nests hphrase.ne_nil (hphrase.cover hblock).2.1

namespace Module

/-- **Spans are nested as the tree is.** In the module that a source makes, the span of a node is
not empty and holds those of its children, each behind the ones before it. The module has the span
of its space, which holds the classes in the same way, all of them behind the header, whose tokens
are the first ones of the source. -/
theorem ofSource_nests {source : String} {m : Module} (hlen : source.length < UInt32.size - 1)
    (h : ofSource source = .ok m) :
    (∀ x, m.HasNode x → x.span.Nests (x.children.map Node.span)) ∧
    m.span = m.rootSpace.span ∧ m.span.Nests (m.classes.map Class.span) ∧
    ∃ k ns s behind, Token.ofSource source = .ok (k :: (ns ++ s :: behind)) ∧
      k.isKeyword "space" ∧ IsSpaceName ns m.rootSpace.name ∧ s.isSymbol ";" ∧
      m.span.start = k.span.start ∧ ∀ c ∈ m.classes, s.span.stop ≤ c.span.start := by
  obtain ⟨ts, hts, hm⟩ := ofSource_eq_ok.1 h
  obtain ⟨us, q, rfl, -, htake⟩ := Token.takeWhile_of_ofSource hts
  obtain ⟨us', q', heq, horder⟩ := Token.inOrder_of_ofSource hts hlen
  obtain ⟨rfl, -⟩ := List.append_inj' heq rfl
  have hmodule := isModule_of_ofTokens hm
  rw [htake] at hmodule
  obtain ⟨hspan, hspace⟩ := hmodule.span_eq
  obtain ⟨hclasses, k, ns, s, behind, rfl, hheader⟩ := hmodule.nests horder
  refine ⟨fun x hx => hx.nests hmodule horder, hspan.trans hspace.symm, hclasses, k, ns, s,
    behind ++ [.endOfFile q], ?_, hheader⟩
  rw [hts, List.cons_append, List.append_assoc, List.cons_append]

set_option maxRecDepth 8000 in
/-- A class with a field that begins with a sum. -/
theorem ofSource_nests_field : ∃ m : Module,
    "space a;class B\x7bC d=e+f;\x7d".length < UInt32.size - 1 ∧
    ofSource "space a;class B\x7bC d=e+f;\x7d" = .ok m ∧
    (∀ x, m.HasNode x → x.span.Nests (x.children.map Node.span)) ∧
    m.span = m.rootSpace.span ∧ m.span.Nests (m.classes.map Class.span) ∧
    ∃ k ns s behind, Token.ofSource "space a;class B\x7bC d=e+f;\x7d" =
        .ok (k :: (ns ++ s :: behind)) ∧
      k.isKeyword "space" ∧ IsSpaceName ns m.rootSpace.name ∧ s.isSymbol ";" ∧
      m.span.start = k.span.start ∧ ∀ c ∈ m.classes, s.span.stop ≤ c.span.start := by
  have hlen : "space a;class B\x7bC d=e+f;\x7d".length < UInt32.size - 1 := by decide
  have hm : ofSource "space a;class B\x7bC d=e+f;\x7d" = .ok ⟨"main", ⟨"a",
      [⟨"B", [.field ⟨"d", "C", some (.binary .add (.identifier "e" ⟨⟨1, 21⟩, ⟨1, 22⟩⟩)
        (.identifier "f" ⟨⟨1, 23⟩, ⟨1, 24⟩⟩) ⟨⟨1, 21⟩, ⟨1, 24⟩⟩), ⟨⟨1, 17⟩, ⟨1, 25⟩⟩⟩],
        ⟨⟨1, 9⟩, ⟨1, 26⟩⟩⟩], none, ⟨⟨1, 1⟩, ⟨1, 26⟩⟩⟩, ⟨⟨1, 1⟩, ⟨1, 26⟩⟩⟩ := by
    rw [ofSource, Token.ofSource_eq_scan]
    cbv
  exact ⟨_, hlen, hm, ofSource_nests hlen hm⟩

end Module

end SpaceLang
