import SpaceLang.Proofs.Grammar.Module

/-!
# Tokens that can be completed

`Prefix fill P ts` says that some tokens, all of which pass the test `fill`, complete `ts` to a
phrase of `P`. If a part of a phrase can be completed, so can the phrase with everything that stands
before the part (`Prefix.within`), and what can be completed behind its last tokens can be completed
before them (`Prefix.of_append`). So for each construct it is enough to say which of its parts may
be cut off.

An expression is completed by numbers and symbols alone (`IsFiller`). None of these names a type, so
they do not make a declaration of a statement that begins as an expression
(`beginsDeclaration_append_filler`). Everything else may be completed by any tokens but end markers
(`NotEnd`).
-/

namespace SpaceLang

/-- A token that stands nowhere in a source. -/
def Token.bare (kind : TokenKind) (value : String) : Token := ⟨kind, value, default⟩

namespace Grammar

variable {α β : Type} {fill fill' : Token → Prop} {P : Phrase α} {Q : Phrase β}
  {ts us vs : List Token} {t : Token}

/-- Some tokens that pass a test complete the tokens to a phrase. -/
def Prefix (fill : Token → Prop) (P : Phrase α) (ts : List Token) : Prop :=
  ∃ us a, P (ts ++ us) a ∧ ∀ u ∈ us, fill u

/-! ## Parts of phrases -/

theorem Prefix.of {a : α} (h : P ts a) : Prefix fill P ts :=
  ⟨[], a, (List.append_nil ts).symm ▸ h, fun _ hu => absurd hu List.not_mem_nil⟩

theorem Prefix.mono (h : Prefix fill P ts) (hfill : ∀ u, fill u → fill' u) :
    Prefix fill' P ts := by
  obtain ⟨us, a, ha, hus⟩ := h
  exact ⟨us, a, ha, fun u hu => hfill u (hus u hu)⟩

theorem Prefix.of_append (h : Prefix fill P (ts ++ us)) (hus : ∀ u ∈ us, fill u) :
    Prefix fill P ts := by
  obtain ⟨vs, a, ha, hvs⟩ := h
  refine ⟨us ++ vs, a, List.append_assoc ts us vs ▸ ha, fun u hu => ?_⟩
  exact (List.mem_append.1 hu).elim (hus u) (hvs u)

/-- A part of a phrase that can be completed, and the tokens that stand before it and behind it. -/
theorem Prefix.within (h : Prefix fill P us) (before behind : List Token)
    (hbehind : ∀ u ∈ behind, fill u)
    (hQ : ∀ us a, P us a → ∃ b, Q (before ++ (us ++ behind)) b) :
    Prefix fill Q (before ++ us) := by
  obtain ⟨vs, a, ha, hvs⟩ := h
  obtain ⟨b, hb⟩ := hQ _ _ ha
  refine ⟨vs ++ behind, b, ?_, fun u hu => (List.mem_append.1 hu).elim (hvs u) (hbehind u)⟩
  simpa only [List.append_assoc] using hb

theorem Prefix.last (h : Prefix fill P us) (before : List Token)
    (hQ : ∀ us a, P us a → ∃ b, Q (before ++ us) b) : Prefix fill Q (before ++ us) :=
  h.within before [] (fun _ hu => absurd hu List.not_mem_nil) fun us a ha => by
    rw [List.append_nil]
    exact hQ us a ha

theorem Prefix.many {as : List α} (hM : Many P ts as) (h : Prefix fill P us) :
    Prefix fill (Many P) (ts ++ us) :=
  h.last ts fun _ _ ha => ⟨_, hM.snoc ha⟩

theorem Prefix.commaList_first (h : Prefix fill P us) : Prefix fill (CommaList P) us := by
  refine h.last [] fun us a ha => ⟨[a], ?_⟩
  rw [List.nil_append, ← List.append_nil us]
  exact .cons ha .nil

theorem Prefix.commaList_next {comma : Token} {a : α} {as : List α} (ha : P ts a)
    (hM : Many (After "," P) us as) (hcomma : comma.isSymbol ",") (h : Prefix fill P vs) :
    Prefix fill (CommaList P) (ts ++ (us ++ comma :: vs)) := by
  have hnext : Prefix fill (After "," P) (comma :: vs) :=
    h.last [comma] fun _ a ha => ⟨a, .mk hcomma ha⟩
  exact (hnext.many hM).last ts fun _ _ has => ⟨_, .cons ha has⟩

/-! ## Fillers -/

/-- The tokens that complete expressions. -/
def IsFiller (t : Token) : Prop := t.kind = .number ∨ t.kind = .symbol

/-- The tokens that complete everything else. -/
def NotEnd (t : Token) : Prop := t.isEndOfFile = false

theorem IsFiller.not_typeName (h : IsFiller t) : t.isTypeName = false := by
  rcases h with hk | hk <;> simp [Token.isTypeName, hk]

theorem IsFiller.not_identifier (h : IsFiller t) : t.kind ≠ .identifier := by
  rcases h with hk | hk <;> simp [hk]

theorem IsFiller.notEnd (h : IsFiller t) : NotEnd t := by
  rcases h with hk | hk <;> exact Token.isEndOfFile_eq_false (by simp [hk])

theorem isFiller_symbol (s : String) : ∀ u ∈ [Token.bare .symbol s], IsFiller u := by
  intro u hu
  obtain rfl := List.mem_singleton.1 hu
  exact .inr rfl

theorem notEnd_singleton {kind : TokenKind} {s : String} (hkind : kind ≠ .endOfFile) :
    ∀ u ∈ [Token.bare kind s], NotEnd u := by
  intro u hu
  obtain rfl := List.mem_singleton.1 hu
  exact Token.isEndOfFile_eq_false hkind

theorem isSymbol_bare (s : String) : (Token.bare .symbol s).isSymbol s :=
  Token.isSymbol_iff.2 ⟨rfl, rfl⟩

/-- Tokens that complete an expression do not turn it into a declaration. -/
theorem beginsDeclaration_append_filler {c d : Cursor} (hr : c.Reads ts d)
    (hc : (c.current.isTypeName && (c.peek 1).kind = .identifier) = false)
    (hus : ∀ u ∈ us, IsFiller u) : beginsDeclaration (ts ++ us) = false := by
  rcases ts with _ | ⟨t, _ | ⟨u, ts⟩⟩
  · -- Both tokens complete.
    rcases us with _ | ⟨u, _ | ⟨v, us⟩⟩
    · rfl
    · rfl
    · simp [beginsDeclaration, (hus u (List.mem_cons_self ..)).not_typeName]
  · -- The second token completes.
    rcases us with _ | ⟨u, us⟩
    · rfl
    · simp [beginsDeclaration, (hus u (List.mem_cons_self ..)).not_identifier]
  · obtain ⟨rfl, ht, rfl, -⟩ := hr
    rw [List.cons_append, List.cons_append, beginsDeclaration]
    rwa [Cursor.peek_succ ht, Cursor.peek_zero] at hc

/-! ## Expressions -/

theorem prefix_operand_nil : Prefix IsFiller IsOperand [] := by
  refine ⟨[.bare .number "0"], _, .integer (n := 0) rfl (by decide) (by decide), fun u hu => ?_⟩
  obtain rfl := List.mem_singleton.1 hu
  exact .inl rfl

theorem Prefix.call {name dot method o : Token} (hn : IsName name) (hdot : dot.isSymbol ".")
    (hm : method.kind = .identifier) (ho : o.isSymbol "(")
    (h : Prefix IsFiller (CommaList IsExpr) ts) :
    Prefix IsFiller IsOperand (name :: dot :: method :: o :: ts) :=
  h.within [name, dot, method, o] [.bare .symbol ")"] (isFiller_symbol _) fun _ _ has =>
    ⟨_, .call hn hdot hm ho has (isSymbol_bare _)⟩

theorem Prefix.expr (h : Prefix IsFiller IsOperand ts) : Prefix IsFiller IsExpr ts :=
  h.last [] fun _ _ he => ⟨_, .operand he⟩

theorem Prefix.binary {e : Expr} {o : Token} {op : BinaryOperator} (he : IsExpr ts e)
    (ho : BinaryOperator.ofSymbol? o.value = some op) (h : Prefix IsFiller IsOperand us) :
    Prefix IsFiller IsExpr (ts ++ o :: us) := by
  have hrow := h.last (Q := IsExpr) (ts ++ [o]) fun us r hr =>
    ⟨_, by simpa only [List.append_assoc, List.singleton_append] using IsExpr.binary he ho hr⟩
  simpa only [List.append_assoc, List.singleton_append] using hrow

theorem Prefix.initializer {q : Token} (hq : q.isOperator "=") (h : Prefix IsFiller IsExpr ts) :
    Prefix IsFiller IsInitializer (q :: ts) :=
  h.last [q] fun _ _ he => ⟨_, .some hq he⟩

/-! ## Statements -/

theorem Prefix.notEnd (h : Prefix IsFiller P ts) : Prefix NotEnd P ts :=
  h.mono fun _ => IsFiller.notEnd

theorem Prefix.returnStmt {k : Token} (hk : k.isKeyword "return")
    (h : Prefix IsFiller IsExpr ts) : Prefix NotEnd IsStmt (k :: ts) :=
  h.notEnd.within [k] [.bare .symbol ";"] (notEnd_singleton (by decide)) fun _ _ he =>
    ⟨_, .valueReturn hk he (isSymbol_bare _)⟩

theorem prefix_implicit_name {k n : Token} (hk : k.isKeyword "let") (hn : n.kind = .identifier) :
    Prefix NotEnd IsStmt [k, n] := by
  have hvalue : Prefix NotEnd IsStmt [k, n, .bare .operator "="] :=
    prefix_operand_nil.expr.notEnd.within [k, n, .bare .operator "="] [.bare .symbol ";"]
      (notEnd_singleton (by decide)) fun _ _ he => ⟨_, .implicit hk hn rfl he (isSymbol_bare _)⟩
  exact hvalue.of_append (notEnd_singleton (by decide))

theorem Prefix.implicit {k n : Token} (hk : k.isKeyword "let") (hn : n.kind = .identifier)
    (h : Prefix IsFiller IsInitializer ts) : Prefix NotEnd IsStmt (k :: n :: ts) := by
  obtain ⟨us, v, hv, hus⟩ := h
  generalize hvs : ts ++ us = vs at hv
  cases hv with
  | none =>
    obtain ⟨rfl, rfl⟩ := List.append_eq_nil_iff.1 hvs
    exact prefix_implicit_name hk hn
  | some hq he =>
    have hstmt : Prefix NotEnd IsStmt _ := .of (.implicit hk hn hq he (isSymbol_bare ";"))
    rw [← List.cons_append, ← hvs, List.append_assoc] at hstmt
    refine hstmt.of_append fun u hu => ?_
    exact (List.mem_append.1 hu).elim (fun hu => (hus u hu).notEnd) (notEnd_singleton (by decide) u)

theorem prefix_implicit {k : Token} (hk : k.isKeyword "let") : Prefix NotEnd IsStmt [k] :=
  (prefix_implicit_name (n := .bare .identifier "") hk rfl).of_append
    (notEnd_singleton (by decide))

theorem Prefix.explicit {n : Token} (ht : t.isTypeName) (hn : n.kind = .identifier)
    (h : Prefix IsFiller IsInitializer ts) : Prefix NotEnd IsStmt (t :: n :: ts) :=
  h.notEnd.within [t, n] [.bare .symbol ";"] (notEnd_singleton (by decide)) fun _ _ hv =>
    ⟨_, .explicit ht hn hv (isSymbol_bare _)⟩

theorem prefix_explicit (ht : t.isTypeName) : Prefix NotEnd IsStmt [t] :=
  (Prefix.explicit (n := .bare .identifier "") ht rfl (.of .none)).of_append
    (notEnd_singleton (by decide))

theorem prefix_stmt_nil : Prefix NotEnd IsStmt [] :=
  (prefix_explicit (t := .bare .identifier "") rfl).of_append (notEnd_singleton (by decide))

theorem Prefix.exprStmt (h : Prefix IsFiller IsExpr ts)
    (hd : ∀ us, (∀ u ∈ us, IsFiller u) → beginsDeclaration (ts ++ us) = false) :
    Prefix NotEnd IsStmt ts := by
  obtain ⟨us, e, he, hus⟩ := h
  have hfill : ∀ u ∈ us ++ [.bare .symbol ";"], IsFiller u := fun u hu =>
    (List.mem_append.1 hu).elim (hus u) (isFiller_symbol _ u)
  have hdecl := hd _ hfill
  rw [← List.append_assoc] at hdecl
  have hstmt := IsStmt.expr he (isSymbol_bare ";") hdecl
  rw [List.append_assoc] at hstmt
  exact ⟨_, _, hstmt, fun u hu => (hfill u hu).notEnd⟩

/-! ## Classes -/

theorem prefix_parameter (ht : t.isTypeName) : Prefix NotEnd IsParameter [t] :=
  ⟨[.bare .identifier ""], _, .mk ht rfl, notEnd_singleton (by decide)⟩

theorem prefix_parameter_nil : Prefix NotEnd IsParameter [] :=
  (prefix_parameter (t := .bare .identifier "") rfl).of_append (notEnd_singleton (by decide))

theorem Prefix.body {n o c b : Token} {parameters : List Parameter} (ht : t.isTypeName)
    (hn : n.kind = .identifier) (ho : o.isSymbol "(") (hP : CommaList IsParameter ts parameters)
    (hc : c.isSymbol ")") (hb : b.isSymbol leftBrace) (h : Prefix NotEnd (Many IsStmt) us) :
    Prefix NotEnd IsMember (t :: n :: o :: (ts ++ c :: b :: us)) := by
  have hmember := h.within (Q := IsMember) (t :: n :: o :: (ts ++ [c, b]))
    [.bare .symbol rightBrace] (notEnd_singleton (by decide)) fun us body hM => by
      have hmethod := IsMember.method ht hn ho hP hc hb hM (isSymbol_bare rightBrace)
      exact ⟨_, by simpa only [List.cons_append, List.append_assoc, List.nil_append] using hmethod⟩
  simpa only [List.cons_append, List.append_assoc, List.nil_append] using hmember

theorem prefix_body {n o c : Token} {parameters : List Parameter} (ht : t.isTypeName)
    (hn : n.kind = .identifier) (ho : o.isSymbol "(") (hP : CommaList IsParameter ts parameters)
    (hc : c.isSymbol ")") : Prefix NotEnd IsMember (t :: n :: o :: (ts ++ [c])) := by
  have hbody : Prefix NotEnd IsMember _ :=
    Prefix.body ht hn ho hP hc (isSymbol_bare leftBrace) (.of .nil)
  rw [← List.singleton_append (x := c), ← List.append_assoc] at hbody
  exact hbody.of_append (notEnd_singleton (by decide))

theorem Prefix.parameters {n o : Token} (ht : t.isTypeName) (hn : n.kind = .identifier)
    (ho : o.isSymbol "(") (h : Prefix NotEnd (CommaList IsParameter) ts) :
    Prefix NotEnd IsMember (t :: n :: o :: ts) := by
  obtain ⟨us, parameters, hP, hus⟩ := h
  have hbody := prefix_body ht hn ho hP (isSymbol_bare ")")
  rw [List.append_assoc] at hbody
  refine hbody.of_append fun u hu => ?_
  exact (List.mem_append.1 hu).elim (hus u) (notEnd_singleton (by decide) u)

theorem Prefix.field {n : Token} (ht : t.isTypeName) (hn : n.kind = .identifier)
    (h : Prefix IsFiller IsInitializer ts) : Prefix NotEnd IsMember (t :: n :: ts) :=
  h.notEnd.within [t, n] [.bare .symbol ";"] (notEnd_singleton (by decide)) fun _ _ hv =>
    ⟨_, .field ht hn hv (isSymbol_bare _)⟩

theorem prefix_property {n b : Token} {words : List String} (ht : t.isTypeName)
    (hn : n.kind = .identifier) (hb : b.isSymbol leftBrace) (hM : Many IsAccessor (ts ++ us) words)
    (hnodup : words.Nodup) (hus : ∀ u ∈ us, NotEnd u) :
    Prefix NotEnd IsMember (t :: n :: b :: ts) := by
  have hmember : Prefix NotEnd IsMember _ :=
    .of (.property ht hn hb hM hnodup (isSymbol_bare rightBrace))
  rw [List.append_assoc] at hmember
  refine hmember.of_append fun u hu => ?_
  exact (List.mem_append.1 hu).elim (hus u) (notEnd_singleton (by decide) u)

theorem prefix_member_name {n : Token} (ht : t.isTypeName) (hn : n.kind = .identifier) :
    Prefix NotEnd IsMember [t, n] :=
  .field ht hn (.of .none)

theorem prefix_member (ht : t.isTypeName) : Prefix NotEnd IsMember [t] :=
  (prefix_member_name (n := .bare .identifier "") ht rfl).of_append (notEnd_singleton (by decide))

theorem prefix_member_nil : Prefix NotEnd IsMember [] :=
  (prefix_member (t := .bare .identifier "") rfl).of_append (notEnd_singleton (by decide))

theorem Prefix.members {k n b : Token} (hk : k.isKeyword "class") (hn : n.kind = .identifier)
    (hb : b.isSymbol leftBrace) (h : Prefix NotEnd (Many IsMember) ts) :
    Prefix NotEnd IsClass (k :: n :: b :: ts) :=
  h.within [k, n, b] [.bare .symbol rightBrace] (notEnd_singleton (by decide)) fun _ _ hM =>
    ⟨_, .mk hk hn hb hM (isSymbol_bare _)⟩

theorem prefix_class_name {k n : Token} (hk : k.isKeyword "class") (hn : n.kind = .identifier) :
    Prefix NotEnd IsClass [k, n] :=
  (Prefix.members hk hn (isSymbol_bare leftBrace) (.of .nil)).of_append
    (notEnd_singleton (by decide))

theorem prefix_class {k : Token} (hk : k.isKeyword "class") : Prefix NotEnd IsClass [k] :=
  (prefix_class_name (n := .bare .identifier "") hk rfl).of_append (notEnd_singleton (by decide))

theorem prefix_class_nil : Prefix NotEnd IsClass [] :=
  (prefix_class (k := .bare .keyword "class") rfl).of_append (notEnd_singleton (by decide))

/-! ## Spaces -/

theorem Prefix.classes {k s : Token} {name : String} (hk : k.isKeyword "space")
    (hN : IsSpaceName ts name) (hs : s.isSymbol ";") (h : Prefix NotEnd (Many IsClass) us) :
    Prefix NotEnd IsSpace (k :: (ts ++ s :: us)) := by
  have hspace := h.last (Q := IsSpace) (k :: (ts ++ [s])) fun us classes hM =>
    ⟨_, by simpa only [List.cons_append, List.append_assoc, List.nil_append] using
      IsSpace.mk hk hN hs hM⟩
  simpa only [List.cons_append, List.append_assoc, List.nil_append] using hspace

theorem prefix_spaceName_nil : Prefix NotEnd IsSpaceName [] :=
  ⟨[.bare .identifier ""], _, .mk rfl .nil, notEnd_singleton (by decide)⟩

theorem prefix_spaceName {n dot : Token} {segments : List String} (hn : n.kind = .identifier)
    (hM : Many (After "." IsIdentifier) ts segments) (hdot : dot.isSymbol ".") :
    Prefix NotEnd IsSpaceName (n :: (ts ++ [dot])) := by
  have hsegment : After "." IsIdentifier [dot, .bare .identifier ""] "" := .mk hdot (.mk rfl)
  have hname : Prefix NotEnd IsSpaceName _ := .of (.mk hn (hM.snoc hsegment))
  rw [← List.singleton_append (x := dot), ← List.append_assoc] at hname
  exact hname.of_append (notEnd_singleton (by decide))

theorem Prefix.spaceName {k : Token} (hk : k.isKeyword "space")
    (h : Prefix NotEnd IsSpaceName ts) : Prefix NotEnd IsSpace (k :: ts) := by
  refine h.within [k] [.bare .symbol ";"] (notEnd_singleton (by decide)) fun us name hN => ?_
  have hspace := IsSpace.mk hk hN (isSymbol_bare ";") .nil
  exact ⟨_, hspace⟩

theorem prefix_space_nil : Prefix NotEnd IsSpace [] :=
  (Prefix.spaceName (k := .bare .keyword "space") rfl prefix_spaceName_nil).of_append
    (notEnd_singleton (by decide))

end Grammar

end SpaceLang
