import SpaceLang.Proofs.Expr.Chain
import SpaceLang.Proofs.Expr.Integer
import SpaceLang.Proofs.Grammar.Module
import SpaceLang.Proofs.Token.Lexical

/-!
# Well-formed trees

A tree is well-formed if its names and types are written as tokens can be: names are identifiers,
types are identifiers or builtin, and integers have no sign. Beyond that, a variable has a type or a
value, and the grammar builds no operand on the right that is itself an operation and no call of
anything but a name. The spans of the tree are free.

Every module that a source makes is well-formed (`wellFormed_of_ofSource`): its tokens are lexical,
and every phrase of lexical tokens stands for a well-formed tree.
-/

namespace SpaceLang

/-! ## Trees -/

/-- Whether a text names a type. -/
def isTypeWord (s : String) : Bool := isFreeWord s || builtinTypes.contains s

theorem isTypeWord_iff {s : String} : isTypeWord s ↔ isFreeWord s ∨ s ∈ builtinTypes := by
  rw [isTypeWord, Bool.or_eq_true, List.contains_iff_mem]

namespace Expr

/-- An expression that can be written. -/
inductive WellFormed : Expr → Prop
  | integer {n : Int64} {span : Span} : 0 ≤ n.toInt → WellFormed (.integer n span)
  | string {s : String} {span : Span} : WellFormed (.string s span)
  | identifier {name : String} {span : Span} : isFreeWord name ∨ name = "this" →
      WellFormed (.identifier name span)
  | binary {op : BinaryOperator} {left right : Expr} {span : Span} : WellFormed left →
      WellFormed right → ¬ right.isBinary → WellFormed (.binary op left right span)
  | call {name method : String} {arguments : List Expr} {span span' : Span} :
      isFreeWord name ∨ name = "this" → isFreeWord method → (∀ e ∈ arguments, WellFormed e) →
      WellFormed (.call (.identifier name span) method arguments span')

end Expr

/-- A variable that can be written: with a type or with a value. -/
structure Variable.WellFormed (v : Variable) : Prop where
  name : isFreeWord v.name
  type : ∀ t ∈ v.type?, isTypeWord t
  value : ∀ e ∈ v.value?, e.WellFormed
  implicit : v.isImplicit → v.value?.isSome

def Stmt.WellFormed : Stmt → Prop
  | .ret value? _ => ∀ e ∈ value?, e.WellFormed
  | .declare v => v.WellFormed
  | .expr e _ => e.WellFormed

structure Parameter.WellFormed (p : Parameter) : Prop where
  name : isFreeWord p.name
  type : isTypeWord p.type

structure Method.WellFormed (m : Method) : Prop where
  name : isFreeWord m.name
  type : isTypeWord m.type
  parameters : ∀ p ∈ m.parameters, p.WellFormed
  body : ∀ s ∈ m.body, s.WellFormed

structure Field.WellFormed (f : Field) : Prop where
  name : isFreeWord f.name
  type : isTypeWord f.type
  initializer : ∀ e ∈ f.initializer?, e.WellFormed

structure Property.WellFormed (p : Property) : Prop where
  name : isFreeWord p.name
  type : isTypeWord p.type

def Member.WellFormed : Member → Prop
  | .method m => m.WellFormed
  | .field f => f.WellFormed
  | .property p => p.WellFormed

structure Class.WellFormed (c : Class) : Prop where
  name : isFreeWord c.name
  members : ∀ m ∈ c.members, m.WellFormed

/-- A space that can be written: the segments of its name are identifiers. -/
structure Space.WellFormed (s : Space) : Prop where
  name : ∃ segments, segments ≠ [] ∧ (∀ w ∈ segments, isFreeWord w) ∧
    s.name = ".".intercalate segments
  parent : s.parent? = none
  classes : ∀ c ∈ s.classes, c.WellFormed

structure Module.WellFormed (m : Module) : Prop where
  name : m.name = "main"
  rootSpace : m.rootSpace.WellFormed

/-! ## Lexical tokens -/

namespace Token.Lexical

variable {t : Token}

theorem isLexical {kind : TokenKind} (h : t.Lexical) (hk : t.kind = kind) :
    IsLexical kind t.value :=
  hk ▸ h

theorem isFreeWord (h : t.Lexical) (hk : t.kind = .identifier) : isFreeWord t.value := by
  cases h.isLexical hk with
  | identifier hfree => exact hfree

theorem not_endOfFile (h : t.Lexical) : t.isEndOfFile = false := by
  refine isEndOfFile_eq_false ?_
  intro hk
  cases h.isLexical hk

theorem all_isDigit (h : t.Lexical) (hk : t.kind = .number) :
    t.value.toList ≠ [] ∧ t.value.toList.all Char.isDigit := by
  cases h.isLexical hk with
  | number hne hdigits => exact ⟨hne, hdigits⟩

theorem isTypeWord (h : t.Lexical) (ht : t.isTypeName) : isTypeWord t.value := by
  rw [isTypeWord_iff]
  rcases isTypeName_iff.1 ht with hk | ⟨-, hmem⟩
  · exact .inl (h.isFreeWord hk)
  · exact .inr hmem

theorem isFreeWord_or_this (h : t.Lexical) (ht : Grammar.IsName t) :
    SpaceLang.isFreeWord t.value ∨ t.value = "this" := by
  rcases ht with hk | hk
  · exact .inl (h.isFreeWord hk)
  · exact .inr (isKeyword_iff.1 hk).2

end Token.Lexical

/-! ## Phrases of lexical tokens -/

namespace Grammar

variable {α : Type} {P : Phrase α} {L : Token → Prop} {W : α → Prop} {ts : List Token}
  {as : List α}

theorem Many.forall_mem (h : Many P ts as) (hts : ∀ t ∈ ts, L t)
    (hP : ∀ us a, P us a → (∀ t ∈ us, L t) → W a) : ∀ a ∈ as, W a := by
  induction h with
  | nil => simp
  | cons ha _ ih =>
    rw [List.forall_mem_append] at hts
    rw [List.forall_mem_cons]
    exact ⟨hP _ _ ha hts.1, ih hts.2⟩

theorem CommaList.forall_mem (h : CommaList P ts as) (hts : ∀ t ∈ ts, L t)
    (hP : ∀ us a, P us a → (∀ t ∈ us, L t) → W a) : ∀ a ∈ as, W a := by
  cases h with
  | nil => simp
  | cons ha hM =>
    rw [List.forall_mem_append] at hts
    rw [List.forall_mem_cons]
    refine ⟨hP _ _ ha hts.1, hM.forall_mem hts.2 ?_⟩
    rintro _ a ⟨-, ha⟩ hus
    exact hP _ a ha (List.forall_mem_cons.1 hus).2

theorem wellFormed_cases : ExprCases
    (fun ts e => (∀ t ∈ ts, t.Lexical) → e.WellFormed)
    (fun ts e => (∀ t ∈ ts, t.Lexical) → e.WellFormed ∧ e.isBinary = false) where
  operand _ h hts := (h hts).1
  binary := by
    intro ts us o op l r _ hl _ _ hr hts
    rw [List.forall_mem_append, List.forall_mem_cons] at hts
    obtain ⟨hwell, hbinary⟩ := hr hts.2.2
    exact .binary (hl hts.1) hwell (by simp [hbinary])
  integer := by
    intro t n hk hn hfits hts
    obtain ⟨hne, hdigits⟩ := (hts t (by simp)).all_isDigit hk
    rw [Integer.denoted?_of_all_isDigit hne hdigits] at hn
    refine ⟨.integer ?_, rfl⟩
    rw [Integer.toInt_ofInt hfits]
    obtain rfl := Option.some.inj hn
    exact Int.natCast_nonneg _
  string _ _ := ⟨.string, rfl⟩
  name := by
    intro t hn hts
    exact ⟨.identifier ((hts t (by simp)).isFreeWord_or_this hn), rfl⟩
  call := by
    intro t dot m o ts as c hn _ hm _ has _ hts
    simp only [List.forall_mem_cons, List.forall_mem_append] at hts
    obtain ⟨ht, -, hmLex, -, hts, -⟩ := hts
    refine ⟨.call (ht.isFreeWord_or_this hn) (hmLex.isFreeWord hm) ?_, rfl⟩
    exact has.forall_mem hts fun us e he hus => he.2 hus

variable {e : Expr} {v : Option Expr}

theorem IsExpr.wellFormed (h : IsExpr ts e) (hts : ∀ t ∈ ts, t.Lexical) : e.WellFormed :=
  h.of_cases wellFormed_cases hts

theorem IsInitializer.wellFormed (h : IsInitializer ts v) (hts : ∀ t ∈ ts, t.Lexical) :
    ∀ e ∈ v, e.WellFormed := by
  cases h with
  | none => simp
  | some _ he =>
    rw [List.forall_mem_cons] at hts
    rintro _ ⟨⟩
    exact he.wellFormed hts.2

theorem IsStmt.wellFormed {s : Stmt} (h : IsStmt ts s) (hts : ∀ t ∈ ts, t.Lexical) :
    s.WellFormed := by
  cases h with
  | bareReturn => simp [Stmt.WellFormed]
  | valueReturn _ he =>
    simp only [List.forall_mem_cons, List.forall_mem_append] at hts
    rintro _ ⟨⟩
    exact he.wellFormed hts.2.1
  | implicit _ hn _ he =>
    simp only [List.forall_mem_cons, List.forall_mem_append] at hts
    obtain ⟨-, hname, -, hvalue, -⟩ := hts
    refine ⟨hname.isFreeWord hn, by simp, ?_, by simp⟩
    rintro _ ⟨⟩
    exact he.wellFormed hvalue
  | explicit ht hn hv =>
    simp only [List.forall_mem_cons, List.forall_mem_append] at hts
    obtain ⟨htype, hname, hvalue, -⟩ := hts
    refine ⟨hname.isFreeWord hn, ?_, hv.wellFormed hvalue, by simp [Variable.isImplicit]⟩
    rintro _ ⟨⟩
    exact htype.isTypeWord ht
  | expr he =>
    rw [List.forall_mem_append] at hts
    exact he.wellFormed hts.1

theorem IsParameter.wellFormed {p : Parameter} (h : IsParameter ts p)
    (hts : ∀ t ∈ ts, t.Lexical) : p.WellFormed := by
  obtain ⟨ht, hn⟩ := h
  simp only [List.forall_mem_cons] at hts
  exact ⟨hts.2.1.isFreeWord hn, hts.1.isTypeWord ht⟩

theorem IsMember.wellFormed {m : Member} (h : IsMember ts m) (hts : ∀ t ∈ ts, t.Lexical) :
    m.WellFormed := by
  cases h with
  | method ht hn _ hps _ _ hbody _ =>
    simp only [List.forall_mem_cons, List.forall_mem_append] at hts
    obtain ⟨htype, hname, -, hparameters, -, -, hstmts, -⟩ := hts
    exact ⟨hname.isFreeWord hn, htype.isTypeWord ht,
      hps.forall_mem hparameters fun _ _ => IsParameter.wellFormed,
      hbody.forall_mem hstmts fun _ _ => IsStmt.wellFormed⟩
  | field ht hn hv =>
    simp only [List.forall_mem_cons, List.forall_mem_append] at hts
    obtain ⟨htype, hname, hvalue, -⟩ := hts
    exact ⟨hname.isFreeWord hn, htype.isTypeWord ht, hv.wellFormed hvalue⟩
  | property ht hn =>
    simp only [List.forall_mem_cons] at hts
    exact ⟨hts.2.1.isFreeWord hn, hts.1.isTypeWord ht⟩

theorem IsClass.wellFormed {c : Class} (h : IsClass ts c) (hts : ∀ t ∈ ts, t.Lexical) :
    c.WellFormed := by
  obtain ⟨_, hn, _, hmembers, _⟩ := h
  simp only [List.forall_mem_cons, List.forall_mem_append] at hts
  exact ⟨hts.2.1.isFreeWord hn, hmembers.forall_mem hts.2.2.2.1 fun _ _ => IsMember.wellFormed⟩

theorem IsSpaceName.exists_segments {name : String} (h : IsSpaceName ts name)
    (hts : ∀ t ∈ ts, t.Lexical) : ∃ segments, segments ≠ [] ∧ (∀ w ∈ segments, isFreeWord w) ∧
      name = ".".intercalate segments := by
  obtain @⟨n, ts, segments, hn, hM⟩ := h
  rw [List.forall_mem_cons] at hts
  refine ⟨n.value :: segments, List.cons_ne_nil _ _, ?_, rfl⟩
  rw [List.forall_mem_cons]
  refine ⟨hts.1.isFreeWord hn, hM.forall_mem hts.2 ?_⟩
  rintro _ _ ⟨-, ⟨hk⟩⟩ hus
  exact (hus _ (by simp)).isFreeWord hk

theorem IsSpace.wellFormed {s : Space} (h : IsSpace ts s) (hts : ∀ t ∈ ts, t.Lexical) :
    s.WellFormed := by
  obtain ⟨_, hname, _, hclasses⟩ := h
  simp only [List.forall_mem_cons, List.forall_mem_append] at hts
  exact ⟨hname.exists_segments hts.2.1, rfl,
    hclasses.forall_mem hts.2.2.2 fun _ _ => IsClass.wellFormed⟩

end Grammar

/-! ## Sources -/

theorem Token.takeWhile_of_ofSource {source : String} {us : List Token}
    (h : ofSource source = .ok us) :
    ∃ ts q, us = ts ++ [endOfFile q] ∧ (∀ t ∈ ts, t.Lexical) ∧
      us.takeWhile (fun t => !t.isEndOfFile) = ts := by
  rw [ofSource_eq_scan] at h
  obtain ⟨ts, q, rfl, hts⟩ := exists_lexical_of_scan h
  refine ⟨ts, q, rfl, hts, ?_⟩
  have hall : ∀ t ∈ ts, (!t.isEndOfFile) = true := by
    intro t ht
    rw [(hts t ht).not_endOfFile]
    rfl
  rw [List.takeWhile_append_of_pos hall]
  simp [isEndOfFile, endOfFile]

theorem Module.ofSource_eq_ok {source : String} {m : Module} :
    ofSource source = .ok m ↔ ∃ ts, Token.ofSource source = .ok ts ∧ ofTokens ts = .ok m := by
  unfold ofSource
  cases Token.ofSource source with
  | error d => simp [bind, Except.bind]
  | ok ts => simp [bind, Except.bind]

/-- Every module that a source makes is well-formed. -/
theorem Module.wellFormed_of_ofSource {source : String} {m : Module} (h : ofSource source = .ok m) :
    m.WellFormed := by
  obtain ⟨us, hus, hm⟩ := ofSource_eq_ok.1 h
  obtain ⟨ts, q, -, hts, htake⟩ := Token.takeWhile_of_ofSource hus
  have hmodule := isModule_of_ofTokens hm
  rw [htake] at hmodule
  obtain ⟨hspace⟩ := hmodule
  exact ⟨rfl, hspace.wellFormed hts⟩

end SpaceLang
