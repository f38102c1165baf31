import SpaceLang.Proofs.Tree.Text

/-!
# The trees of sources

Every well-formed tree is written as a phrase for it (`IsWritten`), one construct after the other.
For an expression the induction shows two facts at once, since an operation is written as an
expression only and everything else also as an operand. With the tokens that scanning gives back,
this makes the well-formed modules the ones that sources have, up to spans (`ofSource_image`).
-/

namespace SpaceLang

open Content Grammar

/-! ## Expressions -/

theorem Expr.rows_eq_map (es : List Expr) : Expr.rows es = es.map Expr.row := by
  induction es with
  | nil => simp [Expr.rows]
  | cons e es ih => rw [Expr.rows, ih, List.map_cons]

theorem lexical_name {name : String} (h : isFreeWord name ∨ name = "this") :
    (word name).Lexical := by
  refine lexical_word (h.imp_right ?_)
  rintro rfl
  decide

theorem isWritten_expr_of_operand {row : List Content} {e : Expr}
    (h : IsWritten IsOperand (Expr.mapSpan .forget) row e) :
    IsWritten IsExpr (Expr.mapSpan .forget) row e := by
  refine ⟨h.lexical, fun ts hts => ?_⟩
  obtain ⟨e', he, hbare⟩ := h.phrase ts hts
  exact ⟨e', .operand he, hbare⟩

theorem isWritten_integer {n : Int64} {span : Span} (h : 0 ≤ n.toInt) :
    IsWritten IsOperand (Expr.mapSpan .forget) (Expr.integer n span).row (.integer n span) := by
  have hdenoted := Integer.denoted?_toString n.toInt.toNat
  rw [Int.toNat_of_nonneg h] at hdenoted
  refine ⟨?_, fun ts hts => ?_⟩
  · rw [Expr.row, List.forall_mem_singleton]
    obtain ⟨hne, hdigits⟩ := Integer.toString_digits n.toInt.toNat
    exact .number hne hdigits
  · rw [Expr.row, List.map_eq_singleton_iff] at hts
    obtain ⟨t, rfl, ht⟩ := hts
    obtain ⟨hk, hv⟩ := Prod.mk.inj ht
    refine ⟨_, .integer hk (hv ▸ hdenoted) (Integer.fits_toInt n), ?_⟩
    rw [Int64.ofInt_toInt]
    rfl

theorem isWritten_string {s : String} {span : Span} :
    IsWritten IsOperand (Expr.mapSpan .forget) (Expr.string s span).row (.string s span) := by
  refine ⟨?_, fun ts hts => ?_⟩
  · rw [Expr.row, List.forall_mem_singleton]
    exact .string
  · rw [Expr.row, List.map_eq_singleton_iff] at hts
    obtain ⟨t, rfl, ht⟩ := hts
    obtain ⟨hk, rfl⟩ := Prod.mk.inj ht
    exact ⟨_, .string hk, rfl⟩

theorem isWritten_name {name : String} {span : Span} (h : isFreeWord name ∨ name = "this") :
    IsWritten IsOperand (Expr.mapSpan .forget) (Expr.identifier name span).row
      (.identifier name span) := by
  refine ⟨?_, fun ts hts => ?_⟩
  · rw [Expr.row, List.forall_mem_singleton]
    exact lexical_name h
  · rw [Expr.row, List.map_eq_singleton_iff] at hts
    obtain ⟨t, rfl, ht⟩ := hts
    obtain rfl := Token.value_of_word ht
    exact ⟨_, .name (Token.isName_of_word ht h), rfl⟩

theorem isWritten_binary {op : BinaryOperator} {left right : Expr} {span : Span}
    (hl : IsWritten IsExpr (Expr.mapSpan .forget) left.row left)
    (hr : IsWritten IsOperand (Expr.mapSpan .forget) right.row right) :
    IsWritten IsExpr (Expr.mapSpan .forget) (Expr.binary op left right span).row
      (.binary op left right span) := by
  refine ⟨?_, fun ts hts => ?_⟩
  · rw [Expr.row, List.forall_mem_append, List.forall_mem_cons]
    exact ⟨hl.lexical, lexical_operator op, hr.lexical⟩
  · rw [Expr.row, List.map_eq_append_iff] at hts
    obtain ⟨us, vs, rfl, hus, hvs⟩ := hts
    obtain ⟨o, vs, rfl, ho, hvs⟩ := List.map_eq_cons_iff.1 hvs
    obtain ⟨l, hl, hleft⟩ := hl.phrase us hus
    obtain ⟨r, hr, hright⟩ := hr.phrase vs hvs
    have hop : BinaryOperator.ofSymbol? o.value = some op := by
      rw [(Prod.mk.inj ho).2, BinaryOperator.ofSymbol?_symbol]
    refine ⟨_, .binary hl hop hr, ?_⟩
    simp only [Expr.mapSpan, hleft, hright]
    rfl

theorem isWritten_call {name method : String} {arguments : List Expr} {span span' : Span}
    (hname : isFreeWord name ∨ name = "this") (hmethod : isFreeWord method)
    (h : ∀ e ∈ arguments, IsWritten IsExpr (Expr.mapSpan .forget) e.row e) :
    IsWritten IsOperand (Expr.mapSpan .forget)
      (Expr.call (.identifier name span) method arguments span').row
      (.call (.identifier name span) method arguments span') := by
  have hargs := isWritten_commaList h
  rw [← Expr.rows_eq_map] at hargs
  refine ⟨?_, fun ts hts => ?_⟩
  · simp only [Expr.row, List.forall_mem_append, List.forall_mem_cons, List.not_mem_nil,
      false_implies, implies_true, and_true]
    exact ⟨lexical_name hname, lexical_symbol (by decide), lexical_word (.inl hmethod),
      lexical_symbol (by decide), hargs.lexical, lexical_symbol (by decide)⟩
  · simp only [Expr.row, List.singleton_append, List.map_eq_cons_iff, List.map_eq_append_iff,
      List.map_eq_nil_iff] at hts
    obtain ⟨t, _, rfl, ht, dot, _, rfl, hdot, m, _, rfl, hm, o, _, rfl, ho, us, _, rfl, hus, c, _,
      rfl, hc, rfl⟩ := hts
    obtain ⟨as, has, hbare⟩ := hargs.phrase us hus
    obtain rfl := Token.value_of_word ht
    obtain rfl := Token.value_of_word hm
    refine ⟨_, .call (Token.isName_of_word ht hname) (Token.isSymbol_of_content hdot)
      (Token.kind_of_word hm hmethod) (Token.isSymbol_of_content ho) has
      (Token.isSymbol_of_content hc), ?_⟩
    simp only [Expr.mapSpan, Expr.mapSpans_eq_map, hbare]
    rfl

theorem Expr.WellFormed.isWritten_and {e : Expr} (h : e.WellFormed) :
    IsWritten IsExpr (Expr.mapSpan .forget) e.row e ∧
      (¬ e.isBinary → IsWritten IsOperand (Expr.mapSpan .forget) e.row e) := by
  induction h with
  | integer h =>
    exact ⟨isWritten_expr_of_operand (isWritten_integer h), fun _ => isWritten_integer h⟩
  | string => exact ⟨isWritten_expr_of_operand isWritten_string, fun _ => isWritten_string⟩
  | identifier h => exact ⟨isWritten_expr_of_operand (isWritten_name h), fun _ => isWritten_name h⟩
  | binary _ _ hr ihl ihr => exact ⟨isWritten_binary ihl.1 (ihr.2 hr), fun h => absurd rfl h⟩
  | @call name method arguments span span' hn hm _ ih =>
    have hcall : IsWritten IsOperand (Expr.mapSpan .forget)
        (Expr.call (.identifier name span) method arguments span').row _ :=
      isWritten_call hn hm fun e he => (ih e he).1
    exact ⟨isWritten_expr_of_operand hcall, fun _ => hcall⟩

theorem Expr.WellFormed.isWritten {e : Expr} (h : e.WellFormed) :
    IsWritten IsExpr (Expr.mapSpan .forget) e.row e :=
  h.isWritten_and.1

theorem isWritten_initializer {v : Option Expr} (h : ∀ e ∈ v, e.WellFormed) :
    IsWritten IsInitializer (Option.map (Expr.mapSpan .forget)) (Expr.initializerRow v) v := by
  cases v with
  | none =>
    refine ⟨by simp [Expr.initializerRow], fun ts hts => ⟨none, ?_, rfl⟩⟩
    rw [Expr.initializerRow, List.map_eq_nil_iff] at hts
    rw [hts]
    exact .none
  | some e =>
    have he := (h e rfl).isWritten
    refine ⟨?_, fun ts hts => ?_⟩
    · rw [Expr.initializerRow, List.forall_mem_cons]
      exact ⟨.single (by decide), he.lexical⟩
    · obtain ⟨q, us, rfl, hq, hus⟩ := List.map_eq_cons_iff.1 hts
      obtain ⟨e', he', hbare⟩ := he.phrase us hus
      exact ⟨some e', .some (Token.isOperator_of_content hq) he', congrArg some hbare⟩

/-! ## Statements -/

/-- No identifier stands in the second place of an expression. -/
theorem Expr.row_eq_cons : ∀ e : Expr, ∃ content rest, e.row = content :: rest ∧
    ∀ next ∈ rest.head?, next.1 ≠ .identifier
  | .integer n _ => ⟨_, [], rfl, by simp⟩
  | .string s _ => ⟨_, [], rfl, by simp⟩
  | .identifier name _ => ⟨_, [], rfl, by simp⟩
  | .binary op left right _ => by
    obtain ⟨content, rest, hrow, hrest⟩ := left.row_eq_cons
    refine ⟨content, rest ++ operator op.symbol :: right.row, by rw [Expr.row, hrow]; rfl, ?_⟩
    cases rest with
    | nil => simp [operator]
    | cons next rest => exact hrest
  | .call target method arguments _ => by
    obtain ⟨content, rest, hrow, hrest⟩ := target.row_eq_cons
    refine ⟨content, _, by rw [Expr.row, hrow]; rfl, ?_⟩
    cases rest with
    | nil => simp [symbol]
    | cons next rest => exact hrest

theorem beginsDeclaration_eq_false {e : Expr} {ts : List Token} {s : Token}
    (hts : ts.map Token.content = e.row) (hs : s.isSymbol ";") :
    beginsDeclaration (ts ++ [s]) = false := by
  obtain ⟨content, rest, hrow, hrest⟩ := e.row_eq_cons
  rw [hrow] at hts
  obtain ⟨t, us, rfl, -, rfl⟩ := List.map_eq_cons_iff.1 hts
  cases us with
  | nil =>
    simp [beginsDeclaration, (Token.isSymbol_iff.1 hs).1]
  | cons u us =>
    have hu : u.kind ≠ .identifier := hrest u.content rfl
    simp [beginsDeclaration, hu]

theorem lexical_semicolon : (symbol ";").Lexical := lexical_symbol (by decide)

theorem isWritten_return {v : Option Expr} {span : Span} (h : ∀ e ∈ v, e.WellFormed) :
    IsWritten IsStmt (Stmt.mapSpan .forget) (Stmt.ret v span).row (.ret v span) := by
  have hreturn : (word "return").Lexical := lexical_word (.inr (by decide))
  cases v with
  | none =>
    refine ⟨?_, fun ts hts => ?_⟩
    · simp only [Stmt.row, List.forall_mem_cons, List.not_mem_nil, false_implies, implies_true,
        and_true]
      exact ⟨hreturn, lexical_semicolon⟩
    · simp only [Stmt.row, List.map_eq_cons_iff, List.map_eq_nil_iff] at hts
      obtain ⟨k, _, rfl, hk, s, _, rfl, hs, rfl⟩ := hts
      exact ⟨_, .bareReturn (Token.isKeyword_of_word hk (by decide)) (Token.isSymbol_of_content hs),
        rfl⟩
  | some e =>
    have he := (h e rfl).isWritten
    refine ⟨?_, fun ts hts => ?_⟩
    · simp only [Stmt.row, List.forall_mem_append, List.forall_mem_cons, List.not_mem_nil,
        false_implies, implies_true, and_true]
      exact ⟨hreturn, he.lexical, lexical_semicolon⟩
    · simp only [Stmt.row, List.map_eq_cons_iff, List.map_eq_append_iff, List.map_eq_nil_iff] at hts
      obtain ⟨k, _, rfl, hk, us, _, rfl, hus, s, _, rfl, hs, rfl⟩ := hts
      obtain ⟨e', he', hbare⟩ := he.phrase us hus
      refine ⟨_, .valueReturn (Token.isKeyword_of_word hk (by decide)) he'
        (Token.isSymbol_of_content hs), ?_⟩
      simp only [Stmt.mapSpan, Option.map_some, hbare]
      rfl

theorem isWritten_declare {v : Variable} (h : v.WellFormed) :
    IsWritten IsStmt (Stmt.mapSpan .forget) (Stmt.declare v).row (.declare v) := by
  obtain ⟨name, type?, value?, span⟩ := v
  obtain ⟨hname, htype, hvalue, himplicit⟩ := h
  have hv := isWritten_initializer hvalue
  dsimp only at hname htype hvalue himplicit hv
  refine ⟨?_, fun ts hts => ?_⟩
  · simp only [Stmt.row, List.forall_mem_append, List.forall_mem_cons, List.not_mem_nil,
      false_implies, implies_true, and_true]
    refine ⟨?_, lexical_word (.inl hname), hv.lexical, lexical_semicolon⟩
    cases type? with
    | none => exact lexical_word (.inr (by decide))
    | some type => exact lexical_typeWord (htype type rfl)
  · simp only [Stmt.row, List.map_eq_cons_iff, List.map_eq_append_iff, List.map_eq_nil_iff] at hts
    obtain ⟨t, _, rfl, ht, n, _, rfl, hn, us, _, rfl, hus, s, _, rfl, hs, rfl⟩ := hts
    obtain ⟨v', hv', hbare⟩ := hv.phrase us hus
    obtain rfl := Token.value_of_word hn
    have hkind := Token.kind_of_word hn hname
    have hsemi := Token.isSymbol_of_content hs
    cases type? with
    | none =>
      obtain ⟨e, rfl⟩ := Option.isSome_iff_exists.1 (himplicit rfl)
      -- a variable without a type has a value, so the initializer is not empty
      cases hv' with
      | none => cases hbare
      | some hq he =>
        refine ⟨_, .implicit (Token.isKeyword_of_word ht (by decide)) hkind hq he hsemi, ?_⟩
        simp only [Stmt.mapSpan, Variable.mapSpan, hbare]
        rfl
    | some type =>
      have htypeName := Token.isTypeName_of_word ht (htype type rfl)
      obtain rfl := Token.value_of_word ht
      refine ⟨_, .explicit htypeName hkind hv' hsemi, ?_⟩
      simp only [Stmt.mapSpan, Variable.mapSpan, hbare]
      rfl

theorem Stmt.WellFormed.isWritten {s : Stmt} (h : s.WellFormed) :
    IsWritten IsStmt (Stmt.mapSpan .forget) s.row s := by
  cases s with
  | ret v span => exact isWritten_return h
  | declare v => exact isWritten_declare h
  | expr e span =>
    have he := Expr.WellFormed.isWritten h
    refine ⟨?_, fun ts hts => ?_⟩
    · rw [Stmt.row, List.forall_mem_append, List.forall_mem_singleton]
      exact ⟨he.lexical, lexical_semicolon⟩
    · simp only [Stmt.row, List.map_eq_append_iff, List.map_eq_singleton_iff] at hts
      obtain ⟨us, _, rfl, hus, s, rfl, hs⟩ := hts
      obtain ⟨e', he', hbare⟩ := he.phrase us hus
      have hsemi := Token.isSymbol_of_content hs
      refine ⟨_, .expr he' hsemi (beginsDeclaration_eq_false hus hsemi), ?_⟩
      simp only [Stmt.mapSpan, hbare]
      rfl

/-! ## Classes -/

theorem Parameter.WellFormed.isWritten {p : Parameter} (h : p.WellFormed) :
    IsWritten IsParameter (Parameter.mapSpan .forget) p.row p := by
  obtain ⟨name, type, span⟩ := p
  obtain ⟨hname, htype⟩ := h
  refine ⟨?_, fun ts hts => ?_⟩
  · simp only [Parameter.row, List.forall_mem_cons, List.not_mem_nil, false_implies, implies_true,
      and_true]
    exact ⟨lexical_typeWord htype, lexical_word (.inl hname)⟩
  · simp only [Parameter.row, List.map_eq_cons_iff, List.map_eq_nil_iff] at hts
    obtain ⟨t, _, rfl, ht, n, _, rfl, hn, rfl⟩ := hts
    have htypeName := Token.isTypeName_of_word ht htype
    have hkind := Token.kind_of_word hn hname
    obtain rfl := Token.value_of_word ht
    obtain rfl := Token.value_of_word hn
    exact ⟨_, .mk htypeName hkind, rfl⟩

theorem isWritten_accessor {w : String} (h : w = "get" ∨ w = "set") :
    IsWritten IsAccessor id [word w, symbol ";"] w := by
  have hmem : w ∈ reservedWords := by
    rcases h with rfl | rfl
    all_goals decide
  refine ⟨?_, fun ts hts => ?_⟩
  · simp only [List.forall_mem_cons, List.not_mem_nil, false_implies, implies_true, and_true]
    exact ⟨lexical_word (.inr hmem), lexical_semicolon⟩
  · simp only [List.map_eq_cons_iff, List.map_eq_nil_iff] at hts
    obtain ⟨k, _, rfl, hk, s, _, rfl, hs, rfl⟩ := hts
    exact ⟨w, .mk (Token.isKeyword_of_word hk hmem) h (Token.isSymbol_of_content hs), rfl⟩

theorem Accessors.mem_words {a : Accessors} : ∀ w ∈ a.words, w = "get" ∨ w = "set" := by
  obtain ⟨_ | _, _ | _⟩ := a
  all_goals simp [words]

theorem Accessors.nodup_words (a : Accessors) : a.words.Nodup := by
  obtain ⟨_ | _, _ | _⟩ := a
  all_goals decide

theorem Accessors.eq_of_words (a : Accessors) :
    (⟨decide ("get" ∈ a.words), decide ("set" ∈ a.words)⟩ : Accessors) = a := by
  obtain ⟨_ | _, _ | _⟩ := a
  all_goals rfl

theorem Method.WellFormed.isWritten {m : Method} (h : m.WellFormed) :
    IsWritten IsMember (Member.mapSpan .forget) (Member.method m).row (.method m) := by
  obtain ⟨name, type, parameters, body, span⟩ := m
  obtain ⟨hname, htype, hparameters, hbody⟩ := h
  have hps := isWritten_commaList fun p hp => (hparameters p hp).isWritten
  have hss := isWritten_many fun s hs => (hbody s hs).isWritten
  dsimp only at hname htype hps hss
  refine ⟨?_, fun ts hts => ?_⟩
  · simp only [Member.row, List.forall_mem_append, List.forall_mem_cons, List.not_mem_nil,
      false_implies, implies_true, and_true]
    exact ⟨lexical_typeWord htype, lexical_word (.inl hname), lexical_symbol (by decide),
      hps.lexical, lexical_symbol (by decide), lexical_symbol (by decide), hss.lexical,
      lexical_symbol (by decide)⟩
  · simp only [Member.row, List.map_eq_cons_iff, List.map_eq_append_iff, List.map_eq_nil_iff] at hts
    obtain ⟨t, _, rfl, ht, n, _, rfl, hn, o, _, rfl, ho, us, _, rfl, hus, c, _, rfl, hc, b, _, rfl,
      hb, vs, _, rfl, hvs, e, _, rfl, he, rfl⟩ := hts
    obtain ⟨ps, hps', hparameters'⟩ := hps.phrase us hus
    obtain ⟨ss, hss', hbody'⟩ := hss.phrase vs hvs
    have htypeName := Token.isTypeName_of_word ht htype
    have hkind := Token.kind_of_word hn hname
    obtain rfl := Token.value_of_word ht
    obtain rfl := Token.value_of_word hn
    refine ⟨_, .method htypeName hkind (Token.isSymbol_of_content ho) hps'
      (Token.isSymbol_of_content hc) (Token.isSymbol_of_content hb) hss'
      (Token.isSymbol_of_content he), ?_⟩
    simp only [Member.mapSpan, hparameters', hbody']
    rfl

theorem Field.WellFormed.isWritten {f : Field} (h : f.WellFormed) :
    IsWritten IsMember (Member.mapSpan .forget) (Member.field f).row (.field f) := by
  obtain ⟨name, type, initializer?, span⟩ := f
  obtain ⟨hname, htype, hvalue⟩ := h
  have hv := isWritten_initializer hvalue
  dsimp only at hname htype hv
  refine ⟨?_, fun ts hts => ?_⟩
  · simp only [Member.row, List.forall_mem_append, List.forall_mem_cons, List.not_mem_nil,
      false_implies, implies_true, and_true]
    exact ⟨lexical_typeWord htype, lexical_word (.inl hname), hv.lexical, lexical_semicolon⟩
  · simp only [Member.row, List.map_eq_cons_iff, List.map_eq_append_iff, List.map_eq_nil_iff] at hts
    obtain ⟨t, _, rfl, ht, n, _, rfl, hn, us, _, rfl, hus, s, _, rfl, hs, rfl⟩ := hts
    obtain ⟨v', hv', hbare⟩ := hv.phrase us hus
    have htypeName := Token.isTypeName_of_word ht htype
    have hkind := Token.kind_of_word hn hname
    obtain rfl := Token.value_of_word ht
    obtain rfl := Token.value_of_word hn
    refine ⟨_, .field htypeName hkind hv' (Token.isSymbol_of_content hs), ?_⟩
    simp only [Member.mapSpan, hbare]
    rfl

theorem Property.WellFormed.isWritten {p : Property} (h : p.WellFormed) :
    IsWritten IsMember (Member.mapSpan .forget) (Member.property p).row (.property p) := by
  obtain ⟨name, type, accessors, span⟩ := p
  obtain ⟨hname, htype⟩ := h
  have hwords := isWritten_many fun w hw => isWritten_accessor (accessors.mem_words w hw)
  dsimp only at hname htype
  refine ⟨?_, fun ts hts => ?_⟩
  · simp only [Member.row, List.forall_mem_append, List.forall_mem_cons, List.not_mem_nil,
      false_implies, implies_true, and_true]
    exact ⟨lexical_typeWord htype, lexical_word (.inl hname), lexical_symbol (by decide),
      hwords.lexical, lexical_symbol (by decide)⟩
  · simp only [Member.row, List.map_eq_cons_iff, List.map_eq_append_iff, List.map_eq_nil_iff] at hts
    obtain ⟨t, _, rfl, ht, n, _, rfl, hn, b, _, rfl, hb, us, _, rfl, hus, e, _, rfl, he, rfl⟩ := hts
    obtain ⟨words, hwords', hbare⟩ := hwords.phrase us hus
    rw [List.map_id, List.map_id] at hbare
    have htypeName := Token.isTypeName_of_word ht htype
    have hkind := Token.kind_of_word hn hname
    obtain rfl := Token.value_of_word ht
    obtain rfl := Token.value_of_word hn
    subst hbare
    refine ⟨_, .property htypeName hkind (Token.isSymbol_of_content hb) hwords'
      accessors.nodup_words (Token.isSymbol_of_content he), ?_⟩
    rw [accessors.eq_of_words]
    rfl

theorem Member.WellFormed.isWritten {m : Member} (h : m.WellFormed) :
    IsWritten IsMember (Member.mapSpan .forget) m.row m := by
  cases m with
  | method m => exact Method.WellFormed.isWritten h
  | field f => exact Field.WellFormed.isWritten h
  | property p => exact Property.WellFormed.isWritten h

theorem Class.WellFormed.isWritten {c : Class} (h : c.WellFormed) :
    IsWritten IsClass (Class.mapSpan .forget) c.row c := by
  obtain ⟨name, members, span⟩ := c
  obtain ⟨hname, hmembers⟩ := h
  have hms := isWritten_many fun m hm => (hmembers m hm).isWritten
  dsimp only at hname hms
  refine ⟨?_, fun ts hts => ?_⟩
  · simp only [Class.row, List.forall_mem_append, List.forall_mem_cons, List.not_mem_nil,
      false_implies, implies_true, and_true]
    exact ⟨lexical_word (.inr (by decide)), lexical_word (.inl hname), lexical_symbol (by decide),
      hms.lexical, lexical_symbol (by decide)⟩
  · simp only [Class.row, List.map_eq_cons_iff, List.map_eq_append_iff, List.map_eq_nil_iff] at hts
    obtain ⟨k, _, rfl, hk, n, _, rfl, hn, b, _, rfl, hb, us, _, rfl, hus, e, _, rfl, he, rfl⟩ := hts
    obtain ⟨ms, hms', hbare⟩ := hms.phrase us hus
    have hkind := Token.kind_of_word hn hname
    obtain rfl := Token.value_of_word hn
    refine ⟨_, .mk (Token.isKeyword_of_word hk (by decide)) hkind (Token.isSymbol_of_content hb)
      hms' (Token.isSymbol_of_content he), ?_⟩
    simp only [Class.mapSpan, hbare]
    rfl

/-! ## Modules -/

theorem isWritten_identifier {w : String} (h : isFreeWord w) :
    IsWritten IsIdentifier id [word w] w := by
  refine ⟨?_, fun ts hts => ?_⟩
  · rw [List.forall_mem_singleton]
    exact lexical_word (.inl h)
  · obtain ⟨n, rfl, hn⟩ := List.map_eq_singleton_iff.1 hts
    obtain rfl := Token.value_of_word hn
    exact ⟨_, .mk (Token.kind_of_word hn h), rfl⟩

theorem isWritten_spaceName {segments : List String} (hne : segments ≠ [])
    (h : ∀ w ∈ segments, isFreeWord w) :
    IsWritten IsSpaceName id (nameRow segments) (".".intercalate segments) := by
  obtain ⟨w, ws, rfl⟩ := List.exists_cons_of_ne_nil hne
  rw [List.forall_mem_cons] at h
  have hws : IsWritten (Many (After "." IsIdentifier)) (List.map id)
      (ws.flatMap fun w => [symbol ".", word w]) ws :=
    isWritten_many fun w hw => isWritten_after (by decide) (isWritten_identifier (h.2 w hw))
  refine ⟨?_, fun ts hts => ?_⟩
  · rw [nameRow, List.forall_mem_cons]
    exact ⟨lexical_word (.inl h.1), hws.lexical⟩
  · obtain ⟨n, us, rfl, hn, hus⟩ := List.map_eq_cons_iff.1 hts
    obtain ⟨others, hothers, hbare⟩ := hws.phrase us hus
    rw [List.map_id, List.map_id] at hbare
    subst hbare
    have hkind := Token.kind_of_word hn h.1
    obtain rfl := Token.value_of_word hn
    exact ⟨_, .mk hkind hothers, rfl⟩

theorem Space.WellFormed.isWritten {s : Space} (h : s.WellFormed) :
    IsWritten IsSpace (Space.mapSpan .forget) s.row s := by
  obtain ⟨⟨segments, hne, hfree, hname⟩, hparent, hclasses⟩ := h
  have hsegments := Space.segments_eq hne hfree hname
  have hn := isWritten_spaceName hne hfree
  have hcs := isWritten_many fun c hc => (hclasses c hc).isWritten
  obtain ⟨name, classes, parent?, span⟩ := s
  dsimp only at hname hparent hcs
  subst hname hparent
  refine ⟨?_, fun ts hts => ?_⟩
  · simp only [Space.row, hsegments, List.forall_mem_append, List.forall_mem_cons]
    exact ⟨lexical_word (.inr (by decide)), hn.lexical, lexical_semicolon, hcs.lexical⟩
  · simp only [Space.row, hsegments, List.map_eq_cons_iff, List.map_eq_append_iff] at hts
    obtain ⟨k, _, rfl, hk, us, _, rfl, hus, s, vs, rfl, hs, hvs⟩ := hts
    obtain ⟨name, hn', rfl⟩ := hn.phrase us hus
    obtain ⟨cs, hcs', hbare⟩ := hcs.phrase vs hvs
    refine ⟨_, .mk (Token.isKeyword_of_word hk (by decide)) hn' (Token.isSymbol_of_content hs) hcs',
      ?_⟩
    simp only [Space.mapSpan, hbare]
    rfl

namespace Module

/-- Writing a well-formed module and reading it gives it back up to spans. -/
theorem ofSource_toSource {m : Module} (h : m.WellFormed) :
    ∃ m', ofSource m.toSource = .ok m' ∧ m'.bare = m.bare := by
  obtain ⟨hname, hspace⟩ := h
  have hwritten := hspace.isWritten
  obtain ⟨ts, q, hscan, hts⟩ := Token.scan_write hwritten.lexical .start
  have hsource : Token.ofSource m.toSource = .ok (ts ++ [.endOfFile q]) := by
    rw [Token.ofSource_eq_scan, toSource, String.toList_ofList]
    exact hscan
  obtain ⟨space, hphrase, hbare⟩ := hwritten.phrase ts hts
  obtain ⟨us, q', hus, -, htake⟩ := Token.takeWhile_of_ofSource hsource
  obtain ⟨rfl, -⟩ := List.append_inj' hus rfl
  refine ⟨⟨mainName, space, .ofTokens ts⟩, ofSource_eq_ok.2 ⟨_, hsource, ?_⟩, ?_⟩
  · refine ofTokens_of_isModule ?_
    rw [htake]
    exact .mk hphrase
  · rw [bare, bare, mapSpan, mapSpan, hbare, hname]
    rfl

/-- **Sources have the well-formed modules.** Every module that a source makes is well-formed, and
every well-formed module, written as text, is a source that makes it, up to spans. -/
theorem ofSource_image :
    (∀ source m, ofSource source = .ok m → m.WellFormed) ∧
    ∀ m : Module, m.WellFormed → ∃ m', ofSource m.toSource = .ok m' ∧ m'.bare = m.bare :=
  ⟨fun _ _ => wellFormed_of_ofSource, fun _ => ofSource_toSource⟩

set_option maxRecDepth 8000 in
/-- A class with a field that begins with a sum is well-formed, and its text makes it again. -/
theorem ofSource_image_field : ∃ m : Module,
    ofSource "space a;class B\x7bC d=e+f;\x7d" = .ok m ∧ m.WellFormed ∧
    ∃ m', ofSource m.toSource = .ok m' ∧ m'.bare = m.bare := by
  have hm : ofSource "space a;class B\x7bC d=e+f;\x7d" = .ok ⟨"main", ⟨"a",
      [⟨"B", [.field ⟨"d", "C", some (.binary .add (.identifier "e" ⟨⟨1, 21⟩, ⟨1, 22⟩⟩)
        (.identifier "f" ⟨⟨1, 23⟩, ⟨1, 24⟩⟩) ⟨⟨1, 21⟩, ⟨1, 24⟩⟩), ⟨⟨1, 17⟩, ⟨1, 25⟩⟩⟩],
        ⟨⟨1, 9⟩, ⟨1, 26⟩⟩⟩], none, ⟨⟨1, 1⟩, ⟨1, 26⟩⟩⟩, ⟨⟨1, 1⟩, ⟨1, 26⟩⟩⟩ := by
    rw [ofSource, Token.ofSource_eq_scan]
    cbv
  obtain ⟨hwellFormed, hsource⟩ := ofSource_image
  exact ⟨_, hm, hwellFormed _ _ hm, hsource _ (hwellFormed _ _ hm)⟩

end Module

end SpaceLang
