import SpaceLang.Proofs.Rule.Built
import SpaceLang.Proofs.Tree.Spans

/-!
# How each rule of the language is built

One lemma for each rule, from those of its parts: the rule is built from primitive rules, and on
tokens with `f` applied to their positions it makes the same tree with `f` applied to its spans.
They hold on all terms that a rule can meet. A rule that may consume nothing is not asked to, one
that puts a name in a cause is given the name of an identifier, and one that begins with a word
taken for granted is told the word where no `let` may be consumed.
-/

namespace SpaceLang.Rule

variable {α β : Type} {f : Position → Position} {u : Terms} {g : α → α} {c d : Cursor}
  {ts : List Token}

/-! ## Single tokens -/

theorem built_symbol {s : String} (h : "`" ++ s ++ "`" ∈ Cause.expectations) :
    Built f u (Token.mapSpan (Span.map f)) (symbol s) (symbol s) c :=
  .accept (fun _ => rfl) Token.not_endOfFile_of_isSymbol
    (fun hs => Token.not_keyword_of_isSymbol hs _) h

theorem built_typeName : Built f u (Token.mapSpan (Span.map f)) typeName typeName c :=
  .accept (fun _ => rfl) Token.not_endOfFile_of_isTypeName
    (fun ht => Token.not_keyword_of_isTypeName ht (by decide)) (by decide)

theorem built_identifier {expected : String} (h : expected ∈ Cause.expectations) :
    Built f u id (identifier expected) (identifier expected) c := by
  have hkind : Built f u (Token.mapSpan (Span.map f)) (kind .identifier expected)
      (kind .identifier expected) c :=
    .accept (fun _ => rfl) (fun hk => Token.not_endOfFile_of_kind (of_decide_eq_true hk))
      (fun hk => Token.isKeyword_eq_false_of_kind (by simp [of_decide_eq_true hk])) h
  exact .bind .inl .inl hkind fun t _ _ => .pure id rfl

theorem isNamed_of_identifier {expected name : String} (h : identifier expected c = .ok name d) :
    IsNamed d.toList name := by
  obtain ⟨hkind, rfl, rfl⟩ := identifier_eq_ok.1 h
  rw [Cursor.toList_advance]
  exact Cursor.isNamed_current hkind

theorem built_close {s : String} {start start' : Position} {build build' : Span → α}
    (h : "`" ++ s ++ "`" ∈ Cause.expectations) (hstart : start' = f start)
    (hbuild : ∀ span : Span, build' (span.map f) = g (build span)) :
    Built f u g (do
      let _ ← symbol s
      return build (← spanFrom start)) (do
      let _ ← symbol s
      return build' (← spanFrom start')) c := by
  rw [hstart]
  exact .after (built_symbol h) fun _ _ _ => .next (.spanFrom start id trivial) fun span _ _ =>
    .pure id (hbuild span)

/-! ## Lists -/

theorem built_many {test : Token → Option β} {item item' : β → Rule α} (hu : ¬ u.gains)
    (htest : ∀ t : Token, test (t.mapSpan (Span.map f)) = test t)
    (hitem : ∀ b ts d, c.Reads ts d → test d.current = some b →
      Built f { u with gains := True } g (item b) (item' b) d) :
    Built f u (List.map g) (many test item) (many test item') c := by
  have hfold : Built f { u with gains := False } (List.map g)
      (foldWhile test (fun items b => return (← item b) :: items) [])
      (foldWhile test (fun items b => return (← item' b) :: items) []) c :=
    .foldWhile (g := List.map g) id htest [] fun items b ts d hd ht =>
      .after (hitem b ts d hd ht) fun a _ _ => .pure id rfl
  exact .bind (fun hg => absurd hg hu) .inl hfold fun items _ _ => .pure id List.map_reverse.symm

theorem built_manyAfter {item item' : Rule α} (hu : ¬ u.gains) (s : String)
    (hitem : ∀ ts d, c.Reads ts d →
      Built f { u with gains := False, behind := True } g item item' d) :
    Built f u (List.map g)
      (many (fun t => if t.isSymbol s then some () else none) fun _ => advance *> item)
      (many (fun t => if t.isSymbol s then some () else none) fun _ => advance *> item') c := by
  refine built_many hu (fun _ => rfl) fun _ ts d hd ht => ?_
  have hs : d.current.isSymbol s := by simpa using ht
  have hend := Token.not_endOfFile_of_isSymbol hs
  rw [seqRight_eq_bind, seqRight_eq_bind]
  exact .consume hend (fun _ => Token.not_keyword_of_isSymbol hs _)
    (hitem _ _ (hd.append (.current hend)))

theorem built_untilSymbol {item item' : Rule α} (hu : ¬ u.gains) (close : String)
    (hitem : ∀ ts d, c.Reads ts d → Built f { u with gains := True } g item item' d) :
    Built f u (List.map g) (untilSymbol close item) (untilSymbol close item') c :=
  built_many hu (fun _ => rfl) fun _ ts d hd _ => hitem ts d hd

theorem built_commaList {item item' : Rule α} (hu : ¬ u.gains) (close : String)
    (hitem : ∀ behind ts d, c.Reads ts d →
      Built f { u with gains := False, behind := behind } g item item' d) :
    Built f u (List.map g) (commaList close item) (commaList close item') c := by
  apply Built.of_current
  refine .ite (fun _ => .pure hu rfl) fun _ => ?_
  refine .next (hitem _ [] c rfl) fun first d hd => ?_
  obtain ⟨ts, hts⟩ := (hitem False [] c rfl).reads_of_ok hd
  refine .next (built_manyAfter id "," fun us e he => ?_) fun others _ _ => .pure hu rfl
  exact hitem _ _ e (hts.append he)

/-! ## Expressions -/

theorem beginsCall_eq {c c' : Cursor} (h : c.Matches f 3 c') :
    (c'.current.isSymbol "." && (c'.peek 1).kind = .identifier && (c'.peek 2).isSymbol "(") =
      (c.current.isSymbol "." && (c.peek 1).kind = .identifier && (c.peek 2).isSymbol "(") := by
  have hcurrent : c'.current.isSymbol "." = c.current.isSymbol "." := by
    rw [h.current]
    rfl
  rw [hcurrent]
  cases hdot : c.current.isSymbol "." with
  | false => rfl
  | true =>
    have hc := Token.not_endOfFile_of_isSymbol hdot
    have hmethod : (c'.peek 1).kind = (c.peek 1).kind := by
      rw [(h.mono (by decide)).peek_one hc]
      rfl
    rw [hmethod]
    by_cases hk : (c.peek 1).kind = .identifier
    · rw [h.peek_two hc (Token.not_endOfFile_of_kind hk)]
      rfl
    · simp [hk]

section

variable {argument argument' : Rule Expr}

theorem built_callWith (hu : ¬ u.gains) (target : Expr)
    (harg : ∀ (u : Terms) d, d.remaining < c.remaining →
      Built f u (Expr.mapSpan (Span.map f)) argument argument' d) :
    Built f u (Expr.mapSpan (Span.map f)) (callWith argument target)
      (callWith argument' (target.mapSpan (Span.map f))) c := by
  cases hcall : (c.current.isSymbol "." && (c.peek 1).kind = .identifier &&
    (c.peek 2).isSymbol "(") with
  | false =>
    have htarget : Built f u (Expr.mapSpan (Span.map f)) (pure target)
        (pure (target.mapSpan (Span.map f))) c :=
      .pure hu rfl
    refine .look ?_ (fun c' hc' => ?_) htarget
    · exact callWith_eq_ok.2 (.inr ⟨Bool.eq_false_iff.1 hcall, rfl, rfl⟩)
    · rw [← beginsCall_eq hc'] at hcall
      exact callWith_eq_ok.2 (.inr ⟨Bool.eq_false_iff.1 hcall, rfl, rfl⟩)
  | true =>
    have hcalled : Built f u (Expr.mapSpan (Span.map f)) (do
        let _ ← advance
        let method ← advance
        let _ ← advance
        let arguments ← commaList ")" argument
        let _ ← symbol ")"
        return .call target method.value arguments (← spanFrom target.span.start)) (do
        let _ ← advance
        let method ← advance
        let _ ← advance
        let arguments ← commaList ")" argument'
        let _ ← symbol ")"
        return .call (target.mapSpan (Span.map f)) method.value arguments
          (← spanFrom (target.mapSpan (Span.map f)).span.start)) c := by
      obtain ⟨hdot, hmethod, hopen⟩ := beginsCall hcall
      have hless := Cursor.remaining_advance_lt (Token.not_endOfFile_of_isSymbol hdot)
      refine .consume (Token.not_endOfFile_of_isSymbol hdot)
        (fun _ => Token.not_keyword_of_isSymbol hdot _) ?_
      refine .consume (Token.not_endOfFile_of_kind hmethod)
        (fun _ => Token.isKeyword_eq_false_of_kind (by simp [hmethod])) ?_
      refine .consume (Token.not_endOfFile_of_isSymbol hopen)
        (fun _ => Token.not_keyword_of_isSymbol hopen _) ?_
      refine .next (built_commaList id ")" fun _ ts d hd => harg _ d ?_) fun arguments _ _ => ?_
      · -- Every argument stands behind the dot.
        have hle := hd.remaining_le
        have h₁ := c.advance.remaining_advance_le
        have h₂ := c.advance.advance.remaining_advance_le
        omega
      · refine built_close (by decide) ?_ fun span => ?_
        · rw [Expr.span_mapSpan]
          rfl
        · rw [Expr.mapSpan, Expr.mapSpans_eq_map]
          rfl
    refine .look ?_ (fun c' hc' => ?_) hcalled
    · show (if _ then _ else _ : Rule Expr) c = _
      rw [if_pos hcall]
    · show (if _ then _ else _ : Rule Expr) c' = _
      rw [if_pos ((beginsCall_eq hc').trans hcall)]

theorem built_operandWith (harg : ∀ (u : Terms) d, d.remaining < c.remaining →
      Built f u (Expr.mapSpan (Span.map f)) argument argument' d) :
    Built f u (Expr.mapSpan (Span.map f)) (operandWith argument) (operandWith argument') c := by
  have hname : c.current.isEndOfFile = false → c.current.isKeyword "let" = false →
      Built f u (Expr.mapSpan (Span.map f))
        (do
          let _ ← advance
          callWith argument (.identifier c.current.value c.current.span))
        (do
          let _ ← advance
          callWith argument' (.identifier c.current.value (c.current.span.map f))) c := by
    intro hend hlet
    have hcall := built_callWith (f := f) (c := c.advance)
      (u := { u with gains := False, behind := True }) id
      (.identifier c.current.value c.current.span)
      fun u d hd => harg u d (Nat.lt_of_lt_of_le hd c.remaining_advance_le)
    rw [Expr.mapSpan] at hcall
    exact .consume hend (fun _ => hlet) hcall
  have hvalue : ∀ {v : Expr}, (c.current.kind = .number ∨ c.current.kind = .string) →
      Built f u (Expr.mapSpan (Span.map f))
        (do
          let _ ← advance
          return v)
        (do
          let _ ← advance
          return v.mapSpan (Span.map f)) c := by
    intro v hk
    refine .consume (Token.isEndOfFile_eq_false ?_)
      (fun _ => Token.isKeyword_eq_false_of_kind ?_) (.pure id rfl)
    · rcases hk with hk | hk <;> simp [hk]
    · rcases hk with hk | hk <;> simp [hk]
  apply Built.of_current
  have hkind : (c.current.mapSpan (Span.map f)).kind = c.current.kind := rfl
  have hval : (c.current.mapSpan (Span.map f)).value = c.current.value := rfl
  rw [hkind, hval]
  cases hk : c.current.kind with
  | number =>
    dsimp only
    cases Integer.ofString? c.current.value with
    | none => exact .refuse rfl rfl hk rfl
    | some n =>
      have h := hvalue (v := .integer n c.current.span) (.inl hk)
      rwa [Expr.mapSpan] at h
  | string =>
    have h := hvalue (v := .string c.current.value c.current.span) (.inr hk)
    rwa [Expr.mapSpan] at h
  | identifier =>
    exact hname (Token.not_endOfFile_of_kind hk) (Token.isKeyword_eq_false_of_kind (by simp [hk]))
  | keyword =>
    refine .ite (fun hthis => ?_) fun _ =>
      .refuse rfl ⟨rfl, Token.isEndOfFile_eq_false (by simp [hk])⟩ trivial rfl
    have hword : c.current.isKeyword "this" := Token.isKeyword_iff.2 ⟨hk, hthis⟩
    exact hname (Token.not_endOfFile_of_isKeyword hword)
      (Token.isKeyword_eq_false hword (by decide))
  | endOfFile => exact .missing (by decide)
  | symbol => exact .refuse rfl ⟨rfl, Token.isEndOfFile_eq_false (by simp [hk])⟩ trivial rfl
  | operator => exact .refuse rfl ⟨rfl, Token.isEndOfFile_eq_false (by simp [hk])⟩ trivial rfl

theorem not_let_of_ofSymbol? {t : Token} {op : BinaryOperator}
    (h : BinaryOperator.ofSymbol? t.value = some op) : t.isKeyword "let" = false := by
  rw [Bool.eq_false_iff]
  intro hlet
  rw [(Token.isKeyword_iff.1 hlet).2] at h
  cases h

theorem built_chainWith (harg : ∀ (u : Terms) d, d.remaining < c.remaining →
      Built f u (Expr.mapSpan (Span.map f)) argument argument' d) :
    Built f u (Expr.mapSpan (Span.map f)) (chainWith argument) (chainWith argument') c := by
  have hfirst : Built f { u with gains := True } (Expr.mapSpan (Span.map f)) (operandWith argument)
      (operandWith argument') c :=
    built_operandWith harg
  refine .after hfirst fun first d hd => ?_
  obtain ⟨ts, hts⟩ := hfirst.reads_of_ok hd
  refine .next (built_many (g := relocateOperation f) id (fun _ => rfl) fun op us e he hop => ?_)
    fun others _ _ => .pure id (Expr.mapSpan_foldl_join f first others).symm
  have hle := (hts.append he).remaining_le
  have hle' := e.remaining_advance_le
  -- Only the text shows an operator, so it may stand in an end marker, which stays where it is.
  exact .pass (fun _ => not_let_of_ofSymbol? hop) <| .after
    (built_operandWith fun u d hd => harg u d (by omega)) fun right _ _ => .pure id rfl

end

theorem built_expr : Built f u (Expr.mapSpan (Span.map f)) expr expr c := by
  induction hn : c.remaining using Nat.strongRecOn generalizing c u with
  | _ n ih =>
    subst hn
    rw [expr_eq]
    exact built_chainWith fun u d hd => ih _ hd rfl

theorem built_operand : Built f u (Expr.mapSpan (Span.map f)) operand operand c :=
  built_operandWith fun _ _ _ => built_expr

theorem built_call (hu : ¬ u.gains) (target : Expr) : Built f u (Expr.mapSpan (Span.map f))
    (call target) (call (target.mapSpan (Span.map f))) c :=
  built_callWith hu target fun _ _ _ => built_expr

/-! ## Statements -/

theorem built_initializer? (hu : ¬ u.gains) :
    Built f u (Option.map (Expr.mapSpan (Span.map f))) initializer? initializer? c := by
  apply Built.of_current
  refine .ite (fun hq => ?_) fun _ => .pure hu rfl
  rw [seqRight_eq_bind]
  exact .consume (Token.not_endOfFile_of_isOperator hq)
    (fun _ => Token.not_keyword_of_isOperator hq _) (.map (fun _ => rfl) built_expr)

theorem built_returnStmt (hword : u.tested → c.current.isKeyword "return") :
    Built f u (Stmt.mapSpan (Span.map f)) returnStmt returnStmt c := by
  refine .pass (fun ht => Token.isKeyword_eq_false (hword ht) (by decide)) (.of_current ?_)
  have hend : ∀ (value? : Option Expr) d, Built f u (Stmt.mapSpan (Span.map f))
      (do
        let _ ← symbol ";"
        return .ret value? (← spanFrom c.current.position))
      (do
        let _ ← symbol ";"
        return .ret (value?.map (Expr.mapSpan (Span.map f)))
          (← spanFrom (f c.current.position))) d :=
    fun _ _ => built_close (by decide) rfl fun _ => rfl
  exact .ite (fun _ => .next (g := Option.map (Expr.mapSpan (Span.map f))) (.pure id rfl)
      fun value? d _ => hend value? d)
    fun _ => .next (.map (fun _ => rfl) built_expr) fun value? d _ => hend value? d

theorem built_implicitVariable (ht : ¬ u.tested) :
    Built f u (Stmt.mapSpan (Span.map f)) implicitVariable implicitVariable c := by
  refine .pass (fun h => absurd h ht) (.next (built_identifier (by decide)) fun name d hd => ?_)
  have hvalue : Built f { u with gains := False } (Option.map (Expr.mapSpan (Span.map f)))
      initializer? initializer? d :=
    built_initializer? id
  refine .next hvalue fun value? e he => ?_
  cases value? with
  | none =>
    obtain ⟨ts, hts⟩ := hvalue.reads_of_ok he
    refine .fail rfl trivial trivial (fun _ name' hname => ?_) fun h => absurd h ht
    obtain rfl := List.mem_singleton.1 hname
    rw [hts.toList_eq]
    exact isNamed_of_identifier hd
  | some v => exact built_close (by decide) rfl fun _ => rfl

theorem built_explicitVariable :
    Built f u (Stmt.mapSpan (Span.map f)) explicitVariable explicitVariable c :=
  .next built_typeName fun _ _ _ => .next (built_identifier (by decide)) fun _ _ _ =>
    .next (built_initializer? id) fun _ _ _ => built_close (by decide) rfl fun _ => rfl

theorem built_exprStmt : Built f u (Stmt.mapSpan (Span.map f)) exprStmt exprStmt c :=
  .of_current <| .next built_expr fun _ _ _ => built_close (by decide) rfl fun _ => rfl

theorem beginsDeclaration_eq_of_matches {c c' : Cursor} (h : c.Matches f 3 c') :
    (c'.current.isTypeName && (c'.peek 1).kind = .identifier) =
      (c.current.isTypeName && (c.peek 1).kind = .identifier) := by
  have hcurrent : c'.current.isTypeName = c.current.isTypeName := by
    rw [h.current]
    rfl
  rw [hcurrent]
  cases ht : c.current.isTypeName with
  | false => rfl
  | true =>
    rw [(h.mono (by decide)).peek_one (Token.not_endOfFile_of_isTypeName ht)]
    rfl

theorem built_stmt : Built f u (Stmt.mapSpan (Span.map f)) stmt stmt c := by
  have hchosen : Built f u (Stmt.mapSpan (Span.map f)) (
      if c.current.isKeyword "return" then returnStmt
      else if c.current.isKeyword "let" then implicitVariable
      else if c.current.isTypeName && (c.peek 1).kind = .identifier then explicitVariable
      else exprStmt) (
      if c.current.isKeyword "return" then returnStmt
      else if c.current.isKeyword "let" then implicitVariable
      else if c.current.isTypeName && (c.peek 1).kind = .identifier then explicitVariable
      else exprStmt) c :=
    .ite (fun hreturn => built_returnStmt fun _ => hreturn) fun _ =>
      .ite (fun hlet => .declare hlet (fun _ => built_expr) (built_implicitVariable id)) fun _ =>
        .ite (fun _ => built_explicitVariable) fun _ => built_exprStmt
  -- The second token is looked at only where the first one names a type and is no end marker.
  refine .look ?_ (fun c' hc' => ?_) hchosen
  · rfl
  · rw [← beginsDeclaration_eq_of_matches hc']
    show (if c'.current.isKeyword "return" then _ else _ : Rule Stmt) c' = _
    rw [hc'.current]
    rfl

/-! ## Classes -/

theorem built_parameter : Built f u (Parameter.mapSpan (Span.map f)) parameter parameter c :=
  .after built_typeName fun _ _ _ => .next (built_identifier (by decide)) fun _ _ _ =>
    .next (.spanFrom _ id trivial) fun _ _ _ => .pure id rfl

theorem built_method (start : Position) (type name : String) :
    Built f u (Method.mapSpan (Span.map f)) (method start type name)
      (method (f start) type name) c :=
  .next (built_symbol (by decide)) fun _ _ _ =>
    .next (built_commaList id ")" fun _ _ _ _ => built_parameter) fun _ _ _ =>
      .next (built_symbol (by decide)) fun _ _ _ => .next (built_symbol (by decide)) fun _ _ _ =>
        .next (built_untilSymbol id rightBrace fun _ _ _ => built_stmt) fun _ _ _ =>
          built_close (by decide) rfl fun _ => rfl

theorem built_field (start : Position) (type name : String) :
    Built f u (Field.mapSpan (Span.map f)) (field start type name) (field (f start) type name) c :=
  .next (built_initializer? id) fun _ _ _ => built_close (by decide) rfl fun _ => rfl

theorem built_accessor {property : String} (hnamed : u.named → IsNamed c.toList property)
    (seen : Accessors) : Built f u id (accessor property seen) (accessor property seen) c := by
  have hduplicate : ∀ word, c.current.isKeyword word →
      Built f u id (fail fun found => .duplicateAccessor property found.value : Rule Accessors)
        (fail fun found => .duplicateAccessor property found.value) c := by
    intro word hword
    refine .fail rfl rfl (Token.isKeyword_iff.1 hword).1 (fun hu name hname => ?_) fun _ _ => ?_
    · obtain rfl := List.mem_singleton.1 hname
      exact hnamed hu
    · simp
  have hdeclared : ∀ (all : Accessors) {word}, c.current.isKeyword word → word ≠ "let" →
      Built f u id
        (do
          let _ ← advance
          let _ ← symbol ";"
          return all)
        (do
          let _ ← advance
          let _ ← symbol ";"
          return all) c := by
    intro all word hword hlet
    exact .consume (Token.not_endOfFile_of_isKeyword hword)
      (fun _ => Token.isKeyword_eq_false hword hlet)
      (.next (built_symbol (by decide)) fun _ _ _ => .pure id rfl)
  apply Built.of_current
  refine .ite (fun _ => .missing (by decide)) fun _ => ?_
  refine .ite (fun hget => .ite (fun _ => hduplicate _ hget)
    fun _ => hdeclared _ hget (by decide)) fun _ => ?_
  exact .ite (fun hset => .ite (fun _ => hduplicate _ hset)
    fun _ => hdeclared _ hset (by decide)) fun _ => .refuse rfl rfl trivial rfl

theorem built_property {name : String} (hnamed : u.named → IsNamed c.toList name)
    (start : Position) (type : String) :
    Built f u (Property.mapSpan (Span.map f)) (property start type name)
      (property (f start) type name) c := by
  have hopen : Built f { u with gains := False } (Token.mapSpan (Span.map f)) (symbol leftBrace)
      (symbol leftBrace) c :=
    built_symbol (by decide)
  refine .next hopen fun _ d hd => ?_
  obtain ⟨ts, hts⟩ := hopen.reads_of_ok hd
  refine .next (.foldWhile (g := id) id (fun _ => rfl) _ fun seen _ us e he _ => ?_)
    fun accessors _ _ => built_close (by decide) rfl fun _ => rfl
  refine built_accessor (fun hu => ?_) seen
  rw [(hts.append he).toList_eq]
  exact hnamed hu

theorem built_member : Built f u (Member.mapSpan (Span.map f)) member member c := by
  refine .next built_typeName fun type _ _ => ?_
  refine .next (built_identifier (by decide)) fun name d hd => ?_
  have hnamed : u.named → IsNamed d.toList name := fun _ => isNamed_of_identifier hd
  apply Built.of_current
  refine .ite (fun _ => .map (fun _ => rfl) (built_method _ _ _)) fun _ => ?_
  refine .ite (fun _ => .map (fun _ => rfl) (built_field _ _ _)) fun _ => ?_
  refine .ite (fun _ => .map (fun _ => rfl) (built_property hnamed _ _)) fun _ => ?_
  refine .fail rfl rfl trivial (fun hu name' hname => ?_) fun _ _ => ?_
  · obtain rfl := List.mem_singleton.1 hname
    exact hnamed hu
  · simp

theorem built_classDecl (hword : u.tested → c.current.isKeyword "class") :
    Built f u (Class.mapSpan (Span.map f)) classDecl classDecl c := by
  refine .pass (fun ht => Token.isKeyword_eq_false (hword ht) (by decide)) (.of_current ?_)
  refine .ite (fun _ => .fail_bind (g := id) (.refuse rfl rfl trivial rfl)) fun hkind => ?_
  have hname : c.advance.current.kind = .identifier := Decidable.of_not_not hkind
  refine .consume (Token.not_endOfFile_of_kind hname)
    (fun _ => Token.isKeyword_eq_false_of_kind (by simp [hname])) ?_
  exact .next (built_symbol (by decide)) fun _ _ _ =>
    .next (built_untilSymbol id rightBrace fun _ _ _ => built_member) fun _ _ _ =>
      built_close (by decide) rfl fun _ => rfl

theorem built_typeDecl : Built f u (Class.mapSpan (Span.map f)) typeDecl typeDecl c :=
  .of_current <| .ite (fun hword => built_classDecl fun _ => hword) fun _ =>
    .refuse rfl rfl trivial rfl

/-! ## Spaces -/

theorem built_spaceName : Built f u id spaceName spaceName c :=
  .after (built_identifier (by decide)) fun _ _ _ =>
    .next (g := List.map id) (built_manyAfter id "." fun _ _ _ => built_identifier (by decide))
      fun others _ _ => .pure id (by rw [List.map_id]; rfl)

theorem built_spaceDecl : Built f u (Space.mapSpan (Span.map f)) spaceDecl spaceDecl c := by
  apply Built.of_current
  refine .ite (fun _ => .fail_bind (g := id) (.refuse rfl rfl trivial rfl)) fun hspace => ?_
  have hword : c.current.isKeyword "space" := by simpa using hspace
  refine .consume (Token.not_endOfFile_of_isKeyword hword)
    (fun _ => Token.isKeyword_eq_false hword (by decide)) ?_
  refine .next built_spaceName fun _ _ _ => .next (built_symbol (by decide)) fun _ _ _ => ?_
  exact .next (built_many id (fun _ => rfl) fun _ _ _ _ _ => built_typeDecl) fun _ _ _ =>
    .next (.spanFrom _ id trivial) fun _ _ _ => .pure id rfl

end SpaceLang.Rule
