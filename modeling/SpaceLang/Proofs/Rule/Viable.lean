import SpaceLang.Proofs.Grammar.Prefix
import SpaceLang.Proofs.Rule.Blame

/-!
# No rule reads a token that is already hopeless

Where a rule fails, the tokens that it has read can be completed to a phrase. `FailsBehind r K c`
says that wherever the rule `r` fails from the cursor `c`, the tokens read there satisfy `K`; the
condition of a sequence passes to its parts, with the tokens read by the earlier parts in front
(`FailsBehind.bind`). For a rule of a phrase `P`, `K` is `Prefix fill P`. How a phrase is completed
is a matter of its grammar, so this is not one of the facts that follow from how a rule is built
alone (`Built`); every rule is paired with the completions of its phrase.

The rules that take their first token for granted have this property only where that token is so.
-/

namespace SpaceLang

open Grammar

namespace Rule

variable {α β σ : Type}

/-- Wherever the rule fails from `c`, the tokens that it has read satisfy `K`. -/
def FailsBehind (r : Rule α) (K : List Token → Prop) (c : Cursor) : Prop :=
  ∀ ⦃e d⦄, r c = .error e d → ∃ ts, c.Reads ts d ∧ K ts

variable {c : Cursor} {r : Rule α} {f : α → Rule β} {P : Phrase α} {K K' : List Token → Prop}

theorem FailsBehind.mono_reads (h : FailsBehind r K c)
    (hK : ∀ ts d, c.Reads ts d → K ts → K' ts) : FailsBehind r K' c := by
  intro e d hd
  obtain ⟨ts, hts, hk⟩ := h hd
  exact ⟨ts, hts, hK ts d hts hk⟩

theorem FailsBehind.mono (h : FailsBehind r K c) (hK : ∀ ts, K ts → K' ts) :
    FailsBehind r K' c :=
  h.mono_reads fun ts _ _ => hK ts

/-! ## Sequences -/

theorem FailsBehind.bind (hs : Sound r P) (hr : FailsBehind r K c)
    (hf : ∀ ts a d, c.Reads ts d → P ts a → FailsBehind (f a) (fun us => K (ts ++ us)) d) :
    FailsBehind (r >>= f) K c := by
  intro e d h
  rcases bind_eq_error.1 h with h | ⟨a, c', ha, h⟩
  · exact hr h
  · obtain ⟨ts, hts, hP⟩ := hs ha
    obtain ⟨us, hus, hK⟩ := hf ts a c' hts hP h
    exact ⟨ts ++ us, hts.append hus, hK⟩

/-- A part of a phrase, and what follows it. It is enough that the whole can be completed wherever
its part can. -/
theorem FailsBehind.part {fill : Token → Prop} (hs : Sound r P)
    (hr : FailsBehind r (Prefix fill P) c)
    (hK : ∀ ts d, c.Reads ts d → Prefix fill P ts → K ts)
    (hf : ∀ ts a d, P ts a → K (ts ++ []) → FailsBehind (f a) (fun us => K (ts ++ us)) d) :
    FailsBehind (r >>= f) K c := by
  refine .bind hs (hr.mono_reads hK) fun ts a d hr hP => hf ts a d hP ?_
  rw [List.append_nil]
  exact hK ts d hr (.of hP)

theorem FailsBehind.map (hr : FailsBehind r K c) (g : α → β) : FailsBehind (g <$> r) K c :=
  fun _ _ h => hr (map_eq_error.1 h)

theorem FailsBehind.bind_pure (hr : FailsBehind r K c) (g : α → β) :
    FailsBehind (r >>= fun a => pure (g a)) K c :=
  hr.map g

theorem failsBehind_pure (a : α) : FailsBehind (pure a : Rule α) K c :=
  fun _ _ h => (pure_eq_error.1 h).elim

theorem failsBehind_fail (hK : K []) (cause : Token → Cause) :
    FailsBehind (fail cause : Rule α) K c := by
  intro e d h
  obtain ⟨-, rfl⟩ := fail_eq_error.1 h
  exact ⟨[], rfl, hK⟩

theorem failsBehind_fail_bind (hK : K []) (cause : Token → Cause) (f : α → Rule β) :
    FailsBehind (fail cause >>= f) K c := by
  intro e d h
  rcases bind_eq_error.1 h with h | ⟨a, c', ha, -⟩
  · exact failsBehind_fail hK cause h
  · exact (fail_eq_ok.1 ha).elim

theorem FailsBehind.ite {p : Prop} [Decidable p] {s : Rule α} (hr : p → FailsBehind r K c)
    (hs : ¬ p → FailsBehind s K c) : FailsBehind (if p then r else s) K c := by
  split
  · next h => exact hr h
  · next h => exact hs h

/-! ## Single tokens -/

theorem failsBehind_current {f : Token → Rule β} (hf : FailsBehind (f c.current) K c) :
    FailsBehind (current >>= f) K c :=
  fun _ _ h => hf h

theorem failsBehind_accept (hK : K []) (test : Token → Bool) (expected : String) :
    FailsBehind (accept test expected) K c :=
  failsBehind_current <| .ite (fun _ _ _ h => (advance_eq_error.1 h).elim) fun _ =>
    failsBehind_fail hK _

theorem FailsBehind.bind_token (hr : FailsBehind r K c)
    (hok : ∀ a d, r c = .ok a d → c.current.isEndOfFile = false ∧ c.advance = d ∧
      FailsBehind (f a) (fun us => K (c.current :: us)) d) : FailsBehind (r >>= f) K c := by
  intro e d h
  rcases bind_eq_error.1 h with h | ⟨a, c', ha, h⟩
  · exact hr h
  · obtain ⟨hc, rfl, hf⟩ := hok a c' ha
    obtain ⟨us, hus, hk⟩ := hf h
    exact ⟨c.current :: us, ⟨rfl, hc, hus⟩, hk⟩

theorem failsBehind_advance {f : Token → Rule β} (hc : c.current.isEndOfFile = false)
    (hf : FailsBehind (f c.current) (fun us => K (c.current :: us)) c.advance) :
    FailsBehind (advance >>= f) K c := by
  refine .bind_token (fun _ _ h => (advance_eq_error.1 h).elim) fun t d h => ?_
  obtain ⟨rfl, rfl⟩ := advance_eq_ok.1 h
  exact ⟨hc, rfl, hf⟩

theorem failsBehind_advance_of_endOfFile {f : Token → Rule β} (hc : c.current.isEndOfFile)
    (hf : FailsBehind (f c.current) K c) : FailsBehind (advance >>= f) K c := by
  intro e d h
  rw [bind_of_ok (advance_eq_ok.2 ⟨rfl, Cursor.advance_of_endOfFile hc⟩)] at h
  exact hf h

theorem failsBehind_symbol {f : Token → Rule β} {s : String} (hK : K [])
    (hf : c.current.isSymbol s → FailsBehind (f c.current) (fun us => K (c.current :: us))
      c.advance) : FailsBehind (symbol s >>= f) K c := by
  refine .bind_token (failsBehind_accept hK _ _) fun t d h => ?_
  obtain ⟨hs, rfl, rfl⟩ := symbol_eq_ok.1 h
  exact ⟨Token.not_endOfFile_of_isSymbol hs, rfl, hf hs⟩

theorem failsBehind_typeName {f : Token → Rule β} (hK : K [])
    (hf : c.current.isTypeName → FailsBehind (f c.current) (fun us => K (c.current :: us))
      c.advance) : FailsBehind (typeName >>= f) K c := by
  refine .bind_token (failsBehind_accept hK _ _) fun t d h => ?_
  obtain ⟨ht, rfl, rfl⟩ := typeName_eq_ok.1 h
  exact ⟨Token.not_endOfFile_of_isTypeName ht, rfl, hf ht⟩

theorem failsBehind_identifier (hK : K []) (expected : String) :
    FailsBehind (identifier expected) K c := by
  refine .bind_token (failsBehind_accept hK _ _) fun t d h => ?_
  obtain ⟨hn, rfl, rfl⟩ := accept_eq_ok.1 h
  exact ⟨Token.not_endOfFile_of_kind (of_decide_eq_true hn), rfl, failsBehind_pure _⟩

theorem failsBehind_identifier_bind {f : String → Rule β} {expected : String} (hK : K [])
    (hf : c.current.kind = .identifier →
      FailsBehind (f c.current.value) (fun us => K (c.current :: us)) c.advance) :
    FailsBehind (identifier expected >>= f) K c := by
  refine .bind_token (failsBehind_identifier hK _) fun t d h => ?_
  obtain ⟨hn, rfl, rfl⟩ := identifier_eq_ok.1 h
  exact ⟨Token.not_endOfFile_of_kind hn, rfl, hf hn⟩

theorem FailsBehind.bind_spanFrom (hr : FailsBehind r K c) (start : Position)
    (build : α → Span → β) : FailsBehind (do
      let a ← r
      return build a (← spanFrom start)) K c := by
  intro e d h
  simp only [bind_eq_error, spanFrom_eq_error, pure_eq_error, and_false, exists_false, or_false]
    at h
  exact hr h

theorem failsBehind_close (hK : K []) (s : String) (start : Position) (build : Span → α) :
    FailsBehind (do
      let _ ← symbol s
      return build (← spanFrom start)) K c :=
  (failsBehind_accept hK _ _).bind_spanFrom start fun _ => build

/-! ## Repetition -/

theorem FailsBehind.foldWhile {test : Token → Option β} {step : σ → β → Rule σ}
    {R : σ → List Token → σ → Prop}
    (hstep : ∀ ⦃s s' b c d⦄, test c.current = some b → step s b c = .ok s' d →
      ∃ t ts, c.Reads (t :: ts) d ∧ R s (t :: ts) s') {s : σ}
    (hfail : ∀ ts s' b d, Steps R s ts s' → test d.current = some b →
      FailsBehind (step s' b) (fun us => K (ts ++ us)) d) :
    FailsBehind (foldWhile test step s) K c := by
  intro e d h
  obtain ⟨ts, s', b, c', hr, hS, ht, hs⟩ := foldWhile_failed hstep h
  obtain ⟨us, hus, hK⟩ := hfail ts s' b c' hS ht hs
  exact ⟨ts ++ us, hr.append hus, hK⟩

theorem FailsBehind.many {test : Token → Option β} {item : β → Rule α}
    (hitem : ∀ ⦃b c d a⦄, test c.current = some b → item b c = .ok a d →
      ∃ t ts, c.Reads (t :: ts) d ∧ P (t :: ts) a)
    (hfail : ∀ ts as b d, Many P ts as → test d.current = some b →
      FailsBehind (item b) (fun us => K (ts ++ us)) d) :
    FailsBehind (many test item) K c := by
  intro e d h
  obtain ⟨ts, as, b, c', hr, hM, ht, hi⟩ := many_failed hitem h
  obtain ⟨us, hus, hK⟩ := hfail ts as b c' hM ht hi
  exact ⟨ts ++ us, hr.append hus, hK⟩

theorem FailsBehind.untilSymbol {item : Rule α} {fill : Token → Prop} (hs : Sound item P)
    (hP : ∀ {a}, ¬ P [] a) (hitem : ∀ c, FailsBehind item (Prefix fill P) c) (close : String) :
    FailsBehind (untilSymbol close item) (Prefix fill (Many P)) c := by
  refine .many (hs.exists_cons hP) fun ts as _ d hM _ => ?_
  exact (hitem d).mono fun us hus => hus.many hM

theorem FailsBehind.commaList {item : Rule α} {fill : Token → Prop} (hs : Sound item P)
    (hitem : ∀ c, FailsBehind item (Prefix fill P) c) (close : String) :
    FailsBehind (commaList close item) (Prefix fill (CommaList P)) c := by
  refine failsBehind_current <| .ite (fun _ => failsBehind_pure _) fun _ => ?_
  refine .bind hs ((hitem c).mono fun _ h => h.commaList_first) fun ts a d _ ha => ?_
  refine .bind_pure (.many hs.after fun us as _ d hM ht => ?_) _
  have hcomma : d.current.isSymbol "," := by simpa using ht
  show FailsBehind (advance >>= fun _ => item) _ d
  refine failsBehind_advance (Token.not_endOfFile_of_isSymbol hcomma) ?_
  exact (hitem _).mono fun vs hvs => hvs.commaList_next ha hM hcomma

/-! ## Expressions -/

theorem FailsBehind.callWith {argument : Rule Expr} (hs : Sound argument IsExpr)
    (h : ∀ c, FailsBehind argument (Prefix IsFiller IsExpr) c) (target : Expr) {name : Token}
    (hname : IsName name) :
    FailsBehind (callWith argument target) (fun us => Prefix IsFiller IsOperand (name :: us))
      c := by
  show FailsBehind (if _ then _ else _) _ c
  refine .ite (fun hcall => ?_) fun _ => failsBehind_pure _
  obtain ⟨hdot, hm, ho⟩ := beginsCall hcall
  refine failsBehind_advance (Token.not_endOfFile_of_isSymbol hdot) ?_
  refine failsBehind_advance (Token.not_endOfFile_of_kind hm) ?_
  refine failsBehind_advance (Token.not_endOfFile_of_isSymbol ho) ?_
  exact .part (hs.commaList _) (.commaList hs h ")") (fun _ _ _ hus => hus.call hname hdot hm ho)
    fun _ _ _ _ hread => failsBehind_close hread _ _ _

theorem FailsBehind.operandWith {argument : Rule Expr} (hs : Sound argument IsExpr)
    (h : ∀ c, FailsBehind argument (Prefix IsFiller IsExpr) c) :
    FailsBehind (operandWith argument) (Prefix IsFiller IsOperand) c := by
  have hcall : IsName c.current → FailsBehind (advance >>= fun _ =>
      Rule.callWith argument (.identifier c.current.value c.current.span))
        (Prefix IsFiller IsOperand) c := fun hn =>
    failsBehind_advance (BeginsOperand.not_endOfFile (.inr (.inr hn))) (.callWith hs h _ hn)
  have hfail : ∀ cause, FailsBehind (fail cause : Rule Expr) (Prefix IsFiller IsOperand) c :=
    failsBehind_fail prefix_operand_nil
  refine failsBehind_current ?_
  split
  · next hk =>
    split
    · exact failsBehind_advance (Token.isEndOfFile_eq_false (by simp [hk])) (failsBehind_pure _)
    · exact hfail _
  · next hk =>
    exact failsBehind_advance (Token.isEndOfFile_eq_false (by simp [hk])) (failsBehind_pure _)
  · next hk => exact hcall (.inl hk)
  · next hk => exact .ite (fun hv => hcall (.inr (Token.isKeyword_iff.2 ⟨hk, hv⟩))) fun _ => hfail _
  · exact hfail _
  · exact hfail _

theorem operandWith_of_endOfFile (argument : Rule Expr) (h : c.current.isEndOfFile) :
    operandWith argument c = fail (missing "expression") c := by
  have hk : c.current.kind = .endOfFile := of_decide_eq_true h
  simp [operandWith, bind_of_ok (current_eq_ok.2 ⟨rfl, rfl⟩), hk]

theorem FailsBehind.chainWith {argument : Rule Expr} (hs : Sound argument IsExpr)
    (h : ∀ c, FailsBehind argument (Prefix IsFiller IsExpr) c) :
    FailsBehind (chainWith argument) (Prefix IsFiller IsExpr) c := by
  have hoperand : ∀ c, FailsBehind (Rule.operandWith argument) (Prefix IsFiller IsOperand) c :=
    fun _ => .operandWith hs h
  refine .bind (operandWith_sound hs) ((hoperand c).mono fun _ hus => hus.expr)
    fun ts first c₁ _ hfirst => ?_
  refine .bind_pure (.many (operation_sound hs) fun us others op d hM hop => ?_) _
  have hleft : IsExpr (ts ++ us) _ := (IsExpr.operand hfirst).foldl hM
  cases hd : d.current.isEndOfFile with
  | false =>
    refine failsBehind_advance hd (.bind_pure ((hoperand d.advance).mono fun vs hvs => ?_) _)
    rw [← List.append_assoc]
    exact hvs.binary hleft hop
  | true =>
    -- The operator is not consumed, so the expression before it is all that has been read.
    have hread : Prefix IsFiller IsExpr (ts ++ (us ++ [])) := by
      rw [List.append_nil]
      exact .of hleft
    refine failsBehind_advance_of_endOfFile hd (.bind_pure (fun e d' he => ?_) _)
    rw [operandWith_of_endOfFile argument hd] at he
    exact failsBehind_fail hread _ he

theorem failsBehind_expr (c : Cursor) : FailsBehind expr (Prefix IsFiller IsExpr) c := by
  have h := expr_induct (Q := fun c r =>
    (∀ d a, r = .ok a d → ∃ ts, c.Reads ts d ∧ IsExpr ts a) ∧
      ∀ e d, r = .error e d → ∃ ts, c.Reads ts d ∧ Prefix IsFiller IsExpr ts)
    (fun c => ⟨fun _ _ h => absurd h (by simp [fail_eq_ok]),
      fun _ _ h => failsBehind_fail prefix_operand_nil.expr _ h⟩)
    (fun argument h c => ⟨fun _ _ hc => chainWith_sound (fun c d a => (h c).1 d a) hc,
      fun _ _ hc => FailsBehind.chainWith (fun c d a => (h c).1 d a) (fun c => (h c).2) hc⟩)
  exact fun e d => (h c).2 e d

theorem failsBehind_initializer? (c : Cursor) :
    FailsBehind initializer? (Prefix IsFiller IsInitializer) c := by
  refine failsBehind_current (.ite (fun hq => ?_) fun _ => failsBehind_pure _)
  show FailsBehind (advance >>= fun _ => some <$> expr) _ c
  refine failsBehind_advance (Token.not_endOfFile_of_isOperator hq) (.map ?_ _)
  exact (failsBehind_expr _).mono fun _ h => h.initializer hq

/-! ## Statements -/

theorem failsBehind_returnStmt (hk : c.current.isKeyword "return") :
    FailsBehind returnStmt (Prefix NotEnd IsStmt) c := by
  have hvalue : Sound (some <$> expr) (fun ts v => ∃ e, IsExpr ts e ∧ some e = v) := by
    intro c d v h
    obtain ⟨e, he, hv⟩ := map_eq_ok.1 h
    obtain ⟨ts, hts, hE⟩ := expr_sound he
    exact ⟨ts, hts, e, hE, hv⟩
  refine failsBehind_advance (Token.not_endOfFile_of_isKeyword hk) <|
    failsBehind_current <| .ite (fun _ => ?_) fun _ => ?_
  · exact failsBehind_close (Prefix.returnStmt hk prefix_operand_nil.expr) _ _ _
  · refine .bind hvalue (.map ((failsBehind_expr _).mono fun _ h => h.returnStmt hk) _)
      fun ts v d _ ⟨e, he, _⟩ => failsBehind_close ?_ _ _ _
    rw [List.append_nil]
    exact Prefix.returnStmt hk (.of he)

theorem failsBehind_implicitVariable (hk : c.current.isKeyword "let") :
    FailsBehind implicitVariable (Prefix NotEnd IsStmt) c := by
  refine failsBehind_advance (Token.not_endOfFile_of_isKeyword hk) <|
    failsBehind_identifier_bind (prefix_implicit hk) fun hn => ?_
  refine .part initializer?_sound (failsBehind_initializer? _) (fun _ _ _ h => h.implicit hk hn)
    fun ts v d _ hread => ?_
  cases v with
  | none => exact failsBehind_fail hread _
  | some e => exact failsBehind_close hread _ _ _

theorem failsBehind_explicitVariable (c : Cursor) :
    FailsBehind explicitVariable (Prefix NotEnd IsStmt) c := by
  refine failsBehind_typeName prefix_stmt_nil fun ht =>
    failsBehind_identifier_bind (prefix_explicit ht) fun hn => ?_
  exact .part initializer?_sound (failsBehind_initializer? _) (fun _ _ _ h => h.explicit ht hn)
    fun _ _ _ _ hread => failsBehind_close hread _ _ _

theorem failsBehind_exprStmt
    (hc : (c.current.isTypeName && (c.peek 1).kind = .identifier) = false) :
    FailsBehind exprStmt (Prefix NotEnd IsStmt) c := by
  exact failsBehind_current <| .part expr_sound (failsBehind_expr c)
    (fun _ _ hr h => h.exprStmt fun _ => beginsDeclaration_append_filler hr hc)
    fun _ _ _ _ hread => failsBehind_close hread _ _ _

theorem failsBehind_stmt (c : Cursor) : FailsBehind stmt (Prefix NotEnd IsStmt) c := by
  show FailsBehind (if _ then _ else _) _ c
  exact .ite failsBehind_returnStmt fun _ => .ite failsBehind_implicitVariable fun _ =>
    .ite (fun _ => failsBehind_explicitVariable c) fun hd =>
      failsBehind_exprStmt (Bool.eq_false_iff.2 hd)

/-! ## Classes -/

theorem failsBehind_parameter (c : Cursor) :
    FailsBehind parameter (Prefix NotEnd IsParameter) c :=
  failsBehind_typeName prefix_parameter_nil fun ht =>
    (failsBehind_identifier (prefix_parameter ht) _).bind_spanFrom _ _

theorem failsBehind_method {t n : Token} {start : Position} {type name : String}
    (ht : t.isTypeName) (hn : n.kind = .identifier) :
    FailsBehind (method start type name) (fun us => Prefix NotEnd IsMember (t :: n :: us)) c := by
  refine failsBehind_symbol (prefix_member_name ht hn) fun ho => ?_
  refine .part (parameter_sound.commaList _) (.commaList parameter_sound failsBehind_parameter ")")
    (fun _ _ _ h => h.parameters ht hn ho) fun ps parameters d hps hparameters => ?_
  refine failsBehind_symbol hparameters fun hcl =>
    failsBehind_symbol (prefix_body ht hn ho hps hcl) fun hb => ?_
  exact .part (stmt_sound.untilSymbol (fun h => h.ne_nil rfl) _)
    (.untilSymbol stmt_sound (fun h => h.ne_nil rfl) failsBehind_stmt rightBrace)
    (fun _ _ _ h => h.body ht hn ho hps hcl hb) fun _ _ _ _ hread => failsBehind_close hread _ _ _

theorem failsBehind_field {t n : Token} {start : Position} {type name : String}
    (ht : t.isTypeName) (hn : n.kind = .identifier) :
    FailsBehind (field start type name) (fun us => Prefix NotEnd IsMember (t :: n :: us)) c :=
  .part initializer?_sound (failsBehind_initializer? _) (fun _ _ _ h => h.field ht hn)
    fun _ _ _ _ hread => failsBehind_close hread _ _ _

theorem failsBehind_accessor (name : String) (seen : Accessors) :
    FailsBehind (accessor name seen) (fun us => us = [] ∨
      ∃ all, Declares seen (us ++ [.bare .symbol ";"]) all) c := by
  have hdeclared : ∀ {w all}, c.current.isKeyword w →
      Declares seen [c.current, .bare .symbol ";"] all → FailsBehind (do
        let _ ← advance
        let _ ← symbol ";"
        return all) (fun us => us = [] ∨ ∃ all, Declares seen (us ++ [.bare .symbol ";"]) all) c :=
    fun hk hD => failsBehind_advance (Token.not_endOfFile_of_isKeyword hk) <|
      failsBehind_symbol (.inr ⟨_, hD⟩) fun _ => failsBehind_pure _
  have hfail : ∀ cause, FailsBehind (fail cause : Rule Accessors) (fun us => us = [] ∨
      ∃ all, Declares seen (us ++ [.bare .symbol ";"]) all) c := failsBehind_fail (.inl rfl)
  refine failsBehind_current <| .ite (fun _ => hfail _) fun _ =>
    .ite (fun hk => .ite (fun _ => hfail _) fun hseen => ?_) fun _ =>
      .ite (fun hk => .ite (fun _ => hfail _) fun hseen => ?_) fun _ => hfail _
  · exact hdeclared hk (.get (.mk hk (.inl rfl) (isSymbol_bare _)) (Bool.eq_false_iff.2 hseen))
  · exact hdeclared hk (.set (.mk hk (.inr rfl) (isSymbol_bare _)) (Bool.eq_false_iff.2 hseen))

theorem failsBehind_property {t n : Token} {start : Position} {type name : String}
    (ht : t.isTypeName) (hn : n.kind = .identifier) :
    FailsBehind (property start type name) (fun us => Prefix NotEnd IsMember (t :: n :: us)) c := by
  refine failsBehind_symbol (prefix_member_name ht hn) fun hb => ?_
  have hcut : ∀ {ts : List Token} (us : List Token) {all : Accessors},
      Steps Declares ⟨false, false⟩ (ts ++ us) all → (∀ u ∈ us, NotEnd u) →
        Prefix NotEnd IsMember (t :: n :: c.current :: ts) := by
    intro ts us all hS hus
    obtain ⟨words, hM, hnodup, -⟩ := exists_many_of_steps_declares hS
    exact prefix_property ht hn hb hM hnodup hus
  have haccessors : Sound (foldWhile (fun t => if t.isSymbol rightBrace then none else some ())
      (fun seen _ => accessor name seen) ⟨false, false⟩) (Steps Declares ⟨false, false⟩) := by
    intro c d all h
    obtain ⟨ts, hts, hS, -⟩ := foldWhile_sound (accessor_step name) h
    exact ⟨ts, hts, hS⟩
  refine .bind haccessors (.foldWhile (accessor_step name) fun ts seen _ d hS _ => ?_)
    fun ts all d _ hS => failsBehind_close ?_ _ _ _
  · refine (failsBehind_accessor name seen).mono fun us hus => ?_
    rcases hus with rfl | ⟨all, hD⟩
    · rw [List.append_nil]
      exact hcut [] (by simpa using hS) (by simp)
    · have hsteps := hS.snoc hD
      rw [← List.append_assoc] at hsteps
      exact hcut _ hsteps (notEnd_singleton (by decide))
  · rw [List.append_nil]
    exact hcut [] (by simpa using hS) (by simp)

theorem failsBehind_member (c : Cursor) : FailsBehind member (Prefix NotEnd IsMember) c := by
  refine failsBehind_typeName prefix_member_nil fun ht =>
    failsBehind_identifier_bind (prefix_member ht) fun hn => failsBehind_current ?_
  exact .ite (fun _ => (failsBehind_method ht hn).map _) fun _ =>
    .ite (fun _ => (failsBehind_field ht hn).map _) fun _ =>
      .ite (fun _ => (failsBehind_property ht hn).map _) fun _ =>
        failsBehind_fail (prefix_member_name ht hn) _

theorem failsBehind_classDecl (hk : c.current.isKeyword "class") :
    FailsBehind classDecl (Prefix NotEnd IsClass) c := by
  refine failsBehind_advance (Token.not_endOfFile_of_isKeyword hk) <| failsBehind_current <|
    .ite (fun _ => failsBehind_fail_bind (prefix_class hk) _ _) fun hname => ?_
  have hn : c.advance.current.kind = .identifier := Decidable.not_not.1 hname
  refine failsBehind_advance (Token.not_endOfFile_of_kind hn) <|
    failsBehind_symbol (prefix_class_name hk hn) fun hb => ?_
  exact .part (member_sound.untilSymbol (fun h => h.ne_nil rfl) _)
    (.untilSymbol member_sound (fun h => h.ne_nil rfl) failsBehind_member rightBrace)
    (fun _ _ _ h => h.members hk hn hb) fun _ _ _ _ hread => failsBehind_close hread _ _ _

theorem failsBehind_typeDecl (c : Cursor) : FailsBehind typeDecl (Prefix NotEnd IsClass) c :=
  failsBehind_current <| .ite failsBehind_classDecl fun _ => failsBehind_fail prefix_class_nil _

/-! ## Spaces -/

theorem failsBehind_spaceName (c : Cursor) :
    FailsBehind spaceName (Prefix NotEnd IsSpaceName) c := by
  refine failsBehind_identifier_bind prefix_spaceName_nil fun hn => ?_
  refine .bind_pure (.many (identifier_sound _).after fun ts segments _ d hM ht => ?_) _
  have hdot : d.current.isSymbol "." := by simpa using ht
  show FailsBehind (advance >>= fun _ => identifier "space name") _ d
  exact failsBehind_advance (Token.not_endOfFile_of_isSymbol hdot) <|
    failsBehind_identifier (prefix_spaceName hn hM hdot) _

theorem failsBehind_spaceDecl (c : Cursor) : FailsBehind spaceDecl (Prefix NotEnd IsSpace) c := by
  refine failsBehind_current <|
    .ite (fun _ => failsBehind_fail_bind prefix_space_nil _ _) fun hspace => ?_
  have hk : c.current.isKeyword "space" := by simpa using hspace
  refine failsBehind_advance (Token.not_endOfFile_of_isKeyword hk) ?_
  refine .part spaceName_sound (failsBehind_spaceName _) (fun _ _ _ h => h.spaceName hk)
    fun ts name d hN hname => ?_
  refine failsBehind_symbol hname fun hs => ?_
  have hclasses : FailsBehind (many (fun t => if t.isEndOfFile then none else some ())
      (fun _ => typeDecl)) (Prefix NotEnd (Many IsClass)) d.advance :=
    .many (typeDecl_sound.exists_cons fun h => h.ne_nil rfl) fun us classes _ d' hM _ =>
      (failsBehind_typeDecl d').mono fun _ h => h.many hM
  exact (hclasses.mono fun _ h => h.classes hk hN hs).bind_spanFrom _ _

end Rule

/-! ## Modules -/

namespace Module

/-- **The parser stops at the first token that cannot go on.** Where a token list makes no module,
the diagnostic has the position of the token that the rules stand on, of the list with its end
marker, and the tokens before that one are the beginning of a list that makes a module. -/
theorem ofTokens_error_viable {tokens : List Token} {e : Diagnostic}
    (h : ofTokens tokens = .error e) :
    ∃ d, Rule.spaceDecl (.ofTokens tokens) = .error e d ∧
      d.toList = (Cursor.ofTokens tokens).toList ∧
      (Cursor.ofTokens tokens).toList[d.consumed.length]?.map Token.position = some e.position ∧
      ∃ rest m, ofTokens (tokens.take d.consumed.length ++ rest) = .ok m := by
  obtain ⟨d, hd⟩ := ofTokens_eq_error.1 h
  obtain ⟨ts, hts, us, space, hspace, hus⟩ := Rule.failsBehind_spaceDecl _ hd
  have hposition : e.position = d.current.position := (Rule.blames_spaceDecl _ hd).position
  have hnoend : ∀ t ∈ ts ++ us, t.isEndOfFile = false := fun t ht =>
    (List.mem_append.1 ht).elim (hts.not_endOfFile t) (hus t)
  have htake : (ts ++ us).takeWhile (fun t => !t.isEndOfFile) = ts ++ us := by
    have h := takeWhile_append hnoend []
    rwa [List.append_nil, List.takeWhile_nil, List.append_nil] at h
  have hmodule : IsModule ((tokens.take d.consumed.length ++ us).takeWhile (!·.isEndOfFile))
      ⟨mainName, space, .ofTokens (ts ++ us)⟩ := by
    rw [← hts.eq_take_of_ofTokens, htake]
    exact .mk hspace
  refine ⟨d, hd, hts.toList_eq, ?_, us, _, ofTokens_of_isModule hmodule⟩
  rw [← hts.toList_eq, Cursor.getElem?_toList, hposition]
  rfl

/-- The tokens `space a. ;`, with a segment of the name missing. -/
theorem ofTokens_error_viable_name :
    let tokens : List Token := [⟨.keyword, "space", ⟨⟨1, 1⟩, ⟨1, 6⟩⟩⟩,
      ⟨.identifier, "a", ⟨⟨1, 7⟩, ⟨1, 8⟩⟩⟩, ⟨.symbol, ".", ⟨⟨1, 8⟩, ⟨1, 9⟩⟩⟩,
      ⟨.symbol, ";", ⟨⟨1, 10⟩, ⟨1, 11⟩⟩⟩]
    ofTokens tokens = .error ⟨.expectedToken "space name" "`;`", ⟨1, 10⟩⟩ ∧
      ∃ d, Rule.spaceDecl (.ofTokens tokens) =
          .error ⟨.expectedToken "space name" "`;`", ⟨1, 10⟩⟩ d ∧
        d.toList = (Cursor.ofTokens tokens).toList ∧
        (Cursor.ofTokens tokens).toList[d.consumed.length]?.map Token.position = some ⟨1, 10⟩ ∧
        ∃ rest m, ofTokens (tokens.take d.consumed.length ++ rest) = .ok m := by
  intro tokens
  have hfirst : Rule.identifier "space name" (Cursor.ofTokens tokens).advance =
      .ok "a" (Cursor.ofTokens tokens).advance.advance := rfl
  have hname : Rule.spaceName (Cursor.ofTokens tokens).advance =
      .error ⟨.expectedToken "space name" "`;`", ⟨1, 10⟩⟩
        (Cursor.ofTokens tokens).advance.advance.advance :=
    (Rule.bind_of_ok hfirst).trans <| Rule.bind_of_error <| Rule.bind_of_error <|
      Rule.foldWhile_of_error (b := ()) rfl (Rule.bind_of_error rfl)
  have hspace : Rule.spaceDecl (Cursor.ofTokens tokens) =
      .error ⟨.expectedToken "space name" "`;`", ⟨1, 10⟩⟩
        (Cursor.ofTokens tokens).advance.advance.advance :=
    Rule.bind_eq_error.2 <| .inr ⟨_, _, rfl, Rule.bind_eq_error.2 <| .inr ⟨_, _, rfl,
      Rule.bind_of_error hname⟩⟩
  have hmodule := ofTokens_eq_error.2 ⟨_, hspace⟩
  exact ⟨hmodule, ofTokens_error_viable hmodule⟩

end Module

end SpaceLang
