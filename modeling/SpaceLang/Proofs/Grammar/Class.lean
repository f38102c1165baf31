import SpaceLang.Class.Rule
import SpaceLang.Proofs.Grammar.Stmt

/-!
# Classes are read by their grammar

`member` and `typeDecl` are sound and complete for the phrases `IsMember` and `IsClass`, whatever
follows. The accessors of a property are the only repetition with a state: `Declares` says what one
accessor does to those seen before, and in a row they are the words of a list without duplicates
(`exists_many_of_steps_declares`).
-/

namespace SpaceLang

open Grammar

namespace Grammar

variable {t : Token} {ts us : List Token}

/-! ## How declarations begin -/

theorem IsParameter.first {p : Parameter} (h : IsParameter ts p) :
    ∃ t us, ts = t :: us ∧ t.isTypeName := by
  obtain ⟨ht, -⟩ := h
  exact ⟨_, _, rfl, ht⟩

theorem IsMember.first {m : Member} (h : IsMember ts m) : ∃ t us, ts = t :: us ∧ t.isTypeName := by
  cases h with
  | method ht => exact ⟨_, _, rfl, ht⟩
  | field ht => exact ⟨_, _, rfl, ht⟩
  | property ht => exact ⟨_, _, rfl, ht⟩

theorem IsMember.ne_nil {m : Member} (h : IsMember ts m) : ts ≠ [] := by
  obtain ⟨t, us, rfl, -⟩ := h.first
  exact List.cons_ne_nil t us

theorem IsAccessor.first {w : String} (h : IsAccessor ts w) :
    ∃ t us, ts = t :: us ∧ t.isKeyword w := by
  obtain ⟨hk, -, -⟩ := h
  exact ⟨_, _, rfl, hk⟩

theorem IsClass.first {c : Class} (h : IsClass ts c) :
    ∃ t us, ts = t :: us ∧ t.isKeyword "class" := by
  obtain ⟨hk, -⟩ := h
  exact ⟨_, _, rfl, hk⟩

theorem IsClass.ne_nil {c : Class} (h : IsClass ts c) : ts ≠ [] := by
  obtain ⟨t, us, rfl, -⟩ := h.first
  exact List.cons_ne_nil t us

/-! ## Accessors in a row -/

/-- One more accessor beside those seen, which do not hold it. -/
inductive Declares (seen : Accessors) : Phrase Accessors
  | get {vs} : IsAccessor vs "get" → seen.get = false → Declares seen vs { seen with get := true }
  | set {vs} : IsAccessor vs "set" → seen.set = false → Declares seen vs { seen with set := true }

theorem IsAccessor.word {w : String} (h : IsAccessor ts w) : w = "get" ∨ w = "set" := by
  obtain ⟨-, hw, -⟩ := h
  exact hw

theorem Declares.first {seen all : Accessors} (h : Declares seen ts all) :
    ∃ t us, ts = t :: us ∧ ∀ s, t.isSymbol s = false := by
  have hfirst : ∀ {w}, IsAccessor ts w → ∃ t us, ts = t :: us ∧ ∀ s, t.isSymbol s = false := by
    intro w hw
    obtain ⟨t, us, rfl, hk⟩ := hw.first
    exact ⟨t, us, rfl, Token.not_symbol_of_isKeyword hk⟩
  cases h with
  | get ha => exact hfirst ha
  | set ha => exact hfirst ha

theorem exists_many_of_steps_declares {seen all : Accessors}
    (h : Rule.Steps Declares seen ts all) : ∃ words, Many IsAccessor ts words ∧ words.Nodup ∧
      (seen.get → "get" ∉ words) ∧ (seen.set → "set" ∉ words) ∧
        all = ⟨seen.get || decide ("get" ∈ words), seen.set || decide ("set" ∈ words)⟩ := by
  induction h with
  | nil => exact ⟨[], .nil, .nil, by simp, by simp, by simp⟩
  | cons hd _ ih =>
    obtain ⟨words, hM, hnodup, hget, hset, rfl⟩ := ih
    cases hd with
    | get ha hs =>
      refine ⟨"get" :: words, .cons ha hM, List.nodup_cons.2 ⟨hget rfl, hnodup⟩, ?_, ?_, ?_⟩
      · simp [hs]
      · simpa using hset
      · simp
    | set ha hs =>
      refine ⟨"set" :: words, .cons ha hM, List.nodup_cons.2 ⟨hset rfl, hnodup⟩, ?_, ?_, ?_⟩
      · simpa using hget
      · simp [hs]
      · simp

theorem steps_declares_of_many {words : List String} (hM : Many IsAccessor ts words)
    (hnodup : words.Nodup) {seen : Accessors} (hget : seen.get → "get" ∉ words)
    (hset : seen.set → "set" ∉ words) : Rule.Steps Declares seen ts
      ⟨seen.get || decide ("get" ∈ words), seen.set || decide ("set" ∈ words)⟩ := by
  induction hM generalizing seen with
  | nil =>
    simp only [List.not_mem_nil, decide_false, Bool.or_false]
    exact .nil
  | @cons ts us w words ha _ ih =>
    obtain ⟨hw, hnodup'⟩ := List.nodup_cons.1 hnodup
    rcases ha.word with rfl | rfl
    · have hs : seen.get = false := by
        cases hs : seen.get with
        | false => rfl
        | true => exact absurd (List.mem_cons_self ..) (hget hs)
      have hrest : Rule.Steps Declares { seen with get := true } us _ :=
        ih hnodup' (fun _ => hw) (fun hs h => hset hs (List.mem_cons_of_mem _ h))
      have h := Rule.Steps.cons (.get ha hs) hrest
      simpa [hs] using h
    · have hs : seen.set = false := by
        cases hs : seen.set with
        | false => rfl
        | true => exact absurd (List.mem_cons_self ..) (hset hs)
      have hrest : Rule.Steps Declares { seen with set := true } us _ :=
        ih hnodup' (fun hs h => hget hs (List.mem_cons_of_mem _ h)) (fun _ => hw)
      have h := Rule.Steps.cons (.set ha hs) hrest
      simpa [hs] using h

end Grammar

namespace Rule

/-! ## When the rules succeed -/

section

variable {c d : Cursor} {start : Position} {type name : String}

theorem parameter_eq_ok {p : Parameter} : parameter c = .ok p d ↔
    c.current.isTypeName ∧ c.advance.current.kind = .identifier ∧
      ⟨c.advance.current.value, c.current.value,
        ⟨c.current.position, c.advance.advance.previousEnd⟩⟩ = p ∧ c.advance.advance = d := by
  simp only [parameter, bind_eq_ok, typeName_eq_ok, identifier_eq_ok, spanFrom_eq_ok, pure_eq_ok,
    and_assoc, exists_and_left, exists_eq_left']

theorem accessor_eq_ok {property : String} {seen all : Accessors} :
    accessor property seen c = .ok all d ↔ ¬ c.current.isEndOfFile ∧
      ((c.current.isKeyword "get" ∧ ¬ seen.get ∧ c.advance.current.isSymbol ";" ∧
        { seen with get := true } = all ∧ c.advance.advance = d) ∨
      ¬ c.current.isKeyword "get" ∧ c.current.isKeyword "set" ∧ ¬ seen.set ∧
        c.advance.current.isSymbol ";" ∧ { seen with set := true } = all ∧
          c.advance.advance = d) := by
  simp only [accessor, bind_eq_ok, current_eq_ok, ite_eq_ok, fail_eq_ok, and_false, false_or,
    or_false, advance_eq_ok, symbol_eq_ok, pure_eq_ok, and_assoc, exists_and_left, exists_eq_left']

theorem method_eq_ok {m : Method} : method start type name c = .ok m d ↔
    c.current.isSymbol "(" ∧
    ∃ parameters c₁, commaList ")" parameter c.advance = .ok parameters c₁ ∧
      c₁.current.isSymbol ")" ∧ c₁.advance.current.isSymbol leftBrace ∧
    ∃ body c₂, untilSymbol rightBrace stmt c₁.advance.advance = .ok body c₂ ∧
      c₂.current.isSymbol rightBrace ∧
      ⟨name, type, parameters, body, ⟨start, c₂.advance.previousEnd⟩⟩ = m ∧ c₂.advance = d := by
  simp only [method, bind_eq_ok, symbol_eq_ok, spanFrom_eq_ok, pure_eq_ok, and_assoc,
    exists_and_left, exists_eq_left']

theorem field_eq_ok {f : Field} : field start type name c = .ok f d ↔
    ∃ v c', initializer? c = .ok v c' ∧ c'.current.isSymbol ";" ∧
      ⟨name, type, v, ⟨start, c'.advance.previousEnd⟩⟩ = f ∧ c'.advance = d := by
  simp only [field, bind_eq_ok, symbol_eq_ok, spanFrom_eq_ok, pure_eq_ok, and_assoc,
    exists_and_left, exists_eq_left']

theorem property_eq_ok {p : Property} : property start type name c = .ok p d ↔
    c.current.isSymbol leftBrace ∧
    ∃ accessors c', foldWhile (fun t => if t.isSymbol rightBrace then none else some ())
        (fun seen _ => accessor name seen) ⟨false, false⟩ c.advance = .ok accessors c' ∧
      c'.current.isSymbol rightBrace ∧
      ⟨name, type, accessors, ⟨start, c'.advance.previousEnd⟩⟩ = p ∧ c'.advance = d := by
  simp only [property, bind_eq_ok, symbol_eq_ok, spanFrom_eq_ok, pure_eq_ok, and_assoc,
    exists_and_left, exists_eq_left']

theorem member_eq_ok {m : Member} : member c = .ok m d ↔
    c.current.isTypeName ∧ c.advance.current.kind = .identifier ∧
    ((c.advance.advance.current.isSymbol "(" ∧
      ∃ x, method c.current.position c.current.value c.advance.current.value c.advance.advance =
        .ok x d ∧ .method x = m) ∨
    ¬ c.advance.advance.current.isSymbol "(" ∧
      (((c.advance.advance.current.isOperator "=" || c.advance.advance.current.isSymbol ";") ∧
        ∃ x, field c.current.position c.current.value c.advance.current.value c.advance.advance =
          .ok x d ∧ .field x = m) ∨
      ¬ (c.advance.advance.current.isOperator "=" || c.advance.advance.current.isSymbol ";") ∧
        c.advance.advance.current.isSymbol leftBrace ∧
        ∃ x, property c.current.position c.current.value c.advance.current.value c.advance.advance =
          .ok x d ∧ .property x = m)) := by
  simp only [member, bind_eq_ok, typeName_eq_ok, identifier_eq_ok, current_eq_ok, ite_eq_ok,
    map_eq_ok, fail_eq_ok, and_false, or_false, and_assoc, exists_and_left, exists_eq_left']

theorem typeDecl_eq_ok {cl : Class} : typeDecl c = .ok cl d ↔
    c.current.isKeyword "class" ∧ c.advance.current.kind = .identifier ∧
    c.advance.advance.current.isSymbol leftBrace ∧
    ∃ members c', untilSymbol rightBrace member c.advance.advance.advance = .ok members c' ∧
      c'.current.isSymbol rightBrace ∧
      ⟨c.advance.current.value, members, ⟨c.current.position, c'.advance.previousEnd⟩⟩ = cl ∧
        c'.advance = d := by
  simp only [typeDecl, bind_eq_ok, current_eq_ok, ite_eq_ok, fail_eq_ok, false_and, and_false,
    exists_false, false_or, or_false, ne_eq, Decidable.not_not, classDecl, advance_eq_ok,
    symbol_eq_ok, spanFrom_eq_ok, pure_eq_ok, and_assoc, exists_and_left, exists_eq_left']

end

/-! ## Parameters -/

theorem parameter_sound : Sound parameter IsParameter := by
  intro c d p h
  obtain ⟨ht, hn, rfl, rfl⟩ := parameter_eq_ok.1 h
  have hr : c.Reads [c.current, c.advance.current] c.advance.advance :=
    ⟨rfl, Token.not_endOfFile_of_isTypeName ht, rfl, Token.not_endOfFile_of_kind hn, rfl⟩
  refine ⟨_, hr, ?_⟩
  rw [hr.span_eq (List.cons_ne_nil _ _)]
  exact .mk ht hn

theorem parameter_complete : Complete parameter IsParameter (fun _ => True) := by
  rintro c d _ _ hr ⟨ht, hn⟩ -
  have hspan := hr.span_eq (List.cons_ne_nil _ _)
  obtain ⟨rfl, -, rfl, -, rfl⟩ := hr
  refine parameter_eq_ok.2 ⟨ht, hn, ?_, rfl⟩
  rw [hspan]

/-! ## Accessors -/

theorem accessor_sound (property : String) (seen : Accessors) :
    Sound (accessor property seen) (Declares seen) := by
  intro c d all h
  obtain ⟨ht, h⟩ := accessor_eq_ok.1 h
  have hr : c.advance.current.isSymbol ";" →
      c.Reads [c.current, c.advance.current] c.advance.advance := fun hs =>
    ⟨rfl, Bool.eq_false_iff.2 ht, rfl, Token.not_endOfFile_of_isSymbol hs, rfl⟩
  rcases h with ⟨hk, hseen, hs, rfl, rfl⟩ | ⟨-, hk, hseen, hs, rfl, rfl⟩
  · exact ⟨_, hr hs, .get (.mk hk (.inl rfl) hs) (Bool.eq_false_iff.2 hseen)⟩
  · exact ⟨_, hr hs, .set (.mk hk (.inr rfl) hs) (Bool.eq_false_iff.2 hseen)⟩

theorem accessor_step (property : String) {test : Token → Option Unit} ⦃seen all : Accessors⦄
    ⦃b : Unit⦄ ⦃c d : Cursor⦄ (_ : test c.current = some b)
    (h : accessor property seen c = .ok all d) :
    ∃ t ts, c.Reads (t :: ts) d ∧ Declares seen (t :: ts) all := by
  obtain ⟨ts, hr, hD⟩ := accessor_sound property seen h
  obtain ⟨t, us, rfl, -⟩ := hD.first
  exact ⟨t, us, hr, hD⟩

theorem accessor_complete (property : String) (seen : Accessors) :
    Complete (accessor property seen) (Declares seen) (fun _ => True) := by
  intro c d ts all hr hD _
  rw [accessor_eq_ok]
  cases hD with
  | get ha hseen =>
    obtain ⟨hk, -, hs⟩ := ha
    obtain ⟨rfl, ht, rfl, -, rfl⟩ := hr
    exact ⟨Bool.eq_false_iff.1 ht, .inl ⟨hk, Bool.eq_false_iff.1 hseen, hs, rfl, rfl⟩⟩
  | set ha hseen =>
    obtain ⟨hk, -, hs⟩ := ha
    obtain ⟨rfl, ht, rfl, -, rfl⟩ := hr
    have hget := Token.isKeyword_eq_false hk (show "set" ≠ "get" by decide)
    exact ⟨Bool.eq_false_iff.1 ht,
      .inr ⟨Bool.eq_false_iff.1 hget, hk, Bool.eq_false_iff.1 hseen, hs, rfl, rfl⟩⟩

/-! ## Members -/

theorem method_sound {c d c₂ : Cursor} {m : Method} {t n : Token} (ht : t.isTypeName)
    (hn : n.kind = .identifier) (hr : c.Reads [t, n] c₂)
    (h : method t.position t.value n.value c₂ = .ok m d) :
    ∃ ts, c.Reads ts d ∧ IsMember ts (.method m) := by
  obtain ⟨ho, ps, c₃, hps, hc, hb, body, c₄, hbody, he, rfl, rfl⟩ := method_eq_ok.1 h
  obtain ⟨ts, hr₁, hP⟩ := commaList_sound parameter_sound hps
  obtain ⟨us, hr₂, hM, -⟩ := untilSymbol_sound stmt_sound (fun h => h.ne_nil rfl) hbody
  have hr' : c.Reads (t :: n :: c₂.current :: (ts ++ c₃.current :: c₃.advance.current ::
      (us ++ [c₄.current]))) c₄.advance :=
    hr.append ⟨rfl, Token.not_endOfFile_of_isSymbol ho, hr₁.append ⟨rfl,
      Token.not_endOfFile_of_isSymbol hc, rfl, Token.not_endOfFile_of_isSymbol hb,
      hr₂.append (.current (Token.not_endOfFile_of_isSymbol he))⟩⟩
  refine ⟨_, hr', ?_⟩
  have hspan := hr'.span_eq (List.cons_ne_nil _ _)
  rw [hr.1] at hspan
  rw [hspan]
  exact .method ht hn ho hP hc hb hM he

theorem field_sound {c d c₂ : Cursor} {f : Field} {t n : Token} (ht : t.isTypeName)
    (hn : n.kind = .identifier) (hr : c.Reads [t, n] c₂)
    (h : field t.position t.value n.value c₂ = .ok f d) :
    ∃ ts, c.Reads ts d ∧ IsMember ts (.field f) := by
  obtain ⟨v, c₃, hv, hs, rfl, rfl⟩ := field_eq_ok.1 h
  obtain ⟨ts, hr₁, hI⟩ := initializer?_sound hv
  have hr' : c.Reads (t :: n :: (ts ++ [c₃.current])) c₃.advance :=
    hr.append (hr₁.append (.current (Token.not_endOfFile_of_isSymbol hs)))
  refine ⟨_, hr', ?_⟩
  have hspan := hr'.span_eq (List.cons_ne_nil _ _)
  rw [hr.1] at hspan
  rw [hspan]
  exact .field ht hn hI hs

theorem property_sound {c d c₂ : Cursor} {p : Property} {t n : Token} (ht : t.isTypeName)
    (hn : n.kind = .identifier) (hr : c.Reads [t, n] c₂)
    (h : property t.position t.value n.value c₂ = .ok p d) :
    ∃ ts, c.Reads ts d ∧ IsMember ts (.property p) := by
  obtain ⟨hb, all, c₃, hall, he, rfl, rfl⟩ := property_eq_ok.1 h
  obtain ⟨ts, hr₁, hS, -⟩ := foldWhile_sound (accessor_step n.value) hall
  obtain ⟨words, hM, hnodup, -, -, rfl⟩ := exists_many_of_steps_declares hS
  have hr' : c.Reads (t :: n :: c₂.current :: (ts ++ [c₃.current])) c₃.advance :=
    hr.append ⟨rfl, Token.not_endOfFile_of_isSymbol hb,
      hr₁.append (.current (Token.not_endOfFile_of_isSymbol he))⟩
  refine ⟨_, hr', ?_⟩
  have hspan := hr'.span_eq (List.cons_ne_nil _ _)
  rw [hr.1] at hspan
  rw [hspan]
  simpa only [Bool.false_or] using IsMember.property ht hn hb hM hnodup he

theorem member_sound : Sound member IsMember := by
  intro c d m h
  obtain ⟨ht, hn, h⟩ := member_eq_ok.1 h
  have hr : c.Reads [c.current, c.advance.current] c.advance.advance :=
    ⟨rfl, Token.not_endOfFile_of_isTypeName ht, rfl, Token.not_endOfFile_of_kind hn, rfl⟩
  rcases h with ⟨-, m, hm, rfl⟩ | ⟨-, ⟨-, f, hf, rfl⟩ | ⟨-, -, p, hp, rfl⟩⟩
  · exact method_sound ht hn hr hm
  · exact field_sound ht hn hr hf
  · exact property_sound ht hn hr hp

theorem method_complete {c d : Cursor} {t n o cl b e : Token} {ps ts : List Token}
    {parameters : List Parameter} {body : List Stmt} {start : Position} (ho : o.isSymbol "(")
    (hP : CommaList IsParameter ps parameters) (hc : cl.isSymbol ")") (hb : b.isSymbol leftBrace)
    (hM : Many IsStmt ts body) (he : e.isSymbol rightBrace)
    (hr : c.Reads (o :: (ps ++ cl :: b :: (ts ++ [e]))) d) :
    method start t.value n.value c =
      .ok ⟨n.value, t.value, parameters, body, ⟨start, d.previousEnd⟩⟩ d := by
  obtain ⟨rfl, -, hr⟩ := hr
  obtain ⟨c₁, hr₁, rfl, -, rfl, -, hr⟩ := Cursor.reads_append.1 hr
  obtain ⟨c₂, hr₂, rfl, -, rfl⟩ := Cursor.reads_append.1 hr
  have hparameters : commaList ")" parameter c.advance = .ok parameters c₁ := by
    refine commaList_complete parameter_complete ?_ (fun _ => trivial) hP hr₁ hc
      (Token.isSymbol_eq_false hc (by decide)) trivial
    intro us p hp
    obtain ⟨t, us, rfl, ht⟩ := hp.first
    exact ⟨t, us, rfl, Token.not_symbol_of_isTypeName ht _⟩
  have hbody : untilSymbol rightBrace stmt c₁.advance.advance = .ok body c₂ := by
    refine untilSymbol_complete stmt_complete ?_ hM hr₂ he
    intro us s hs
    obtain ⟨t, us, rfl, ht⟩ := hs.first
    exact ⟨t, us, rfl, ht _⟩
  exact method_eq_ok.2 ⟨ho, parameters, c₁, hparameters, hc, hb, body, c₂, hbody, he, rfl, rfl⟩

theorem field_complete {c d : Cursor} {t n s : Token} {ts : List Token} {v : Option Expr}
    {start : Position} (hI : IsInitializer ts v) (hs : s.isSymbol ";")
    (hr : c.Reads (ts ++ [s]) d) :
    field start t.value n.value c = .ok ⟨n.value, t.value, v, ⟨start, d.previousEnd⟩⟩ d := by
  obtain ⟨c₁, hr₁, rfl, -, rfl⟩ := Cursor.reads_append.1 hr
  have hv := initializer?_complete hr₁ hI ⟨endsExpr_semicolon hs, Token.isOperator_eq_false hs⟩
  exact field_eq_ok.2 ⟨v, c₁, hv, hs, rfl, rfl⟩

theorem property_complete {c d : Cursor} {t n b e : Token} {ts : List Token} {words : List String}
    {start : Position} (hb : b.isSymbol leftBrace) (hM : Many IsAccessor ts words)
    (hnodup : words.Nodup) (he : e.isSymbol rightBrace) (hr : c.Reads (b :: (ts ++ [e])) d) :
    property start t.value n.value c = .ok ⟨n.value, t.value,
      ⟨decide ("get" ∈ words), decide ("set" ∈ words)⟩, ⟨start, d.previousEnd⟩⟩ d := by
  obtain ⟨rfl, -, hr⟩ := hr
  obtain ⟨c₁, hr₁, rfl, -, rfl⟩ := Cursor.reads_append.1 hr
  have hS : Steps Declares ⟨false, false⟩ ts
      ⟨false || decide ("get" ∈ words), false || decide ("set" ∈ words)⟩ :=
    steps_declares_of_many hM hnodup (by simp) (by simp)
  simp only [Bool.false_or] at hS
  have hall : foldWhile (fun t => if t.isSymbol rightBrace then none else some ())
      (fun seen _ => accessor n.value seen) ⟨false, false⟩ c.advance =
        .ok ⟨decide ("get" ∈ words), decide ("set" ∈ words)⟩ c₁ := by
    refine foldWhile_complete (fun _ => True) ?_ ?_ (fun _ _ _ => trivial) hS hr₁
      (by simp [he]) trivial
    · intro seen all us hD
      obtain ⟨t, us, rfl, ht⟩ := hD.first
      exact ⟨t, us, (), rfl, by simp [ht]⟩
    · intro seen all _ c d us _ hr hD _
      exact accessor_complete n.value seen hr hD trivial
  exact property_eq_ok.2 ⟨hb, _, c₁, hall, he, rfl, rfl⟩

theorem member_complete : Complete member IsMember (fun _ => True) := by
  intro c d ts m hr hM _
  have hspan := hr.span_eq hM.ne_nil
  rw [member_eq_ok]
  cases hM with
  | method ht hn ho hP hc hb hM he =>
    obtain ⟨rfl, -, rfl, -, hr⟩ := hr
    refine ⟨ht, hn, .inl ⟨hr.1 ▸ ho, _, method_complete ho hP hc hb hM he hr, ?_⟩⟩
    rw [hspan]
  | @field t n ts v s ht hn hI hs =>
    obtain ⟨rfl, -, rfl, -, hr⟩ := hr
    have hnext : c.advance.advance.current.isSymbol "(" = false ∧
        (c.advance.advance.current.isOperator "=" || c.advance.advance.current.isSymbol ";") := by
      cases hI with
      | none =>
        obtain ⟨hcur, -⟩ := hr
        rw [hcur]
        exact ⟨Token.isSymbol_eq_false hs (by decide), by simp [hs]⟩
      | some hq =>
        obtain ⟨hcur, -⟩ := hr
        rw [hcur]
        exact ⟨Token.not_symbol_of_isOperator hq _, by simp [hq]⟩
    refine ⟨ht, hn, .inr ⟨Bool.eq_false_iff.1 hnext.1, .inl ⟨hnext.2, _, field_complete hI hs hr,
      ?_⟩⟩⟩
    rw [hspan]
  | @property t n b ts words e ht hn hb hM hnodup he =>
    obtain ⟨rfl, -, rfl, -, hr⟩ := hr
    have hb' : c.advance.advance.current.isSymbol leftBrace := hr.1 ▸ hb
    have hparen := Token.isSymbol_eq_false hb' (show leftBrace ≠ "(" by decide)
    have hsemi := Token.isSymbol_eq_false hb' (show leftBrace ≠ ";" by decide)
    refine ⟨ht, hn, .inr ⟨Bool.eq_false_iff.1 hparen, .inr ⟨?_, hb', _,
      property_complete hb hM hnodup he hr, ?_⟩⟩⟩
    · simp [hsemi, Token.isOperator_eq_false hb']
    · rw [hspan]

/-! ## Classes -/

theorem typeDecl_sound : Sound typeDecl IsClass := by
  intro c d cl h
  obtain ⟨hk, hn, hb, members, c₁, hm, he, rfl, rfl⟩ := typeDecl_eq_ok.1 h
  obtain ⟨ts, hr, hM, -⟩ := untilSymbol_sound member_sound (fun h => h.ne_nil rfl) hm
  have hr' : c.Reads (c.current :: c.advance.current :: c.advance.advance.current ::
      (ts ++ [c₁.current])) c₁.advance :=
    ⟨rfl, Token.not_endOfFile_of_isKeyword hk, rfl, Token.not_endOfFile_of_kind hn, rfl,
      Token.not_endOfFile_of_isSymbol hb,
      hr.append (.current (Token.not_endOfFile_of_isSymbol he))⟩
  refine ⟨_, hr', ?_⟩
  rw [hr'.span_eq (List.cons_ne_nil _ _)]
  exact .mk hk hn hb hM he

theorem typeDecl_complete : Complete typeDecl IsClass (fun _ => True) := by
  rintro c d _ _ hr @⟨k, n, b, ts, members, e, hk, hn, hb, hM, he⟩ -
  have hspan := hr.span_eq (List.cons_ne_nil _ _)
  obtain ⟨rfl, -, rfl, -, rfl, -, hr⟩ := hr
  obtain ⟨c₁, hr₁, rfl, -, rfl⟩ := Cursor.reads_append.1 hr
  have hmembers : untilSymbol rightBrace member c.advance.advance.advance = .ok members c₁ := by
    refine untilSymbol_complete member_complete ?_ hM hr₁ he
    intro us m hm
    obtain ⟨t, us, rfl, ht⟩ := hm.first
    exact ⟨t, us, rfl, Token.not_symbol_of_isTypeName ht _⟩
  refine typeDecl_eq_ok.2 ⟨hk, hn, hb, members, c₁, hmembers, he, ?_, rfl⟩
  rw [hspan]

end Rule

end SpaceLang
