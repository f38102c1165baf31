import SpaceLang.Proofs.Rule.Traverse

/-!
# Where a value is missed

A declaration without a type needs a value, and it is refused for want of one right behind its name,
in front of any token but an equals sign. The cause of a failure tells when this is so: it names a
variable exactly where the cursor stands behind the word `let` and that name (`tells_spaceDecl`).

No other rule reads the word `let`, which is what the terms of a run can ask for. `Cursor.IsClear`
says of a cursor that neither the word nor a name behind it was read last; a rule that begins at
such a cursor succeeds at one, and where it fails elsewhere, its cause is another (`Built.told`).
-/

namespace SpaceLang

/-! ## Behind `let` and a name -/

namespace Cursor

variable {c : Cursor}

/-- Whether a cursor stands right behind the word `let` and a name. -/
def IsBehindLet (c : Cursor) (name : String) : Prop :=
  ∃ t u ts, c.consumed = t :: u :: ts ∧ t.kind = .identifier ∧ t.value = name ∧ u.isKeyword "let"

/-- Whether a cursor stands neither behind `let` nor behind `let` and a name. -/
structure IsClear (c : Cursor) : Prop where
  head : ∀ t ∈ c.consumed.head?, t.isKeyword "let" = false
  not_behind : ∀ name, ¬ c.IsBehindLet name

theorem consumed_advance (h : c.current.isEndOfFile = false) :
    c.advance.consumed = c.current :: c.consumed := by
  obtain ⟨t, ts, hn⟩ := List.exists_cons_of_ne_nil (next_ne_nil h)
  exact (advance_eq h hn).1

theorem isBehindLet_iff {t u : Token} {ts : List Token} (h : c.consumed = t :: u :: ts)
    (name : String) :
    c.IsBehindLet name ↔ t.kind = .identifier ∧ t.value = name ∧ u.isKeyword "let" := by
  constructor
  · rintro ⟨t', u', ts', h', hname⟩
    rw [h] at h'
    cases h'
    exact hname
  · intro hname
    exact ⟨t, u, ts, h, hname⟩

theorem IsClear.of_consumed {t : Token} {ts : List Token} (h : c.consumed = t :: ts)
    (hlet : t.isKeyword "let" = false) (hname : t.kind ≠ .identifier) : c.IsClear := by
  refine ⟨?_, ?_⟩
  · rw [h]
    rintro _ ⟨⟩
    exact hlet
  · rintro name ⟨t', u', ts', h', hkind, -⟩
    rw [h] at h'
    cases h'
    exact hname hkind

theorem IsClear.advance (hc : c.IsClear) (h : c.current.isKeyword "let" = false) :
    c.advance.IsClear := by
  cases hend : c.current.isEndOfFile with
  | true => rwa [advance_of_endOfFile hend]
  | false =>
    have hconsumed := consumed_advance hend
    refine ⟨?_, ?_⟩
    · rw [hconsumed]
      rintro _ ⟨⟩
      exact h
    · rintro name ⟨t, u, ts, hts, -, -, hu⟩
      rw [hconsumed] at hts
      obtain ⟨-, hts⟩ := List.cons.inj hts
      have hhead := hc.head u (by rw [hts]; rfl)
      rw [hhead] at hu
      cases hu

theorem isClear_ofTokens (tokens : List Token) : (ofTokens tokens).IsClear := by
  have hnil := consumed_ofTokens tokens
  refine ⟨?_, ?_⟩
  · rw [hnil]
    rintro _ ⟨⟩
  · rintro name ⟨t, u, ts, hts, -⟩
    rw [hnil] at hts
    cases hts

end Cursor

namespace Rule

variable {α β : Type} {f : Position → Position} {u : Terms} {g : α → α} {r r' : Rule α}
  {k : α → Rule β} {c d : Cursor}

/-- A result that misses a value exactly behind `let` and a name. Where it succeeds, neither of them
was read last. -/
def Told : EStateM.Result Diagnostic Cursor α → Prop
  | .ok _ d => d.IsClear
  | .error e d => ∀ name, e.cause = .missingInitializer name ↔ d.IsBehindLet name

theorem told_error {e : Diagnostic} (h : ∀ name, e.cause ≠ .missingInitializer name)
    (hd : ∀ name, ¬ d.IsBehindLet name) :
    Told (.error e d : EStateM.Result Diagnostic Cursor α) :=
  fun name => ⟨fun hcause => absurd hcause (h name), fun hbehind => absurd hbehind (hd name)⟩

theorem told_missing (expected : String) (hc : c.IsClear) :
    Told (fail (missing expected) c : EStateM.Result Diagnostic Cursor α) :=
  told_error (Cause.ne_missingInitializer (names_missing expected c.current)) hc.not_behind

theorem told_bind (hr : Told (r c)) (hk : ∀ a d, r c = .ok a d → d.IsClear → Told (k a d)) :
    Told ((r >>= k) c) := by
  cases h : r c with
  | ok a d =>
    rw [h] at hr
    rw [bind_of_ok h]
    exact hk a d h hr
  | error e d =>
    rw [h] at hr
    rwa [bind_of_error h]

/-! ### Declarations -/

theorem told_close (s : String) (start : Position) (build : Span → α) (hc : c.IsClear) : Told ((do
    let _ ← symbol s
    return build (← spanFrom start) : Rule α) c) := by
  refine told_bind ?_ fun _ d _ hd => hd
  cases hrun : symbol s c with
  | ok t d =>
    obtain ⟨hs, -, rfl⟩ := symbol_eq_ok.1 hrun
    exact hc.advance (Token.not_keyword_of_isSymbol hs _)
  | error e d =>
    obtain ⟨-, rfl, rfl⟩ := accept_eq_error.1 hrun
    exact told_missing _ hc

theorem initializer?_eq_error {d : Cursor} {e : Diagnostic} : initializer? c = .error e d ↔
    c.current.isOperator "=" ∧ expr c.advance = .error e d := by
  show (if c.current.isOperator "=" then advance *> some <$> expr else pure none) c = .error e d ↔ _
  cases c.current.isOperator "=" with
  | true =>
    rw [if_pos rfl, show (advance *> some <$> expr) c = (some <$> expr) c.advance from rfl,
      map_eq_error]
    simp
  | false => simp [pure_eq_error]

/-- What a declaration without a type reads behind its name. -/
def declaredValue (start : Position) (name : String) : Rule Stmt := do
  let some value ← initializer? | fail (fun _ => .missingInitializer name)
  let _ ← symbol ";"
  return .declare ⟨name, none, some value, ← spanFrom start⟩

theorem implicitVariable_eq : implicitVariable = (do
    let start := (← advance).position
    declaredValue start (← identifier "variable name")) :=
  rfl

/-- The one place where a value is missed: right behind the name, in front of any other token than
an equals sign. -/
theorem told_declaredValue {t v : Token} {ts : List Token} (h : c.consumed = t :: v :: ts)
    (ht : t.kind = .identifier) (hv : v.isKeyword "let")
    (hexpr : ∀ d : Cursor, d.IsClear → Told (expr d)) (start : Position) :
    Told (declaredValue start t.value c) := by
  have hvalue : c.current.isOperator "=" → Told (expr c.advance) := by
    intro hq
    have hkind := (Token.isOperator_iff.1 hq).1
    exact hexpr _ (.of_consumed (c.consumed_advance (Token.not_endOfFile_of_isOperator hq))
      (Token.not_keyword_of_isOperator hq _) (by simp [hkind]))
  cases hinit : initializer? c with
  | error e d =>
    obtain ⟨hq, he⟩ := initializer?_eq_error.1 hinit
    have htold := hvalue hq
    rw [he] at htold
    rwa [declaredValue, bind_of_error hinit]
  | ok value? d =>
    rw [declaredValue, bind_of_ok hinit]
    rcases initializer?_eq_ok.1 hinit with ⟨hq, e, he, rfl⟩ | ⟨-, rfl, rfl⟩
    · have hclear := hvalue hq
      rw [he] at hclear
      exact told_close _ _ _ hclear
    · intro name
      rw [Cursor.isBehindLet_iff h]
      simp [ht, hv]

theorem told_implicitVariable (h : c.current.isKeyword "let")
    (hexpr : ∀ d : Cursor, d.IsClear → Told (expr d)) : Told (implicitVariable c) := by
  have hlet := Cursor.consumed_advance (Token.not_endOfFile_of_isKeyword h)
  rw [implicitVariable_eq, bind_of_ok (advance_eq_ok.2 ⟨rfl, rfl⟩)]
  cases hname : identifier "variable name" c.advance with
  | error e d =>
    rw [bind_of_error hname]
    simp only [identifier, kind, bind_eq_error, pure_eq_error, and_false, exists_false, or_false,
      accept_eq_error] at hname
    obtain ⟨-, rfl, rfl⟩ := hname
    refine told_error (Cause.ne_missingInitializer (names_missing _ _)) ?_
    rintro name ⟨t, v, ts, hts, hkind, -⟩
    rw [hlet] at hts
    obtain ⟨rfl, -⟩ := List.cons.inj hts
    rw [(Token.isKeyword_iff.1 h).1] at hkind
    cases hkind
  | ok name d =>
    rw [bind_of_ok hname]
    obtain ⟨hkind, rfl, rfl⟩ := identifier_eq_ok.1 hname
    have hbehind := Cursor.consumed_advance (Token.not_endOfFile_of_kind hkind)
    rw [hlet] at hbehind
    exact told_declaredValue hbehind hkind h hexpr _

/-! ### The rules -/

/-- A run that consumes the word `let` with its declaration only, begun where neither the word nor a
name behind it was read last, misses a value exactly behind them. -/
theorem Built.told (hr : Built f u g r r' c) (ht : u.tested) (hc : c.IsClear) : Told (r c) := by
  induction hr with
  | pure => exact hc
  | bind _ _ _ _ ihr ihk => exact told_bind (ihr ht hc) fun a d hrun => ihk a d hrun ht
  | look hrun _ _ ih =>
    rw [hrun]
    exact ih ht hc
  | advance _ hlet => exact hc.advance (hlet ht)
  | fail _ _ _ _ hother => exact told_error (hother ht) hc.not_behind
  | spanFrom => exact hc
  | step _ _ hb hless _ _ ihstep ihrest =>
    rw [foldWhile_eq_bind hb hless]
    exact told_bind (ihstep ht hc) fun s d hrun => ihrest s d hrun ht
  | declare hlet _ _ ihexpr _ => exact told_implicitVariable hlet fun d => ihexpr d ht

theorem tells_spaceDecl (hc : c.IsClear) : Told (spaceDecl c) :=
  (built_spaceDecl (f := id) (u := { Terms.plain with tested := True })).told trivial hc

end Rule

end SpaceLang
