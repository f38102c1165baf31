import SpaceLang.Expr.Forward
import SpaceLang.Proofs.Rule.Reads
import SpaceLang.Proofs.Token.Kind

/-!
# Rules and phrases

A rule is `Sound` for a phrase if whatever it returns is the tree of the tokens that it consumed,
and `Complete` if it returns the tree of a phrase that stands before it. A rule decides by the next
token where its phrase ends, so it is complete only in front of a token that passes a test,
`follow`.

The equations `…_eq_ok` say when a rule succeeds and with what. Those of the primitive rules are
here; rewriting with them gives the one of a composed rule, which is all that its proofs know of it.
Repetitions are sound and complete if their items are.
-/

namespace SpaceLang

namespace Rule

open Grammar

variable {α β σ : Type}

/-! ## When a rule succeeds -/

section

variable {c d : Cursor}

theorem bind_eq_ok {r : Rule α} {f : α → Rule β} {b : β} :
    (r >>= f) c = .ok b d ↔ ∃ a c', r c = .ok a c' ∧ f a c' = .ok b d := by
  cases h : r c with
  | ok a c' => simp [bind_of_ok h, and_assoc]
  | error e c' => simp [bind_of_error h]

theorem map_eq_ok {r : Rule α} {f : α → β} {b : β} :
    (f <$> r) c = .ok b d ↔ ∃ a, r c = .ok a d ∧ f a = b := by
  show EStateM.map f r c = .ok b d ↔ _
  unfold EStateM.map
  cases r c with
  | ok a c' =>
    simp only [EStateM.Result.ok.injEq]
    exact ⟨fun ⟨hb, hd⟩ => ⟨a, ⟨rfl, hd⟩, hb⟩, fun ⟨_, ⟨ha, hd⟩, hb⟩ => ⟨ha ▸ hb, hd⟩⟩
  | error e c' => simp

theorem seqRight_eq_ok {r : Rule α} {s : Rule β} {b : β} :
    (r *> s) c = .ok b d ↔ ∃ a c', r c = .ok a c' ∧ s c' = .ok b d :=
  bind_eq_ok (f := fun _ => s)

theorem pure_eq_ok {a b : α} : (pure a : Rule α) c = .ok b d ↔ a = b ∧ c = d := by
  show EStateM.Result.ok a c = .ok b d ↔ _
  simp

theorem current_eq_ok {t : Token} : current c = .ok t d ↔ c.current = t ∧ c = d := by
  simp [current]

theorem peek_eq_ok {n : Nat} {t : Token} : peek n c = .ok t d ↔ c.peek n = t ∧ c = d := by
  simp [peek]

theorem advance_eq_ok {t : Token} : advance c = .ok t d ↔ c.current = t ∧ c.advance = d := by
  simp [advance]

theorem fail_eq_ok {cause : Token → Cause} {a : α} : fail cause c = .ok a d ↔ False := by
  simp [fail]

theorem spanFrom_eq_ok {start : Position} {s : Span} :
    spanFrom start c = .ok s d ↔ ⟨start, c.previousEnd⟩ = s ∧ c = d := by
  simp [spanFrom]

theorem ite_eq_ok {p : Prop} [Decidable p] {r s : Rule α} {a : α} :
    (if p then r else s) c = .ok a d ↔ p ∧ r c = .ok a d ∨ ¬p ∧ s c = .ok a d := by
  split <;> simp_all

theorem accept_eq_ok {test : Token → Bool} {expected : String} {t : Token} :
    accept test expected c = .ok t d ↔ test c.current ∧ c.current = t ∧ c.advance = d := by
  simp only [accept, bind_eq_ok, current_eq_ok, and_assoc, exists_eq_left', exists_and_left]
  cases h : test c.current <;> simp [fail_eq_ok, advance_eq_ok]

theorem symbol_eq_ok {s : String} {t : Token} :
    symbol s c = .ok t d ↔ c.current.isSymbol s ∧ c.current = t ∧ c.advance = d :=
  accept_eq_ok

theorem typeName_eq_ok {t : Token} :
    typeName c = .ok t d ↔ c.current.isTypeName ∧ c.current = t ∧ c.advance = d :=
  accept_eq_ok

theorem identifier_eq_ok {expected name : String} :
    identifier expected c = .ok name d ↔
      c.current.kind = .identifier ∧ c.current.value = name ∧ c.advance = d := by
  simp only [identifier, kind, bind_eq_ok, accept_eq_ok, pure_eq_ok, decide_eq_true_eq]
  constructor
  · rintro ⟨t, c', ⟨hk, rfl, rfl⟩, rfl, rfl⟩
    exact ⟨hk, rfl, rfl⟩
  · rintro ⟨hk, rfl, rfl⟩
    exact ⟨_, _, ⟨hk, rfl, rfl⟩, rfl, rfl⟩

end

/-! ## When a rule fails -/

section

variable {c d : Cursor} {e : Diagnostic}

theorem bind_eq_error {r : Rule α} {f : α → Rule β} : (r >>= f) c = .error e d ↔
    r c = .error e d ∨ ∃ a c', r c = .ok a c' ∧ f a c' = .error e d := by
  cases h : r c with
  | ok a c' => simp [bind_of_ok h, and_assoc]
  | error e' c' => simp [bind_of_error h]

theorem map_eq_error {r : Rule α} {f : α → β} : (f <$> r) c = .error e d ↔ r c = .error e d := by
  show EStateM.map f r c = .error e d ↔ _
  unfold EStateM.map
  cases r c <;> simp

theorem pure_eq_error {a : α} : (pure a : Rule α) c = .error e d ↔ False := by
  show EStateM.Result.ok a c = .error e d ↔ _
  simp

theorem advance_eq_error : advance c = .error e d ↔ False := by
  simp [advance]

theorem spanFrom_eq_error {start : Position} : spanFrom start c = .error e d ↔ False := by
  simp [spanFrom]

theorem fail_eq_error {cause : Token → Cause} : (fail cause : Rule α) c = .error e d ↔
    ⟨cause c.current, c.current.position⟩ = e ∧ c = d := by
  simp [fail]

theorem accept_eq_error {test : Token → Bool} {expected : String} :
    accept test expected c = .error e d ↔ test c.current = false ∧
      ⟨missing expected c.current, c.current.position⟩ = e ∧ c = d := by
  show (if test c.current then advance else fail (missing expected)) c = .error e d ↔ _
  cases test c.current with
  | true => simp [advance_eq_error]
  | false => simp [fail_eq_error]

end

/-! ## Sound and complete rules -/

/-- Whatever the rule returns is the tree of the tokens that it consumed. -/
def Sound (r : Rule α) (P : Phrase α) : Prop :=
  ∀ ⦃c d a⦄, r c = .ok a d → ∃ ts, c.Reads ts d ∧ P ts a

/-- The rule returns the tree of every phrase in front of a token that passes the test. -/
def Complete (r : Rule α) (P : Phrase α) (follow : Token → Prop) : Prop :=
  ∀ ⦃c d ts a⦄, c.Reads ts d → P ts a → follow d.current → r c = .ok a d

/-! ## Repetition -/

/-- From a state to a state by steps in a row, each of which reads some tokens. -/
inductive Steps (R : σ → List Token → σ → Prop) : σ → List Token → σ → Prop
  | nil {s} : Steps R s [] s
  | cons {s s' s'' ts us} : R s ts s' → Steps R s' us s'' → Steps R s (ts ++ us) s''

theorem Steps.snoc {R : σ → List Token → σ → Prop} {s s' s'' : σ} {ts us : List Token}
    (h : Steps R s ts s') (hR : R s' us s'') : Steps R s (ts ++ us) s'' := by
  induction h with
  | nil => simpa using Steps.cons hR .nil
  | cons hR' _ ih =>
    rw [List.append_assoc]
    exact .cons hR' (ih hR)

section

variable {test : Token → Option β} {step : σ → β → Rule σ} {R : σ → List Token → σ → Prop}

theorem foldWhile_sound
    (hstep : ∀ ⦃s s' b c d⦄, test c.current = some b → step s b c = .ok s' d →
      ∃ t ts, c.Reads (t :: ts) d ∧ R s (t :: ts) s')
    {s s' : σ} {c d : Cursor} (h : foldWhile test step s c = .ok s' d) :
    ∃ ts, c.Reads ts d ∧ Steps R s ts s' ∧ test d.current = none := by
  fun_induction foldWhile test step s c with
  | case1 s c ht =>
    cases h
    exact ⟨[], rfl, .nil, ht⟩
  | case2 => simp at h
  | case3 s c b ht s₁ c₁ hs hc ih =>
    obtain ⟨t, ts, hr, hR⟩ := hstep ht hs
    obtain ⟨us, hr', hS, hd⟩ := ih h
    exact ⟨t :: ts ++ us, hr.append hr', .cons hR hS, hd⟩
  | case4 s c b ht s₁ c₁ hs hc =>
    obtain ⟨t, ts, hr, hR⟩ := hstep ht hs
    exact absurd hr.remaining_lt hc

/-- A repetition fails in a step, behind steps in a row. -/
theorem foldWhile_failed
    (hstep : ∀ ⦃s s' b c d⦄, test c.current = some b → step s b c = .ok s' d →
      ∃ t ts, c.Reads (t :: ts) d ∧ R s (t :: ts) s')
    {s : σ} {c d : Cursor} {e : Diagnostic} (h : foldWhile test step s c = .error e d) :
    ∃ ts s' b c', c.Reads ts c' ∧ Steps R s ts s' ∧ test c'.current = some b ∧
      step s' b c' = .error e d := by
  fun_induction foldWhile test step s c with
  | case1 => simp at h
  | case2 s c b ht e c' hs =>
    cases h
    exact ⟨[], s, b, c, rfl, .nil, ht, hs⟩
  | case3 s c b ht s₁ c₁ hs hc ih =>
    obtain ⟨t, ts, hr, hR⟩ := hstep ht hs
    obtain ⟨us, s', b', c', hr', hS, ht', hs'⟩ := ih h
    exact ⟨t :: ts ++ us, s', b', c', hr.append hr', .cons hR hS, ht', hs'⟩
  | case4 => simp at h

section

variable (follow : Token → Prop)
  (hfirst : ∀ ⦃s s' ts⦄, R s ts s' → ∃ t us b, ts = t :: us ∧ test t = some b)
  (hstep : ∀ ⦃s s' b c d ts⦄, test c.current = some b → c.Reads ts d → R s ts s' →
    follow d.current → step s b c = .ok s' d)
  (hnext : ∀ ⦃t b⦄, test t = some b → follow t)
include hfirst hstep hnext

/-- A repetition reads steps in a row, if the test succeeds where a step begins, and goes on behind
them. -/
theorem foldWhile_resume {s s' : σ} {c d : Cursor} {ts : List Token} (hS : Steps R s ts s')
    (hr : c.Reads ts d) (hf : follow d.current) :
    foldWhile test step s c = foldWhile test step s' d := by
  induction hS generalizing c with
  | nil =>
    obtain rfl : c = d := hr
    rfl
  | cons hR hS ih =>
    obtain ⟨c₁, hr₁, hr₂⟩ := Cursor.reads_append.1 hr
    obtain ⟨t, us, b, rfl, ht⟩ := hfirst hR
    obtain rfl : c.current = t := hr₁.1
    have hf₁ : follow c₁.current := by
      cases hS with
      | nil =>
        obtain rfl : c₁ = d := hr₂
        exact hf
      | cons hR' hS' =>
        obtain ⟨t', us', b', rfl, ht'⟩ := hfirst hR'
        obtain rfl : c₁.current = t' := hr₂.1
        exact hnext ht'
    rw [foldWhile_of_ok ht (hstep ht hr₁ hR hf₁) hr₁.remaining_lt]
    exact ih hr₂

theorem foldWhile_complete {s s' : σ} {c d : Cursor} {ts : List Token} (hS : Steps R s ts s')
    (hr : c.Reads ts d) (hd : test d.current = none) (hf : follow d.current) :
    foldWhile test step s c = .ok s' d :=
  (foldWhile_resume follow hfirst hstep hnext hS hr hf).trans (foldWhile_of_none hd)

end

end

/-- One more item in front of those read before, as `many` collects them. -/
private def Collects (P : Phrase α) (items : List α) (ts : List Token) (items' : List α) : Prop :=
  ∃ a, P ts a ∧ items' = a :: items

private theorem steps_collects_iff {P : Phrase α} {before items : List α} {ts : List Token} :
    Steps (Collects P) before ts items ↔ ∃ as, Many P ts as ∧ items = as.reverse ++ before := by
  constructor
  · intro h
    induction h with
    | nil => exact ⟨[], .nil, rfl⟩
    | cons hR _ ih =>
      obtain ⟨a, ha, rfl⟩ := hR
      obtain ⟨as, has, rfl⟩ := ih
      exact ⟨a :: as, .cons ha has, by simp⟩
  · rintro ⟨as, h, rfl⟩
    induction h generalizing before with
    | nil => exact .nil
    | cons ha _ ih =>
      rw [List.reverse_cons, List.append_assoc]
      exact .cons ⟨_, ha, rfl⟩ ih

section

variable {test : Token → Option β} {item : β → Rule α} {P : Phrase α}

private theorem collects_of_item
    (hitem : ∀ ⦃b c d a⦄, test c.current = some b → item b c = .ok a d →
      ∃ t ts, c.Reads (t :: ts) d ∧ P (t :: ts) a)
    ⦃s s' : List α⦄ ⦃b : β⦄ ⦃c d : Cursor⦄ (ht : test c.current = some b)
    (hs : (do return (← item b) :: s : Rule (List α)) c = .ok s' d) :
    ∃ t ts, c.Reads (t :: ts) d ∧ Collects P s (t :: ts) s' := by
  simp only [bind_eq_ok, pure_eq_ok] at hs
  obtain ⟨a, d, hs, rfl, rfl⟩ := hs
  obtain ⟨t, ts, hr, hP⟩ := hitem ht hs
  exact ⟨t, ts, hr, a, hP, rfl⟩

theorem many_sound
    (hitem : ∀ ⦃b c d a⦄, test c.current = some b → item b c = .ok a d →
      ∃ t ts, c.Reads (t :: ts) d ∧ P (t :: ts) a)
    {c d : Cursor} {as : List α} (h : many test item c = .ok as d) :
    ∃ ts, c.Reads ts d ∧ Many P ts as ∧ test d.current = none := by
  simp only [many, bind_eq_ok, pure_eq_ok] at h
  obtain ⟨items, d', h, rfl, rfl⟩ := h
  obtain ⟨ts, hr, hS, hd⟩ := foldWhile_sound (collects_of_item hitem) h
  obtain ⟨as, hM, rfl⟩ := steps_collects_iff.1 hS
  exact ⟨ts, hr, by simpa using hM, hd⟩

theorem many_failed
    (hitem : ∀ ⦃b c d a⦄, test c.current = some b → item b c = .ok a d →
      ∃ t ts, c.Reads (t :: ts) d ∧ P (t :: ts) a)
    {c d : Cursor} {e : Diagnostic} (h : many test item c = .error e d) :
    ∃ ts as b c', c.Reads ts c' ∧ Many P ts as ∧ test c'.current = some b ∧
      item b c' = .error e d := by
  simp only [many, bind_eq_error, pure_eq_error, and_false, exists_false, or_false] at h
  obtain ⟨ts, items, b, c', hr, hS, ht, hs⟩ := foldWhile_failed (collects_of_item hitem) h
  obtain ⟨as, hM, rfl⟩ := steps_collects_iff.1 hS
  simp only [bind_eq_error, pure_eq_error, and_false, exists_false, or_false] at hs
  exact ⟨ts, as, b, c', hr, hM, ht, hs⟩

section

variable (follow : Token → Prop)
  (hfirst : ∀ ⦃ts a⦄, P ts a → ∃ t us b, ts = t :: us ∧ test t = some b)
  (hitem : ∀ ⦃b c d ts a⦄, test c.current = some b → c.Reads ts d → P ts a → follow d.current →
    item b c = .ok a d)
  (hnext : ∀ ⦃t b⦄, test t = some b → follow t)
include hfirst hitem hnext

private theorem foldWhile_collects_resume {c d : Cursor} {ts : List Token} {as : List α}
    (hM : Many P ts as) (hr : c.Reads ts d) (hf : follow d.current) :
    foldWhile test (fun items b => return (← item b) :: items) [] c =
      foldWhile test (fun items b => return (← item b) :: items) as.reverse d := by
  have hS : Steps (Collects P) [] ts as.reverse :=
    steps_collects_iff.2 ⟨as, hM, (List.append_nil _).symm⟩
  refine foldWhile_resume follow (fun _ _ _ ⟨_, hP, _⟩ => hfirst hP) ?_ hnext hS hr hf
  rintro s s' b c d ts ht hr ⟨a, hP, rfl⟩ hf
  simp only [bind_eq_ok, pure_eq_ok]
  exact ⟨a, d, hitem ht hr hP hf, rfl, rfl⟩

theorem many_complete {c d : Cursor} {ts : List Token} {as : List α} (hM : Many P ts as)
    (hr : c.Reads ts d) (hd : test d.current = none) (hf : follow d.current) :
    many test item c = .ok as d := by
  simp only [many, bind_eq_ok, pure_eq_ok]
  refine ⟨as.reverse, d, ?_, List.reverse_reverse as, rfl⟩
  rw [foldWhile_collects_resume follow hfirst hitem hnext hM hr hf, foldWhile_of_none hd]

theorem many_resume
    (hsound : ∀ ⦃b c d a⦄, test c.current = some b → item b c = .ok a d →
      ∃ t ts, c.Reads (t :: ts) d ∧ P (t :: ts) a)
    {c d : Cursor} {ts : List Token} {as : List α} (hM : Many P ts as) (hr : c.Reads ts d)
    (hf : follow d.current) :
    (∀ all d', many test item c = .ok all d' → ∃ us others, d.Reads us d' ∧ Many P us others ∧
      all = as ++ others) ∧
    ∀ e d', many test item c = .error e d' → ∃ us b c', d.Reads us c' ∧
      test c'.current = some b ∧ item b c' = .error e d' := by
  have hresume := foldWhile_collects_resume follow hfirst hitem hnext hM hr hf
  refine ⟨fun all d' h => ?_, fun e d' h => ?_⟩
  · simp only [many, bind_eq_ok, pure_eq_ok] at h
    obtain ⟨items, _, h, rfl, rfl⟩ := h
    obtain ⟨us, hus, hS, -⟩ := foldWhile_sound (collects_of_item hsound) (hresume ▸ h)
    obtain ⟨others, hothers, rfl⟩ := steps_collects_iff.1 hS
    exact ⟨us, others, hus, hothers, by simp⟩
  · simp only [many, bind_eq_error, pure_eq_error, and_false, exists_false, or_false] at h
    obtain ⟨us, items, b, c', hus, -, ht, hs⟩ :=
      foldWhile_failed (collects_of_item hsound) (hresume ▸ h)
    simp only [bind_eq_error, pure_eq_error, and_false, exists_false, or_false] at hs
    exact ⟨us, b, c', hus, ht, hs⟩

end

end

/-! ## Lists in brackets -/

section

variable {item : Rule α} {P : Phrase α} {close : String}

theorem Sound.exists_cons (hitem : Sound item P) (hP : ∀ {a}, ¬ P [] a) {p : β → Cursor → Prop}
    ⦃b : β⦄ ⦃c d : Cursor⦄ ⦃a : α⦄ (_ : p b c) (hi : item c = .ok a d) :
    ∃ t ts, c.Reads (t :: ts) d ∧ P (t :: ts) a := by
  obtain ⟨ts, hr, ha⟩ := hitem hi
  cases ts with
  | nil => exact absurd ha hP
  | cons t ts => exact ⟨t, ts, hr, ha⟩

theorem Sound.after (hitem : Sound item P) {s : String} ⦃b : Unit⦄ ⦃c d : Cursor⦄ ⦃a : α⦄
    (ht : (if c.current.isSymbol s then some () else none) = some b)
    (hi : (advance *> item) c = .ok a d) :
    ∃ t ts, c.Reads (t :: ts) d ∧ After s P (t :: ts) a := by
  have hs : c.current.isSymbol s := by simpa using ht
  simp only [seqRight_eq_ok, advance_eq_ok] at hi
  obtain ⟨_, _, ⟨rfl, rfl⟩, hi⟩ := hi
  obtain ⟨vs, hr, ha⟩ := hitem hi
  exact ⟨c.current, vs, ⟨rfl, Token.not_endOfFile_of_isSymbol hs, hr⟩, .mk hs ha⟩

theorem untilSymbol_sound (hitem : Sound item P) (hP : ∀ {a}, ¬ P [] a) {c d : Cursor}
    {as : List α} (h : untilSymbol close item c = .ok as d) :
    ∃ ts, c.Reads ts d ∧ Many P ts as ∧ d.current.isSymbol close := by
  obtain ⟨ts, hr, hM, hd⟩ := many_sound (hitem.exists_cons hP) h
  exact ⟨ts, hr, hM, by simpa using hd⟩

theorem Sound.untilSymbol (hitem : Sound item P) (hP : ∀ {a}, ¬ P [] a) (close : String) :
    Sound (untilSymbol close item) (Many P) := by
  intro c d as h
  obtain ⟨ts, hr, hM, -⟩ := untilSymbol_sound hitem hP h
  exact ⟨ts, hr, hM⟩

theorem untilSymbol_complete (hitem : Complete item P fun _ => True)
    (hfirst : ∀ {ts a}, P ts a → ∃ t us, ts = t :: us ∧ t.isSymbol close = false) {c d : Cursor}
    {ts : List Token} {as : List α} (hM : Many P ts as) (hr : c.Reads ts d)
    (hd : d.current.isSymbol close) : untilSymbol close item c = .ok as d := by
  refine many_complete (fun _ => True) (fun _ _ hP => ?_)
    (fun _ _ _ _ _ _ hr hP hf => hitem hr hP hf) (fun _ _ _ => trivial) hM hr (by simp [hd]) trivial
  obtain ⟨t, us, rfl, ht⟩ := hfirst hP
  exact ⟨t, us, (), rfl, by simp [ht]⟩

theorem commaList_sound (hitem : Sound item P) {c d : Cursor} {as : List α}
    (h : commaList close item c = .ok as d) : ∃ ts, c.Reads ts d ∧ CommaList P ts as := by
  simp only [commaList, bind_eq_ok, current_eq_ok, ite_eq_ok, pure_eq_ok] at h
  obtain ⟨_, _, ⟨rfl, rfl⟩, ⟨-, rfl, rfl⟩ | ⟨-, first, c₁, hi, others, c₂, hm, rfl, rfl⟩⟩ := h
  · exact ⟨[], rfl, .nil⟩
  · obtain ⟨ts, hr, ha⟩ := hitem hi
    obtain ⟨us, hr', hM, -⟩ := many_sound hitem.after hm
    exact ⟨ts ++ us, hr.append hr', .cons ha hM⟩

theorem Sound.commaList (hitem : Sound item P) (close : String) :
    Sound (commaList close item) (CommaList P) :=
  fun _ _ _ h => commaList_sound hitem h

theorem commaList_complete {follow : Token → Prop} (hitem : Complete item P follow)
    (hfirst : ∀ {ts a}, P ts a → ∃ t us, ts = t :: us ∧ t.isSymbol close = false)
    (hcomma : ∀ {t : Token}, t.isSymbol "," → follow t) {c d : Cursor} {ts : List Token}
    {as : List α} (hL : CommaList P ts as) (hr : c.Reads ts d) (hd : d.current.isSymbol close)
    (hd' : d.current.isSymbol "," = false) (hf : follow d.current) :
    commaList close item c = .ok as d := by
  simp only [commaList, bind_eq_ok, current_eq_ok, ite_eq_ok, pure_eq_ok]
  refine ⟨_, _, ⟨rfl, rfl⟩, ?_⟩
  cases hL with
  | nil =>
    obtain rfl : c = d := hr
    exact .inl ⟨hd, rfl, rfl⟩
  | @cons ts us a as ha hM =>
    obtain ⟨c₁, hr₁, hr₂⟩ := Cursor.reads_append.1 hr
    obtain ⟨t, ts, rfl, ht⟩ := hfirst ha
    obtain rfl : c.current = t := hr₁.1
    have hf₁ : follow c₁.current := by
      cases hM with
      | nil =>
        obtain rfl : c₁ = d := hr₂
        exact hf
      | cons hA _ =>
        obtain ⟨hs, _⟩ := hA
        obtain rfl := hr₂.1
        exact hcomma hs
    refine .inr ⟨by simp [ht], a, c₁, hitem hr₁ ha hf₁, as, d, ?_, rfl, rfl⟩
    refine many_complete follow ?_ ?_ ?_ hM hr₂ (by simp [hd']) hf
    · rintro _ _ ⟨hs, _⟩
      exact ⟨_, _, (), rfl, by simp [hs]⟩
    · rintro b c d _ _ - hr ⟨hs, hA⟩ hf
      exact seqRight_eq_ok.2 ⟨_, _, rfl, hitem hr.2.2 hA hf⟩
    · intro t b ht
      exact hcomma (by simpa using ht)

end

end Rule

end SpaceLang
