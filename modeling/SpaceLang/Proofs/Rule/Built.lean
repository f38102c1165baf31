import SpaceLang.Proofs.Diagnostic.About
import SpaceLang.Proofs.Grammar.Stmt
import SpaceLang.Proofs.Rule.Window
import SpaceLang.Proofs.Tree.Spans

/-!
# How the rules are built

A rule is built from primitive rules by sequences and repetitions, and what holds of every rule is
shown along the way it is built. `Built f u g r r' c` is that way for the run of the rule `r` from
the cursor `c`, on the terms `u`. It compares two rules: `r'` is built in the same way as `r` and
reads the same tokens with `f` applied to their positions, so that it returns `g a` where `r`
returns `a`. A rule decides by the kinds and the values of tokens, so most rules are compared with
themselves; the others are given a position, or something read before, when they begin.

That a rule of the language is built so is shown once, in `SpaceLang.Proofs.Rule.Traverse`. What
follows from it is an induction with a case for each constructor; the first two are here, that a
run reads tokens one by one (`Built.reads`) and that it has consumed one if its terms say so
(`Built.gains`).
-/

namespace SpaceLang.Rule

/-- What is asked of a run, and what is known where it begins. -/
structure Terms where
  /-- The names in its causes are to be those of identifiers of the list. -/
  named : Prop
  /-- No rule is to consume the word `let` but the declaration that it begins. -/
  tested : Prop
  /-- The run is to consume a token if it succeeds. -/
  gains : Prop
  /-- A token has been consumed before the run, so its end may be looked at. -/
  behind : Prop

/-- The terms that ask for nothing. -/
def Terms.plain : Terms := ⟨False, False, False, False⟩

/-- The way in which a run of a rule is built. What a part is given, and the terms that it is on,
hold where it begins: behind the parts before it, which have succeeded. -/
inductive Built (f : Position → Position) :
    {α : Type} → Terms → (α → α) → Rule α → Rule α → Cursor → Prop
  | pure {α : Type} {u : Terms} {g : α → α} {a a' : α} {c : Cursor} :
      ¬ u.gains → a' = g a → Built f u g (pure a) (pure a') c
  | bind {α β : Type} {u : Terms} {g : α → α} {h : β → β} {r r' : Rule α} {k k' : α → Rule β}
      {c : Cursor} {gains₁ gains₂ behind₂ : Prop} :
      (u.gains → gains₁ ∨ gains₂) → (behind₂ → u.behind ∨ gains₁) →
      Built f { u with gains := gains₁ } g r r' c →
      (∀ a d, r c = .ok a d →
        Built f { u with gains := gains₂, behind := behind₂ } h (k a) (k' (g a)) d) →
      Built f u h (r >>= k) (r' >>= k') c
  /-- What a rule does first may depend on the next three tokens. -/
  | look {α : Type} {u : Terms} {g : α → α} {r r' s s' : Rule α} {c : Cursor} :
      r c = s c → (∀ c', c.Matches f 3 c' → r' c' = s' c') → Built f u g s s' c →
      Built f u g r r' c
  | advance {u : Terms} {c : Cursor} : (u.gains → c.current.isEndOfFile = false) →
      (u.tested → c.current.isKeyword "let" = false) →
      Built f u (Token.mapSpan (Span.map f)) advance advance c
  | fail {α : Type} {u : Terms} {g : α → α} {cause : Token → Cause} {c : Cursor} :
      cause (c.current.mapSpan (Span.map f)) = cause c.current →
      (cause c.current).Describes c.current → (cause c.current).Fits c.current →
      (u.named → ∀ name ∈ (cause c.current).names, IsNamed c.toList name) →
      (u.tested → ∀ name, cause c.current ≠ .missingInitializer name) →
      Built f u g (fail cause) (fail cause) c
  | spanFrom {u : Terms} {c : Cursor} (start : Position) : ¬ u.gains → u.behind →
      Built f u (Span.map f) (spanFrom start) (spanFrom (f start)) c
  /-- A repetition takes one step after another, each of which consumes a token. -/
  | step {β σ : Type} {u : Terms} {g : σ → σ} {test : Token → Option β}
      {step step' : σ → β → Rule σ} {s : σ} {b : β} {c : Cursor} :
      ¬ u.gains → (∀ t : Token, test (t.mapSpan (Span.map f)) = test t) →
      test c.current = some b →
      (∀ s' d, step s b c = .ok s' d → d.remaining < c.remaining) →
      Built f { u with gains := True } g (step s b) (step' (g s) b) c →
      (∀ s' d, step s b c = .ok s' d →
        Built f u g (foldWhile test step s') (foldWhile test step' (g s')) d) →
      Built f u g (foldWhile test step s) (foldWhile test step' (g s)) c
  /-- The declaration behind the word `let`, which is consumed without a test. -/
  | declare {u : Terms} {g : Stmt → Stmt} {c : Cursor} : c.current.isKeyword "let" →
      (∀ d, Built f { u with gains := False, behind := False } (Expr.mapSpan (Span.map f)) expr
        expr d) →
      Built f { u with tested := False } g implicitVariable implicitVariable c →
      Built f u g implicitVariable implicitVariable c

variable {α β σ : Type} {f : Position → Position} {u : Terms} {g : α → α} {h : β → β}
  {r r' s s' : Rule α} {k k' : α → Rule β} {c d : Cursor}

/-! ## What is read -/

theorem foldWhile_eq_bind {test : Token → Option β} {step : σ → β → Rule σ} {s : σ} {b : β}
    (ht : test c.current = some b)
    (hless : ∀ s' d, step s b c = .ok s' d → d.remaining < c.remaining) :
    foldWhile test step s c = (step s b >>= fun s' => foldWhile test step s') c := by
  cases hrun : step s b c with
  | ok s' d => rw [bind_of_ok hrun, foldWhile_of_ok ht hrun (hless s' d hrun)]
  | error e d => rw [bind_of_error hrun, foldWhile_of_error ht hrun]

theorem reads_bind (hr : ∃ ts, c.Reads ts (stop r c))
    (hk : ∀ a d, r c = .ok a d → ∃ ts, d.Reads ts (stop (k a) d)) :
    ∃ ts, c.Reads ts (stop (r >>= k) c) := by
  obtain ⟨ts, hts⟩ := hr
  cases hrun : r c with
  | ok a d =>
    obtain ⟨us, hus⟩ := hk a d hrun
    rw [stop_of_ok hrun] at hts
    have hstop : stop (r >>= k) c = stop (k a) d := by rw [stop, bind_of_ok hrun, stop]
    exact ⟨ts ++ us, hstop ▸ hts.append hus⟩
  | error e d =>
    rw [stop_of_error hrun] at hts
    exact ⟨ts, stop_of_error (bind_of_error hrun) ▸ hts⟩

theorem exists_reads_advance (c : Cursor) : ∃ ts, c.Reads ts c.advance := by
  cases hc : c.current.isEndOfFile with
  | true => exact ⟨[], (Cursor.advance_of_endOfFile hc).symm⟩
  | false => exact ⟨[c.current], .current hc⟩

/-- Every run reads tokens, up to where it succeeds or fails. -/
theorem Built.reads (hr : Built f u g r r' c) : ∃ ts, c.Reads ts (stop r c) := by
  induction hr with
  | pure => exact ⟨[], rfl⟩
  | bind _ _ _ _ ihr ihk => exact reads_bind ihr ihk
  | look hrun _ _ ih =>
    rw [stop, hrun]
    exact ih
  | advance => exact exists_reads_advance _
  | fail => exact ⟨[], rfl⟩
  | spanFrom => exact ⟨[], rfl⟩
  | step _ _ ht hless _ _ ihstep ihrest =>
    rw [stop, foldWhile_eq_bind ht hless]
    exact reads_bind ihstep ihrest
  | declare _ _ _ _ ih => exact ih

theorem Built.reads_of_ok {a : α} (hr : Built f u g r r' c) (hrun : r c = .ok a d) :
    ∃ ts, c.Reads ts d :=
  stop_of_ok hrun ▸ hr.reads

theorem Built.reads_of_error {e : Diagnostic} (hr : Built f u g r r' c)
    (hrun : r c = .error e d) : ∃ ts, c.Reads ts d :=
  stop_of_error hrun ▸ hr.reads

/-- A run that is to consume a token has done so where it succeeds. -/
theorem Built.gains (hr : Built f u g r r' c) (hgains : u.gains) {a : α} (hrun : r c = .ok a d) :
    d.remaining < c.remaining := by
  induction hr generalizing d with
  | pure hnone => exact absurd hgains hnone
  | bind hpart _ hr hk ihr ihk =>
    obtain ⟨b, c', hb, ha⟩ := bind_eq_ok.1 hrun
    obtain ⟨ts, hts⟩ := hr.reads_of_ok hb
    obtain ⟨us, hus⟩ := (hk b c' hb).reads_of_ok ha
    rcases hpart hgains with hfirst | hsecond
    · exact Nat.lt_of_le_of_lt hus.remaining_le (ihr hfirst hb)
    · exact Nat.lt_of_lt_of_le (ihk b c' hb hsecond ha) hts.remaining_le
  | look hsame _ _ ih => exact ih hgains (hsame ▸ hrun)
  | advance hend =>
    obtain ⟨-, rfl⟩ := advance_eq_ok.1 hrun
    exact Cursor.remaining_advance_lt (hend hgains)
  | fail => exact (fail_eq_ok.1 hrun).elim
  | spanFrom _ hnone => exact absurd hgains hnone
  | step hnone => exact absurd hgains hnone
  | declare _ _ _ _ ih => exact ih hgains hrun

/-! ## Parts -/

namespace Built

theorem next (hr : Built f { u with gains := False } g r r' c)
    (hk : ∀ a d, r c = .ok a d → Built f u h (k a) (k' (g a)) d) :
    Built f u h (r >>= k) (r' >>= k') c :=
  .bind .inr .inl hr hk

/-- What follows a part that consumes a token, which may be looked back at. -/
theorem after (hr : Built f { u with gains := True } g r r' c)
    (hk : ∀ a d, r c = .ok a d →
      Built f { u with gains := False, behind := True } h (k a) (k' (g a)) d) :
    Built f u h (r >>= k) (r' >>= k') c :=
  .bind (fun _ => .inl trivial) (fun _ => .inr trivial) hr hk

theorem map {m : α → β} (hm : ∀ a, m (g a) = h (m a)) (hr : Built f u g r r' c) :
    Built f u h (m <$> r) (m <$> r') c :=
  .bind .inl (fun hb => .inl hb) hr fun a _ _ => .pure id (hm a)

theorem ite {p : Prop} [Decidable p] (hr : p → Built f u g r r' c)
    (hs : ¬ p → Built f u g s s' c) :
    Built f u g (if p then r else s) (if p then r' else s') c := by
  by_cases hp : p
  · rw [if_pos hp, if_pos hp]
    exact hr hp
  · rw [if_neg hp, if_neg hp]
    exact hs hp

theorem foldWhile {test : Token → Option β} {step step' : σ → β → Rule σ} {g : σ → σ}
    (hu : ¬ u.gains) (htest : ∀ t : Token, test (t.mapSpan (Span.map f)) = test t) (s : σ)
    (hstep : ∀ s b ts d, c.Reads ts d → test d.current = some b →
      Built f { u with gains := True } g (step s b) (step' (g s) b) d) :
    Built f u g (Rule.foldWhile test step s) (Rule.foldWhile test step' (g s)) c := by
  -- Every step leaves fewer tokens for the rest of the repetition.
  induction hn : c.remaining using Nat.strongRecOn generalizing c s with
  | _ n ih =>
    subst hn
    cases ht : test c.current with
    | none =>
      have hs : Built f u g (Pure.pure s) (Pure.pure (g s)) c := .pure hu rfl
      refine .look (foldWhile_of_none ht) (fun c' hc' => foldWhile_of_none ?_) hs
      rw [hc'.current, htest, ht]
    | some b =>
      have hfirst := hstep s b [] c rfl ht
      have hless := fun s' d (hrun : step s b c = .ok s' d) => hfirst.gains trivial hrun
      refine .step hu htest ht hless hfirst fun s' d hrun => ?_
      obtain ⟨ts, hts⟩ := hfirst.reads_of_ok hrun
      refine ih _ (hless s' d hrun) s' (fun s b us e he => ?_) rfl
      exact hstep s b (ts ++ us) e (hts.append he)

theorem of_current {k k' : Token → Rule α}
    (hk : Built f u g (k c.current) (k' (c.current.mapSpan (Span.map f))) c) :
    Built f u g (current >>= k) (current >>= k') c := by
  refine .look ?_ (fun c' hc' => ?_) hk
  · rfl
  · rw [← hc'.current]
    rfl

theorem consume {k k' : Token → Rule α} (hend : c.current.isEndOfFile = false)
    (hlet : u.tested → c.current.isKeyword "let" = false)
    (hk : Built f { u with gains := False, behind := True } g (k c.current)
      (k' (c.current.mapSpan (Span.map f))) c.advance) :
    Built f u g (Rule.advance >>= k) (Rule.advance >>= k') c := by
  refine .after (.advance (fun _ => hend) hlet) fun t d h => ?_
  obtain ⟨rfl, rfl⟩ := advance_eq_ok.1 h
  exact hk

/-- What follows the current token, of which it is not known that there is a next one. -/
theorem pass {k k' : Token → Rule α} (hlet : u.tested → c.current.isKeyword "let" = false)
    (hk : Built f u g (k c.current) (k' (c.current.mapSpan (Span.map f))) c.advance) :
    Built f u g (Rule.advance >>= k) (Rule.advance >>= k') c := by
  refine .next (.advance False.elim hlet) fun t d h => ?_
  obtain ⟨rfl, rfl⟩ := advance_eq_ok.1 h
  exact hk

theorem fail_bind {cause : Token → Cause}
    (hr : Built f { u with gains := False } g (Rule.fail cause) (Rule.fail cause) c) :
    Built f u h (Rule.fail cause >>= k) (Rule.fail cause >>= k') c :=
  hr.next fun _ _ hrun => (fail_eq_ok.1 hrun).elim

theorem refuse {cause : Token → Cause}
    (hcause : cause (c.current.mapSpan (Span.map f)) = cause c.current)
    (hdescribes : (cause c.current).Describes c.current) (hfits : (cause c.current).Fits c.current)
    (hnames : (cause c.current).names = []) :
    Built f u g (Rule.fail cause) (Rule.fail cause) c := by
  refine .fail hcause hdescribes hfits (fun _ => ?_) fun _ => Cause.ne_missingInitializer hnames
  simp [hnames]

theorem missing {expected : String} (h : expected ∈ Cause.expectations) :
    Built f u g (Rule.fail (missing expected)) (Rule.fail (missing expected)) c :=
  .refuse rfl (describes_missing _ _) (fits_missing h _) (names_missing _ _)

theorem accept {test : Token → Bool} {expected : String}
    (htest : ∀ t : Token, test (t.mapSpan (Span.map f)) = test t)
    (hend : test c.current → c.current.isEndOfFile = false)
    (hlet : test c.current → c.current.isKeyword "let" = false)
    (h : expected ∈ Cause.expectations) :
    Built f u (Token.mapSpan (Span.map f)) (accept test expected) (accept test expected) c := by
  apply of_current
  rw [htest]
  exact .ite (fun ht => .advance (fun _ => hend ht) fun _ => hlet ht) fun _ => .missing h

end Built

end SpaceLang.Rule
