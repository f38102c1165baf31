import SpaceLang.Rule.Basic

/-!
# Rules move forward

A rule stops at a cursor behind the one it began at, whether it succeeds or fails: no token is given
back. `Forward` says so by the number of tokens that remain, each primitive rule has it, and
sequences and repetitions inherit it from their parts.

`bind_congr_at` and `foldWhile_congr_at` compare two rules at one cursor; the parts have to agree
only where the run from that cursor takes them.
-/

namespace SpaceLang.Rule

variable {α β σ : Type}

/-- Where a rule that begins at `c` leaves the cursor, whether it succeeds or fails. -/
def stop (r : Rule α) (c : Cursor) : Cursor :=
  match r c with
  | .ok _ c' => c'
  | .error _ c' => c'

theorem stop_of_ok {r : Rule α} {c c' : Cursor} {a : α} (h : r c = .ok a c') : stop r c = c' := by
  simp [stop, h]

theorem stop_of_error {r : Rule α} {c c' : Cursor} {e : Diagnostic} (h : r c = .error e c') :
    stop r c = c' := by
  simp [stop, h]

/-- A rule that never gives a token back. -/
def Forward (r : Rule α) : Prop :=
  ∀ c, (stop r c).remaining ≤ c.remaining

theorem Forward.of_ok {r : Rule α} (hr : Forward r) {c c' : Cursor} {a : α} (h : r c = .ok a c') :
    c'.remaining ≤ c.remaining :=
  stop_of_ok h ▸ hr c

/-! ## Sequences -/

theorem bind_of_ok {r : Rule α} {f : α → Rule β} {c c' : Cursor} {a : α} (h : r c = .ok a c') :
    (r >>= f) c = f a c' := by
  show EStateM.bind r f c = f a c'
  simp [EStateM.bind, h]

theorem bind_of_error {r : Rule α} {f : α → Rule β} {c c' : Cursor} {e : Diagnostic}
    (h : r c = .error e c') : (r >>= f) c = .error e c' := by
  show EStateM.bind r f c = _
  simp [EStateM.bind, h]

theorem bind_congr_at {r r' : Rule α} {f f' : α → Rule β} {c : Cursor} (hr : r c = r' c)
    (hf : ∀ a c', r c = .ok a c' → f a c' = f' a c') : (r >>= f) c = (r' >>= f') c := by
  cases h : r c with
  | ok a c' => rw [bind_of_ok h, bind_of_ok (hr ▸ h), hf a c' h]
  | error e c' => rw [bind_of_error h, bind_of_error (hr ▸ h)]

theorem forward_pure (a : α) : Forward (pure a : Rule α) :=
  fun _ => Nat.le_refl _

theorem Forward.bind {r : Rule α} {f : α → Rule β} (hr : Forward r) (hf : ∀ a, Forward (f a)) :
    Forward (r >>= f) := by
  intro c
  cases h : r c with
  | ok a c' =>
    have : stop (r >>= f) c = stop (f a) c' := by simp only [stop, bind_of_ok h]
    exact this ▸ Nat.le_trans (hf a c') (hr.of_ok h)
  | error e c' =>
    have : stop (r >>= f) c = c' := stop_of_error (bind_of_error h)
    exact this ▸ stop_of_error h ▸ hr c

theorem Forward.seqRight {r : Rule α} {s : Rule β} (hr : Forward r) (hs : Forward s) :
    Forward (r *> s) :=
  hr.bind fun _ => hs

theorem Forward.ite {p : Prop} [Decidable p] {r s : Rule α} (hr : Forward r) (hs : Forward s) :
    Forward (if p then r else s) := by
  split
  · exact hr
  · exact hs

/-! ## Single tokens -/

theorem forward_current : Forward current :=
  fun _ => Nat.le_refl _

theorem forward_peek (n : Nat) : Forward (peek n) :=
  fun _ => Nat.le_refl _

theorem forward_advance : Forward advance :=
  fun c => c.remaining_advance_le

theorem forward_fail (cause : Token → Cause) : Forward (fail cause : Rule α) :=
  fun _ => Nat.le_refl _

theorem forward_spanFrom (start : Position) : Forward (spanFrom start) :=
  fun _ => Nat.le_refl _

theorem forward_accept (test : Token → Bool) (expected : String) :
    Forward (accept test expected) :=
  forward_current.bind fun _ => .ite forward_advance (forward_fail _)

theorem forward_symbol (s : String) : Forward (symbol s) :=
  forward_accept _ _

/-! ## Repetition -/

theorem foldWhile_of_none {test : Token → Option β} {step : σ → β → Rule σ} {s : σ} {c : Cursor}
    (h : test c.current = none) : foldWhile test step s c = .ok s c := by
  rw [foldWhile, h]

theorem foldWhile_of_error {test : Token → Option β} {step : σ → β → Rule σ} {s : σ} {b : β}
    {e : Diagnostic} {c c' : Cursor} (h : test c.current = some b)
    (hs : step s b c = .error e c') : foldWhile test step s c = .error e c' := by
  rw [foldWhile]
  simp only [h, hs]

theorem foldWhile_of_ok {test : Token → Option β} {step : σ → β → Rule σ} {s s' : σ} {b : β}
    {c c' : Cursor} (h : test c.current = some b) (hs : step s b c = .ok s' c')
    (hc : c'.remaining < c.remaining) :
    foldWhile test step s c = foldWhile test step s' c' := by
  rw [foldWhile]
  simp only [h, hs, if_pos hc]

/-- Two repetitions agree from a cursor on if their steps do. -/
theorem foldWhile_congr_at {test : Token → Option β} {step step' : σ → β → Rule σ} {s : σ}
    {c : Cursor}
    (h : ∀ s b c', c'.remaining ≤ c.remaining → step s b c' = step' s b c') :
    foldWhile test step s c = foldWhile test step' s c := by
  fun_induction foldWhile test step s c with
  | case1 s c ht => rw [foldWhile_of_none ht]
  | case2 s c b ht e c' hs =>
    rw [foldWhile_of_error ht (h s b c (Nat.le_refl _) ▸ hs)]
  | case3 s c b ht s' c' hs hc ih =>
    rw [foldWhile_of_ok ht (h s b c (Nat.le_refl _) ▸ hs) hc]
    exact ih fun s b d hd => h s b d (Nat.le_trans hd (Nat.le_of_lt hc))
  | case4 s c b ht s' c' hs hc =>
    rw [foldWhile]
    simp only [ht, ← h s b c (Nat.le_refl _), hs, if_neg hc]

theorem Forward.foldWhile {test : Token → Option β} {step : σ → β → Rule σ}
    (h : ∀ s b, Forward (step s b)) (s : σ) : Forward (foldWhile test step s) := by
  intro c
  fun_induction Rule.foldWhile test step s c with
  | case1 s c ht => exact Nat.le_of_eq (by rw [stop_of_ok (foldWhile_of_none ht)])
  | case2 s c b ht e c' hs =>
    rw [stop_of_error (foldWhile_of_error ht hs), ← stop_of_error hs]
    exact h s b c
  | case3 s c b ht s' c' hs hc ih =>
    have : stop (Rule.foldWhile test step s) c = stop (Rule.foldWhile test step s') c' := by
      simp only [stop, foldWhile_of_ok ht hs hc]
    exact this ▸ Nat.le_trans ih (Nat.le_of_lt hc)
  | case4 s c b ht s' c' hs hc =>
    have : Rule.foldWhile test step s c = .ok s' c' := by
      rw [Rule.foldWhile]
      simp only [ht, hs, if_neg hc]
    rw [stop_of_ok this, ← stop_of_ok hs]
    exact h s b c

theorem Forward.many {test : Token → Option β} {item : β → Rule α}
    (h : ∀ b, Forward (item b)) : Forward (many test item) :=
  (Forward.foldWhile (fun _ b => (h b).bind fun _ => forward_pure _) _).bind
    fun _ => forward_pure _

theorem many_congr_at {test : Token → Option β} {item item' : β → Rule α} {c : Cursor}
    (h : ∀ b c', c'.remaining ≤ c.remaining → item b c' = item' b c') :
    many test item c = many test item' c :=
  bind_congr_at
    (foldWhile_congr_at fun _ b c' hc => bind_congr_at (h b c' hc) fun _ _ _ => rfl)
    fun _ _ _ => rfl

theorem Forward.commaList {item : Rule α} (h : Forward item) (close : String) :
    Forward (commaList close item) :=
  forward_current.bind fun _ => .ite (forward_pure _) <|
    h.bind fun _ => (Forward.many fun _ => forward_advance.seqRight h).bind fun _ => forward_pure _

theorem commaList_congr_at {item item' : Rule α} {close : String} {c : Cursor} (hf : Forward item)
    (h : ∀ c', c'.remaining ≤ c.remaining → item c' = item' c') :
    commaList close item c = commaList close item' c := by
  refine bind_congr_at rfl fun t c₁ h₁ => ?_
  cases h₁
  split
  · rfl
  · refine bind_congr_at (h c (Nat.le_refl _)) fun first c₂ h₂ => ?_
    refine bind_congr_at (many_congr_at fun _ c₃ hc => ?_) fun _ _ _ => rfl
    show (advance >>= fun _ => item) c₃ = (advance >>= fun _ => item') c₃
    refine bind_congr_at rfl fun _ c₄ h₄ => h c₄ ?_
    exact Nat.le_trans (forward_advance.of_ok h₄) (Nat.le_trans hc (hf.of_ok h₂))

end SpaceLang.Rule
