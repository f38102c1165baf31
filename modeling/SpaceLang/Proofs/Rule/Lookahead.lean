import SpaceLang.Proofs.Rule.Traverse

/-!
# No rule looks farther than three tokens ahead

What a rule does is settled by the tokens that it reads and the three behind them, of those up to
the next end marker (`LooksAhead`). Neither the tokens behind these nor those consumed before have a
part in it, and of their positions only those in what is made of them (`LocalAt`).

Only `spanFrom` looks back, at the token consumed last. So `LocalAt f back g r r' c` compares the
run of `r` from `c` with the runs of `r'` from cursors that have the same tokens ahead, with `f`
applied to their positions, and, if `back` holds, also the same end of the last token. Behind a rule
that consumes a token one may look back (`LocalAt.bind`). The rules of the language look back only
where they have consumed something.
-/

namespace SpaceLang

namespace Rule

variable {α β σ : Type}

/-- A result with another cursor behind it. -/
def moveTo (d : Cursor) :
    EStateM.Result Diagnostic Cursor α → EStateM.Result Diagnostic Cursor α
  | .ok a _ => .ok a d
  | .error e _ => .error e d

/-- What the rule does from a cursor, it does from every cursor that has the same tokens ahead, as
many as it reads and three more. -/
def LooksAhead (r : Rule α) : Prop :=
  ∀ c, ∃ ts, c.Reads ts (stop r c) ∧ ∀ c', c.ahead (ts.length + 3) = c'.ahead (ts.length + 3) →
    ∃ d', c'.Reads ts d' ∧ r c' = moveTo d' (r c)

/-- A result with `f` applied to the position of its diagnostic, `g` to what was read, and another
cursor behind it. -/
def relocateTo (f : Position → Position) (g : α → α) (d : Cursor) :
    EStateM.Result Diagnostic Cursor α → EStateM.Result Diagnostic Cursor α
  | .ok a _ => .ok (g a) d
  | .error e _ => .error (e.map f) d

/-- What the rule `r` does from `c`, the rule `r'` does from every cursor that has the same tokens
ahead but for positions and, if `back` holds, has consumed a token that ends at the same place. -/
def LocalAt (f : Position → Position) (back : Prop) (g : α → α) (r r' : Rule α) (c : Cursor) :
    Prop :=
  ∃ ts, c.Reads ts (stop r c) ∧ ∀ c', (back → c'.previousEnd = f c.previousEnd) →
    c.Matches f (ts.length + 3) c' →
      ∃ d', c'.Reads (ts.map (Token.mapSpan (Span.map f))) d' ∧ r' c' = relocateTo f g d' (r c)

variable {f : Position → Position} {back back' : Prop} {u : Terms} {g : α → α} {h : β → β}
  {r r' s s' : Rule α} {k k' : α → Rule β} {c d : Cursor}

/-! ## Two runs -/

theorem LocalAt.run_ok {a : α} (hr : LocalAt f back g r r' c) (hrun : r c = .ok a d) :
    ∃ ts, c.Reads ts d ∧ ∀ c' n, (back → c'.previousEnd = f c.previousEnd) →
      c.Matches f (ts.length + (n + 3)) c' →
        ∃ d', c'.Reads (ts.map (Token.mapSpan (Span.map f))) d' ∧ r' c' = .ok (g a) d' ∧
          d.Matches f (n + 3) d' := by
  obtain ⟨ts, hts, hrun'⟩ := hr
  rw [stop_of_ok hrun] at hts
  refine ⟨ts, hts, fun c' n hprev hahead => ?_⟩
  obtain ⟨d', hd', hr'⟩ := hrun' c' hprev (hahead.mono (by omega))
  obtain ⟨d₁, hd₁, hahead'⟩ := hts.transfer hahead
  obtain rfl := hd'.unique hd₁
  rw [hrun] at hr'
  exact ⟨d', hd', hr', hahead'⟩

theorem LocalAt.run_error {e : Diagnostic} (hr : LocalAt f back g r r' c)
    (hrun : r c = .error e d) :
    ∃ ts, c.Reads ts d ∧ ∀ c', (back → c'.previousEnd = f c.previousEnd) →
      c.Matches f (ts.length + 3) c' →
        ∃ d', c'.Reads (ts.map (Token.mapSpan (Span.map f))) d' ∧
          r' c' = .error (e.map f) d' := by
  obtain ⟨ts, hts, hrun'⟩ := hr
  rw [stop_of_error hrun] at hts
  rw [hrun] at hrun'
  exact ⟨ts, hts, hrun'⟩

theorem LocalAt.of_error {e : Diagnostic} {ts : List Token} (hrun : r c = .error e d)
    (hts : c.Reads ts d) (hrun' : ∀ c', (back → c'.previousEnd = f c.previousEnd) →
      c.Matches f (ts.length + 3) c' →
        ∃ d', c'.Reads (ts.map (Token.mapSpan (Span.map f))) d' ∧
          r' c' = .error (e.map f) d') : LocalAt f back g r r' c := by
  refine ⟨ts, (stop_of_error hrun).symm ▸ hts, ?_⟩
  rw [hrun]
  exact hrun'

/-! ## Primitive rules -/

theorem LocalAt.of_stays (hstop : stop r c = c)
    (hrun : ∀ c', (back → c'.previousEnd = f c.previousEnd) → c.Matches f 3 c' →
      r' c' = relocateTo f g c' (r c)) : LocalAt f back g r r' c :=
  ⟨[], hstop.symm, fun c' hprev hahead => ⟨c', rfl, hrun c' hprev hahead⟩⟩

theorem localAt_pure {a a' : α} (ha : a' = g a) : LocalAt f back g (pure a) (pure a') c := by
  refine .of_stays rfl fun c' _ _ => ?_
  rw [ha]
  rfl

theorem localAt_advance :
    LocalAt f back (Token.mapSpan (Span.map f)) advance advance c := by
  cases hc : c.current.isEndOfFile with
  | true =>
    refine .of_stays (Cursor.advance_of_endOfFile hc) fun c' _ hahead => ?_
    have hcur := hahead.current
    have hc' : c'.current.isEndOfFile := by
      rw [hcur]
      exact hc
    rw [advance, Cursor.advance_of_endOfFile hc', hcur]
    rfl
  | false =>
    refine ⟨[c.current], .current hc, fun c' _ hahead => ⟨c'.advance, ?_, ?_⟩⟩
    · exact ⟨hahead.current, hc, rfl⟩
    · rw [advance, hahead.current]
      rfl

theorem localAt_fail {cause : Token → Cause}
    (hcause : cause (c.current.mapSpan (Span.map f)) = cause c.current) :
    LocalAt f back g (fail cause) (fail cause) c := by
  refine .of_stays rfl fun c' _ hahead => ?_
  rw [fail, hahead.current, hcause]
  rfl

theorem localAt_spanFrom (hback : back) (start : Position) :
    LocalAt f back (Span.map f) (spanFrom start) (spanFrom (f start)) c := by
  refine .of_stays rfl fun c' hprev _ => ?_
  rw [spanFrom, hprev hback]
  rfl

/-! ## Sequences and repetitions -/

theorem LocalAt.look (hs : LocalAt f back g s s' c) (hrun : r c = s c)
    (hrun' : ∀ c', c.Matches f 3 c' → r' c' = s' c') : LocalAt f back g r r' c := by
  obtain ⟨ts, hts, hlocal⟩ := hs
  refine ⟨ts, ?_, fun c' hprev hahead => ?_⟩
  · rwa [stop, hrun]
  · rw [hrun' c' (hahead.mono (Nat.le_add_left ..)), hrun]
    exact hlocal c' hprev hahead

/-- A sequence is local if its second part is, which may look back at what the first one has
consumed. -/
theorem LocalAt.bind (hr : LocalAt f back g r r' c)
    (hback : back' → back ∨ ∀ a d, r c = .ok a d → d.remaining < c.remaining)
    (hk : ∀ a d, r c = .ok a d → LocalAt f back' h (k a) (k' (g a)) d) :
    LocalAt f back h (r >>= k) (r' >>= k') c := by
  cases hrun : r c with
  | error e d =>
    obtain ⟨ts, hts, hrun'⟩ := hr.run_error hrun
    refine .of_error (bind_of_error hrun) hts fun c' hprev hahead => ?_
    obtain ⟨d', hd', hr'⟩ := hrun' c' hprev hahead
    exact ⟨d', hd', bind_of_error hr'⟩
  | ok a d =>
    obtain ⟨ts, hts, hrun'⟩ := hr.run_ok hrun
    obtain ⟨us, hus, hrest⟩ := hk a d hrun
    have hbind : (r >>= k) c = k a d := bind_of_ok hrun
    have hstop : stop (r >>= k) c = stop (k a) d := by rw [stop, hbind, stop]
    refine ⟨ts ++ us, hstop ▸ hts.append hus, fun c' hprev hahead => ?_⟩
    rw [List.length_append, Nat.add_assoc] at hahead
    obtain ⟨d', hd', hr', hahead'⟩ := hrun' c' us.length hprev hahead
    have hprev' : back' → d'.previousEnd = f d.previousEnd := by
      intro hb
      refine hts.previousEnd_congr hd' ((hback hb).symm.imp (fun hless => ?_) hprev)
      rintro rfl
      obtain rfl : c = d := hts
      exact absurd (hless a c hrun) (Nat.lt_irrefl _)
    obtain ⟨d'', hd'', hk'⟩ := hrest d' hprev' hahead'
    rw [List.map_append]
    exact ⟨d'', hd'.append hd'', by rw [hbind, bind_of_ok hr', hk']⟩

theorem localAt_foldWhile {test : Token → Option β} {step step' : σ → β → Rule σ} {g : σ → σ}
    {s : σ} {b : β} (htest : ∀ t : Token, test (t.mapSpan (Span.map f)) = test t)
    (ht : test c.current = some b)
    (hless : ∀ s' d, step s b c = .ok s' d → d.remaining < c.remaining)
    (hstep : LocalAt f back g (step s b) (step' (g s) b) c)
    (hrest : ∀ s' d, step s b c = .ok s' d →
      LocalAt f back g (foldWhile test step s') (foldWhile test step' (g s')) d) :
    LocalAt f back g (foldWhile test step s) (foldWhile test step' (g s)) c := by
  have ht' : ∀ {c' : Cursor} {n : Nat}, c.Matches f (n + 1) c' → test c'.current = some b := by
    intro c' n hahead
    rw [hahead.current, htest, ht]
  cases hs : step s b c with
  | error e d =>
    obtain ⟨ts, hts, hrun⟩ := hstep.run_error hs
    refine .of_error (foldWhile_of_error ht hs) hts fun c' hprev hahead => ?_
    obtain ⟨d', hd', hs'⟩ := hrun c' hprev hahead
    exact ⟨d', hd', foldWhile_of_error (ht' hahead) hs'⟩
  | ok s' d =>
    obtain ⟨ts, hts, hrun⟩ := hstep.run_ok hs
    obtain ⟨us, hus, hrest⟩ := hrest s' d hs
    have hfold := foldWhile_of_ok ht hs (hless s' d hs)
    have hstop : stop (foldWhile test step s) c = stop (foldWhile test step s') d := by
      rw [stop, hfold, stop]
    refine ⟨ts ++ us, hstop ▸ hts.append hus, fun c' hprev hahead => ?_⟩
    rw [List.length_append, Nat.add_assoc] at hahead
    obtain ⟨d', hd', hs', hahead'⟩ := hrun c' us.length hprev hahead
    have hless' : d'.remaining < c'.remaining := by
      cases ts with
      | nil => exact absurd (hts ▸ hless s' d hs) (Nat.lt_irrefl _)
      | cons t ts => exact hd'.remaining_lt
    obtain ⟨d'', hd'', hrun'⟩ :=
      hrest d' (fun hb => hts.previousEnd_congr hd' (.inr (hprev hb))) hahead'
    rw [List.map_append]
    refine ⟨d'', hd'.append hd'', ?_⟩
    rw [hfold, foldWhile_of_ok (ht' hahead) hs' hless', hrun']

/-- Every rule of the language is local. -/
theorem Built.localAt (hr : Built f u g r r' c) : LocalAt f u.behind g r r' c := by
  induction hr with
  | pure _ ha => exact localAt_pure ha
  | bind _ hbehind hr _ ihr ihk =>
    exact ihr.bind (fun hb => (hbehind hb).imp_right fun hgains _ _ => hr.gains hgains) ihk
  | look hrun hrun' _ ih => exact ih.look hrun hrun'
  | advance => exact localAt_advance
  | fail hcause => exact localAt_fail hcause
  | spanFrom start _ hbehind => exact localAt_spanFrom hbehind start
  | step _ htest ht hless _ _ ihstep ihrest => exact localAt_foldWhile htest ht hless ihstep ihrest
  | declare _ _ _ _ ih => exact ih

/-! ## The rules -/

theorem LooksAhead.of_built (hg : ∀ a, g a = a) (hr : ∀ c, Built id .plain g r r c) :
    LooksAhead r := by
  intro c
  obtain ⟨ts, hts, hrun⟩ := (hr c).localAt
  have hid : Token.mapSpan (Span.map id) = id := rfl
  refine ⟨ts, hts, fun c' hahead => ?_⟩
  obtain ⟨d', hd', hr'⟩ := hrun c' False.elim (Cursor.matches_id_iff.2 hahead)
  rw [hid, List.map_id] at hd'
  refine ⟨d', hd', hr'.trans ?_⟩
  cases r c with
  | ok a d => rw [relocateTo, hg, moveTo]
  | error e d => rfl

theorem looksAhead_spaceDecl : LooksAhead spaceDecl :=
  .of_built Space.mapSpan_id fun _ => built_spaceDecl

theorem looksAhead_call (target : Expr) : LooksAhead (call target) := by
  refine .of_built Expr.mapSpan_id fun c => ?_
  have hcall := built_call (f := id) (u := .plain) (c := c) id target
  have htarget : target.mapSpan (Span.map id) = target := target.mapSpan_id
  rwa [htarget] at hcall

end Rule

/-! ## The end of a token list -/

namespace Cursor

theorem ahead_ofTokens_upToEndOfFile (tokens : List Token) (n : Nat) :
    (ofTokens (upToEndOfFile tokens)).ahead n = (ofTokens tokens).ahead n := by
  cases hfirst : tokens.find? Token.isEndOfFile with
  | none => rw [upToEndOfFile_eq_self (by simpa using hfirst)]
  | some t =>
    obtain ⟨ht, ts, us, rfl, hts⟩ := List.find?_eq_some_iff_append.1 hfirst
    have hts' : ∀ u ∈ ts, u.isEndOfFile = false := by simpa using hts
    obtain ⟨vs, -, hvs⟩ := exists_rest_ofTokens (ts ++ t :: us)
    obtain ⟨ws, -, hws⟩ := exists_rest_ofTokens (ts ++ [t])
    rw [upToEndOfFile_append_cons us hts' ht, ahead, ahead, hvs, hws, List.append_assoc,
      List.append_assoc, List.singleton_append, List.cons_append,
      upToEndOfFile_append_cons _ hts' ht, upToEndOfFile_append_cons _ hts' ht]

end Cursor

/-- What stands behind the first end marker of a token list has no effect. -/
theorem Module.ofTokens_upToEndOfFile (tokens : List Token) :
    Module.ofTokens (upToEndOfFile tokens) = Module.ofTokens tokens := by
  obtain ⟨ts, -, hrun⟩ := Rule.looksAhead_spaceDecl (.ofTokens tokens)
  obtain ⟨d, -, hd⟩ := hrun (.ofTokens (upToEndOfFile tokens))
    (Cursor.ahead_ofTokens_upToEndOfFile tokens _).symm
  rw [Module.ofTokens, Module.ofTokens, hd]
  cases Rule.spaceDecl (.ofTokens tokens) <;> rfl

namespace Rule

/-- **No rule looks farther than three tokens ahead.** What a rule does from a cursor, it does from
every cursor with the same tokens ahead, as many as it consumes and three more or those up to the
next end marker: the same tree or the same diagnostic, behind the same tokens. So a token list
makes what its tokens up to the first end marker make. -/
theorem looksAhead_three :
    LooksAhead spaceDecl ∧ LooksAhead typeDecl ∧ LooksAhead classDecl ∧ LooksAhead member ∧
    LooksAhead stmt ∧ LooksAhead returnStmt ∧ LooksAhead implicitVariable ∧
    LooksAhead explicitVariable ∧ LooksAhead expr ∧ LooksAhead operand ∧
    (∀ target, LooksAhead (call target)) ∧
    ∀ tokens, Module.ofTokens (upToEndOfFile tokens) = Module.ofTokens tokens :=
  ⟨looksAhead_spaceDecl, .of_built Class.mapSpan_id fun _ => built_typeDecl,
    .of_built Class.mapSpan_id fun _ => built_classDecl False.elim,
    .of_built Member.mapSpan_id fun _ => built_member,
    .of_built Stmt.mapSpan_id fun _ => built_stmt,
    .of_built Stmt.mapSpan_id fun _ => built_returnStmt False.elim,
    .of_built Stmt.mapSpan_id fun _ => built_implicitVariable id,
    .of_built Stmt.mapSpan_id fun _ => built_explicitVariable,
    .of_built Expr.mapSpan_id fun _ => built_expr, .of_built Expr.mapSpan_id fun _ => built_operand,
    looksAhead_call,
    Module.ofTokens_upToEndOfFile⟩

end Rule

end SpaceLang
