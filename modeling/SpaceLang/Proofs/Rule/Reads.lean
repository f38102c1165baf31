import SpaceLang.Proofs.Grammar.Basic

/-!
# What a cursor reads

`c.Reads ts d` says that the way from the cursor `c` to the cursor `d` consumes exactly the tokens
`ts`. A cursor moves over a token at a time and never over an end marker, so `ts` holds none, and
`c` and `ts` determine `d`. The span of what is read is the cover of `ts`
(`Reads.span_eq`), and from the beginning of any token list a cursor can read on up to the first end
marker (`exists_reads_ofTokens`).
-/

namespace SpaceLang.Cursor

/-- From `c` to `d` exactly the tokens `ts` are consumed. -/
def Reads (c : Cursor) : List Token → Cursor → Prop
  | [], d => c = d
  | t :: ts, d => c.current = t ∧ t.isEndOfFile = false ∧ c.advance.Reads ts d

variable {c d e : Cursor} {t u : Token} {ts us : List Token}

@[simp] theorem reads_nil : c.Reads [] d ↔ c = d := Iff.rfl

@[simp] theorem reads_cons :
    c.Reads (t :: ts) d ↔ c.current = t ∧ t.isEndOfFile = false ∧ c.advance.Reads ts d := Iff.rfl

theorem Reads.current (h : c.current.isEndOfFile = false) : c.Reads [c.current] c.advance :=
  ⟨rfl, h, rfl⟩

theorem reads_append : c.Reads (ts ++ us) e ↔ ∃ d, c.Reads ts d ∧ d.Reads us e := by
  induction ts generalizing c with
  | nil => simp
  | cons t ts ih => simp [ih, and_assoc]

theorem Reads.append (h : c.Reads ts d) (h' : d.Reads us e) : c.Reads (ts ++ us) e :=
  reads_append.2 ⟨d, h, h'⟩

theorem Reads.not_endOfFile (h : c.Reads ts d) : ∀ t ∈ ts, t.isEndOfFile = false := by
  induction ts generalizing c with
  | nil => simp
  | cons t ts ih =>
    intro u hu
    rcases List.mem_cons.mp hu with rfl | hu
    · exact h.2.1
    · exact ih h.2.2 u hu

/-! ## What remains -/

theorem Reads.remaining_le (h : c.Reads ts d) : d.remaining ≤ c.remaining := by
  induction ts generalizing c with
  | nil => exact Nat.le_of_eq (by rw [show c = d from h])
  | cons t ts ih => exact Nat.le_trans (ih h.2.2) c.remaining_advance_le

theorem Reads.remaining_lt (h : c.Reads (t :: ts) d) : d.remaining < c.remaining := by
  obtain ⟨rfl, ht, h⟩ := h
  exact Nat.lt_of_le_of_lt h.remaining_le (remaining_advance_lt ht)

theorem Reads.rest_eq (h : c.Reads ts d) : c.current :: c.next = ts ++ d.current :: d.next := by
  induction ts generalizing c with
  | nil => rw [show c = d from h, List.nil_append]
  | cons t ts ih =>
    obtain ⟨rfl, ht, h⟩ := h
    obtain ⟨u, us, hn⟩ := List.exists_cons_of_ne_nil (next_ne_nil ht)
    obtain ⟨-, hcur, hnext⟩ := advance_eq ht hn
    rw [List.cons_append, ← ih h, hcur, hnext, hn]

theorem Reads.toList_eq (h : c.Reads ts d) : d.toList = c.toList := by
  induction ts generalizing c with
  | nil => rw [show c = d from h]
  | cons t ts ih => rw [ih h.2.2, toList_advance]

theorem Reads.consumed_eq (h : c.Reads ts d) : d.consumed = ts.reverse ++ c.consumed := by
  induction ts generalizing c with
  | nil => rw [show c = d from h, List.reverse_nil, List.nil_append]
  | cons t ts ih =>
    obtain ⟨rfl, ht, h⟩ := h
    obtain ⟨u, us, hn⟩ := List.exists_cons_of_ne_nil (next_ne_nil ht)
    rw [ih h, (advance_eq ht hn).1, List.reverse_cons, List.append_assoc, List.singleton_append]

theorem getElem?_toList (c : Cursor) : c.toList[c.consumed.length]? = some c.current := by
  rw [toList, List.getElem?_append_right (by simp)]
  simp

theorem Reads.eq_takeWhile (h : c.Reads ts d) (hd : d.current.isEndOfFile) :
    ts = (c.current :: c.next).takeWhile (fun t => !t.isEndOfFile) := by
  rw [h.rest_eq, List.takeWhile_append_of_pos (by simpa using h.not_endOfFile)]
  simp [hd]

/-! ## Looking back and ahead -/

theorem previousEnd_advance (h : c.current.isEndOfFile = false) :
    c.advance.previousEnd = c.current.span.stop := by
  obtain ⟨u, us, hn⟩ := List.exists_cons_of_ne_nil (next_ne_nil h)
  rw [previousEnd, (advance_eq h hn).1]

theorem Reads.previousEnd_concat (h : c.Reads (ts ++ [t]) d) : d.previousEnd = t.span.stop := by
  obtain ⟨c₁, -, rfl, ht, rfl⟩ := reads_append.1 h
  exact previousEnd_advance ht

theorem Reads.previousEnd_eq (h : c.Reads (t :: ts) d) :
    d.previousEnd = (ts.getLastD t).span.stop := by
  induction ts generalizing c t with
  | nil =>
    obtain ⟨rfl, ht, rfl⟩ := h
    exact previousEnd_advance ht
  | cons u us ih => rw [ih h.2.2, List.getLastD_cons]

/-- The span from where some tokens were begun to the last one of them is their cover. -/
theorem Reads.span_eq (h : c.Reads ts d) (hts : ts ≠ []) :
    ⟨c.current.position, d.previousEnd⟩ = Span.ofTokens ts := by
  obtain ⟨t, ts, rfl⟩ := List.exists_cons_of_ne_nil hts
  rw [h.previousEnd_eq, h.1]
  rfl

@[simp] theorem peek_zero : c.peek 0 = c.current := rfl

theorem peek_succ (h : c.current.isEndOfFile = false) (n : Nat) :
    c.peek (n + 1) = c.advance.peek n := by
  obtain ⟨u, us, hn⟩ := List.exists_cons_of_ne_nil (next_ne_nil h)
  obtain ⟨-, hcur, hnext⟩ := advance_eq h hn
  simp [peek, hcur, hnext, hn, List.getLast?_cons]

/-! ## From the beginning of a list -/

/-- Where a token list is read from its beginning, its tokens up to the first end marker come
first. -/
theorem takeWhile_ofTokens (ts : List Token) :
    ((ofTokens ts).current :: (ofTokens ts).next).takeWhile (fun t => !t.isEndOfFile) =
      ts.takeWhile (fun t => !t.isEndOfFile) := by
  cases ts with
  | nil => rfl
  | cons t ts =>
    unfold ofTokens
    dsimp only
    split
    · rfl
    · dsimp only
      rw [← List.cons_append, List.takeWhile_append]
      split
      · next h =>
        have hall := (List.takeWhile_prefix (fun t : Token => !t.isEndOfFile)).eq_of_length h
        rw [hall]
        simp [Token.isEndOfFile, Token.endOfFile]
      · rfl

theorem rest_ofTokens_of_endOfFile (h : (ts.getLastD t).isEndOfFile) :
    (ofTokens (t :: ts)).current :: (ofTokens (t :: ts)).next = t :: ts := by
  unfold ofTokens
  dsimp only
  rw [dif_pos h]

theorem rest_ofTokens_of_not_endOfFile (h : (ts.getLastD t).isEndOfFile = false) :
    (ofTokens (t :: ts)).current :: (ofTokens (t :: ts)).next =
      t :: ts ++ [.endOfFile (ts.getLastD t).span.stop] := by
  unfold ofTokens
  dsimp only
  rw [dif_neg (by simp only [h, Bool.false_eq_true, not_false_eq_true])]
  rfl

theorem rest_ofTokens_concat (ts : List Token) (p : Position) :
    (ofTokens (ts ++ [.endOfFile p])).current :: (ofTokens (ts ++ [.endOfFile p])).next =
      ts ++ [.endOfFile p] := by
  cases ts with
  | nil => rfl
  | cons t ts =>
    have hlast : ((ts ++ [Token.endOfFile p]).getLastD t).isEndOfFile := by
      simp [List.getLastD_eq_getLast?]
      rfl
    rw [List.cons_append, rest_ofTokens_of_endOfFile hlast]

theorem exists_rest_ofTokens (ts : List Token) : ∃ us, us.length ≤ 1 ∧
    (ofTokens ts).current :: (ofTokens ts).next = ts ++ us := by
  cases ts with
  | nil => exact ⟨[.endOfFile .start], Nat.le_refl _, rfl⟩
  | cons t ts =>
    cases h : (ts.getLastD t).isEndOfFile with
    | true => exact ⟨[], Nat.zero_le _, by rw [rest_ofTokens_of_endOfFile h, List.append_nil]⟩
    | false => exact ⟨[.endOfFile _], Nat.le_refl _, rest_ofTokens_of_not_endOfFile h⟩

@[simp] theorem consumed_ofTokens (ts : List Token) : (ofTokens ts).consumed = [] := by
  cases ts with
  | nil => rfl
  | cons t ts =>
    unfold ofTokens
    dsimp only
    split <;> rfl

theorem toList_ofTokens_concat (ts : List Token) (p : Position) :
    (ofTokens (ts ++ [.endOfFile p])).toList = ts ++ [.endOfFile p] := by
  rw [toList, consumed_ofTokens, rest_ofTokens_concat, List.reverse_nil, List.nil_append]

theorem Reads.eq_take_of_ofTokens (h : (ofTokens ts).Reads us d) :
    us = ts.take d.consumed.length := by
  obtain ⟨vs, hvs, hrest⟩ := exists_rest_ofTokens ts
  have hconsumed : d.consumed.length = us.length := by
    rw [h.consumed_eq, consumed_ofTokens, List.append_nil, List.length_reverse]
  have hread := h.rest_eq
  rw [hrest] at hread
  have hlength := congrArg List.length hread
  simp only [List.length_append, List.length_cons] at hlength
  have htake := congrArg (List.take us.length) hread
  rw [List.take_left, List.take_append_of_le_length (by omega)] at htake
  rw [hconsumed, htake]

theorem exists_reads (c : Cursor) : ∃ ts d, c.Reads ts d ∧ d.current.isEndOfFile := by
  induction hn : c.remaining using Nat.strongRecOn generalizing c with
  | _ n ih =>
    subst hn
    cases h : c.current.isEndOfFile with
    | true => exact ⟨[], c, rfl, h⟩
    | false =>
      obtain ⟨ts, d, hr, hd⟩ := ih _ (remaining_advance_lt h) c.advance rfl
      exact ⟨c.current :: ts, d, ⟨rfl, h, hr⟩, hd⟩

theorem exists_reads_ofTokens (ts : List Token) :
    ∃ d, (ofTokens ts).Reads (ts.takeWhile (fun t => !t.isEndOfFile)) d ∧
      d.current.isEndOfFile := by
  obtain ⟨us, d, hr, hd⟩ := exists_reads (ofTokens ts)
  rw [← takeWhile_ofTokens, ← hr.eq_takeWhile hd]
  exact ⟨d, hr, hd⟩

theorem Reads.eq_takeWhile_of_ofTokens (h : (ofTokens ts).Reads us d) (hd : d.current.isEndOfFile) :
    us = ts.takeWhile (fun t => !t.isEndOfFile) := by
  rw [h.eq_takeWhile hd, takeWhile_ofTokens]

end SpaceLang.Cursor
