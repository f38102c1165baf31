import SpaceLang.Proofs.Rule.Reads
import SpaceLang.Proofs.Source.Move

/-!
# The tokens ahead of a cursor

`c.ahead n` are the next `n` tokens of the cursor `c`, or those up to and with the next end marker
if these are fewer. Nothing that a cursor has consumed and nothing behind an end marker is among
them. `c.Matches f n c'` says that the cursor `c'` has the same tokens ahead as `c` but for their
positions, which `f` moves; so `f = id` compares two cursors, and any other `f` compares two
layouts. Of two cursors that match one reads what the other does, and then they match by what is
left of the tokens ahead (`Reads.transfer`).
-/

namespace SpaceLang

/-- The tokens up to the first end marker, which is the last one of them. -/
def upToEndOfFile : List Token → List Token
  | [] => []
  | t :: ts => if t.isEndOfFile then [t] else t :: upToEndOfFile ts

theorem upToEndOfFile_append_cons {t : Token} {ts : List Token} (us : List Token)
    (hts : ∀ u ∈ ts, u.isEndOfFile = false) (ht : t.isEndOfFile) :
    upToEndOfFile (ts ++ t :: us) = ts ++ [t] := by
  induction ts with
  | nil => simp [upToEndOfFile, ht]
  | cons u ts ih =>
    obtain ⟨hu, hts⟩ := List.forall_mem_cons.1 hts
    simp [upToEndOfFile, hu, ih hts]

theorem upToEndOfFile_eq_self {ts : List Token} (hts : ∀ u ∈ ts, u.isEndOfFile = false) :
    upToEndOfFile ts = ts := by
  induction ts with
  | nil => rfl
  | cons u ts ih =>
    obtain ⟨hu, hts⟩ := List.forall_mem_cons.1 hts
    simp [upToEndOfFile, hu, ih hts]

theorem upToEndOfFile_map_mapSpan (F : Span → Span) (ts : List Token) :
    upToEndOfFile (ts.map (Token.mapSpan F)) = (upToEndOfFile ts).map (Token.mapSpan F) := by
  induction ts with
  | nil => rfl
  | cons t ts ih =>
    have hend : (t.mapSpan F).isEndOfFile = t.isEndOfFile := rfl
    rw [List.map_cons, upToEndOfFile, upToEndOfFile, hend, ih]
    split <;> rfl

namespace Cursor

/-- The next `n` tokens, as far as the next end marker. -/
def ahead (c : Cursor) (n : Nat) : List Token := (upToEndOfFile (c.current :: c.next)).take n

variable {c c' d d' : Cursor} {ts us : List Token} {t : Token} {m n : Nat}

theorem ahead_of_endOfFile (h : c.current.isEndOfFile) (n : Nat) :
    c.ahead (n + 1) = [c.current] := by
  simp [ahead, upToEndOfFile, h]

theorem ahead_succ (h : c.current.isEndOfFile = false) (n : Nat) :
    c.ahead (n + 1) = c.current :: c.advance.ahead n := by
  obtain ⟨t, ts, hn⟩ := List.exists_cons_of_ne_nil (next_ne_nil h)
  obtain ⟨-, hcur, hnext⟩ := advance_eq h hn
  rw [ahead, ahead, hcur, hnext, hn, upToEndOfFile]
  simp [h]

/-! ## The same tokens ahead -/

/-- The cursor `c'` has the next `n` tokens of `c` ahead, with `f` applied to their positions. -/
def Matches (f : Position → Position) (n : Nat) (c c' : Cursor) : Prop :=
  c'.ahead n = (c.ahead n).map (Token.mapSpan (Span.map f))

variable {f : Position → Position}

theorem matches_id_iff : Matches id n c c' ↔ c.ahead n = c'.ahead n := by
  have hid : Token.mapSpan (Span.map id) = id := rfl
  rw [Matches, hid, List.map_id]
  exact eq_comm

theorem Matches.mono (h : Matches f n c c') (hmn : m ≤ n) : Matches f m c c' := by
  have htake := congrArg (List.take m) h
  rwa [← List.map_take, ahead, ahead, List.take_take, List.take_take, Nat.min_eq_left hmn] at htake

theorem Matches.current (h : Matches f (n + 1) c c') :
    c'.current = c.current.mapSpan (Span.map f) := by
  have hhead : ∀ c : Cursor, (c.ahead (n + 1)).head? = some c.current := by
    intro c
    cases hc : c.current.isEndOfFile with
    | true => rw [ahead_of_endOfFile hc, List.head?_cons]
    | false => rw [ahead_succ hc, List.head?_cons]
  have hsome := hhead c'
  rw [h, List.head?_map, hhead c] at hsome
  exact (Option.some.inj hsome).symm

theorem Matches.advance (hc : c.current.isEndOfFile = false) (h : Matches f (n + 1) c c') :
    Matches f n c.advance c'.advance := by
  have hc' : c'.current.isEndOfFile = false := by
    rw [h.current]
    exact hc
  rw [Matches, ahead_succ hc, ahead_succ hc', List.map_cons] at h
  exact (List.cons.inj h).2

/-- With the same tokens ahead the same tokens can be read. -/
theorem Reads.transfer (h : c.Reads ts d) (hc : Matches f (ts.length + n) c c') :
    ∃ d', c'.Reads (ts.map (Token.mapSpan (Span.map f))) d' ∧ Matches f n d d' := by
  induction ts generalizing c c' with
  | nil =>
    obtain rfl : c = d := h
    rw [List.length_nil, Nat.zero_add] at hc
    exact ⟨c', rfl, hc⟩
  | cons t ts ih =>
    obtain ⟨rfl, ht, h⟩ := h
    rw [List.length_cons, Nat.succ_add] at hc
    obtain ⟨d', hr, hd⟩ := ih h (hc.advance ht)
    exact ⟨d', ⟨hc.current, ht, hr⟩, hd⟩

theorem Reads.unique (h : c.Reads ts d) (h' : c.Reads ts d') : d = d' := by
  induction ts generalizing c with
  | nil => exact (show c = d from h).symm.trans h'
  | cons t ts ih => exact ih h.2.2 h'.2.2

theorem Reads.remaining_eq (h : c.Reads ts d) : c.remaining = ts.length + d.remaining := by
  have hlength := congrArg List.length h.rest_eq
  rw [List.length_append, List.length_cons, List.length_cons, ← c.remaining_eq,
    ← d.remaining_eq] at hlength
  omega

/-- Reading forgets where two cursors came from, unless nothing is read. -/
theorem Reads.previousEnd_congr (h : c.Reads ts d)
    (h' : c'.Reads (ts.map (Token.mapSpan (Span.map f))) d')
    (hts : ts ≠ [] ∨ c'.previousEnd = f c.previousEnd) : d'.previousEnd = f d.previousEnd := by
  cases ts with
  | nil =>
    obtain rfl : c = d := h
    obtain rfl : c' = d' := h'
    exact hts.resolve_left (fun hne => hne rfl)
  | cons t ts =>
    rw [List.map_cons] at h'
    rw [h.previousEnd_eq, h'.previousEnd_eq, List.getLastD_map]
    rfl

/-! ## Looking ahead -/

theorem Matches.peek_one (h : Matches f 2 c c') (hc : c.current.isEndOfFile = false) :
    c'.peek 1 = (c.peek 1).mapSpan (Span.map f) := by
  have hc' : c'.current.isEndOfFile = false := by
    rw [h.current]
    exact hc
  rw [peek_succ hc, peek_succ hc', peek_zero, peek_zero]
  exact (h.advance hc).current

theorem Matches.peek_two (h : Matches f 3 c c') (hc : c.current.isEndOfFile = false)
    (hc₁ : (c.peek 1).isEndOfFile = false) : c'.peek 2 = (c.peek 2).mapSpan (Span.map f) := by
  have hc' : c'.current.isEndOfFile = false := by
    rw [h.current]
    exact hc
  rw [peek_succ hc 1, peek_succ hc' 1]
  rw [peek_succ hc, peek_zero] at hc₁
  exact (h.advance hc).peek_one hc₁

end Cursor

end SpaceLang
