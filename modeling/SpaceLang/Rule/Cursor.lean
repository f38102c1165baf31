import SpaceLang.Token.Basic

/-!
# Cursors

A `Cursor` stands at a token of a list: it holds the tokens already consumed, the current one and
those that follow. The list ends with an end marker, which `Cursor.ofTokens` adds where it is
missing. Advancing consumes the current token, unless it is an end marker, on which a cursor stays
for good; so the tokens that follow get fewer with every token consumed, which is the measure that
every rule recurs on.
-/

namespace SpaceLang

/-- A place in a token list that ends with an end marker. The consumed tokens are held with the
latest first, and `remaining` counts those that follow the current one. -/
structure Cursor where
  consumed : List Token
  current : Token
  next : List Token
  closed : (next.getLastD current).isEndOfFile
  remaining : Nat
  remaining_eq : remaining = next.length

namespace Cursor

/-- All tokens of the list, the consumed ones included. -/
def toList (c : Cursor) : List Token :=
  c.consumed.reverse ++ c.current :: c.next

@[ext] theorem ext {c d : Cursor} (consumed : c.consumed = d.consumed)
    (current : c.current = d.current) (next : c.next = d.next) : c = d := by
  obtain ⟨_, _, _, _, _, hc⟩ := c
  obtain ⟨_, _, _, _, _, hd⟩ := d
  simp_all

/-- At the beginning of a token list. Where the list does not end with an end marker, one is added
at the end of its last token. -/
def ofTokens : List Token → Cursor
  | [] => ⟨[], .endOfFile .start, [], rfl, 0, rfl⟩
  | t :: ts =>
    let last := ts.getLastD t
    if h : last.isEndOfFile then ⟨[], t, ts, h, ts.length, rfl⟩
    else
      ⟨[], t, ts ++ [.endOfFile last.span.stop], by simp [List.getLastD_eq_getLast?]; rfl,
        ts.length + 1, by simp⟩

/-- The token `n` places ahead, or the last one if there are fewer. -/
def peek (c : Cursor) (n : Nat) : Token :=
  match (c.current :: c.next)[n]? with
  | some t => t
  | none => c.next.getLastD c.current

/-- Past the current token, or still on it if it is an end marker. -/
def advance (c : Cursor) : Cursor :=
  if c.current.isEndOfFile then c
  else
    match h : c.next with
    | [] => c
    | t :: ts =>
      { consumed := c.current :: c.consumed
        current := t
        next := ts
        closed := by simpa only [h, List.getLastD_cons] using c.closed
        remaining := c.remaining - 1
        remaining_eq := by simp [c.remaining_eq, h] }

theorem advance_of_endOfFile {c : Cursor} (h : c.current.isEndOfFile) : c.advance = c := by
  simp [advance, h]

/-- More tokens follow every token that is no end marker. -/
theorem next_ne_nil {c : Cursor} (h : c.current.isEndOfFile = false) : c.next ≠ [] := by
  intro hn
  have := c.closed
  simp [hn, h] at this

/-- One step over a token that is no end marker. -/
theorem advance_eq {c : Cursor} {t : Token} {ts : List Token}
    (h : c.current.isEndOfFile = false) (hn : c.next = t :: ts) :
    c.advance.consumed = c.current :: c.consumed ∧ c.advance.current = t ∧
      c.advance.next = ts := by
  unfold advance
  rw [if_neg (by simp [h])]
  split
  · next h' => simp [hn] at h'
  · next h' =>
    cases hn.symm.trans h'
    exact ⟨rfl, rfl, rfl⟩

/-- Advancing moves along the list and leaves the list as it is. -/
@[simp] theorem toList_advance (c : Cursor) : c.advance.toList = c.toList := by
  cases h : c.current.isEndOfFile
  · obtain ⟨t, ts, hn⟩ := List.exists_cons_of_ne_nil (next_ne_nil h)
    obtain ⟨h₁, h₂, h₃⟩ := advance_eq h hn
    simp [toList, h₁, h₂, h₃, hn]
  · rw [advance_of_endOfFile h]

theorem remaining_advance_lt {c : Cursor} (h : c.current.isEndOfFile = false) :
    c.advance.remaining < c.remaining := by
  obtain ⟨t, ts, hn⟩ := List.exists_cons_of_ne_nil (next_ne_nil h)
  rw [c.advance.remaining_eq, c.remaining_eq, (advance_eq h hn).2.2, hn]
  exact Nat.lt_succ_self _

theorem remaining_advance_le (c : Cursor) : c.advance.remaining ≤ c.remaining := by
  cases h : c.current.isEndOfFile
  · exact Nat.le_of_lt (remaining_advance_lt h)
  · exact Nat.le_of_eq (by rw [advance_of_endOfFile h])

/-- Where the last consumed token ends, or, before the first, where the current one begins. -/
def previousEnd (c : Cursor) : Position :=
  match c.consumed with
  | [] => c.current.span.start
  | t :: _ => t.span.stop

end Cursor

end SpaceLang
