import SpaceLang.Diagnostic.Basic
import SpaceLang.Proofs.Source.Place
import SpaceLang.Token.Basic

/-!
# Texts further down in a source

`Span.map`, `Token.mapSpan` and `Diagnostic.map` put other positions in the place of those of a
span, a token and a diagnostic. `Position.down n` is the position `n` lines below, and
`Position.below text` the one below all lines of a text. Counting characters is the same at every
height (`after_down`), so what stands behind a text and a line feed has the positions that it has
alone, moved down (`next_newline_after_start`). `q.IsIn p text` says that `q` is the
position of a place in a text that begins at `p`; such positions have small line numbers, which is
why none of them wraps when it is moved down (`IsIn.line_down`).
-/

namespace SpaceLang

/-- A span with `f` applied to both ends. -/
def Span.map (f : Position → Position) (s : Span) : Span := ⟨f s.start, f s.stop⟩

/-- A token with `f` applied to its span. -/
def Token.mapSpan (f : Span → Span) (t : Token) : Token := ⟨t.kind, t.value, f t.span⟩

/-- A diagnostic with `f` applied to its position. -/
def Diagnostic.map (f : Position → Position) (d : Diagnostic) : Diagnostic :=
  ⟨d.cause, f d.position⟩

namespace Position

/-- The position `n` lines below. -/
def down (n : Nat) (p : Position) : Position := ⟨p.line + .ofNat n, p.column⟩

/-- The position below a text and a line feed, for a place in what follows them. -/
def below (text : String) (p : Position) : Position := p.down (text.toList.count '\n' + 1)

theorem down_next (n : Nat) (p : Position) (c : Char) :
    (p.next c).down n = (p.down n).next c := by
  unfold next
  split
  · have hline : p.line + 1 + .ofNat n = p.line + .ofNat n + 1 := by
      rw [UInt32.add_assoc, UInt32.add_comm 1, ← UInt32.add_assoc]
    exact congrArg (fun line => (⟨line, 1⟩ : Position)) hline
  · rfl

theorem after_down (n : Nat) (p : Position) (cs : List Char) :
    (p.after cs).down n = (p.down n).after cs := by
  induction cs generalizing p with
  | nil => rfl
  | cons c cs ih => rw [after_cons, ih, down_next, after_cons]

theorem line_after (p : Position) (cs : List Char) :
    (p.after cs).line = p.line + .ofNat (cs.count '\n') := by
  induction cs generalizing p with
  | nil => simp
  | cons c cs ih =>
    rw [after_cons, ih, next]
    split
    · next hc =>
      rw [hc, List.count_cons_self, UInt32.ofNat_add, UInt32.add_assoc]
      exact congrArg (p.line + ·) (UInt32.add_comm ..)
    · next hc => rw [List.count_cons_of_ne hc]

/-- A line feed behind a text leads to the start, as many lines further down. -/
theorem next_newline_after_start (cs : List Char) :
    (start.after cs).next '\n' = start.down (cs.count '\n' + 1) := by
  have hline : (start.after cs).line + 1 = start.line + .ofNat (cs.count '\n' + 1) := by
    rw [line_after, UInt32.ofNat_add, UInt32.add_assoc]
    rfl
  exact congrArg (fun line => (⟨line, 1⟩ : Position)) hline

/-! ## The places of a text -/

/-- Whether a position is that of a place in a text that begins at `p`. -/
def IsIn (q p : Position) (text : List Char) : Prop :=
  ∃ before, before <+: text ∧ q = p.after before

theorem IsIn.line_bounds {q : Position} {text : List Char} (h : q.IsIn start text)
    (hlen : text.length < UInt32.size - 1) :
    1 ≤ q.line.toNat ∧ q.line.toNat ≤ text.length + 1 := by
  obtain ⟨before, hbefore, rfl⟩ := h
  have hle := hbefore.length_le
  have hcount : before.count '\n' ≤ before.length := List.count_le_length
  have hline := (at_start.after before (by rw [List.nil_append]; omega)).1
  rw [List.nil_append] at hline
  omega

theorem IsIn.line_down {q : Position} {text : List Char} {n : Nat} (h : q.IsIn start text)
    (hlen : n + text.length < UInt32.size - 1) :
    (q.down n).line.toNat = q.line.toNat + n := by
  obtain ⟨-, hle⟩ := h.line_bounds (by omega)
  have hn : (UInt32.ofNat n).toNat = n := UInt32.toNat_ofNat_of_lt' (by omega)
  have hlt : q.line.toNat + n < UInt32.size := by omega
  rw [down, UInt32.toNat_add, hn]
  exact Nat.mod_eq_of_lt hlt

end Position

end SpaceLang
