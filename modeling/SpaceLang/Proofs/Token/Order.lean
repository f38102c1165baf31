import SpaceLang.Proofs.Grammar.Basic
import SpaceLang.Proofs.Token.Decomposition

/-!
# Tokens in order

`InOrder p ts q` says that the tokens `ts` stand one behind the other between the places `p` and
`q`, none of them empty. The tokens of a source are in order, with the end marker behind them
(`inOrder_of_ofSource`), and a block of tokens in order fills its cover (`InOrder.cover`).
-/

namespace SpaceLang

/-- Tokens that are not empty, one behind the other, between two places. -/
inductive InOrder : Position → List Token → Position → Prop
  | nil {p q : Position} : p ≤ q → InOrder p [] q
  | cons {p q : Position} {t : Token} {ts : List Token} : p ≤ t.span.start →
      t.span.start < t.span.stop → InOrder t.span.stop ts q → InOrder p (t :: ts) q

namespace InOrder

open Position

variable {p q : Position} {ts us : List Token} {t : Token}

theorem le (h : InOrder p ts q) : p ≤ q := by
  induction h with
  | nil hle => exact hle
  | cons hstart hlt _ ih => exact le_trans (le_trans hstart (le_of_lt hlt)) ih

theorem of_le {p' : Position} (h : InOrder p ts q) (hle : p' ≤ p) : InOrder p' ts q := by
  cases h with
  | nil h => exact .nil (le_trans hle h)
  | cons hstart hlt h => exact .cons (le_trans hle hstart) hlt h

theorem mem (h : InOrder p ts q) (ht : t ∈ ts) :
    p ≤ t.span.start ∧ t.span.start < t.span.stop ∧ t.span.stop ≤ q := by
  induction h with
  | nil => cases ht
  | @cons p q u ts hstart hlt h ih =>
    rcases List.mem_cons.1 ht with rfl | ht
    · exact ⟨hstart, hlt, h.le⟩
    · obtain ⟨hle, hrest⟩ := ih ht
      exact ⟨le_trans hstart (le_trans (le_of_lt hlt) hle), hrest⟩

theorem append_iff : InOrder p (ts ++ us) q ↔ ∃ r, InOrder p ts r ∧ InOrder r us q := by
  induction ts generalizing p with
  | nil =>
    refine ⟨fun h => ⟨p, .nil (le_refl p), h⟩, ?_⟩
    rintro ⟨r, ⟨hle⟩, h⟩
    exact h.of_le hle
  | cons t ts ih =>
    constructor
    · rintro (_ | ⟨hstart, hlt, h⟩)
      obtain ⟨r, hts, hus⟩ := ih.1 h
      exact ⟨r, .cons hstart hlt hts, hus⟩
    · rintro ⟨r, _ | ⟨hstart, hlt, hts⟩, hus⟩
      exact .cons hstart hlt (ih.2 ⟨r, hts, hus⟩)

theorem cover (h : InOrder p ts q) (hne : ts ≠ []) :
    p ≤ (Span.ofTokens ts).start ∧ InOrder (Span.ofTokens ts).start ts (Span.ofTokens ts).stop ∧
      (Span.ofTokens ts).stop ≤ q := by
  induction h with
  | nil => exact absurd rfl hne
  | @cons p q t ts hstart hlt h ih =>
    by_cases hnil : ts = []
    · subst hnil
      exact ⟨hstart, .cons (le_refl _) hlt (.nil (le_refl _)), h.le⟩
    · obtain ⟨hle, hcover, hend⟩ := ih hnil
      have hstop : (Span.ofTokens (t :: ts)).stop = (Span.ofTokens ts).stop :=
        Span.stop_ofTokens_append [t] hnil
      rw [hstop]
      exact ⟨hstart, .cons (le_refl _) hlt (hcover.of_le hle), hend⟩

end InOrder

namespace Token

/-- The tokens of a source are in order, and the end marker stands at the end of it. -/
theorem inOrder_of_scan {p : Position} {before text : List Char} {us : List Token}
    (h : scan p text = .ok us) (hp : p.At before)
    (hlen : (before ++ text).length < UInt32.size - 1) :
    ∃ ts q, us = ts ++ [endOfFile q] ∧ InOrder p ts q := by
  have hall := scan_induct (motive := fun p text us => ∀ before, p.At before →
    (before ++ text).length < UInt32.size - 1 →
      ∃ ts q, us = ts ++ [endOfFile q] ∧ InOrder p ts q) ?_ ?_ h
  · exact hall before hp hlen
  · intro p gap _ before hp hlen
    exact ⟨[], p.after gap, rfl, .nil (hp.le_after hlen)⟩
  · intro p gap lexeme rest kind value ts _ _ hlexeme ih before hp hlen
    obtain ⟨hstart, hstop, hbehind⟩ := hp.after_part hlen
    obtain ⟨ts, q, rfl, hts⟩ := ih _ hstop hbehind
    refine ⟨_, q, rfl, .cons ?_ ?_ hts⟩
    · exact hp.le_after (by simp only [List.length_append] at hlen ⊢; omega)
    · exact hstart.lt_after hlexeme.ne_nil (by simp only [List.length_append] at hbehind ⊢; omega)

theorem inOrder_of_ofSource {source : String} {us : List Token} (h : ofSource source = .ok us)
    (hlen : source.length < UInt32.size - 1) :
    ∃ ts q, us = ts ++ [endOfFile q] ∧ InOrder .start ts q := by
  rw [ofSource_eq_scan] at h
  refine inOrder_of_scan h Position.at_start ?_
  rwa [List.nil_append, String.length_toList]

end Token

end SpaceLang
