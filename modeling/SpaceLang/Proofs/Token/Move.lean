import Mathlib.Data.List.Forall2
import SpaceLang.Proofs.Source.Move
import SpaceLang.Proofs.Token.Scan

/-!
# Scans of a text at other places

Wherever a text begins, it is cut into the same tokens or refused at the same place of it, and each
position is that of a place in the text (`Token.scan_moved`). So the tokens and the diagnostic of a
scan stand in its text (`Token.isIn_of_scan`), and a scan that begins further down gives all of them
further down (`Token.scan_down`).
-/

namespace SpaceLang

/-- Whether `t'` is the token `t` of a text that begins at `p`, read where the text begins at
`q`. -/
structure Token.IsMoved (p q : Position) (text : List Char) (t t' : Token) : Prop where
  kind : t'.kind = t.kind
  value : t'.value = t.value
  span : ∃ before upTo, before <+: text ∧ upTo <+: text ∧
    t.span = ⟨p.after before, p.after upTo⟩ ∧ t'.span = ⟨q.after before, q.after upTo⟩

namespace Token

variable {p q : Position} {text : List Char} {t t' : Token} {ts ts' : List Token} {d : Diagnostic}

theorem IsMoved.append_right (h : IsMoved p q text t t') (rest : List Char) :
    IsMoved p q (text ++ rest) t t' := by
  obtain ⟨hkind, hvalue, before, upTo, hbefore, hupTo, hspan⟩ := h
  have hrest := List.prefix_append text rest
  exact ⟨hkind, hvalue, before, upTo, hbefore.trans hrest, hupTo.trans hrest, hspan⟩

theorem IsMoved.append_left (front : List Char)
    (h : IsMoved (p.after front) (q.after front) text t t') : IsMoved p q (front ++ text) t t' := by
  obtain ⟨hkind, hvalue, before, upTo, hbefore, hupTo, hspan⟩ := h
  rw [← Position.after_append, ← Position.after_append, ← Position.after_append,
    ← Position.after_append] at hspan
  exact ⟨hkind, hvalue, front ++ before, front ++ upTo,
    (List.prefix_append_right_inj front).2 hbefore, (List.prefix_append_right_inj front).2 hupTo,
    hspan⟩

theorem IsMoved.isIn (h : IsMoved p q text t t') :
    t.span.start.IsIn p text ∧ t.span.stop.IsIn p text := by
  obtain ⟨-, -, before, upTo, hbefore, hupTo, hspan, -⟩ := h
  rw [hspan]
  exact ⟨⟨before, hbefore, rfl⟩, upTo, hupTo, rfl⟩

theorem IsMoved.eq_down {n : Nat} (h : IsMoved p (p.down n) text t t') :
    t' = mapSpan (Span.map (Position.down n)) t := by
  obtain ⟨hkind, hvalue, before, upTo, -, -, hspan, hspan'⟩ := h
  rw [← Position.after_down, ← Position.after_down] at hspan'
  rw [mapSpan, ← hkind, ← hvalue, hspan, Span.map, ← hspan']

theorem forall₂_isMoved_tokens (p q : Position) (pieces : List Piece) :
    List.Forall₂ (IsMoved p q (pieces.flatMap Piece.text)) (Piece.tokens p pieces)
      (Piece.tokens q pieces) := by
  induction pieces generalizing p q with
  | nil => exact .nil
  | cons piece pieces ih =>
    have htoken : List.Forall₂ (IsMoved p q piece.text) (piece.token? p).toList
        (piece.token? q).toList := by
      unfold Piece.token?
      cases piece.content? with
      | none => exact .nil
      | some content =>
        exact .cons ⟨rfl, rfl, [], _, List.nil_prefix, List.prefix_rfl, rfl, rfl⟩ .nil
    have hrest := ih (p.after piece.text) (q.after piece.text)
    rw [Piece.tokens, Piece.tokens, List.flatMap_cons]
    exact List.rel_append (htoken.imp fun _ _ h => h.append_right _)
      (hrest.imp fun _ _ h => h.append_left _)

/-- A text is read alike wherever it begins. -/
theorem scan_moved (p q : Position) (text : List Char) :
    (∀ ts, scan p text = .ok ts →
      ∃ ts', scan q text = .ok ts' ∧ List.Forall₂ (IsMoved p q text) ts ts') ∧
    ∀ d, scan p text = .error d → ∃ before, before <+: text ∧
      d = ⟨.unterminatedString, p.after before⟩ ∧
      scan q text = .error ⟨.unterminatedString, q.after before⟩ := by
  have hsplit := Piece.flatMap_text_append_left text
  have htokens := forall₂_isMoved_tokens p q (Piece.split text).1
  unfold scan
  generalize Piece.split text = row at hsplit htokens
  obtain ⟨pieces, left⟩ := row
  cases left with
  | nil =>
    rw [List.append_nil] at hsplit
    rw [hsplit] at htokens
    refine ⟨?_, by simp⟩
    rintro _ ⟨⟩
    have hend : IsMoved p q text (endOfFile (p.after text)) (endOfFile (q.after text)) :=
      ⟨rfl, rfl, text, text, List.prefix_rfl, List.prefix_rfl, rfl, rfl⟩
    exact ⟨_, rfl, List.rel_append htokens (.cons hend .nil)⟩
  | cons c rest =>
    refine ⟨by simp, ?_⟩
    rintro _ ⟨⟩
    exact ⟨_, ⟨_, hsplit⟩, rfl, rfl⟩

theorem isIn_of_scan :
    (∀ ts, scan p text = .ok ts → ∀ t ∈ ts, t.span.start.IsIn p text ∧ t.span.stop.IsIn p text) ∧
    ∀ d, scan p text = .error d → d.position.IsIn p text := by
  obtain ⟨hok, herror⟩ := scan_moved p p text
  refine ⟨fun ts h t ht => ?_, fun d h => ?_⟩
  · obtain ⟨ts', h', hts⟩ := hok ts h
    obtain rfl := Except.ok.inj (h.symm.trans h')
    exact (List.forall₂_same.1 hts t ht).isIn
  · obtain ⟨before, hbefore, rfl, -⟩ := herror d h
    exact ⟨before, hbefore, rfl⟩

theorem scan_down (n : Nat) (p : Position) (cs : List Char) :
    (∀ ts, scan p cs = .ok ts →
      scan (p.down n) cs = .ok (ts.map (mapSpan (Span.map (Position.down n))))) ∧
    ∀ d, scan p cs = .error d → scan (p.down n) cs = .error (d.map (Position.down n)) := by
  obtain ⟨hok, herror⟩ := scan_moved p (p.down n) cs
  refine ⟨fun ts h => ?_, fun d h => ?_⟩
  · obtain ⟨ts', h', hts⟩ := hok ts h
    have hmap : List.Forall₂ (· = ·) ts' (ts.map (mapSpan (Span.map (Position.down n)))) :=
      List.forall₂_map_right_iff.2 (hts.imp fun _ _ ht => ht.eq_down).flip
    rw [List.forall₂_eq_eq_eq] at hmap
    rw [h', hmap]
  · obtain ⟨before, -, rfl, h'⟩ := herror d h
    rw [h', ← Position.after_down]
    rfl

end Token

end SpaceLang
