import SpaceLang.Token.Reader

/-!
# Scanning from any place

`Token.scan p cs` reads the tokens of `cs` as if it stood at `p` in a longer source, and a source is
scanned from the start (`ofSource_eq_scan`). The equations say how a scan goes on behind the first
piece of a text: it skips layout, puts the token of any other piece in front of what follows, and
fails at an open string literal. White space is skipped by single characters (`scan_whiteSpace`),
although the pieces hold runs of it, so no equation asks where a run ends.
-/

namespace SpaceLang

open Unicode (isWhiteSpace)

theorem not_isWhiteSpace_slash : ¬ isWhiteSpace '/' := by decide

/-! ## Runs -/

/-- `run` is all that `q` holds of before `rest`, so it is as long as it can be. -/
def IsRun (q : Char → Bool) (run rest : List Char) : Prop :=
  (∀ c ∈ run, q c) ∧ ∀ c ∈ rest.head?, q c = false

theorem IsRun.takeWhile {q : Char → Bool} {run rest : List Char} (h : IsRun q run rest) :
    (run ++ rest).takeWhile q = run := by
  rw [List.takeWhile_append_of_pos h.1]
  cases rest with
  | nil => simp
  | cons c cs =>
    have hc : ¬ q c = true := by simp [h.2 c rfl]
    rw [List.takeWhile_cons_of_neg hc, List.append_nil]

theorem isRun_takeWhile (q : Char → Bool) (cs : List Char) :
    IsRun q (cs.takeWhile q) (cs.dropWhile q) := by
  refine ⟨List.all_eq_true.1 List.all_takeWhile, ?_⟩
  have hhead := List.head?_dropWhile_not q cs
  intro c hc
  rw [Option.mem_def] at hc
  rw [hc] at hhead
  simpa using hhead

namespace Piece

variable {p : Position} {c : Char} {cs : List Char} {piece : Piece}

/-- The token of a piece that begins at `p`, if it has one. -/
def token? (p : Position) (piece : Piece) : Option Token :=
  piece.content?.map fun (kind, value) => ⟨kind, value, ⟨p, p.after piece.text⟩⟩

/-- The tokens of a row of pieces that begins at `p`. -/
def tokens (p : Position) : List Piece → List Token
  | [] => []
  | piece :: pieces => (piece.token? p).toList ++ tokens (p.after piece.text) pieces

theorem first?_blank (h : isWhiteSpace c) :
    first? c cs = some (blank (c :: cs.takeWhile isWhiteSpace)) := by
  rw [first?, if_pos h]

theorem first?_comment :
    first? '/' ('/' :: cs) = some (comment (cs.takeWhile (· ≠ '\n'))) := by
  rw [first?, if_neg not_isWhiteSpace_slash, if_pos ⟨rfl, rfl⟩, List.tail_cons]

end Piece

open Piece

/-! ## A reader over a row of pieces -/

namespace Reader

variable {r : Reader} {piece : Piece} {pieces : List Piece} {rest : List Char}

/-- A reader takes a piece that comes next, and with it the token of the piece. -/
theorem passes_take (h : r.rest = piece.text ++ rest) : r.Passes piece.text (r.take piece) ∧
    (r.take piece).tokens = (piece.token? r.position).toList ++ r.tokens := by
  have hpast := passes_advanceBy h
  unfold take Piece.token?
  cases piece.content? with
  | none => exact ⟨hpast, tokens_advanceBy ..⟩
  | some content =>
    exact ⟨hpast.push _, by simp [push, hpast.position_eq]⟩

theorem passes_foldl_take (h : r.rest = pieces.flatMap Piece.text ++ rest) :
    r.Passes (pieces.flatMap Piece.text) (pieces.foldl take r) ∧
      (pieces.foldl take r).tokens = (Piece.tokens r.position pieces).reverse ++ r.tokens := by
  induction pieces generalizing r with
  | nil => exact ⟨.refl r, rfl⟩
  | cons piece pieces ih =>
    rw [List.flatMap_cons, List.append_assoc] at h
    obtain ⟨hpiece, htoken⟩ := passes_take h
    have hrest : (r.take piece).rest = pieces.flatMap Piece.text ++ rest :=
      (List.append_cancel_left (h.symm.trans hpiece.rest_eq)).symm
    obtain ⟨hpieces, htokens⟩ := ih hrest
    refine ⟨hpiece.append hpieces, ?_⟩
    rw [List.foldl_cons, htokens, htoken, hpiece.position_eq, Piece.tokens, List.reverse_append,
      List.append_assoc]
    -- a piece has one token at most, which is its own reverse
    cases piece.token? r.position <;> rfl

end Reader

namespace Token

/-- The tokens of a text that begins at `p`, the end marker last. -/
def scan (p : Position) (cs : List Char) : Except Diagnostic (List Token) :=
  let (pieces, left) := split cs
  match left with
  | [] => .ok (Piece.tokens p pieces ++ [endOfFile (p.after cs)])
  | _ :: _ => .error ⟨.unterminatedString, p.after (pieces.flatMap Piece.text)⟩

theorem ofSource_eq_scan (source : String) : ofSource source = scan .start source.toList := by
  have hsplit := flatMap_text_append_left source.toList
  have hrest : (Reader.ofString source).rest =
      (split source.toList).1.flatMap Piece.text ++ (split source.toList).2 := by
    rw [hsplit, Reader.rest_ofString]
  obtain ⟨hpasses, htokens⟩ := Reader.passes_foldl_take hrest
  simp only [ofSource, scan, Reader.push, htokens, hpasses.position_eq]
  generalize split source.toList = row at hsplit
  obtain ⟨pieces, left⟩ := row
  cases left with
  | nil =>
    rw [List.append_nil] at hsplit
    simp [Reader.ofString, ← hsplit]
  | cons c cs => rfl

variable {p : Position} {c : Char} {cs rest : List Char} {piece : Piece}

@[simp] theorem scan_nil : scan p [] = .ok [endOfFile p] := by
  simp [scan, Piece.tokens]

theorem scan_of_none (h : first? c cs = none) :
    scan p (c :: cs) = .error ⟨.unterminatedString, p⟩ := by
  simp [scan, split_of_none h]

theorem scan_of_some (h : first? c cs = some piece) :
    scan p (c :: cs) = (scan (p.after piece.text) ((c :: cs).drop piece.text.length)).map
      ((piece.token? p).toList ++ ·) := by
  have htext := eq_text_append h
  have hafter : p.after (c :: cs) =
      (p.after piece.text).after ((c :: cs).drop piece.text.length) := by
    rw [← Position.after_append, ← htext]
  simp only [scan, split_of_some h, hafter, Piece.tokens, List.flatMap_cons, Position.after_append]
  cases (split ((c :: cs).drop piece.text.length)).2 with
  | nil => simp [Except.map]
  | cons => rfl

/-! ## Layout -/

theorem scan_layout (h : first? c cs = some piece) (hnone : piece.content? = none) :
    scan p (c :: cs) = scan (p.after piece.text) ((c :: cs).drop piece.text.length) := by
  have hmap : ∀ r : Except Diagnostic (List Token), r.map ([] ++ ·) = r := by
    rintro (_ | _) <;> rfl
  rw [scan_of_some h, Piece.token?, hnone]
  exact hmap _

theorem scan_blank (h : isWhiteSpace c) :
    scan p (c :: cs) =
      scan (p.after (c :: cs.takeWhile isWhiteSpace)) (cs.dropWhile isWhiteSpace) := by
  have hdrop : (cs.takeWhile isWhiteSpace ++ cs.dropWhile isWhiteSpace).drop
      (cs.takeWhile isWhiteSpace).length = cs.dropWhile isWhiteSpace := List.drop_left
  rw [List.takeWhile_append_dropWhile] at hdrop
  rw [scan_layout (first?_blank h) rfl, Piece.text, List.length_cons, List.drop_succ_cons, hdrop]

theorem scan_whiteSpace (h : isWhiteSpace c) : scan p (c :: cs) = scan (p.next c) cs := by
  rw [scan_blank h]
  cases cs with
  | nil => rfl
  | cons d ds =>
    by_cases hd : isWhiteSpace d
    · -- the run behind `c` is the run that a scan from `d` skips
      rw [List.takeWhile_cons_of_pos hd, List.dropWhile_cons_of_pos hd, scan_blank hd]
      rfl
    · rw [List.takeWhile_cons_of_neg hd, List.dropWhile_cons_of_neg hd]
      rfl

theorem scan_comment {body : List Char} (h : IsRun (· ≠ '\n') body rest) :
    scan p ('/' :: '/' :: body ++ rest) = scan (p.after ('/' :: '/' :: body)) rest := by
  have hfirst : first? '/' ('/' :: (body ++ rest)) = some (comment body) := by
    rw [first?_comment, h.takeWhile]
  rw [List.cons_append, List.cons_append, scan_layout hfirst rfl]
  simp [Piece.text]

end Token

end SpaceLang
