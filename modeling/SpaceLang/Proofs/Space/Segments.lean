import SpaceLang.Proofs.Token.Lexical
import SpaceLang.Space.Basic

/-!
# Segments between dots

Splitting the text of segments without dots that are joined by dots gives the segments back
(`splitDots_intercalate`), and no segment that is an identifier has a dot (`not_dot_of_isFreeWord`).
So the segments of a space are those that its name is joined from (`segments_eq`).
-/

namespace SpaceLang.Space

variable {text rest : List Char} {segments : List String}

theorem splitDots_cons_of_ne {c : Char} (h : c ≠ '.') (cs : List Char) :
    splitDots (c :: cs) = (splitDots cs).modifyHead (c :: ·) := by
  simp [splitDots, h]

theorem splitDots_dot (cs : List Char) : splitDots ('.' :: cs) = [] :: splitDots cs := by
  simp [splitDots]

theorem splitDots_of_not_mem (h : '.' ∉ text) : splitDots text = [text] := by
  induction text with
  | nil => rfl
  | cons c cs ih =>
    rw [List.mem_cons, not_or] at h
    rw [splitDots_cons_of_ne (Ne.symm h.1), ih h.2]
    rfl

theorem splitDots_append (h : '.' ∉ text) (rest : List Char) :
    splitDots (text ++ '.' :: rest) = text :: splitDots rest := by
  induction text with
  | nil => exact splitDots_dot rest
  | cons c cs ih =>
    rw [List.mem_cons, not_or] at h
    rw [List.cons_append, splitDots_cons_of_ne (Ne.symm h.1), ih h.2]
    rfl

theorem splitDots_intercalate (hne : segments ≠ []) (h : ∀ s ∈ segments, '.' ∉ s.toList) :
    (splitDots (".".intercalate segments).toList).map String.ofList = segments := by
  induction segments with
  | nil => exact absurd rfl hne
  | cons s segments ih =>
    obtain ⟨hs, hsegments⟩ := List.forall_mem_cons.1 h
    cases segments with
    | nil =>
      rw [String.intercalate_singleton, splitDots_of_not_mem hs]
      simp
    | cons next segments =>
      have hjoin : (".".intercalate (s :: next :: segments)).toList =
          s.toList ++ '.' :: (".".intercalate (next :: segments)).toList := by
        simp [String.intercalate_cons_cons]
      rw [hjoin, splitDots_append hs, List.map_cons, String.ofList_toList,
        ih (List.cons_ne_nil _ _) hsegments]

theorem not_dot_of_isFreeWord {s : String} (h : isFreeWord s) : '.' ∉ s.toList := by
  obtain ⟨c, cs, rfl, hc, hcs⟩ := isWord_iff.1 (isFreeWord_iff.1 h).1
  rw [String.toList_ofList]
  intro hmem
  rcases List.mem_cons.1 hmem with rfl | hmem
  · exact absurd hc (by decide)
  · exact absurd (hcs '.' hmem) (by decide)

theorem segments_eq {s : Space} (hne : segments ≠ []) (h : ∀ w ∈ segments, isFreeWord w)
    (hname : s.name = ".".intercalate segments) : s.segments = segments := by
  rw [Space.segments, hname]
  exact splitDots_intercalate hne fun w hw => not_dot_of_isFreeWord (h w hw)

end SpaceLang.Space
