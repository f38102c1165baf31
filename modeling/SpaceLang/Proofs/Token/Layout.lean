import SpaceLang.Proofs.Source.Insert
import SpaceLang.Proofs.Token.Decomposition
import SpaceLang.Proofs.Token.Move

/-!
# Layout in front of a token

Where a token of a source begins, or at its end, more layout may be put in (`IsLayout`): white space
and comments, each comment with the line feed that ends it, and white space in front. This changes
no token but for the places of those behind it (`Token.ofSource_insert`).

Three facts carry the argument. A gap in front of a lexeme stays one when layout is put behind it,
for its last comment has ended (`IsGap.isLayout`). A lexeme in front of white space is what it was,
so the tokens before the place are read as before (`IsLexeme.of_spacedLike`). And what stands behind
is read alike from any place (`Token.scan_moved`). At the end of a source the last comment may be
open, and then it takes in what is put behind it up to the first line feed (`IsGap.append_layout`).
-/

namespace SpaceLang

open Unicode (isWhiteSpace)

/-- White space and comments, each ended by a line feed. -/
inductive IsLayout : List Char → Prop
  | nil : IsLayout []
  | space {c : Char} {w : List Char} : isWhiteSpace c → IsLayout w → IsLayout (c :: w)
  | comment {body w : List Char} : '\n' ∉ body → IsLayout w →
      IsLayout ('/' :: '/' :: body ++ '\n' :: w)

variable {w w' gap rest body : List Char}

theorem isWhiteSpace_newline : isWhiteSpace '\n' := by decide

theorem isRun_newline (h : '\n' ∉ body) (rest : List Char) :
    IsRun (· ≠ '\n') body ('\n' :: rest) := by
  refine ⟨fun c hc => decide_eq_true ?_, by simp⟩
  rintro rfl
  exact h hc

theorem IsRun.not_newline_mem (h : IsRun (· ≠ '\n') body rest) : '\n' ∉ body :=
  fun hmem => absurd (h.1 _ hmem) (by decide)

theorem IsLayout.append (h : IsLayout w) (h' : IsLayout w') : IsLayout (w ++ w') := by
  induction h with
  | nil => exact h'
  | space hc _ ih => exact .space hc ih
  | comment hbody _ ih =>
    rw [List.append_assoc]
    exact .comment hbody ih

/-! ## Layout and gaps -/

theorem IsLayout.isGap (h : IsLayout w) (rest : List Char) : IsGap rest w := by
  induction h with
  | nil => exact .nil
  | space hc _ ih => exact .space hc ih
  | comment hbody _ ih => exact .comment (isRun_newline hbody _) (.space isWhiteSpace_newline ih)

theorem IsGap.isLayout (h : IsGap rest gap) (hne : rest ≠ []) (hrest : ¬ AtLayout rest) :
    IsLayout gap := by
  induction h with
  | nil => exact .nil
  | space hc _ ih => exact .space hc ih
  | @comment body gap hrun _ ih =>
    cases gap with
    | nil =>
      -- a comment in front of the lexeme itself would go on
      obtain ⟨c, cs, rfl⟩ := List.exists_cons_of_ne_nil hne
      obtain rfl : c = '\n' := by simpa using hrun.2 c rfl
      exact absurd (atLayout_of_isWhiteSpace isWhiteSpace_newline) hrest
    | cons c gap =>
      obtain rfl : c = '\n' := by simpa using hrun.2 c rfl
      cases ih with
      | space _ hgap => exact .comment hrun.not_newline_mem hgap

theorem IsLayout.isGap_comment (h : IsLayout w) (hbody : '\n' ∉ body) :
    IsGap [] ('/' :: '/' :: body ++ w) := by
  induction h generalizing body with
  | nil => exact .comment ⟨(isRun_newline hbody []).1, by simp⟩ .nil
  | @space c w hc hw ih =>
    by_cases hnewline : c = '\n'
    · subst hnewline
      exact .comment (isRun_newline hbody _) (.space hc (hw.isGap []))
    · have hlonger : '\n' ∉ body ++ [c] := by simp [hbody, Ne.symm hnewline]
      have hgap := ih hlonger
      rwa [← List.cons_append, ← List.cons_append, List.append_assoc] at hgap
  | @comment body' w hbody' hw _ =>
    have hlonger : '\n' ∉ body ++ '/' :: '/' :: body' := by simp [hbody, hbody']
    have hgap : IsGap [] ('/' :: '/' :: (body ++ '/' :: '/' :: body') ++ '\n' :: w) :=
      .comment (isRun_newline hlonger _) (.space isWhiteSpace_newline (hw.isGap []))
    simpa using hgap

theorem IsGap.append_layout (h : IsGap [] gap) (hw : IsLayout w) : IsGap [] (gap ++ w) := by
  induction h with
  | nil => exact hw.isGap []
  | space hc _ ih => exact .space hc ih
  | @comment body gap hrun _ ih =>
    cases gap with
    | nil =>
      rw [List.append_nil]
      exact hw.isGap_comment hrun.not_newline_mem
    | cons c gap =>
      obtain rfl : c = '\n' := by simpa using hrun.2 c rfl
      rw [List.append_assoc]
      exact .comment (isRun_newline hrun.not_newline_mem _) ih

/-- Behind a gap and in front of a lexeme or the end of the text, layout may be put in. -/
theorem IsGap.insert (h : IsGap rest gap) (hrest : ¬ AtLayout rest) (hw : IsLayout w) :
    IsGap rest (gap ++ w) := by
  cases rest with
  | nil => exact h.append_layout hw
  | cons c cs => exact ((h.isLayout (List.cons_ne_nil c cs) hrest).append hw).isGap _

/-! ## Scans -/

section

variable {front lexeme : List Char} (hw : ∃ c ∈ w.head?, isWhiteSpace c)

include hw

theorem spacedLike_of_insert : SpacedLike (front ++ rest) (front ++ (w ++ rest)) := by
  intro c hc
  cases front with
  | nil =>
    obtain ⟨d, hd, hspace⟩ := hw
    obtain ⟨ds, rfl⟩ := List.head?_eq_some_iff.1 hd
    obtain rfl : d = c := by simpa using hc
    exact .inl hspace
  | cons d ds => exact .inr hc

theorem not_atLayout_of_insert (hne : front ≠ []) (hstart : ¬ AtLayout (front ++ rest)) :
    ¬ AtLayout (front ++ (w ++ rest)) := by
  obtain ⟨c, cs, rfl⟩ := List.exists_cons_of_ne_nil hne
  exact fun hlayout => hstart (hlayout.of_spacedLike (spacedLike_of_insert hw))

end

namespace Token

variable {p : Position} {text : List Char} {us vs : List Token} {t : Token}

theorem exists_gap_of_scan (h : scan p text = .ok (t :: vs)) :
    ∃ gap rest, text = gap ++ rest ∧ IsGap rest gap ∧ ¬ AtLayout rest ∧
      t.span.start = p.after gap ∧ scan (p.after gap) rest = .ok (t :: vs) := by
  obtain ⟨gap, rest, rfl, hgap, hrest⟩ := exists_gap text
  rw [scan_gap hgap] at h
  refine ⟨gap, rest, rfl, hgap, hrest, ?_, h⟩
  cases rest with
  | nil =>
    rw [scan_nil] at h
    cases h
    rfl
  | cons c cs =>
    obtain ⟨_, _, _, _, _, -, -, -, heq⟩ := exists_lexeme_of_scan hrest h
    cases heq
    rfl

/-- With layout put in where a token begins, a scan reads the tokens before that one as it does
without, and goes on behind the layout. -/
theorem scan_insert (h : scan p text = .ok (us ++ t :: vs)) :
    ∃ front rest, text = front ++ rest ∧ t.span.start = p.after front ∧
      scan (p.after front) rest = .ok (t :: vs) ∧
      ∀ w, IsLayout w → (∃ c ∈ w.head?, isWhiteSpace c) →
        scan p (front ++ (w ++ rest)) = (scan (p.after (front ++ w)) rest).map (us ++ ·) := by
  induction us generalizing p text with
  | nil =>
    obtain ⟨gap, rest, rfl, hgap, hrest, hstart, hscan⟩ := exists_gap_of_scan h
    refine ⟨gap, rest, rfl, hstart, hscan, fun w hw _ => ?_⟩
    rw [← List.append_assoc, scan_gap (hgap.insert hrest hw)]
    cases scan (p.after (gap ++ w)) rest <;> rfl
  | cons u us ih =>
    obtain ⟨gap, rest, rfl, hgap, hrest, -, hscan⟩ := exists_gap_of_scan h
    cases rest with
    | nil =>
      rw [scan_nil] at hscan
      simp at hscan
    | cons c cs =>
      obtain ⟨lexeme, rest, kind, value, ts, htext, hlexeme, hbehind, heq⟩ :=
        exists_lexeme_of_scan hrest hscan
      obtain ⟨rfl, rfl⟩ := List.cons.inj heq
      obtain ⟨front, rest, rfl, hstart, hscan', hinsert⟩ := ih hbehind
      rw [htext, ← List.append_assoc lexeme] at hgap hrest ⊢
      have hne : lexeme ++ front ≠ [] := List.append_ne_nil_of_left_ne_nil hlexeme.ne_nil front
      have hlayout := hgap.isLayout (List.append_ne_nil_of_left_ne_nil hne rest) hrest
      refine ⟨gap ++ (lexeme ++ front), rest, (List.append_assoc ..).symm, ?_, ?_,
        fun w hw hspace => ?_⟩
      · rw [hstart, Position.after_append, Position.after_append]
      · rw [Position.after_append, Position.after_append, hscan']
      · have hlexeme' := hlexeme.of_spacedLike (spacedLike_of_insert hspace)
        have hrest' := not_atLayout_of_insert hspace hne hrest
        rw [List.append_assoc lexeme] at hrest'
        rw [List.append_assoc, scan_gap (hlayout.isGap _), List.append_assoc,
          scan_lexeme hlexeme' hrest', hinsert w hw hspace]
        simp only [Position.after_append]
        cases scan ((((p.after gap).after lexeme).after front).after w) rest <;> rfl

/-! ## Sources -/

/-- Whether `t'` is the token `t`, which has moved where `w` has been put in at `place`. -/
structure IsShifted (place : Position) (w : List Char) (t t' : Token) : Prop where
  kind : t'.kind = t.kind
  value : t'.value = t.value
  start : place.IsShifted w t.span.start t'.span.start
  stop : place.IsShifted w t.span.stop t'.span.stop

open Position (start)

theorem IsMoved.isShifted {front w rest : List Char} {t t' : Token}
    (hlen : (front ++ w ++ rest).length < UInt32.size - 1)
    (h : IsMoved (start.after front) (start.after (front ++ w)) rest t t') :
    IsShifted (start.after front) w t t' := by
  obtain ⟨hkind, hvalue, before, upTo, hbefore, hupTo, hspan, hspan'⟩ := h
  have hplace : ∀ cs, cs <+: rest → (start.after front).IsShifted w
      ((start.after front).after cs) ((start.after (front ++ w)).after cs) := by
    intro cs hcs
    have hle := hcs.length_le
    rw [← Position.after_append, ← Position.after_append]
    apply Position.isShifted_after
    simp only [List.length_append] at hlen ⊢
    omega
  refine ⟨hkind, hvalue, ?_, ?_⟩
  · rw [hspan, hspan']
    exact hplace before hbefore
  · rw [hspan, hspan']
    exact hplace upTo hupTo

/-- **Layout changes no token.** Where a source is read into tokens, one of which begins behind
`front`, the source with layout put in behind `front` is read into the same tokens: those before
that one stay where they are, and that one and those behind it are shifted. The layout has to begin
with white space, since a slash in front of a comment would become a part of it. -/
theorem ofSource_insert {front behind w : String} {before later : List Token} {t : Token}
    (hlen : (front ++ w ++ behind).length < UInt32.size - 1)
    (h : ofSource (front ++ behind) = .ok (before ++ t :: later))
    (ht : t.span.start = start.after front.toList) (hw : IsLayout w.toList)
    (hspace : ∃ c ∈ w.toList.head?, isWhiteSpace c) :
    ∃ later', ofSource (front ++ w ++ behind) = .ok (before ++ later') ∧
      List.Forall₂ (IsShifted (start.after front.toList) w.toList) (t :: later) later' := by
  rw [← String.length_toList, String.toList_append, String.toList_append] at hlen
  rw [ofSource_eq_scan, String.toList_append] at h
  obtain ⟨front', rest, htext, hstart, hscan, hinsert⟩ := scan_insert h
  -- the positions of the token and of the place are the same, so the places are
  have hfront : front' = front.toList := by
    have hlen' : (front.toList ++ behind.toList).length < UInt32.size - 1 := by
      simp only [List.length_append] at hlen ⊢
      omega
    exact Position.after_inj ⟨rest, htext.symm⟩ ⟨behind.toList, rfl⟩ hlen' (hstart.symm.trans ht)
  subst hfront
  obtain rfl := List.append_cancel_left htext
  obtain ⟨later', hmoved, hlater⟩ :=
    (scan_moved _ (start.after (front.toList ++ w.toList)) behind.toList).1 _ hscan
  refine ⟨later', ?_, hlater.imp fun _ _ hmove => hmove.isShifted hlen⟩
  rw [ofSource_eq_scan, String.toList_append, String.toList_append, List.append_assoc,
    hinsert _ hw hspace, hmoved]
  rfl

/-- A comment and a line feed between an exclamation mark and an inequality sign. -/
theorem ofSource_insert_between : ("!" ++ " //\"\n " ++ "!=\"\"").length < UInt32.size - 1 ∧
    ofSource ("!" ++ "!=\"\"") = .ok [⟨.operator, "!", ⟨⟨1, 1⟩, ⟨1, 2⟩⟩⟩,
      ⟨.operator, "!=", ⟨⟨1, 2⟩, ⟨1, 4⟩⟩⟩, ⟨.string, "", ⟨⟨1, 4⟩, ⟨1, 6⟩⟩⟩, .endOfFile ⟨1, 6⟩] ∧
    start.after "!".toList = ⟨1, 2⟩ ∧ IsLayout " //\"\n ".toList ∧
    (∃ c ∈ " //\"\n ".toList.head?, isWhiteSpace c) ∧
    ∃ later', ofSource ("!" ++ " //\"\n " ++ "!=\"\"") =
        .ok ([⟨.operator, "!", ⟨⟨1, 1⟩, ⟨1, 2⟩⟩⟩] ++ later') ∧
      List.Forall₂ (IsShifted (start.after "!".toList) " //\"\n ".toList)
        [⟨.operator, "!=", ⟨⟨1, 2⟩, ⟨1, 4⟩⟩⟩, ⟨.string, "", ⟨⟨1, 4⟩, ⟨1, 6⟩⟩⟩, .endOfFile ⟨1, 6⟩]
        later' := by
  have hlen : ("!" ++ " //\"\n " ++ "!=\"\"").length < UInt32.size - 1 := by decide
  have h : ofSource ("!" ++ "!=\"\"") = .ok [⟨.operator, "!", ⟨⟨1, 1⟩, ⟨1, 2⟩⟩⟩,
      ⟨.operator, "!=", ⟨⟨1, 2⟩, ⟨1, 4⟩⟩⟩, ⟨.string, "", ⟨⟨1, 4⟩, ⟨1, 6⟩⟩⟩, .endOfFile ⟨1, 6⟩] := by
    rw [ofSource_eq_scan]
    cbv
  have hplace : start.after "!".toList = ⟨1, 2⟩ := rfl
  have hw : IsLayout " //\"\n ".toList :=
    .space (by decide) (@IsLayout.comment ['"'] _ (by decide) (.space (by decide) .nil))
  have hspace : ∃ c ∈ " //\"\n ".toList.head?, isWhiteSpace c := ⟨' ', rfl, by decide⟩
  exact ⟨hlen, h, hplace, hw, hspace,
    @ofSource_insert "!" "!=\"\"" _ [_] _ _ hlen h hplace.symm hw hspace⟩

end Token

end SpaceLang
