import SpaceLang.Proofs.Source.Place
import SpaceLang.Proofs.Token.Lexeme

/-!
# A source is its lexemes and the gaps between them

`Decomposes text parts last` cuts a text into parts, which are a gap and the lexeme behind it, and
the gap behind the last of them; a gap is white space and comments, and no lexeme begins where a gap
could go on. `AreTokens` says which tokens the parts stand for, with each span given by the text
before it. The main result is `ofSource_iff_decomposes`: a source is read into exactly the tokens of
its decomposition, of which there is one at most.

Both directions follow the lexemes. Any successful scan is a gap, a lexeme and a scan of what is
left (`scan_induct`), and any gap and lexeme can be scanned away (`scan_gap`, `scan_lexeme`). What
stands in front of white space is read as at the end of the text (`IsLexeme.of_spacedLike`).
-/

namespace SpaceLang

open Unicode (isWhiteSpace)
open Piece (isWordPart)

/-! ## Gaps -/

/-- White space and comments in front of `rest`. Each comment runs up to a line feed or the end. -/
inductive IsGap (rest : List Char) : List Char → Prop
  | nil : IsGap rest []
  | space {c : Char} {gap : List Char} : isWhiteSpace c → IsGap rest gap → IsGap rest (c :: gap)
  | comment {body gap : List Char} : IsRun (· ≠ '\n') body (gap ++ rest) → IsGap rest gap →
      IsGap rest ('/' :: '/' :: body ++ gap)

variable {rest gap : List Char}

theorem atLayout_of_isWhiteSpace {c : Char} {cs : List Char} (h : isWhiteSpace c) :
    AtLayout (c :: cs) :=
  .inl ⟨c, rfl, h⟩

theorem atLayout_of_comment {cs : List Char} : AtLayout ('/' :: '/' :: cs) :=
  .inr ⟨cs, rfl⟩

theorem AtLayout.cases {text : List Char} (h : AtLayout text) :
    (∃ c cs, text = c :: cs ∧ isWhiteSpace c) ∨ ∃ cs, text = '/' :: '/' :: cs := by
  rcases h with ⟨c, hc, hspace⟩ | ⟨cs, hcs⟩
  · obtain ⟨cs, rfl⟩ := List.head?_eq_some_iff.1 hc
    exact .inl ⟨c, cs, rfl, hspace⟩
  · exact .inr ⟨cs, hcs.symm⟩

theorem not_atLayout_nil : ¬ AtLayout [] := by simp [AtLayout]

/-- What holds of the empty text and of every layout, lexeme or open string literal in front of a
text that it holds of, holds of all texts. -/
theorem text_induct {motive : List Char → Prop} (nil : motive [])
    (space : ∀ c cs, isWhiteSpace c → motive cs → motive (c :: cs))
    (comment : ∀ body rest, IsRun (· ≠ '\n') body rest → motive rest →
      motive ('/' :: '/' :: body ++ rest))
    (lexeme : ∀ lexeme rest kind value, ¬ AtLayout (lexeme ++ rest) →
      IsLexeme rest lexeme kind value → motive rest → motive (lexeme ++ rest))
    (literal : ∀ cs, Quoted.body? cs = none → motive ('"' :: cs)) (text : List Char) :
    motive text := by
  induction hn : text.length using Nat.strongRecOn generalizing text with
  | _ n ih =>
    subst hn
    by_cases hlayout : AtLayout text
    · rcases hlayout.cases with ⟨c, cs, rfl, hc⟩ | ⟨cs, rfl⟩
      · exact space c cs hc (ih cs.length (by simp) cs rfl)
      · have hcs : cs.takeWhile (· ≠ '\n') ++ cs.dropWhile (· ≠ '\n') = cs :=
          List.takeWhile_append_dropWhile
        have hle : (cs.dropWhile (· ≠ '\n')).length ≤ cs.length :=
          (List.dropWhile_suffix _).length_le
        have hrest := ih (cs.dropWhile (· ≠ '\n')).length
          (by simp only [List.length_cons]; omega) _ rfl
        have hcomment := comment _ _ (isRun_takeWhile _ cs) hrest
        rwa [List.cons_append, List.cons_append, hcs] at hcomment
    · cases text with
      | nil => exact nil
      | cons c cs =>
        cases hfirst : Piece.first? c cs with
        | none =>
          obtain ⟨rfl, hbody⟩ := first?_eq_none hlayout hfirst
          exact literal cs hbody
        | some piece =>
          obtain ⟨rest, kind, value, htext, hlexeme, -⟩ := exists_lexeme_of_first? hlayout hfirst
          rw [htext] at hlayout ih ⊢
          have hpos := List.length_pos_iff.2 hlexeme.ne_nil
          exact lexeme _ rest kind value hlayout hlexeme
            (ih rest.length (by simp only [List.length_append]; omega) rest rfl)

theorem exists_gap (text : List Char) :
    ∃ gap rest, text = gap ++ rest ∧ IsGap rest gap ∧ ¬ AtLayout rest := by
  induction text using text_induct with
  | nil => exact ⟨[], [], rfl, .nil, not_atLayout_nil⟩
  | space c cs hc ih =>
    obtain ⟨gap, rest, rfl, hgap, hrest⟩ := ih
    exact ⟨c :: gap, rest, rfl, .space hc hgap, hrest⟩
  | comment body behind hrun ih =>
    obtain ⟨gap, rest, rfl, hgap, hrest⟩ := ih
    exact ⟨'/' :: '/' :: body ++ gap, rest, by simp, .comment hrun hgap, hrest⟩
  | lexeme lexeme rest kind value hstart _ _ => exact ⟨[], lexeme ++ rest, rfl, .nil, hstart⟩
  | literal cs _ => exact ⟨[], '"' :: cs, rfl, .nil, not_atLayout_quote⟩

theorem IsGap.unique {gap' rest' : List Char} (h : IsGap rest gap) (h' : IsGap rest' gap')
    (hrest : ¬ AtLayout rest) (hrest' : ¬ AtLayout rest') (htext : gap ++ rest = gap' ++ rest') :
    gap = gap' ∧ rest = rest' := by
  induction h generalizing gap' with
  | nil =>
    cases h' with
    | nil => exact ⟨rfl, htext⟩
    | space hc hgap =>
      rw [List.nil_append] at htext
      exact absurd (htext ▸ atLayout_of_isWhiteSpace hc) hrest
    | comment hrun hgap =>
      rw [List.nil_append] at htext
      exact absurd (htext ▸ atLayout_of_comment) hrest
  | @space c gap hc hgap ih =>
    cases h' with
    | nil =>
      rw [List.nil_append] at htext
      exact absurd (htext ▸ atLayout_of_isWhiteSpace hc) hrest'
    | space hc' hgap' =>
      obtain ⟨rfl, htail⟩ := List.cons.inj htext
      obtain ⟨rfl, rfl⟩ := ih hgap' htail
      exact ⟨rfl, rfl⟩
    | comment hrun hgap' =>
      obtain ⟨rfl, -⟩ := List.cons.inj htext
      exact absurd hc not_isWhiteSpace_slash
  | @comment body gap hrun hgap ih =>
    cases h' with
    | nil =>
      rw [List.nil_append] at htext
      exact absurd (htext ▸ atLayout_of_comment) hrest'
    | space hc' hgap' =>
      obtain ⟨rfl, -⟩ := List.cons.inj htext
      exact absurd hc' not_isWhiteSpace_slash
    | @comment body' gap' hrun' hgap' =>
      simp only [List.cons_append, List.append_assoc, List.cons.injEq, true_and] at htext
      -- both bodies are the run up to the next line feed
      have hbody : body = body' := by rw [← hrun.takeWhile, htext, hrun'.takeWhile]
      subst hbody
      obtain ⟨rfl, rfl⟩ := ih hgap' (List.append_cancel_left htext)
      exact ⟨rfl, rfl⟩

/-! ## In front of white space -/

theorem not_isWordPart_of_isWhiteSpace {c : Char} (h : isWhiteSpace c) :
    isWordPart c = false ∧ c.isDigit = false := by
  rw [isWhiteSpace, Unicode.inRanges_iff Unicode.ascendFrom_whiteSpaceRanges] at h
  obtain ⟨r, hr, hfirst, hlast⟩ := h
  have hall : ∀ r ∈ Unicode.whiteSpaceRanges, ∀ n ∈ List.range' r.1 (r.2 + 1 - r.1),
      Unicode.inRanges Unicode.alphabeticRanges n = false ∧
        Unicode.inRanges Unicode.decimalDigitRanges n = false ∧ n ≠ 0x5F ∧
          (n < 0x30 ∨ 0x39 < n) := by
    decide +kernel
  obtain ⟨halpha, hnumber, hunderscore, hdigit⟩ :=
    hall r hr c.toNat (List.mem_range'_1.2 ⟨hfirst, by omega⟩)
  refine ⟨?_, ?_⟩
  · have hne : c ≠ '_' := by
      rintro rfl
      exact hunderscore rfl
    simp [isWordPart, Unicode.isAlphabetic, Unicode.isDecimalDigit, halpha, hnumber, hne]
  · rw [← Bool.not_eq_true]
    intro hc
    simp only [Char.isDigit, Bool.and_eq_true, decide_eq_true_eq, ge_iff_le,
      UInt32.le_iff_toNat_le] at hc
    have hlow : 0x30 ≤ c.toNat := hc.1
    have hhigh : c.toNat ≤ 0x39 := hc.2
    omega

/-- Whether `rest'` begins as `rest` does, or with white space. White space stops what the end of
the text would stop, so lexemes in front of `rest` are lexemes in front of `rest'`. -/
def SpacedLike (rest rest' : List Char) : Prop :=
  ∀ c ∈ rest'.head?, isWhiteSpace c ∨ c ∈ rest.head?

variable {rest' : List Char}

theorem IsRun.of_spacedLike {q : Char → Bool} {run : List Char} (h : IsRun q run rest)
    (hrest : SpacedLike rest rest') (hq : ∀ c, isWhiteSpace c → q c = false) :
    IsRun q run rest' := by
  refine ⟨h.1, fun c hc => ?_⟩
  rcases hrest c hc with hc | hc
  · exact hq c hc
  · exact h.2 c hc

theorem AtLayout.of_spacedLike {c : Char} (h : AtLayout (c :: rest'))
    (hrest : SpacedLike rest rest') : AtLayout (c :: rest) := by
  rcases h.cases with ⟨d, ds, htext, hspace⟩ | ⟨ds, htext⟩
  · obtain ⟨rfl, -⟩ := List.cons.inj htext
    exact atLayout_of_isWhiteSpace hspace
  · obtain ⟨rfl, rfl⟩ := List.cons.inj htext
    rcases hrest '/' rfl with hspace | hhead
    · exact absurd hspace not_isWhiteSpace_slash
    · obtain ⟨es, rfl⟩ := List.head?_eq_some_iff.1 hhead
      exact atLayout_of_comment

theorem eq_of_pair {c d : Char} (h : String.ofList [c, d] ∈ pairOperators) : d = '=' := by
  have hlast : ∀ s ∈ pairOperators, s.toList.getLast? = some '=' := by decide
  simpa using hlast _ h

theorem IsLexeme.of_spacedLike {lexeme : List Char} {kind : TokenKind} {value : String}
    (h : IsLexeme rest lexeme kind value) (hrest : SpacedLike rest rest') :
    IsLexeme rest' lexeme kind value := by
  have hword : ∀ c, isWhiteSpace c → isWordPart c = false :=
    fun c hc => (not_isWordPart_of_isWhiteSpace hc).1
  have hdigit : ∀ c, isWhiteSpace c → c.isDigit = false :=
    fun c hc => (not_isWordPart_of_isWhiteSpace hc).2
  cases h with
  | keyword hc hrun hmem => exact .keyword hc (hrun.of_spacedLike hrest hword) hmem
  | identifier hc hrun hmem => exact .identifier hc (hrun.of_spacedLike hrest hword) hmem
  | number hc hrun => exact .number hc (hrun.of_spacedLike hrest hdigit)
  | string hbody => exact .string hbody
  | pair hpair => exact .pair hpair
  | single hc hpair =>
    refine .single hc fun d hd hmem => ?_
    rcases hrest d hd with hspace | hd
    · rw [eq_of_pair hmem] at hspace
      exact absurd hspace (by decide)
    · exact hpair d hd hmem
  | symbol hword hdigit hquote hc => exact .symbol hword hdigit hquote hc

/-! ## Scans -/

namespace Token

theorem scan_open {p : Position} {cs : List Char} (h : Quoted.body? cs = none) :
    scan p ('"' :: cs) = .error ⟨.unterminatedString, p⟩ :=
  scan_of_none (by rw [first?_quote, h, Option.map_none])

theorem scan_gap {p : Position} (h : IsGap rest gap) :
    scan p (gap ++ rest) = scan (p.after gap) rest := by
  induction h generalizing p with
  | nil => rfl
  | @space c gap hc hgap ih => rw [List.cons_append, scan_whiteSpace hc, ih, Position.after_cons]
  | @comment body gap hrun hgap ih =>
    rw [List.append_assoc, scan_comment hrun, ih, Position.after_append]

/-- A successful scan reads a gap up to the end, or a gap and a lexeme before the next scan. -/
theorem scan_induct {motive : Position → List Char → List Token → Prop}
    (last : ∀ p gap, IsGap [] gap → motive p gap [endOfFile (p.after gap)])
    (part : ∀ p gap lexeme rest kind value ts, IsGap (lexeme ++ rest) gap →
      ¬ AtLayout (lexeme ++ rest) → IsLexeme rest lexeme kind value →
      motive ((p.after gap).after lexeme) rest ts →
      motive p (gap ++ (lexeme ++ rest))
        (⟨kind, value, ⟨p.after gap, (p.after gap).after lexeme⟩⟩ :: ts))
    {p : Position} {text : List Char} {ts : List Token} (h : scan p text = .ok ts) :
    motive p text ts := by
  induction hn : text.length using Nat.strongRecOn generalizing p text ts with
  | _ n ih =>
    subst hn
    obtain ⟨gap, rest, rfl, hgap, hrest⟩ := exists_gap text
    rw [scan_gap hgap] at h
    cases rest with
    | nil =>
      rw [scan_nil] at h
      cases h
      rw [List.append_nil]
      exact last p gap hgap
    | cons c cs =>
      obtain ⟨lexeme, rest, kind, value, us, htext, hlexeme, hscan, rfl⟩ :=
        exists_lexeme_of_scan hrest h
      rw [htext] at hgap hrest ⊢
      have hlt : rest.length < (gap ++ (lexeme ++ rest)).length := by
        have hpos := List.length_pos_iff.2 hlexeme.ne_nil
        simp only [List.length_append]
        omega
      rw [htext] at ih
      exact part p gap lexeme rest kind value us hgap hrest hlexeme (ih rest.length hlt hscan rfl)

theorem exists_lexeme_of_mem {p : Position} {text : List Char} {ts : List Token} {t : Token}
    (h : scan p text = .ok ts) (ht : t ∈ ts) (hend : t.isEndOfFile = false) :
    ∃ before lexeme rest, text = before ++ (lexeme ++ rest) ∧
      IsLexeme rest lexeme t.kind t.value ∧
      t.span = ⟨p.after before, p.after (before ++ lexeme)⟩ := by
  have hall := scan_induct (motive := fun p text ts => t ∈ ts →
    ∃ before lexeme rest, text = before ++ (lexeme ++ rest) ∧
      IsLexeme rest lexeme t.kind t.value ∧
      t.span = ⟨p.after before, p.after (before ++ lexeme)⟩) ?_ ?_ h
  · exact hall ht
  · intro p gap _ ht
    obtain rfl := List.mem_singleton.1 ht
    cases hend
  · intro p gap lexeme rest kind value ts _ _ hlexeme ih ht
    rcases List.mem_cons.1 ht with rfl | ht
    · refine ⟨gap, lexeme, rest, rfl, hlexeme, ?_⟩
      rw [Position.after_append]
    · obtain ⟨before, lexeme', rest', rfl, hlexeme', hspan⟩ := ih ht
      refine ⟨gap ++ lexeme ++ before, lexeme', rest', by simp, hlexeme', ?_⟩
      simp only [hspan, Position.after_append]

end Token

/-! ## Decompositions -/

/-- A gap and the lexeme behind it, with what the lexeme stands for. -/
structure Part where
  gap : List Char
  lexeme : List Char
  kind : TokenKind
  value : String

/-- A text as parts and a gap behind them. -/
inductive Decomposes : List Char → List Part → List Char → Prop
  | last {gap : List Char} : IsGap [] gap → Decomposes gap [] gap
  | part {gap lexeme rest last : List Char} {kind : TokenKind} {value : String}
      {parts : List Part} : IsGap (lexeme ++ rest) gap → ¬ AtLayout (lexeme ++ rest) →
      IsLexeme rest lexeme kind value → Decomposes rest parts last →
      Decomposes (gap ++ (lexeme ++ rest)) (⟨gap, lexeme, kind, value⟩ :: parts) last

/-- The tokens of parts and a gap that stand behind the text `before`, each at its own place. -/
inductive AreTokens : List Char → List Part → List Char → List Token → Prop
  | last {before gap : List Char} {p : Position} : p.At (before ++ gap) →
      AreTokens before [] gap [.endOfFile p]
  | part {before gap lexeme last : List Char} {kind : TokenKind} {value : String}
      {parts : List Part} {start stop : Position} {ts : List Token} :
      start.At (before ++ gap) → stop.At (before ++ gap ++ lexeme) →
      AreTokens (before ++ gap ++ lexeme) parts last ts →
      AreTokens before (⟨gap, lexeme, kind, value⟩ :: parts) last
        (⟨kind, value, ⟨start, stop⟩⟩ :: ts)

theorem Decomposes.unique {text last last' : List Char} {parts parts' : List Part}
    (h : Decomposes text parts last) (h' : Decomposes text parts' last') :
    parts = parts' ∧ last = last' := by
  induction h generalizing parts' last' with
  | @last gap hgap =>
    generalize htext : gap = text at h'
    cases h' with
    | last hgap' => exact ⟨rfl, rfl⟩
    | @part gap' lexeme rest _ _ _ _ hgap' hrest' hlexeme _ =>
      have heq : gap ++ [] = gap' ++ (lexeme ++ rest) := by rw [List.append_nil, htext]
      obtain ⟨-, hempty⟩ := hgap.unique hgap' not_atLayout_nil hrest' heq
      exact absurd (List.append_eq_nil_iff.1 hempty.symm).1 hlexeme.ne_nil
  | @part gap lexeme rest last kind value parts hgap hrest hlexeme _ ih =>
    generalize htext : gap ++ (lexeme ++ rest) = text at h'
    cases h' with
    | last hgap' =>
      obtain ⟨-, hempty⟩ :=
        hgap.unique hgap' hrest not_atLayout_nil (by rw [htext, List.append_nil])
      exact absurd (List.append_eq_nil_iff.1 hempty).1 hlexeme.ne_nil
    | part hgap' hrest' hlexeme' h' =>
      obtain ⟨rfl, hbehind⟩ := hgap.unique hgap' hrest hrest' htext
      obtain ⟨rfl, rfl, rfl, rfl⟩ := hlexeme.unique hlexeme' hrest hbehind
      obtain ⟨rfl, rfl⟩ := ih h'
      exact ⟨rfl, rfl⟩

/-! ## Sources -/

theorem Position.At.after_part {p : Position} {before gap lexeme rest : List Char}
    (hp : p.At before) (hlen : (before ++ (gap ++ (lexeme ++ rest))).length < UInt32.size - 1) :
    (p.after gap).At (before ++ gap) ∧ ((p.after gap).after lexeme).At (before ++ gap ++ lexeme) ∧
      (before ++ gap ++ lexeme ++ rest).length < UInt32.size - 1 := by
  have hgap : (before ++ gap).length < UInt32.size - 1 := by
    simp only [List.length_append] at hlen ⊢
    omega
  have hlexeme : (before ++ gap ++ lexeme).length < UInt32.size - 1 := by
    simp only [List.length_append] at hlen ⊢
    omega
  have hstart := hp.after gap hgap
  refine ⟨hstart, hstart.after lexeme hlexeme, ?_⟩
  simpa only [List.append_assoc] using hlen

namespace Token

variable {p : Position} {before text : List Char} {ts : List Token}

/-- What a scan reads is the decomposition of its text. -/
theorem exists_decomposes_of_scan (h : scan p text = .ok ts) (hp : p.At before)
    (hlen : (before ++ text).length < UInt32.size - 1) :
    ∃ parts last, Decomposes text parts last ∧ AreTokens before parts last ts := by
  have hall := scan_induct (motive := fun p text ts => ∀ before, p.At before →
    (before ++ text).length < UInt32.size - 1 →
      ∃ parts last, Decomposes text parts last ∧ AreTokens before parts last ts) ?_ ?_ h
  · exact hall before hp hlen
  · intro p gap hgap before hp hlen
    exact ⟨[], gap, .last hgap, .last (hp.after gap hlen)⟩
  · intro p gap lexeme rest kind value ts hgap hrest hlexeme ih before hp hlen
    obtain ⟨hstart, hstop, hbehind⟩ := hp.after_part hlen
    obtain ⟨parts, last, hparts, htokens⟩ := ih _ hstop hbehind
    exact ⟨⟨gap, lexeme, kind, value⟩ :: parts, last, .part hgap hrest hlexeme hparts,
      .part hstart hstop htokens⟩

/-- A scan reads what the decomposition of its text holds. -/
theorem scan_of_decomposes {parts : List Part} {last : List Char} (h : Decomposes text parts last)
    (htokens : AreTokens before parts last ts) (hp : p.At before)
    (hlen : (before ++ text).length < UInt32.size - 1) : scan p text = .ok ts := by
  induction h generalizing p before ts with
  | @last gap hgap =>
    cases htokens with
    | last hend =>
      obtain rfl := (hp.after gap hlen).unique hend
      have hscan := scan_gap (p := p) hgap
      rwa [List.append_nil, scan_nil] at hscan
  | @part gap lexeme rest last kind value parts hgap hrest hlexeme _ ih =>
    cases htokens with
    | part hstart hstop hts =>
      obtain ⟨hstart', hstop', hbehind⟩ := hp.after_part hlen
      obtain rfl := hstart'.unique hstart
      obtain rfl := hstop'.unique hstop
      rw [scan_gap hgap, scan_lexeme hlexeme hrest, ih hts hstop hbehind]
      rfl

/-- **Reading is decomposing.** A source that the counters can count is read into the tokens of its
decomposition into gaps and lexemes, with the spans of the lexemes, and not at all if it has none;
and it has no two. -/
theorem ofSource_iff_decomposes (source : String) (hlen : source.length < UInt32.size - 1) :
    (∀ ts, ofSource source = .ok ts ↔
      ∃ parts last, Decomposes source.toList parts last ∧ AreTokens [] parts last ts) ∧
    ∀ parts parts' last last', Decomposes source.toList parts last →
      Decomposes source.toList parts' last' → parts = parts' ∧ last = last' := by
  have hlist : ([] ++ source.toList).length < UInt32.size - 1 := by
    rwa [List.nil_append, String.length_toList]
  refine ⟨fun ts => ⟨fun h => ?_, ?_⟩, fun _ _ _ _ h h' => h.unique h'⟩
  · rw [ofSource_eq_scan] at h
    exact exists_decomposes_of_scan h Position.at_start hlist
  · rintro ⟨parts, last, hparts, htokens⟩
    rw [ofSource_eq_scan]
    exact scan_of_decomposes hparts htokens Position.at_start hlist

/-- A string literal with an escape, and an operator behind a gap. -/
theorem ofSource_iff_decomposes_string : "\"\\n\" +".length < UInt32.size - 1 ∧
    ∃ parts last, Decomposes "\"\\n\" +".toList parts last ∧
      AreTokens [] parts last [⟨.string, "\n", ⟨⟨1, 1⟩, ⟨1, 5⟩⟩⟩,
        ⟨.operator, "+", ⟨⟨1, 6⟩, ⟨1, 7⟩⟩⟩, .endOfFile ⟨1, 7⟩] := by
  have hlen : "\"\\n\" +".length < UInt32.size - 1 := by decide
  have hliteral : Piece.first? '"' ['\\', 'n', '"', ' ', '+'] = some (.literal ['\\', 'n']) := rfl
  have hmark : Piece.first? '+' [] = some (.operator ['+']) := rfl
  refine ⟨hlen, ((ofSource_iff_decomposes "\"\\n\" +" hlen).1 _).1 ?_⟩
  rw [ofSource_eq_scan, show "\"\\n\" +".toList = ['"', '\\', 'n', '"', ' ', '+'] from rfl,
    scan_of_some hliteral]
  dsimp only [Piece.text, List.cons_append, List.nil_append, List.length, List.drop]
  rw [scan_whiteSpace (by decide), scan_of_some hmark]
  dsimp only [Piece.text, List.length, List.drop]
  rw [scan_nil]
  rfl

end Token

end SpaceLang
