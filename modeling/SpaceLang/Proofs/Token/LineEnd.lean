import Mathlib.Data.List.Forall2
import SpaceLang.Proofs.Diagnostic.OneLine
import SpaceLang.Proofs.Source.LineEnd

/-!
# Tokens behind other line ends

With a carriage return in front of every line feed, a source has the same tokens
(`Token.areReturned_scan`): the carriage return is white space where the line feed is, it ends
words and numbers alike, and it is in a comment where it ends one. Only a string literal that goes
on over the end of a line has it in its value. `Quoted.origins` says which characters of a value are
line feeds of the literal and which are written as escapes, and `Quoted.withReturns` is the value
with a carriage return in front of the former.
-/

namespace SpaceLang

variable {c : Char} {cs raw rest lexeme : List Char} {kind : TokenKind} {value : String}

/-! ## String literals -/

namespace Quoted

/-- The characters that a body stands for, each with the character of the body that says so. -/
def origins : List Char → List (Char × Char)
  | [] => []
  | ['\\'] => []
  | '\\' :: c :: cs => (escaped c, c) :: origins cs
  | c :: cs => (c, c) :: origins cs

/-- The text that a body stands for, with a carriage return in front of the line feeds that are in
the body. -/
def withReturns (body : List Char) : List Char :=
  (origins body).flatMap fun origin => if origin.2 = '\n' then ['\r', '\n'] else [origin.1]

theorem origins_plain (h : c ≠ '\\') : origins (c :: cs) = (c, c) :: origins cs := by
  rw [origins]
  · exact fun h' => absurd h' h
  · exact fun _ _ h' => absurd h' h

theorem unescape_eq_map_origins (body : List Char) :
    unescape body = (origins body).map Prod.fst := by
  induction body using escape_induct with
  | nil => rfl
  | backslash => rfl
  | escape c cs ih => rw [unescape, ih, origins, List.map_cons]
  | plain c cs hback ih => rw [unescape_plain hback, ih, origins_plain hback, List.map_cons]

theorem unescape_crlf (body : List Char) : unescape (crlf body) = withReturns body := by
  unfold withReturns
  induction body using escape_induct with
  | nil => rfl
  | backslash => rfl
  | escape c cs ih =>
    rw [origins, List.flatMap_cons]
    by_cases hc : c = '\n'
    · subst hc
      rw [crlf_cons (by decide), crlf_newline, unescape, unescape_plain (by decide), ih]
      rfl
    · rw [crlf_cons (by decide), crlf_cons hc, unescape, ih, if_neg hc]
      rfl
  | plain c cs hback ih =>
    rw [origins_plain hback, List.flatMap_cons]
    by_cases hc : c = '\n'
    · subst hc
      rw [crlf_newline, unescape_plain (by decide), unescape_plain (by decide), ih]
      rfl
    · rw [crlf_cons hc, unescape_plain hback, ih, if_neg hc]
      rfl

example : withReturns "a\\n\n\\\n".toList = "a\n\r\n\r\n".toList := by decide

theorem body?_crlf (cs : List Char) : body? (crlf cs) = (body? cs).map crlf := by
  induction cs using escape_induct with
  | nil => rfl
  | backslash => rfl
  | escape c cs ih =>
    have hback : '\\' ≠ '\n' := by decide
    by_cases hc : c = '\n'
    · subst hc
      rw [crlf_cons hback, crlf_newline, body?_escape, body?_plain (by decide) (by decide), ih,
        body?_escape, Option.map_map, Option.map_map, Option.map_map]
      congr 1
    · rw [crlf_cons hback, crlf_cons hc, body?_escape, ih, body?_escape, Option.map_map,
        Option.map_map]
      congr 1
      funext body
      exact (congrArg _ (crlf_cons hc)).symm.trans (crlf_cons hback).symm
  | plain c cs hback ih =>
    by_cases hquote : c = '"'
    · subst hquote
      rfl
    by_cases hc : c = '\n'
    · subst hc
      rw [crlf_newline, body?_plain (by decide) (by decide), body?_plain hquote hback, ih,
        body?_plain hquote hback, Option.map_map, Option.map_map, Option.map_map]
      congr 1
    · rw [crlf_cons hc, body?_plain hquote hback, ih, body?_plain hquote hback, Option.map_map,
        Option.map_map]
      congr 1
      funext body
      exact (crlf_cons hc).symm

theorem withReturns_of_not_mem {body : List Char} (h : '\n' ∉ body) :
    withReturns body = (origins body).map Prod.fst := by
  rw [← unescape_crlf, crlf_eq_self h, unescape_eq_map_origins]

theorem IsBody.crlf {text : List Char} (h : IsBody raw text) :
    IsBody (crlf raw) (withReturns raw) := by
  have hbody := body?_crlf (raw ++ ['"'])
  rw [h.body?, Option.map_some] at hbody
  obtain ⟨value, hvalue⟩ := isBody_of_body? hbody
  rwa [← unescape_crlf, hvalue.unescape]

end Quoted

/-! ## Lexemes -/

/-- At the beginning of a text nothing changes but a line feed, which gets a carriage return in
front of it. -/
theorem spacedLike_crlf (cs : List Char) : SpacedLike cs (crlf cs) := by
  intro c hc
  cases cs with
  | nil => exact .inr hc
  | cons d cs =>
    by_cases hd : d = '\n'
    · subst hd
      rw [crlf_newline] at hc
      obtain rfl : '\r' = c := Option.some.inj hc
      exact .inl (by decide)
    · rw [crlf_cons hd] at hc
      exact .inr hc

theorem AtLayout.of_crlf (h : AtLayout (crlf cs)) : AtLayout cs := by
  cases cs with
  | nil => exact h
  | cons c cs =>
    by_cases hc : c = '\n'
    · subst hc
      exact atLayout_of_isWhiteSpace (by decide)
    · rw [crlf_cons hc] at h
      exact h.of_spacedLike (spacedLike_crlf cs)

theorem IsLexeme.not_mem (h : IsLexeme rest lexeme kind value) (hkind : kind ≠ .string)
    (hstart : ¬ AtLayout (lexeme ++ rest)) : '\n' ∉ lexeme := by
  have hvalue : value.toList = lexeme := by
    cases h with
    | string => exact absurd rfl hkind
    | keyword | identifier | number | pair | single | symbol => exact String.toList_ofList
  rw [← hvalue]
  exact ((h.isLexical hstart).isOneLine hkind).not_mem

/-! ## Tokens -/

namespace Token

/-- Whether `t` is the token of a string literal with the body `body` in a text that begins
at `p`. -/
def IsLiteral (t : Token) (p : Position) (text body : List Char) : Prop :=
  ∃ before behind value, text = before ++ ('"' :: body ++ ['"'] ++ behind) ∧
    Quoted.IsBody body value ∧
    t = ⟨.string, String.ofList value,
      ⟨p.after before, (p.after before).after ('"' :: body ++ ['"'])⟩⟩

/-- Whether `t'` is the token `t` of a text that begins at `p`, read with a carriage return in front
of every line feed of the text. -/
structure IsReturned (p : Position) (text : List Char) (t t' : Token) : Prop where
  kind : t'.kind = t.kind
  span : t'.span = t.span
  value : t.kind ≠ .string → t'.value = t.value
  literal : t.kind = .string → ∃ body, t.IsLiteral p text body ∧
    t.value = String.ofList ((Quoted.origins body).map Prod.fst) ∧
    t'.value = String.ofList (Quoted.withReturns body)

/-- Whether a text that begins at `p` is read as `r`, and as `r'` with a carriage return in front of
every line feed. -/
inductive AreReturned (p : Position) (text : List Char) :
    Except Diagnostic (List Token) → Except Diagnostic (List Token) → Prop
  | error (e : Diagnostic) : AreReturned p text (.error e) (.error e)
  | ok {ts ts' : List Token} : List.Forall₂ (IsReturned p text) ts ts' →
      AreReturned p text (.ok ts) (.ok ts')

variable {p : Position} {text body : List Char} {t t' : Token}
  {r r' : Except Diagnostic (List Token)}

theorem IsLiteral.append_left (front : List Char) (h : t.IsLiteral (p.after front) text body) :
    t.IsLiteral p (front ++ text) body := by
  obtain ⟨before, behind, value, rfl, hbody, rfl⟩ := h
  refine ⟨front ++ before, behind, value, ?_, hbody, ?_⟩
  · simp only [List.append_assoc]
  · rw [Position.after_append p front before]

theorem IsReturned.append_left (front : List Char) (h : IsReturned (p.after front) text t t') :
    IsReturned p (front ++ text) t t' := by
  refine ⟨h.kind, h.span, h.value, fun hkind => ?_⟩
  obtain ⟨body, hbody, hvalue⟩ := h.literal hkind
  exact ⟨body, hbody.append_left front, hvalue⟩

theorem isReturned_self (h : t.kind ≠ .string) : IsReturned p text t t :=
  ⟨rfl, rfl, fun _ => rfl, fun hkind => absurd hkind h⟩

theorem IsReturned.eq (h : IsReturned p text t t')
    (hfree : ∀ body, t.IsLiteral p text body → '\n' ∉ body) : t' = t := by
  have hvalue : t'.value = t.value := by
    by_cases hkind : t.kind = .string
    · obtain ⟨body, hbody, hvalue, hvalue'⟩ := h.literal hkind
      rw [hvalue, hvalue', Quoted.withReturns_of_not_mem (hfree body hbody)]
    · exact h.value hkind
  cases t
  cases t'
  exact (mk.injEq ..).mpr ⟨h.kind, hvalue, h.span⟩

theorem AreReturned.append_left (front : List Char) (h : AreReturned (p.after front) text r r') :
    AreReturned p (front ++ text) r r' := by
  cases h with
  | error e => exact .error e
  | ok hts => exact .ok (hts.imp fun _ _ => IsReturned.append_left front)

theorem AreReturned.cons (ht : IsReturned p text t t') (h : AreReturned p text r r') :
    AreReturned p text (r.map (t :: ·)) (r'.map (t' :: ·)) := by
  cases h with
  | error e => exact .error e
  | ok hts => exact .ok (.cons ht hts)

theorem AreReturned.eq (h : AreReturned p text r r')
    (hfree : ∀ ts, r = .ok ts → ∀ t ∈ ts, ∀ body, t.IsLiteral p text body → '\n' ∉ body) :
    r' = r := by
  cases h with
  | error e => rfl
  | @ok ts ts' hts =>
    have hboth := (List.forall₂_and_left ts ts').2 ⟨hfree ts rfl, hts⟩
    have heq : List.Forall₂ (· = ·) ts ts' := hboth.imp fun _ _ h => (h.2.eq h.1).symm
    rw [List.forall₂_eq_eq_eq] at heq
    rw [heq]

/-! ### Scanning -/

theorem scan_return (cs : List Char) :
    scan p ('\r' :: '\n' :: cs) = scan (p.next '\n') cs := by
  rw [scan_whiteSpace (by decide), scan_whiteSpace (by decide), Position.next_return]

theorem scan_comment_crlf (h : IsRun (· ≠ '\n') body rest) :
    scan p (crlf ('/' :: '/' :: body ++ rest)) =
      scan (p.after ('/' :: '/' :: body)) (crlf rest) := by
  have hbody : '\n' ∉ '/' :: '/' :: body := by
    have hfree : '\n' ∉ body := fun hmem => absurd (h.1 _ hmem) (by decide)
    simpa using hfree
  rw [crlf_append, crlf_eq_self hbody]
  cases rest with
  | nil => exact scan_comment h
  | cons c cs =>
    -- The comment takes the carriage return in, and the line feed is white space as before.
    obtain rfl : c = '\n' := by simpa using h.2 c rfl
    have hrun : IsRun (· ≠ '\n') (body ++ ['\r']) ('\n' :: crlf cs) := by
      refine ⟨?_, by simp⟩
      rw [List.forall_mem_append]
      exact ⟨h.1, by simp⟩
    have hscan := scan_comment (p := p) hrun
    rw [← List.cons_append, ← List.cons_append, List.append_assoc, Position.after_append,
      scan_whiteSpace (by decide)] at hscan
    rw [crlf_newline, scan_return]
    exact hscan

theorem scan_lexeme_crlf (h : IsLexeme rest lexeme kind value)
    (hstart : ¬ AtLayout (lexeme ++ rest)) :
    ∃ t t', scan p (lexeme ++ rest) = (scan (p.after lexeme) rest).map (t :: ·) ∧
      scan p (crlf (lexeme ++ rest)) = (scan (p.after lexeme) (crlf rest)).map (t' :: ·) ∧
      IsReturned p (lexeme ++ rest) t t' := by
  have hstart' : ¬ AtLayout (crlf lexeme ++ crlf rest) := by
    rw [← crlf_append]
    exact fun h => hstart h.of_crlf
  have hscan := scan_lexeme (p := p) h hstart
  rw [crlf_append]
  by_cases hkind : kind = .string
  · subst hkind
    cases h with
    | @string raw value hbody =>
      have hlexeme : crlf ('"' :: raw ++ ['"']) = '"' :: crlf raw ++ ['"'] := by
        rw [crlf_append, crlf_cons (by decide)]
        rfl
      have hscan' := scan_lexeme (p := p) (.string hbody.crlf) (hlexeme ▸ hstart')
      rw [← hlexeme, Position.after_crlf] at hscan'
      refine ⟨_, _, hscan, hscan', rfl, rfl, fun hkind => absurd rfl hkind, fun _ => ?_⟩
      refine ⟨raw, ⟨[], rest, value, rfl, hbody, rfl⟩, ?_, rfl⟩
      rw [← Quoted.unescape_eq_map_origins, hbody.unescape]
  · rw [crlf_eq_self (h.not_mem hkind hstart)] at hstart' ⊢
    have hscan' := scan_lexeme (p := p) (h.of_spacedLike (spacedLike_crlf rest)) hstart'
    exact ⟨_, _, hscan, hscan', isReturned_self hkind⟩

/-- **Line ends change no token.** With a carriage return in front of every line feed, a text is cut
into the same tokens at the same places, but for the line feeds in the values of string literals. -/
theorem areReturned_scan (text : List Char) (p : Position) :
    AreReturned p text (scan p text) (scan p (crlf text)) := by
  induction text using text_induct generalizing p with
  | nil =>
    rw [crlf_nil, scan_nil]
    exact .ok (.cons (isReturned_self (by simp [endOfFile])) .nil)
  | space c cs hspace ih =>
    rw [scan_whiteSpace hspace]
    by_cases hc : c = '\n'
    · subst hc
      rw [crlf_newline, scan_return]
      exact (ih (p.next '\n')).append_left ['\n']
    · rw [crlf_cons hc, scan_whiteSpace hspace]
      exact (ih (p.next c)).append_left [c]
  | comment body rest hrun ih =>
    rw [scan_comment hrun, scan_comment_crlf hrun]
    exact (ih _).append_left _
  | lexeme lexeme rest kind value hstart hlexeme ih =>
    obtain ⟨t, t', hscan, hscan', ht⟩ := scan_lexeme_crlf (p := p) hlexeme hstart
    rw [hscan, hscan']
    exact ((ih (p.after lexeme)).append_left lexeme).cons ht
  | literal cs hbody =>
    have hbody' : Quoted.body? (crlf cs) = none := by rw [Quoted.body?_crlf, hbody, Option.map_none]
    rw [scan_open hbody, crlf_cons (by decide), scan_open hbody']
    exact .error _

end Token

end SpaceLang
