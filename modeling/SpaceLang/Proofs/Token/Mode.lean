import SpaceLang.Proofs.Grammar.Module
import SpaceLang.Proofs.Rule.Blame
import SpaceLang.Proofs.Token.Decomposition

/-!
# Open string literals

A `Scanner` reads a text one character at a time and knows of it only to what the character belongs:
to code, to a comment or to a string literal. It keeps the index of the quote at which the last
literal began. This is all that it takes to tell where a source cannot be cut into tokens
(`Token.ofSource_error_iff_open`): the scanner ends inside a literal, which is the one that the
diagnostic is about.

The proof follows the pieces of the text (`Scanner.agrees`): white space, comments and lexemes lead
the scanner from code to code (`run_comment`, `run_lexeme`), and a literal that nothing closes does
not (`run_open`).
-/

namespace SpaceLang

open Unicode (isWhiteSpace)
open Piece (isWordPart)

/-- What a character can belong to. -/
inductive Mode where
  | code
  | comment
  | string
  /-- Behind a backslash in a string literal. -/
  | escape
deriving DecidableEq, Repr

/-- The mode behind the character `c`, with `rest` to follow. -/
def Mode.next (mode : Mode) (c : Char) (rest : List Char) : Mode :=
  match mode with
  | .code =>
    if c = '"' then .string else if c = '/' ∧ rest.head? = some '/' then .comment else .code
  | .comment => if c = '\n' then .code else .comment
  | .string => if c = '\\' then .escape else if c = '"' then .code else .string
  | .escape => .string

/-- The mode behind the first `count` characters, and the index of the last one that led from code
into a string literal. -/
structure Scanner where
  mode : Mode
  count : Nat
  quote? : Option Nat
deriving DecidableEq, Repr

namespace Scanner

/-- Past the character `c`, with `rest` to follow. -/
def step (s : Scanner) (c : Char) (rest : List Char) : Scanner :=
  { mode := s.mode.next c rest
    count := s.count + 1
    quote? := if s.mode = .code ∧ c = '"' then some s.count else s.quote? }

/-- Past a text. -/
def run (s : Scanner) : List Char → Scanner
  | [] => s
  | c :: cs => (s.step c cs).run cs

/-- Past all of a source. -/
def ofSource (source : String) : Scanner := run ⟨.code, 0, none⟩ source.toList

/-- Whether a scanner is inside a string literal. -/
def IsOpen (s : Scanner) : Prop := s.mode = .string ∨ s.mode = .escape

variable {n : Nat} {q : Option Nat} {c : Char} {cs raw value body lexeme rest : List Char}

/-! ## From code to code -/

theorem step_code (hquote : c ≠ '"') (hslash : c = '/' → rest.head? ≠ some '/') :
    step ⟨.code, n, q⟩ c rest = ⟨.code, n + 1, q⟩ := by
  have hcomment : ¬ (c = '/' ∧ rest.head? = some '/') := fun h => hslash h.1 h.2
  simp [step, Mode.next, hquote, hcomment]

theorem run_code (h : ∀ c ∈ cs, c ≠ '"' ∧ c ≠ '/') :
    run ⟨.code, n, q⟩ (cs ++ rest) = run ⟨.code, n + cs.length, q⟩ rest := by
  induction cs generalizing n with
  | nil => rfl
  | cons c cs ih =>
    obtain ⟨⟨hquote, hslash⟩, hcs⟩ := List.forall_mem_cons.1 h
    rw [List.cons_append, run, step_code hquote (fun heq => absurd heq hslash), ih hcs,
      List.length_cons, Nat.add_assoc, Nat.add_comm 1]

theorem run_body (h : ∀ c ∈ body, c ≠ '\n') :
    run ⟨.comment, n, q⟩ (body ++ rest) = run ⟨.comment, n + body.length, q⟩ rest := by
  induction body generalizing n with
  | nil => rfl
  | cons c body ih =>
    obtain ⟨hc, hbody⟩ := List.forall_mem_cons.1 h
    have hstep : step ⟨.comment, n, q⟩ c (body ++ rest) = ⟨.comment, n + 1, q⟩ := by
      simp [step, Mode.next, hc]
    rw [List.cons_append, run, hstep, ih hbody, List.length_cons, Nat.add_assoc, Nat.add_comm 1]

theorem run_comment (h : IsRun (· ≠ '\n') body rest) :
    run ⟨.code, n, q⟩ ('/' :: '/' :: body ++ rest) =
      run ⟨.comment, n + ('/' :: '/' :: body).length, q⟩ rest := by
  have hbody : ∀ c ∈ body, c ≠ '\n' := by simpa using h.1
  have hslashes : ∀ c ∈ '/' :: '/' :: body, c ≠ '\n' := by simpa using hbody
  -- The first slash leads into the comment, and the second one is read as a part of it.
  show run ⟨.comment, n + 1, q⟩ ('/' :: body ++ rest) = _
  rw [run_body (List.forall_mem_cons.1 hslashes).2, Nat.add_assoc, Nat.add_comm 1]
  rfl

theorem run_escape :
    run ⟨.string, n, q⟩ ('\\' :: c :: rest) = run ⟨.string, n + 2, q⟩ rest := by
  show run (step (step ⟨.string, n, q⟩ '\\' (c :: rest)) c rest) rest = _
  have hstep : step (step ⟨.string, n, q⟩ '\\' (c :: rest)) c rest = ⟨.string, n + 2, q⟩ := by
    simp [step, Mode.next]
  rw [hstep]

theorem run_plain (hquote : c ≠ '"') (hback : c ≠ '\\') :
    run ⟨.string, n, q⟩ (c :: rest) = run ⟨.string, n + 1, q⟩ rest := by
  have hstep : step ⟨.string, n, q⟩ c rest = ⟨.string, n + 1, q⟩ := by
    simp [step, Mode.next, hquote, hback]
  rw [run, hstep]

theorem run_literal (h : Quoted.IsBody raw value) :
    run ⟨.string, n, q⟩ (raw ++ '"' :: rest) = run ⟨.code, n + raw.length + 1, q⟩ rest := by
  induction h generalizing n with
  | nil => rfl
  | plain hquote hback _ ih =>
    rw [List.cons_append, run_plain hquote hback, ih, List.length_cons]
    congr 2
    omega
  | lineFeed _ ih | carriageReturn _ ih | tab _ ih | other _ _ _ _ ih =>
    rw [List.cons_append, List.cons_append, run_escape, ih, List.length_cons, List.length_cons]
    congr 2
    omega

theorem ne_quote_and_slash {r : Char → Prop} (hc : r c) (hquote : ¬ r '"') (hslash : ¬ r '/') :
    c ≠ '"' ∧ c ≠ '/' := by
  constructor
  · rintro rfl
    exact hquote hc
  · rintro rfl
    exact hslash hc

/-- A lexeme leads from code to code. -/
theorem run_lexeme {kind : TokenKind} {text : String} (h : IsLexeme rest lexeme kind text)
    (hstart : ¬ AtLayout (lexeme ++ rest)) : ∃ q',
      run ⟨.code, n, q⟩ (lexeme ++ rest) = run ⟨.code, n + lexeme.length, q'⟩ rest := by
  have hword : ∀ c, isWordPart c → c ≠ '"' ∧ c ≠ '/' := fun c hc =>
    ne_quote_and_slash (r := fun c => isWordPart c) hc (by decide) (by decide)
  have hdigit : ∀ c : Char, c.isDigit → c ≠ '"' ∧ c ≠ '/' := fun c hc =>
    ne_quote_and_slash (r := fun c => c.isDigit) hc (by decide) (by decide)
  cases h with
  | keyword hc hrun | identifier hc hrun =>
    refine ⟨q, run_code (List.forall_mem_cons.2 ⟨?_, fun d hd => hword d (hrun.1 d hd)⟩)⟩
    exact hword _ (isWordPart_of_isWordStart hc)
  | number hc hrun =>
    exact ⟨q, run_code (List.forall_mem_cons.2 ⟨hdigit _ hc, fun d hd => hdigit d (hrun.1 d hd)⟩)⟩
  | @string raw value hbody =>
    refine ⟨some n, ?_⟩
    have hquote : '"' :: raw ++ ['"'] ++ rest = '"' :: (raw ++ '"' :: rest) := by simp
    rw [hquote]
    show run ⟨.string, n + 1, some n⟩ (raw ++ '"' :: rest) = _
    rw [run_literal hbody]
    congr 2
    simp only [List.length_append, List.length_cons, List.length_nil]
    omega
  | @pair c d hpair =>
    have hall : pairOperators.all (fun s => s.toList.all (fun c => c ≠ '"' ∧ c ≠ '/')) := by decide
    exact ⟨q, run_code (by simpa using List.all_eq_true.1 hall _ hpair)⟩
  | @single c hc hpair =>
    refine ⟨q, ?_⟩
    have hquote : c ≠ '"' := by
      rintro rfl
      exact absurd hc (by decide)
    have hslash : c = '/' → rest.head? ≠ some '/' := by
      rintro rfl hhead
      obtain ⟨cs, rfl⟩ := List.head?_eq_some_iff.1 hhead
      exact hstart atLayout_of_comment
    rw [List.cons_append, List.nil_append, run, step_code hquote hslash]
    rfl
  | @symbol c _ _ hquote hc =>
    have hslash : c ≠ '/' := by
      rintro rfl
      exact absurd hc (by decide)
    exact ⟨q, run_code (by simpa using ⟨hquote, hslash⟩)⟩

theorem run_open (h : Quoted.body? cs = none) :
    (run ⟨.string, n, q⟩ cs).IsOpen ∧ (run ⟨.string, n, q⟩ cs).quote? = q := by
  induction cs using Quoted.escape_induct generalizing n with
  | nil => exact ⟨.inl rfl, rfl⟩
  | backslash => exact ⟨.inr rfl, rfl⟩
  | escape c cs ih =>
    rw [run_escape]
    exact ih (Option.map_eq_none_iff.1 (Quoted.body?_escape ▸ h))
  | plain c cs hback ih =>
    have hquote : c ≠ '"' := by
      rintro rfl
      cases h
    rw [run_plain hquote hback]
    exact ih (Option.map_eq_none_iff.1 (Quoted.body?_plain hquote hback ▸ h))

/-! ## Scanners and scans -/

/-- Either a scan from `p` succeeds and the scanner is not inside a literal at the end, or the scan
fails at a quote, which is the one that the scanner has kept. -/
def Agrees (s : Scanner) (p : Position) (text : List Char) : Prop :=
  (∃ ts, Token.scan p text = .ok ts) ∧ ¬ (s.run text).IsOpen ∨
    ∃ before behind, text = before ++ '"' :: behind ∧
      Token.scan p text = .error ⟨.unterminatedString, p.after before⟩ ∧
      (s.run text).IsOpen ∧ (s.run text).quote? = some (s.count + before.length)

/-- What agrees on a text agrees with a piece in front of it. -/
theorem Agrees.prepend {s s' : Scanner} {p : Position} (front : List Char) (ts : List Token)
    (h : Agrees s' (p.after front) rest) (hrun : s.run (front ++ rest) = s'.run rest)
    (hcount : s'.count = s.count + front.length)
    (hscan : Token.scan p (front ++ rest) = (Token.scan (p.after front) rest).map (ts ++ ·)) :
    Agrees s p (front ++ rest) := by
  rcases h with ⟨⟨us, hus⟩, hclosed⟩ | ⟨before, behind, rfl, herror, hopen, hquote⟩
  · left
    rw [hscan, hus, hrun]
    exact ⟨⟨ts ++ us, rfl⟩, hclosed⟩
  · right
    refine ⟨front ++ before, behind, (List.append_assoc ..).symm, ?_, hrun ▸ hopen, ?_⟩
    · rw [hscan, herror, Position.after_append]
      rfl
    · rw [hrun, hquote, hcount, List.length_append, Nat.add_assoc]

theorem agrees (n : Nat) (q : Option Nat) (p : Position) (text : List Char) :
    Agrees ⟨.code, n, q⟩ p text := by
  have hskip : ∀ r : Except Diagnostic (List Token), r = r.map ([] ++ ·) := by
    rintro (_ | _) <;> rfl
  induction text using text_induct generalizing n q p with
  | nil => exact .inl ⟨⟨_, Token.scan_nil⟩, by simp [run, IsOpen]⟩
  | space c cs hc ih =>
    have hplain := ne_quote_and_slash (r := fun c => isWhiteSpace c) hc (by decide) (by decide)
    have hrun : run ⟨.code, n, q⟩ ([c] ++ cs) = run ⟨.code, n + 1, q⟩ cs :=
      run_code (by simpa using hplain)
    exact (ih (n + 1) q (p.next c)).prepend [c] [] hrun rfl
      ((Token.scan_whiteSpace hc).trans (hskip _))
  | comment body rest hbody ih =>
    have hscan := Token.scan_comment (p := p) hbody
    cases rest with
    | nil =>
      left
      rw [hscan, Token.scan_nil, run_comment hbody]
      exact ⟨⟨_, rfl⟩, by simp [run, IsOpen]⟩
    | cons c rest =>
      -- A line feed ends the comment, and in code it makes no difference.
      obtain rfl : c = '\n' := by simpa using hbody.2 c rfl
      exact (ih _ q _).prepend _ [] (run_comment hbody) rfl (hscan.trans (hskip _))
  | lexeme lexeme rest kind value hstart hlexeme ih =>
    obtain ⟨q', hrun⟩ := run_lexeme (n := n) (q := q) hlexeme hstart
    exact (ih _ q' _).prepend lexeme [_] hrun rfl (Token.scan_lexeme hlexeme hstart)
  | literal cs hcs =>
    right
    obtain ⟨hopen, hquote⟩ := run_open (n := n + 1) (q := some n) hcs
    exact ⟨[], cs, rfl, Token.scan_open hcs, hopen, hquote⟩

end Scanner

/-! ## Sources -/

theorem Module.kind_of_ofTokens {tokens : List Token} {e : Diagnostic}
    (h : ofTokens tokens = .error e) : e.cause.kind = .syntactic := by
  obtain ⟨d, hd⟩ := ofTokens_eq_error.1 h
  have habout := (Rule.blames_spaceDecl _ hd).cause.describes
  cases hcause : e.cause with
  | unterminatedString =>
    rw [hcause] at habout
    exact absurd habout id
  | _ => rfl

namespace Token

variable {source : String} {e : Diagnostic}

/-- A source has tokens, or it is refused at the quote that the scanner has kept. -/
theorem ofSource_agrees (source : String) :
    (∃ ts, ofSource source = .ok ts) ∧ ¬ (Scanner.ofSource source).IsOpen ∨
    ∃ before behind, source.toList = before ++ '"' :: behind ∧
      ofSource source = .error ⟨.unterminatedString, Position.start.after before⟩ ∧
      (Scanner.ofSource source).IsOpen ∧
      (Scanner.ofSource source).quote? = some before.length := by
  have hagrees := Scanner.agrees 0 none .start source.toList
  simpa only [Scanner.Agrees, Scanner.ofSource, Nat.zero_add, ← ofSource_eq_scan] using hagrees

theorem ofSource_error_iff_lexical :
    ofSource source = .error e ↔ Module.ofSource source = .error e ∧ e.cause.kind = .lexical := by
  rcases ofSource_agrees source with ⟨⟨ts, hts⟩, -⟩ | ⟨before, behind, -, herror, -⟩
  · rw [Module.ofSource_of_ok hts, hts]
    refine ⟨fun h => (by cases h), fun ⟨h, hkind⟩ => ?_⟩
    rw [Module.kind_of_ofTokens h] at hkind
    cases hkind
  · rw [Module.ofSource_of_error herror, herror]
    constructor
    · intro h
      cases h
      exact ⟨rfl, rfl⟩
    · rintro ⟨h, -⟩
      cases h
      rfl

/-- **Only an open string literal stops the reading of tokens.** A source has no tokens exactly if a
scanner ends inside a string literal. The diagnostic is then about that literal, at the position of
its quote, and it is the diagnostic of the whole source whatever else is wrong; no other source has
a lexical one. -/
theorem ofSource_error_iff_open (source : String) (hlen : source.length < UInt32.size - 1) :
    ((∃ e, ofSource source = .error e) ↔ (Scanner.ofSource source).IsOpen) ∧
    (∀ e, ofSource source = .error e → e.cause = .unterminatedString ∧
      ∃ i, (Scanner.ofSource source).quote? = some i ∧ source.toList[i]? = some '"' ∧
        e.position.At (source.toList.take i)) ∧
    ∀ e, ofSource source = .error e ↔
      Module.ofSource source = .error e ∧ e.cause.kind = .lexical := by
  refine ⟨?_, ?_, fun e => ofSource_error_iff_lexical⟩
  · rcases ofSource_agrees source with ⟨⟨ts, hts⟩, hclosed⟩ | ⟨_, _, -, herror, hopen, -⟩
    · rw [hts]
      exact ⟨fun ⟨e, he⟩ => (by cases he), fun hopen => absurd hopen hclosed⟩
    · exact ⟨fun _ => hopen, fun _ => ⟨_, herror⟩⟩
  · intro e he
    rcases ofSource_agrees source with ⟨⟨ts, hts⟩, -⟩ | ⟨before, behind, htext, herror, -, hquote⟩
    · rw [he] at hts
      cases hts
    · rw [he] at herror
      cases herror
      have hbefore : before.length ≤ source.length := by
        rw [← String.length_toList, htext, List.length_append]
        omega
      refine ⟨rfl, before.length, hquote, by simp [htext], ?_⟩
      rw [htext, List.take_left]
      exact Position.at_start.after before (by rw [List.nil_append]; omega)

/-- A quote in a comment, and on the next line a literal that ends with an escaped quote. -/
theorem ofSource_error_iff_open_escaped :
    "//\"\n+\"\\\"".length < UInt32.size - 1 ∧
    ∃ e, ofSource "//\"\n+\"\\\"" = .error e ∧ e.position.At ['/', '/', '"', '\n', '+'] ∧
      Module.ofSource "//\"\n+\"\\\"" = .error e := by
  have hlen : "//\"\n+\"\\\"".length < UInt32.size - 1 := by decide
  obtain ⟨hopen, hquote, hsame⟩ := ofSource_error_iff_open "//\"\n+\"\\\"" hlen
  obtain ⟨e, he⟩ := hopen.2 (.inl (by decide))
  obtain ⟨-, i, hi, -, hat⟩ := hquote e he
  obtain rfl : 5 = i := Option.some.inj ((show _ = some 5 by decide).symm.trans hi)
  exact ⟨hlen, e, he, hat, ((hsame e).1 he).1⟩

end Token

end SpaceLang
