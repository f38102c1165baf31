import SpaceLang.Proofs.Space.Segments
import SpaceLang.Proofs.Tree.Spans
import SpaceLang.Proofs.Tree.WellFormed

/-!
# Trees as text

`Module.row` gives the kinds and values of the tokens that a module is written as, and
`Module.toSource` writes them with single spaces between. A well-formed module is written as lexical
tokens, and any tokens with these kinds and values stand for a module that is equal to it up to
spans; `IsWritten` holds both, for any phrase. So writing and reading a well-formed module gives it
back but for its spans, and the modules that sources make are up to spans the well-formed ones
(`ofSource_image`).
-/

namespace SpaceLang

/-! ## Writing -/

namespace Content

/-- A word as it would be read: reserved or an identifier. -/
def word (s : String) : Content := (if s ∈ reservedWords then .keyword else .identifier, s)

def symbol (s : String) : Content := (.symbol, s)

def operator (s : String) : Content := (.operator, s)

end Content

open Content

/-- Rows with commas between them. -/
def commaRow : List (List Content) → List Content
  | [] => []
  | row :: rows => row ++ rows.flatMap (symbol "," :: ·)

mutual

def Expr.row : Expr → List Content
  | .integer n _ => [(.number, toString n.toInt.toNat)]
  | .string s _ => [(.string, s)]
  | .identifier name _ => [word name]
  | .binary op left right _ => left.row ++ operator op.symbol :: right.row
  | .call target method arguments _ =>
    target.row ++ symbol "." :: word method :: symbol "(" ::
      (commaRow (Expr.rows arguments) ++ [symbol ")"])

def Expr.rows : List Expr → List (List Content)
  | [] => []
  | e :: es => e.row :: Expr.rows es

end

/-- The row of a value behind its equals sign, if there is one. -/
def Expr.initializerRow : Option Expr → List Content
  | none => []
  | some e => operator "=" :: e.row

def Stmt.row : Stmt → List Content
  | .ret none _ => [word "return", symbol ";"]
  | .ret (some e) _ => word "return" :: (e.row ++ [symbol ";"])
  | .declare v =>
    word (v.type?.getD "let") :: word v.name :: (Expr.initializerRow v.value? ++ [symbol ";"])
  | .expr e _ => e.row ++ [symbol ";"]

def Parameter.row (p : Parameter) : List Content := [word p.type, word p.name]

/-- The words of the accessors that a property declares. -/
def Accessors.words (a : Accessors) : List String :=
  (if a.get then ["get"] else []) ++ if a.set then ["set"] else []

def Accessors.row (a : Accessors) : List Content :=
  a.words.flatMap fun w => [word w, symbol ";"]

def Member.row : Member → List Content
  | .method m =>
    word m.type :: word m.name :: symbol "(" :: (commaRow (m.parameters.map Parameter.row) ++
      symbol ")" :: symbol leftBrace :: (m.body.flatMap Stmt.row ++ [symbol rightBrace]))
  | .field f =>
    word f.type :: word f.name :: (Expr.initializerRow f.initializer? ++ [symbol ";"])
  | .property p =>
    word p.type :: word p.name :: symbol leftBrace :: (p.accessors.row ++ [symbol rightBrace])

def Class.row (c : Class) : List Content :=
  word "class" :: word c.name :: symbol leftBrace ::
    (c.members.flatMap Member.row ++ [symbol rightBrace])

/-- The segments of a name with dots between them. -/
def nameRow : List String → List Content
  | [] => []
  | w :: ws => word w :: ws.flatMap fun w => [symbol ".", word w]

def Space.row (s : Space) : List Content :=
  word "space" :: (nameRow s.segments ++ symbol ";" :: s.classes.flatMap Class.row)

namespace Module

/-- The kinds and values of the tokens that a module is written as. -/
def row (m : Module) : List Content := m.rootSpace.row

/-- A module as a source: its tokens with single spaces between. -/
def toSource (m : Module) : String := String.ofList (writeTokens m.row)

end Module

/-! ## Single tokens -/

section Tokens

variable {t : Token} {s : String}

theorem lexical_word (h : isFreeWord s ∨ s ∈ reservedWords) : (word s).Lexical := by
  unfold word Content.Lexical
  split
  · next hmem => exact .keyword hmem
  · next hmem => exact .identifier (h.resolve_right hmem)

theorem mem_reservedWords_of_builtinTypes (h : s ∈ builtinTypes) : s ∈ reservedWords := by
  revert s
  decide

theorem lexical_typeWord (h : isTypeWord s) : (word s).Lexical :=
  lexical_word ((isTypeWord_iff.1 h).imp_right mem_reservedWords_of_builtinTypes)

theorem lexical_symbol (h : s ∈ [".", ",", ";", "(", ")", leftBrace, rightBrace]) :
    (symbol s).Lexical := by
  simp only [List.mem_cons, List.not_mem_nil, or_false] at h
  rcases h with rfl | rfl | rfl | rfl | rfl | rfl | rfl
  all_goals exact .symbol (by decide) (by decide) (by decide) (by decide) (by decide)

theorem lexical_operator (op : BinaryOperator) : (operator op.symbol).Lexical := by
  cases op
  case equals | notEquals | lessEquals | greaterEquals => exact .pair (by decide)
  all_goals exact .single (by decide)

namespace Token

theorem value_of_word (h : t.content = word s) : t.value = s := (Prod.mk.inj h).2

theorem isSymbol_of_content (h : t.content = symbol s) : t.isSymbol s :=
  isSymbol_iff.2 (Prod.mk.inj h)

theorem isOperator_of_content (h : t.content = operator s) : t.isOperator s :=
  isOperator_iff.2 (Prod.mk.inj h)

theorem isKeyword_of_word (h : t.content = word s) (hs : s ∈ reservedWords) : t.isKeyword s := by
  obtain ⟨hk, hv⟩ := Prod.mk.inj h
  rw [if_pos hs] at hk
  exact isKeyword_iff.2 ⟨hk, hv⟩

theorem kind_of_word (h : t.content = word s) (hs : isFreeWord s) : t.kind = .identifier := by
  have hk := (Prod.mk.inj h).1
  rwa [if_neg (isFreeWord_iff.1 hs).2] at hk

theorem isTypeName_of_word (h : t.content = word s) (hs : isTypeWord s) : t.isTypeName := by
  rw [isTypeName_iff]
  rcases isTypeWord_iff.1 hs with hs | hs
  · exact .inl (kind_of_word h hs)
  · have hk := isKeyword_of_word h (mem_reservedWords_of_builtinTypes hs)
    exact .inr ⟨(isKeyword_iff.1 hk).1, by rwa [value_of_word h]⟩

theorem isName_of_word (h : t.content = word s) (hs : isFreeWord s ∨ s = "this") :
    Grammar.IsName t := by
  rcases hs with hs | rfl
  · exact .inl (kind_of_word h hs)
  · exact .inr (isKeyword_of_word h (by decide))

end Token

end Tokens

/-! ## Phrases that are written -/

namespace Grammar

variable {α : Type} {P : Phrase α} {f : α → α} {row : α → List Content}

/-- A row of lexical tokens that stands for a tree, up to `f`, with any spans. -/
structure IsWritten (P : Phrase α) (f : α → α) (row : List Content) (a : α) : Prop where
  lexical : ∀ content ∈ row, content.Lexical
  phrase : ∀ ts : List Token, ts.map Token.content = row → ∃ b, P ts b ∧ f b = f a

theorem isWritten_many {as : List α} (h : ∀ a ∈ as, IsWritten P f (row a) a) :
    IsWritten (Many P) (List.map f) (as.flatMap row) as := by
  induction as with
  | nil =>
    refine ⟨by simp, fun ts hts => ⟨[], ?_, rfl⟩⟩
    rw [List.flatMap_nil, List.map_eq_nil_iff] at hts
    rw [hts]
    exact .nil
  | cons a as ih =>
    rw [List.forall_mem_cons] at h
    obtain ⟨hlexical, hphrase⟩ := ih h.2
    refine ⟨?_, fun ts hts => ?_⟩
    · rw [List.flatMap_cons, List.forall_mem_append]
      exact ⟨h.1.lexical, hlexical⟩
    · rw [List.flatMap_cons, List.map_eq_append_iff] at hts
      obtain ⟨us, vs, rfl, hus, hvs⟩ := hts
      obtain ⟨b, hb, hbare⟩ := h.1.phrase us hus
      obtain ⟨bs, hbs, hbares⟩ := hphrase vs hvs
      exact ⟨b :: bs, .cons hb hbs, by rw [List.map_cons, List.map_cons, hbare, hbares]⟩

theorem isWritten_after {s : String} {content : List Content} {a : α}
    (hs : s ∈ [".", ",", ";", "(", ")", leftBrace, rightBrace]) (h : IsWritten P f content a) :
    IsWritten (After s P) f (symbol s :: content) a := by
  refine ⟨?_, fun ts hts => ?_⟩
  · rw [List.forall_mem_cons]
    exact ⟨lexical_symbol hs, h.lexical⟩
  · obtain ⟨t, us, rfl, ht, hus⟩ := List.map_eq_cons_iff.1 hts
    obtain ⟨b, hb, hbare⟩ := h.phrase us hus
    exact ⟨b, .mk (Token.isSymbol_of_content ht) hb, hbare⟩

theorem isWritten_commaList {as : List α} (h : ∀ a ∈ as, IsWritten P f (row a) a) :
    IsWritten (CommaList P) (List.map f) (commaRow (as.map row)) as := by
  cases as with
  | nil =>
    refine ⟨by simp [commaRow], fun ts hts => ⟨[], ?_, rfl⟩⟩
    rw [List.map_nil, commaRow, List.map_eq_nil_iff] at hts
    rw [hts]
    exact .nil
  | cons a as =>
    rw [List.forall_mem_cons] at h
    have hrest : IsWritten (Many (After "," P)) (List.map f)
        (as.flatMap fun a => symbol "," :: row a) as :=
      isWritten_many fun a ha => isWritten_after (by decide) (h.2 a ha)
    have hrow : commaRow ((a :: as).map row) =
        row a ++ as.flatMap fun a => symbol "," :: row a := by
      rw [List.map_cons, commaRow, List.flatMap_map]
    rw [hrow]
    refine ⟨?_, fun ts hts => ?_⟩
    · rw [List.forall_mem_append]
      exact ⟨h.1.lexical, hrest.lexical⟩
    · obtain ⟨us, vs, rfl, hus, hvs⟩ := List.map_eq_append_iff.1 hts
      obtain ⟨b, hb, hbare⟩ := h.1.phrase us hus
      obtain ⟨bs, hbs, hbares⟩ := hrest.phrase vs hvs
      exact ⟨b :: bs, .cons hb hbs, by rw [List.map_cons, List.map_cons, hbare, hbares]⟩

end Grammar

end SpaceLang
