import SpaceLang.Module

/-!
# The grammar of the language

Which token lists stand for which trees, without a cursor and without an order of decisions. A
`Phrase` relates token lists to trees; `Many`, `After` and `CommaList` build phrases from phrases,
and there is one phrase for each construct, from `IsOperand` to `IsModule`:

```text
module   = space name (. name)* ; class*
class    = class name { member* }
member   = type name ( [type name (, type name)*] ) { stmt* }
         | type name [= expr] ;
         | type name { (get ; | set ;)* }
stmt     = return [expr] ; | let name = expr ; | type name [= expr] ; | expr ;
expr     = operand (operator operand)*
operand  = number | string | (name | this) [. name ( [expr (, expr)*] )]
```

The span of every tree is the cover of its tokens (`Span.ofTokens`): from where the first one begins
to where the last one ends.
-/

namespace SpaceLang

/-- From where the first of some tokens begins to where the last one ends. -/
def Span.ofTokens : List Token → Span
  | [] => default
  | t :: ts => t.span.join (ts.getLastD t).span

@[simp] theorem Span.ofTokens_append_singleton (t u : Token) (ts : List Token) :
    Span.ofTokens (t :: (ts ++ [u])) = ⟨t.span.start, u.span.stop⟩ := by
  simp [Span.ofTokens, Span.join, List.getLastD_eq_getLast?]

theorem Span.start_ofTokens_append {ts : List Token} (us : List Token) (h : ts ≠ []) :
    (Span.ofTokens (ts ++ us)).start = (Span.ofTokens ts).start := by
  obtain ⟨t, ts, rfl⟩ := List.exists_cons_of_ne_nil h
  rfl

theorem Span.stop_ofTokens_append (ts : List Token) {us : List Token} (h : us ≠ []) :
    (Span.ofTokens (ts ++ us)).stop = (Span.ofTokens us).stop := by
  obtain ⟨u, us, rfl⟩ := List.exists_cons_of_ne_nil h
  cases ts with
  | nil => rfl
  | cons t ts =>
    simp [Span.ofTokens, Span.join, List.getLastD_eq_getLast?, List.getLast?_append,
      List.getLast?_cons]

namespace Grammar

variable {α : Type}

/-! ## Phrases -/

/-- Which token lists stand for which trees. -/
abbrev Phrase (α : Type) := List Token → α → Prop

/-- Phrases in a row. -/
inductive Many (P : Phrase α) : Phrase (List α)
  | nil : Many P [] []
  | cons {ts us a as} : P ts a → Many P us as → Many P (ts ++ us) (a :: as)

/-- A phrase behind a symbol. -/
inductive After (s : String) (P : Phrase α) : Phrase α
  | mk {t ts a} : t.isSymbol s → P ts a → After s P (t :: ts) a

/-- Phrases with commas between them, or nothing. -/
inductive CommaList (P : Phrase α) : Phrase (List α)
  | nil : CommaList P [] []
  | cons {ts us a as} : P ts a → Many (After "," P) us as → CommaList P (ts ++ us) (a :: as)

/-- An identifier, by its text. -/
inductive IsIdentifier : Phrase String
  | mk {t} : t.kind = .identifier → IsIdentifier [t] t.value

/-! ## Expressions -/

/-- Whether a token names a value: an identifier or `this`. -/
def IsName (t : Token) : Prop := t.kind = .identifier ∨ t.isKeyword "this"

mutual

/-- Operands with operators between them, grouped to the left. An operator is any token with the
text of one. -/
inductive IsExpr : Phrase Expr
  | operand {ts e} : IsOperand ts e → IsExpr ts e
  | binary {ts us o op l r} : IsExpr ts l → BinaryOperator.ofSymbol? o.value = some op →
      IsOperand us r → IsExpr (ts ++ o :: us) (.binary op l r (.ofTokens (ts ++ o :: us)))

/-- A number of 64 bits, a string, or a name with a call that may follow it. -/
inductive IsOperand : Phrase Expr
  | integer {t n} : t.kind = .number → Integer.denoted? t.value.toList = some n →
      Integer.fits n → IsOperand [t] (.integer (.ofInt n) (.ofTokens [t]))
  | string {t} : t.kind = .string → IsOperand [t] (.string t.value (.ofTokens [t]))
  | name {t} : IsName t → IsOperand [t] (.identifier t.value (.ofTokens [t]))
  | call {t dot m o ts as c} : IsName t → dot.isSymbol "." → m.kind = .identifier →
      o.isSymbol "(" → CommaList IsExpr ts as → c.isSymbol ")" →
      IsOperand (t :: dot :: m :: o :: (ts ++ [c]))
        (.call (.identifier t.value (.ofTokens [t])) m.value as
          (.ofTokens (t :: dot :: m :: o :: (ts ++ [c]))))

end

/-- The cases of an induction over expressions (`E`) and operands (`O`). What holds of the arguments
of a call may be used of the call. -/
structure ExprCases (E O : Phrase Expr) : Prop where
  operand : ∀ {ts e}, IsOperand ts e → O ts e → E ts e
  binary : ∀ {ts us o op l r}, IsExpr ts l → E ts l →
    BinaryOperator.ofSymbol? o.value = some op → IsOperand us r → O us r →
    E (ts ++ o :: us) (.binary op l r (.ofTokens (ts ++ o :: us)))
  integer : ∀ {t n}, t.kind = .number → Integer.denoted? t.value.toList = some n →
    Integer.fits n → O [t] (.integer (.ofInt n) (.ofTokens [t]))
  string : ∀ {t}, t.kind = .string → O [t] (.string t.value (.ofTokens [t]))
  name : ∀ {t}, IsName t → O [t] (.identifier t.value (.ofTokens [t]))
  call : ∀ {t dot m o ts as c}, IsName t → dot.isSymbol "." → m.kind = .identifier →
    o.isSymbol "(" → CommaList (fun us e => IsExpr us e ∧ E us e) ts as → c.isSymbol ")" →
    O (t :: dot :: m :: o :: (ts ++ [c]))
      (.call (.identifier t.value (.ofTokens [t])) m.value as
        (.ofTokens (t :: dot :: m :: o :: (ts ++ [c]))))

section Induction

variable {E O : Phrase Expr}

mutual

theorem IsExpr.of_cases (cases : ExprCases E O) : ∀ {ts e}, IsExpr ts e → E ts e
  | _, _, .operand h => cases.operand h (h.of_cases cases)
  | _, _, .binary hl ho hr => cases.binary hl (hl.of_cases cases) ho hr (hr.of_cases cases)

theorem IsOperand.of_cases (cases : ExprCases E O) : ∀ {ts e}, IsOperand ts e → O ts e
  | _, _, .integer hk hn hfits => cases.integer hk hn hfits
  | _, _, .string hk => cases.string hk
  | _, _, .name hn => cases.name hn
  | _, _, .call hn hdot hm ho has hc =>
    cases.call hn hdot hm ho (arguments_of_cases cases has) hc

theorem arguments_of_cases (cases : ExprCases E O) : ∀ {ts as}, CommaList IsExpr ts as →
    CommaList (fun us e => IsExpr us e ∧ E us e) ts as
  | _, _, .nil => .nil
  | _, _, .cons h hs => .cons ⟨h, h.of_cases cases⟩ (furtherArguments_of_cases cases hs)

theorem furtherArguments_of_cases (cases : ExprCases E O) : ∀ {ts as},
    Many (After "," IsExpr) ts as → Many (After "," (fun us e => IsExpr us e ∧ E us e)) ts as
  | _, _, .nil => .nil
  | _, _, .cons (.mk hs h) hrest =>
    .cons (.mk hs ⟨h, h.of_cases cases⟩) (furtherArguments_of_cases cases hrest)

end

end Induction

/-- An equals sign and an expression, or nothing. -/
inductive IsInitializer : Phrase (Option Expr)
  | none : IsInitializer [] none
  | some {q ts e} : q.isOperator "=" → IsExpr ts e → IsInitializer (q :: ts) (some e)

/-! ## Statements -/

/-- Whether a statement begins as a declaration: with the name of a type before an identifier. -/
def beginsDeclaration : List Token → Bool
  | t :: u :: _ => t.isTypeName && u.kind = .identifier
  | _ => false

/-- A statement, its semicolon included. -/
inductive IsStmt : Phrase Stmt
  | bareReturn {k s} : k.isKeyword "return" → s.isSymbol ";" →
      IsStmt [k, s] (.ret none (.ofTokens [k, s]))
  | valueReturn {k ts e s} : k.isKeyword "return" → IsExpr ts e → s.isSymbol ";" →
      IsStmt (k :: (ts ++ [s])) (.ret (some e) (.ofTokens (k :: (ts ++ [s]))))
  | implicit {k n q ts e s} : k.isKeyword "let" → n.kind = .identifier → q.isOperator "=" →
      IsExpr ts e → s.isSymbol ";" →
      IsStmt (k :: n :: q :: (ts ++ [s]))
        (.declare ⟨n.value, none, some e, .ofTokens (k :: n :: q :: (ts ++ [s]))⟩)
  | explicit {t n ts v s} : t.isTypeName → n.kind = .identifier → IsInitializer ts v →
      s.isSymbol ";" →
      IsStmt (t :: n :: (ts ++ [s]))
        (.declare ⟨n.value, some t.value, v, .ofTokens (t :: n :: (ts ++ [s]))⟩)
  | expr {ts e s} : IsExpr ts e → s.isSymbol ";" → beginsDeclaration (ts ++ [s]) = false →
      IsStmt (ts ++ [s]) (.expr e (.ofTokens (ts ++ [s])))

/-! ## Classes -/

/-- A type and a name. -/
inductive IsParameter : Phrase Parameter
  | mk {t n} : t.isTypeName → n.kind = .identifier →
      IsParameter [t, n] ⟨n.value, t.value, .ofTokens [t, n]⟩

/-- `get` or `set` and a semicolon, by the word. -/
inductive IsAccessor : Phrase String
  | mk {k s w} : k.isKeyword w → w = "get" ∨ w = "set" → s.isSymbol ";" → IsAccessor [k, s] w

/-- A method, a field or a property. No accessor of a property is declared twice. -/
inductive IsMember : Phrase Member
  | method {t n o ps parameters c b ts body e} : t.isTypeName → n.kind = .identifier →
      o.isSymbol "(" → CommaList IsParameter ps parameters → c.isSymbol ")" →
      b.isSymbol leftBrace → Many IsStmt ts body → e.isSymbol rightBrace →
      IsMember (t :: n :: o :: (ps ++ c :: b :: (ts ++ [e])))
        (.method ⟨n.value, t.value, parameters, body,
          .ofTokens (t :: n :: o :: (ps ++ c :: b :: (ts ++ [e])))⟩)
  | field {t n ts v s} : t.isTypeName → n.kind = .identifier → IsInitializer ts v →
      s.isSymbol ";" →
      IsMember (t :: n :: (ts ++ [s]))
        (.field ⟨n.value, t.value, v, .ofTokens (t :: n :: (ts ++ [s]))⟩)
  | property {t n b ts words e} : t.isTypeName → n.kind = .identifier → b.isSymbol leftBrace →
      Many IsAccessor ts words → words.Nodup → e.isSymbol rightBrace →
      IsMember (t :: n :: b :: (ts ++ [e]))
        (.property ⟨n.value, t.value, ⟨decide ("get" ∈ words), decide ("set" ∈ words)⟩,
          .ofTokens (t :: n :: b :: (ts ++ [e]))⟩)

/-- A class. -/
inductive IsClass : Phrase Class
  | mk {k n b ts members e} : k.isKeyword "class" → n.kind = .identifier →
      b.isSymbol leftBrace → Many IsMember ts members → e.isSymbol rightBrace →
      IsClass (k :: n :: b :: (ts ++ [e]))
        ⟨n.value, members, .ofTokens (k :: n :: b :: (ts ++ [e]))⟩

/-! ## Modules -/

/-- The name of a space, its segments joined by dots. -/
inductive IsSpaceName : Phrase String
  | mk {n ts segments} : n.kind = .identifier → Many (After "." IsIdentifier) ts segments →
      IsSpaceName (n :: ts) (".".intercalate (n.value :: segments))

/-- A space and its classes. -/
inductive IsSpace : Phrase Space
  | mk {k ts name s us classes} : k.isKeyword "space" → IsSpaceName ts name → s.isSymbol ";" →
      Many IsClass us classes →
      IsSpace (k :: (ts ++ s :: us)) ⟨name, classes, none, .ofTokens (k :: (ts ++ s :: us))⟩

/-- A module. -/
inductive IsModule : Phrase Module
  | mk {ts space} : IsSpace ts space → IsModule ts ⟨Module.mainName, space, .ofTokens ts⟩

end Grammar

end SpaceLang
