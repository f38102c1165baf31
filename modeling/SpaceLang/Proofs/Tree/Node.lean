import SpaceLang.Proofs.Grammar.Module

/-!
# The nodes of a tree

A `Node` is a class, a member, a parameter, a statement or an expression anywhere in a module, and
`Node.children` lists the nodes right below it in the order of the source. The children of a node
stand for blocks of its tokens, one behind the other (`IsPhrase.blocks`). So every node stands for a
block of the tokens of its module (`Module.HasNode.exists_phrase`), and its own rule reads it from
that block alone (`IsPhrase.readAt`).
-/

namespace SpaceLang

open Grammar

/-- A part of a module. -/
inductive Node where
  | decl (c : Class)
  | member (m : Member)
  | parameter (p : Parameter)
  | stmt (s : Stmt)
  | expr (e : Expr)

namespace Node

/-- Where a node stands. -/
def span : Node → Span
  | decl c => c.span
  | member m => m.span
  | parameter p => p.span
  | stmt s => s.span
  | expr e => e.span

/-- The nodes right below a node, in the order of the source. -/
def children : Node → List Node
  | decl c => c.members.map member
  | member (.method m) => m.parameters.map parameter ++ m.body.map stmt
  | member (.field f) => f.initializer?.toList.map expr
  | member (.property _) => []
  | parameter _ => []
  | stmt (.ret value? _) => value?.toList.map expr
  | stmt (.declare v) => v.value?.toList.map expr
  | stmt (.expr e _) => [expr e]
  | expr (.binary _ left right _) => [expr left, expr right]
  | expr (.call target _ arguments _) => expr target :: arguments.map expr
  | expr _ => []

/-- A node and everything below it. -/
inductive HasNode (top : Node) : Node → Prop
  | top : HasNode top top
  | child {x y : Node} : HasNode top x → y ∈ x.children → HasNode top y

/-- The phrase of a node. -/
def IsPhrase : Node → List Token → Prop
  | decl c => fun ts => IsClass ts c
  | member m => fun ts => IsMember ts m
  | parameter p => fun ts => IsParameter ts p
  | stmt s => fun ts => IsStmt ts s
  | expr e => fun ts => IsExpr ts e

/-- Whether the rule of a node reads it at `c` and then stands at `d`. -/
def ReadAt : Node → Cursor → Cursor → Prop
  | decl x => fun c d => Rule.typeDecl c = .ok x d
  | member x => fun c d => Rule.member c = .ok x d
  | parameter x => fun c d => Rule.parameter c = .ok x d
  | stmt x => fun c d => Rule.stmt c = .ok x d
  | expr x => fun c d => Rule.expr c = .ok x d

end Node

/-- Whether a node is in one of the classes of a module. -/
def Module.HasNode (m : Module) (x : Node) : Prop := ∃ c ∈ m.classes, (Node.decl c).HasNode x

namespace Node

variable {x y : Node} {xs ys : List Node} {ts us : List Token}

theorem IsPhrase.ne_nil (h : x.IsPhrase ts) : ts ≠ [] := by
  cases x with
  | decl c => exact IsClass.ne_nil h
  | member m => exact IsMember.ne_nil h
  | parameter p =>
    cases h
    exact List.cons_ne_nil _ _
  | stmt s => exact IsStmt.ne_nil h
  | expr e => exact IsExpr.ne_nil h

theorem IsPhrase.span_eq (h : x.IsPhrase ts) : x.span = .ofTokens ts := by
  cases x with
  | decl c =>
    cases h
    rfl
  | member m => cases h <;> rfl
  | parameter p =>
    cases h
    rfl
  | stmt s => cases h <;> rfl
  | expr e => exact IsExpr.span_eq h

/-! ### Blocks of children -/

/-- The tokens `ts` hold a block for each of the nodes `xs`, one block behind the other. Other
tokens may stand around the blocks. -/
inductive Blocks : List Token → List Node → Prop
  | nil {ts : List Token} : Blocks ts []
  | skip {t : Token} {ts : List Token} {xs : List Node} : Blocks ts xs → Blocks (t :: ts) xs
  | cons {us ts : List Token} {x : Node} {xs : List Node} : x.IsPhrase us → Blocks ts xs →
      Blocks (us ++ ts) (x :: xs)

theorem IsPhrase.block (h : x.IsPhrase ts) : Blocks ts [x] := by
  have hblock : Blocks (ts ++ []) [x] := .cons h .nil
  rwa [List.append_nil] at hblock

theorem Blocks.append_left (front : List Token) (h : Blocks ts xs) : Blocks (front ++ ts) xs := by
  induction front with
  | nil => exact h
  | cons t front ih => exact .skip ih

theorem Blocks.append (h : Blocks ts xs) (h' : Blocks us ys) : Blocks (ts ++ us) (xs ++ ys) := by
  induction h with
  | nil => exact h'.append_left _
  | skip _ ih => exact .skip ih
  | cons hx _ ih =>
    rw [List.append_assoc]
    exact .cons hx ih

theorem Blocks.append_right (h : Blocks ts xs) (behind : List Token) :
    Blocks (ts ++ behind) xs := by
  have hblocks := h.append (.nil : Blocks behind [])
  rwa [List.append_nil] at hblocks

theorem Blocks.exists_infix (h : Blocks ts xs) (hy : y ∈ xs) :
    ∃ us, us <:+: ts ∧ y.IsPhrase us := by
  induction h with
  | nil => cases hy
  | @skip t ts xs _ ih =>
    obtain ⟨us, hus, hP⟩ := ih hy
    exact ⟨us, hus.trans (List.suffix_cons t ts).isInfix, hP⟩
  | @cons us ts x xs hx _ ih =>
    rcases List.mem_cons.1 hy with rfl | hy
    · exact ⟨us, List.infix_append_left, hx⟩
    · obtain ⟨vs, hvs, hP⟩ := ih hy
      exact ⟨vs, hvs.trans List.infix_append_right, hP⟩

section

variable {α : Type} {P : Phrase α} {as : List α} {f : α → Node}

theorem blocks_of_many (hP : ∀ us a, P us a → (f a).IsPhrase us) (h : Many P ts as) :
    Blocks ts (as.map f) := by
  induction h with
  | nil => exact .nil
  | cons ha _ ih => exact .cons (hP _ _ ha) ih

theorem blocks_of_commaList (hP : ∀ us a, P us a → (f a).IsPhrase us) (h : CommaList P ts as) :
    Blocks ts (as.map f) := by
  have hafter : ∀ us as, Many (After "," P) us as → Blocks us (as.map f) := by
    intro us as hM
    induction hM with
    | nil => exact .nil
    | cons ha _ ih =>
      obtain ⟨_, ha⟩ := ha
      exact .skip (.cons (hP _ _ ha) ih)
  cases h with
  | nil => exact .nil
  | cons ha hM => exact .cons (hP _ _ ha) (hafter _ _ hM)

end

theorem blocks_of_initializer {v : Option Expr} (h : IsInitializer ts v) :
    Blocks ts (v.toList.map expr) := by
  cases h with
  | none => exact .nil
  | some _ hE => exact .skip (IsPhrase.block (x := expr _) hE)

theorem blocks_of_member {m : Member} (h : IsMember ts m) : Blocks ts (member m).children := by
  cases h with
  | method _ _ _ hps _ _ hss _ =>
    have hparameters := blocks_of_commaList (f := parameter) (fun _ _ h => h) hps
    have hbody := blocks_of_many (f := stmt) (fun _ _ h => h) hss
    exact .skip <| .skip <| .skip <| hparameters.append <| .skip <| .skip <| hbody.append_right _
  | field _ _ hv _ => exact .skip <| .skip <| (blocks_of_initializer hv).append_right _
  | property => exact .nil

theorem blocks_of_stmt {s : Stmt} (h : IsStmt ts s) : Blocks ts (stmt s).children := by
  cases h with
  | bareReturn => exact .nil
  | @valueReturn k us e s _ hE _ => exact .skip <| .cons (x := expr e) hE .nil
  | @implicit k n q us e s _ _ _ hE _ =>
    exact .skip <| .skip <| .skip <| .cons (x := expr e) hE .nil
  | explicit _ _ hv _ => exact .skip <| .skip <| (blocks_of_initializer hv).append_right _
  | @expr us e s hE _ _ => exact .cons (x := .expr e) hE .nil

theorem blocks_of_expr {e : Expr} (h : IsExpr ts e) : Blocks ts (expr e).children := by
  cases h with
  | @binary ts us o op l r hl _ hr =>
    have hright : (expr r).IsPhrase us := IsExpr.operand hr
    exact .cons (x := expr l) hl <| .skip hright.block
  | operand h =>
    cases h with
    | integer => exact .nil
    | string => exact .nil
    | name => exact .nil
    | @call t dot m o us as c hn _ _ _ has _ =>
      have htarget : (expr (.identifier t.value (.ofTokens [t]))).IsPhrase [t] :=
        .operand (.name hn)
      have harguments := blocks_of_commaList (f := expr) (fun _ _ h => h) has
      exact .cons htarget <| .skip <| .skip <| .skip <| harguments.append_right _

/-- The tokens of a node hold those of its children, in the order of the source. -/
theorem IsPhrase.blocks (h : x.IsPhrase ts) : Blocks ts x.children := by
  cases x with
  | decl c =>
    obtain ⟨_, _, _, hM, _⟩ := h
    have hmembers := blocks_of_many (f := member) (fun _ _ h => h) hM
    exact .skip <| .skip <| .skip <| hmembers.append_right _
  | member m => exact blocks_of_member h
  | parameter p => exact .nil
  | stmt s => exact blocks_of_stmt h
  | expr e => exact blocks_of_expr h

theorem HasNode.exists_phrase {top : Node} (h : top.HasNode x) (htop : top.IsPhrase ts) :
    ∃ us, us <:+: ts ∧ x.IsPhrase us := by
  induction h with
  | top => exact ⟨ts, List.infix_rfl, htop⟩
  | child _ hy ih =>
    obtain ⟨us, hus, hx⟩ := ih
    obtain ⟨vs, hvs, hP⟩ := hx.blocks.exists_infix hy
    exact ⟨vs, hvs.trans hus, hP⟩

theorem IsPhrase.readAt (h : x.IsPhrase ts) {c d : Cursor} (hr : c.Reads ts d)
    (hd : EndsExpr d.current) : x.ReadAt c d := by
  cases x with
  | decl _ => exact Rule.typeDecl_complete hr h trivial
  | member _ => exact Rule.member_complete hr h trivial
  | parameter _ => exact Rule.parameter_complete hr h trivial
  | stmt _ => exact Rule.stmt_complete hr h trivial
  | expr _ => exact Rule.expr_complete hr h hd

end Node

theorem Grammar.IsModule.exists_header {m : Module} {ts : List Token} (h : IsModule ts m) :
    ∃ k ns s us, ts = k :: (ns ++ s :: us) ∧ k.isKeyword "space" ∧
      IsSpaceName ns m.rootSpace.name ∧ s.isSymbol ";" ∧
      Node.Blocks us (m.classes.map Node.decl) := by
  obtain ⟨@⟨k, ns, name, s, us, classes, hk, hname, hs, hM⟩⟩ := h
  have hblocks := Node.blocks_of_many (f := Node.decl) (fun _ _ h => h) hM
  exact ⟨k, ns, s, us, rfl, hk, hname, hs, hblocks⟩

theorem Grammar.IsModule.span_eq {m : Module} {ts : List Token} (h : IsModule ts m) :
    m.span = .ofTokens ts ∧ m.rootSpace.span = .ofTokens ts := by
  obtain ⟨⟨⟩⟩ := h
  exact ⟨rfl, rfl⟩

/-- The nodes of a module stand for blocks of its tokens. -/
theorem Module.HasNode.exists_phrase {m : Module} {x : Node} {ts : List Token} (h : m.HasNode x)
    (hm : IsModule ts m) : ∃ us, us <:+: ts ∧ x.IsPhrase us := by
  obtain ⟨c, hc, hx⟩ := h
  obtain ⟨k, ns, s, us, rfl, -, -, -, hblocks⟩ := hm.exists_header
  obtain ⟨vs, hvs, hC⟩ := hblocks.exists_infix (List.mem_map_of_mem hc)
  have hclasses : us <:+: k :: (ns ++ s :: us) := ⟨k :: (ns ++ [s]), [], by simp⟩
  obtain ⟨ws, hws, hP⟩ := hx.exists_phrase hC
  exact ⟨ws, hws.trans (hvs.trans hclasses), hP⟩

end SpaceLang
