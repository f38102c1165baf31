import SpaceLang.Module
import SpaceLang.Proofs.Source.Move

/-!
# The spans of a tree

`mapSpan f` puts `f` of it in the place of every span of a tree, and `bare` forgets them all, so two
trees are equal up to spans if their bare trees are equal.
-/

namespace SpaceLang

mutual

/-- An expression with `f` applied to its spans. -/
def Expr.mapSpan (f : Span → Span) : Expr → Expr
  | .integer n span => .integer n (f span)
  | .string s span => .string s (f span)
  | .identifier name span => .identifier name (f span)
  | .binary op left right span => .binary op (left.mapSpan f) (right.mapSpan f) (f span)
  | .call target method arguments span =>
    .call (target.mapSpan f) method (Expr.mapSpans f arguments) (f span)

/-- Expressions with `f` applied to their spans. -/
def Expr.mapSpans (f : Span → Span) : List Expr → List Expr
  | [] => []
  | e :: es => e.mapSpan f :: Expr.mapSpans f es

end

variable (f : Span → Span)

def Variable.mapSpan (v : Variable) : Variable :=
  ⟨v.name, v.type?, v.value?.map (Expr.mapSpan f), f v.span⟩

def Stmt.mapSpan : Stmt → Stmt
  | .ret value? span => .ret (value?.map (Expr.mapSpan f)) (f span)
  | .declare v => .declare (v.mapSpan f)
  | .expr e span => .expr (e.mapSpan f) (f span)

def Parameter.mapSpan (p : Parameter) : Parameter := ⟨p.name, p.type, f p.span⟩

def Method.mapSpan (m : Method) : Method :=
  ⟨m.name, m.type, m.parameters.map (Parameter.mapSpan f), m.body.map (Stmt.mapSpan f), f m.span⟩

def Field.mapSpan (v : Field) : Field :=
  ⟨v.name, v.type, v.initializer?.map (Expr.mapSpan f), f v.span⟩

def Property.mapSpan (p : Property) : Property := ⟨p.name, p.type, p.accessors, f p.span⟩

def Member.mapSpan : Member → Member
  | .method m => .method ⟨m.name, m.type, m.parameters.map (Parameter.mapSpan f),
      m.body.map (Stmt.mapSpan f), f m.span⟩
  | .field v => .field ⟨v.name, v.type, v.initializer?.map (Expr.mapSpan f), f v.span⟩
  | .property p => .property ⟨p.name, p.type, p.accessors, f p.span⟩

def Class.mapSpan (c : Class) : Class := ⟨c.name, c.members.map (Member.mapSpan f), f c.span⟩

def Space.mapSpan (s : Space) : Space :=
  ⟨s.name, s.classes.map (Class.mapSpan f), s.parent?, f s.span⟩

/-- A module with `f` applied to the spans of its tree. -/
def Module.mapSpan (m : Module) : Module := ⟨m.name, m.rootSpace.mapSpan f, f m.span⟩

/-- The same span for all. -/
def Span.forget (_ : Span) : Span := default

/-- A module without spans: all of them are the same. -/
def Module.bare (m : Module) : Module := m.mapSpan .forget

theorem Expr.mapSpans_eq_map (es : List Expr) : Expr.mapSpans f es = es.map (Expr.mapSpan f) := by
  induction es with
  | nil => simp [Expr.mapSpans]
  | cons e es ih => rw [Expr.mapSpans, ih, List.map_cons]

/-! ## Spans as they are -/

mutual

theorem Expr.mapSpan_id (e : Expr) : e.mapSpan id = e := by
  cases e with
  | binary op left right span => simp [Expr.mapSpan, left.mapSpan_id, right.mapSpan_id]
  | call target method arguments span =>
    simp [Expr.mapSpan, target.mapSpan_id, Expr.mapSpans_id arguments]
  | _ => simp [Expr.mapSpan]

theorem Expr.mapSpans_id (es : List Expr) : Expr.mapSpans id es = es := by
  cases es with
  | nil => rw [Expr.mapSpans]
  | cons e es => rw [Expr.mapSpans, e.mapSpan_id, Expr.mapSpans_id es]

end

theorem Expr.map_mapSpan_id (value? : Option Expr) : value?.map (Expr.mapSpan id) = value? := by
  rw [funext Expr.mapSpan_id]
  exact congrFun Option.map_id value?

theorem Stmt.mapSpan_id (s : Stmt) : s.mapSpan id = s := by
  cases s <;> simp [mapSpan, Variable.mapSpan, Expr.mapSpan_id, Expr.map_mapSpan_id]

theorem Member.mapSpan_id (m : Member) : m.mapSpan id = m := by
  cases m with
  | method m =>
    have hparameters : m.parameters.map (Parameter.mapSpan id) = m.parameters :=
      List.map_id'' (fun _ => rfl) _
    have hbody : m.body.map (Stmt.mapSpan id) = m.body := List.map_id'' Stmt.mapSpan_id _
    rw [mapSpan, hparameters, hbody]
    rfl
  | field v =>
    rw [mapSpan, Expr.map_mapSpan_id]
    rfl
  | property p => rfl

theorem Class.mapSpan_id (c : Class) : c.mapSpan id = c := by
  have hmembers : c.members.map (Member.mapSpan id) = c.members :=
    List.map_id'' Member.mapSpan_id _
  rw [mapSpan, hmembers]
  rfl

theorem Space.mapSpan_id (s : Space) : s.mapSpan id = s := by
  have hclasses : s.classes.map (Class.mapSpan id) = s.classes :=
    List.map_id'' Class.mapSpan_id _
  rw [mapSpan, hclasses]
  rfl

theorem Expr.span_mapSpan (e : Expr) : (e.mapSpan f).span = f e.span := by
  cases e <;> simp [Expr.mapSpan, Expr.span]

/-! ## Positions -/

section

variable (f : Position → Position)

theorem Expr.mapSpan_join (left : Expr) (op : BinaryOperator) (right : Expr) :
    (left.join op right).mapSpan (Span.map f) =
      (left.mapSpan (Span.map f)).join op (right.mapSpan (Span.map f)) := by
  rw [join, join, span_mapSpan, span_mapSpan, Expr.mapSpan]
  rfl

/-- An operation with `f` applied to the positions of its operand. -/
def relocateOperation (operation : BinaryOperator × Expr) : BinaryOperator × Expr :=
  (operation.1, operation.2.mapSpan (Span.map f))

theorem Expr.mapSpan_foldl_join (e : Expr) (others : List (BinaryOperator × Expr)) :
    (others.foldl (fun left (op, right) => left.join op right) e).mapSpan (Span.map f) =
      (others.map (relocateOperation f)).foldl (fun left (op, right) => left.join op right)
        (e.mapSpan (Span.map f)) := by
  induction others generalizing e with
  | nil => rfl
  | cons operation others ih =>
    rw [List.foldl_cons, ih, List.map_cons, List.foldl_cons, mapSpan_join]
    rfl

end

end SpaceLang
