import SpaceLang.Proofs.Rule.Progress

/-!
# A cursor stays in its list

A `Call` is one use of a cursor: a look at its tokens, the consumption of one, or a rule. Calls in
any order make a session, whether they fail or not (`Cursor.session`). Every call reads some tokens,
none of which is an end marker (`Call.reads`), and so does a session; hence the list is never
changed, the number of consumed tokens never decreases and never exceeds the index of the first end
marker, and every index that a cursor looks at is one of the list (`Cursor.InBounds`).
-/

namespace SpaceLang

open Rule (stop)

/-! ## Calls -/

/-- A use of a cursor. -/
inductive Call where
  | current
  | peek (n : Nat)
  | advance
  | kind (k : TokenKind) (expected : String)
  | symbol (s : String)
  | typeName
  | missing (expected : String)
  | spanFrom (start : Position)
  | spaceDecl
  | typeDecl
  | classDecl
  | member
  | method (start : Position) (type name : String)
  | field (start : Position) (type name : String)
  | property (start : Position) (type name : String)
  | stmt
  | returnStmt
  | implicitVariable
  | explicitVariable
  | expr
  | operand
  | call (target : Expr)

/-- Where a call leaves the cursor, whether it succeeds or fails. -/
def Call.move : Call → Cursor → Cursor
  | current => stop Rule.current
  | peek n => stop (Rule.peek n)
  | advance => stop Rule.advance
  | kind k expected => stop (Rule.kind k expected)
  | symbol s => stop (Rule.symbol s)
  | typeName => stop Rule.typeName
  | missing expected => stop (Rule.fail (Rule.missing expected) : Rule Unit)
  | spanFrom start => stop (Rule.spanFrom start)
  | spaceDecl => stop Rule.spaceDecl
  | typeDecl => stop Rule.typeDecl
  | classDecl => stop Rule.classDecl
  | member => stop Rule.member
  | method start type name => stop (Rule.method start type name)
  | field start type name => stop (Rule.field start type name)
  | property start type name => stop (Rule.property start type name)
  | stmt => stop Rule.stmt
  | returnStmt => stop Rule.returnStmt
  | implicitVariable => stop Rule.implicitVariable
  | explicitVariable => stop Rule.explicitVariable
  | expr => stop Rule.expr
  | operand => stop Rule.operand
  | call target => stop (Rule.call target)

namespace Rule

variable {α : Type} {g : α → α} {r r' : Rule α}

theorem reads_of_built {c : Cursor} (hr : Built id .plain g r r' c) :
    ∃ ts, c.Reads ts (stop r c) :=
  hr.reads

theorem reads_accept (test : Token → Bool) (expected : String) (c : Cursor) :
    ∃ ts, c.Reads ts (stop (accept test expected) c) := by
  show ∃ ts, c.Reads ts (stop (if test c.current then advance else fail (missing expected)) c)
  split
  · exact exists_reads_advance c
  · exact ⟨[], rfl⟩

end Rule

/-- No call goes back, and none goes past an end marker. -/
theorem Call.reads (call : Call) (c : Cursor) : ∃ ts, c.Reads ts (call.move c) := by
  cases call with
  | current => exact ⟨[], rfl⟩
  | peek n => exact ⟨[], rfl⟩
  | advance => exact Rule.exists_reads_advance c
  | kind k expected => exact Rule.reads_accept _ _ c
  | symbol s => exact Rule.reads_accept _ _ c
  | typeName => exact Rule.reads_accept _ _ c
  | missing expected => exact ⟨[], rfl⟩
  | spanFrom start => exact ⟨[], rfl⟩
  | spaceDecl => exact Rule.reads_of_built Rule.built_spaceDecl
  | typeDecl => exact Rule.reads_of_built Rule.built_typeDecl
  | classDecl => exact Rule.reads_of_built (Rule.built_classDecl False.elim)
  | member => exact Rule.reads_of_built Rule.built_member
  | method start type name => exact Rule.reads_of_built (Rule.built_method start type name)
  | field start type name => exact Rule.reads_of_built (Rule.built_field start type name)
  | property start type name =>
    exact Rule.reads_of_built (Rule.built_property False.elim start type)
  | stmt => exact Rule.reads_of_built Rule.built_stmt
  | returnStmt => exact Rule.reads_of_built (Rule.built_returnStmt False.elim)
  | implicitVariable => exact Rule.reads_of_built (Rule.built_implicitVariable id)
  | explicitVariable => exact Rule.reads_of_built Rule.built_explicitVariable
  | expr => exact Rule.reads_of_built Rule.built_expr
  | operand => exact Rule.reads_of_built Rule.built_operand
  | call target => exact Rule.reads_of_built (Rule.built_call id target)

namespace Cursor

variable {c d : Cursor} {ts us : List Token}

/-- Calls in a row. -/
def session (c : Cursor) (calls : List Call) : Cursor :=
  calls.foldl (fun c call => call.move c) c

theorem reads_session (c : Cursor) (calls : List Call) : ∃ ts, c.Reads ts (c.session calls) := by
  induction calls generalizing c with
  | nil => exact ⟨[], rfl⟩
  | cons call calls ih =>
    obtain ⟨ts, hts⟩ := call.reads c
    obtain ⟨us, hus⟩ := ih (call.move c)
    exact ⟨ts ++ us, hts.append hus⟩

/-! ## Places in the list -/

theorem Reads.index_eq (h : c.Reads ts d) : d.consumed.length = c.consumed.length + ts.length := by
  rw [h.consumed_eq, List.length_append, List.length_reverse, Nat.add_comm]

theorem length_toList (c : Cursor) : c.toList.length = c.consumed.length + c.next.length + 1 := by
  simp only [toList, List.length_append, List.length_reverse, List.length_cons]
  omega

theorem getElem?_peek (c : Cursor) (n : Nat) :
    c.toList[min (c.consumed.length + n) (c.toList.length - 1)]? = some (c.peek n) := by
  have hlength := c.length_toList
  have hget : ∀ i, c.toList[c.consumed.length + i]? = (c.current :: c.next)[i]? := by
    intro i
    rw [toList, List.getElem?_append_right (by simp)]
    simp
  by_cases hn : n ≤ c.next.length
  · have hmin : min (c.consumed.length + n) (c.toList.length - 1) = c.consumed.length + n := by
      omega
    have hlt : n < (c.current :: c.next).length := Nat.lt_succ_of_le hn
    rw [hmin, hget, peek, List.getElem?_eq_getElem hlt]
  · have hmin : min (c.consumed.length + n) (c.toList.length - 1) =
        c.consumed.length + c.next.length := by
      omega
    have hnone : (c.current :: c.next)[n]? = none :=
      List.getElem?_eq_none (Nat.succ_le_of_lt (Nat.lt_of_not_le hn))
    have hlast : (c.current :: c.next)[c.next.length]? = some (c.next.getLastD c.current) := by
      have := List.getLast?_eq_getElem? (l := c.current :: c.next)
      rw [List.length_cons, Nat.add_sub_cancel] at this
      rw [← this, List.getLast?_cons, List.getLastD_eq_getLast?]
    rw [hmin, hget, peek, hnone, hlast]

theorem exists_previous {n : Nat} (h : c.consumed.length = n + 1) :
    ∃ t, c.toList[n]? = some t ∧ c.previousEnd = t.span.stop := by
  obtain ⟨t, ts, ht⟩ := List.exists_cons_of_length_eq_add_one h
  have hn : ts.length = n := by
    rw [ht, List.length_cons] at h
    omega
  refine ⟨t, ?_, ?_⟩
  · rw [toList, ht, List.reverse_cons, List.append_assoc, ← hn,
      List.getElem?_append_right (by simp)]
    simp
  · rw [previousEnd, ht]

theorem exists_toList_concat (c : Cursor) :
    ∃ front last, c.toList = front ++ [last] ∧ last.isEndOfFile := by
  have hlast := c.closed
  rcases List.eq_nil_or_concat c.next with hnil | ⟨front, last, hnext⟩
  · refine ⟨c.consumed.reverse, c.current, ?_, ?_⟩
    · rw [toList, hnil]
    · rwa [hnil] at hlast
  · rw [List.concat_eq_append] at hnext
    refine ⟨c.consumed.reverse ++ c.current :: front, last, ?_, ?_⟩
    · rw [toList, hnext, List.append_assoc, List.cons_append]
    · rwa [hnext, List.getLastD_concat] at hlast

/-- A cursor in the list `ts`, in front of which no end marker is consumed. -/
structure InBounds (ts : List Token) (c : Cursor) : Prop where
  toList_eq : c.toList = ts
  closed : ∃ front last, ts = front ++ [last] ∧ last.isEndOfFile
  index_le : c.consumed.length ≤ ts.findIdx Token.isEndOfFile
  findIdx_lt : ts.findIdx Token.isEndOfFile < ts.length
  current : ts[c.consumed.length]? = some c.current
  peek : ∀ n, ts[min (c.consumed.length + n) (ts.length - 1)]? = some (c.peek n)
  previous : ∀ n, c.consumed.length = n + 1 →
    ∃ t, ts[n]? = some t ∧ c.previousEnd = t.span.stop
  first : c.consumed.length = 0 → c.previousEnd = c.current.span.start

theorem inBounds_of_reads (h : (ofTokens ts).Reads us d) : InBounds (ofTokens ts).toList d := by
  have hlist := h.toList_eq
  obtain ⟨front, last, hconcat, hend⟩ := d.exists_toList_concat
  have hindex : d.consumed.length ≤ d.toList.findIdx Token.isEndOfFile := by
    have hread : d.consumed = us.reverse := by
      rw [h.consumed_eq, consumed_ofTokens, List.append_nil]
    have hnone : us.findIdx Token.isEndOfFile = us.length :=
      List.findIdx_eq_length.2 h.not_endOfFile
    rw [toList, hread, List.reverse_reverse, List.findIdx_append, hnone,
      if_neg (Nat.lt_irrefl _), List.length_reverse]
    exact Nat.le_add_left _ _
  have hfound : d.toList.findIdx Token.isEndOfFile < d.toList.length := by
    rw [List.findIdx_lt_length]
    exact ⟨last, by simp [hconcat], hend⟩
  rw [← hlist]
  exact
    { toList_eq := rfl
      closed := ⟨front, last, hconcat, hend⟩
      index_le := hindex
      findIdx_lt := hfound
      current := d.getElem?_toList
      peek := d.getElem?_peek
      previous := fun n => exists_previous
      first := fun hzero => by rw [previousEnd, List.eq_nil_of_length_eq_zero hzero] }

theorem inBounds_session (tokens : List Token) (calls : List Call) :
    InBounds (ofTokens tokens).toList ((ofTokens tokens).session calls) := by
  obtain ⟨ts, hts⟩ := reads_session (ofTokens tokens) calls
  exact inBounds_of_reads hts

theorem index_le_session (c : Cursor) (calls : List Call) :
    c.consumed.length ≤ (c.session calls).consumed.length := by
  obtain ⟨ts, hts⟩ := reads_session c calls
  rw [hts.index_eq]
  exact Nat.le_add_right _ _

end Cursor

/-! ## Progress -/

namespace Rule

/-- Whether the cursor stands farther in its list wherever the rule succeeds. -/
def Advances {α : Type} (r : Rule α) : Prop :=
  ∀ ⦃c a d⦄, r c = .ok a d → c.consumed.length < d.consumed.length

theorem Advances.of_built {α : Type} {g : α → α} {r r' : Rule α}
    (hr : ∀ c, Built id .gaining g r r' c) : Advances r := by
  intro c a d hrun
  obtain ⟨ts, hts⟩ := (hr c).reads_of_ok hrun
  have hless := (hr c).gains trivial hrun
  have hremaining := hts.remaining_eq
  have hindex := hts.index_eq
  omega

/-- **Every session makes progress and stays in its list.** From any token list, calls in any order
leave a cursor in the list that it began in, nowhere behind the first end marker. Every rule that
reads a construct succeeds only farther in the list, every loop is one of steps that consume tokens,
and a rule calls itself only where fewer tokens remain. -/
theorem session_inBounds_and_progress :
    (∀ tokens calls, Cursor.InBounds (Cursor.ofTokens tokens).toList
      ((Cursor.ofTokens tokens).session calls)) ∧
    (∀ (c : Cursor) calls, c.consumed.length ≤ (c.session calls).consumed.length) ∧
    (Advances spaceDecl ∧ Advances typeDecl ∧ Advances classDecl ∧ Advances member ∧
      (∀ start type name, Advances (method start type name)) ∧
      (∀ start type name, Advances (field start type name)) ∧
      (∀ start type name, Advances (property start type name)) ∧ Advances parameter ∧
      Advances stmt ∧ Advances returnStmt ∧ Advances implicitVariable ∧
      Advances explicitVariable ∧ Advances expr ∧ Advances operand) ∧
    LoopsProgress ∧ RecursBelow chainWith expr :=
  ⟨Cursor.inBounds_session, Cursor.index_le_session,
    ⟨.of_built fun _ => built_spaceDecl, .of_built fun _ => built_typeDecl,
      .of_built fun _ => built_classDecl False.elim, .of_built fun _ => built_member,
      fun _ _ _ => .of_built fun _ => built_method _ _ _,
      fun _ _ _ => .of_built fun _ => built_field _ _ _,
      fun _ _ _ => .of_built fun _ => built_property False.elim _ _,
      .of_built fun _ => built_parameter, .of_built fun _ => built_stmt,
      .of_built fun _ => built_returnStmt False.elim,
      .of_built fun _ => built_implicitVariable id,
      .of_built fun _ => built_explicitVariable, .of_built fun _ => built_expr,
      .of_built fun _ => built_operand⟩,
    loopsProgress, recursBelow_expr⟩

end Rule

end SpaceLang
