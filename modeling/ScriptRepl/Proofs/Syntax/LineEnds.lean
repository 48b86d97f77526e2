import ScriptRepl.Proofs.Syntax.Sequence

/-! What a line end before one token does to a parser. Only the end of a statement looks at it, so the results are the
same, unless the parser that sees no line end refuses this very token. -/
namespace ScriptRepl.Syntax

/-- The token, behind a line end. -/
def Token.broken (t : Token) : Token :=
  { t with newlineBefore := true }

namespace Parser

variable {α β : Type} {u : Token}

/-- The same input, but for the line end before the token. -/
inductive Twin (u : Token) : Input → Input → Prop
  | same (i : Input) : Twin u i i
  | apart (us vs : List Token) (fin : Nat) : Twin u ⟨us ++ u :: vs, fin⟩ ⟨us ++ u.broken :: vs, fin⟩

/-- The token is refused. -/
def refusal (u : Token) : SyntaxError :=
  ⟨.unexpected u.kind, u.start⟩

/-- Either parser fails alike or both go on with such inputs, unless the first one refuses the token. -/
inductive Agree (u : Token) : Except SyntaxError (α × Input) → Except SyntaxError (α × Input) → Prop
  | ok (x : α) {i j : Input} (h : Twin u i j) : Agree u (.ok (x, i)) (.ok (x, j))
  | error (e : SyntaxError) : Agree u (.error e) (.error e)
  | refused (r : Except SyntaxError (α × Input)) : Agree u (.error (refusal u)) r

theorem Agree.refl (r : Except SyntaxError (α × Input)) : Agree u r r := by
  cases r with
  | ok pair => exact .ok pair.1 (.same pair.2)
  | error e => exact .error e

/-- Reads what does not depend on the line end. -/
def Unbroken (u : Token) (parse : Parse α) : Prop :=
  ∀ i j, Twin u i j → Agree u (parse.run i) (parse.run j)

section

variable {parse : Parse α} {cont : α → Parse β} {i j : Input}

theorem Twin.head (h : Twin u i j) : i.rest.head?.map (·.kind) = j.rest.head?.map (·.kind) := by
  cases h with
  | same => rfl
  | apart us vs fin => cases us <;> rfl

theorem Twin.offset (h : Twin u i j) : i.offset = j.offset := by
  cases h with
  | same => rfl
  | apart us vs fin => cases us <;> rfl

theorem Twin.length (h : Twin u i j) : i.rest.length = j.rest.length := by
  cases h with
  | same => rfl
  | apart us vs fin => simp

theorem Twin.tail (h : Twin u i j) : Twin u { i with rest := i.rest.tail } { j with rest := j.rest.tail } := by
  cases h with
  | same => exact .same _
  | apart us vs fin =>
      cases us with
      | nil => exact .same _
      | cons t us => exact .apart us vs fin

theorem Unbroken.bind (h : Unbroken u parse) (hcont : ∀ x, Unbroken u (cont x)) : Unbroken u (parse >>= cont) := by
  intro i j hij
  have hparse := h i j hij
  rw [StateT.run_bind, StateT.run_bind]
  generalize parse.run i = r, parse.run j = r' at hparse ⊢
  cases hparse with
  | ok x hij' => exact hcont x _ _ hij'
  | error e => exact .error e
  | refused r => exact .refused _

theorem unbroken_pure (x : α) : Unbroken u (pure x : Parse α) :=
  fun _ _ h => .ok x h

theorem Unbroken.map (h : Unbroken u parse) (f : α → β) : Unbroken u (do return f (← parse)) :=
  h.bind fun x => unbroken_pure (f x)

theorem unbroken_throw (e : SyntaxError) : Unbroken u (throw e : Parse α) :=
  fun _ _ _ => .error e

theorem Unbroken.ite {c : Prop} [Decidable c] {yes no : Parse α} (hyes : Unbroken u yes) (hno : Unbroken u no) :
    Unbroken u (if c then yes else no) := by
  split
  · exact hyes
  · exact hno

theorem unbroken_peek : Unbroken u peek := by
  intro i j h
  have hrun : ∀ i, peek.run i = .ok (i.rest.head?.map (·.kind), i) := fun _ => rfl
  rw [hrun, hrun, h.head]
  exact .ok _ h

theorem unbroken_here : Unbroken u here := by
  intro i j h
  have hrun : ∀ i, here.run i = .ok (i.offset, i) := fun _ => rfl
  rw [hrun, hrun, h.offset]
  exact .ok _ h

theorem unbroken_skip : Unbroken u skip :=
  fun _ _ h => .ok () h.tail

theorem unbroken_remaining : Unbroken u remaining := by
  intro i j h
  have hrun : ∀ i, remaining.run i = .ok (i.rest.length, i) := fun _ => rfl
  rw [hrun, hrun, h.length]
  exact .ok _ h

theorem unbroken_fail (cause : SyntaxCause) : Unbroken u (fail cause : Parse α) :=
  unbroken_here.bind fun _ => unbroken_throw _

theorem unbroken_unexpected : Unbroken u (unexpected : Parse α) :=
  unbroken_peek.bind fun kind? => by
    cases kind? with
    | none => exact unbroken_fail _
    | some kind => exact unbroken_fail _

theorem unbroken_peekPunct : Unbroken u peekPunct :=
  unbroken_peek.bind fun kind? => by
    split
    · exact unbroken_pure _
    · exact unbroken_pure _

theorem unbroken_eat (p : Punct) : Unbroken u (eat p) :=
  unbroken_peekPunct.bind fun _ => .ite (unbroken_skip.bind fun _ => unbroken_pure true) (unbroken_pure false)

theorem unbroken_expect (p : Punct) : Unbroken u (expect p) :=
  (unbroken_eat p).bind fun _ => .ite (unbroken_pure ()) unbroken_unexpected

end

/-! ### Expressions -/

structure Level.Unbroken (u : Token) (l : Level) : Prop where
  assignment : Parser.Unbroken u l.assignment
  binary : ∀ least, Parser.Unbroken u (l.binary least)
  unary : Parser.Unbroken u l.unary
  list : ∀ close, Parser.Unbroken u (l.list close)
  object : Parser.Unbroken u l.object
  template : ∀ t, Parser.Unbroken u (l.template t)

section

variable {deeper : Level}

theorem unbroken_binaryTail (h : deeper.Unbroken u) (least fuel : Nat) (left : Expr) :
    Unbroken u (binaryTail deeper least fuel left) := by
  induction fuel generalizing left with
  | zero => exact unbroken_pure left
  | succ fuel ih =>
      refine unbroken_peekPunct.bind fun p? => ?_
      split
      · exact unbroken_pure left
      · refine .ite (unbroken_pure left) (unbroken_skip.bind fun _ => ?_)
        exact h.assignment.bind fun yes => (unbroken_expect .colon).bind fun _ => h.assignment.bind fun no => ih _
      · split
        · exact unbroken_pure left
        · exact .ite (unbroken_pure left) (unbroken_skip.bind fun _ => (h.binary _).bind fun right => ih _)

theorem unbroken_chainTail (h : deeper.Unbroken u) (fuel : Nat) (e : Expr) :
    Unbroken u (chainTail deeper fuel e) := by
  induction fuel generalizing e with
  | zero => exact unbroken_pure e
  | succ fuel ih =>
      refine unbroken_peekPunct.bind fun p? => ?_
      split
      · refine unbroken_skip.bind fun _ => unbroken_peek.bind fun kind? => ?_
        split
        · exact unbroken_skip.bind fun _ => ih _
        · exact unbroken_unexpected
      · refine unbroken_skip.bind fun _ => h.assignment.bind fun key => ?_
        exact (unbroken_expect .closeBracket).bind fun _ => ih _
      · exact unbroken_skip.bind fun _ => (h.list _).bind fun args => ih _
      · exact unbroken_pure e

theorem unbroken_primary (h : deeper.Unbroken u) : Unbroken u (primary deeper) := by
  refine unbroken_peek.bind fun kind? => ?_
  split
  · exact unbroken_skip.bind fun _ => unbroken_pure _
  · exact unbroken_skip.bind fun _ => unbroken_pure _
  · exact unbroken_skip.bind fun _ => h.template _
  · exact unbroken_skip.bind fun _ => unbroken_pure _
  · exact unbroken_skip.bind fun _ => unbroken_pure _
  · refine unbroken_skip.bind fun _ => h.assignment.bind fun e => ?_
    exact (unbroken_expect .closeParen).bind fun _ => unbroken_pure e
  · exact unbroken_skip.bind fun _ => (h.list .closeBracket).map Expr.array
  · exact unbroken_skip.bind fun _ => h.object
  · exact unbroken_unexpected

theorem unbroken_unary (h : deeper.Unbroken u) : Unbroken u (unary deeper) := by
  refine unbroken_peek.bind fun kind? => ?_
  split
  · exact unbroken_skip.bind fun _ => h.unary.map _
  · exact (unbroken_primary h).bind fun e => unbroken_remaining.bind fun n => unbroken_chainTail h n e

theorem unbroken_binary (h : deeper.Unbroken u) (least : Nat) : Unbroken u (binary deeper least) :=
  (unbroken_unary h).bind fun left => unbroken_remaining.bind fun n => unbroken_binaryTail h least n left

theorem unbroken_assignment (h : deeper.Unbroken u) : Unbroken u (assignment deeper) := by
  refine unbroken_here.bind fun start => (unbroken_binary h 0).bind fun target => (unbroken_eat .assign).bind fun _ => ?_
  refine .ite ?_ (unbroken_pure target)
  split
  · exact unbroken_throw _
  · exact h.assignment.map _

theorem unbroken_listItems (h : deeper.Unbroken u) (close : Punct) (fuel : Nat) :
    Unbroken u (listItems deeper close fuel) := by
  induction fuel with
  | zero => exact unbroken_unexpected
  | succ fuel ih =>
      refine (unbroken_eat close).bind fun _ => .ite (unbroken_pure []) ?_
      refine (unbroken_assignment h).bind fun item => (unbroken_eat .comma).bind fun _ => .ite (ih.map _) ?_
      exact (unbroken_expect close).bind fun _ => unbroken_pure [item]

theorem unbroken_list (h : deeper.Unbroken u) (close : Punct) : Unbroken u (list deeper close) :=
  unbroken_remaining.bind fun n => unbroken_listItems h close (n + 1)

theorem unbroken_keyed (h : deeper.Unbroken u) (key : String) : Unbroken u (objectField.keyed deeper key) :=
  unbroken_skip.bind fun _ => (unbroken_eat .colon).bind fun _ =>
    .ite ((unbroken_assignment h).map _) unbroken_unexpected

theorem unbroken_objectField (h : deeper.Unbroken u) : Unbroken u (objectField deeper) := by
  refine unbroken_peek.bind fun kind? => ?_
  split
  · refine unbroken_skip.bind fun _ => (unbroken_eat .colon).bind fun _ => ?_
    exact .ite ((unbroken_assignment h).map _) (unbroken_pure _)
  · exact unbroken_keyed h _
  · exact unbroken_keyed h _
  · exact unbroken_keyed h _
  · exact unbroken_unexpected

theorem unbroken_objectFields (h : deeper.Unbroken u) (fuel : Nat) : Unbroken u (objectFields deeper fuel) := by
  induction fuel with
  | zero => exact unbroken_unexpected
  | succ fuel ih =>
      refine (unbroken_eat .closeBrace).bind fun _ => .ite (unbroken_pure []) ?_
      refine (unbroken_objectField h).bind fun field => (unbroken_eat .comma).bind fun _ => .ite (ih.map _) ?_
      exact (unbroken_expect .closeBrace).bind fun _ => unbroken_pure [field]

theorem unbroken_object (h : deeper.Unbroken u) : Unbroken u (object deeper) :=
  (unbroken_remaining.bind fun n => unbroken_objectFields h (n + 1)).map Expr.object

theorem unbroken_template (t : Template) : Unbroken u (template deeper t) := by
  intro i j hij
  unfold template
  cases templateParts deeper t.parts with
  | error e => exact .error e
  | ok exprs => exact .ok _ hij

theorem Level.unbroken_forbidden : Level.forbidden.Unbroken u where
  assignment := unbroken_fail .nesting
  binary _ := unbroken_fail .nesting
  unary := unbroken_fail .nesting
  list _ := unbroken_fail .nesting
  object := unbroken_fail .nesting
  template _ := unbroken_fail .nesting

theorem Level.unbroken_above (h : deeper.Unbroken u) : (Level.above deeper).Unbroken u where
  assignment := unbroken_assignment h
  binary := unbroken_binary h
  unary := unbroken_unary h
  list := unbroken_list h
  object := unbroken_object h
  template := unbroken_template

theorem Level.unbroken_level (room : Nat) : (level room).Unbroken u := by
  induction room with
  | zero => exact Level.unbroken_forbidden
  | succ room ih => exact Level.unbroken_above ih

theorem unbroken_expression : Unbroken u expression :=
  unbroken_assignment (Level.unbroken_level maxNesting)

end

/-! ### Statements -/

theorem unbroken_declaration (kind : DeclKind) : Unbroken u (declaration kind) := by
  refine unbroken_peek.bind fun kind? => ?_
  split
  · refine unbroken_skip.bind fun _ => (unbroken_eat .assign).bind fun _ => ?_
    refine .ite (unbroken_expression.map _) (.ite ?_ (unbroken_pure _))
    refine unbroken_peek.bind fun kind? => ?_
    split
    · exact unbroken_fail _
    · exact unbroken_fail _
  · exact unbroken_unexpected

theorem unbroken_statementBody : Unbroken u statementBody := by
  refine unbroken_peek.bind fun kind? => ?_
  split
  · exact unbroken_skip.bind fun _ => unbroken_declaration _
  · exact unbroken_expression.map Stmt.expr

/-- The end of a statement that no semicolon closes. -/
def endOfLine : Parse Unit := do
  match (← get).rest with
  | [] => return ()
  | t :: _ => if t.newlineBefore then return () else unexpected

theorem run_endOfLine (t : Token) (ts : List Token) (fin : Nat) :
    endOfLine.run ⟨t :: ts, fin⟩ = if t.newlineBefore then .ok ((), ⟨t :: ts, fin⟩) else .error (refusal t) := by
  have hrun : endOfLine.run ⟨t :: ts, fin⟩ =
      (if t.newlineBefore then pure () else unexpected : Parse Unit).run ⟨t :: ts, fin⟩ := rfl
  rw [hrun]
  split <;> rfl

/-- Only here it matters whether a line end stands before the token: without one it is refused. -/
theorem unbroken_endOfLine (hu : u.newlineBefore = false) : Unbroken u endOfLine := by
  intro i j h
  cases h with
  | same i => exact .refl _
  | apart us vs fin =>
      cases us with
      | nil =>
          rw [List.nil_append, run_endOfLine, hu]
          exact .refused _
      | cons t us =>
          rw [List.cons_append, List.cons_append, run_endOfLine, run_endOfLine]
          cases t.newlineBefore with
          | true => exact .ok () (.apart (t :: us) vs fin)
          | false => exact .error _

theorem unbroken_statement (hu : u.newlineBefore = false) : Unbroken u statement := by
  refine (unbroken_eat .semicolon).bind fun _ => .ite (unbroken_pure Stmt.empty) ?_
  refine unbroken_statementBody.bind fun s => ?_
  have hend : Unbroken u endOfStatement :=
    (unbroken_eat .semicolon).bind fun _ => .ite (unbroken_pure ()) (unbroken_endOfLine hu)
  exact hend.bind fun _ => unbroken_pure s

theorem unbroken_statements (hu : u.newlineBefore = false) (fuel : Nat) : Unbroken u (statements fuel) := by
  induction fuel with
  | zero => exact unbroken_pure []
  | succ fuel ih =>
      refine unbroken_remaining.bind fun n => .ite (unbroken_pure []) ?_
      exact (unbroken_statement hu).bind fun s => ih.map (s :: ·)

end Parser

/-- A line end before a token, where none was, changes nothing, unless the token was refused. -/
theorem run_statements_broken {u : Token} (hu : u.newlineBefore = false) (us vs : List Token) (fin n : Nat) :
    ((Parser.statements n).run ⟨us ++ u.broken :: vs, fin⟩).map Prod.fst =
        ((Parser.statements n).run ⟨us ++ u :: vs, fin⟩).map Prod.fst ∨
      (Parser.statements n).run ⟨us ++ u :: vs, fin⟩ = .error (Parser.refusal u) := by
  have hagree := Parser.unbroken_statements hu n _ _ (.apart us vs fin)
  generalize (Parser.statements n).run ⟨us ++ u :: vs, fin⟩ = r,
    (Parser.statements n).run ⟨us ++ u.broken :: vs, fin⟩ = r' at hagree ⊢
  cases hagree with
  | ok x h => exact .inl rfl
  | error e => exact .inl rfl
  | refused r => exact .inr rfl

end ScriptRepl.Syntax
