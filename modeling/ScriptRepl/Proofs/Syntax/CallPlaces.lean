import ScriptRepl.Proofs.Syntax.Sequence

/-! The calls that a program is read with, each with the place of its parenthesis among the tokens. They are the calls
of the tree, and behind each parenthesis stand the tokens of its arguments. The holes of templates are sources of their
own, whose tokens are not among those of the program. -/
namespace ScriptRepl.Syntax

/-! ### The calls of a tree -/

mutual

/-- What is called and with which arguments, outside of holes, in the order of the parentheses. -/
def Expr.calls : Expr → List (Expr × List Expr)
  | .number _ | .text _ | .template _ _ | .literal _ | .name _ => []
  | .array items => itemsCalls items
  | .object fields => fieldsCalls fields
  | .member value _ => value.calls
  | .index value key => value.calls ++ key.calls
  | .call callee args => callee.calls ++ (callee, args) :: itemsCalls args
  | .unary _ operand => operand.calls
  | .binary _ left right => left.calls ++ right.calls
  | .logical _ left right => left.calls ++ right.calls
  | .conditional test yes no => test.calls ++ (yes.calls ++ no.calls)
  | .assignName _ value => value.calls
  | .assignMember target _ value => target.calls ++ value.calls
  | .assignIndex target key value => target.calls ++ key.calls ++ value.calls

def itemsCalls : List Expr → List (Expr × List Expr)
  | [] => []
  | e :: es => e.calls ++ itemsCalls es

def fieldsCalls : List (String × Expr) → List (Expr × List Expr)
  | [] => []
  | (_, e) :: fields => e.calls ++ fieldsCalls fields

end

def Stmt.calls : Stmt → List (Expr × List Expr)
  | .expr e => e.calls
  | .decl _ _ (some e) => e.calls
  | .decl _ _ none | .empty => []

def Program.calls (p : Program) : List (Expr × List Expr) :=
  p.flatMap Stmt.calls

theorem itemsCalls_eq (es : List Expr) : itemsCalls es = es.flatMap Expr.calls := by
  induction es with
  | nil => rfl
  | cons e es ih => rw [itemsCalls, ih, List.flatMap_cons]

theorem fieldsCalls_eq (fields : List (String × Expr)) :
    fieldsCalls fields = fields.flatMap fun field => field.2.calls := by
  induction fields with
  | nil => rfl
  | cons field fields ih => rw [fieldsCalls, ih, List.flatMap_cons]

/-- A call whose parenthesis stands behind so many tokens. -/
structure PlacedCall where
  place : Nat
  callee : Expr
  args : List Expr

namespace PlacedCall

def called (c : PlacedCall) : Expr × List Expr :=
  (c.callee, c.args)

/-- The same call with more tokens before it. -/
def behind (c : PlacedCall) (us : List Token) : PlacedCall :=
  { c with place := c.place + us.length }

end PlacedCall

/-- Phrases that have a call among their tokens. -/
abbrev Calling (α : Type) := List Token → α → PlacedCall → Prop

namespace Grammar

/-! ### The calls of a phrase

The rules of the grammar once more, each with the part of the phrase that the call stands in. -/

/-- The calls of the phrases that are one level deeper. -/
structure NestedCalls where
  assignment : Calling Expr
  operand : (stratum : Nat) → Calling Expr
  unary : Calling Expr
  items : (close : Punct) → Calling (List Expr)
  fields : Calling (List (String × Expr))

inductive SeparatedCall {α : Type} (close : Punct) (item : Phrase α) (itemCall : Calling α) : Calling (List α)
  | last {us : List Token} {t : Token} {x : α} {c : PlacedCall} (hcall : itemCall us x c)
      (hclose : t.kind = .punct close) : SeparatedCall close item itemCall (us ++ [t]) [x] c
  | here {us vs : List Token} {t : Token} {x : α} {xs : List α} {c : PlacedCall} (hcall : itemCall us x c)
      (hcomma : t.kind = .punct .comma) (hmore : Separated close item vs xs) :
    SeparatedCall close item itemCall (us ++ t :: vs) (x :: xs) c
  | later {us vs : List Token} {t : Token} {x : α} {xs : List α} {c : PlacedCall} (hitem : item us x)
      (hcomma : t.kind = .punct .comma) (hcall : SeparatedCall close item itemCall vs xs c) :
    SeparatedCall close item itemCall (us ++ t :: vs) (x :: xs) (c.behind (us ++ [t]))

section

variable (deeper : Nested) (inside : NestedCalls)

inductive PrimaryCall : Calling Expr
  | parens {t t' : Token} {us : List Token} {e : Expr} {c : PlacedCall} (hopen : t.kind = .punct .openParen)
      (hcall : inside.assignment us e c) (hclose : t'.kind = .punct .closeParen) :
    PrimaryCall (t :: (us ++ [t'])) e (c.behind [t])
  | array {t : Token} {us : List Token} {items : List Expr} {c : PlacedCall} (hopen : t.kind = .punct .openBracket)
      (hcall : inside.items .closeBracket us items c) : PrimaryCall (t :: us) (.array items) (c.behind [t])
  | object {t : Token} {us : List Token} {fields : List (String × Expr)} {c : PlacedCall}
      (hopen : t.kind = .punct .openBrace) (hcall : inside.fields us fields c) :
    PrimaryCall (t :: us) (.object fields) (c.behind [t])

inductive ChainCall : Calling Expr
  | primary {us : List Token} {e : Expr} {c : PlacedCall} (hcall : PrimaryCall inside us e c) : ChainCall us e c
  | member {us : List Token} {t t' : Token} {e : Expr} {key : String} {c : PlacedCall} (hcall : ChainCall us e c)
      (hdot : t.kind = .punct .dot) (hkey : Parser.memberName? t'.kind = some key) :
    ChainCall (us ++ [t, t']) (.member e key) c
  | indexed {us vs : List Token} {t t' : Token} {e key : Expr} {c : PlacedCall} (hcall : ChainCall us e c)
      (hopen : t.kind = .punct .openBracket) (hkey : deeper.assignment vs key)
      (hclose : t'.kind = .punct .closeBracket) : ChainCall (us ++ t :: (vs ++ [t'])) (.index e key) c
  | index {us vs : List Token} {t t' : Token} {e key : Expr} {c : PlacedCall} (hobject : Chain deeper us e)
      (hopen : t.kind = .punct .openBracket) (hcall : inside.assignment vs key c)
      (hclose : t'.kind = .punct .closeBracket) :
    ChainCall (us ++ t :: (vs ++ [t'])) (.index e key) (c.behind (us ++ [t]))
  | callee {us vs : List Token} {t : Token} {e : Expr} {args : List Expr} {c : PlacedCall} (hcall : ChainCall us e c)
      (hopen : t.kind = .punct .openParen) (hargs : deeper.items .closeParen vs args) :
    ChainCall (us ++ t :: vs) (.call e args) c
  | argument {us vs : List Token} {t : Token} {e : Expr} {args : List Expr} {c : PlacedCall}
      (hcallee : Chain deeper us e) (hopen : t.kind = .punct .openParen)
      (hcall : inside.items .closeParen vs args c) : ChainCall (us ++ t :: vs) (.call e args) (c.behind (us ++ [t]))
  /-- The call of the rule itself: its parenthesis stands behind the tokens of what is called. -/
  | call {us vs : List Token} {t : Token} {e : Expr} {args : List Expr} (hcallee : Chain deeper us e)
      (hopen : t.kind = .punct .openParen) (hargs : deeper.items .closeParen vs args) :
    ChainCall (us ++ t :: vs) (.call e args) ⟨us.length, e, args⟩

inductive UnaryCall : Calling Expr
  | chain {us : List Token} {e : Expr} {c : PlacedCall} (hcall : ChainCall deeper inside us e c) : UnaryCall us e c
  | operator {t : Token} {us : List Token} {op : UnaryOp} {e : Expr} {c : PlacedCall}
      (hop : Parser.unaryOf? t.kind = some op) (hcall : inside.unary us e c) :
    UnaryCall (t :: us) (.unary op e) (c.behind [t])

inductive BinaryCall : (stratum : Nat) → Calling Expr
  | unary {us : List Token} {e : Expr} {c : PlacedCall} (hcall : UnaryCall deeper inside us e c) : BinaryCall 8 us e c
  | powerLeft {us vs : List Token} {t : Token} {left right : Expr} {c : PlacedCall}
      (hcall : UnaryCall deeper inside us left c) (hop : t.kind = .punct .power) (hright : deeper.operand 8 vs right) :
    BinaryCall 8 (us ++ t :: vs) (.binary .pow left right) c
  | powerRight {us vs : List Token} {t : Token} {left right : Expr} {c : PlacedCall} (hleft : Unary deeper us left)
      (hop : t.kind = .punct .power) (hcall : inside.operand 8 vs right c) :
    BinaryCall 8 (us ++ t :: vs) (.binary .pow left right) (c.behind (us ++ [t]))
  | tighter {stratum : Nat} {us : List Token} {e : Expr} {c : PlacedCall} (hcall : BinaryCall (stratum + 1) us e c) :
    BinaryCall stratum us e c
  | left {stratum : Nat} {us vs : List Token} {t : Token} {p : Punct} {build : Expr → Expr → Expr}
      {left right : Expr} {c : PlacedCall} (hcall : BinaryCall stratum us left c)
      (hop : (p, build) ∈ operators stratum) (hkind : t.kind = .punct p)
      (hright : deeper.operand (stratum + 1) vs right) :
    BinaryCall stratum (us ++ t :: vs) (build left right) c
  | right {stratum : Nat} {us vs : List Token} {t : Token} {p : Punct} {build : Expr → Expr → Expr}
      {left right : Expr} {c : PlacedCall} (hleft : Binary deeper stratum us left)
      (hop : (p, build) ∈ operators stratum) (hkind : t.kind = .punct p)
      (hcall : inside.operand (stratum + 1) vs right c) :
    BinaryCall stratum (us ++ t :: vs) (build left right) (c.behind (us ++ [t]))

inductive ConditionalCall : Calling Expr
  | binary {us : List Token} {e : Expr} {c : PlacedCall} (hcall : BinaryCall deeper inside 1 us e c) :
    ConditionalCall us e c
  | test {us vs ws : List Token} {t t' : Token} {test yes no : Expr} {c : PlacedCall}
      (hcall : BinaryCall deeper inside 1 us test c) (hquestion : t.kind = .punct .question)
      (hyes : deeper.assignment vs yes) (hcolon : t'.kind = .punct .colon) (hno : deeper.assignment ws no) :
    ConditionalCall (us ++ t :: (vs ++ t' :: ws)) (.conditional test yes no) c
  | yes {us vs ws : List Token} {t t' : Token} {test yes no : Expr} {c : PlacedCall} (htest : Binary deeper 1 us test)
      (hquestion : t.kind = .punct .question) (hcall : inside.assignment vs yes c) (hcolon : t'.kind = .punct .colon)
      (hno : deeper.assignment ws no) :
    ConditionalCall (us ++ t :: (vs ++ t' :: ws)) (.conditional test yes no) (c.behind (us ++ [t]))
  | no {us vs ws : List Token} {t t' : Token} {test yes no : Expr} {c : PlacedCall} (htest : Binary deeper 1 us test)
      (hquestion : t.kind = .punct .question) (hyes : deeper.assignment vs yes) (hcolon : t'.kind = .punct .colon)
      (hcall : inside.assignment ws no c) :
    ConditionalCall (us ++ t :: (vs ++ t' :: ws)) (.conditional test yes no) (c.behind (us ++ t :: (vs ++ [t'])))

inductive AssignmentCall : Calling Expr
  | conditional {us : List Token} {e : Expr} {c : PlacedCall} (hcall : ConditionalCall deeper inside us e c) :
    AssignmentCall us e c
  | target {us vs : List Token} {t : Token} {target value : Expr} {build : Expr → Expr} {c : PlacedCall}
      (hcall : ChainCall deeper inside us target c) (hbuild : Parser.assignTo? target = some build)
      (hassign : t.kind = .punct .assign) (hvalue : deeper.assignment vs value) :
    AssignmentCall (us ++ t :: vs) (build value) c
  | value {us vs : List Token} {t : Token} {target value : Expr} {build : Expr → Expr} {c : PlacedCall}
      (htarget : Chain deeper us target) (hbuild : Parser.assignTo? target = some build)
      (hassign : t.kind = .punct .assign) (hcall : inside.assignment vs value c) :
    AssignmentCall (us ++ t :: vs) (build value) (c.behind (us ++ [t]))

inductive FieldCall : Calling (String × Expr)
  | keyed {t t' : Token} {us : List Token} {key : String} {e : Expr} {c : PlacedCall}
      (hkey : fieldKey? t.kind = some key) (hcolon : t'.kind = .punct .colon)
      (hcall : AssignmentCall deeper inside us e c) : FieldCall (t :: t' :: us) (key, e) (c.behind [t, t'])

end

namespace NestedCalls

def none : NestedCalls where
  assignment _ _ _ := False
  operand _ _ _ _ := False
  unary _ _ _ := False
  items _ _ _ _ := False
  fields _ _ _ := False

def above (deeper : Nested) (inside : NestedCalls) : NestedCalls where
  assignment := AssignmentCall deeper inside
  operand := BinaryCall deeper inside
  unary := UnaryCall deeper inside
  items close := SeparatedCall close (Assignment deeper) (AssignmentCall deeper inside)
  fields := SeparatedCall .closeBrace (Field deeper) (FieldCall deeper inside)

/-- The calls of the phrases with so much room. -/
def within : (room : Nat) → NestedCalls
  | 0 => none
  | room + 1 => above (Nested.none.within room) (within room)

end NestedCalls

def ExpressionCall : Calling Expr :=
  AssignmentCall (Nested.none.within Parser.maxNesting) (NestedCalls.within Parser.maxNesting)

inductive BodyCall : Calling Stmt
  | expr {us : List Token} {e : Expr} {c : PlacedCall} (hcall : ExpressionCall us e c) : BodyCall us (.expr e) c
  | valued {t t' t'' : Token} {us : List Token} {kind : DeclKind} {s : String} {e : Expr} {c : PlacedCall}
      (hkey : t.kind = .keyword (.decl kind)) (hname : t'.kind = .name s) (hassign : t''.kind = .punct .assign)
      (hcall : ExpressionCall us e c) :
    BodyCall (t :: t' :: t'' :: us) (.decl kind s (some e)) (c.behind [t, t', t''])

inductive ProgramCall : Calling Syntax.Program
  | empty {t : Token} {us : List Token} {p : Syntax.Program} {c : PlacedCall} (hclose : t.kind = .punct .semicolon)
      (hcall : ProgramCall us p c) : ProgramCall (t :: us) (.empty :: p) (c.behind [t])
  | closed {us vs : List Token} {t : Token} {s : Stmt} {p : Syntax.Program} {c : PlacedCall} (hcall : BodyCall us s c)
      (hclose : t.kind = .punct .semicolon) (hmore : Program vs p) : ProgramCall (us ++ t :: vs) (s :: p) c
  | behindClosed {us vs : List Token} {t : Token} {s : Stmt} {p : Syntax.Program} {c : PlacedCall} (hbody : Body us s)
      (hclose : t.kind = .punct .semicolon) (hcall : ProgramCall vs p c) :
    ProgramCall (us ++ t :: vs) (s :: p) (c.behind (us ++ [t]))
  | ended {us vs : List Token} {s : Stmt} {p : Syntax.Program} {c : PlacedCall} (hcall : BodyCall us s c)
      (hends : BodyEnds s vs) (hline : EndsLine vs) (hmore : Program vs p) : ProgramCall (us ++ vs) (s :: p) c
  | behindEnded {us vs : List Token} {s : Stmt} {p : Syntax.Program} {c : PlacedCall} (hbody : Body us s)
      (hends : BodyEnds s vs) (hline : EndsLine vs) (hcall : ProgramCall vs p c) :
    ProgramCall (us ++ vs) (s :: p) (c.behind us)

theorem calls_build {stratum : Nat} {p : Punct} {build : Expr → Expr → Expr} (h : (p, build) ∈ operators stratum)
    (left right : Expr) : (build left right).calls = left.calls ++ right.calls := by
  obtain ⟨op, -, -, -, rfl⟩ := mem_operators_iff.mp h
  cases op <;> rfl

theorem calls_assign {target : Expr} {build : Expr → Expr} (h : Parser.assignTo? target = some build)
    (value : Expr) : (build value).calls = target.calls ++ value.calls := by
  cases target <;> cases h <;> rfl

/-! ### A call is found at its place -/

/-- The call is one of these, and at its place stands a parenthesis with the arguments behind it. -/
structure FoundIn (us : List Token) (calls : List (Expr × List Expr)) (c : PlacedCall) : Prop where
  listed : c.called ∈ calls
  spelled : ∃ room before t vs after, us = before ++ t :: (vs ++ after) ∧ before.length = c.place ∧
    t.kind = .punct .openParen ∧ (Nested.none.within room).items .closeParen vs c.args

section

variable {us ws : List Token} {calls calls' : List (Expr × List Expr)} {c : PlacedCall} {e : Expr}

theorem FoundIn.inside (h : FoundIn us calls c) (first last : List Token) (hws : ws = first ++ (us ++ last))
    (hlisted : ∀ f ∈ calls, f ∈ calls') : FoundIn ws calls' (c.behind first) := by
  obtain ⟨room, before, t, vs, after, hsplit, hplace, hopen, hargs⟩ := h.spelled
  refine ⟨hlisted _ h.listed, room, first ++ before, t, vs, after ++ last, ?_, ?_, hopen, hargs⟩
  · rw [hws, hsplit]
    simp
  · rw [List.length_append, hplace, Nat.add_comm]
    rfl

theorem FoundIn.exists_parenthesis (h : FoundIn us calls c) :
    ∃ t, us[c.place]? = some t ∧ t.kind = .punct .openParen := by
  obtain ⟨-, before, t, vs, after, rfl, hplace, hopen, -⟩ := h.spelled
  refine ⟨t, ?_, hopen⟩
  rw [← hplace]
  simp

/-- The calls of a level are found in its phrases. -/
structure NestedCalls.Found (inside : NestedCalls) : Prop where
  assignment : ∀ {us e c}, inside.assignment us e c → FoundIn us e.calls c
  operand : ∀ {stratum us e c}, inside.operand stratum us e c → FoundIn us e.calls c
  unary : ∀ {us e c}, inside.unary us e c → FoundIn us e.calls c
  items : ∀ {close us es c}, inside.items close us es c → FoundIn us (itemsCalls es) c
  fields : ∀ {us fields c}, inside.fields us fields c → FoundIn us (fieldsCalls fields) c

theorem SeparatedCall.found {α : Type} {close : Punct} {item : Phrase α} {itemCall : Calling α}
    {xs : List α} (h : SeparatedCall close item itemCall us xs c) {callsOf : α → List (Expr × List Expr)}
    (hitem : ∀ {us x c}, itemCall us x c → FoundIn us (callsOf x) c) : FoundIn us (xs.flatMap callsOf) c := by
  induction h with
  | @last us t x c hcall => exact (hitem hcall).inside [] [t] rfl (by simp)
  | @here us vs t x xs c hcall => exact (hitem hcall).inside [] (t :: vs) rfl (by simp +contextual)
  | @later us vs t x xs c _ _ _ ih => exact ih.inside (us ++ [t]) [] (by simp) (by simp +contextual)

variable {room : Nat} {inside : NestedCalls} (hfound : inside.Found)

include hfound

theorem PrimaryCall.found (h : PrimaryCall inside us e c) : FoundIn us e.calls c := by
  cases h with
  | @parens t t' us e c hopen hcall => exact (hfound.assignment hcall).inside [t] [t'] rfl fun f hf => hf
  | @array t us items c hopen hcall =>
      exact (hfound.items hcall).inside [t] [] (by simp) fun f hf => by rwa [Expr.calls]
  | @object t us fields c hopen hcall =>
      exact (hfound.fields hcall).inside [t] [] (by simp) fun f hf => by rwa [Expr.calls]

theorem ChainCall.found (h : ChainCall (Nested.none.within room) inside us e c) : FoundIn us e.calls c := by
  induction h with
  | primary hcall => exact hcall.found hfound
  | @member us t t' e key c _ _ _ ih => exact ih.inside [] [t, t'] rfl fun f hf => by rwa [Expr.calls]
  | @indexed us vs t t' e key c _ _ _ _ ih =>
      exact ih.inside [] (t :: (vs ++ [t'])) rfl (by simp +contextual [Expr.calls])
  | @index us vs t t' e key c _ _ hcall =>
      exact (hfound.assignment hcall).inside (us ++ [t]) [t'] (by simp) (by simp +contextual [Expr.calls])
  | @callee us vs t e args c _ _ _ ih => exact ih.inside [] (t :: vs) rfl (by simp +contextual [Expr.calls])
  | @argument us vs t e args c _ _ hcall =>
      exact (hfound.items hcall).inside (us ++ [t]) [] (by simp) (by simp +contextual [Expr.calls])
  | @call us vs t e args _ hopen hargs =>
      refine ⟨by simp [Expr.calls, PlacedCall.called], room, us, t, vs, [], ?_, rfl, hopen, hargs⟩
      rw [List.append_nil]

theorem UnaryCall.found (h : UnaryCall (Nested.none.within room) inside us e c) : FoundIn us e.calls c := by
  cases h with
  | chain hcall => exact hcall.found hfound
  | @operator t us op e c _ hcall =>
      exact (hfound.unary hcall).inside [t] [] (by simp) fun f hf => by rwa [Expr.calls]

theorem BinaryCall.found {stratum : Nat} (h : BinaryCall (Nested.none.within room) inside stratum us e c) :
    FoundIn us e.calls c := by
  induction h with
  | unary hcall => exact hcall.found hfound
  | @powerLeft us vs t left right c hcall =>
      exact (hcall.found hfound).inside [] (t :: vs) rfl (by simp +contextual [Expr.calls])
  | @powerRight us vs t left right c _ _ hcall =>
      exact (hfound.operand hcall).inside (us ++ [t]) [] (by simp) (by simp +contextual [Expr.calls])
  | tighter _ ih => exact ih
  | @left stratum us vs t p build left right c _ hop _ _ ih =>
      exact ih.inside [] (t :: vs) rfl (by simp +contextual [calls_build hop])
  | @right stratum us vs t p build left right c _ hop _ hcall =>
      exact (hfound.operand hcall).inside (us ++ [t]) [] (by simp) (by simp +contextual [calls_build hop])

theorem ConditionalCall.found (h : ConditionalCall (Nested.none.within room) inside us e c) :
    FoundIn us e.calls c := by
  cases h with
  | binary hcall => exact hcall.found hfound
  | @test us vs ws t t' test yes no c hcall =>
      exact (hcall.found hfound).inside [] (t :: (vs ++ t' :: ws)) rfl (by simp +contextual [Expr.calls])
  | @yes us vs ws t t' test yes no c _ _ hcall =>
      exact (hfound.assignment hcall).inside (us ++ [t]) (t' :: ws) (by simp) (by simp +contextual [Expr.calls])
  | @no us vs ws t t' test yes no c _ _ _ _ hcall =>
      exact (hfound.assignment hcall).inside (us ++ t :: (vs ++ [t'])) [] (by simp) (by simp +contextual [Expr.calls])

theorem AssignmentCall.found (h : AssignmentCall (Nested.none.within room) inside us e c) : FoundIn us e.calls c := by
  cases h with
  | conditional hcall => exact hcall.found hfound
  | @target us vs t target value build c hcall hbuild =>
      exact (hcall.found hfound).inside [] (t :: vs) rfl (by simp +contextual [calls_assign hbuild])
  | @value us vs t target value build c _ hbuild _ hcall =>
      exact (hfound.assignment hcall).inside (us ++ [t]) [] (by simp) (by simp +contextual [calls_assign hbuild])

theorem FieldCall.found {field : String × Expr} (h : FieldCall (Nested.none.within room) inside us field c) :
    FoundIn us field.2.calls c := by
  cases h with
  | @keyed t t' us key e c _ _ hcall => exact (hcall.found hfound).inside [t, t'] [] (by simp) fun f hf => hf

end

theorem NestedCalls.found_above {room : Nat} {inside : NestedCalls} (h : inside.Found) :
    (NestedCalls.above (Nested.none.within room) inside).Found where
  assignment := AssignmentCall.found h
  operand := BinaryCall.found h
  unary := UnaryCall.found h
  items := by
    intro close us es c hcall
    rw [itemsCalls_eq]
    exact SeparatedCall.found hcall (AssignmentCall.found h)
  fields := by
    intro us fields c hcall
    rw [fieldsCalls_eq]
    exact SeparatedCall.found hcall (FieldCall.found h)

theorem NestedCalls.found_within (room : Nat) : (NestedCalls.within room).Found := by
  induction room with
  | zero => exact ⟨nofun, nofun, nofun, nofun, nofun⟩
  | succ room ih => exact NestedCalls.found_above ih

theorem ExpressionCall.found {us : List Token} {e : Expr} {c : PlacedCall} (h : ExpressionCall us e c) :
    FoundIn us e.calls c :=
  AssignmentCall.found (NestedCalls.found_within _) h

theorem BodyCall.found {us : List Token} {s : Stmt} {c : PlacedCall} (h : BodyCall us s c) : FoundIn us s.calls c := by
  cases h with
  | expr hcall => exact hcall.found
  | @valued t t' t'' us kind s e c _ _ _ hcall => exact hcall.found.inside [t, t', t''] [] (by simp) fun f hf => hf

theorem ProgramCall.found {us : List Token} {p : Syntax.Program} {c : PlacedCall} (h : ProgramCall us p c) :
    FoundIn us p.calls c := by
  induction h with
  | @empty t us p c _ _ ih => exact ih.inside [t] [] (by simp) (by simp +contextual [Program.calls])
  | @closed us vs t s p c hcall =>
      exact hcall.found.inside [] (t :: vs) rfl (by simp +contextual [Program.calls])
  | @behindClosed us vs t s p c _ _ _ ih =>
      exact ih.inside (us ++ [t]) [] (by simp) (by simp +contextual [Program.calls])
  | @ended us vs s p c hcall => exact hcall.found.inside [] vs rfl (by simp +contextual [Program.calls])
  | @behindEnded us vs s p c _ _ _ _ ih => exact ih.inside us [] (by simp) (by simp +contextual [Program.calls])

/-! ### Every call has a place -/

/-- Each of the calls is one of the phrase, with a place of its own: they stand in this order among the first `n`
tokens. -/
def Covers {α : Type} (calling : Calling α) (us : List Token) (x : α) (n : Nat) (calls : List (Expr × List Expr)) :
    Prop :=
  ∃ cs : List PlacedCall, cs.map PlacedCall.called = calls ∧ cs.Pairwise (·.place < ·.place) ∧
    ∀ c ∈ cs, calling us x c ∧ c.place < n

section

variable {α β : Type} {calling : Calling α} {calling' : Calling β} {us us' : List Token} {x : α} {x' : β}
  {n m : Nat} {calls calls' : List (Expr × List Expr)}

theorem covers_nil : Covers calling us x n [] :=
  ⟨[], rfl, .nil, nofun⟩

theorem Covers.mono (h : Covers calling us x n calls) (hm : n ≤ m) : Covers calling us x m calls := by
  obtain ⟨cs, hcs, hordered, hcall⟩ := h
  exact ⟨cs, hcs, hordered, fun c hc => ⟨(hcall c hc).1, Nat.lt_of_lt_of_le (hcall c hc).2 hm⟩⟩

theorem Covers.concat (h : Covers calling us x n calls) {c : PlacedCall} (hc : calling us x c) (hn : n ≤ c.place) :
    Covers calling us x (c.place + 1) (calls ++ [c.called]) := by
  obtain ⟨cs, rfl, hordered, hcall⟩ := h
  refine ⟨cs ++ [c], by simp, List.pairwise_append.mpr ⟨hordered, List.pairwise_singleton _ _, ?_⟩, ?_⟩
  · intro a ha b hb
    rw [List.mem_singleton.mp hb]
    exact Nat.lt_of_lt_of_le (hcall a ha).2 hn
  · intro a ha
    rcases List.mem_append.mp ha with ha | ha
    · exact ⟨(hcall a ha).1, Nat.lt_succ_of_lt (Nat.lt_of_lt_of_le (hcall a ha).2 hn)⟩
    · rw [List.mem_singleton.mp ha]
      exact ⟨hc, Nat.lt_succ_self _⟩

/-- The calls of a part are calls of the whole, behind those of the tokens that come first. -/
theorem Covers.also (h : Covers calling' us' x' n calls) (h' : Covers calling us x us.length calls')
    (first : List Token) (hn : n ≤ first.length)
    (hlift : ∀ {c}, calling us x c → calling' us' x' (c.behind first)) :
    Covers calling' us' x' (us.length + first.length) (calls ++ calls') := by
  obtain ⟨cs, rfl, hordered, hcall⟩ := h
  obtain ⟨cs', rfl, hordered', hcall'⟩ := h'
  have hearlier : ∀ c ∈ cs, c.place < first.length := fun c hc => Nat.lt_of_lt_of_le (hcall c hc).2 hn
  have hlater : ∀ c ∈ cs'.map (·.behind first),
      calling' us' x' c ∧ first.length ≤ c.place ∧ c.place < us.length + first.length := by
    intro c hc
    obtain ⟨c', hc', rfl⟩ := List.mem_map.mp hc
    exact ⟨hlift (hcall' c' hc').1, Nat.le_add_left _ _, Nat.add_lt_add_right (hcall' c' hc').2 _⟩
  refine ⟨cs ++ cs'.map (·.behind first), ?_, List.pairwise_append.mpr ⟨hordered, ?_, ?_⟩, ?_⟩
  · rw [List.map_append, List.map_map]
    rfl
  · exact List.pairwise_map.mpr (hordered'.imp fun hlt => Nat.add_lt_add_right hlt _)
  · exact fun c hc c' hc' => Nat.lt_of_lt_of_le (hearlier c hc) (hlater c' hc').2.1
  · intro c hc
    rcases List.mem_append.mp hc with hc | hc
    · exact ⟨(hcall c hc).1, Nat.lt_of_lt_of_le (hearlier c hc) (Nat.le_add_left _ _)⟩
    · exact ⟨(hlater c hc).1, (hlater c hc).2.2⟩

theorem Covers.lift (h : Covers calling us x us.length calls) (first : List Token)
    (hlift : ∀ {c}, calling us x c → calling' us' x' (c.behind first)) :
    Covers calling' us' x' (us.length + first.length) calls :=
  covers_nil.also h first (Nat.zero_le _) hlift

end

/-- The calls of the trees of a level are calls of its phrases. -/
structure NestedCalls.Cover (deeper : Nested) (inside : NestedCalls) : Prop where
  assignment : ∀ {us e}, deeper.assignment us e → Covers inside.assignment us e us.length e.calls
  operand : ∀ {stratum us e}, deeper.operand stratum us e → Covers (inside.operand stratum) us e us.length e.calls
  unary : ∀ {us e}, deeper.unary us e → Covers inside.unary us e us.length e.calls
  items : ∀ {close us es}, deeper.items close us es → Covers (inside.items close) us es us.length (itemsCalls es)
  fields : ∀ {us fields}, deeper.fields us fields → Covers inside.fields us fields us.length (fieldsCalls fields)

section

variable {deeper : Nested} {inside : NestedCalls} {us : List Token} {e : Expr}

theorem Separated.covers {α : Type} {close : Punct} {item : Phrase α} {itemCall : Calling α}
    {callsOf : α → List (Expr × List Expr)}
    (hitem : ∀ {us x}, item us x → Covers itemCall us x us.length (callsOf x)) {xs : List α}
    (h : Separated close item us xs) :
    Covers (SeparatedCall close item itemCall) us xs us.length (xs.flatMap callsOf) := by
  induction h with
  | close => exact covers_nil
  | last hx hclose =>
      rw [List.flatMap_singleton]
      exact ((hitem hx).lift [] fun hcall => .last hcall hclose).mono (by simp)
  | @more us vs t x xs hx hcomma hmore ih =>
      rw [List.flatMap_cons]
      have hfirst := (hitem hx).lift [] fun hcall => SeparatedCall.here hcall hcomma hmore
      exact (hfirst.also ih (us ++ [t]) (by simp) fun hcall => .later hx hcomma hcall).mono (by grind)

variable (hcover : inside.Cover deeper)

include hcover

theorem Primary.covers (h : Primary deeper us e) : Covers (PrimaryCall inside) us e us.length e.calls := by
  cases h with
  | number | text | name | literal | template => exact covers_nil
  | @parens t _ _ _ hopen hinner hclose =>
      exact ((hcover.assignment hinner).lift [t] fun hcall => .parens hopen hcall hclose).mono (by simp)
  | @array t _ _ hopen hitems => exact (hcover.items hitems).lift [t] fun hcall => .array hopen hcall
  | @object t _ _ hopen hfields => exact (hcover.fields hfields).lift [t] fun hcall => .object hopen hcall

theorem Chain.covers (h : Chain deeper us e) : Covers (ChainCall deeper inside) us e us.length e.calls := by
  induction h with
  | primary h => exact (h.covers hcover).lift [] .primary
  | member _ hdot hkey ih => exact (ih.lift [] fun hcall => .member hcall hdot hkey).mono (by simp)
  | @index us vs t t' e key hobject hopen hkey hclose ih =>
      have hindexed := ih.lift [] fun hcall => ChainCall.indexed hcall hopen hkey hclose
      exact (hindexed.also (hcover.assignment hkey) (us ++ [t]) (by simp) fun hcall =>
        .index hobject hopen hcall hclose).mono (by grind)
  | @call us vs t e args hcallee hopen hargs ih =>
      -- The call itself comes behind those in what is called and before those in its arguments.
      have hcalled := (ih.lift [] fun hcall => ChainCall.callee hcall hopen hargs).concat
        (.call hcallee hopen hargs) (Nat.le_refl _)
      have harguments := hcalled.also (hcover.items hargs) (us ++ [t]) (by simp) fun hcall =>
        .argument hcallee hopen hcall
      rw [List.append_assoc] at harguments
      exact harguments.mono (by grind)

theorem Unary.covers (h : Unary deeper us e) : Covers (UnaryCall deeper inside) us e us.length e.calls := by
  cases h with
  | chain h => exact (h.covers hcover).lift [] .chain
  | @operator t us op e hop hoperand => exact (hcover.unary hoperand).lift [t] fun hcall => .operator hop hcall

theorem Binary.covers {stratum : Nat} (h : Binary deeper stratum us e) :
    Covers (BinaryCall deeper inside stratum) us e us.length e.calls := by
  induction h with
  | unary h => exact (h.covers hcover).lift [] .unary
  | @power us vs t left right hleft hop hright =>
      have hpower := (hleft.covers hcover).lift [] fun hcall => BinaryCall.powerLeft hcall hop hright
      exact (hpower.also (hcover.operand hright) (us ++ [t]) (by simp) fun hcall =>
        .powerRight hleft hop hcall).mono (by grind)
  | tighter _ ih => exact ih.lift [] .tighter
  | @operator stratum us vs t p build left right hleft hop hkind hright ih =>
      rw [calls_build hop]
      have hbuilt := ih.lift [] fun hcall => BinaryCall.left hcall hop hkind hright
      exact (hbuilt.also (hcover.operand hright) (us ++ [t]) (by simp) fun hcall =>
        .right hleft hop hkind hcall).mono (by grind)

theorem Conditional.covers (h : Conditional deeper us e) :
    Covers (ConditionalCall deeper inside) us e us.length e.calls := by
  cases h with
  | binary h => exact (h.covers hcover).lift [] .binary
  | @conditional us vs ws t t' test yes no htest hquestion hyes hcolon hno =>
      have htested := (htest.covers hcover).lift [] fun hcall =>
        ConditionalCall.test hcall hquestion hyes hcolon hno
      have hchosen := htested.also (hcover.assignment hyes) (us ++ [t]) (by simp) fun hcall =>
        .yes htest hquestion hcall hcolon hno
      have hbranches := hchosen.also (hcover.assignment hno) (us ++ t :: (vs ++ [t'])) (by grind) fun hcall =>
        .no htest hquestion hyes hcolon hcall
      rw [List.append_assoc] at hbranches
      exact hbranches.mono (by grind)

theorem Assignment.covers (h : Assignment deeper us e) :
    Covers (AssignmentCall deeper inside) us e us.length e.calls := by
  cases h with
  | conditional h => exact (h.covers hcover).lift [] .conditional
  | @assign us vs t target value build htarget hbuild hassign hvalue =>
      rw [calls_assign hbuild]
      have hassigned := (htarget.covers hcover).lift [] fun hcall =>
        AssignmentCall.target hcall hbuild hassign hvalue
      exact (hassigned.also (hcover.assignment hvalue) (us ++ [t]) (by simp) fun hcall =>
        .value htarget hbuild hassign hcall).mono (by grind)

theorem Field.covers {field : String × Expr} (h : Field deeper us field) :
    Covers (FieldCall deeper inside) us field us.length field.2.calls := by
  cases h with
  | name => exact covers_nil
  | @keyed t t' us key e hkey hcolon hvalue =>
      exact (hvalue.covers hcover).lift [t, t'] fun hcall => .keyed hkey hcolon hcall

end

theorem NestedCalls.cover_above {deeper : Nested} {inside : NestedCalls} (h : inside.Cover deeper) :
    (NestedCalls.above deeper inside).Cover deeper.above where
  assignment := Assignment.covers h
  operand := Binary.covers h
  unary := Unary.covers h
  items := by
    intro close us es hphrase
    rw [itemsCalls_eq]
    exact Separated.covers (Assignment.covers h) hphrase
  fields := by
    intro us fields hphrase
    rw [fieldsCalls_eq]
    exact Separated.covers (Field.covers h) hphrase

theorem NestedCalls.cover_within (room : Nat) : (NestedCalls.within room).Cover (Nested.none.within room) := by
  induction room with
  | zero => exact ⟨nofun, nofun, nofun, nofun, nofun⟩
  | succ room ih => exact NestedCalls.cover_above ih

theorem Expression.covers {us : List Token} {e : Expr} (h : Expression us e) :
    Covers ExpressionCall us e us.length e.calls :=
  Assignment.covers (NestedCalls.cover_within _) h

theorem Body.covers {us : List Token} {s : Stmt} (h : Body us s) : Covers BodyCall us s us.length s.calls := by
  cases h with
  | expr h => exact h.covers.lift [] .expr
  | bare => exact covers_nil
  | @valued t t' t'' us kind s e hkey hname hassign hvalue =>
      exact hvalue.covers.lift [t, t', t''] fun hcall => .valued hkey hname hassign hcall

theorem Program.covers {us : List Token} {p : Syntax.Program} (h : Program us p) :
    Covers ProgramCall us p us.length p.calls := by
  induction h with
  | nil => exact covers_nil
  | @empty t us p hclose _ ih => exact ih.lift [t] fun hcall => .empty hclose hcall
  | @closed us vs t s p hbody hclose hmore ih =>
      have hfirst := hbody.covers.lift [] fun hcall => ProgramCall.closed hcall hclose hmore
      exact (hfirst.also ih (us ++ [t]) (by simp) fun hcall => .behindClosed hbody hclose hcall).mono (by grind)
  | @ended us vs s p hbody hends hline hmore ih =>
      have hfirst := hbody.covers.lift [] fun hcall => ProgramCall.ended hcall hends hline hmore
      exact (hfirst.also ih us (Nat.le_refl _) fun hcall => .behindEnded hbody hends hline hcall).mono (by grind)

end Grammar

/-- The source is the program, and the parenthesis at the place, among the tokens without comments, is read as that of
the call. -/
structure ReadsCall (source : String) (p : Program) (c : PlacedCall) : Prop where
  parse : parseProgram source = .ok p
  call : Grammar.ProgramCall (significant (lex source).tokens) p c

/-- Each call of a program is read at a parenthesis of its own, and these stand in the order of the calls. -/
theorem calls_read {source : String} {p : Program} (hparse : parseProgram source = .ok p) :
    ∃ cs : List PlacedCall, cs.map PlacedCall.called = p.calls ∧ cs.Pairwise (·.place < ·.place) ∧
      ∀ c ∈ cs, ReadsCall source p c := by
  obtain ⟨ts, mark, hlex, hphrase⟩ := parseProgram_derives.mp hparse
  obtain ⟨cs, hcs, hordered, hcalls⟩ := hphrase.covers
  refine ⟨cs, hcs, hordered, fun c hc => ⟨hparse, ?_⟩⟩
  rw [hlex]
  exact (hcalls c hc).1

/-- No parenthesis is read as that of a call which the program does not have. -/
theorem ReadsCall.mem_calls {source : String} {p : Program} {c : PlacedCall} (h : ReadsCall source p c) :
    c.called ∈ p.calls :=
  h.call.found.listed

end ScriptRepl.Syntax
