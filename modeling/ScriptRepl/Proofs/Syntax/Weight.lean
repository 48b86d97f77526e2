import ScriptRepl.Proofs.Syntax.Grammar

/-! What a tree says about how many tokens spell it: how many of its words and of the brackets of its lists, indices and
objects there are, less the colons. Parentheses and commas may be more or fewer for the same tree, and so may colons,
as a field can be written with a name alone; but then the word behind the colon is missing as well. -/
namespace ScriptRepl.Syntax

def Punct.weight (p : Punct) : Int :=
  if p = .openBracket ∨ p = .closeBrace then 1 else if p = .colon then -1 else 0

def TokenKind.weight : TokenKind → Int
  | .number _ | .text _ | .template _ | .name _ | .keyword _ => 1
  | .punct p => p.weight
  | .comment => 0

def weight : List Token → Int
  | [] => 0
  | t :: us => t.kind.weight + weight us

mutual

def Expr.weight : Expr → Int
  | .number _ | .text _ | .template _ _ | .literal _ | .name _ => 1
  | .array items => itemsWeight items + 1
  | .object fields => fieldsWeight fields + 1
  | .member value _ => value.weight + 1
  | .index value key => value.weight + key.weight + 1
  | .call callee args => callee.weight + itemsWeight args
  | .unary op operand => operand.weight + if op = .typeof then 1 else 0
  | .binary _ left right => left.weight + right.weight
  | .logical _ left right => left.weight + right.weight
  | .conditional test yes no => test.weight + yes.weight + no.weight - 1
  | .assignName _ value => value.weight + 1
  | .assignMember target _ value => target.weight + value.weight + 1
  | .assignIndex target key value => target.weight + key.weight + value.weight + 1

def itemsWeight : List Expr → Int
  | [] => 0
  | e :: es => e.weight + itemsWeight es

def fieldsWeight : List (String × Expr) → Int
  | [] => 0
  | (_, e) :: fields => e.weight + fieldsWeight fields

end

mutual

theorem Expr.weight_pos : ∀ e : Expr, 0 < e.weight
  | .number _ | .text _ | .template _ _ | .literal _ | .name _ => by simp [Expr.weight]
  | .array items => by have := itemsWeight_nonneg items; rw [Expr.weight]; omega
  | .object fields => by have := fieldsWeight_nonneg fields; rw [Expr.weight]; omega
  | .member value _ => by have := value.weight_pos; rw [Expr.weight]; omega
  | .index value key => by have := value.weight_pos; have := key.weight_pos; rw [Expr.weight]; omega
  | .call callee args => by have := callee.weight_pos; have := itemsWeight_nonneg args; rw [Expr.weight]; omega
  | .unary op operand => by have := operand.weight_pos; rw [Expr.weight]; split <;> omega
  | .binary _ left right => by have := left.weight_pos; have := right.weight_pos; rw [Expr.weight]; omega
  | .logical _ left right => by have := left.weight_pos; have := right.weight_pos; rw [Expr.weight]; omega
  | .conditional test yes no => by
      have := test.weight_pos
      have := yes.weight_pos
      have := no.weight_pos
      rw [Expr.weight]
      omega
  | .assignName _ value => by have := value.weight_pos; rw [Expr.weight]; omega
  | .assignMember target _ value => by have := target.weight_pos; have := value.weight_pos; rw [Expr.weight]; omega
  | .assignIndex target key value => by
      have := target.weight_pos
      have := key.weight_pos
      have := value.weight_pos
      rw [Expr.weight]
      omega

theorem itemsWeight_nonneg : ∀ es : List Expr, 0 ≤ itemsWeight es
  | [] => Int.le_refl 0
  | e :: es => by
      have := e.weight_pos
      have := itemsWeight_nonneg es
      rw [itemsWeight]
      omega

theorem fieldsWeight_nonneg : ∀ fields : List (String × Expr), 0 ≤ fieldsWeight fields
  | [] => Int.le_refl 0
  | (_, e) :: fields => by
      have := e.weight_pos
      have := fieldsWeight_nonneg fields
      rw [fieldsWeight]
      omega

end

section

variable {us vs : List Token} {t : Token}

@[simp]
theorem weight_nil : weight [] = 0 :=
  rfl

@[simp]
theorem weight_cons (t : Token) (us : List Token) : weight (t :: us) = t.kind.weight + weight us :=
  rfl

@[simp]
theorem weight_append (us vs : List Token) : weight (us ++ vs) = weight us + weight vs := by
  induction us with
  | nil => exact (Int.zero_add _).symm
  | cons t us ih => rw [List.cons_append, weight_cons, weight_cons, ih, Int.add_assoc]

theorem weight_punct (p : Punct) : (TokenKind.punct p).weight = p.weight :=
  rfl

theorem weight_of_punct {kind : TokenKind} {p : Punct} {n : Int} (h : kind = .punct p) (hp : p.weight = n) :
    kind.weight = n := by
  rw [h, weight_punct, hp]

theorem weight_memberName {kind : TokenKind} {key : String} (h : Parser.memberName? kind = some key) :
    kind.weight = 1 := by
  cases kind <;> first | rfl | cases h

end

namespace Grammar

theorem weight_fieldKey {kind : TokenKind} {key : String} (h : fieldKey? kind = some key) : kind.weight = 1 := by
  cases kind <;> first | rfl | cases h

theorem weight_unaryOf {kind : TokenKind} {op : UnaryOp} (h : Parser.unaryOf? kind = some op) :
    kind.weight = if op = .typeof then 1 else 0 := by
  unfold Parser.unaryOf? at h
  split at h <;> cases h <;> rfl

theorem weight_operator {p : Punct} {op : Parser.Operator} (h : Parser.Operator.ofPunct? p = some op) :
    p.weight = 0 := by
  cases p <;> first | rfl | cases h

theorem weight_build (op : Parser.Operator) (left right : Expr) :
    (op.build left right).weight = left.weight + right.weight := by
  cases op <;> rfl

/-- The phrases of a level weigh what their trees say. -/
structure Nested.Weighed (d : Nested) : Prop where
  assignment : ∀ {us e}, d.assignment us e → weight us = e.weight
  operand : ∀ {stratum us e}, d.operand stratum us e → weight us = e.weight
  unary : ∀ {us e}, d.unary us e → weight us = e.weight
  items : ∀ {close us es}, d.items close us es → weight us = itemsWeight es + close.weight
  fields : ∀ {us fields}, d.fields us fields → weight us = fieldsWeight fields + 1

section

variable {d : Nested} {us : List Token} {e : Expr}

theorem Primary.weighed (hd : d.Weighed) (h : Primary d us e) : weight us = e.weight := by
  cases h with
  | number h | text h | name h | literal h | template h => simp [h, TokenKind.weight, Expr.weight]
  | parens hopen hinner hclose => simp [hopen, hclose, hd.assignment hinner, TokenKind.weight, Punct.weight]
  | array hopen hitems => simp [hopen, hd.items hitems, TokenKind.weight, Punct.weight, Expr.weight, Int.add_comm]
  | object hopen hfields => simp [hopen, hd.fields hfields, TokenKind.weight, Punct.weight, Expr.weight]

theorem Chain.weighed (hd : d.Weighed) (h : Chain d us e) : weight us = e.weight := by
  induction h with
  | primary h => exact h.weighed hd
  | member _ hdot hkey ih => simp [hdot, weight_memberName hkey, ih, weight_punct, Punct.weight, Expr.weight]
  | index _ hopen hkey hclose ih =>
      rw [weight_append, weight_cons, weight_append, weight_cons, weight_nil, weight_of_punct (n := 1) hopen rfl,
        weight_of_punct (n := 0) hclose rfl, hd.assignment hkey, ih, Expr.weight]
      omega
  | call _ hopen hargs ih => simp [hopen, hd.items hargs, ih, weight_punct, Punct.weight, Expr.weight]

theorem Unary.weighed (hd : d.Weighed) (h : Unary d us e) : weight us = e.weight := by
  cases h with
  | chain h => exact h.weighed hd
  | operator hop hoperand => rw [weight_cons, weight_unaryOf hop, hd.unary hoperand, Expr.weight, Int.add_comm]

theorem Binary.weighed {stratum : Nat} (hd : d.Weighed) (h : Binary d stratum us e) : weight us = e.weight := by
  induction h with
  | unary h => exact h.weighed hd
  | power hleft hop hright =>
      simp [hop, hleft.weighed hd, hd.operand hright, weight_punct, Punct.weight, Expr.weight]
  | tighter _ ih => exact ih
  | operator _ hop hkind hright ih =>
      obtain ⟨op, hpunct, _, _, rfl⟩ := mem_operators_iff.mp hop
      simp [hkind, ih, hd.operand hright, weight_punct, weight_operator hpunct, weight_build]

theorem Conditional.weighed (hd : d.Weighed) (h : Conditional d us e) : weight us = e.weight := by
  cases h with
  | binary h => exact h.weighed hd
  | conditional htest hquestion hyes hcolon hno =>
      rw [weight_append, weight_cons, weight_append, weight_cons, weight_of_punct (n := 0) hquestion rfl,
        weight_of_punct (n := -1) hcolon rfl, htest.weighed hd, hd.assignment hyes, hd.assignment hno, Expr.weight]
      omega

theorem Assignment.weighed (hd : d.Weighed) (h : Assignment d us e) : weight us = e.weight := by
  cases h with
  | conditional h => exact h.weighed hd
  | @assign _ _ _ target _ _ htarget hbuild hassign hvalue =>
      have htarget := htarget.weighed hd
      have hvalue := hd.assignment hvalue
      rw [weight_append, weight_cons, weight_of_punct (n := 0) hassign rfl, htarget, hvalue]
      cases target <;> cases hbuild
      all_goals
        simp only [Expr.weight]
        omega

theorem Field.weighed {field : String × Expr} (hd : d.Weighed) (h : Field d us field) : weight us = field.2.weight := by
  cases h with
  | name h => simp [h, TokenKind.weight, Expr.weight]
  | keyed hkey hcolon hvalue =>
      rw [weight_cons, weight_cons, weight_fieldKey hkey, weight_of_punct (n := -1) hcolon rfl, hvalue.weighed hd]
      dsimp only
      omega

theorem weight_items {close : Punct} {es : List Expr} (hd : d.Weighed) (h : Separated close (Assignment d) us es) :
    weight us = itemsWeight es + close.weight := by
  induction h with
  | close hclose => simp [hclose, weight_punct, itemsWeight]
  | last hitem hclose => simp [hclose, hitem.weighed hd, weight_punct, itemsWeight]
  | more hitem hcomma _ ih =>
      simp [hcomma, hitem.weighed hd, ih, weight_punct, Punct.weight, itemsWeight, Int.add_assoc]

theorem weight_fields {fields : List (String × Expr)} (hd : d.Weighed) (h : Separated .closeBrace (Field d) us fields) :
    weight us = fieldsWeight fields + 1 := by
  induction h with
  | close hclose => simp [hclose, weight_punct, Punct.weight, fieldsWeight]
  | last hfield hclose => simp [hclose, hfield.weighed hd, weight_punct, Punct.weight, fieldsWeight]
  | more hfield hcomma _ ih =>
      simp [hcomma, hfield.weighed hd, ih, weight_punct, Punct.weight, fieldsWeight, Int.add_assoc]

end

theorem Nested.weighed_above {d : Nested} (h : d.Weighed) : d.above.Weighed where
  assignment := Assignment.weighed h
  operand := Binary.weighed h
  unary := Unary.weighed h
  items := weight_items h
  fields := weight_fields h

theorem Nested.weighed_within (room : Nat) : (Nested.none.within room).Weighed := by
  induction room with
  | zero => exact ⟨nofun, nofun, nofun, nofun, nofun⟩
  | succ room ih => exact Nested.weighed_above ih

end Grammar

end ScriptRepl.Syntax
