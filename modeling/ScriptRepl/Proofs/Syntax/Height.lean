import ScriptRepl.Proofs.Syntax.Sequence

/-! How high trees are. A tree grows by a level of nesting, of which the parser allows so many, or by a link that the
parser makes in a loop: from an operator to the operand on its left, from a conditional to its test, from a member, an
index or a call to the value before it. -/
namespace ScriptRepl.Syntax

mutual

/-- How many links the longest path down the tree has. -/
def Expr.height : Expr → Nat
  | .number _ | .text _ | .literal _ | .name _ => 0
  | .template _ parts => partsHeight parts
  | .array items => itemsHeight items
  | .object fields => fieldsHeight fields
  | .member object _ => object.height + 1
  | .index object key => max (object.height + 1) (key.height + 1)
  | .call callee args => max (callee.height + 1) (itemsHeight args)
  | .unary _ operand => operand.height + 1
  | .binary _ left right => max (left.height + 1) (right.height + 1)
  | .logical _ left right => max (left.height + 1) (right.height + 1)
  | .conditional test yes no => max (test.height + 1) (max (yes.height + 1) (no.height + 1))
  | .assignName _ value => value.height + 1
  | .assignMember object _ value => max (object.height + 1) (value.height + 1)
  | .assignIndex object key value => max (max (object.height + 1) (key.height + 1)) (value.height + 1)

/-- How many links lead down to the lowest end of items, counted from the expression that holds them. -/
def itemsHeight : List Expr → Nat
  | [] => 0
  | e :: es => max (e.height + 1) (itemsHeight es)

def fieldsHeight : List (String × Expr) → Nat
  | [] => 0
  | (_, e) :: fields => max (e.height + 1) (fieldsHeight fields)

def partsHeight : List (Expr × String) → Nat
  | [] => 0
  | (e, _) :: parts => max (e.height + 1) (partsHeight parts)

end

mutual

/-- How many of the links on a path down the tree are made in a loop, at most. -/
def Expr.chained : Expr → Nat
  | .number _ | .text _ | .literal _ | .name _ => 0
  | .template _ parts => partsChained parts
  | .array items => itemsChained items
  | .object fields => fieldsChained fields
  | .member object _ => object.chained + 1
  | .index object key => max (object.chained + 1) key.chained
  | .call callee args => max (callee.chained + 1) (itemsChained args)
  | .unary _ operand => operand.chained
  | .binary _ left right => max (left.chained + 1) right.chained
  | .logical _ left right => max (left.chained + 1) right.chained
  | .conditional test yes no => max (test.chained + 1) (max yes.chained no.chained)
  | .assignName _ value => value.chained
  | .assignMember object _ value => max (object.chained + 1) value.chained
  | .assignIndex object key value => max (max (object.chained + 1) key.chained) value.chained

def itemsChained : List Expr → Nat
  | [] => 0
  | e :: es => max e.chained (itemsChained es)

def fieldsChained : List (String × Expr) → Nat
  | [] => 0
  | (_, e) :: fields => max e.chained (fieldsChained fields)

def partsChained : List (Expr × String) → Nat
  | [] => 0
  | (e, _) :: parts => max e.chained (partsChained parts)

end

namespace Stmt

def height : Stmt → Nat
  | .expr e => e.height
  | .decl _ _ (some e) => e.height
  | .decl _ _ none | .empty => 0

def chained : Stmt → Nat
  | .expr e => e.chained
  | .decl _ _ (some e) => e.chained
  | .decl _ _ none | .empty => 0

end Stmt

namespace Grammar

/-- Counted from one level above, no path of a phrase has more links than there is room, not counting those that are
made in a loop. -/
structure Nested.Low (d : Nested) (room : Nat) : Prop where
  assignment : ∀ {us e}, d.assignment us e → e.height + 1 ≤ room + e.chained
  operand : ∀ {stratum us e}, d.operand stratum us e → e.height + 1 ≤ room + e.chained
  unary : ∀ {us e}, d.unary us e → e.height + 1 ≤ room + e.chained
  items : ∀ {close us es}, d.items close us es → itemsHeight es ≤ room + itemsChained es
  fields : ∀ {us fields}, d.fields us fields → fieldsHeight fields ≤ room + fieldsChained fields
  parts : ∀ {holes parts}, d.parts holes parts → partsHeight parts ≤ room + partsChained parts

section

variable {d : Nested} {room : Nat} {us : List Token} {e : Expr}

theorem Primary.low (hd : d.Low room) (h : Primary d us e) : e.height ≤ room + e.chained := by
  cases h with
  | number h => exact Nat.zero_le _
  | text h => exact Nat.zero_le _
  | name h => exact Nat.zero_le _
  | literal h => exact Nat.zero_le _
  | template h hparts => exact hd.parts hparts
  | parens hopen hinner hclose => exact Nat.le_of_succ_le (hd.assignment hinner)
  | array hopen hitems => exact hd.items hitems
  | object hopen hfields => exact hd.fields hfields

theorem Chain.low (hd : d.Low room) (h : Chain d us e) : e.height ≤ room + e.chained := by
  induction h with
  | primary h => exact h.low hd
  | member _ _ _ ih =>
      rw [Expr.height, Expr.chained]
      omega
  | index _ _ hkey _ ih =>
      have hkey := hd.assignment hkey
      rw [Expr.height, Expr.chained]
      omega
  | call _ _ hargs ih =>
      have hargs := hd.items hargs
      rw [Expr.height, Expr.chained]
      omega

theorem Unary.low (hd : d.Low room) (h : Unary d us e) : e.height ≤ room + e.chained := by
  cases h with
  | chain h => exact h.low hd
  | operator hop hoperand => exact hd.unary hoperand

/-- What an operator builds is one higher than its operands, and the link to the left one is made in a loop. -/
theorem low_build (op : Parser.Operator) {left right : Expr} (hleft : left.height ≤ room + left.chained)
    (hright : right.height + 1 ≤ room + right.chained) :
    (op.build left right).height ≤ room + (op.build left right).chained := by
  cases op <;> rw [Parser.Operator.build, Expr.height, Expr.chained] <;> omega

theorem Binary.low {stratum : Nat} (hd : d.Low room) (h : Binary d stratum us e) : e.height ≤ room + e.chained := by
  induction h with
  | unary h => exact h.low hd
  | power hleft _ hright => exact low_build (.binary .pow) (hleft.low hd) (hd.operand hright)
  | tighter _ ih => exact ih
  | operator _ hop _ hright ih =>
      obtain ⟨op, _, _, _, rfl⟩ := mem_operators_iff.mp hop
      exact low_build op ih (hd.operand hright)

theorem Conditional.low (hd : d.Low room) (h : Conditional d us e) : e.height ≤ room + e.chained := by
  cases h with
  | binary h => exact h.low hd
  | conditional htest _ hyes _ hno =>
      have htest := htest.low hd
      have hyes := hd.assignment hyes
      have hno := hd.assignment hno
      rw [Expr.height, Expr.chained]
      omega

theorem Assignment.low (hd : d.Low room) (h : Assignment d us e) : e.height ≤ room + e.chained := by
  cases h with
  | conditional h => exact h.low hd
  | @assign _ _ _ target value _ htarget hbuild _ hvalue =>
      have htarget := htarget.low hd
      have hvalue := hd.assignment hvalue
      cases target <;> cases hbuild
      all_goals
        simp only [Expr.height, Expr.chained] at htarget ⊢
        omega

theorem Field.low {field : String × Expr} (hd : d.Low room) (h : Field d us field) :
    field.2.height ≤ room + field.2.chained := by
  cases h with
  | name h => exact Nat.zero_le _
  | keyed _ _ hvalue => exact hvalue.low hd

theorem low_items {close : Punct} {es : List Expr} (hd : d.Low room) (h : Separated close (Assignment d) us es) :
    itemsHeight es ≤ room + 1 + itemsChained es := by
  induction h with
  | close _ => exact Nat.zero_le _
  | last hitem _ =>
      have hitem := hitem.low hd
      simp only [itemsHeight, itemsChained]
      omega
  | more hitem _ _ ih =>
      have hitem := hitem.low hd
      rw [itemsHeight, itemsChained]
      omega

theorem low_fields {fields : List (String × Expr)} (hd : d.Low room)
    (h : Separated .closeBrace (Field d) us fields) : fieldsHeight fields ≤ room + 1 + fieldsChained fields := by
  induction h with
  | close _ => exact Nat.zero_le _
  | last hfield _ =>
      have hfield := hfield.low hd
      simp only [fieldsHeight, fieldsChained]
      omega
  | more hfield _ _ ih =>
      have hfield := hfield.low hd
      rw [fieldsHeight, fieldsChained]
      omega

theorem Parts.low {holes : List (Hole × String)} {parts : List (Expr × String)} (hd : d.Low room)
    (h : Parts d holes parts) : partsHeight parts ≤ room + 1 + partsChained parts := by
  induction h with
  | nil => exact Nat.zero_le _
  | cons hexpr _ ih =>
      obtain ⟨_, _, _, hexpr⟩ := hexpr
      have hexpr := hexpr.low hd
      rw [partsHeight, partsChained]
      omega

end

theorem Nested.Low.above {d : Nested} {room : Nat} (hd : d.Low room) : d.above.Low (room + 1) where
  assignment h := by have := Assignment.low hd h; omega
  operand h := by have := Binary.low hd h; omega
  unary h := by have := Unary.low hd h; omega
  items := low_items hd
  fields := low_fields hd
  parts := Parts.low hd

theorem Nested.low_within (room : Nat) : (Nested.none.within room).Low room := by
  induction room with
  | zero => exact ⟨nofun, nofun, nofun, nofun, nofun, nofun⟩
  | succ room ih => exact ih.above

theorem Body.low {us : List Token} {s : Stmt} (h : Body us s) : s.height ≤ Parser.maxNesting + s.chained := by
  cases h with
  | expr h => exact Assignment.low (Nested.low_within _) h
  | bare => exact Nat.zero_le _
  | valued _ _ _ hvalue => exact Assignment.low (Nested.low_within _) hvalue

theorem Program.low {us : List Token} {p : Syntax.Program} (h : Program us p) :
    ∀ s ∈ p, s.height ≤ Parser.maxNesting + s.chained := by
  induction h with
  | nil => nofun
  | empty _ _ ih => exact List.forall_mem_cons.mpr ⟨Nat.zero_le _, ih⟩
  | closed hbody _ _ ih => exact List.forall_mem_cons.mpr ⟨hbody.low, ih⟩
  | ended hbody _ _ _ ih => exact List.forall_mem_cons.mpr ⟨hbody.low, ih⟩

end Grammar

/-- A statement of an accepted program is no higher than the parser's limit of nesting, but for the links that the
parser makes in a loop. -/
theorem height_le_of_parseProgram {source : String} {p : Program} (h : parseProgram source = .ok p) :
    ∀ s ∈ p, s.height ≤ Parser.maxNesting + s.chained := by
  obtain ⟨_, _, _, hphrase⟩ := parseProgram_derives.mp h
  exact hphrase.low

end ScriptRepl.Syntax
