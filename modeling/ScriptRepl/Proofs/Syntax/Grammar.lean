import ScriptRepl.Proofs.Syntax.Continuation

/-! The grammar of expressions, in strata: which tokens spell which trees. It says nothing about how they are read.
A phrase is built from those of its own level of nesting and from those of the level below it. -/
namespace ScriptRepl.Syntax

abbrev Phrase (α : Type) := List Token → α → Prop

/-- The tokens of a source without its comments. -/
def Phrase.OfSource {α : Type} (phrase : Phrase α) (source : String) (x : α) : Prop :=
  ∃ ts mark, lex source = ⟨ts, .ok mark⟩ ∧ phrase (significant ts) x

theorem Phrase.OfSource.mono {α : Type} {phrase phrase' : Phrase α} {source : String} {x : α}
    (h : phrase.OfSource source x) (hphrase : ∀ {ts}, phrase ts x → phrase' ts x) : phrase'.OfSource source x := by
  obtain ⟨ts, mark, hlex, hx⟩ := h
  exact ⟨ts, mark, hlex, hphrase hx⟩

namespace Grammar

/-- The phrases that are one level deeper. -/
structure Nested where
  assignment : Phrase Expr
  operand : (stratum : Nat) → Phrase Expr
  unary : Phrase Expr
  items : (close : Punct) → Phrase (List Expr)
  fields : Phrase (List (String × Expr))
  parts : List (Hole × String) → List (Expr × String) → Prop

/-- Items between commas up to the closing bracket. A comma may stand behind the last one. -/
inductive Separated {α : Type} (close : Punct) (item : Phrase α) : Phrase (List α)
  | close {t : Token} (hclose : t.kind = .punct close) : Separated close item [t] []
  | last {us : List Token} {t : Token} {x : α} (hitem : item us x) (hclose : t.kind = .punct close) :
    Separated close item (us ++ [t]) [x]
  | more {us vs : List Token} {t : Token} {x : α} {xs : List α} (hitem : item us x) (hcomma : t.kind = .punct .comma)
      (hmore : Separated close item vs xs) : Separated close item (us ++ t :: vs) (x :: xs)

def fieldKey? : TokenKind → Option String
  | .name s => some s
  | .keyword k => some k.text
  | .text s => some s
  | .number x => some (Number.spell x)
  | _ => none

/-- The binary operators that group to the left, by stratum: the greater its number, the tighter they bind. -/
def operators : (stratum : Nat) → List (Punct × (Expr → Expr → Expr))
  | 1 => [(.nullish, .logical .nullish)]
  | 2 => [(.or, .logical .or)]
  | 3 => [(.and, .logical .and)]
  | 4 => [(.eq, .binary .eq), (.ne, .binary .ne), (.strictEq, .binary .strictEq), (.strictNe, .binary .strictNe)]
  | 5 => [(.lt, .binary .lt), (.gt, .binary .gt), (.le, .binary .le), (.ge, .binary .ge)]
  | 6 => [(.plus, .binary .add), (.minus, .binary .sub)]
  | 7 => [(.times, .binary .mul), (.divide, .binary .div), (.percent, .binary .rem)]
  | _ => []

section

variable (deeper : Nested)

inductive Primary : Phrase Expr
  | number {t : Token} {x : Float} (h : t.kind = .number x) : Primary [t] (.number x)
  | text {t : Token} {s : String} (h : t.kind = .text s) : Primary [t] (.text s)
  | name {t : Token} {s : String} (h : t.kind = .name s) : Primary [t] (.name s)
  | literal {t : Token} {l : Literal} (h : t.kind = .keyword (.literal l)) : Primary [t] (.literal l)
  | template {t : Token} {tpl : Template} {parts : List (Expr × String)} (h : t.kind = .template tpl)
      (hparts : deeper.parts tpl.parts parts) : Primary [t] (.template tpl.head parts)
  | parens {t t' : Token} {us : List Token} {e : Expr} (hopen : t.kind = .punct .openParen)
      (hinner : deeper.assignment us e) (hclose : t'.kind = .punct .closeParen) : Primary (t :: (us ++ [t'])) e
  | array {t : Token} {us : List Token} {items : List Expr} (hopen : t.kind = .punct .openBracket)
      (hitems : deeper.items .closeBracket us items) : Primary (t :: us) (.array items)
  | object {t : Token} {us : List Token} {fields : List (String × Expr)} (hopen : t.kind = .punct .openBrace)
      (hfields : deeper.fields us fields) : Primary (t :: us) (.object fields)

inductive Chain : Phrase Expr
  | primary {us : List Token} {e : Expr} (h : Primary deeper us e) : Chain us e
  | member {us : List Token} {t t' : Token} {e : Expr} {key : String} (hobject : Chain us e)
      (hdot : t.kind = .punct .dot) (hkey : Parser.memberName? t'.kind = some key) :
    Chain (us ++ [t, t']) (.member e key)
  | index {us vs : List Token} {t t' : Token} {e key : Expr} (hobject : Chain us e)
      (hopen : t.kind = .punct .openBracket) (hkey : deeper.assignment vs key)
      (hclose : t'.kind = .punct .closeBracket) : Chain (us ++ t :: (vs ++ [t'])) (.index e key)
  | call {us vs : List Token} {t : Token} {e : Expr} {args : List Expr} (hcallee : Chain us e)
      (hopen : t.kind = .punct .openParen) (hargs : deeper.items .closeParen vs args) :
    Chain (us ++ t :: vs) (.call e args)

inductive Unary : Phrase Expr
  | chain {us : List Token} {e : Expr} (h : Chain deeper us e) : Unary us e
  | operator {t : Token} {us : List Token} {op : UnaryOp} {e : Expr} (hop : Parser.unaryOf? t.kind = some op)
      (hoperand : deeper.unary us e) : Unary (t :: us) (.unary op e)

/-- The strata of the binary operators. In the tightest one `**` groups to the right. -/
inductive Binary : (stratum : Nat) → Phrase Expr
  | unary {us : List Token} {e : Expr} (h : Unary deeper us e) : Binary 8 us e
  | power {us vs : List Token} {t : Token} {left right : Expr} (hleft : Unary deeper us left)
      (hop : t.kind = .punct .power) (hright : deeper.operand 8 vs right) :
    Binary 8 (us ++ t :: vs) (.binary .pow left right)
  | tighter {stratum : Nat} {us : List Token} {e : Expr} (h : Binary (stratum + 1) us e) : Binary stratum us e
  | operator {stratum : Nat} {us vs : List Token} {t : Token} {p : Punct} {build : Expr → Expr → Expr}
      {left right : Expr} (hleft : Binary stratum us left) (hop : (p, build) ∈ operators stratum)
      (hkind : t.kind = .punct p) (hright : deeper.operand (stratum + 1) vs right) :
    Binary stratum (us ++ t :: vs) (build left right)

inductive Conditional : Phrase Expr
  | binary {us : List Token} {e : Expr} (h : Binary deeper 1 us e) : Conditional us e
  | conditional {us vs ws : List Token} {t t' : Token} {test yes no : Expr} (htest : Binary deeper 1 us test)
      (hquestion : t.kind = .punct .question) (hyes : deeper.assignment vs yes) (hcolon : t'.kind = .punct .colon)
      (hno : deeper.assignment ws no) : Conditional (us ++ t :: (vs ++ t' :: ws)) (.conditional test yes no)

/-- The target of an assignment is a name, a member or an index. -/
inductive Assignment : Phrase Expr
  | conditional {us : List Token} {e : Expr} (h : Conditional deeper us e) : Assignment us e
  | assign {us vs : List Token} {t : Token} {target value : Expr} {build : Expr → Expr}
      (htarget : Chain deeper us target) (hbuild : Parser.assignTo? target = some build)
      (hassign : t.kind = .punct .assign) (hvalue : deeper.assignment vs value) :
    Assignment (us ++ t :: vs) (build value)

inductive Field : Phrase (String × Expr)
  | name {t : Token} {s : String} (h : t.kind = .name s) : Field [t] (s, .name s)
  | keyed {t t' : Token} {us : List Token} {key : String} {e : Expr} (hkey : fieldKey? t.kind = some key)
      (hcolon : t'.kind = .punct .colon) (hvalue : Assignment deeper us e) : Field (t :: t' :: us) (key, e)

/-- The holes of a template, each with the text behind it. -/
inductive Parts : List (Hole × String) → List (Expr × String) → Prop
  | nil : Parts [] []
  | cons {hole : Hole} {s : String} {parts : List (Hole × String)} {e : Expr} {exprs : List (Expr × String)}
      (hexpr : Phrase.OfSource (Assignment deeper) hole.source e) (hmore : Parts parts exprs) :
    Parts ((hole, s) :: parts) ((e, s) :: exprs)

end

namespace Nested

/-- Where no room is left for nesting. -/
def none : Nested where
  assignment _ _ := False
  operand _ _ _ := False
  unary _ _ := False
  items _ _ _ := False
  fields _ _ := False
  parts _ _ := False

def above (deeper : Nested) : Nested where
  assignment := Assignment deeper
  operand := Binary deeper
  unary := Unary deeper
  items close := Separated close (Assignment deeper)
  fields := Separated .closeBrace (Field deeper)
  parts := Parts deeper

/-- With so much room above the deepest level. -/
def within (deepest : Nested) : (room : Nat) → Nested
  | 0 => deepest
  | room + 1 => (within deepest room).above

end Nested

/-- Brackets, templates, operands, assigned values, branches and holes nest no deeper than the parser allows. -/
def Expression : Phrase Expr :=
  Assignment (Nested.none.within Parser.maxNesting)

/-! ### From one stratum to another -/

section

variable {deeper : Nested} {us : List Token} {e : Expr}

theorem Binary.of_le {stratum stratum' : Nat} (h : Binary deeper stratum us e) (hle : stratum' ≤ stratum) :
    Binary deeper stratum' us e := by
  induction hle using Nat.decreasingInduction with
  | of_succ _ _ ih => exact .tighter ih
  | self => exact h

theorem Chain.binary (h : Chain deeper us e) {stratum : Nat} (hle : stratum ≤ 8) : Binary deeper stratum us e :=
  (Binary.unary (.chain h)).of_le hle

theorem Primary.assignment (h : Primary deeper us e) : Assignment deeper us e :=
  .conditional (.binary ((Chain.primary h).binary (by decide)))

theorem mem_operators_iff {stratum : Nat} {p : Punct} {build : Expr → Expr → Expr} :
    (p, build) ∈ operators stratum ↔
      ∃ op, Parser.Operator.ofPunct? p = some op ∧ op.power = stratum ∧ stratum ≠ 8 ∧ op.build = build := by
  constructor
  · intro h
    match stratum, h with
    | 1, h | 2, h | 3, h | 4, h | 5, h | 6, h | 7, h =>
      simp only [operators, List.mem_cons, List.not_mem_nil, or_false, Prod.mk.injEq] at h
      grind [Parser.Operator.ofPunct?, Parser.Operator.power, Parser.Operator.build]
  · rintro ⟨op, hop, rfl, hne, rfl⟩
    cases p <;> cases hop
    all_goals first
      | exact absurd rfl hne
      | simp [Parser.Operator.power, Parser.Operator.build, operators]

end

/-! ### More room -/

/-- Every phrase of the one is a phrase of the other. -/
structure Nested.Le (d d' : Nested) : Prop where
  assignment : ∀ {us e}, d.assignment us e → d'.assignment us e
  operand : ∀ {stratum us e}, d.operand stratum us e → d'.operand stratum us e
  unary : ∀ {us e}, d.unary us e → d'.unary us e
  items : ∀ {close us es}, d.items close us es → d'.items close us es
  fields : ∀ {us fields}, d.fields us fields → d'.fields us fields
  parts : ∀ {holes parts}, d.parts holes parts → d'.parts holes parts

theorem Separated.mono {α : Type} {close : Punct} {item item' : Phrase α} (hitem : ∀ {us x}, item us x → item' us x)
    {us : List Token} {xs : List α} (h : Separated close item us xs) : Separated close item' us xs := by
  induction h with
  | close hclose => exact .close hclose
  | last hx hclose => exact .last (hitem hx) hclose
  | more hx hcomma _ ih => exact .more (hitem hx) hcomma ih

section

variable {d d' : Nested} {us : List Token} {e : Expr}

theorem Primary.mono (hle : d.Le d') (h : Primary d us e) : Primary d' us e := by
  cases h with
  | number h => exact .number h
  | text h => exact .text h
  | name h => exact .name h
  | literal h => exact .literal h
  | template h hparts => exact .template h (hle.parts hparts)
  | parens hopen hinner hclose => exact .parens hopen (hle.assignment hinner) hclose
  | array hopen hitems => exact .array hopen (hle.items hitems)
  | object hopen hfields => exact .object hopen (hle.fields hfields)

theorem Chain.mono (hle : d.Le d') (h : Chain d us e) : Chain d' us e := by
  induction h with
  | primary h => exact .primary (h.mono hle)
  | member _ hdot hkey ih => exact .member ih hdot hkey
  | index _ hopen hkey hclose ih => exact .index ih hopen (hle.assignment hkey) hclose
  | call _ hopen hargs ih => exact .call ih hopen (hle.items hargs)

theorem Unary.mono (hle : d.Le d') (h : Unary d us e) : Unary d' us e := by
  cases h with
  | chain h => exact .chain (h.mono hle)
  | operator hop hoperand => exact .operator hop (hle.unary hoperand)

theorem Binary.mono {stratum : Nat} (hle : d.Le d') (h : Binary d stratum us e) : Binary d' stratum us e := by
  induction h with
  | unary h => exact .unary (h.mono hle)
  | power hleft hop hright => exact .power (hleft.mono hle) hop (hle.operand hright)
  | tighter _ ih => exact .tighter ih
  | operator _ hop hkind hright ih => exact .operator ih hop hkind (hle.operand hright)

theorem Conditional.mono (hle : d.Le d') (h : Conditional d us e) : Conditional d' us e := by
  cases h with
  | binary h => exact .binary (h.mono hle)
  | conditional htest hquestion hyes hcolon hno =>
      exact .conditional (htest.mono hle) hquestion (hle.assignment hyes) hcolon (hle.assignment hno)

theorem Assignment.mono (hle : d.Le d') (h : Assignment d us e) : Assignment d' us e := by
  cases h with
  | conditional h => exact .conditional (h.mono hle)
  | assign htarget hbuild hassign hvalue => exact .assign (htarget.mono hle) hbuild hassign (hle.assignment hvalue)

theorem Field.mono {field : String × Expr} (hle : d.Le d') (h : Field d us field) : Field d' us field := by
  cases h with
  | name h => exact .name h
  | keyed hkey hcolon hvalue => exact .keyed hkey hcolon (hvalue.mono hle)

theorem Parts.mono {holes : List (Hole × String)} {parts : List (Expr × String)} (hle : d.Le d')
    (h : Parts d holes parts) : Parts d' holes parts := by
  induction h with
  | nil => exact .nil
  | cons hexpr _ ih => exact .cons (hexpr.mono (Assignment.mono hle)) ih

end

theorem Nested.le_above {d d' : Nested} (h : d.Le d') : d.above.Le d'.above where
  assignment := Assignment.mono h
  operand := Binary.mono h
  unary := Unary.mono h
  items := Separated.mono (Assignment.mono h)
  fields := Separated.mono (Field.mono h)
  parts := Parts.mono h

/-- What nests no deeper than some room allows has its phrases also where there is more room. -/
theorem Nested.within_le_succ (room : Nat) : (Nested.none.within room).Le (Nested.none.within (room + 1)) := by
  induction room with
  | zero => exact ⟨nofun, nofun, nofun, nofun, nofun, nofun⟩
  | succ room ih => exact Nested.le_above ih

theorem Nested.within_le {room room' : Nat} (hle : room ≤ room') :
    (Nested.none.within room).Le (Nested.none.within room') := by
  induction hle with
  | refl => exact ⟨id, id, id, id, id, id⟩
  | @step room' _ ih =>
      have hstep := Nested.within_le_succ room'
      exact ⟨hstep.assignment ∘ ih.assignment, hstep.operand ∘ ih.operand, hstep.unary ∘ ih.unary,
        hstep.items ∘ ih.items, hstep.fields ∘ ih.fields, hstep.parts ∘ ih.parts⟩

end Grammar

end ScriptRepl.Syntax
