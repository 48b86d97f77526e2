import ScriptRepl.Number.Text
import ScriptRepl.Syntax.Lexer
import ScriptRepl.Syntax.Tree

/-! From tokens to trees, by operator precedence. The parsers of one level of nesting are built from those of the
level below them; the level that has no room left refuses to go deeper. -/
namespace ScriptRepl.Syntax

namespace Parser

/-- The tokens still to be read and the offset of the end behind them. -/
structure Input where
  rest : List Token
  fin : Nat

abbrev Parse (α : Type) := StateT Input (Except SyntaxError) α

def Input.offset (input : Input) : Nat :=
  match input.rest with
  | t :: _ => t.start
  | [] => input.fin

def peek : Parse (Option TokenKind) :=
  return (← get).rest.head?.map (·.kind)

def here : Parse Nat :=
  return (← get).offset

def skip : Parse Unit :=
  modify fun input => { input with rest := input.rest.tail }

def fail (cause : SyntaxCause) : Parse α := do
  throw ⟨cause, ← here⟩

/-- The next token, or the end, does not fit. -/
def unexpected : Parse α := do
  match ← peek with
  | none => fail .endOfInput
  | some kind => fail (.unexpected kind)

def peekPunct : Parse (Option Punct) := do
  match ← peek with
  | some (.punct p) => return some p
  | _ => return none

/-- Passes over the punctuator if it is next. -/
def eat (p : Punct) : Parse Bool := do
  if (← peekPunct) = some p then
    skip
    return true
  else return false

def expect (p : Punct) : Parse Unit := do
  if ← eat p then return () else unexpected

/-- An upper bound for the steps of a loop that reads a token in each. -/
def remaining : Parse Nat :=
  return (← get).rest.length

/-! ### Operators -/

inductive Operator where
  | logical (op : LogicalOp)
  | binary (op : BinaryOp)

namespace Operator

def ofPunct? : Punct → Option Operator
  | .nullish => some (logical .nullish)
  | .or => some (logical .or)
  | .and => some (logical .and)
  | .eq => some (binary .eq)
  | .ne => some (binary .ne)
  | .strictEq => some (binary .strictEq)
  | .strictNe => some (binary .strictNe)
  | .lt => some (binary .lt)
  | .gt => some (binary .gt)
  | .le => some (binary .le)
  | .ge => some (binary .ge)
  | .plus => some (binary .add)
  | .minus => some (binary .sub)
  | .times => some (binary .mul)
  | .divide => some (binary .div)
  | .percent => some (binary .rem)
  | .power => some (binary .pow)
  | _ => none

/-- How tightly an operator binds; the conditional binds with power 0. -/
def power : Operator → Nat
  | logical .nullish => 1
  | logical .or => 2
  | logical .and => 3
  | binary .eq | binary .ne | binary .strictEq | binary .strictNe => 4
  | binary .lt | binary .gt | binary .le | binary .ge => 5
  | binary .add | binary .sub => 6
  | binary .mul | binary .div | binary .rem => 7
  | binary .pow => 8

/-- The least power of an operator inside the right operand: only `**` groups to the right. -/
def rightPower : Operator → Nat
  | binary .pow => 8
  | op => op.power + 1

def build : Operator → Expr → Expr → Expr
  | logical op => .logical op
  | binary op => .binary op

end Operator

def unaryOf? : TokenKind → Option UnaryOp
  | .punct .minus => some .negate
  | .punct .plus => some .plus
  | .punct .not => some .not
  | .keyword .typeof => some .typeof
  | _ => none

/-- The assignments to a target: a name, a member or an index. -/
def assignTo? : Expr → Option (Expr → Expr)
  | .name s => some (.assignName s)
  | .member object key => some (.assignMember object key)
  | .index object key => some (.assignIndex object key)
  | _ => none

/-! ### One level of nesting -/

/-- The parsers that are entered one level deeper. -/
structure Level where
  assignment : Parse Expr
  binary : (least : Nat) → Parse Expr
  unary : Parse Expr
  list : (close : Punct) → Parse (List Expr)
  object : Parse Expr
  template : Template → Parse Expr

section

variable (deeper : Level)

/-- Goes on after an operand with operators that bind at least as tightly as `least`. -/
def binaryTail (least : Nat) : (fuel : Nat) → Expr → Parse Expr
  | 0, left => return left
  | fuel + 1, left => do
    match ← peekPunct with
    | none => return left
    | some .question =>
      if 0 < least then return left
      else
        skip
        let yes ← deeper.assignment
        expect .colon
        let no ← deeper.assignment
        binaryTail least fuel (.conditional left yes no)
    | some p =>
      match Operator.ofPunct? p with
      | none => return left
      | some op =>
        if op.power < least then return left
        else
          skip
          let right ← deeper.binary op.rightPower
          binaryTail least fuel (op.build left right)

/-- The key of an object's field or the name after a dot that a token spells. -/
def memberName? : TokenKind → Option String
  | .name s => some s
  | .keyword k => some k.text
  | _ => none

/-- Goes on after a value with members, indices and calls. -/
def chainTail : (fuel : Nat) → Expr → Parse Expr
  | 0, e => return e
  | fuel + 1, e => do
    match ← peekPunct with
    | some .dot =>
      skip
      match (← peek).bind memberName? with
      | some key =>
        skip
        chainTail fuel (.member e key)
      | none => unexpected
    | some .openBracket =>
      skip
      let key ← deeper.assignment
      expect .closeBracket
      chainTail fuel (.index e key)
    | some .openParen =>
      skip
      let args ← deeper.list .closeParen
      chainTail fuel (.call e args)
    | _ => return e

def primary : Parse Expr := do
  match ← peek with
  | some (.number x) => skip; return .number x
  | some (.text s) => skip; return .text s
  | some (.template t) => skip; deeper.template t
  | some (.name s) => skip; return .name s
  | some (.keyword (.literal l)) => skip; return .literal l
  | some (.punct .openParen) =>
    skip
    let e ← deeper.assignment
    expect .closeParen
    return e
  | some (.punct .openBracket) => skip; return .array (← deeper.list .closeBracket)
  | some (.punct .openBrace) => skip; deeper.object
  | _ => unexpected

def unary : Parse Expr := do
  match (← peek).bind unaryOf? with
  | some op =>
    skip
    return .unary op (← deeper.unary)
  | none =>
    let e ← primary deeper
    chainTail deeper (← remaining) e

def binary (least : Nat) : Parse Expr := do
  let left ← unary deeper
  binaryTail deeper least (← remaining) left

def assignment : Parse Expr := do
  let start ← here
  let target ← binary deeper 0
  if ← eat .assign then
    match assignTo? target with
    | none => throw ⟨.invalidTarget, start⟩
    | some assign => return assign (← deeper.assignment)
  else return target

/-- Expressions between commas up to the closing bracket, which a comma may precede. -/
def listItems (close : Punct) : (fuel : Nat) → Parse (List Expr)
  | 0 => unexpected
  | fuel + 1 => do
    if ← eat close then return []
    else
      let item ← assignment deeper
      if ← eat .comma then return item :: (← listItems close fuel)
      else
        expect close
        return [item]

def list (close : Punct) : Parse (List Expr) := do
  listItems deeper close ((← remaining) + 1)

/-- A field of an object: a key and its value, or a name that is both. -/
def objectField : Parse (String × Expr) := do
  match ← peek with
  | some (.name s) =>
    skip
    if ← eat .colon then return (s, ← assignment deeper) else return (s, .name s)
  | some (.keyword k) => keyed k.text
  | some (.text s) => keyed s
  | some (.number x) => keyed (Number.spell x)
  | _ => unexpected
where
  keyed (key : String) : Parse (String × Expr) := do
    skip
    if ← eat .colon then return (key, ← assignment deeper) else unexpected

def objectFields : (fuel : Nat) → Parse (List (String × Expr))
  | 0 => unexpected
  | fuel + 1 => do
    if ← eat .closeBrace then return []
    else
      let field ← objectField deeper
      if ← eat .comma then return field :: (← objectFields fuel)
      else
        expect .closeBrace
        return [field]

def object : Parse Expr := do
  return .object (← objectFields deeper ((← remaining) + 1))

end

/-- The tokens of a source without its comments. -/
def inputOf (source : String) : Except SyntaxError Input :=
  let lexed := lex source
  match lexed.result with
  | .error e => .error ⟨.lexical e.cause, e.offset⟩
  | .ok mark => .ok ⟨lexed.tokens.filter fun t => !t.kind.isComment, mark.offset⟩

def entire (parse : Parse α) (source : String) : Except SyntaxError α := do
  let input ← inputOf source
  let (x, rest) ← parse.run input
  match rest.rest with
  | [] => return x
  | t :: _ => throw ⟨.unexpected t.kind, t.start⟩

/-- The expression in a hole; a template is closed, so nothing that follows can mend a fault in it. -/
def holeExpr (deeper : Level) (hole : Hole) : Except SyntaxError Expr :=
  match entire (assignment deeper) hole.source with
  | .ok e => .ok e
  | .error e => .error ⟨.inHole e.cause, hole.offset + e.offset⟩

def templateParts (deeper : Level) : List (Hole × String) → Except SyntaxError (List (Expr × String))
  | [] => .ok []
  | (hole, s) :: parts => do
    let e ← holeExpr deeper hole
    return (e, s) :: (← templateParts deeper parts)

def template (deeper : Level) (t : Template) : Parse Expr := do
  return .template t.head (← templateParts deeper t.parts)

def Level.forbidden : Level where
  assignment := fail .nesting
  binary _ := fail .nesting
  unary := fail .nesting
  list _ := fail .nesting
  object := fail .nesting
  template _ := fail .nesting

def Level.above (deeper : Level) : Level where
  assignment := Parser.assignment deeper
  binary := Parser.binary deeper
  unary := Parser.unary deeper
  list := Parser.list deeper
  object := Parser.object deeper
  template := Parser.template deeper

/-- The parsers with so much room for nesting, if any. -/
def level : (room : Nat) → Level
  | 0 => .forbidden
  | room + 1 => .above (level room)

/-- How deep brackets, operands, assigned values, branches and holes may nest. -/
def maxNesting : Nat := 128

def expression : Parse Expr :=
  assignment (level maxNesting)

/-! ### Statements -/

/-- A semicolon, a line end or the end of the source closes a statement. -/
def endOfStatement : Parse Unit := do
  if ← eat .semicolon then return ()
  else
    match (← get).rest with
    | [] => return ()
    | t :: _ => if t.newlineBefore then return () else unexpected

def declaration (kind : DeclKind) : Parse Stmt := do
  match ← peek with
  | some (.name s) =>
    skip
    if ← eat .assign then return .decl kind s (some (← expression))
    else if kind = .constKind then
      match ← peek with
      | none => fail .endOfInput
      | some _ => fail .missingInitializer
    else return .decl kind s none
  | _ => unexpected

/-- A declaration or an expression, without what closes the statement. -/
def statementBody : Parse Stmt := do
  match ← peek with
  | some (.keyword (.decl kind)) =>
    skip
    declaration kind
  | _ => return .expr (← expression)

def statement : Parse Stmt := do
  if ← eat .semicolon then return .empty
  else
    let s ← statementBody
    endOfStatement
    return s

def statements : (fuel : Nat) → Parse Program
  | 0 => return []
  | fuel + 1 => do
    if (← remaining) = 0 then return []
    else
      let s ← statement
      return s :: (← statements fuel)

end Parser

def parseProgram (source : String) : Except SyntaxError Program := do
  let input ← Parser.inputOf source
  (Parser.statements input.rest.length |>.run input).map Prod.fst

theorem parseProgram_empty : parseProgram "" = .ok [] := by
  unfold parseProgram Parser.inputOf
  rw [lex_empty]
  rfl

def parseExpression (source : String) : Except SyntaxError Expr :=
  Parser.entire Parser.expression source

end ScriptRepl.Syntax
