import ScriptRepl.Realm.Call

/-! Evaluation of programs. A speculative run ends before any effect; `depth` counts the expressions and calls that
are being evaluated. -/
namespace ScriptRepl

open Eval
open Syntax (Expr Stmt Program UnaryOp BinaryOp LogicalOp DeclKind)

namespace Evaluation

/-- How a value that is called reads in an error. -/
def describeCallee : Expr → String
  | .name s => s
  | .member object key => describeCallee object ++ "." ++ key
  | .index object _ => describeCallee object ++ "[...]"
  | .call callee _ => describeCallee callee ++ "(...)"
  | _ => "expression"

def applyUnary (op : UnaryOp) (v : Value) : Eval Value := do
  let h ← heap
  return match op with
    | .negate => .number (-(h.toNumber v))
    | .plus => .number (h.toNumber v)
    | .not => .bool (!v.truthy)
    | .typeof => .text (h.typeOf v)

/-- Texts and objects make a sum a concatenation. -/
def isTextual : Value → Bool
  | .text _ => true
  | .object _ => true
  | _ => false

/-- Texts are compared by their characters, all else as numbers; a comparison with what is no number fails. -/
def compareValues (h : Heap) (texts : String → String → Bool) (numbers : Float → Float → Bool) (a b : Value) : Bool :=
  match a, b with
  | .text s, .text t => texts s t
  | a, b => numbers (h.toNumber a) (h.toNumber b)

def applyBinary (h : Heap) (op : BinaryOp) (a b : Value) : Value :=
  let arithmetic (f : Float → Float → Float) : Value := .number (f (h.toNumber a) (h.toNumber b))
  match op with
  | .add => if isTextual a || isTextual b then .text (h.display a ++ h.display b) else arithmetic (· + ·)
  | .sub => arithmetic (· - ·)
  | .mul => arithmetic (· * ·)
  | .div => arithmetic (· / ·)
  | .rem => arithmetic Number.remainder
  | .pow => arithmetic Float.pow
  | .eq => .bool (h.looseEq a b)
  | .ne => .bool (!h.looseEq a b)
  | .strictEq => .bool (a.strictEq b)
  | .strictNe => .bool (!a.strictEq b)
  | .lt => .bool (compareValues h (fun s t => s < t) (fun x y => x < y) a b)
  | .gt => .bool (compareValues h (fun s t => t < s) (fun x y => y < x) a b)
  | .le => .bool (compareValues h (fun s t => !(decide (t < s))) (fun x y => x ≤ y) a b)
  | .ge => .bool (compareValues h (fun s t => !(decide (s < t))) (fun x y => y ≤ x) a b)

/-- Whether the left operand settles a logical expression. -/
def settles (op : LogicalOp) (v : Value) : Bool :=
  match op with
  | .and => !v.truthy
  | .or => v.truthy
  | .nullish => !v.isNullish

/-- Whether `typeof` is applied to a name that stands for nothing. -/
def isUnbound (globals : Dict Binding) (op : UnaryOp) : Expr → Bool
  | .name s => op = .typeof && !globals.contains s
  | _ => false

/-- Gives a name a new value, or makes it a variable if it is not known yet. -/
def assignName (name : String) (v : Value) : Eval Unit := do
  match (← globals).get? name with
  | none => setGlobal name ⟨v, .varKind⟩
  | some b =>
    if b.kind = .constKind then raise "TypeError" "Assignment to constant variable."
    else setGlobal name ⟨v, b.kind⟩

section

variable (speculative : Bool)

mutual

def eval (depth : Nat) (e : Expr) : Eval Value := do
  tick
  guardDepth depth
  let depth := depth + 1
  match e with
  | .number x => return .number x
  | .text s => return .text s
  | .literal (.bool b) => return .bool b
  | .literal .null => return .null
  | .literal .undefined => return .undefined
  | .template head parts => return .text (head ++ (← evalParts depth parts))
  | .name s =>
    match (← globals).get? s with
    | some b => return b.value
    | none => raise "ReferenceError" (s ++ " is not defined")
  | .array items =>
    let vs ← evalItems depth items
    alloc (.list vs.toArray)
  | .object fields =>
    let es ← evalFields depth fields
    alloc (.plain (Dict.ofList es))
  | .member object key =>
    let target ← eval depth object
    getProperty target key
  | .index object key =>
    let target ← eval depth object
    let k ← eval depth key
    getProperty target (← display k)
  | .call callee args =>
    let function ← eval depth callee
    let vs ← evalItems depth args
    callValue speculative depth function vs (describeCallee callee)
  | .unary op operand =>
    if isUnbound (← globals) op operand then return .text "undefined"
    else
      let v ← eval depth operand
      applyUnary op v
  | .binary op left right =>
    let a ← eval depth left
    let b ← eval depth right
    return applyBinary (← heap) op a b
  | .logical op left right =>
    let a ← eval depth left
    if settles op a then return a else eval depth right
  | .conditional test yes no =>
    let v ← eval depth test
    if v.truthy then eval depth yes else eval depth no
  | .assignName target value =>
    guardEffect speculative
    let v ← eval depth value
    assignName target v
    return v
  | .assignMember object key value =>
    guardEffect speculative
    let v ← eval depth value
    let target ← eval depth object
    setProperty target key v
    return v
  | .assignIndex object key value =>
    guardEffect speculative
    let v ← eval depth value
    let target ← eval depth object
    let k ← eval depth key
    setProperty target (← display k) v
    return v

def evalItems (depth : Nat) : List Expr → Eval (List Value)
  | [] => return []
  | e :: es => do
    let v ← eval depth e
    return v :: (← evalItems depth es)

def evalFields (depth : Nat) : List (String × Expr) → Eval (List (String × Value))
  | [] => return []
  | (key, e) :: fields => do
    let v ← eval depth e
    return (key, v) :: (← evalFields depth fields)

/-- The texts of the holes of a template, each with what follows it. -/
def evalParts (depth : Nat) : List (Expr × String) → Eval String
  | [] => return ""
  | (e, s) :: parts => do
    let v ← eval depth e
    let shown ← display v
    return shown ++ s ++ (← evalParts depth parts)

end

/-- A name can be declared again only as a variable that is a variable already, which keeps its value if none is
given. -/
def declare (kind : DeclKind) (name : String) (init : Option Expr) : Eval Unit := do
  guardEffect speculative
  let existing := (← globals).get? name
  if existing.any fun b => kind ≠ .varKind || b.kind ≠ .varKind then
    raise "SyntaxError" ("Identifier '" ++ name ++ "' has already been declared")
  else
    match init with
    | some e =>
      let v ← eval speculative 0 e
      setGlobal name ⟨v, kind⟩
    | none => setGlobal name ⟨(existing.map (·.value)).getD .undefined, kind⟩

/-- Runs statements in turn; the value is that of the last expression among them, `last` if there is none. -/
def run (last : Value) : Program → Eval Value
  | [] => return last
  | .empty :: rest => run last rest
  | .expr e :: rest => do
    let v ← eval speculative 0 e
    run v rest
  | .decl kind name init :: rest => do
    declare speculative kind name init
    run last rest

end

end Evaluation

end ScriptRepl
