import ScriptRepl.Realm.Conversion
import ScriptRepl.Syntax.Tree

/-! What a program runs on: the heap, the global names, the state of the random numbers and the lines printed so
far; and the computations on it, which may end early. -/
namespace ScriptRepl

open Syntax (DeclKind)

structure Binding where
  value : Value
  kind : DeclKind

structure Realm where
  heap : Heap := {}
  globals : Dict Binding := {}
  random : UInt64 := 1
  printed : Array String := #[]

/-- Why a computation ended before it gave a value. A fault is a list that would have to grow beyond the address
space. -/
inductive Interrupt where
  | throw (v : Value)
  | timeout
  | fault

/-- A realm in use; `ticks` bounds the expressions that may still be evaluated. -/
structure Run where
  realm : Realm
  ticks : Option Nat := none

/-- An early end keeps what was done before it. -/
abbrev Eval (α : Type) := ExceptT Interrupt (StateM Run) α

namespace Eval

def heap : Eval Heap :=
  return (← get).realm.heap

def globals : Eval (Dict Binding) :=
  return (← get).realm.globals

def setHeap (h : Heap) : Eval Unit :=
  modify fun run => { run with realm := { run.realm with heap := h } }

def setGlobal (name : String) (b : Binding) : Eval Unit :=
  modify fun run => { run with realm := { run.realm with globals := run.realm.globals.insert name b } }

def print (line : String) : Eval Unit :=
  modify fun run => { run with realm := { run.realm with printed := run.realm.printed.push line } }

def alloc (o : Obj) : Eval Value := do
  let (v, h) := (← heap).alloc o
  setHeap h
  return v

def raise (name message : String) : Eval α := do
  let e ← alloc (.error name message)
  throw (.throw e)

/-- A speculative run ends where it would have an effect. -/
def guardEffect (speculative : Bool) : Eval Unit :=
  if speculative then raise "EvalError" "Possible side-effect in eager evaluation" else pure ()

def tick : Eval Unit := do
  match (← get).ticks with
  | none => return ()
  | some 0 => throw .timeout
  | some (n + 1) => modify fun run => { run with ticks := some n }

/-- How deep evaluation and calls may nest. -/
def maxDepth : Nat := 256

/-- Fails when `depth` levels are entered already. -/
def guardDepth (depth : Nat) : Eval Unit :=
  if maxDepth ≤ depth then raise "RangeError" "Maximum call stack size exceeded" else pure ()

def display (v : Value) : Eval String :=
  return (← heap).display v

def toNumber (v : Value) : Eval Float :=
  return (← heap).toNumber v

end Eval

def itemBytes : Nat := 24

/-- Longest list that can be addressed. -/
def maxListLength : Nat := (Number.twoTo 63 - 1) / itemBytes

/-- A longest text that a script may build by repetition, in bytes. -/
def maxTextBytes : Nat := Number.twoTo 29 - 24

/-- Cuts a list or fills it up with `undefined`. -/
def resize (items : Array Value) (n : Nat) : Array Value :=
  if n ≤ items.size then items.extract 0 n else items ++ Array.replicate (n - items.size) .undefined

/-- The number that a key spells as an index: decimal digits, after a plus sign or not, below `2 ^ 64`. -/
def index? (key : String) : Option Nat :=
  let digits :=
    match key.toList with
    | '+' :: cs => cs
    | cs => cs
  if digits.isEmpty || !digits.all Number.isDigit then none
  else
    let n := Number.digitsToNat digits
    if n < Number.twoTo 64 then some n else none

end ScriptRepl
