import ScriptRepl.Realm.Evaluation
import ScriptRepl.Realm.Global
import ScriptRepl.Syntax.Parser

/-! A realm behind handles. Callers never hold a value: they name it by the number of a handle, and give handles
back in groups. A call either goes through or fails as a whole. -/
namespace ScriptRepl

/-- Handles of one group are given back together. Whoever asks for a handle chooses the name of its group. -/
structure Group where
  name : String
  deriving DecidableEq, Repr

namespace Group

def named (s : String) : Group :=
  ⟨s⟩

def line (n : Nat) : Group :=
  named ("line-" ++ toString n)

def completion (n : Nat) : Group :=
  named ("completion-" ++ toString n)

def preview (n : Nat) : Group :=
  named ("eager-" ++ toString n)

end Group

structure Handle where
  id : Nat
  value : Value
  group : Option Group

structure Host where
  realm : Realm
  handles : List Handle := []
  nextId : Nat := 1
  /-- Numbers the groups of the requests in flight, so that they never share one. -/
  nextGroup : Nat := 0

/-- A value as its caller sees it. -/
structure Remote where
  id : Nat
  kind : ValueKind
  description : String

inductive Outcome where
  | value (v : Remote)
  | exception (v : Remote)

/-- A call that was not answered, as opposed to code that throws. -/
inductive CallError where
  | unreachable (call : String)
  | timeout
  | unknown (id : Nat)
  | fault

namespace CallError

def handleText (id : Nat) : String :=
  "\x7b\"objectId\":" ++ toString id ++ "\x7d"

def message : CallError → String
  | unreachable call => "transport failure: " ++ call ++ " is down"
  | timeout => "evaluation timed out after 0ns"
  | unknown id => "unknown object " ++ handleText id
  | fault => "internal evaluator error: out of memory"

end CallError

/-- How a source is evaluated: speculatively or not, with how many ticks, and the group of the handle. -/
structure EvalOptions where
  speculative : Bool := false
  ticks : Option Nat := none
  group : Option Group := none

namespace Host

def fresh (seed : UInt64) : Host where
  realm := Realm.fresh seed

def value? (host : Host) (id : Nat) : Option Value :=
  (host.handles.find? (·.id == id)).map (·.value)

def lookup (host : Host) (id : Nat) : Except CallError Value :=
  match host.value? id with
  | some v => .ok v
  | none => .error (.unknown id)

def liveHandles (host : Host) : Nat :=
  host.handles.length

def register (host : Host) (v : Value) (group : Option Group) : Remote × Host :=
  let remote := ⟨host.nextId, host.realm.heap.kindOf v, host.realm.heap.describe v⟩
  (remote, { host with handles := host.handles ++ [⟨host.nextId, v, group⟩], nextId := host.nextId + 1 })

def release (host : Host) (group : Group) : Host :=
  { host with handles := host.handles.filter fun handle => handle.group ≠ some group }

/-- Runs a computation on the realm and registers what comes out of it. -/
def perform (host : Host) (ticks : Option Nat) (group : Option Group) (x : Eval Value) :
    Except CallError Outcome × Host :=
  let (result, run) := x.run.run ⟨host.realm, ticks⟩
  let host := { host with realm := run.realm }
  match result with
  | .ok v =>
    let (remote, host) := host.register v group
    (.ok (.value remote), host)
  | .error (.throw v) =>
    let (remote, host) := host.register v group
    (.ok (.exception remote), host)
  | .error .timeout => (.error .timeout, host)
  | .error .fault => (.error .fault, host)

/-- What evaluating a source does: a source that is no program throws. -/
def programOf (source : String) (options : EvalOptions) : Eval Value :=
  match Syntax.parseProgram source with
  | .error e => Eval.raise "SyntaxError" e.message
  | .ok program => Evaluation.run options.speculative .undefined program

def evaluate (host : Host) (source : String) (options : EvalOptions) : Except CallError Outcome × Host :=
  host.perform options.ticks options.group (programOf source options)

def callFunction (host : Host) (function : Nat) (args : List Nat) (group : Option Group) :
    Except CallError Outcome × Host :=
  match host.lookup function, args.mapM host.lookup with
  | .ok f, .ok vs =>
    host.perform none group (callValue false 0 f vs ("object " ++ CallError.handleText function))
  | .error e, _ => (.error e, host)
  | _, .error e => (.error e, host)

def inspect (host : Host) (id : Nat) (style : InspectStyle) : Except CallError String := do
  return host.realm.heap.inspect style (← host.lookup id)

def properties (host : Host) (id : Nat) : Except CallError (List (String × Bool)) := do
  return host.realm.heap.propertyNames (← host.lookup id)

/-- Makes the value of a handle a variable. -/
def bind (host : Host) (name : String) (id : Nat) : Except CallError Unit × Host :=
  match host.lookup id with
  | .ok v => (.ok (), { host with realm := host.realm.define name v })
  | .error e => (.error e, host)

def globalNames (host : Host) : List String :=
  host.realm.globals.keys

def builtin? (host : Host) (id : Nat) : Option Builtin :=
  match (host.value? id).bind host.realm.heap.object? with
  | some (.function f _) => some f
  | _ => none

end Host

end ScriptRepl
