import ScriptRepl.Realm.Request
import ScriptRepl.Syntax.Check

/-! What happens to a line that is submitted. Each line is evaluated in a group of handles of its own, which is
given back as soon as neither the last result nor the last error is in it. -/
namespace ScriptRepl.Console

inductive LineOutcome where
  | needsAnotherLine
  | output (text : String)
  deriving DecidableEq, Repr

/-- A handle that the group of its line keeps alive. -/
structure Kept where
  id : Nat
  group : Group
  deriving DecidableEq, Repr

structure Session where
  colors : Bool := true
  lines : Nat := 0
  last : Option Kept := none
  lastError : Option Kept := none

namespace Session

/-- The inspection of a value, or its description if that fails. -/
def inspected (s : Session) (v : Remote) : Request String := do
  match ← Request.ask (.inspect v.id { colors := s.colors }) with
  | .ok text => return text
  | .error _ => return v.description

def giveBack : Option Kept → Request Unit
  | none => return ()
  | some kept => Request.ask (.release kept.group)

/-- Shows a value, binds it to a name and gives back what was kept in its place. -/
def keep (s : Session) (name : String) (v : Remote) (replaced : Option Kept) : Request String := do
  let text ← s.inspected v
  let _ ← Request.ask (.bind name v.id)
  giveBack replaced
  return text

def onLine (s : Session) (line : String) : Request (LineOutcome × Session) := do
  if Syntax.check line = .incomplete then return (.needsAnotherLine, s)
  else
    let s := { s with lines := s.lines + 1 }
    let group := Group.line s.lines
    match ← Request.ask (.evaluate line { group := some group }) with
    | .ok (.value v) =>
      let text ← s.keep "_" v s.last
      return (.output text, { s with last := some ⟨v.id, group⟩ })
    | .ok (.exception v) =>
      let text ← s.keep "_err" v s.lastError
      return (.output ("Uncaught " ++ text), { s with lastError := some ⟨v.id, group⟩ })
    | .error e =>
      Request.ask (.release group)
      return (.output ("tern: evaluator unavailable: " ++ e.message), s)

end Session

end ScriptRepl.Console
