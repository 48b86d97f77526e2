import ScriptRepl.Syntax.Parser

/-! Whether a source is a program as it stands, or could become one with more lines. -/
namespace ScriptRepl.Syntax

inductive Check where
  | complete
  | incomplete
  | invalid (message : String)
  deriving DecidableEq, Repr

def check (source : String) : Check :=
  match parseProgram source with
  | .ok _ => .complete
  | .error e => if e.cause.mayContinue then .incomplete else .invalid e.message

end ScriptRepl.Syntax
