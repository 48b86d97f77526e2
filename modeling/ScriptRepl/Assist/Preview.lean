import ScriptRepl.Realm.Request
import ScriptRepl.Syntax.Check
import ScriptRepl.Text.Escape

/-! Previews: what a source would give if it were evaluated now, in one line and without effects. -/
namespace ScriptRepl.Assist

/-- The inspection of the value of a source; none if it fails, throws or gives nothing worth showing. -/
def inspectValue (source : String) (ticks : Option Nat) (group : Group) : Request (Option String) := do
  match ← Request.ask (.evaluate source { speculative := true, ticks, group := some group }) with
  | .ok (.value v) =>
    if v.kind = .undefined ∨ v.kind = .function then return none
    else
      match ← Request.ask (.inspect v.id { compact := true }) with
      | .ok text => return some text
      | .error _ => return none
  | _ => return none

/-- A preview at most `width` columns wide. -/
def preview (source : String) (width : Nat) (ticks : Option Nat) (group : Group) : Request (Option String) := do
  if Text.isBlankText source || Syntax.check source != .complete then return none
  else
    let text? ← inspectValue source ticks group
    Request.ask (.release group)
    return text?.map fun text => Text.truncate width (Text.collapse text)

end ScriptRepl.Assist
