import ScriptRepl.Assist.Preview
import ScriptRepl.Console.Suggestion

/-! Work that is done behind the back of the one who types: the engine issues jobs, and their results come back as
events at any later time. Both bear the generation of the line they are for. -/
namespace ScriptRepl.Console

open Assist (Completion)

inductive CompletionMode where
  /-- Asked for after every change, to be shown behind the line. -/
  | partly
  /-- Asked for by a key: the only candidate is inserted, several are listed. -/
  | full
  deriving DecidableEq, Repr

inductive Job where
  | complete (generation : Nat) (mode : CompletionMode) (source : String)
  | preview (generation : Nat) (source : String) (width : Nat)
  deriving DecidableEq, Repr

inductive Event where
  | completed (generation : Nat) (mode : CompletionMode) (result : Option Completion)
  | previewed (generation : Nat) (text : Option String)
  | historyLoaded (lines : List String)
  deriving DecidableEq, Repr

def Event.generation? : Event → Option Nat
  | completed generation _ _ => some generation
  | previewed generation _ => some generation
  | historyLoaded _ => none

/-- What a host does for a job. The number names its group of handles, and the ticks bound the evaluation of a
preview. -/
def Job.request (job : Job) (ticks : Option Nat) (number : Nat) : Request Event :=
  match job with
  | complete generation mode source => do
    let answer ← Assist.complete source (.completion number)
    return .completed generation mode (Suggestion.usable answer)
  | preview generation source width => do
    let text ← Assist.preview source width ticks (.preview number)
    return .previewed generation text

end ScriptRepl.Console
