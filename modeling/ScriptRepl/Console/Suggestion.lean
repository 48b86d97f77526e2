import ScriptRepl.Assist.Completion
import ScriptRepl.Console.Buffer
import ScriptRepl.Console.Listing

/-! What is done with completions: the candidates that can be shown behind the line one after another, and the answer
to a request for all of them. -/
namespace ScriptRepl.Console

open Assist (Completion)

/-- The candidates for the line of one generation and the number of the one that is shown. -/
structure Suggestion where
  candidates : List String := []
  index : Option Nat := none
  generation : Nat := 0
  deriving DecidableEq, Repr

inductive FullAnswer where
  | insert (text : String)
  | listing (text : String)
  | nothing
  deriving DecidableEq, Repr

namespace Suggestion

/-- A failed completion, and one that offers nothing to insert, is none. -/
def usable (answer : Except ε (Option Completion)) : Option Completion :=
  match answer with
  | .ok (some (.candidates xs)) => if xs = [] || xs = [""] then none else some (.candidates xs)
  | .ok completion => completion
  | .error _ => none

def clear (s : Suggestion) : Suggestion :=
  { s with candidates := [], index := none }

def shown (s : Suggestion) : Option Suffix := do
  let text ← s.candidates[← s.index]?
  return { text, kind := .completion }

/-- Takes over the completion of a line and shows its hint or its first candidate. -/
def take (s : Suggestion) (generation : Nat) (completion : Option Completion) : Option Suffix × Suggestion :=
  let s := { s.clear with generation }
  match completion with
  | none => (none, s)
  | some (.hint text) => (some { text, kind := .hint }, s)
  | some (.candidates candidates) =>
    let s := { s with candidates, index := some 0 }
    (s.shown, s)

/-- The number after one of `n`, in the given direction; no number stands between the last and the first. -/
def turn (n : Nat) (forward : Bool) : Option Nat → Option Nat
  | none => some (if forward then 0 else n - 1)
  | some i =>
    if forward then if i + 1 < n then some (i + 1) else none
    else if 0 < i then some (i - 1) else none

/-- Shows the next candidate. The candidates of another generation are forgotten. -/
def rotate (s : Suggestion) (generation : Nat) (forward : Bool) : Option Suffix × Suggestion :=
  if s.generation ≠ generation then (none, s.clear)
  else if s.candidates.isEmpty then (none, s)
  else
    let s := { s with index := turn s.candidates.length forward s.index }
    (s.shown, s)

/-- A single candidate is inserted; several are listed, each after what was typed of the line. -/
def resolve (completion : Option Completion) (typed : String) (columns : Nat) : FullAnswer :=
  match completion with
  | some (.candidates []) => .nothing
  | some (.candidates [text]) => .insert text
  | some (.candidates candidates) => .listing (Listing.format (candidates.map (typed ++ ·)) columns)
  | some (.hint _) | none => .nothing

end Suggestion

end ScriptRepl.Console
