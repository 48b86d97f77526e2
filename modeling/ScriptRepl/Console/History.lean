import ScriptRepl.Text.Blank
import ScriptRepl.Text.Search

/-! The lines that were entered, newest first, and the walk through them. -/
namespace ScriptRepl.Console

structure History where
  capacity : Nat
  entries : List String := []
  /-- The number of the entry that the walk has reached. -/
  reached : Option Nat := none
  deriving DecidableEq, Repr

namespace History

def defaultCapacity : Nat := 1000

def oneLine (s : String) : String :=
  s.map fun c => if c = '\r' || c = '\n' then ' ' else c

/-- Adds a line as the newest entry, which ends the walk. A line that holds nothing is not added. -/
def append (h : History) (line : String) : History :=
  let line := oneLine line
  if Text.isBlankText line then h
  else { h with entries := (line :: h.entries).take h.capacity, reached := none }

def install (h : History) (older : List String) : History :=
  { h with entries := (h.entries ++ older).take h.capacity }

/-- Walks to the next older entry and stays on the oldest one. -/
def previous (h : History) : Option String × History :=
  if h.entries.isEmpty then (none, h)
  else
    let n :=
      match h.reached with
      | none => 0
      | some n => min (n + 1) (h.entries.length - 1)
    (h.entries[n]?, { h with reached := some n })

/-- Walks to the next newer entry, and from the newest one back to an empty line. -/
def next (h : History) : Option String × History :=
  match h.reached with
  | none => (none, h)
  | some 0 => (some "", { h with reached := none })
  | some (n + 1) => (h.entries[n]?, { h with reached := some n })

def endRecall (h : History) : History :=
  { h with reached := none }

def containing (h : History) (needle : String) : List String :=
  h.entries.filter fun entry => Text.occursIn needle.toList entry.toList

def search (h : History) (needle : String) : Option String :=
  (h.containing needle).head?

end History

end ScriptRepl.Console
