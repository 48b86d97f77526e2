/-! Searching a text for another: the first place, the pieces between the places, and replacement. Places count
characters. -/
namespace ScriptRepl.Text

/-- The least number of characters after which the text goes on with `needle`. -/
def find? (needle : List Char) : List Char → Option Nat
  | [] => if needle.isEmpty then some 0 else none
  | c :: cs => if needle.isPrefixOf (c :: cs) then some 0 else (find? needle cs).map (· + 1)

def occursIn (needle cs : List Char) : Bool :=
  (find? needle cs).isSome

def cutAt? (needle cs : List Char) : Option (List Char × List Char) :=
  (find? needle cs).map fun n => (cs.take n, cs.drop (n + needle.length))

/-- The pieces between the occurrences of a separator that is not empty, found from left to right without
overlap; `skip` characters of the last one found are still to be passed over. -/
def splitFrom (sep : List Char) : (skip : Nat) → List Char → List (List Char)
  | _, [] => [[]]
  | skip + 1, _ :: cs => splitFrom sep skip cs
  | 0, c :: cs =>
    if sep.isPrefixOf (c :: cs) then [] :: splitFrom sep (sep.length - 1) cs
    else
      match splitFrom sep 0 cs with
      | piece :: pieces => (c :: piece) :: pieces
      | [] => [[c]]

/-- An empty separator cuts between all characters. -/
def split (sep cs : List Char) : List (List Char) :=
  if sep.isEmpty then cs.map ([·]) else splitFrom sep 0 cs

def replaceFirst (needle new cs : List Char) : List Char :=
  match cutAt? needle cs with
  | some (before, after) => before ++ new ++ after
  | none => cs

end ScriptRepl.Text
