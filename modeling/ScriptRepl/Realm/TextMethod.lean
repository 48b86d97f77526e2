import ScriptRepl.Realm.Basic
import ScriptRepl.Text.LetterCase
import ScriptRepl.Text.Search

/-! The methods of texts. Positions count characters. -/
namespace ScriptRepl

open Eval

def argument (args : List Value) (n : Nat) : Value :=
  args[n]?.getD .undefined

/-- A place in `size` items: from the end if negative, never outside, `default` if not given. -/
def relativeIndex (h : Heap) (v : Value) (size default : Nat) : Nat :=
  match v with
  | .undefined => default
  | v =>
    let x := h.toNumber v
    let x := if x.isNaN then 0 else Number.truncate x
    if x < 0 then Number.toNatUpTo (Number.twoTo 64 - 1) (Number.ofNat size + x)
    else Number.toNatUpTo size x

namespace TextMethod

/-- Slides over so many places of the text until the needle stands there; `n` is the number of the next place. -/
def slide (needle : List Char) : (places : Nat) → List Char → (n : Nat) → Option Nat
  | 0, _, _ => none
  | places + 1, cs, n => if needle.isPrefixOf cs then some n else slide needle places cs.tail (n + 1)

/-- The place from `start` on where the needle comes first. No place is looked at behind which there are too few
characters. -/
def indexFrom? (needle cs : List Char) (start : Nat) : Option Nat :=
  slide needle (cs.length - needle.length + 1 - start) (cs.drop start) start

def startsWith (needle cs : List Char) (start : Nat) : Bool :=
  needle.isPrefixOf (cs.drop start)

def includes (needle cs : List Char) (start : Nat) : Bool :=
  Text.occursIn needle (cs.drop start)

def endsWith (needle cs : List Char) (stop : Nat) : Bool :=
  needle.isSuffixOf (cs.take stop)

def slice (cs : List Char) (start stop : Nat) : List Char :=
  (cs.take stop).drop start

inductive RepeatFault where
  | count (x : Float)
  | length

/-- Repeats a text a whole number of times. -/
def repeated (cs : List Char) (size : Nat) (x : Float) : Except RepeatFault (List Char) :=
  let x := if x.isNaN then 0 else Number.truncate x
  if x < 0 || Number.isInfinite x then .error (.count x)
  else
    let n := Number.toNatUpTo (Number.twoTo 64 - 1) x
    if maxTextBytes < size * n then .error .length
    else if cs.isEmpty then .ok []
    else .ok (List.replicate n cs).flatten

end TextMethod

open TextMethod in
def callTextMethod (op : TextOp) (s : String) (args : List Value) : Eval Value := do
  let h ← heap
  let cs := s.toList
  let text (n : Nat) : List Char := (h.display (argument args n)).toList
  let position (n default : Nat) : Nat := relativeIndex h (argument args n) cs.length default
  let value (cs : List Char) : Value := .text (String.ofList cs)
  match op with
  | .toUpperCase => return value (Text.upper cs)
  | .toLowerCase => return value (Text.lower cs)
  | .trim => return value (Text.trimBoth cs)
  | .includes => return .bool (includes (text 0) cs (position 1 0))
  | .startsWith => return .bool (startsWith (text 0) cs (position 1 0))
  | .endsWith => return .bool (endsWith (text 0) cs (position 1 cs.length))
  | .slice => return value (slice cs (position 0 0) (position 1 cs.length))
  | .indexOf =>
    match indexFrom? (text 0) cs (position 1 0) with
    | some n => return .number (Number.ofNat n)
    | none => return .number (-1)
  | .charAt =>
    let x := h.toNumber (argument args 0)
    let c? := if x < 0 then none else cs[Number.toNatUpTo (Number.twoTo 64 - 1) x]?
    return value c?.toList
  | .repeated =>
    match repeated cs s.utf8ByteSize (h.toNumber (argument args 0)) with
    | .ok cs => return value cs
    | .error (.count x) => raise "RangeError" ("Invalid count value: " ++ Number.spell x)
    | .error .length => raise "RangeError" "Invalid string length"
  | .split =>
    let parts :=
      match argument args 0 with
      | .undefined => [cs]
      | v => Text.split (h.display v).toList cs
    let parts :=
      match argument args 1 with
      | .undefined => parts
      | v => parts.take (Number.toNatUpTo parts.length (h.toNumber v))
    alloc (.list (parts.map value).toArray)

end ScriptRepl
