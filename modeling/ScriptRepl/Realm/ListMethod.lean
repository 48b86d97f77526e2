import ScriptRepl.Realm.TextMethod

/-! The methods of lists. -/
namespace ScriptRepl

open Eval

namespace ListMethod

/-- Equality for a search that finds a number that is not a number, too. -/
def sameValue (a b : Value) : Bool :=
  match a, b with
  | .number x, .number y => (x.isNaN && y.isNaN) || x == y
  | a, b => a.strictEq b

def joined (h : Heap) (separator : String) (items : List Value) : String :=
  String.intercalate separator (items.map fun v => if v.isNullish then "" else h.display v)

/-- Lists among the values stand for their items. -/
def spread (h : Heap) (v : Value) : List Value :=
  match v with
  | .object r =>
    match h.get? r with
    | some (.list items) => items.toList
    | _ => [v]
  | v => [v]

end ListMethod

open ListMethod in
/-- A method of the list `items`, which is the object `r`. -/
def callListMethod (op : ListOp) (r : Ref) (items : Array Value) (args : List Value) : Eval Value := do
  let h ← heap
  let position (n default : Nat) : Nat := relativeIndex h (argument args n) items.size default
  match op with
  | .join =>
    let separator :=
      match argument args 0 with
      | .undefined => ","
      | v => h.display v
    return .text (joined h separator items.toList)
  | .includes => return .bool ((items.toList.drop (position 1 0)).any fun v => sameValue v (argument args 0))
  | .indexOf =>
    let start := position 1 0
    match (items.toList.drop start).findIdx? fun v => v.strictEq (argument args 0) with
    | some n => return .number (Number.ofNat (n + start))
    | none => return .number (-1)
  | .slice => alloc (.list (items.extract (position 0 0) (position 1 items.size)))
  | .concat => alloc (.list (items ++ (args.flatMap (spread h)).toArray))
  | .reverse =>
    setHeap (h.set r (.list items.reverse))
    return .object r
  | .push =>
    let items := items ++ args.toArray
    setHeap (h.set r (.list items))
    return .number (Number.ofNat items.size)
  | .pop =>
    setHeap (h.set r (.list items.pop))
    return items.back?.getD .undefined

end ScriptRepl
