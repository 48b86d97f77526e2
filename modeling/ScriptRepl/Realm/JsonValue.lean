import ScriptRepl.Json.Reader
import ScriptRepl.Json.Writer
import ScriptRepl.Realm.Conversion

/-! Values as JSON and JSON as values. -/
namespace ScriptRepl

namespace Heap

/-- A number as JSON: whole numbers below `2 ^ 53` exactly, `null` for what is not finite. -/
def jsonNumber (x : Float) : Json :=
  match Number.Binary.ofFloat? x with
  | none => .null
  | some b =>
    if b.isIntegral && b.whole < Number.twoTo 53 then .number (.whole (if b.negative then -(b.whole : Int) else b.whole))
    else .number (.real x)

/-- What stops a value from being written: it contains itself. -/
inductive Circular where
  | circular

mutual

/-- The JSON of a value that lies inside the objects of `path`; `undefined` and functions have none. -/
def jsonAt (h : Heap) (path : List Ref) : Value → Except Circular (Option Json)
  | .undefined => .ok none
  | .null => .ok (some .null)
  | .bool b => .ok (some (.bool b))
  | .number x => .ok (some (jsonNumber x))
  | .text s => .ok (some (.text s))
  | .object r =>
    if _hp : path.contains r = true then .error .circular
    else
      match _hr : h.get? r with
      | some (.function ..) => .ok none
      | some (.list items) => do return some (.array (← jsonItems h (r :: path) items.toList))
      | some (.plain fields) => do return some (.object (← jsonFields h (r :: path) fields.entries))
      | some (.error ..) => .ok (some (.object []))
      | none => .ok none
termination_by (h.unseen path, 0)
decreasing_by
  all_goals exact Prod.Lex.left _ _ (unseen_cons_lt (lt_size_of_get? _hr) (by simpa using _hp))

/-- Items that have no JSON are written as `null`. -/
def jsonItems (h : Heap) (path : List Ref) : List Value → Except Circular (List Json)
  | [] => .ok []
  | v :: vs => do
    let item ← jsonAt h path v
    return item.getD .null :: (← jsonItems h path vs)
termination_by vs => (h.unseen path, vs.length + 1)
decreasing_by
  all_goals exact Prod.Lex.right _ (by simp)

/-- Fields that have no JSON are left out. -/
def jsonFields (h : Heap) (path : List Ref) : List (String × Value) → Except Circular (List (String × Json))
  | [] => .ok []
  | (key, v) :: fields => do
    let item ← jsonAt h path v
    let rest ← jsonFields h path fields
    return match item with
      | some json => (key, json) :: rest
      | none => rest
termination_by fields => (h.unseen path, fields.length + 1)
decreasing_by
  all_goals exact Prod.Lex.right _ (by simp)

end

mutual

/-- Builds a JSON value on the heap, its parts first. -/
def ofJson (h : Heap) : Json → Value × Heap
  | .null => (.null, h)
  | .bool b => (.bool b, h)
  | .number n => (.number n.toFloat, h)
  | .text s => (.text s, h)
  | .array items =>
    let (vs, h) := ofJsonItems h items
    h.alloc (.list vs.toArray)
  | .object fields =>
    let (es, h) := ofJsonFields h fields
    h.alloc (.plain (Dict.ofList es))

def ofJsonItems (h : Heap) : List Json → List Value × Heap
  | [] => ([], h)
  | item :: items =>
    let (v, h) := ofJson h item
    let (vs, h) := ofJsonItems h items
    (v :: vs, h)

def ofJsonFields (h : Heap) : List (String × Json) → List (String × Value) × Heap
  | [] => ([], h)
  | (key, item) :: fields =>
    let (v, h) := ofJson h item
    let (es, h) := ofJsonFields h fields
    ((key, v) :: es, h)

end

end Heap

end ScriptRepl
