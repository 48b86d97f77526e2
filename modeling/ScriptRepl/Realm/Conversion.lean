import ScriptRepl.Number.Numeral
import ScriptRepl.Number.Text
import ScriptRepl.Realm.Value

/-! Values as texts, numbers and truth values, and the two equalities. -/
namespace ScriptRepl

def errorText (name message : String) : String :=
  if message.isEmpty then name else name ++ ": " ++ message

namespace Heap

mutual

/-- The text of a value; `path` holds the lists it lies in, which count as empty inside themselves. -/
def displayAt (h : Heap) (path : List Ref) : Value → String
  | .undefined => "undefined"
  | .null => "null"
  | .bool b => if b then "true" else "false"
  | .number x => Number.spell x
  | .text s => s
  | .object r =>
    if _hp : path.contains r = true then ""
    else
      match _hr : h.get? r with
      | some (.plain _) => "[object Object]"
      | some (.function f _) => "function " ++ f.name ++ "() \x7b [native code] \x7d"
      | some (.error name message) => errorText name message
      | some (.list items) => String.intercalate "," (displayItems h (r :: path) items.toList)
      | none => ""
termination_by (h.unseen path, 0)
decreasing_by
  exact Prod.Lex.left _ _ (unseen_cons_lt (lt_size_of_get? _hr) (by simpa using _hp))

def displayItems (h : Heap) (path : List Ref) : List Value → List String
  | [] => []
  | v :: vs => (if v.isNullish then "" else displayAt h path v) :: displayItems h path vs
termination_by vs => (h.unseen path, vs.length + 1)
decreasing_by
  all_goals exact Prod.Lex.right _ (by simp)

end

def display (h : Heap) (v : Value) : String :=
  h.displayAt [] v

def toNumber (h : Heap) : Value → Float
  | .undefined => Number.nan
  | .null => 0
  | .bool b => if b then 1 else 0
  | .number x => x
  | .text s => Number.ofText s
  | .object r => Number.ofText (h.display (.object r))

def isFunction (h : Heap) : Value → Bool
  | .object r =>
    match h.get? r with
    | some (.function ..) => true
    | _ => false
  | _ => false

def typeOf (h : Heap) (v : Value) : String :=
  match v with
  | .undefined => "undefined"
  | .null => "object"
  | .bool _ => "boolean"
  | .number _ => "number"
  | .text _ => "string"
  | .object _ => if h.isFunction v then "function" else "object"

end Heap

namespace Value

def truthy : Value → Bool
  | undefined => false
  | null => false
  | bool b => b
  | number x => !(x == 0) && !x.isNaN
  | text s => !s.isEmpty
  | object _ => true

/-- Same kind and same value; a number that is not a number differs from itself. -/
def strictEq : Value → Value → Bool
  | undefined, undefined => true
  | null, null => true
  | bool a, bool b => a == b
  | number x, number y => x == y
  | text a, text b => a == b
  | object a, object b => a == b
  | _, _ => false

end Value

namespace Heap

/-- An object as its text, any other value as it is. -/
def primitive (h : Heap) : Value → Value
  | .object r => .text (h.display (.object r))
  | v => v

/-- Equality of values that are not objects: texts as texts, all others as numbers. -/
def primitiveEq (h : Heap) : Value → Value → Bool
  | .text a, .text b => a == b
  | a, b => h.toNumber a == h.toNumber b

/-- Equality after conversion: `undefined` and `null` equal only each other, objects only themselves, and an object
beside another value counts as its text. -/
def looseEq (h : Heap) (a b : Value) : Bool :=
  if a.isNullish || b.isNullish then a.isNullish && b.isNullish
  else
    match a, b with
    | .object r, .object s => r == s
    | a, b => h.primitiveEq (h.primitive a) (h.primitive b)

end Heap

end ScriptRepl
