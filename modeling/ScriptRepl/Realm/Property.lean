import ScriptRepl.Realm.Basic

/-! Reading and writing properties of values. -/
namespace ScriptRepl

open Eval

/-- A method as a new function that remembers its receiver. -/
def method (self : Value) : Option Builtin → Eval Value
  | some f => alloc (.function f (some self))
  | none => return .undefined

/-- UTF-16 units of the characters. -/
def unitsOf : List Char → Nat
  | [] => 0
  | c :: cs => (if c.toNat < 0x10000 then 1 else 2) + unitsOf cs

def units (s : String) : Nat :=
  unitsOf s.toList

def natValue (n : Nat) : Value :=
  .number (Number.ofNat n)

/-- What a property read gives without running anything: a stored value, or a method to be bound to its receiver. -/
inductive Found where
  | stored (v : Value)
  | method (f : Option Builtin)

def objectProperty (o : Obj) (key : String) : Found :=
  match o with
  | .plain fields =>
    match fields.get? key with
    | some v => .stored v
    | none => .method (Builtin.commonMethods.lookup key)
  | .list items =>
    if key = "length" then .stored (natValue items.size)
    else
      match index? key with
      | some n => .stored (items[n]?.getD .undefined)
      | none => .method (Builtin.listMethods.lookup key)
  | .function f _ =>
    if key = "name" then .stored (.text f.name)
    else if key = "length" then .stored (natValue f.arity)
    else .method (Builtin.commonMethods.lookup key)
  | .error name message =>
    if key = "name" then .stored (.text name)
    else if key = "message" then .stored (.text message)
    else .method (Builtin.commonMethods.lookup key)

def textProperty (s : String) (key : String) : Found :=
  if key = "length" then .stored (natValue (units s))
  else
    match index? key with
    | some n =>
      match s.toList[n]? with
      | some c => .stored (.text c.toString)
      | none => .stored .undefined
    | none => .method (Builtin.textMethods.lookup key)

/-- The property of a value; `undefined` and `null` have none. -/
def Heap.property? (h : Heap) (target : Value) (key : String) : Option Found :=
  match target with
  | .undefined => none
  | .null => none
  | .text s => some (textProperty s key)
  | .number _ => some (.method (Builtin.numberMethods.lookup key))
  | .bool _ => some (.method (Builtin.commonMethods.lookup key))
  | .object r => some (objectProperty ((h.get? r).getD (.plain {})) key)

def getProperty (target : Value) (key : String) : Eval Value := do
  match (← heap).property? target key with
  | some (.stored v) => return v
  | some (.method f) => method target f
  | none =>
    let shown ← display target
    raise "TypeError" ("Cannot read properties of " ++ shown ++ " (reading '" ++ key ++ "')")

/-- The length that a value sets for a list. -/
def lengthOf : Value → Nat
  | .number x => if Number.isFinite x then Number.toNatUpTo (Number.twoTo 64 - 1) x else 0
  | _ => 0

/-- The object after a write; nothing if a list would become too long. Functions, and errors but for their message,
do not change. -/
def Obj.write? (o : Obj) (key : String) (v : Value) : Option Obj :=
  match o with
  | .plain fields => some (.plain (fields.insert key v))
  | .list items =>
    if key = "length" then
      let n := lengthOf v
      if items.size < n ∧ maxListLength < n then none else some (.list (resize items n))
    else
      match index? key with
      | none => some o
      | some n =>
        if n < items.size then some (.list (items.setIfInBounds n v))
        else if maxListLength < n + 1 then none
        else some (.list ((resize items n).push v))
  | .error name _ =>
    if key = "message" then
      match v with
      | .text s => some (.error name s)
      | _ => some (.error name "")
    else some o
  | .function .. => some o

/-- Writes to a value that is no object are dropped. -/
def setProperty (target : Value) (key : String) (v : Value) : Eval Unit := do
  match target with
  | .object r =>
    let h ← heap
    match h.get? r with
    | none => return ()
    | some o =>
      match o.write? key v with
      | some o => setHeap (h.set r o)
      | none => throw .fault
  | .undefined | .null =>
    let shown ← display target
    raise "TypeError" ("Cannot set properties of " ++ shown ++ " (setting '" ++ key ++ "')")
  | _ => return ()

/-- The names that can be read on a value, in the order in which they are listed, and whether it owns them. -/
def Heap.propertyNames (h : Heap) (v : Value) : List (String × Bool) :=
  let own (names : List String) := names.map fun name => (name, true)
  let methods (table : List (String × Builtin)) := table.map fun m => (m.1, false)
  match v with
  | .undefined => []
  | .null => []
  | .bool _ => methods Builtin.commonMethods
  | .number _ => methods Builtin.numberMethods
  | .text _ => own ["length"] ++ methods Builtin.textMethods
  | .object r =>
    match (h.get? r).getD (.plain {}) with
    | .plain fields => own fields.keys ++ methods Builtin.commonMethods
    | .list items =>
      own ((List.range items.size).map toString) ++ own ["length"] ++ methods Builtin.listMethods
    | .function .. => own ["name", "length"] ++ methods Builtin.commonMethods
    | .error .. => own ["message"] ++ [("name", false)] ++ methods Builtin.commonMethods

end ScriptRepl
