import ScriptRepl.Realm.Inspection
import ScriptRepl.Realm.JsonValue
import ScriptRepl.Realm.ListMethod
import ScriptRepl.Realm.Property

/-! Calls of native functions. -/
namespace ScriptRepl

open Eval

namespace Native

def math (op : MathOp) (x : Float) : Float :=
  match op with
  | .abs => x.abs
  | .floor => Number.floor x
  | .ceil => Number.ceil x
  | .trunc => Number.truncate x
  | .sqrt => x.sqrt
  | .round => Number.floor (x + 0.5)
  | .sign => if x.isNaN || x == 0 then x else if x < 0 then -1 else 1

/-- The extreme of numbers by `better`, not a number if one of them is not. -/
def extreme (better : Float → Float → Bool) (start : Float) : List Float → Float
  | [] => start
  | x :: xs => if x.isNaN then Number.nan else extreme better (if better x start then x else start) xs

/-- The next state of the random numbers. -/
def scramble (x : UInt64) : UInt64 :=
  let x := x ^^^ (x >>> 12)
  let x := x ^^^ (x <<< 25)
  x ^^^ (x >>> 27)

/-- The number from 0 up to 1 that a state stands for. -/
def unitNumber (x : UInt64) : Float :=
  Number.nearest false ((x * 0x2545f4914f6cdd1d) >>> 11).toNat (Number.twoTo 53)

def random : Eval Value := do
  let x := scramble (← get).realm.random
  modify fun run => { run with realm := { run.realm with random := x } }
  return .number (unitNumber x)

/-- The blanks per level that the third argument of `stringify` asks for. -/
def indent : Value → String
  | .number x => if x < 1 then "" else String.ofList (List.replicate (Number.toNatUpTo 10 x) ' ')
  | .text s => String.ofList (s.toList.take 10)
  | _ => ""

def stringify (v space : Value) : Eval Value := do
  match (← heap).jsonAt [] v with
  | .error _ => raise "TypeError" "Converting circular structure to JSON"
  | .ok none => return .undefined
  | .ok (some json) => return .text (json.render (indent space))

def parseJson (source : String) : Eval Value := do
  match Json.read source with
  | .error e => raise "SyntaxError" (e.message source)
  | .ok json =>
    let (v, h) := (← heap).ofJson json
    setHeap h
    return v

def ownFields (v : Value) : Eval (List (String × Value)) := do
  let indexed (vs : List Value) := vs.zipIdx.map fun (v, n) => (toString n, v)
  match v with
  | .undefined | .null => raise "TypeError" "Cannot convert undefined or null to object"
  | .text s => return indexed (s.toList.map fun c => .text c.toString)
  | .object r =>
    match (← heap).get? r with
    | some (.plain fields) => return fields.entries
    | some (.list items) => return indexed items.toList
    | _ => return []
  | _ => return []

/-- One item per field; an entry is a list of its own. -/
def fieldItems (part : FieldPart) : List (String × Value) → Eval (List Value)
  | [] => return []
  | (key, v) :: fields => do
    let item ←
      match part with
      | .keys => pure (.text key)
      | .values => pure v
      | .entries => alloc (.list #[.text key, v])
    return item :: (← fieldItems part fields)

def printed (h : Heap) : Value → String
  | .text s => s
  | v => h.inspect {} v

def isList (h : Heap) : Value → Bool
  | .object r =>
    match h.get? r with
    | some (.list _) => true
    | _ => false
  | _ => false

/-- The unsigned number of 32 bits that a radix argument gives. -/
def radixOf (x : Float) : Nat :=
  Number.toNatUpTo (Number.twoTo 32 - 1) x

def textOf (self radix : Value) : Eval Value := do
  match self with
  | .number x =>
    if radix.isNullish then return .text (Number.spell x)
    else
      let n := radixOf (← toNumber radix)
      if n < 2 ∨ 36 < n then raise "RangeError" "toString() radix must be between 2 and 36"
      else return .text (Number.spellInRadix n x)
  | v => return .text (← display v)

def fixedText (self digits : Value) : Eval Value := do
  let x ← toNumber digits
  let x := if x.isNaN then 0 else x
  if x < 0 || 100 < x then raise "RangeError" "toFixed() digits argument must be between 0 and 100"
  else return .text (Number.fixed (Number.toNatUpTo 100 x) (← toNumber self))

end Native

open Native in
/-- Runs a native function with its receiver. -/
def callBuiltin (f : Builtin) (self : Value) (args : List Value) : Eval Value := do
  let first := argument args 0
  match f with
  | .math op => return .number (math op (← toNumber first))
  | .mathMax =>
    let h ← heap
    return .number (extreme (fun x best => best < x) (-Number.infinity) (args.map h.toNumber))
  | .mathMin =>
    let h ← heap
    return .number (extreme (fun x best => x < best) Number.infinity (args.map h.toNumber))
  | .mathPow => return .number (Float.pow (← toNumber first) (← toNumber (argument args 1)))
  | .mathRandom => random
  | .jsonStringify => stringify first (argument args 2)
  | .jsonParse => parseJson (← display first)
  | .fields part =>
    let items ← fieldItems part (← ownFields first)
    alloc (.list items.toArray)
  | .isArray => return .bool (isList (← heap) first)
  | .toText =>
    match args with
    | [] => return .text ""
    | v :: _ => return .text (← display v)
  | .toNumber =>
    match args with
    | [] => return .number 0
    | v :: _ => return .number (← toNumber v)
  | .toBoolean => return .bool first.truthy
  | .consoleLog | .consoleError =>
    let h ← heap
    print (String.intercalate " " (args.map (printed h)))
    return .undefined
  | .parseInt =>
    let source ← display first
    let radix ← toNumber (argument args 1)
    return .number (Number.ofRadixStart source (radixOf radix))
  | .parseFloat => return .number (Number.ofDecimalStart (← display first))
  | .isNaN => return .bool (← toNumber first).isNaN
  | .isFinite => return .bool (Number.isFinite (← toNumber first))
  | .toString => textOf self first
  | .toFixed => fixedText self first
  | .text op => callTextMethod op (← display self) args
  | .list op =>
    match self with
    | .object r =>
      match (← heap).get? r with
      | some (.list items) => callListMethod op r items args
      | _ => raise "TypeError" (f.name ++ " called on a non-array receiver")
    | _ => raise "TypeError" "receiver is not an array"

/-- Calls a value at a depth; `shown` describes it if it is no function. -/
def callValue (speculative : Bool) (depth : Nat) (function : Value) (args : List Value) (shown : String) :
    Eval Value := do
  match (← heap).object? function with
  | some (.function f self) =>
    guardEffect (speculative && f.hasSideEffect)
    guardDepth depth
    callBuiltin f (self.getD .undefined) args
  | _ => raise "TypeError" (shown ++ " is not a function")

end ScriptRepl
