import ScriptRepl.Realm.Basic

/-! The names that every realm starts with. -/
namespace ScriptRepl

namespace Realm

def define (realm : Realm) (name : String) (v : Value) : Realm :=
  { realm with globals := realm.globals.insert name ⟨v, .varKind⟩ }

/-- A new function without a receiver. -/
def addFunction (realm : Realm) (f : Builtin) : Value × Realm :=
  let (v, h) := realm.heap.alloc (.function f none)
  (v, { realm with heap := h })

def addFunctions (realm : Realm) : List Builtin → List (String × Value) × Realm
  | [] => ([], realm)
  | f :: fs =>
    let (v, realm) := realm.addFunction f
    let (es, realm) := realm.addFunctions fs
    ((f.name, v) :: es, realm)

def defineNamespace (realm : Realm) (name : String) (fs : List Builtin) (constants : List (String × Value)) : Realm :=
  let (es, realm) := realm.addFunctions fs
  let (v, h) := realm.heap.alloc (.plain (Dict.ofList (es ++ constants)))
  { realm with heap := h }.define name v

def defineFunction (realm : Realm) (f : Builtin) : Realm :=
  let (v, realm) := realm.addFunction f
  realm.define f.name v

def pi : Float := Float.ofBits 0x400921fb54442d18

def e : Float := Float.ofBits 0x4005bf0a8b145769

def mathFunctions : List Builtin :=
  [.math .abs, .math .floor, .math .ceil, .math .round, .math .trunc, .math .sign, .mathMax, .mathMin, .mathPow,
   .math .sqrt, .mathRandom]

def fresh (seed : UInt64) : Realm :=
  let realm : Realm := { random := seed }
  let realm := realm.defineNamespace "Math" mathFunctions [("PI", .number pi), ("E", .number e)]
  let realm := realm.defineNamespace "JSON" [.jsonStringify, .jsonParse] []
  let realm := realm.defineNamespace "Object" [.fields .keys, .fields .values, .fields .entries] []
  let realm := realm.defineNamespace "Array" [.isArray] []
  let realm := realm.defineNamespace "console" [.consoleLog, .consoleError] []
  let functions : List Builtin := [.toText, .toNumber, .toBoolean, .parseInt, .parseFloat, .isNaN, .isFinite]
  let realm := functions.foldl defineFunction realm
  (realm.define "NaN" (.number Number.nan)).define "Infinity" (.number Number.infinity)

end Realm

end ScriptRepl
