/-! The native functions: their names, their parameters, whether a call can be observed afterwards, and the tables
of methods of texts, lists, numbers and all other values. -/
namespace ScriptRepl

inductive MathOp where
  | abs | floor | ceil | round | trunc | sign | sqrt
  deriving DecidableEq, Repr

inductive TextOp where
  | toUpperCase | toLowerCase | trim | includes | startsWith | endsWith | slice | split | repeated | indexOf | charAt
  deriving DecidableEq, Repr

inductive ListOp where
  | join | includes | indexOf | slice | concat | reverse | push | pop
  deriving DecidableEq, Repr

/-- What `Object.keys` and its kin list of a field. -/
inductive FieldPart where
  | keys | values | entries
  deriving DecidableEq, Repr

inductive Builtin where
  | math (op : MathOp)
  | mathMax
  | mathMin
  | mathPow
  | mathRandom
  | jsonStringify
  | jsonParse
  | fields (part : FieldPart)
  | isArray
  | toText
  | toNumber
  | toBoolean
  | consoleLog
  | consoleError
  | parseInt
  | parseFloat
  | isNaN
  | isFinite
  | toString
  | toFixed
  | text (op : TextOp)
  | list (op : ListOp)
  deriving DecidableEq, Repr

inductive Param where
  | required (name : String)
  | optional (name : String)
  | rest (name : String)
  deriving DecidableEq, Repr

def Param.text : Param → String
  | required name => name
  | optional name => "?" ++ name
  | rest name => "..." ++ name

namespace Builtin

def mathName : MathOp → String
  | .abs => "abs"
  | .floor => "floor"
  | .ceil => "ceil"
  | .round => "round"
  | .trunc => "trunc"
  | .sign => "sign"
  | .sqrt => "sqrt"

def textName : TextOp → String
  | .toUpperCase => "toUpperCase"
  | .toLowerCase => "toLowerCase"
  | .trim => "trim"
  | .includes => "includes"
  | .startsWith => "startsWith"
  | .endsWith => "endsWith"
  | .slice => "slice"
  | .split => "split"
  | .repeated => "repeat"
  | .indexOf => "indexOf"
  | .charAt => "charAt"

def listName : ListOp → String
  | .join => "join"
  | .includes => "includes"
  | .indexOf => "indexOf"
  | .slice => "slice"
  | .concat => "concat"
  | .reverse => "reverse"
  | .push => "push"
  | .pop => "pop"

def name : Builtin → String
  | math op => mathName op
  | mathMax => "max"
  | mathMin => "min"
  | mathPow => "pow"
  | mathRandom => "random"
  | jsonStringify => "stringify"
  | jsonParse => "parse"
  | fields .keys => "keys"
  | fields .values => "values"
  | fields .entries => "entries"
  | isArray => "isArray"
  | toText => "String"
  | toNumber => "Number"
  | toBoolean => "Boolean"
  | consoleLog => "log"
  | consoleError => "error"
  | parseInt => "parseInt"
  | parseFloat => "parseFloat"
  | isNaN => "isNaN"
  | isFinite => "isFinite"
  | toString => "toString"
  | toFixed => "toFixed"
  | text op => textName op
  | list op => listName op

open Param in
def signature : Builtin → List Param
  | math _ => [required "x"]
  | mathMax => [rest "values"]
  | mathMin => [rest "values"]
  | mathPow => [required "base", required "exponent"]
  | mathRandom => []
  | jsonStringify => [required "value", optional "replacer", optional "space"]
  | jsonParse => [required "text"]
  | fields _ => [required "o"]
  | isArray => [required "arg"]
  | toText => [optional "value"]
  | toNumber => [optional "value"]
  | toBoolean => [optional "value"]
  | consoleLog => [rest "data"]
  | consoleError => [rest "data"]
  | parseInt => [required "string", optional "radix"]
  | parseFloat => [required "string"]
  | isNaN => [required "number"]
  | isFinite => [required "number"]
  | toString => [optional "radix"]
  | toFixed => [optional "fractionDigits"]
  | text op =>
    match op with
    | .toUpperCase | .toLowerCase | .trim => []
    | .includes | .startsWith | .indexOf => [required "searchString", optional "position"]
    | .endsWith => [required "searchString", optional "endPosition"]
    | .slice => [optional "start", optional "end"]
    | .split => [required "separator", optional "limit"]
    | .repeated => [required "count"]
    | .charAt => [required "pos"]
  | list op =>
    match op with
    | .join => [optional "separator"]
    | .includes | .indexOf => [required "searchElement", optional "fromIndex"]
    | .slice => [optional "start", optional "end"]
    | .concat | .push => [rest "items"]
    | .reverse | .pop => []

def arity (b : Builtin) : Nat :=
  b.signature.countP fun p => p matches .required _

/-- Whether a call prints, changes its receiver or draws a random number. -/
def hasSideEffect : Builtin → Bool
  | consoleLog | consoleError | mathRandom => true
  | list .reverse | list .push | list .pop => true
  | _ => false

/-! ### Methods -/

def textMethods : List (String × Builtin) :=
  [.toUpperCase, .toLowerCase, .trim, .includes, .startsWith, .endsWith, .slice, .split, .repeated, .indexOf,
   .charAt].map (fun op => (textName op, text op)) ++ [("toString", toString)]

def listMethods : List (String × Builtin) :=
  [.join, .includes, .indexOf, .slice, .concat, .reverse, .push, .pop].map (fun op => (listName op, list op)) ++
    [("toString", toString)]

def numberMethods : List (String × Builtin) :=
  [("toFixed", toFixed), ("toString", toString)]

def commonMethods : List (String × Builtin) :=
  [("toString", toString)]

end Builtin

end ScriptRepl
