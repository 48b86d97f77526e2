import ScriptRepl.Realm.Conversion
import ScriptRepl.Text.Letter
import ScriptRepl.Text.Style

/-! Values as a reader wants to see them: texts quoted, lists and objects with their contents to a depth of three,
broken into lines where they are long. -/
namespace ScriptRepl

inductive ValueKind where
  | undefined | null | boolean | number | string | array | object | function | error
  deriving DecidableEq, Repr

structure InspectStyle where
  colors : Bool := false
  compact : Bool := false
  deriving DecidableEq, Repr

namespace Inspection

open Text (Color)

/-- Lists and objects below this depth are only named. -/
def maxDepth : Nat := 2

/-- Items of a list that are shown. -/
def maxItems : Nat := 100

/-- Columns that a list or object may take in one line. -/
def lineLength : Nat := 72

def hexPadded (n : Nat) : List Char :=
  let digits := Number.radixDigits 16 n
  List.replicate (4 - digits.length) '0' ++ digits

def quotedChar (c : Char) : List Char :=
  match c with
  | '\'' => ['\\', '\'']
  | '\\' => ['\\', '\\']
  | '\n' => ['\\', 'n']
  | '\t' => ['\\', 't']
  | '\r' => ['\\', 'r']
  | '\x08' => ['\\', 'b']
  | '\x0c' => ['\\', 'f']
  | c => if c.toNat < 0x20 then '\\' :: 'u' :: hexPadded c.toNat else [c]

def quote (s : String) : String :=
  String.ofList ('\'' :: s.toList.flatMap quotedChar ++ ['\''])

/-- Characters that show; an escape character hides all up to the next ASCII letter. -/
def visibleLength : (hidden : Bool) → List Char → Nat
  | _, [] => 0
  | true, c :: cs => visibleLength (!c.isAlpha) cs
  | false, c :: cs => if c = '\x1b' then visibleLength true cs else visibleLength false cs + 1

inductive Tint where
  | number | text | boolean | undefined | null | special

def Tint.paint : Tint → String → String
  | .number => Text.Style.paint .darkBlue
  | .text => Text.Style.paint .darkGreen
  | .boolean => Text.Style.paint .darkYellow
  | .undefined => Text.Style.paint .darkGrey
  | .null => Text.Style.bold
  | .special => Text.Style.paint .darkCyan

def tinted (style : InspectStyle) (tint : Tint) (text : String) : String :=
  if style.colors then tint.paint text else text

def indentation (n : Nat) : String :=
  String.join (List.replicate n "  ")

/-- Entries between brackets: in one line if that is asked for or all fit, else one entry per line. -/
def layout (style : InspectStyle) (opening closing : String) (entries : List String) (depth : Nat) : String :=
  let broken := entries.any fun e => e.toList.contains '\n'
  let total := entries.foldl (fun n e => n + visibleLength false e.toList + 2) 2
  if style.compact || (!broken && total + depth * 2 ≤ lineLength) then
    opening ++ " " ++ String.intercalate ", " entries ++ " " ++ closing
  else
    let lines := entries.map fun e => indentation (depth + 1) ++ e
    opening ++ "\n" ++ String.intercalate ",\n" lines ++ "\n" ++ indentation depth ++ closing

def key (style : InspectStyle) (k : String) : String :=
  if Text.isName k then k else tinted style .text (quote k)

/-- The note in place of the items that are left out. -/
def moreItems (n : Nat) : List String :=
  if n = 0 then []
  else ["... " ++ toString n ++ " more item" ++ (if n = 1 then "" else "s")]

section

variable (h : Heap) (style : InspectStyle)

/-- A value that lies `depth` levels inside the one that is shown, by way of the objects in `path`; `room` is the
number of levels that are still opened. -/
def valueAt (room depth : Nat) (path : List Ref) (v : Value) : String :=
  match v with
  | .undefined => tinted style .undefined "undefined"
  | .null => tinted style .null "null"
  | .bool b => tinted style .boolean (if b then "true" else "false")
  | .number x => tinted style .number (Number.spell x)
  | .text s => tinted style .text (quote s)
  | .object r =>
    if path.contains r then tinted style .special "[Circular]"
    else
      match h.get? r with
      | some (.function f _) => tinted style .special ("[Function: " ++ f.name ++ "]")
      | some (.error name message) =>
        let text := errorText name message
        if depth = 0 then text else "[" ++ text ++ "]"
      | some (.list items) =>
        if items.isEmpty then "[]"
        else
          match room with
          | 0 => tinted style .special "[Array]"
          | room + 1 =>
            let shown := (items.toList.take maxItems).map (valueAt room (depth + 1) (r :: path))
            layout style "[" "]" (shown ++ moreItems (items.size - maxItems)) depth
      | some (.plain fields) =>
        if fields.isEmpty then "\x7b\x7d"
        else
          match room with
          | 0 => tinted style .special "[Object]"
          | room + 1 =>
            let shown := fields.entries.map fun (k, v) =>
              key style k ++ ": " ++ valueAt room (depth + 1) (r :: path) v
            layout style "\x7b" "\x7d" shown depth
      | none => ""

end

end Inspection

namespace Heap

def inspect (h : Heap) (style : InspectStyle) (v : Value) : String :=
  Inspection.valueAt h style (Inspection.maxDepth + 1) 0 [] v

def kindOf (h : Heap) : Value → ValueKind
  | .undefined => .undefined
  | .null => .null
  | .bool _ => .boolean
  | .number _ => .number
  | .text _ => .string
  | .object r =>
    match h.get? r with
    | some (.list _) => .array
    | some (.function ..) => .function
    | some (.error ..) => .error
    | _ => .object

def describe (h : Heap) (v : Value) : String :=
  match v with
  | .object r =>
    match h.get? r with
    | some (.list items) => "Array(" ++ toString items.size ++ ")"
    | some (.function f _) => "[Function: " ++ f.name ++ "]"
    | some (.error name message) => errorText name message
    | _ => "Object"
  | v => h.display v

end Heap

end ScriptRepl
