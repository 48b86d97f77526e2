import ScriptRepl.Json.Basic

/-! JSON values as text: without blanks, or one item per line behind an indentation. -/
namespace ScriptRepl.Json

def hexDigit (n : Nat) : Char :=
  Number.digitChar (n % 16)

def escapedChar (c : Char) : List Char :=
  match c with
  | '"' => ['\\', '"']
  | '\\' => ['\\', '\\']
  | '\n' => ['\\', 'n']
  | '\r' => ['\\', 'r']
  | '\t' => ['\\', 't']
  | '\x08' => ['\\', 'b']
  | '\x0c' => ['\\', 'f']
  | c => if c.toNat < 0x20 then ['\\', 'u', '0', '0', hexDigit (c.toNat / 16), hexDigit c.toNat] else [c]

def quote (s : String) : String :=
  String.ofList ('"' :: s.toList.flatMap escapedChar ++ ['"'])

/-- What stands around and between the items of a list or object at a level of nesting. -/
structure Layout where
  first : String
  between : String
  last : String
  colon : String

/-- An empty indentation stands for no blanks at all. -/
def Layout.at (indent : String) (level : Nat) : Layout :=
  if indent.isEmpty then ⟨"", ",", "", ":"⟩
  else
    let line (n : Nat) := "\n" ++ String.join (List.replicate n indent)
    ⟨line (level + 1), "," ++ line (level + 1), line level, ": "⟩

mutual

def renderAt (indent : String) (level : Nat) : Json → String
  | .null => "null"
  | .bool b => if b then "true" else "false"
  | .number n => n.spell
  | .text s => quote s
  | .array [] => "[]"
  | .array (item :: items) =>
    let layout := Layout.at indent level
    "[" ++ layout.first ++ renderAt indent (level + 1) item ++ renderItems indent (level + 1) layout.between items ++
      layout.last ++ "]"
  | .object [] => "\x7b\x7d"
  | .object ((key, value) :: fields) =>
    let layout := Layout.at indent level
    "\x7b" ++ layout.first ++ quote key ++ layout.colon ++ renderAt indent (level + 1) value ++
      renderFields indent (level + 1) layout fields ++ layout.last ++ "\x7d"

def renderItems (indent : String) (level : Nat) (between : String) : List Json → String
  | [] => ""
  | item :: items => between ++ renderAt indent level item ++ renderItems indent level between items

def renderFields (indent : String) (level : Nat) (layout : Layout) : List (String × Json) → String
  | [] => ""
  | (key, value) :: fields =>
    layout.between ++ quote key ++ layout.colon ++ renderAt indent level value ++
      renderFields indent level layout fields

end

def render (indent : String) (json : Json) : String :=
  renderAt indent 0 json

end ScriptRepl.Json
