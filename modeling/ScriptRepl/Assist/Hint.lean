import ScriptRepl.Realm.Builtin
import ScriptRepl.Text.Blank

/-! Hints for open calls: the parameters that have no argument yet. -/
namespace ScriptRepl.Assist

open Text (isBlank)

def joinParams (ps : List Param) : String :=
  String.intercalate ", " (ps.map Param.text)

/-- Whether the last character that is not blank is a comma. -/
def endsWithComma (cs : List Char) : Bool :=
  (cs.reverse.dropWhile isBlank).head? = some ','

/-- What is missing from a call with `supplied` arguments; `source` is the text up to the cursor. Full calls miss
their parenthesis, or further values if the last parameter takes any number of them. -/
def callHint (f : Builtin) (supplied : Nat) (source : String) : String :=
  let ps := f.signature
  if ps.length ≤ supplied then
    match ps.getLast? with
    | some (.rest name) => ", " ++ (Param.rest name).text
    | _ => ")"
  else
    let missing := joinParams (ps.drop supplied)
    let cs := source.toList
    if supplied = 0 then missing
    else if endsWithComma cs then if cs.getLast? = some ',' then " " ++ missing else missing
    else ", " ++ missing

end ScriptRepl.Assist
