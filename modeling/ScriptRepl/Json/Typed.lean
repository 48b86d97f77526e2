import ScriptRepl.Json.Reader

/-! Reading a JSON value of which the type is known. A value of another type is named in the fault. -/
namespace ScriptRepl.Json.Reader

/-- Reads the value that is there and says that something else was expected. Of a list or an object only the first
character is looked at. -/
def wrongType (expected : String) : Reader α := do
  match ← peek with
  | some 'n' => do literal () "ull"; failHere (.wrongType .null expected)
  | some 't' => do literal () "rue"; failHere (.wrongType (.bool true) expected)
  | some 'f' => do literal () "alse"; failHere (.wrongType (.bool false) expected)
  | some '"' => do failHere (.wrongType (.text (← text)) expected)
  | some '[' => failHere (.wrongType .sequence expected)
  | some '\x7b' => failHere (.wrongType .map expected)
  | some c =>
    if c = '-' || Number.isDigit c then do failHere (.wrongType (.number (← number)) expected)
    else failNext .expectedValue
  | none => failNext .expectedValue

/-- The first character of a value, which tells its type. -/
def firstOfValue : Reader Char := do
  match ← peekPastSpace with
  | some c => return c
  | none => failNext .endInValue

def typedText (expected : String) : Reader String := do
  match ← firstOfValue with
  | '"' => text
  | _ => wrongType expected

def typedBool (expected : String) : Reader Bool := do
  match ← firstOfValue with
  | 't' => literal true "rue"
  | 'f' => literal false "alse"
  | _ => wrongType expected

/-- A whole number that is not negative and has at most 64 bits. -/
def typedNat (expected : String) : Reader Nat := do
  let c ← firstOfValue
  if c = '-' || Number.isDigit c then
    match ← number with
    | .whole n => if 0 ≤ n then return n.toNat else failHere (.wrongValue (.number (.whole n)) expected)
    | .real x => failHere (.wrongType (.number (.real x)) expected)
  else wrongType expected

def nullable (value : Reader α) : Reader (Option α) := do
  match ← peekPastSpace with
  | some 'n' => literal none "ull"
  | _ => return some (← value)

end ScriptRepl.Json.Reader
