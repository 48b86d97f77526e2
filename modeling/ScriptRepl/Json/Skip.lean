import ScriptRepl.Json.Reader

/-! Passing over a JSON value that nobody asks for. It may be nested to any depth; of its texts and numbers only the
form is checked. -/
namespace ScriptRepl.Json.Reader

open Text (Cursor)

/-- Passes over an escape, from the character after the backslash on. -/
def skipEscape (place : Cursor) : Except Fault Cursor :=
  match place.next? with
  | none => failAt place.offset .endInText
  | some (c, after) =>
    if c = 'u' then (hexUnit after).map Prod.snd
    else if (simpleEscape? c).isSome then .ok after
    else failAt (place.offset + 1) .invalidEscape

/-- Passes over the characters up to the closing quote and over the quote; `fuel` bounds their number. -/
def skipTextTail : (fuel : Nat) → Cursor → Except Fault Cursor
  | 0, place => failAt place.offset .endInText
  | fuel + 1, place =>
    match place.next? with
    | none => failAt place.offset .endInText
    | some (c, after) =>
      if c = '"' then .ok after
      else if c = '\\' then do skipTextTail fuel (← skipEscape after)
      else if c.toNat < 0x20 then failAt place.offset .controlCharacter
      else skipTextTail fuel after

/-- Passes over a text whose opening quote is the next character. -/
def skipText : Reader Unit := do
  advance 1
  let place ← get
  set (← skipTextTail (place.rest.length + 1) place)

/-- Passes over digits, of which there must be one. -/
def skipDigits : Reader Unit := do
  if (← takeDigits).isEmpty then failNext .invalidNumber

def skipExponent : Reader Unit := do
  match ← peek with
  | some 'e' | some 'E' => do
    advance 1
    match ← peek with
    | some '+' | some '-' => advance 1
    | _ => pure ()
    skipDigits
  | _ => pure ()

/-- Passes over a number whose sign or first digit is the next character. -/
def skipNumber : Reader Unit := do
  if (← peek) = some '-' then advance 1
  if (← peek) = some '0' then
    advance 1
    if (← peek).any Number.isDigit then failNext .invalidNumber
  else skipDigits
  if (← peek) = some '.' then
    advance 1
    skipDigits
  skipExponent

/-- Passes over the items of a list and its end; `fuel` bounds their number. -/
def skipItems (item : Reader Unit) : (fuel : Nat) → (first : Bool) → Reader Unit
  | 0, _ => failNext .endInList
  | fuel + 1, first => do
    match ← peekPastSpace with
    | none => failNext .endInList
    | some ']' => advance 1
    | some c =>
      if !first then
        if c = ',' then advance 1 else failNext .expectedListEnd
      item
      skipItems item fuel false

def skipField (value : Reader Unit) : Reader Unit := do
  match ← peekPastSpace with
  | some '"' => skipText
  | some _ => failNext .keyNotText
  | none => failNext .endInObject
  colon
  value

/-- Passes over the fields of an object and its end; `fuel` bounds their number. -/
def skipFields (value : Reader Unit) : (fuel : Nat) → (first : Bool) → Reader Unit
  | 0, _ => failNext .endInObject
  | fuel + 1, first => do
    match ← peekPastSpace with
    | none => failNext .endInObject
    | some '\x7d' => advance 1
    | some c =>
      if !first then
        if c = ',' then advance 1 else failNext .expectedObjectEnd
      skipField value
      skipFields value fuel false

/-- Passes over a value in which lists and objects are nested less than `fuel` deep. -/
def skipValue : (fuel : Nat) → Reader Unit
  | 0 => failNext .expectedValue
  | fuel + 1 => do
    match ← peekPastSpace with
    | none => failNext .endInValue
    | some 'n' => literal () "ull"
    | some 't' => literal () "rue"
    | some 'f' => literal () "alse"
    | some '"' => skipText
    | some '[' => do
      advance 1
      skipItems (skipValue fuel) (← remaining) true
    | some '\x7b' => do
      advance 1
      skipFields (skipValue fuel) (← remaining) true
    | some c => if c = '-' || Number.isDigit c then skipNumber else failNext .expectedValue

def skip : Reader Unit := do
  skipValue (← remaining)

end ScriptRepl.Json.Reader
