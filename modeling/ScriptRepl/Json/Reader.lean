import ScriptRepl.Json.Basic
import ScriptRepl.Number.Numeral

/-! Reading JSON. A reader moves a cursor over the text and either gives a value or says what is wrong and where:
at the cursor, or one byte further on where the fault is the next character. -/
namespace ScriptRepl.Json

open Text (Cursor)

abbrev Reader (α : Type) := StateT Cursor (Except Fault) α

namespace Reader

def failAt (offset : Nat) (cause : Cause) : Except Fault α :=
  .error ⟨cause, offset⟩

def failHere (cause : Cause) : Reader α := do
  throw ⟨cause, (← get).offset⟩

/-- The fault is the next character, or the end of the text. -/
def failNext (cause : Cause) : Reader α := do
  let c ← get
  throw ⟨cause, if c.rest.isEmpty then c.offset else c.offset + 1⟩

def peek : Reader (Option Char) :=
  return (← get).peek?

def advance (n : Nat) : Reader Unit :=
  modify (·.skip n)

def isSpace (c : Char) : Bool :=
  c == ' ' || c == '\n' || c == '\t' || c == '\r'

/-- Passes over blanks and looks at what follows. -/
def peekPastSpace : Reader (Option Char) := do
  modify (·.skipWhile isSpace)
  peek

def expect : List Char → Reader Unit
  | [] => pure ()
  | c :: cs => do
    match ← peek with
    | none => failHere .endInValue
    | some d => if d = c then do advance 1; expect cs else failNext .expectedLiteral

/-- A literal whose first character has been seen. -/
def literal (value : α) (tail : String) : Reader α := do
  advance 1
  expect tail.toList
  return value

/-! ### Texts -/

def hexValue? (cs : List Char) : Option Nat :=
  cs.foldl (fun n? c => n?.bind fun n => (Number.digitValue? 16 c).map (16 * n + ·)) (some 0)

/-- The unit that four hexadecimal digits stand for. -/
def hexUnit (place : Cursor) : Except Fault (Nat × Cursor) :=
  let digits := place.rest.take 4
  match digits, hexValue? digits with
  | [_, _, _, _], some n => .ok (n, place.skip 4)
  | _, _ =>
    let n := Text.size digits
    if n < 4 then failAt (place.offset + n) .endInText else failAt (place.offset + 4) .invalidEscape

/-- The second half of a pair of units of which the first has been read. -/
def lowSurrogate (high : Nat) (place : Cursor) : Except Fault (Char × Cursor) :=
  match place.rest with
  | [] => failAt place.offset .endInText
  | '\\' :: [] => failAt (place.offset + 1) .endInText
  | '\\' :: 'u' :: _ => do
    let (low, after) ← hexUnit (place.skip 2)
    if 0xdc00 ≤ low && low ≤ 0xdfff then
      return (Char.ofNat ((high - 0xd800) * 0x400 + (low - 0xdc00) + 0x10000), after)
    else failAt after.offset .loneSurrogate
  | '\\' :: _ => failAt (place.offset + 2) .unfinishedSurrogate
  | _ => failAt (place.offset + 1) .unfinishedSurrogate

def unicodeEscape (place : Cursor) : Except Fault (Char × Cursor) := do
  let (n, after) ← hexUnit place
  if 0xdc00 ≤ n && n ≤ 0xdfff then failAt after.offset .loneSurrogate
  else if 0xd800 ≤ n && n ≤ 0xdbff then lowSurrogate n after
  else return (Char.ofNat n, after)

def simpleEscape? : Char → Option Char
  | '"' => some '"'
  | '\\' => some '\\'
  | '/' => some '/'
  | 'b' => some '\x08'
  | 'f' => some '\x0c'
  | 'n' => some '\n'
  | 'r' => some '\r'
  | 't' => some '\t'
  | _ => none

/-- The character that an escape stands for, from the character after the backslash on. -/
def escape (place : Cursor) : Except Fault (Char × Cursor) :=
  match place.next? with
  | none => failAt place.offset .endInText
  | some (c, after) =>
    if c = 'u' then unicodeEscape after
    else
      match simpleEscape? c with
      | some d => .ok (d, after)
      | none => failAt (place.offset + 1) .invalidEscape

/-- The characters up to the closing quote, which is passed over; `fuel` bounds their number. -/
def textTail : (fuel : Nat) → Cursor → Except Fault (List Char × Cursor)
  | 0, place => failAt place.offset .endInText
  | fuel + 1, place =>
    match place.next? with
    | none => failAt place.offset .endInText
    | some (c, after) =>
      if c = '"' then .ok ([], after)
      else if c = '\\' then do
        let (d, after) ← escape after
        let (cs, after) ← textTail fuel after
        return (d :: cs, after)
      else if c.toNat < 0x20 then failAt after.offset .controlCharacter
      else do
        let (cs, after) ← textTail fuel after
        return (c :: cs, after)

/-- A text whose opening quote is the next character. -/
def text : Reader String := do
  advance 1
  let place ← get
  let (cs, after) ← textTail (place.rest.length + 1) place
  set after
  return String.ofList cs

/-! ### Numbers -/

def takeDigits : Reader (List Char) := do
  let digits := (← get).rest.takeWhile Number.isDigit
  advance digits.length
  return digits

def maxWhole : Nat := Number.twoTo 64 - 1

/-- Appends digits as long as the number stays within 64 bits; the digits left over are counted. -/
def appendDigits : (significand : Nat) → List Char → Nat × Nat
  | n, [] => (n, 0)
  | n, c :: cs =>
    let next := 10 * n + (c.toNat - 48)
    if maxWhole < next then (n, cs.length + 1) else appendDigits next cs

/-- Divides by powers of ten until the exponent is within the range of the table of powers. -/
def scaleDown (x : Float) (exponent : Int) : Float :=
  if exponent < -308 then
    if x == 0 then x else scaleDown (x / Number.ofNat (Number.tenTo 308)) (exponent + 308)
  else x / Number.ofNat (Number.tenTo (-exponent).toNat)
termination_by (-exponent).toNat
decreasing_by omega

/-- The number from at most 64 bits of digits by one multiplication or by divisions, each rounded. -/
def scaled (negative : Bool) (significand : Nat) (exponent : Int) : Reader Float := do
  let x := Number.ofNat significand
  let y ←
    if exponent < 0 then pure (scaleDown x exponent)
    else if 308 < exponent then
      if significand = 0 then pure x else failHere .numberOutOfRange
    else
      let y := x * Number.ofNat (Number.tenTo exponent.toNat)
      if Number.isFinite y then pure y else failHere .numberOutOfRange
  return if negative then -y else y

def maxExponent : Nat := Number.twoTo 31 - 1

/-- How many digits of an exponent can be read before it passes 31 bits, and its value if it does not. -/
def readExponent : (value read : Nat) → List Char → Nat × Option Nat
  | value, read, [] => (read, some value)
  | value, read, c :: cs =>
    let next := 10 * value + (c.toNat - 48)
    if maxExponent < next then (read + 1, none) else readExponent next (read + 1) cs

/-- From the exponent mark on. -/
def exponentPart (negative : Bool) (significand : Nat) (exponent : Int) : Reader Float := do
  advance 1
  let below ←
    match ← peek with
    | some '+' => do advance 1; pure false
    | some '-' => do advance 1; pure true
    | _ => pure false
  let digits := (← get).rest.takeWhile Number.isDigit
  if digits.isEmpty then
    match ← peek with
    | none => failHere .endInValue
    | some _ => failNext .invalidNumber
  else
    match readExponent 0 0 digits with
    | (_, some n) => do
      advance digits.length
      scaled negative significand (if below then exponent - n else exponent + n)
    | (read, none) => do
      if significand ≠ 0 ∧ below = false then
        advance read
        failHere .numberOutOfRange
      else
        advance digits.length
        return Number.signed negative 0

/-- After the digits before and behind the point. -/
def afterDigits (negative : Bool) (significand : Nat) (exponent : Int) : Reader Float := do
  match ← peek with
  | some 'e' | some 'E' => exponentPart negative significand exponent
  | _ => scaled negative significand exponent

/-- From the point on. -/
def fractionPart (negative : Bool) (significand : Nat) (exponent : Int) : Reader Float := do
  advance 1
  let digits ← takeDigits
  if digits.isEmpty then
    match ← peek with
    | none => failNext .endInValue
    | some _ => failNext .invalidNumber
  else
    let (significand, left) := appendDigits significand digits
    afterDigits negative significand (exponent - (digits.length - left : Nat))

def numberTail (negative : Bool) (digits : List Char) : Reader Num := do
  let (significand, left) := appendDigits 0 digits
  match ← peek with
  | some '.' => return .real (← fractionPart negative significand left)
  | some 'e' | some 'E' => return .real (← exponentPart negative significand left)
  | _ =>
    if left ≠ 0 then return .real (← scaled negative significand left)
    else if negative = false then return .whole significand
    else if significand = 0 ∨ Number.twoTo 63 < significand then return .real (-(Number.ofNat significand))
    else return .whole (-significand)

/-- A number from its first digit on. -/
def unsignedNumber (negative : Bool) : Reader Num := do
  match ← peek with
  | none => failHere .endInValue
  | some '0' =>
    advance 1
    match ← peek with
    | some c => if Number.isDigit c then failNext .invalidNumber else numberTail negative ['0']
    | none => numberTail negative ['0']
  | some c => if Number.isDigit c then do numberTail negative (← takeDigits) else failNext .invalidNumber

/-- A number whose sign or first digit is the next character. -/
def number : Reader Num := do
  match ← peek with
  | some '-' => advance 1; unsignedNumber true
  | _ => unsignedNumber false

/-! ### Lists and objects -/

/-- Whether another item follows; passes over the comma before it. -/
def nextItem (first : Bool) : Reader Bool := do
  match ← peekPastSpace with
  | none => failNext .endInList
  | some ']' => return false
  | some c =>
    if first then return true
    else if c = ',' then
      advance 1
      match ← peekPastSpace with
      | some ']' => failNext .trailingComma
      | some _ => return true
      | none => failNext .endInValue
    else failNext .expectedListEnd

/-- Whether another key follows; passes over the comma before it. -/
def nextKey (first : Bool) : Reader Bool := do
  match ← peekPastSpace with
  | none => failNext .endInObject
  | some '\x7d' => return false
  | some c =>
    if first then
      if c = '"' then return true else failNext .keyNotText
    else if c = ',' then
      advance 1
      match ← peekPastSpace with
      | some '"' => return true
      | some '\x7d' => failNext .trailingComma
      | some _ => failNext .keyNotText
      | none => failNext .endInValue
    else failNext .expectedObjectEnd

def colon : Reader Unit := do
  match ← peekPastSpace with
  | some ':' => advance 1
  | some _ => failNext .expectedColon
  | none => failNext .endInObject

def endList : Reader Unit := do
  match ← peekPastSpace with
  | some ']' => advance 1
  | some ',' =>
    advance 1
    match ← peekPastSpace with
    | some ']' => failNext .trailingComma
    | _ => failNext .trailingCharacters
  | some _ => failNext .trailingCharacters
  | none => failNext .endInList

def endObject : Reader Unit := do
  match ← peekPastSpace with
  | some '\x7d' => advance 1
  | some ',' => failNext .trailingComma
  | some _ => failNext .trailingCharacters
  | none => failNext .endInObject

/-- The items of a list up to its end; `fuel` bounds their number. -/
def items (item : Reader α) : (fuel : Nat) → (first : Bool) → Reader (List α)
  | 0, _ => failNext .endInList
  | fuel + 1, first => do
    if ← nextItem first then
      let x ← item
      return x :: (← items item fuel false)
    else return []

/-- Reads the fields of an object in turn and carries a result along; `fuel` bounds their number. -/
def fields (field : σ → String → Reader σ) : (fuel : Nat) → (first : Bool) → σ → Reader σ
  | 0, _, _ => failNext .endInObject
  | fuel + 1, first, s => do
    if ← nextKey first then
      let key ← text
      let s ← field s key
      fields field fuel false s
    else return s

def remaining : Reader Nat :=
  return (← get).rest.length + 1

/-- A list of values, from its opening bracket on. -/
def list (item : Reader Json) : Reader Json := do
  advance 1
  let xs ← items item (← remaining) true
  endList
  return .array xs

/-- An object, from its opening brace on; a key that comes again keeps its place and takes the new value. -/
def object (value : Reader Json) : Reader Json := do
  advance 1
  let field (es : List (String × Json)) (key : String) : Reader (List (String × Json)) := do
    colon
    return Entries.put key (← value) es
  let es ← fields field (← remaining) true []
  endObject
  return .object es

/-- A value, given how to read the lists and objects in it. -/
def valueWith (list object : Reader Json) : Reader Json := do
  match ← peekPastSpace with
  | none => failNext .endInValue
  | some 'n' => literal .null "ull"
  | some 't' => literal (.bool true) "rue"
  | some 'f' => literal (.bool false) "alse"
  | some '"' => return .text (← text)
  | some '[' => list
  | some '\x7b' => object
  | some c => if c = '-' || Number.isDigit c then return .number (← number) else failNext .expectedValue

/-- A value that nests lists and objects at most `room` deep. -/
def value : (room : Nat) → Reader Json
  | 0 => valueWith (failNext .tooDeep) (failNext .tooDeep)
  | room + 1 => valueWith (list (value room)) (object (value room))

def maxNesting : Nat := 127

/-- What is read must be followed by nothing but blanks. -/
def whole (reader : Reader α) (source : String) : Except Fault α := do
  let parse : Reader α := do
    let x ← reader
    match ← peekPastSpace with
    | none => return x
    | some _ => failNext .trailingCharacters
  (parse.run (Cursor.ofString source)).map Prod.fst

end Reader

def read (source : String) : Except Fault Json :=
  Reader.whole (Reader.value Reader.maxNesting) source

end ScriptRepl.Json
