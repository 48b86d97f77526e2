import ScriptRepl.Number.Binary
import ScriptRepl.Text.Blank

/-! Reading numbers: decimal numerals with point and exponent, and integers in a radix, each from a text that may go
on after the number. -/
namespace ScriptRepl.Number

def isDigit (c : Char) : Bool :=
  '0' ≤ c && c ≤ '9'

def digitsToNat (cs : List Char) : Nat :=
  cs.foldl (fun n c => 10 * n + (c.toNat - 48)) 0

/-- The number `±digits · 10 ^ exponent`. -/
structure Numeral where
  negative : Bool
  digits : Nat
  exponent : Int
  deriving DecidableEq, Repr

/-- Magnitudes from `10 ^ 310` on round to infinity and those below `10 ^ -400` to zero, so the powers of ten stay
small whatever the exponent is. -/
def Numeral.toFloat (n : Numeral) : Float :=
  if n.digits = 0 then signed n.negative 0
  else
    let top := n.exponent + ((Nat.toDigits 10 n.digits).length : Int)
    if 311 < top then signed n.negative infinityBits
    else if top < -400 then signed n.negative 0
    else if 0 ≤ n.exponent then nearest n.negative (n.digits * tenTo n.exponent.toNat) 1
    else nearest n.negative n.digits (tenTo (-n.exponent).toNat)

def takeSign : List Char → Bool × List Char
  | '-' :: cs => (true, cs)
  | '+' :: cs => (false, cs)
  | cs => (false, cs)

/-- The exponent part that the text starts with, if it is complete. -/
def takeExponent : List Char → Int × List Char
  | [] => (0, [])
  | c :: cs =>
    let (negative, rest) := takeSign cs
    let digits := rest.takeWhile isDigit
    if (c == 'e' || c == 'E') && !digits.isEmpty then
      let n : Int := digitsToNat digits
      (if negative then -n else n, rest.drop digits.length)
    else (0, c :: cs)

/-- The longest numeral at the start of the text and what follows it. -/
def takeNumeral? (cs : List Char) : Option (Numeral × List Char) :=
  let (negative, cs) := takeSign cs
  let whole := cs.takeWhile isDigit
  let afterWhole := cs.drop whole.length
  let (fraction, afterFraction) :=
    match afterWhole with
    | '.' :: r => (r.takeWhile isDigit, r.dropWhile isDigit)
    | r => ([], r)
  if whole.isEmpty && fraction.isEmpty then none
  else
    let (exponent, rest) := takeExponent afterFraction
    some (⟨negative, digitsToNat (whole ++ fraction), exponent - fraction.length⟩, rest)

def ofNumeral? (cs : List Char) : Option Float :=
  match takeNumeral? cs with
  | some (n, []) => some n.toFloat
  | _ => none

/-- Value of a digit or letter as a digit of a radix up to 36. -/
def digitValue? (radix : Nat) (c : Char) : Option Nat :=
  let v :=
    if isDigit c then some (c.toNat - '0'.toNat)
    else if 'a' ≤ c && c ≤ 'z' then some (c.toNat - 'a'.toNat + 10)
    else if 'A' ≤ c && c ≤ 'Z' then some (c.toNat - 'A'.toNat + 10)
    else none
  v.filter (· < radix)

/-- Whole numbers as far as a double can tell them apart: rounded to 53 bits, and no number at all from `2 ^ 1024`
on. -/
def roundWhole (n : Nat) : Option Nat :=
  let place := n.log2 - 52
  let rounded := divNearest n (twoTo place) * twoTo place
  if rounded < twoTo 1024 then some rounded else none

/-- Appends a digit, rounding after the multiplication and after the addition. -/
def appendDigit (radix : Nat) (value : Option Nat) (digit : Nat) : Option Nat :=
  ((value.bind fun n => roundWhole (n * radix)).bind fun n => roundWhole (n + digit))

/-- The digits of a radix that the text starts with. -/
def takeDigits (radix : Nat) : List Char → List Nat
  | [] => []
  | c :: cs =>
    match digitValue? radix c with
    | some d => d :: takeDigits radix cs
    | none => []

/-- The number that a text starts with, after blanks, as a decimal numeral or `Infinity`. -/
def ofDecimalStart (s : String) : Float :=
  let cs := Text.trimLeft s.toList
  let (negative, unsigned) := takeSign cs
  if "Infinity".toList.isPrefixOf unsigned then signed negative infinityBits
  else
    match takeNumeral? cs with
    | some (n, _) => n.toFloat
    | none => nan

def afterHexMark? : List Char → Option (List Char)
  | '0' :: 'x' :: cs => some cs
  | '0' :: 'X' :: cs => some cs
  | _ => none

/-- The whole number that a text starts with, after blanks, in a radix from 2 to 36. Radix 0 stands for 10, or for 16
where the digits follow `0x`, which radix 16 passes over as well. -/
def ofRadixStart (s : String) (radix : Nat) : Float :=
  let (negative, cs) := takeSign (Text.trimLeft s.toList)
  let marked := if radix = 0 ∨ radix = 16 then afterHexMark? cs else none
  let radix := if marked.isSome then 16 else if radix = 0 then 10 else radix
  if radix < 2 ∨ 36 < radix then nan
  else
    match takeDigits radix (marked.getD cs) with
    | [] => nan
    | digits =>
      match digits.foldl (appendDigit radix) (some 0) with
      | some n => nearest negative n 1
      | none => signed negative infinityBits

/-- The number a whole text stands for: blanks around it do not count, an empty text is zero, `0x` starts a
hexadecimal integer of 64 bits, and a text that is no numeral is not a number. -/
def ofText (s : String) : Float :=
  let cs := Text.trimBoth s.toList
  if cs.isEmpty then signed false 0
  else
    match afterHexMark? cs with
    | some hex =>
      let (negative, digits) := takeSign hex
      let values := takeDigits 16 digits
      let magnitude : Nat := values.foldl (fun n d => 16 * n + d) 0
      let n : Int := if negative then -(magnitude : Int) else magnitude
      if digits.isEmpty || values.length < digits.length then nan
      else if n < -(twoTo 63 : Int) ∨ (twoTo 63 : Int) ≤ n then nan
      else ofInt n
    | none =>
      let (negative, unsigned) := takeSign cs
      if unsigned = "Infinity".toList then signed negative infinityBits else (ofNumeral? cs).getD nan

end ScriptRepl.Number
