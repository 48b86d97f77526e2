import ScriptRepl.Number.Shortest

/-! Numbers as text: the shortest spelling, a fixed number of places, and whole numbers in a radix. -/
namespace ScriptRepl.Number

def withSign (negative : Bool) (text : String) : String :=
  if negative then "-" ++ text else text

/-- Digits with a point after the first `n`, which may lie outside them. -/
def positional (d : Decimal) : String :=
  let digits := d.digitTexts
  if 0 ≤ d.exponent then String.ofList (digits ++ List.replicate d.exponent.toNat '0')
  else
    let places := (-d.exponent).toNat
    let padded := List.replicate (places + 1 - digits.length) '0' ++ digits
    let point := padded.length - places
    String.ofList (padded.take point ++ '.' :: padded.drop point)

/-- One digit before the point. -/
def scientificDigits (d : Decimal) : String :=
  match d.digitTexts with
  | c :: rest@(_ :: _) => String.ofList (c :: '.' :: rest)
  | cs => String.ofList cs

/-- The spelling of a number in the language: whole numbers in full and all others with the fewest digits,
positional from a millionth up to `10 ^ 21`, elsewhere with an exponent that has its sign. -/
def spell (x : Float) : String :=
  match Binary.ofFloat? x with
  | none => if x.isNaN then "NaN" else withSign (isNegative x) "Infinity"
  | some b =>
    withSign b.negative <|
      if b.mantissa = 0 then "0"
      else
        let d := shortest .upward b
        let top := d.magnitude
        if top < -6 ∨ 21 ≤ top then
          scientificDigits d ++ "e" ++ (if top < 0 then "-" else "+") ++ toString top.natAbs
        else if b.isIntegral then toString b.whole
        else positional d

/-- A number with `places` digits after the point; a tie of the exact value goes to the even digit. -/
def fixed (places : Nat) (x : Float) : String :=
  match Binary.ofFloat? x with
  | none => if x.isNaN then "NaN" else withSign (isNegative x) "inf"
  | some b =>
    let scaled := b.mantissa * tenTo places
    let units :=
      if 0 ≤ b.exponent then scaled * twoTo b.exponent.toNat else divNearest scaled (twoTo (-b.exponent).toNat)
    withSign b.negative (positional ⟨units, -places⟩)

/-- A digit for a value below 36. -/
def digitChar (d : Nat) : Char :=
  if d < 10 then Char.ofNat ('0'.toNat + d) else Char.ofNat ('a'.toNat + (d - 10))

/-- The numeral of `n` in a radix from 2 on, without leading zeros. -/
def radixDigits (radix n : Nat) : List Char :=
  if 2 ≤ radix ∧ radix ≤ n then radixDigits radix (n / radix) ++ [digitChar (n % radix)]
  else [digitChar n]
termination_by n
decreasing_by
  rename_i h
  exact Nat.div_lt_self (by omega) (by omega)

/-- Whole numbers in the radix, from `2 ^ 128` on all as the number before it; other numbers as in radix ten. -/
def spellInRadix (radix : Nat) (x : Float) : String :=
  match Binary.ofFloat? x with
  | none => spell x
  | some b =>
    if !b.isIntegral || radix == 10 then spell x
    else
      let n := min b.whole (twoTo 128 - 1)
      withSign (b.negative && n != 0) (String.ofList (radixDigits radix n))

end ScriptRepl.Number
