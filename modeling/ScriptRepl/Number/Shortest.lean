import ScriptRepl.Number.Binary

/-! The fewest decimal digits that read back as a given double. -/
namespace ScriptRepl.Number

/-- The number `digits · 10 ^ exponent`. -/
structure Decimal where
  digits : Nat
  exponent : Int
  deriving DecidableEq, Repr

namespace Decimal

/-- Drops up to `fuel` zeros at the end of the digits. -/
def dropZeros : (fuel : Nat) → Decimal → Decimal
  | 0, d => d
  | fuel + 1, d =>
    if d.digits % 10 = 0 then dropZeros fuel ⟨d.digits / 10, d.exponent + 1⟩ else d

def digitTexts (d : Decimal) : List Char :=
  Nat.toDigits 10 d.digits

/-- The power of ten of the first digit. -/
def magnitude (d : Decimal) : Int :=
  d.exponent + (Nat.toDigits 10 d.digits).length - 1

end Decimal

/-- Where a number lies halfway between two decimals, the one that is taken. -/
inductive Tie where
  | upward
  | toEven
  deriving DecidableEq, Repr

/-- Factors that compare `x · 2 ^ s` with `c · 10 ^ t`: the products `x * fst` and `c * snd` are in the same order. -/
def scaling (s t : Int) : Nat × Nat :=
  (twoTo s.toNat * tenTo (-t).toNat, tenTo t.toNat * twoTo (-s).toNat)

/-- The power of ten of the first digit of `mantissa · 2 ^ exponent`, which is not zero. -/
def magnitude (mantissa : Nat) (exponent : Int) : Int :=
  let guess := (mantissa.log2 + exponent) * 30103 / 100000
  let reaches (t : Int) : Bool :=
    let (a, b) := scaling exponent t
    b ≤ mantissa * a
  if reaches (guess + 1) then guess + 1 else if reaches guess then guess else guess - 1

/-- The reals that round to a double, in quarters of its last place. -/
structure Interval where
  low : Nat
  high : Nat
  closed : Bool

def Binary.interval (b : Binary) : Interval where
  low := if b.mantissa = twoTo 52 ∧ -1074 < b.exponent then 4 * b.mantissa - 1 else 4 * b.mantissa - 2
  high := 4 * b.mantissa + 2
  closed := b.mantissa % 2 == 0

/-- The nearest decimal with `n` digits that rounds to the number, whose first digit stands for `10 ^ top`. -/
def onGrid? (tie : Tie) (b : Binary) (top : Int) (n : Nat) : Option Decimal :=
  let t := top - n + 1
  let (scale, unit) := scaling (b.exponent - 2) t
  let inside (c : Nat) : Bool :=
    let x := c * unit
    let low := b.interval.low * scale
    let high := b.interval.high * scale
    if b.interval.closed then low ≤ x && x ≤ high else low < x && x < high
  let value := 4 * b.mantissa * scale
  let below := value / unit
  let rest := value % unit
  let upper : Bool := unit < 2 * rest || (2 * rest == unit && (tie = .upward || below % 2 == 1))
  let near := if upper then below + 1 else below
  let far := if upper then below else below + 1
  if inside near then some ⟨near, t⟩ else if inside far then some ⟨far, t⟩ else none

/-- The decimal with the fewest digits that reads back as the number, and of those the nearest. -/
def shortest (tie : Tie) (b : Binary) : Decimal :=
  let top := magnitude b.mantissa b.exponent
  let found := (List.range' 1 17).findSome? (onGrid? tie b top)
  (found.getD ⟨b.mantissa, b.exponent⟩).dropZeros 17

end ScriptRepl.Number
