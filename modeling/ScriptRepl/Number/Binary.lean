import ScriptRepl.Number.Power

/-! The doubles as exact numbers `±mantissa · 2 ^ exponent`, rounding to the nearest double, and the operations that
are exact on them: the integral parts and the remainder. -/
namespace ScriptRepl.Number

/-- The integer nearest to a quotient; a tie goes to the even one. -/
def divNearest (num den : Nat) : Nat :=
  let q := num / den
  let r := num % den
  if 2 * r < den then q else if den < 2 * r then q + 1 else q + q % 2

/-- The finite number `mantissa · 2 ^ exponent` with its sign, which a zero has too. -/
structure Binary where
  negative : Bool
  mantissa : Nat
  exponent : Int
  deriving DecidableEq, Repr

def isNegative (x : Float) : Bool :=
  twoTo 63 ≤ x.toBits.toNat

/-- The exact value of a double that is neither infinite nor a NaN. -/
def Binary.ofFloat? (x : Float) : Option Binary :=
  let bits := x.toBits.toNat
  let biased : Nat := bits / twoTo 52 % twoTo 11
  let fraction : Nat := bits % twoTo 52
  if biased = 2047 then none
  else if biased = 0 then some ⟨isNegative x, fraction, -1074⟩
  else some ⟨isNegative x, fraction + twoTo 52, biased - 1075⟩

def signed (negative : Bool) (magnitudeBits : Nat) : Float :=
  Float.ofBits (.ofNat (magnitudeBits + if negative then twoTo 63 else 0))

def infinityBits : Nat := 2047 * twoTo 52

def nan : Float := Float.ofBits 0x7ff8000000000000

def infinity : Float := signed false infinityBits

/-- The exponent of the last place of the double nearest to `num / den`. -/
def placeOf (num den : Nat) : Int :=
  let e : Int := (num.log2 : Int) - den.log2
  let reached := if 0 ≤ e then den * twoTo e.toNat ≤ num else den ≤ num * twoTo (-e).toNat
  max ((if reached then e else e - 1) - 52) (-1074)

/-- The double nearest to `±num / den`, ties to the even one. -/
def nearest (negative : Bool) (num den : Nat) : Float :=
  if num = 0 then signed negative 0
  else
    let place := placeOf num den
    let units :=
      if 0 ≤ place then divNearest num (den * twoTo place.toNat) else divNearest (num * twoTo (-place).toNat) den
    signed negative (min ((place + 1074).toNat * twoTo 52 + units) infinityBits)

def Binary.toFloat (b : Binary) : Float :=
  if 0 ≤ b.exponent then nearest b.negative (b.mantissa * twoTo b.exponent.toNat) 1
  else nearest b.negative b.mantissa (twoTo (-b.exponent).toNat)

def ofNat (n : Nat) : Float :=
  nearest false n 1

def ofInt (n : Int) : Float :=
  nearest (n < 0) n.natAbs 1

def isFinite (x : Float) : Bool :=
  (Binary.ofFloat? x).isSome

def isInfinite (x : Float) : Bool :=
  !isFinite x && !x.isNaN

/-- The magnitude without its fraction. -/
def Binary.whole (b : Binary) : Nat :=
  if 0 ≤ b.exponent then b.mantissa * twoTo b.exponent.toNat else b.mantissa / twoTo (-b.exponent).toNat

def Binary.isIntegral (b : Binary) : Bool :=
  0 ≤ b.exponent || b.mantissa % twoTo (-b.exponent).toNat == 0

def isIntegral (x : Float) : Bool :=
  (Binary.ofFloat? x).any Binary.isIntegral

/-- Applies a change of the integral part to a number that has a fraction; all others stay. -/
def roundWith (f : Binary → Nat) (x : Float) : Float :=
  match Binary.ofFloat? x with
  | some b => if b.isIntegral then x else nearest b.negative (f b) 1
  | none => x

def truncate (x : Float) : Float :=
  roundWith Binary.whole x

def floor (x : Float) : Float :=
  roundWith (fun b => if b.negative then b.whole + 1 else b.whole) x

def ceil (x : Float) : Float :=
  roundWith (fun b => if b.negative then b.whole else b.whole + 1) x

/-- The integral part of a number that is not negative, cut to `bound`; nothing of all others. -/
def toNatUpTo (bound : Nat) (x : Float) : Nat :=
  match Binary.ofFloat? x with
  | some b => if b.negative then 0 else min b.whole bound
  | none => if x.isNaN || isNegative x then 0 else bound

/-- What remains of `x` after whole multiples of `y`, with the sign of `x`. -/
def remainder (x y : Float) : Float :=
  match Binary.ofFloat? x, Binary.ofFloat? y with
  | some a, some b =>
    if b.mantissa = 0 then nan
    else
      let e := min a.exponent b.exponent
      let r := a.mantissa * twoTo (a.exponent - e).toNat % (b.mantissa * twoTo (b.exponent - e).toNat)
      Binary.toFloat ⟨a.negative, r, e⟩
  | some _, none => if y.isNaN then nan else x
  | none, _ => nan

end ScriptRepl.Number
