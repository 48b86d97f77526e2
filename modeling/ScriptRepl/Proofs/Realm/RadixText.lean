import ScriptRepl.Proofs.Number.Radix
import ScriptRepl.Proofs.Realm.Aliasing

/-! Whole numbers as texts in a radix, and back: `toString` with a radix and `parseInt`. -/
namespace ScriptRepl

open Eval
open Number (Denotes DenotesInt IsNumeral signOf)

variable {x z : Float} {n : Int} {radix : Nat}

theorem radixOf_of_denotes (hz : Denotes z radix) (hhigh : radix ≤ 36) : Native.radixOf z = radix := by
  have hbound : radix ≤ Number.twoTo 32 - 1 := hhigh.trans (by decide)
  rw [Native.radixOf, hz.toNatUpTo, Nat.min_eq_left hbound]

theorem outcome_toString_radix (hz : Denotes z radix) (hlow : 2 ≤ radix) (hhigh : radix ≤ 36) (x : Float) (run : Run) :
    (callBuiltin .toString (.number x) [.number z]).outcome run =
      (.ok (.text (Number.spellInRadix radix x)), run) := by
  have hcall : callBuiltin .toString (.number x) [.number z] =
      toNumber (.number z) >>= fun y => if Native.radixOf y < 2 ∨ 36 < Native.radixOf y then
        raise "RangeError" "toString() radix must be between 2 and 36"
      else return .text (Number.spellInRadix (Native.radixOf y) x) := rfl
  have hnumber : (toNumber (.number z)).outcome run = (.ok z, run) := rfl
  rw [hcall, outcome_bind, hnumber]
  dsimp only
  rw [radixOf_of_denotes hz hhigh, if_neg (by omega)]
  rfl

theorem outcome_parseInt_radix (hz : Denotes z radix) (hhigh : radix ≤ 36) (self : Value) (text : String) (run : Run) :
    (callBuiltin .parseInt self [.text text, .number z]).outcome run =
      (.ok (.number (Number.ofRadixStart text radix)), run) := by
  have hcall : callBuiltin .parseInt self [.text text, .number z] =
      display (.text text) >>= fun source => toNumber (.number z) >>= fun y =>
        return .number (Number.ofRadixStart source (Native.radixOf y)) := rfl
  have hnumber : (toNumber (.number z)).outcome run = (.ok z, run) := rfl
  rw [hcall, outcome_bind, outcome_display_text]
  dsimp only
  rw [outcome_bind, hnumber]
  dsimp only
  rw [radixOf_of_denotes hz hhigh]
  rfl

/-- A whole number in a radix is written as its numeral behind its sign, but from `2 ^ 128` on as that of the number
before it. Below `2 ^ 53`, reading the text in the same radix gives the number. -/
theorem radix_numeral (hx : DenotesInt x n) (hz : Denotes z radix) (hlow : 2 ≤ radix) (hhigh : radix ≤ 36)
    (hten : radix ≠ 10) (run : Run) :
    ∃ text digits, (callBuiltin .toString (.number x) [.number z]).outcome run = (.ok (.text text), run) ∧
      text = String.ofList (signOf n ++ digits) ∧ IsNumeral radix digits (min n.natAbs (2 ^ 128 - 1)) ∧
      (n.natAbs < 2 ^ 53 → ∀ self, ∃ y,
        (callBuiltin .parseInt self [.text text, .number z]).outcome run = (.ok (.number y), run) ∧ DenotesInt y n) := by
  have htext : Number.spellInRadix radix x =
      String.ofList (signOf n ++ Number.radixDigits radix (min n.natAbs (2 ^ 128 - 1))) := by
    rw [← Number.toList_spellInRadix hx hten, String.ofList_toList]
  have hnumeral := Number.isNumeral_radixDigits hlow (min n.natAbs (2 ^ 128 - 1))
  refine ⟨_, _, outcome_toString_radix hz hlow hhigh x run, htext, hnumeral, fun hn self => ?_⟩
  refine ⟨_, outcome_parseInt_radix hz hhigh self _ run, ?_⟩
  rw [Nat.min_eq_left (by omega)] at htext hnumeral
  rw [htext]
  exact Number.denotesInt_ofRadixStart hlow hhigh hnumeral hn

/-- The least integer that is surely read back, in the radix with the most digits. -/
theorem radix_numeral_least :
    let n : Int := -(2 ^ 53 - 1)
    let run := Run.oneItem .null
    DenotesInt (Number.ofInt n) n ∧ Denotes (Number.ofNat 36) 36 ∧
      ∃ text digits y, (callBuiltin .toString (.number (Number.ofInt n)) [.number (Number.ofNat 36)]).outcome run =
          (.ok (.text text), run) ∧
        text = String.ofList ('-' :: digits) ∧ IsNumeral 36 digits (2 ^ 53 - 1) ∧
        (callBuiltin .parseInt .undefined [.text text, .number (Number.ofNat 36)]).outcome run =
          (.ok (.number y), run) ∧ DenotesInt y n := by
  intro n run
  obtain ⟨b, hb, hintegral, -, hvalue⟩ := Number.ofFloat?_ofInt (n := n) (by decide)
  have hx : DenotesInt (Number.ofInt n) n := ⟨b, hb, hintegral, hvalue⟩
  have hz : Denotes (Number.ofNat 36) 36 := Number.denotes_ofNat (by decide)
  obtain ⟨text, digits, hwritten, htext, hnumeral, hread⟩ :=
    radix_numeral hx hz (by decide) (by decide) (by decide) run
  obtain ⟨y, hy, hdenotes⟩ := hread (by decide) .undefined
  exact ⟨hx, hz, text, digits, y, hwritten, htext, hnumeral, hy, hdenotes⟩

/-- The text of `2 ^ 128` is not its numeral. -/
theorem power_not_written :
    let x := Number.nearest false (2 ^ 128) 1
    let run := Run.oneItem .null
    DenotesInt x (2 ^ 128) ∧ ∃ text,
      (callBuiltin .toString (.number x) [.number (Number.ofNat 16)]).outcome run = (.ok (.text text), run) ∧
      ¬ ∃ digits, text = String.ofList (signOf (2 ^ 128) ++ digits) ∧ IsNumeral 16 digits (2 ^ 128) := by
  intro x run
  have hx : DenotesInt x (2 ^ 128) := ⟨⟨false, 2 ^ 52, 76⟩, by decide +kernel, by decide, by decide +kernel⟩
  have hz : Denotes (Number.ofNat 16) 16 := Number.denotes_ofNat (by decide)
  refine ⟨hx, _, outcome_toString_radix hz (by decide) (by decide) x run, ?_⟩
  rintro ⟨digits, htext, hdigits⟩
  have hwritten := Number.toList_spellInRadix hx (show 16 ≠ 10 by decide)
  rw [htext, String.toList_ofList] at hwritten
  have hsame := List.append_cancel_left hwritten
  have hvalue := Number.isNumeral_radixDigits (show 2 ≤ 16 by decide) (min (2 ^ 128 : Int).natAbs (2 ^ 128 - 1))
  exact absurd ((hsame ▸ hdigits).eq (by decide) hvalue) (by decide)

end ScriptRepl
