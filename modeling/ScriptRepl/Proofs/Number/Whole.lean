import ScriptRepl.Proofs.Number.Sign

/-! Whole numbers of up to 53 bits as doubles: the double is that number exactly, with its sign. -/
namespace ScriptRepl.Number

open Float.Model (UnpackedFloat)
open Float.Model.UnpackedFloat

/-- The double from a sign and the bits of a magnitude has just these bits. -/
theorem toBits_signed (negative : Bool) {k : Nat} {e : BitVec 11} {m : BitVec 52} (he : e.toNat ≠ 2047)
    (hk : k = e.toNat * 2 ^ 52 + m.toNat) :
    (signed negative k).toBits.toBitVec =
      packComponents .binary64 (if negative then Sign.negative else Sign.positive) e m := by
  have hbits : (UInt64.ofNat (k + if negative then twoTo 63 else 0)).toBitVec =
      packComponents .binary64 (if negative then Sign.negative else Sign.positive) e m := by
    have hm := m.isLt
    have he' := e.isLt
    have hsign : Sign.negative.toBitVec.toNat = 1 ∧ Sign.positive.toBitVec.toNat = 0 := ⟨rfl, rfl⟩
    have htwo : twoTo 63 = 2 ^ 63 := rfl
    apply BitVec.eq_of_toNat_eq
    rw [toNat_packComponents, UInt64.toNat_toBitVec, UInt64.toNat_ofNat', hk, htwo]
    cases negative with
    | false =>
        simp only [Bool.false_eq_true, if_false, hsign]
        omega
    | true =>
        simp only [if_true, hsign]
        omega
  have hnumber (s : Sign) : @isNaNBits .binary64 (packComponents .binary64 s e m) = false := by
    have hfinite : e ≠ -1#11 := by
      rintro rfl
      exact he rfl
    simp only [isNaNBits, unpackExponent_packComponents, hfinite, false_and, decide_false]
  change UnpackedFloat.pack .binary64 (UnpackedFloat.unpack .binary64
    (UInt64.ofNat (k + if negative then twoTo 63 else 0)).toBitVec) = _
  rw [hbits, pack_unpack, if_neg (by rw [hnumber]; decide)]

theorem isNegative_signed (negative : Bool) {k : Nat} {e : BitVec 11} {m : BitVec 52} (he : e.toNat ≠ 2047)
    (hk : k = e.toNat * 2 ^ 52 + m.toNat) : isNegative (signed negative k) = negative := by
  have hbits := toBits_signed negative he hk
  cases negative with
  | false => exact isNegative_of_positive hbits
  | true => exact isNegative_packed hbits

theorem ofFloat?_signed (negative : Bool) {k : Nat} {e : BitVec 11} {m : BitVec 52} (h0 : 0 < e.toNat)
    (he : e.toNat ≠ 2047) (hk : k = e.toNat * 2 ^ 52 + m.toNat) :
    Binary.ofFloat? (signed negative k) = some ⟨negative, m.toNat + 2 ^ 52, (e.toNat : Int) - 1075⟩ := by
  rw [ofFloat?_eq (toBits_signed negative he hk), if_neg he, if_neg h0.ne', isNegative_signed negative he hk]

theorem ofFloat?_zero (negative : Bool) : Binary.ofFloat? (signed negative 0) = some ⟨negative, 0, -1074⟩ := by
  have he : (0#11).toNat ≠ 2047 := by decide
  have hk : 0 = (0#11).toNat * 2 ^ 52 + (0#52).toNat := rfl
  have hzero : (0#11).toNat = 0 := rfl
  rw [ofFloat?_eq (toBits_signed negative he hk), if_neg he, if_pos hzero, isNegative_signed negative he hk]
  rfl

/-- The exact value of a whole number that is a double. -/
theorem Binary.whole_eq {b : Binary} {n : Nat} (h : (b.mantissa : ℚ) * 2 ^ b.exponent = n) :
    b.isIntegral = true ∧ b.whole = n := by
  obtain ⟨negative, mantissa, exponent⟩ := b
  dsimp only at h
  rcases lt_or_ge exponent 0 with hneg | hpos
  · obtain ⟨j, hj⟩ : ∃ j : Nat, exponent = -(j : Int) := ⟨exponent.natAbs, by omega⟩
    subst hj
    have hmantissa : mantissa = n * 2 ^ j := by
      have hpow : (2 : ℚ) ^ j ≠ 0 := by positivity
      rw [zpow_neg, zpow_natCast, ← div_eq_mul_inv, div_eq_iff hpow] at h
      exact_mod_cast h
    have hnot : ¬0 ≤ -(j : Int) := not_le.mpr hneg
    have hpow : 0 < 2 ^ j := Nat.two_pow_pos j
    simp only [Binary.isIntegral, Binary.whole, twoTo, Nat.pow_eq, neg_neg, Int.toNat_natCast, hnot, if_false,
      decide_false, Bool.false_or, hmantissa, Nat.mul_mod_left, Nat.mul_div_cancel n hpow, beq_self_eq_true, and_self]
  · lift exponent to Nat using hpos with k
    have hvalue : mantissa * 2 ^ k = n := by
      rw [zpow_natCast] at h
      exact_mod_cast h
    simp [Binary.isIntegral, Binary.whole, twoTo, hvalue]

/-- A whole number of up to 53 bits is a double with its sign. -/
theorem ofFloat?_nearest (negative : Bool) {n : Nat} (hn : n ≤ 2 ^ 53) :
    ∃ b, Binary.ofFloat? (nearest negative n 1) = some b ∧ b.negative = negative ∧ b.isIntegral = true ∧
      b.whole = n := by
  rcases Nat.eq_zero_or_pos n with rfl | hpos
  · obtain ⟨hintegral, hwhole⟩ := @Binary.whole_eq ⟨negative, 0, -1074⟩ 0 (by simp)
    exact ⟨_, ofFloat?_zero negative, rfl, hintegral, hwhole⟩
  obtain ⟨units, place, hnearest, hvalue, hlow, hhigh, hleast, hmost⟩ := exists_nearest_eq negative hpos hn
  have hexponent : (BitVec.ofNat 11 (place + 1075).toNat).toNat = (place + 1075).toNat := by
    rw [BitVec.toNat_ofNat]
    omega
  have hmantissa : (BitVec.ofNat 52 (units - 2 ^ 52)).toNat = units - 2 ^ 52 := by
    rw [BitVec.toNat_ofNat]
    omega
  have hread := @ofFloat?_signed negative ((place + 1074).toNat * 2 ^ 52 + units)
    (BitVec.ofNat 11 (place + 1075).toNat) (BitVec.ofNat 52 (units - 2 ^ 52)) (by omega) (by omega) (by omega)
  rw [← hnearest, hexponent, hmantissa, Nat.sub_add_cancel hlow, Int.toNat_of_nonneg (by omega),
    Int.add_sub_cancel] at hread
  obtain ⟨hintegral, hwhole⟩ := Binary.whole_eq (b := ⟨negative, units, place⟩) hvalue
  exact ⟨_, hread, rfl, hintegral, hwhole⟩

/-- The double of a whole number of up to 53 bits is that number. -/
theorem ofFloat?_ofInt {n : Int} (hn : n.natAbs ≤ 2 ^ 53) :
    ∃ b, Binary.ofFloat? (ofInt n) = some b ∧ b.isIntegral = true ∧ b.whole = n.natAbs ∧
      (if b.negative then -(b.whole : Int) else b.whole) = n := by
  obtain ⟨b, hb, hnegative, hintegral, hwhole⟩ := ofFloat?_nearest (decide (n < 0)) hn
  refine ⟨b, hb, hintegral, hwhole, ?_⟩
  rw [hnegative, hwhole]
  split
  · rename_i hn
    have hlt := of_decide_eq_true hn
    omega
  · rename_i hn
    have hle : ¬n < 0 := fun h => hn (decide_eq_true h)
    omega

/-- The double is exactly the whole number. -/
def Denotes (x : Float) (n : Nat) : Prop :=
  ∃ b, Binary.ofFloat? x = some b ∧ b.negative = false ∧ b.isIntegral = true ∧ b.whole = n

theorem denotes_ofNat {n : Nat} (hn : n ≤ 2 ^ 53) : Denotes (ofNat n) n :=
  ofFloat?_nearest false hn

namespace Denotes

variable {x : Float} {n : Nat}

theorem toNatUpTo (h : Denotes x n) (bound : Nat) : toNatUpTo bound x = min n bound := by
  obtain ⟨b, hb, hnegative, -, rfl⟩ := h
  simp only [Number.toNatUpTo, hb, hnegative, Bool.false_eq_true, if_false]

theorem not_lt_zero (h : Denotes x n) : ¬x < 0 := by
  obtain ⟨b, hb, hnegative, -⟩ := h
  obtain ⟨s, e, m, hx, -⟩ := exists_finite_components hb
  cases s with
  | positive => exact not_lt_zero_of_positive hx
  | negative =>
      rw [negative_of_ofFloat? hb, isNegative_packed hx] at hnegative
      cases hnegative

theorem isNaN (h : Denotes x n) : x.isNaN = false := by
  obtain ⟨b, hb, -⟩ := h
  exact isNaN_of_ofFloat? hb

theorem truncate (h : Denotes x n) : Number.truncate x = x := by
  obtain ⟨b, hb, -, hintegral, -⟩ := h
  simp only [Number.truncate, roundWith, hb, hintegral, if_true]

end Denotes

end ScriptRepl.Number
