import ScriptRepl.Number.Text
import ScriptRepl.Proofs.Number.Rounding

/-! Numbers and their negations. There is one number that is none and there are two infinities; the spelling of any
other negative number is that of its negation with a sign in front. -/
namespace ScriptRepl.Number

open Float.Model (UnpackedFloat)
open Float.Model.UnpackedFloat

theorem exists_components (x : Float) : ∃ s e m, x.toBits.toBitVec = packComponents .binary64 s e m :=
  ⟨_, _, _, (@packComponents_unpackSign_unpackExponent_unpackMantissa .binary64 x.toBits.toBitVec).symm⟩

section Components

variable {x : Float} {s : Sign} {e : BitVec 11} {m : BitVec 52}

theorem unpack_packComponents_neg (h : ¬(e = -1#11 ∧ m ≠ 0#52)) :
    (UnpackedFloat.unpack .binary64 (packComponents .binary64 s e m)).neg =
      UnpackedFloat.unpack .binary64 (packComponents .binary64 (-s) e m) := by
  unfold UnpackedFloat.unpack
  simp only [unpackMantissa_packComponents, unpackExponent_packComponents, unpackSign_packComponents,
    Sign.ofBitVec_toBitVec]
  split
  · rename_i he
    split
    · rfl
    · rename_i hm
      exact absurd ⟨he, hm⟩ h
  · split
    · split <;> rfl
    · rfl

theorem toBits_neg (hx : x.toBits.toBitVec = packComponents .binary64 s e m) (h : ¬(e = -1#11 ∧ m ≠ 0#52)) :
    (-x).toBits.toBitVec = packComponents .binary64 (-s) e m := by
  have hnumber : @isNaNBits .binary64 (packComponents .binary64 (-s) e m) = false := by
    simp only [isNaNBits, unpackExponent_packComponents, unpackMantissa_packComponents, decide_eq_false_iff_not]
    exact h
  change UnpackedFloat.pack .binary64 (UnpackedFloat.unpack .binary64 x.toBits.toBitVec).neg = _
  rw [hx, unpack_packComponents_neg h, pack_unpack, if_neg (by rw [hnumber]; decide)]

theorem sign_neg_neg (s : Sign) : - -s = s := by
  cases s <;> rfl

theorem neg_neg_of_number (hx : x.toBits.toBitVec = packComponents .binary64 s e m) (h : ¬(e = -1#11 ∧ m ≠ 0#52)) :
    - -x = x := by
  rw [← Float.toBits_inj, ← UInt64.toBitVec_inj, toBits_neg (toBits_neg hx h) h, sign_neg_neg, hx]

theorem isNegative_of_positive (hx : x.toBits.toBitVec = packComponents .binary64 .positive e m) :
    isNegative x = false := by
  have hsign : Sign.positive.toBitVec.toNat = 0 := rfl
  rw [isNegative, decide_eq_false_iff_not, toNat_toBits hx, hsign]
  change ¬2 ^ 63 ≤ _
  have he := e.isLt
  have hm := m.isLt
  omega

theorem not_lt_zero_of_positive (hx : x.toBits.toBitVec = packComponents .binary64 .positive e m) : ¬x < 0 := by
  intro hlt
  have hnegative : Negative (UnpackedFloat.unpack .binary64 x.toBits.toBitVec) := negative_of_lt_zero hlt
  rw [hx] at hnegative
  unfold UnpackedFloat.unpack at hnegative
  simp only [unpackMantissa_packComponents, unpackExponent_packComponents, unpackSign_packComponents,
    Sign.ofBitVec_toBitVec] at hnegative
  split at hnegative
  · split at hnegative <;> cases hnegative
  · split at hnegative
    · split at hnegative <;> cases hnegative
    · cases hnegative

theorem eq_of_components {y : Float} (hx : x.toBits.toBitVec = packComponents .binary64 s e m)
    (hy : y.toBits.toBitVec = packComponents .binary64 s e m) : x = y := by
  rw [← Float.toBits_inj, ← UInt64.toBitVec_inj, hx, hy]

end Components

theorem toBits_infinity : infinity.toBits.toBitVec = packComponents .binary64 .positive (-1#11) 0#52 := by
  decide

theorem toBits_nan : nan.toBits.toBitVec = packedNaN .binary64 := by
  decide

theorem negative_infinity : (-infinity).toBits.toBitVec = packComponents .binary64 .negative (-1#11) 0#52 := by
  decide

/-- A number that has no exact value. -/
theorem eq_special_of_ofFloat? {x : Float} (h : Binary.ofFloat? x = none) :
    x = nan ∨ x = infinity ∨ x = -infinity := by
  obtain ⟨s, e, m, hx⟩ := exists_components x
  rw [ofFloat?_eq hx] at h
  split at h
  · rename_i hexponent
    have he : e = -1#11 := BitVec.eq_of_toNat_eq hexponent
    subst he
    by_cases hm : m = 0#52
    · subst hm
      cases s with
      | positive => exact .inr (.inl (eq_of_components hx toBits_infinity))
      | negative => exact .inr (.inr (eq_of_components hx negative_infinity))
    · have hvalid := x.toModel.valid.eq_packedNaN
      have hbits : x.toModel.toBits.toBitVec = packComponents .binary64 s (-1#11) m := hx
      rw [hbits, unpackExponent_packComponents, unpackMantissa_packComponents] at hvalid
      refine .inl ?_
      rw [← Float.toBits_inj, ← UInt64.toBitVec_inj, toBits_nan, hx]
      exact hvalid rfl hm
  · split at h <;> cases h

/-- The spelling of a finite number without its sign. -/
def spellMagnitude (b : Binary) : String :=
  if b.mantissa = 0 then "0"
  else
    let d := shortest .upward b
    let top := d.magnitude
    if top < -6 ∨ 21 ≤ top then scientificDigits d ++ "e" ++ (if top < 0 then "-" else "+") ++ toString top.natAbs
    else if b.isIntegral then toString b.whole
    else positional d

theorem spell_of_ofFloat? {x : Float} {b : Binary} (h : Binary.ofFloat? x = some b) :
    spell x = withSign b.negative (spellMagnitude b) := by
  unfold spell spellMagnitude
  rw [h]

section Magnitude

variable (b : Binary) (negative : Bool)

theorem onGrid?_negative (tie : Tie) (top : Int) (n : Nat) :
    onGrid? tie { b with negative } top n = onGrid? tie b top n := by
  unfold onGrid? Binary.interval
  rfl

theorem shortest_negative (tie : Tie) : shortest tie { b with negative } = shortest tie b := by
  have hgrid : onGrid? tie { b with negative } = onGrid? tie b := by
    funext top n
    exact onGrid?_negative b negative tie top n
  simp only [shortest, hgrid]

theorem spellMagnitude_negative : spellMagnitude { b with negative } = spellMagnitude b := by
  unfold spellMagnitude
  rw [shortest_negative]
  rfl

end Magnitude

theorem ofFloat?_neg {x : Float} {b : Binary} {e : BitVec 11} {m : BitVec 52}
    (hx : x.toBits.toBitVec = packComponents .binary64 .negative e m) (hfinite : e.toNat ≠ 2047)
    (h : Binary.ofFloat? x = some b) : Binary.ofFloat? (-x) = some { b with negative := false } := by
  have hnumber : ¬(e = -1#11 ∧ m ≠ 0#52) := fun hnone => hfinite (congrArg BitVec.toNat hnone.1)
  have hneg := toBits_neg hx hnumber
  rw [ofFloat?_eq hx, if_neg hfinite] at h
  rw [ofFloat?_eq hneg, if_neg hfinite, isNegative_of_positive hneg]
  split at h
  · rename_i hzero
    rw [if_pos hzero, ← Option.some.inj h]
  · rename_i hzero
    rw [if_neg hzero, ← Option.some.inj h]

theorem exists_finite_components {x : Float} {b : Binary} (h : Binary.ofFloat? x = some b) :
    ∃ s e m, x.toBits.toBitVec = packComponents .binary64 s e m ∧ e.toNat ≠ 2047 := by
  obtain ⟨s, e, m, hx⟩ := exists_components x
  refine ⟨s, e, m, hx, fun he => ?_⟩
  rw [ofFloat?_eq hx, if_pos he] at h
  cases h

theorem isNaN_of_ofFloat? {x : Float} {b : Binary} (h : Binary.ofFloat? x = some b) : x.isNaN = false := by
  obtain ⟨s, e, m, hx, hfinite⟩ := exists_finite_components h
  have hexponent : e ≠ -1#11 := by
    rintro rfl
    exact hfinite rfl
  change (UnpackedFloat.unpack .binary64 x.toBits.toBitVec).isNaN = false
  rw [hx]
  unfold UnpackedFloat.unpack
  simp only [unpackMantissa_packComponents, unpackExponent_packComponents, unpackSign_packComponents,
    Sign.ofBitVec_toBitVec, hexponent, if_false]
  split
  · split <;> rfl
  · rfl

theorem negative_of_ofFloat? {x : Float} {b : Binary} (h : Binary.ofFloat? x = some b) : b.negative = isNegative x := by
  unfold Binary.ofFloat? at h
  dsimp only at h
  split at h
  · cases h
  · split at h <;> rw [← Option.some.inj h]

theorem neg_neg_of_ofFloat? {x : Float} {b : Binary} (h : Binary.ofFloat? x = some b) : - -x = x := by
  obtain ⟨s, e, m, hx, hfinite⟩ := exists_finite_components h
  exact neg_neg_of_number hx fun hnone => hfinite (congrArg BitVec.toNat hnone.1)

/-- The spelling of a negative number is that of its negation behind a sign. -/
theorem spell_of_negative {x : Float} {b : Binary} (h : Binary.ofFloat? x = some b) (hb : b.negative = true) :
    spell x = "-" ++ spell (-x) ∧ Binary.ofFloat? (-x) = some { b with negative := false } := by
  obtain ⟨s, e, m, hx, hfinite⟩ := exists_finite_components h
  have hs : s = .negative := by
    cases s with
    | negative => rfl
    | positive =>
        rw [negative_of_ofFloat? h, isNegative_of_positive hx] at hb
        cases hb
  subst hs
  have hopposite := ofFloat?_neg hx hfinite h
  refine ⟨?_, hopposite⟩
  rw [spell_of_ofFloat? h, spell_of_ofFloat? hopposite, spellMagnitude_negative, hb]
  exact if_pos rfl

theorem spell_nan : spell nan = "NaN" := by
  decide

theorem spell_infinity : spell infinity = "Infinity" := by
  decide

theorem spell_neg_infinity : spell (-infinity) = "-" ++ "Infinity" := by
  decide

end ScriptRepl.Number
