import Mathlib.Algebra.Order.Ring.Nat
import ScriptRepl.Number.Text

/-! How long the spelling of a number gets. The bounds are far from the longest spelling, but they hold of all
numbers. -/
namespace ScriptRepl.Number

variable {x : Float} {b : Binary} {d : Decimal}

theorem twoTo_mono {m n : Nat} (h : m ≤ n) : twoTo m ≤ twoTo n :=
  Nat.pow_le_pow_right (by decide) h

theorem tenTo_mono {m n : Nat} (h : m ≤ n) : tenTo m ≤ tenTo n :=
  Nat.pow_le_pow_right (by decide) h

theorem Binary.bounds (h : Binary.ofFloat? x = some b) :
    b.mantissa < twoTo 53 ∧ -1074 ≤ b.exponent ∧ b.exponent ≤ 971 := by
  have hfraction : x.toBits.toNat % twoTo 52 < 2 ^ 52 := Nat.mod_lt _ (twoTo_pos 52)
  have hbiased : x.toBits.toNat / twoTo 52 % twoTo 11 < 2 ^ 11 := Nat.mod_lt _ (twoTo_pos 11)
  have hpower : twoTo 52 = 2 ^ 52 ∧ twoTo 53 = 2 ^ 53 := ⟨rfl, rfl⟩
  unfold Binary.ofFloat? at h
  dsimp only at h
  split at h
  · cases h
  split at h
  · cases h
    dsimp only
    omega
  · cases h
    dsimp only
    omega

/-- Digits that fit into `tenTo 651`, with an exponent of at most four digits. -/
structure Decimal.Moderate (d : Decimal) : Prop where
  digits : d.digits < tenTo 651
  low : -1074 ≤ d.exponent
  high : d.exponent ≤ 988

theorem Decimal.dropZeros_bounds (fuel : Nat) (d : Decimal) :
    (d.dropZeros fuel).digits ≤ d.digits ∧ d.exponent ≤ (d.dropZeros fuel).exponent ∧
      (d.dropZeros fuel).exponent ≤ d.exponent + fuel := by
  induction fuel generalizing d with
  | zero => exact ⟨Nat.le_refl _, Int.le_refl _, by simp [dropZeros]⟩
  | succ fuel ih =>
      rw [dropZeros]
      split
      · obtain ⟨hdigits, hlow, hhigh⟩ := ih ⟨d.digits / 10, d.exponent + 1⟩
        dsimp only at hdigits hlow hhigh
        omega
      · omega

theorem magnitude_bounds {m : Nat} {e : Int} (hm : m < twoTo 53) (hlow : -1074 ≤ e) (hhigh : e ≤ 971) :
    -326 ≤ magnitude m e ∧ magnitude m e ≤ 309 := by
  have hlog : m.log2 ≤ 53 := by
    by_cases hm0 : m = 0
    · rw [hm0]
      decide
    · exact Nat.le_of_lt ((Nat.log2_lt hm0).mpr hm)
  unfold magnitude
  dsimp only
  split
  · omega
  · split <;> omega

theorem scaling_le {s t : Int} (hs : s ≤ 969) (ht : -342 ≤ t) : (scaling s t).1 ≤ twoTo 969 * tenTo 342 :=
  Nat.mul_le_mul (twoTo_mono (by omega)) (tenTo_mono (by omega))

theorem onGrid?_bounds {tie : Tie} {top : Int} {n : Nat} (h : onGrid? tie b top n = some d)
    (hm : b.mantissa < twoTo 53) (he : b.exponent ≤ 971) (htop : -326 ≤ top) (hn : n ≤ 17) :
    d.digits < tenTo 651 ∧ d.exponent = top - n + 1 := by
  have hscale : (scaling (b.exponent - 2) (top - n + 1)).1 ≤ twoTo 969 * tenTo 342 := scaling_le (by omega) (by omega)
  have hvalue : 4 * b.mantissa * (scaling (b.exponent - 2) (top - n + 1)).1 ≤ 4 * twoTo 53 * (twoTo 969 * tenTo 342) :=
    Nat.mul_le_mul (Nat.mul_le_mul_left 4 (Nat.le_of_lt hm)) hscale
  have hbound : 4 * twoTo 53 * (twoTo 969 * tenTo 342) + 1 < tenTo 651 := by decide +kernel
  have hquotient : ∀ unit, 4 * b.mantissa * (scaling (b.exponent - 2) (top - n + 1)).1 / unit + 1 < tenTo 651 :=
    fun unit => Nat.lt_of_le_of_lt (Nat.add_le_add_right ((Nat.div_le_self _ unit).trans hvalue) 1) hbound
  have hdigits (upper : Bool) (unit : Nat) :
      (if upper then 4 * b.mantissa * (scaling (b.exponent - 2) (top - n + 1)).1 / unit + 1
        else 4 * b.mantissa * (scaling (b.exponent - 2) (top - n + 1)).1 / unit) < tenTo 651 := by
    split
    · exact hquotient unit
    · exact Nat.lt_of_succ_lt (hquotient unit)
  have hcases : ∀ {p q : Bool} {near far : Decimal},
      (if p then some near else if q then some far else none) = some d → d = near ∨ d = far := by
    rintro (_ | _) (_ | _) near far h <;> cases h
    · exact .inr rfl
    · exact .inl rfl
    · exact .inl rfl
  unfold onGrid? at h
  rcases hcases h with rfl | rfl
  · exact ⟨hdigits _ _, rfl⟩
  · refine ⟨?_, rfl⟩
    dsimp only
    split
    · exact Nat.lt_of_succ_lt (hquotient _)
    · exact hquotient _

theorem shortest_moderate (h : Binary.ofFloat? x = some b) (tie : Tie) : (shortest tie b).Moderate := by
  obtain ⟨hm, hlow, hhigh⟩ := Binary.bounds h
  obtain ⟨htop, htop'⟩ := magnitude_bounds hm hlow hhigh
  have hfound : ∀ d, d = ((List.range' 1 17).findSome? (onGrid? tie b (magnitude b.mantissa b.exponent))).getD
      ⟨b.mantissa, b.exponent⟩ → d.digits < tenTo 651 ∧ -1074 ≤ d.exponent ∧ d.exponent ≤ 971 := by
    rintro d rfl
    cases hgrid : (List.range' 1 17).findSome? (onGrid? tie b (magnitude b.mantissa b.exponent)) with
    | none => exact ⟨Nat.lt_trans hm (by decide +kernel), hlow, hhigh⟩
    | some d =>
        obtain ⟨n, hn, hd⟩ := List.exists_of_findSome?_eq_some hgrid
        rw [List.mem_range'_1] at hn
        obtain ⟨hdigits, hexponent⟩ := onGrid?_bounds hd hm hhigh htop (by omega)
        rw [Option.getD_some]
        exact ⟨hdigits, by omega, by omega⟩
  obtain ⟨hdigits, hlow', hhigh'⟩ := hfound _ rfl
  obtain ⟨hdropped, hfrom, hto⟩ := Decimal.dropZeros_bounds 17
    (((List.range' 1 17).findSome? (onGrid? tie b (magnitude b.mantissa b.exponent))).getD ⟨b.mantissa, b.exponent⟩)
  exact ⟨Nat.lt_of_le_of_lt hdropped hdigits, hlow'.trans hfrom, by unfold shortest; dsimp only; omega⟩

/-! ### Texts -/

theorem length_toDigits {n k : Nat} (hk : 0 < k) (h : n < tenTo k) : (Nat.toDigits 10 n).length ≤ k :=
  (Nat.length_toDigits_le_iff (by decide) hk).mpr h

theorem length_toString {n k : Nat} (hk : 0 < k) (h : n < tenTo k) : (toString n).toList.length ≤ k := by
  have htext : (toString n).toList = Nat.toDigits 10 n := by simp
  rw [htext]
  exact length_toDigits hk h

theorem length_positional (d : Decimal) :
    (positional d).toList.length ≤ d.digitTexts.length + d.exponent.natAbs + 2 := by
  unfold positional
  dsimp only
  split
  · rw [String.toList_ofList, List.length_append, List.length_replicate]
    omega
  · rw [String.toList_ofList, List.length_append, List.length_cons, List.length_take, List.length_drop,
      List.length_append, List.length_replicate]
    omega

theorem length_scientificDigits (d : Decimal) : (scientificDigits d).toList.length ≤ d.digitTexts.length + 1 := by
  unfold scientificDigits
  split
  · rename_i hdigits
    rw [String.toList_ofList, hdigits]
    exact Nat.le_refl _
  · rw [String.toList_ofList]
    exact Nat.le_succ _

theorem length_withSign (negative : Bool) (s : String) : (withSign negative s).toList.length ≤ s.toList.length + 1 := by
  unfold withSign
  split
  · rw [String.toList_append, List.length_append, Nat.add_comm]
    exact Nat.le_refl _
  · exact Nat.le_succ _

theorem whole_lt (h : Binary.ofFloat? x = some b) : b.whole < tenTo 651 := by
  obtain ⟨hm, -, hhigh⟩ := Binary.bounds h
  have hbound : twoTo 53 * twoTo 971 < tenTo 651 := by decide +kernel
  unfold Binary.whole
  split
  · exact Nat.lt_of_le_of_lt
      (Nat.mul_le_mul (Nat.le_of_lt hm) (twoTo_mono (by omega))) hbound
  · exact Nat.lt_of_le_of_lt (Nat.div_le_self _ _) (Nat.lt_trans hm (by decide +kernel))

theorem length_spell (x : Float) : (spell x).toList.length ≤ 2000 := by
  unfold spell
  split
  · split
    · decide
    · exact (length_withSign _ _).trans (by decide)
  · rename_i b h
    obtain ⟨hdigits, hlow, hhigh⟩ := shortest_moderate h .upward
    have hlength : (shortest .upward b).digitTexts.length ≤ 651 := length_toDigits (by decide) hdigits
    refine (length_withSign _ _).trans (Nat.succ_le_succ ?_)
    split
    · decide
    · dsimp only
      split
      · have hscientific := length_scientificDigits (shortest .upward b)
        have hmagnitude : (shortest .upward b).magnitude.natAbs < tenTo 4 := by
          have hlength' : (Nat.toDigits 10 (shortest .upward b).digits).length ≤ 651 := hlength
          have hfour : tenTo 4 = 10000 := rfl
          unfold Decimal.magnitude
          omega
        have hexponent := length_toString (by decide) hmagnitude
        have hsign : (if (shortest .upward b).magnitude < 0 then "-" else "+").toList.length = 1 := by
          split <;> rfl
        have hmark : "e".toList.length = 1 := rfl
        rw [String.toList_append, String.toList_append, String.toList_append, List.length_append, List.length_append,
          List.length_append]
        omega
      · split
        · exact (length_toString (by decide) (whole_lt h)).trans (by decide)
        · have hpositional := length_positional (shortest .upward b)
          omega

theorem divNearest_le (num den : Nat) : divNearest num den ≤ num + 1 := by
  have hquotient := Nat.div_le_self num den
  unfold divNearest
  dsimp only
  split
  · omega
  · split <;> omega

theorem length_fixed {places : Nat} (hplaces : places ≤ 100) (x : Float) : (fixed places x).toList.length ≤ 2000 := by
  unfold fixed
  split
  · split
    · decide
    · exact (length_withSign _ _).trans (by decide)
  · rename_i b h
    obtain ⟨hm, -, hhigh⟩ := Binary.bounds h
    have hscaled : b.mantissa * tenTo places ≤ twoTo 53 * tenTo 100 :=
      Nat.mul_le_mul (Nat.le_of_lt hm) (tenTo_mono hplaces)
    have hunits : (if 0 ≤ b.exponent then b.mantissa * tenTo places * twoTo b.exponent.toNat
        else divNearest (b.mantissa * tenTo places) (twoTo (-b.exponent).toNat)) < tenTo 651 := by
      split
      · have hpower : twoTo b.exponent.toNat ≤ twoTo 971 := twoTo_mono (by omega)
        exact Nat.lt_of_le_of_lt (Nat.mul_le_mul hscaled hpower) (by decide +kernel)
      · exact Nat.lt_of_le_of_lt ((divNearest_le _ _).trans (Nat.succ_le_succ hscaled)) (by decide +kernel)
    have hlength := length_toDigits (by decide) hunits
    refine (length_withSign _ _).trans (Nat.succ_le_succ ?_)
    have hpositional := length_positional ⟨if 0 ≤ b.exponent then b.mantissa * tenTo places * twoTo b.exponent.toNat
        else divNearest (b.mantissa * tenTo places) (twoTo (-b.exponent).toNat), -places⟩
    unfold Decimal.digitTexts at hpositional
    dsimp only at hpositional ⊢
    omega

theorem length_radixDigits {radix n k : Nat} (h : n < 2 ^ (k + 1)) : (radixDigits radix n).length ≤ k + 1 := by
  induction k generalizing n with
  | zero =>
      rw [radixDigits, if_neg (by omega)]
      exact Nat.le_refl _
  | succ k ih =>
      rw [radixDigits]
      split
      · rename_i hradix
        have hhalf : n / radix ≤ n / 2 := Nat.div_le_div_left hradix.1 (by decide)
        have hless : n / radix < 2 ^ (k + 1) := by
          rw [Nat.pow_succ] at h
          omega
        rw [List.length_append]
        exact Nat.succ_le_succ (ih hless)
      · exact Nat.succ_le_succ (Nat.zero_le _)

theorem length_spellInRadix (radix : Nat) (x : Float) : (spellInRadix radix x).toList.length ≤ 2000 := by
  unfold spellInRadix
  split
  · exact length_spell x
  · rename_i b h
    split
    · exact length_spell x
    · have hless : min b.whole (twoTo 128 - 1) < 2 ^ (127 + 1) :=
        Nat.lt_of_le_of_lt (Nat.min_le_right _ _) (by decide)
      refine (length_withSign _ _).trans (Nat.succ_le_succ ?_)
      rw [String.toList_ofList]
      exact (length_radixDigits hless).trans (by decide)

end ScriptRepl.Number
