import ScriptRepl.Number.Text

/-! The characters that numbers are spelled with. -/
namespace ScriptRepl

theorem Text.char_of_lt {bound : Nat} (p : Char → Prop) (h : ∀ n < bound, p (Char.ofNat n)) {c : Char}
    (hc : c.toNat < bound) : p c := by
  have hpoint := h c.toNat hc
  rwa [Char.ofNat_toNat] at hpoint

namespace Number

/-- Digits, signs, the point and the letters of exponents and of the names of special numbers. -/
def spelling : List Char :=
  "0123456789+-.eNaInfity".toList

theorem mem_spelling_of_isDigit {c : Char} (h : c.isDigit = true) : c ∈ spelling := by
  have hall : ∀ n < 58, (Char.ofNat n).isDigit = true → Char.ofNat n ∈ spelling := by decide
  have hbound : c.toNat < 58 := by
    simp only [Char.isDigit, Bool.and_eq_true, decide_eq_true_eq, UInt32.le_iff_toNat_le] at h
    exact Nat.lt_succ_of_le h.2
  exact Text.char_of_lt (fun c => c.isDigit = true → c ∈ spelling) hall hbound h

theorem mem_spelling_of_mem_toDigits {n : Nat} {c : Char} (h : c ∈ Nat.toDigits 10 n) : c ∈ spelling :=
  mem_spelling_of_isDigit (Nat.isDigit_of_mem_toDigits (by decide) (Nat.le_refl 10) h)

theorem mem_spelling_of_mem_toString {n : Nat} {c : Char} (h : c ∈ (toString n).toList) : c ∈ spelling := by
  apply mem_spelling_of_mem_toDigits (n := n)
  simpa using h

theorem mem_spelling_of_mem_positional {d : Decimal} {c : Char} (h : c ∈ (positional d).toList) : c ∈ spelling := by
  have hzeros (k : Nat) (hc : c ∈ List.replicate k '0') : c ∈ spelling := by
    rw [List.eq_of_mem_replicate hc]
    decide
  unfold positional at h
  dsimp only at h
  split at h
  · rw [String.toList_ofList, List.mem_append] at h
    exact h.elim mem_spelling_of_mem_toDigits (hzeros _)
  · have hpadded : ∀ k, c ∈ List.replicate k '0' ++ d.digitTexts → c ∈ spelling := by
      intro k hc
      rw [List.mem_append] at hc
      exact hc.elim (hzeros k) mem_spelling_of_mem_toDigits
    rw [String.toList_ofList, List.mem_append, List.mem_cons] at h
    rcases h with h | rfl | h
    · exact hpadded _ (List.mem_of_mem_take h)
    · decide
    · exact hpadded _ (List.mem_of_mem_drop h)

theorem mem_spelling_of_mem_scientificDigits {d : Decimal} {c : Char} (h : c ∈ (scientificDigits d).toList) :
    c ∈ spelling := by
  unfold scientificDigits at h
  split at h
  · rename_i first second rest hdigits
    rw [String.toList_ofList, List.mem_cons, List.mem_cons] at h
    have hdigit (hc : c ∈ first :: second :: rest) : c ∈ spelling := by
      rw [← hdigits] at hc
      exact mem_spelling_of_mem_toDigits hc
    rcases h with rfl | rfl | h
    · exact hdigit List.mem_cons_self
    · decide
    · exact hdigit (List.mem_cons_of_mem _ h)
  · rw [String.toList_ofList] at h
    exact mem_spelling_of_mem_toDigits h

theorem mem_spelling_of_mem_spell {x : Float} {c : Char} (h : c ∈ (spell x).toList) : c ∈ spelling := by
  have hsign {negative : Bool} {text : String} (h : c ∈ (withSign negative text).toList)
      (htext : c ∈ text.toList → c ∈ spelling) : c ∈ spelling := by
    unfold withSign at h
    split at h
    · rw [String.toList_append, List.mem_append] at h
      rcases h with h | h
      · rw [List.mem_singleton.mp h]
        decide
      · exact htext h
    · exact htext h
  have hword {s : String} (hs : s.toList.all (· ∈ spelling) = true) (hc : c ∈ s.toList) : c ∈ spelling :=
    of_decide_eq_true (List.all_eq_true.mp hs c hc)
  unfold spell at h
  split at h
  · split at h
    · exact hword (by decide) h
    · exact hsign h (hword (by decide))
  · refine hsign h fun h => ?_
    dsimp only at h
    split at h
    · exact hword (by decide) h
    · split at h
      · simp only [String.toList_append, List.mem_append] at h
        rcases h with ((h | h) | h) | h
        · exact mem_spelling_of_mem_scientificDigits h
        · exact hword (by decide) h
        · split at h
          · exact hword (by decide) h
          · exact hword (by decide) h
        · exact mem_spelling_of_mem_toString h
      · split at h
        · exact mem_spelling_of_mem_toString h
        · exact mem_spelling_of_mem_positional h

end Number

end ScriptRepl
