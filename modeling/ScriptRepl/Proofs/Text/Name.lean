import Mathlib.Tactic.ByContra
import ScriptRepl.Number.Numeral
import ScriptRepl.Text.Blank
import ScriptRepl.Text.Letter

/-! The characters of names: none of them is blank, and the first one is no digit. -/
namespace ScriptRepl.Text

variable {c : Char}

/-- The code points of the blanks. -/
def blankPoints : List Nat :=
  [0x09, 0x0a, 0x0b, 0x0c, 0x0d, 0x20, 0x85, 0xa0, 0x1680, 0x2000, 0x2001, 0x2002, 0x2003, 0x2004, 0x2005, 0x2006,
   0x2007, 0x2008, 0x2009, 0x200a, 0x2028, 0x2029, 0x202f, 0x205f, 0x3000]

theorem mem_blankPoints (h : isBlank c = true) : c.toNat ∈ blankPoints := by
  unfold isBlank at h
  unfold blankPoints
  split at h
  · simp only [Bool.or_eq_true, beq_iff_eq, Bool.and_eq_true, decide_eq_true_eq] at h
    rcases h with rfl | h
    · decide
    · simp only [List.mem_cons]
      omega
  · simp only [Bool.or_eq_true, beq_iff_eq, Bool.and_eq_true, decide_eq_true_eq] at h
    simp only [List.mem_cons]
    omega

theorem not_isBlank_of_isNameChar (h : isNameChar c = true) : isBlank c = false := by
  by_contra hblank
  have hplain : ∀ n ∈ blankPoints, isNameChar (Char.ofNat n) = false := by decide +kernel
  have hpoint := hplain _ (mem_blankPoints (eq_true_of_ne_false hblank))
  rw [Char.ofNat_toNat, h] at hpoint
  cases hpoint

theorem isNameChar_of_isNameStart (h : isNameStart c = true) : isNameChar c = true := by
  rw [isNameChar, h]
  rfl

theorem isDigit_of_isNameStart (h : isNameStart c = true) : Number.isDigit c = false := by
  by_contra hdigit
  have hplain : ∀ n < 10, isNameStart (Char.ofNat (48 + n)) = false := by decide
  have hbounds : '0' ≤ c ∧ c ≤ '9' := by
    simpa [Number.isDigit] using hdigit
  have hlow : 48 ≤ c.toNat := hbounds.1
  have hhigh : c.toNat ≤ 57 := hbounds.2
  have hpoint := hplain (c.toNat - 48) (by omega)
  rw [Nat.add_sub_cancel' hlow, Char.ofNat_toNat, h] at hpoint
  cases hpoint

theorem isNameStart_of_isName {s : String} (h : isName s = true) : ∀ c ∈ s.toList.head?, isNameStart c = true := by
  unfold isName at h
  split at h
  · cases h
  · rename_i c cs hchars
    rw [hchars]
    rintro _ ⟨⟩
    exact (Bool.and_eq_true _ _ ▸ h).1

theorem isNameChar_of_isName {s : String} (h : isName s = true) : ∀ c ∈ s.toList, isNameChar c = true := by
  unfold isName at h
  split at h
  · cases h
  · rename_i c cs hchars
    rw [Bool.and_eq_true, List.all_eq_true] at h
    rw [hchars]
    intro d hd
    rcases List.mem_cons.mp hd with rfl | hd
    · exact isNameChar_of_isNameStart h.1
    · exact h.2 d hd

end ScriptRepl.Text
