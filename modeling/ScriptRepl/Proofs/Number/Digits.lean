import ScriptRepl.Number.Numeral

/-! Decimal digits: those of a number, and what a row of digits stands for. -/
namespace ScriptRepl.Number

theorem isDigit_of_mem_toDigits {n : Nat} {c : Char} (hc : c ∈ Nat.toDigits 10 n) : isDigit c = true := by
  have hdigit := Nat.isDigit_of_mem_toDigits (by decide) (Nat.le_refl 10) hc
  simp only [Char.isDigit, Bool.and_eq_true, decide_eq_true_eq] at hdigit
  simp only [isDigit, Bool.and_eq_true, decide_eq_true_eq]
  exact hdigit

/-- A numeral starts with a digit, which is a zero only if there is no other. -/
theorem exists_cons_toDigits (n : Nat) :
    ∃ c cs, Nat.toDigits 10 n = c :: cs ∧ isDigit c = true ∧ (c = '0' → n = 0) := by
  induction n using Nat.strongRecOn with
  | ind n ih =>
      by_cases hn : n < 10
      · have hdigit : ∀ n < 10, isDigit n.digitChar = true ∧ (n.digitChar = '0' → n = 0) := by decide
        exact ⟨n.digitChar, [], Nat.toDigits_of_lt_base hn, hdigit n hn⟩
      · obtain ⟨c, cs, hdigits, hc, hzero⟩ := ih (n / 10) (Nat.div_lt_self (by omega) (by decide))
        refine ⟨c, cs ++ [(n % 10).digitChar], ?_, hc, fun h => ?_⟩
        · rw [Nat.toDigits_of_base_le (by decide) (by omega), hdigits]
          rfl
        · have hless := hzero h
          omega

/-- Zeros in front do not count. -/
theorem digitsToNat_zeros_append (zeros n : Nat) :
    digitsToNat (List.replicate zeros '0' ++ Nat.toDigits 10 n) = n := by
  have hzeros : (List.replicate zeros '0').foldl (fun n c => 10 * n + (c.toNat - 48)) 0 = 0 := by
    induction zeros with
    | zero => rfl
    | succ zeros ih => exact ih
  rw [digitsToNat, List.foldl_append, hzeros]
  exact Nat.ofDigitChars_toDigits (by decide) (Nat.le_refl 10)

theorem toDigits_of_isDigit {c : Char} (h : isDigit c = true) :
    c.toNat - 48 < 10 ∧ Nat.toDigits 10 (c.toNat - 48) = [c] := by
  simp only [isDigit, Bool.and_eq_true, decide_eq_true_eq] at h
  have hlow : 48 ≤ c.toNat := h.1
  have hhigh : c.toNat ≤ 57 := h.2
  have hchar : ∀ n < 10, Nat.digitChar n = Char.ofNat (n + 48) := by decide
  refine ⟨by omega, ?_⟩
  rw [Nat.toDigits_of_lt_base (by omega), hchar _ (by omega), Nat.sub_add_cancel hlow, Char.ofNat_toNat]

theorem toDigits_append {n : Nat} (hn : 0 < n) {cs : List Char} (hdigits : ∀ c ∈ cs, isDigit c = true) :
    Nat.toDigits 10 n ++ cs = Nat.toDigits 10 (Nat.ofDigitChars 10 cs n) := by
  induction cs generalizing n with
  | nil => exact List.append_nil _
  | cons c cs ih =>
      obtain ⟨hlt, hc⟩ := toDigits_of_isDigit (hdigits c List.mem_cons_self)
      calc Nat.toDigits 10 n ++ c :: cs
          = (Nat.toDigits 10 n ++ Nat.toDigits 10 (c.toNat - 48)) ++ cs := by rw [hc, List.append_cons]
        _ = Nat.toDigits 10 (10 * n + (c.toNat - 48)) ++ cs := by
          rw [Nat.toDigits_append_toDigits (by decide) hn hlt]
        _ = _ := ih (by omega) fun d hd => hdigits d (List.mem_cons_of_mem _ hd)

/-- A row of digits is the digits of the number that it stands for, after zeros. -/
theorem exists_zeros_append {cs : List Char} (hne : cs ≠ []) (hdigits : ∀ c ∈ cs, isDigit c = true) :
    ∃ zeros, cs = List.replicate zeros '0' ++ Nat.toDigits 10 (digitsToNat cs) := by
  induction cs with
  | nil => exact absurd rfl hne
  | cons c cs ih =>
      have hcs : ∀ d ∈ cs, isDigit d = true := fun d hd => hdigits d (List.mem_cons_of_mem _ hd)
      by_cases hzero : c = '0'
      · subst hzero
        by_cases hnil : cs = []
        · subst hnil
          exact ⟨0, rfl⟩
        · obtain ⟨zeros, heq⟩ := ih hnil hcs
          exact ⟨zeros + 1, congrArg ('0' :: ·) heq⟩
      · obtain ⟨-, hc⟩ := toDigits_of_isDigit (hdigits c List.mem_cons_self)
        have hpos : 0 < c.toNat - 48 := by
          refine Nat.pos_of_ne_zero fun h => hzero ?_
          rw [h] at hc
          exact (List.cons.inj hc).1.symm
        have hvalue : digitsToNat (c :: cs) = Nat.ofDigitChars 10 cs (c.toNat - 48) := by
          rw [digitsToNat, List.foldl_cons, Nat.mul_zero, Nat.zero_add]
          rfl
        refine ⟨0, ?_⟩
        rw [hvalue, ← toDigits_append hpos hcs, hc]
        rfl

end ScriptRepl.Number
