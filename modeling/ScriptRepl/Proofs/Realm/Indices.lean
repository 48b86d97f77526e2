import Mathlib.Algebra.Order.Ring.Nat
import ScriptRepl.Proofs.Number.Digits
import ScriptRepl.Realm.Basic

/-! The keys that mean a place in a list or a text: more than one key for each place, as zeros and a plus sign in
front of its digits do not count. -/
namespace ScriptRepl

/-- The key is the digits of the number, after any zeros, and after a plus sign or none. -/
def Spells (key : String) (n : Nat) : Prop :=
  ∃ zeros, key.toList = List.replicate zeros '0' ++ Nat.toDigits 10 n ∨
    key.toList = '+' :: (List.replicate zeros '0' ++ Nat.toDigits 10 n)

theorem index?_of_digits {key : String} {cs : List Char} (hkey : key.toList = cs ∨ key.toList = '+' :: cs)
    (hne : cs ≠ []) (hdigits : ∀ c ∈ cs, Number.isDigit c = true) :
    index? key = if Number.digitsToNat cs < 2 ^ 64 then some (Number.digitsToNat cs) else none := by
  have hall : cs.all Number.isDigit = true := List.all_eq_true.mpr hdigits
  have htwo : Number.twoTo 64 = 2 ^ 64 := rfl
  unfold index?
  rcases hkey with hkey | hkey
  · cases cs with
    | nil => exact absurd rfl hne
    | cons c cs =>
        have hplus : c ≠ '+' := by
          rintro rfl
          exact absurd (hdigits '+' List.mem_cons_self) (by decide)
        simp only [hkey]
        split
        · simp_all
        · simp [hall, htwo]
  · simp [hkey, hne, hall, htwo]

theorem exists_digits_of_index? {key : String} {n : Nat} (h : index? key = some n) :
    ∃ cs, (key.toList = cs ∨ key.toList = '+' :: cs) ∧ cs ≠ [] ∧ ∀ c ∈ cs, Number.isDigit c = true := by
  have hcond {cs : List Char} {o : Option Nat}
      (h : (if (cs.isEmpty || !cs.all Number.isDigit) = true then none else o) = some n) :
      cs ≠ [] ∧ ∀ c ∈ cs, Number.isDigit c = true := by
    have hnot := (Option.ite_none_left_eq_some.mp h).1
    simpa [not_or] using hnot
  unfold index? at h
  dsimp only at h
  split at h
  · rename_i cs hkey
    exact ⟨cs, .inr hkey, hcond h⟩
  · exact ⟨key.toList, .inl rfl, hcond h⟩

/-- The keys that are read as a place are its spellings. -/
theorem index?_eq_some_iff {key : String} {n : Nat} : index? key = some n ↔ Spells key n ∧ n < 2 ^ 64 := by
  constructor
  · intro h
    obtain ⟨cs, hkey, hne, hdigits⟩ := exists_digits_of_index? h
    rw [index?_of_digits hkey hne hdigits] at h
    obtain ⟨hlt, hvalue⟩ := Option.ite_none_right_eq_some.mp h
    obtain rfl := Option.some.inj hvalue
    obtain ⟨zeros, hzeros⟩ := Number.exists_zeros_append hne hdigits
    exact ⟨⟨zeros, by rwa [← hzeros]⟩, hlt⟩
  · rintro ⟨⟨zeros, hkey⟩, hlt⟩
    have hdigits : ∀ c ∈ List.replicate zeros '0' ++ Nat.toDigits 10 n, Number.isDigit c = true := by
      intro c hc
      rcases List.mem_append.mp hc with hzero | hdigit
      · rw [List.eq_of_mem_replicate hzero]
        decide
      · exact Number.isDigit_of_mem_toDigits hdigit
    rw [index?_of_digits hkey (by simp) hdigits, Number.digitsToNat_zeros_append, if_pos hlt]

/-- Places from `2 ^ 64` on have no spelling that is read. -/
theorem index?_toString (n : Nat) : index? (toString n) = if n < 2 ^ 64 then some n else none := by
  have hkey : (toString n).toList = Nat.toDigits 10 n := String.toList_ofList
  have hvalue : Number.digitsToNat (Nat.toDigits 10 n) = n := Number.digitsToNat_zeros_append 0 n
  rw [index?_of_digits (.inl hkey) (by simp) fun c hc => Number.isDigit_of_mem_toDigits hc, hvalue]

end ScriptRepl
