import Mathlib.Data.List.Forall2
import ScriptRepl.Number.Numeral
import ScriptRepl.Proofs.Number.Length
import ScriptRepl.Proofs.Number.Whole

/-! Whole numbers written in a radix and read back. The digits that are written are the numeral of the number, as long
as the number is below `2 ^ 128`, and up to 53 bits reading them rounds nowhere. -/
namespace ScriptRepl.Number

variable {radix n d : Nat} {ds : List Nat} {x : Float}

/-! ### Numerals -/

/-- The number that digits of a radix stand for, the first of them the most significant. -/
def valueOf (radix : Nat) (ds : List Nat) : Nat :=
  ds.foldl (fun n d => radix * n + d) 0

/-- The text is a numeral of the number: its digits stand for the number, and it starts with a zero only if this is its
only digit. -/
def IsNumeral (radix : Nat) (text : List Char) (n : Nat) : Prop :=
  ∃ ds, text = ds.map digitChar ∧ ds ≠ [] ∧ (∀ d ∈ ds, d < radix) ∧ (ds.head? = some 0 → ds = [0]) ∧ valueOf radix ds = n

theorem valueOf_concat (radix : Nat) (ds : List Nat) (d : Nat) :
    valueOf radix (ds ++ [d]) = radix * valueOf radix ds + d := by
  rw [valueOf, List.foldl_append]
  rfl

theorem isNumeral_radixDigits (hradix : 2 ≤ radix) (n : Nat) : IsNumeral radix (radixDigits radix n) n := by
  fun_induction radixDigits radix n with
  | case1 n h ih =>
      obtain ⟨ds, htext, hne, hdigits, hzero, hvalue⟩ := ih
      refine ⟨ds ++ [n % radix], by rw [htext, List.map_append]; rfl, by simp, ?_, ?_, ?_⟩
      · intro d hd
        rcases List.mem_append.mp hd with hd | hd
        · exact hdigits d hd
        · rw [List.mem_singleton.mp hd]
          exact Nat.mod_lt _ (by omega)
      · intro hhead
        rw [List.head?_append_of_ne_nil _ hne] at hhead
        -- what is in front is the numeral of a number that is not zero
        rw [hzero hhead] at hvalue
        have hpos : 0 < n / radix := Nat.div_pos h.2 (by omega)
        exact absurd hvalue hpos.ne
      · rw [valueOf_concat, hvalue]
        exact Nat.div_add_mod n radix
  | case2 n h =>
      refine ⟨[n], rfl, nofun, List.forall_mem_singleton.mpr (by omega), fun hhead => ?_, ?_⟩
      · rw [Option.some.inj hhead]
      · simp [valueOf]

/-! ### Writing -/

/-- The double is exactly the integer. -/
def DenotesInt (x : Float) (n : Int) : Prop :=
  ∃ b, Binary.ofFloat? x = some b ∧ b.isIntegral = true ∧ (if b.negative then -(b.whole : Int) else b.whole) = n

/-- The sign of an integer where it is written. -/
def signOf (n : Int) : List Char :=
  if n < 0 then ['-'] else []

theorem toList_spellInRadix {n : Int} (hx : DenotesInt x n) (hradix : radix ≠ 10) :
    (spellInRadix radix x).toList = signOf n ++ radixDigits radix (min n.natAbs (2 ^ 128 - 1)) := by
  obtain ⟨b, hb, hintegral, rfl⟩ := hx
  have htwo : twoTo 128 = 2 ^ 128 := rfl
  have hother : (!b.isIntegral || radix == 10) = false := by
    simp [hintegral, hradix]
  simp only [spellInRadix, hb, hother, Bool.false_eq_true, if_false, htwo, withSign, signOf]
  cases b.negative with
  | false => simp
  | true =>
      rcases Nat.eq_zero_or_pos b.whole with hzero | hpos
      · simp [hzero]
      · simp [hpos, hpos.ne']

/-! ### Reading -/

theorem digitValue?_digitChar (hradix : radix ≤ 36) (hd : d < radix) : digitValue? radix (digitChar d) = some d := by
  have hall : ∀ radix ≤ 36, ∀ d < radix, digitValue? radix (digitChar d) = some d := by decide +kernel
  exact hall radix hradix d hd

theorem takeDigits_map_digitChar (hradix : radix ≤ 36) (hds : ∀ d ∈ ds, d < radix) :
    takeDigits radix (ds.map digitChar) = ds := by
  induction ds with
  | nil => rfl
  | cons d ds ih =>
      obtain ⟨hd, hds⟩ := List.forall_mem_cons.mp hds
      rw [List.map_cons, takeDigits, digitValue?_digitChar hradix hd]
      exact congrArg (d :: ·) (ih hds)

/-- A text is the numeral of one number only. -/
theorem IsNumeral.eq {text : List Char} {m n : Nat} (hradix : radix ≤ 36) (hm : IsNumeral radix text m)
    (hn : IsNumeral radix text n) : m = n := by
  obtain ⟨ds, rfl, -, hds, -, rfl⟩ := hm
  obtain ⟨es, htext, -, hes, -, rfl⟩ := hn
  have hsame := congrArg (takeDigits radix) htext
  rw [takeDigits_map_digitChar hradix hds, takeDigits_map_digitChar hradix hes] at hsame
  rw [hsame]

theorem roundWhole_of_lt (hn : n < 2 ^ 53) : roundWhole n = some n := by
  have hplace : n.log2 - 52 = 0 := by
    rcases Nat.eq_zero_or_pos n with rfl | hpos
    · rfl
    · have hlog := (Nat.log2_lt hpos.ne').mpr hn
      omega
  have hrounded : divNearest n (twoTo 0) * twoTo 0 = n := by
    have hexact := divNearest_mul n Nat.one_pos
    rw [Nat.mul_one] at hexact
    exact (Nat.mul_one _).trans hexact
  have hfinite : n < twoTo 1024 := hn.trans_le (twoTo_mono (show 53 ≤ 1024 by decide))
  simp only [roundWhole, hplace, hrounded, if_pos hfinite]

theorem appendDigit_of_lt (hn : radix * n + d < 2 ^ 53) : appendDigit radix (some n) d = some (radix * n + d) := by
  have hproduct : roundWhole (n * radix) = some (radix * n) := by
    rw [Nat.mul_comm]
    exact roundWhole_of_lt (by omega)
  rw [appendDigit, Option.bind_some, hproduct, Option.bind_some, roundWhole_of_lt hn]

theorem le_foldl_digits (hradix : 0 < radix) (ds : List Nat) (n : Nat) :
    n ≤ ds.foldl (fun n d => radix * n + d) n := by
  induction ds generalizing n with
  | nil => exact Nat.le_refl n
  | cons d ds ih =>
      have hstep : n ≤ radix * n + d := (Nat.le_mul_of_pos_left n hradix).trans (Nat.le_add_right _ _)
      exact hstep.trans (ih _)

/-- No step of the reading rounds, as no number on the way is above the last one. -/
theorem foldl_appendDigit (hradix : 0 < radix) (ds : List Nat) (n : Nat)
    (hvalue : ds.foldl (fun n d => radix * n + d) n < 2 ^ 53) :
    ds.foldl (appendDigit radix) (some n) = some (ds.foldl (fun n d => radix * n + d) n) := by
  induction ds generalizing n with
  | nil => rfl
  | cons d ds ih =>
      have hstep := le_foldl_digits hradix ds (radix * n + d)
      rw [List.foldl_cons, appendDigit_of_lt (hstep.trans_lt hvalue)]
      exact ih _ hvalue

/-- No digit of a radix is a blank or a sign. -/
theorem takeSign_trimLeft {n : Int} (hne : ds ≠ []) (hds : ∀ d ∈ ds, d < 36) :
    takeSign (Text.trimLeft (signOf n ++ ds.map digitChar)) = (decide (n < 0), ds.map digitChar) := by
  have hplain : ∀ d < 36, Text.isBlank (digitChar d) = false ∧ digitChar d ≠ '-' ∧ digitChar d ≠ '+' := by decide
  obtain ⟨d, ds, rfl⟩ := List.exists_cons_of_ne_nil hne
  obtain ⟨hblank, hminus, hplus⟩ := hplain d (hds d List.mem_cons_self)
  rw [signOf, List.map_cons]
  split
  · rename_i hn
    rw [decide_eq_true hn]
    rfl
  · rename_i hn
    rw [decide_eq_false hn, List.nil_append, Text.trimLeft, List.dropWhile_cons_of_neg (by simp [hblank]), takeSign]
    · exact fun _ heq => hminus (List.cons.inj heq).1
    · exact fun _ heq => hplus (List.cons.inj heq).1

/-- What marks hexadecimal digits is not a hexadecimal digit itself. -/
theorem afterHexMark?_map_digitChar (hds : ∀ d ∈ ds, d < 16) : afterHexMark? (ds.map digitChar) = none := by
  have hmark : ∀ d < 16, digitChar d ≠ 'x' ∧ digitChar d ≠ 'X' := by decide
  have hsecond {c : Char} {cs : List Char} (hc : c = 'x' ∨ c = 'X') : ds.map digitChar ≠ '0' :: c :: cs := by
    intro heq
    obtain ⟨d, hd, rfl⟩ := List.mem_map.mp (heq ▸ List.mem_cons_of_mem '0' List.mem_cons_self : c ∈ ds.map digitChar)
    obtain ⟨hx, hX⟩ := hmark d (hds d hd)
    exact hc.elim hx hX
  unfold afterHexMark?
  split
  · rename_i heq
    exact absurd heq (hsecond (.inl rfl))
  · rename_i heq
    exact absurd heq (hsecond (.inr rfl))
  · rfl

/-- The numeral of a number of up to 53 bits is read as this number. -/
theorem denotesInt_ofRadixStart {text : List Char} {n : Int} (hlow : 2 ≤ radix) (hhigh : radix ≤ 36)
    (htext : IsNumeral radix text n.natAbs) (hn : n.natAbs < 2 ^ 53) :
    DenotesInt (ofRadixStart (String.ofList (signOf n ++ text)) radix) n := by
  obtain ⟨ds, rfl, hne, hds, -, hvalue⟩ := htext
  have hsign := takeSign_trimLeft (n := n) hne fun d hd => (hds d hd).trans_le hhigh
  have hmarked : (if radix = 0 ∨ radix = 16 then afterHexMark? (ds.map digitChar) else none) = none := by
    split
    · rename_i h
      have h16 : radix = 16 := h.resolve_left (by omega)
      exact afterHexMark?_map_digitChar (h16 ▸ hds)
    · rfl
  have hradix : radix ≠ 0 ∧ ¬ (radix < 2 ∨ 36 < radix) := by omega
  have hread : ds.foldl (appendDigit radix) (some 0) = some n.natAbs := by
    have hexact := foldl_appendDigit (by omega) ds 0 (hvalue.trans_lt hn)
    rw [hexact, ← hvalue]
    rfl
  have hresult : ofRadixStart (String.ofList (signOf n ++ ds.map digitChar)) radix = ofInt n := by
    simp only [ofRadixStart, String.toList_ofList, hsign, hmarked, Option.isSome_none, Bool.false_eq_true, if_false,
      if_neg hradix.1, if_neg hradix.2, Option.getD_none, takeDigits_map_digitChar hhigh hds]
    cases ds with
    | nil => exact absurd rfl hne
    | cons d ds =>
        simp only [hread]
        rfl
  rw [hresult]
  obtain ⟨b, hb, hintegral, -, hn⟩ := ofFloat?_ofInt hn.le
  exact ⟨b, hb, hintegral, hn⟩

end ScriptRepl.Number
