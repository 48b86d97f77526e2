import Mathlib.Data.List.Infix
import Mathlib.Data.Nat.Find
import ScriptRepl.Text.Search

/-! Where a text occurs first in another one, and what a separator cuts a text into. The search finds the first place,
and none if the text does not occur. The parts put together again with the separator are the text, and a separator that
is not empty stands in none of them, as each part ends before the first place where it could. -/
namespace ScriptRepl.Text

/-- The needle stands behind so many characters, and behind no fewer. -/
structure FirstAt (needle cs : List Char) (n : Nat) : Prop where
  here : needle <+: cs.drop n
  before : ∀ m < n, ¬ needle <+: cs.drop m

variable {needle sep cs : List Char} {n : Nat}

/-! ### The first place -/

theorem exists_firstAt_iff : (∃ n, FirstAt needle cs n) ↔ needle <:+: cs := by
  constructor
  · rintro ⟨n, h⟩
    exact h.here.isInfix.trans (List.drop_suffix n cs).isInfix
  · rintro ⟨before, after, rfl⟩
    have hsome : ∃ n, needle <+: (before ++ needle ++ after).drop n :=
      ⟨before.length, by simp [List.append_assoc]⟩
    exact ⟨Nat.find hsome, Nat.find_spec hsome, fun m hm => Nat.find_min hsome hm⟩

theorem FirstAt.zero (h : needle <+: cs) : FirstAt needle cs 0 :=
  ⟨h, fun _ hm => absurd hm (Nat.not_lt_zero _)⟩

theorem firstAt_succ_iff {c : Char} (h : ¬ needle <+: c :: cs) :
    FirstAt needle (c :: cs) (n + 1) ↔ FirstAt needle cs n := by
  constructor
  · intro hfirst
    exact ⟨hfirst.here, fun m hm => hfirst.before (m + 1) (Nat.succ_lt_succ hm)⟩
  · intro hfirst
    refine ⟨hfirst.here, fun m hm => ?_⟩
    cases m with
    | zero => exact h
    | succ m => exact hfirst.before m (Nat.lt_of_succ_lt_succ hm)

theorem FirstAt.eq_zero (h : FirstAt needle cs n) (hstart : needle <+: cs) : n = 0 := by
  by_contra hn
  exact h.before 0 (Nat.pos_of_ne_zero hn) hstart

theorem FirstAt.add_length_le (h : FirstAt needle cs n) : n + needle.length ≤ cs.length := by
  have hroom := h.here.length_le
  rw [List.length_drop] at hroom
  by_contra hlong
  have hempty : needle = [] := List.length_eq_zero_iff.mp (by omega)
  have hzero := h.eq_zero (hempty ▸ List.nil_prefix)
  omega

theorem find?_eq_some_iff : find? needle cs = some n ↔ FirstAt needle cs n := by
  induction cs generalizing n with
  | nil =>
      rw [find?]
      split
      · rename_i hempty
        obtain rfl := List.isEmpty_iff.mp hempty
        rw [Option.some.injEq]
        exact ⟨fun h => h ▸ .zero List.nil_prefix, fun h => (h.eq_zero List.nil_prefix).symm⟩
      · rename_i hne
        refine ⟨nofun, fun h => ?_⟩
        have hnil := h.here
        rw [List.drop_nil, List.prefix_nil] at hnil
        exact absurd (List.isEmpty_iff.mpr hnil) hne
  | cons c cs ih =>
      rw [find?]
      split
      · rename_i hstart
        have hstart := List.isPrefixOf_iff_prefix.mp hstart
        rw [Option.some.injEq]
        exact ⟨fun h => h ▸ .zero hstart, fun h => (h.eq_zero hstart).symm⟩
      · rename_i hother
        have hother : ¬ needle <+: c :: cs := fun h => hother (List.isPrefixOf_iff_prefix.mpr h)
        cases n with
        | zero =>
            refine ⟨fun h => ?_, fun h => absurd h.here hother⟩
            obtain ⟨m, -, hm⟩ := Option.map_eq_some_iff.mp h
            cases hm
        | succ n =>
            rw [firstAt_succ_iff hother, ← ih, Option.map_eq_some_iff]
            simp

theorem find?_eq_none_iff : find? needle cs = none ↔ ¬ needle <:+: cs := by
  rw [← exists_firstAt_iff, Option.eq_none_iff_forall_ne_some, not_exists]
  exact forall_congr' fun n => not_congr find?_eq_some_iff

theorem occursIn_iff : occursIn needle cs = true ↔ needle <:+: cs := by
  rw [occursIn, Option.isSome_iff_ne_none, ne_eq, find?_eq_none_iff, not_not]

/-! ### Parts -/

theorem splitFrom_ne_nil (sep : List Char) (skip : Nat) (cs : List Char) : splitFrom sep skip cs ≠ [] := by
  fun_induction splitFrom sep skip cs with
  | case2 skip c cs ih => exact ih
  | _ => exact nofun

/-- The parts give back what is left of the text behind the characters that are passed over. -/
theorem intercalate_splitFrom (hsep : sep ≠ []) (skip : Nat) (cs : List Char) :
    sep.intercalate (splitFrom sep skip cs) = cs.drop skip := by
  fun_induction splitFrom sep skip cs with
  | case1 => simp
  | case2 skip c cs ih => rw [ih, List.drop_succ_cons]
  | case3 c cs hstart ih =>
      have hlength : sep.length = sep.length - 1 + 1 := by
        have hpos := List.length_pos_iff.mpr hsep
        omega
      have hrest : cs.drop (sep.length - 1) = (c :: cs).drop sep.length := by
        rw [hlength, List.drop_succ_cons, Nat.add_sub_cancel]
      rw [List.intercalate_cons_of_ne_nil (splitFrom_ne_nil _ _ _), List.nil_append, ih, hrest]
      exact List.prefix_iff_eq_append.mp (List.isPrefixOf_iff_prefix.mp hstart)
  | case4 c cs _ part parts hparts ih =>
      rw [hparts] at ih
      rw [List.drop_zero] at ih ⊢
      rw [← ih]
      cases parts with
      | nil => simp
      | cons next parts => simp
  | case5 c cs _ hnone => exact absurd hnone (splitFrom_ne_nil _ _ _)

/-- The first part is what the text starts with. -/
theorem prefix_of_splitFrom (hsep : sep ≠ []) {part : List Char} {parts : List (List Char)}
    (h : splitFrom sep 0 cs = part :: parts) : part <+: cs := by
  have hjoin := intercalate_splitFrom hsep 0 cs
  rw [h, List.drop_zero] at hjoin
  rw [← hjoin]
  cases parts with
  | nil => simp
  | cons next parts =>
      rw [List.intercalate_cons_cons, List.append_assoc]
      exact List.prefix_append _ _

theorem not_infix_of_mem_splitFrom (hsep : sep ≠ []) (skip : Nat) (cs : List Char) :
    ∀ part ∈ splitFrom sep skip cs, ¬ sep <:+: part := by
  have hnil : ¬ sep <:+: [] := fun h => hsep (List.infix_nil.mp h)
  fun_induction splitFrom sep skip cs with
  | case1 => exact List.forall_mem_singleton.mpr hnil
  | case2 skip c cs ih => exact ih
  | case3 c cs _ ih => exact List.forall_mem_cons.mpr ⟨hnil, ih⟩
  | case4 c cs hstart part parts hparts ih =>
      rw [hparts] at ih
      obtain ⟨hpart, hrest⟩ := List.forall_mem_cons.mp ih
      refine List.forall_mem_cons.mpr ⟨fun hinfix => ?_, hrest⟩
      rcases List.infix_cons_iff.mp hinfix with hbegin | hinfix
      · have htext : c :: part <+: c :: cs := List.cons_prefix_cons.mpr ⟨rfl, prefix_of_splitFrom hsep hparts⟩
        exact hstart (List.isPrefixOf_iff_prefix.mpr (hbegin.trans htext))
      · exact hpart hinfix
  | case5 c cs _ hnone => exact absurd hnone (splitFrom_ne_nil _ _ _)

theorem intercalate_split (sep cs : List Char) : sep.intercalate (split sep cs) = cs := by
  unfold split
  split
  · rename_i hempty
    rw [List.isEmpty_iff.mp hempty]
    induction cs with
    | nil => rfl
    | cons c cs ih =>
        cases cs with
        | nil => rfl
        | cons d cs =>
            rw [List.map_cons, List.intercalate_cons_of_ne_nil (by simp), ih]
            rfl
  · rename_i hne
    exact intercalate_splitFrom (fun h => hne (List.isEmpty_iff.mpr h)) 0 cs

theorem not_infix_of_mem_split (hsep : sep ≠ []) {part : List Char} (h : part ∈ split sep cs) : ¬ sep <:+: part := by
  rw [split, if_neg fun hempty => hsep (List.isEmpty_iff.mp hempty)] at h
  exact not_infix_of_mem_splitFrom hsep 0 cs part h

end ScriptRepl.Text
