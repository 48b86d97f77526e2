import Mathlib.Order.Bounds.Basic
import ScriptRepl.Proofs.Number.Whole
import ScriptRepl.Proofs.Realm.Aliasing
import ScriptRepl.Proofs.Text.Occurrence

/-! Methods of texts that belong together. Of those that look for a text in another one, one cuts off what is before the
position and searches the rest, one slides over the places from the position on as far as the needle fits, and one looks
at a single place: they agree on where the needle stands. And joining undoes splitting. -/
namespace ScriptRepl

open Eval Text

namespace TextMethod

variable {needle cs : List Char} {places n m start : Nat}

theorem firstAt_tail_iff (h : ¬ needle <+: cs) : FirstAt needle cs (n + 1) ↔ FirstAt needle cs.tail n := by
  cases cs with
  | nil =>
      have hnone (n : Nat) : ¬ FirstAt needle [] n := fun hfirst => h (List.drop_nil ▸ hfirst.here)
      exact iff_of_false (hnone _) (hnone n)
  | cons c cs => exact firstAt_succ_iff h

theorem slide_eq_some_iff :
    slide needle places cs n = some m ↔ ∃ i < places, m = n + i ∧ FirstAt needle cs i := by
  induction places generalizing cs n with
  | zero => simp [slide]
  | succ places ih =>
      rw [slide]
      split
      · rename_i hstart
        have hstart := List.isPrefixOf_iff_prefix.mp hstart
        constructor
        · intro h
          obtain rfl := Option.some.inj h
          exact ⟨0, Nat.succ_pos _, rfl, .zero hstart⟩
        · rintro ⟨i, -, rfl, hfirst⟩
          rw [hfirst.eq_zero hstart, Nat.add_zero]
      · rename_i hother
        have hother : ¬ needle <+: cs := fun h => hother (List.isPrefixOf_iff_prefix.mpr h)
        rw [ih]
        constructor
        · rintro ⟨i, hi, rfl, hfirst⟩
          exact ⟨i + 1, Nat.succ_lt_succ hi, by omega, (firstAt_tail_iff hother).mpr hfirst⟩
        · rintro ⟨i, hi, rfl, hfirst⟩
          cases i with
          | zero => exact absurd hfirst.here hother
          | succ i => exact ⟨i, Nat.lt_of_succ_lt_succ hi, by omega, (firstAt_tail_iff hother).mp hfirst⟩

/-- The places that are left out are too near to the end for the needle to stand there. -/
theorem indexFrom?_eq_some_iff (hstart : start ≤ cs.length) :
    indexFrom? needle cs start = some m ↔ ∃ i, m = start + i ∧ FirstAt needle (cs.drop start) i := by
  rw [indexFrom?, slide_eq_some_iff]
  constructor
  · rintro ⟨i, -, hm, hfirst⟩
    exact ⟨i, hm, hfirst⟩
  · rintro ⟨i, hm, hfirst⟩
    refine ⟨i, ?_, hm, hfirst⟩
    have hroom := hfirst.add_length_le
    rw [List.length_drop] at hroom
    omega

theorem indexFrom?_eq_none_iff (hstart : start ≤ cs.length) :
    indexFrom? needle cs start = none ↔ includes needle cs start = false := by
  rw [← Bool.not_eq_true, includes, occursIn_iff, ← exists_firstAt_iff, Option.eq_none_iff_forall_ne_some, not_exists]
  simp only [ne_eq, indexFrom?_eq_some_iff hstart, not_exists, not_and]
  exact ⟨fun h i => h (start + i) i rfl, fun h _ i _ => h i⟩

theorem includes_eq_true_iff (hstart : start ≤ cs.length) :
    includes needle cs start = true ↔ ∃ i ≤ cs.length, start ≤ i ∧ needle <+: cs.drop i := by
  rw [includes, occursIn_iff]
  constructor
  · intro hinfix
    obtain ⟨i, hfirst⟩ := exists_firstAt_iff.mpr hinfix
    have hroom := hfirst.add_length_le
    rw [List.length_drop] at hroom
    refine ⟨start + i, by omega, Nat.le_add_right start i, ?_⟩
    rw [← List.drop_drop]
    exact hfirst.here
  · rintro ⟨i, -, hi, hstand⟩
    obtain ⟨k, rfl⟩ := Nat.exists_eq_add_of_le hi
    rw [← List.drop_drop] at hstand
    exact hstand.isInfix.trans (List.drop_suffix k _).isInfix

/-- A place behind the end counts as the end. -/
theorem startsWith_min_iff : startsWith needle cs (min n cs.length) = true ↔ needle <+: cs.drop n := by
  rw [startsWith, List.isPrefixOf_iff_prefix]
  rcases Nat.le_total n cs.length with hle | hge
  · rw [Nat.min_eq_left hle]
  · rw [Nat.min_eq_right hge, List.drop_length, List.drop_of_length_le hge]

end TextMethod

/-! ### Calls -/

theorem Heap.display_text (h : Heap) (s : String) : h.display (.text s) = s := by
  rw [Heap.display, Heap.displayAt]

section Calls

variable (run : Run) (s : String) (t p : Value)

/-- The characters that a value is looked for as. -/
def Run.needle (run : Run) (t : Value) : List Char :=
  (run.realm.heap.display t).toList

/-- The place in the text that a position argument means where none stands for the start. -/
def Run.placeIn (run : Run) (s : String) (p : Value) : Nat :=
  relativeIndex run.realm.heap p s.length 0

/-- A number that is exactly a place means this place, or the end if it is behind it. -/
theorem placeIn_of_denotes {x : Float} {i : Nat} (hx : Number.Denotes x i) :
    run.placeIn s (.number x) = min i s.toList.length := by
  have hnumber : run.realm.heap.toNumber (.number x) = x := rfl
  rw [Run.placeIn, String.length_toList]
  simp only [relativeIndex, hnumber, hx.isNaN, hx.truncate, hx.not_lt_zero, hx.toNatUpTo, Bool.false_eq_true, if_false]

theorem outcome_includes :
    (callBuiltin (.text .includes) (.text s) [t, p]).outcome run =
      (.ok (.bool (TextMethod.includes (run.needle t) s.toList (run.placeIn s p))), run) := by
  simp only [callBuiltin, callTextMethod, outcome_bind, outcome_heap, outcome_display_text]
  rfl

theorem outcome_startsWith :
    (callBuiltin (.text .startsWith) (.text s) [t, p]).outcome run =
      (.ok (.bool (TextMethod.startsWith (run.needle t) s.toList (run.placeIn s p))), run) := by
  simp only [callBuiltin, callTextMethod, outcome_bind, outcome_heap, outcome_display_text]
  rfl

/-- At a place that a number is exactly, `startsWith` looks at just this place. -/
theorem startsWith_at_iff {i : Nat} (hi : i ≤ 2 ^ 53) :
    (callBuiltin (.text .startsWith) (.text s) [t, .number (Number.ofNat i)]).outcome run = (.ok (.bool true), run) ↔
      run.needle t <+: s.toList.drop i := by
  simp only [outcome_startsWith, placeIn_of_denotes run s (Number.denotes_ofNat hi), Prod.mk.injEq, Except.ok.injEq,
    Value.bool.injEq, and_true]
  exact TextMethod.startsWith_min_iff

theorem outcome_indexOf :
    (callBuiltin (.text .indexOf) (.text s) [t, p]).outcome run =
      (.ok (.number ((TextMethod.indexFrom? (run.needle t) s.toList (run.placeIn s p)).elim (-1) Number.ofNat)), run) := by
  simp only [callBuiltin, callTextMethod, outcome_bind, outcome_heap, outcome_display_text]
  split
  · rename_i n hplace
    rw [show TextMethod.indexFrom? (run.needle t) s.toList (run.placeIn s p) = some n from hplace]
    rfl
  · rename_i hnone
    rw [show TextMethod.indexFrom? (run.needle t) s.toList (run.placeIn s p) = none from hnone]
    rfl

end Calls

theorem ofNat_ne_neg_one {n : Nat} (hn : n ≤ 2 ^ 53) : Number.ofNat n ≠ -1 := by
  intro heq
  have hnegative : (-1 : Float) < 0 := by decide
  exact (Number.denotes_ofNat hn).not_lt_zero (heq ▸ hnegative)

/-- The text is found by `includes` just where `indexOf` does not answer -1, and just where `startsWith` finds it at a
place that is not before the position; then the answer is the least such place. A place in the text has to be a number,
so there are at most `2 ^ 53` characters. -/
theorem searches_agree {s : String} (hs : s.length ≤ 2 ^ 53) (run : Run) (t p : Value) :
    let call (op : TextOp) (p : Value) := (callBuiltin (.text op) (.text s) [t, p]).outcome run
    ∃ found x, call .includes p = (.ok (.bool found), run) ∧ call .indexOf p = (.ok (.number x), run) ∧
      (found = true ↔ x ≠ -1) ∧
      (found = true ↔ ∃ i ≤ s.length, run.placeIn s p ≤ i ∧
        call .startsWith (.number (Number.ofNat i)) = (.ok (.bool true), run)) ∧
      (found = true → ∃ i, Number.Denotes x i ∧
        IsLeast {i | run.placeIn s p ≤ i ∧ call .startsWith (.number (Number.ofNat i)) = (.ok (.bool true), run)} i) := by
  intro call
  have hplace : run.placeIn s p ≤ s.toList.length := by
    rw [String.length_toList]
    exact relativeIndex_le _ p hs (Nat.zero_le _)
  have hlength : s.toList.length ≤ 2 ^ 53 := by rwa [String.length_toList]
  have hsomewhere : TextMethod.includes (run.needle t) s.toList (run.placeIn s p) = true ↔
      ∃ i ≤ s.length, run.placeIn s p ≤ i ∧
        call .startsWith (.number (Number.ofNat i)) = (.ok (.bool true), run) := by
    rw [TextMethod.includes_eq_true_iff hplace, String.length_toList]
    exact exists_congr fun i => and_congr_right fun hi => and_congr_right fun _ =>
      (startsWith_at_iff run s t (hi.trans hs)).symm
  refine ⟨_, _, outcome_includes run s t p, outcome_indexOf run s t p, ?_⟩
  rw [and_left_comm]
  refine ⟨hsomewhere, ?_⟩
  cases hfound : TextMethod.indexFrom? (run.needle t) s.toList (run.placeIn s p) with
  | none =>
      rw [(TextMethod.indexFrom?_eq_none_iff hplace).mp hfound]
      simp
  | some m =>
      obtain ⟨i, hm, hfirst⟩ := (TextMethod.indexFrom?_eq_some_iff hplace).mp hfound
      have hroom : m ≤ 2 ^ 53 := by
        have hinside := hfirst.add_length_le
        rw [List.length_drop] at hinside
        omega
      have hfound : TextMethod.includes (run.needle t) s.toList (run.placeIn s p) = true :=
        occursIn_iff.mpr (exists_firstAt_iff.mp ⟨i, hfirst⟩)
      refine ⟨iff_of_true hfound (ofNat_ne_neg_one hroom), fun _ => ⟨m, Number.denotes_ofNat hroom, ⟨?_, ?_⟩, ?_⟩⟩
      · omega
      · rw [startsWith_at_iff run s t hroom, hm, ← List.drop_drop]
        exact hfirst.here
      · rintro k ⟨hk, hstand⟩
        by_contra hless
        obtain ⟨before, rfl⟩ := Nat.exists_eq_add_of_le hk
        rw [startsWith_at_iff run s t (by omega), ← List.drop_drop] at hstand
        exact hfirst.before before (by omega) hstand

/-- A search from a position inside the first occurrence, with which the next one overlaps. -/
theorem searches_agree_banana :
    let run : Run := { realm := {} }
    let call (op : TextOp) (p : Value) := (callBuiltin (.text op) (.text "banana") [.text "ana", p]).outcome run
    "banana".length ≤ 2 ^ 53 ∧ ∃ x i, call .indexOf (.number (Number.ofNat 2)) = (.ok (.number x), run) ∧
      Number.Denotes x i ∧
      IsLeast {i | 2 ≤ i ∧ call .startsWith (.number (Number.ofNat i)) = (.ok (.bool true), run)} i := by
  intro run call
  have hs : "banana".length ≤ 2 ^ 53 := by decide
  have hplace : run.placeIn "banana" (.number (Number.ofNat 2)) = 2 :=
    placeIn_of_denotes run "banana" (Number.denotes_ofNat (by decide))
  obtain ⟨found, x, hincludes, hindex, -, -, hleast⟩ :=
    searches_agree hs run (.text "ana") (.number (Number.ofNat 2))
  have hneedle : run.needle (.text "ana") = "ana".toList := congrArg String.toList (run.realm.heap.display_text "ana")
  have hfound : found = true := by
    have hcall := (outcome_includes run "banana" _ _).symm.trans hincludes
    rw [hneedle, hplace] at hcall
    simpa [TextMethod.includes, Text.occursIn, Text.find?] using hcall.symm
  obtain ⟨i, hi, hmin⟩ := hleast hfound
  rw [hplace] at hmin
  exact ⟨hs, x, i, hindex, hi, hmin⟩

/-! ### Splitting and joining -/

theorem joined_texts (h : Heap) (sep : String) (parts : List String) :
    ListMethod.joined h sep (parts.map Value.text) = sep.intercalate parts := by
  rw [ListMethod.joined, List.map_map]
  congr 1
  refine (List.map_congr_left fun part _ => ?_).trans (List.map_id parts)
  exact h.display_text part

theorem outcome_split (run : Run) (s sep : String) :
    ∃ (r : Ref) (parts : List String) (after : Run),
      (callBuiltin (.text .split) (.text s) [.text sep]).outcome run = (.ok (.object r), after) ∧
      after.realm.heap.get? r = some (.list (parts.map Value.text).toArray) ∧
      parts = (Text.split sep.toList s.toList).map String.ofList := by
  simp only [callBuiltin, callTextMethod, outcome_bind, outcome_heap, outcome_display_text]
  refine ⟨⟨run.realm.heap.size⟩, _, _, rfl, ?_, rfl⟩
  change (run.realm.heap.alloc (.list ((Text.split (run.realm.heap.display (.text sep)).toList s.toList).map
    fun cs => Value.text (String.ofList cs)).toArray)).2.get? _ = _
  rw [Heap.get?_alloc, if_pos rfl, Heap.display_text, List.map_map]
  rfl

theorem outcome_join {run : Run} {r : Ref} {parts : List String}
    (hr : run.realm.heap.get? r = some (.list (parts.map Value.text).toArray)) (sep : String) :
    (callBuiltin (.list .join) (.object r) [.text sep]).outcome run = (.ok (.text (sep.intercalate parts)), run) := by
  simp only [callBuiltin, outcome_bind, outcome_heap, hr, callListMethod]
  change (Except.ok (Value.text (ListMethod.joined _ (run.realm.heap.display (.text sep)) _)), run) = _
  rw [Heap.display_text, joined_texts]

/-- A text that is split is a list of texts, and joined with the same separator they are the text again, whatever the
separator is. One that is not empty is in none of the parts. -/
theorem split_joined (run : Run) (s sep : String) :
    ∃ (r : Ref) (parts : List String) (after : Run),
      (callBuiltin (.text .split) (.text s) [.text sep]).outcome run = (.ok (.object r), after) ∧
      after.realm.heap.get? r = some (.list (parts.map Value.text).toArray) ∧
      (callBuiltin (.list .join) (.object r) [.text sep]).outcome after = (.ok (.text s), after) ∧
      (sep ≠ "" → ∀ part ∈ parts, ¬ sep.toList <:+: part.toList) := by
  obtain ⟨r, parts, after, hsplit, hr, hparts⟩ := outcome_split run s sep
  refine ⟨r, parts, after, hsplit, hr, ?_, fun hsep part hpart => ?_⟩
  · have htext : sep.intercalate parts = s := by
      rw [← String.toList_inj, String.toList_intercalate, hparts, List.map_map]
      simpa [Function.comp_def] using Text.intercalate_split sep.toList s.toList
    rw [outcome_join hr, htext]
  · obtain ⟨cs, hcs, rfl⟩ := List.mem_map.mp (hparts ▸ hpart)
    rw [String.toList_ofList]
    exact Text.not_infix_of_mem_split (by simpa using hsep) hcs

end ScriptRepl
