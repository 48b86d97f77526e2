import Mathlib.Data.List.Basic
import ScriptRepl.Text.Blank
import ScriptRepl.Text.Cursor
import ScriptRepl.Text.Search

/-! How many bytes a text takes that comes out of another: no more, if its characters do. -/
namespace ScriptRepl.Text

variable {cs ds : List Char}

theorem utf8ByteSize_ofList (cs : List Char) : (String.ofList cs).utf8ByteSize = size cs := by
  rw [← size_toList, String.toList_ofList]

theorem size_pos (h : cs ≠ []) : 0 < size cs := by
  cases cs with
  | nil => exact absurd rfl h
  | cons c cs =>
      have hchar := c.utf8Size_pos
      rw [size]
      omega

theorem size_le_of_sublist (h : cs.Sublist ds) : size cs ≤ size ds := by
  induction h with
  | slnil => exact Nat.le_refl _
  | cons c _ ih =>
      rw [size]
      omega
  | cons_cons c _ ih =>
      rw [size, size]
      omega

theorem length_le_size (cs : List Char) : cs.length ≤ size cs := by
  induction cs with
  | nil => exact Nat.le_refl 0
  | cons c cs ih =>
      have hpos := c.utf8Size_pos
      rw [size, List.length_cons]
      omega

theorem size_le_length (cs : List Char) : size cs ≤ 4 * cs.length := by
  induction cs with
  | nil => exact Nat.le_refl _
  | cons c cs ih =>
      have hchar := c.utf8Size_le_four
      rw [size, List.length_cons]
      omega

namespace Cursor

theorem size_of_next? {place after : Cursor} {c : Char} (h : place.next? = some (c, after)) :
    size place.rest = c.utf8Size + size after.rest := by
  obtain ⟨offset, _ | ⟨d, rest⟩⟩ := place
  · cases h
  · cases h
    rfl

theorem Reaches.size_le {a b : Cursor} (h : a.Reaches b) : size b.rest ≤ size a.rest := by
  obtain ⟨passed, hrest, -⟩ := h
  rw [hrest, size_append]
  exact Nat.le_add_left _ _

theorem size_skip_le (k : Nat) (place : Cursor) : size (place.skip k).rest ≤ size place.rest :=
  (reaches_skip k place).size_le

end Cursor

theorem trimBoth_sublist (cs : List Char) : (trimBoth cs).Sublist cs := by
  have hleft : (trimLeft cs).Sublist cs := List.dropWhile_sublist _
  refine List.Sublist.trans ?_ hleft
  have hright := (List.dropWhile_sublist isBlank (l := (trimLeft cs).reverse)).reverse
  rwa [List.reverse_reverse] at hright

theorem splitFrom_sublist (sep : List Char) (skip : Nat) (cs : List Char) :
    ∀ piece ∈ splitFrom sep skip cs, piece.Sublist cs := by
  fun_induction splitFrom sep skip cs with
  | case1 => simp
  | case2 skip c cs ih => exact fun piece hpiece => (ih piece hpiece).cons c
  | case3 c cs _ ih =>
      intro piece hpiece
      rcases List.mem_cons.mp hpiece with rfl | hpiece
      · exact List.nil_sublist _
      · exact (ih piece hpiece).cons c
  | case4 c cs _ piece pieces hsplit ih =>
      rw [hsplit] at ih
      intro piece' hpiece
      rcases List.mem_cons.mp hpiece with rfl | hpiece
      · exact (ih piece List.mem_cons_self).cons_cons c
      · exact (ih piece' (List.mem_cons_of_mem _ hpiece)).cons c
  | case5 c cs => simp

/-- The pieces of a text are parts of it. -/
theorem split_sublist {sep piece : List Char} (h : piece ∈ split sep cs) : piece.Sublist cs := by
  unfold split at h
  split at h
  · obtain ⟨c, hc, rfl⟩ := List.mem_map.mp h
    exact List.singleton_sublist.mpr hc
  · exact splitFrom_sublist sep 0 cs piece h

end ScriptRepl.Text
