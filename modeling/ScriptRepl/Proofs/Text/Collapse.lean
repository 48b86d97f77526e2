import Mathlib.Data.List.Chain
import ScriptRepl.Proofs.Console.Styled
import ScriptRepl.Text.Blank

/-! Texts on one row. Words are what stands between blanks, and with a space between each two of them nothing else of
the blanks is left. What is cut off a text that is too wide is as little as can be, and what is left never takes more
columns than there are. -/
namespace ScriptRepl.Text

/-! ### Words -/

/-- A run of characters that are not blank. -/
structure IsWord (w : List Char) : Prop where
  ne_nil : w ≠ []
  blank : ∀ c ∈ w, isBlank c = false

theorem isWord_singleton {c : Char} (h : isBlank c = false) : IsWord [c] :=
  ⟨nofun, List.forall_mem_singleton.mpr h⟩

theorem IsWord.cons {c : Char} {w : List Char} (hw : IsWord w) (h : isBlank c = false) : IsWord (c :: w) :=
  ⟨nofun, List.forall_mem_cons.mpr ⟨h, hw.blank⟩⟩

theorem isWord_of_mem_words {cs w : List Char} (h : w ∈ words cs) : IsWord w := by
  fun_induction words cs generalizing w with
  | case1 => cases h
  | case2 c cs hc ih => exact ih h
  | case3 c hc =>
      rw [List.mem_singleton.mp h]
      exact isWord_singleton (Bool.eq_false_iff.mpr hc)
  | case4 c hc d rest hd ih =>
      rcases List.mem_cons.mp h with rfl | h
      · exact isWord_singleton (Bool.eq_false_iff.mpr hc)
      · exact ih h
  | case5 c hc d rest hd v vs hwords ih =>
      rw [hwords] at h
      rcases List.mem_cons.mp h with rfl | h
      · exact (ih (hwords ▸ List.mem_cons_self)).cons (Bool.eq_false_iff.mpr hc)
      · exact ih (hwords ▸ List.mem_cons_of_mem v h)
  | case6 c hc d rest hd hwords ih =>
      rw [hwords] at h
      rw [List.mem_singleton.mp h]
      exact isWord_singleton (Bool.eq_false_iff.mpr hc)

/-- They are the parts of the text between blanks that are not empty. -/
theorem words_eq_splitOnP (cs : List Char) : words cs = (cs.splitOnP isBlank).filter (· ≠ []) := by
  fun_induction words cs with
  | case1 => simp
  | case2 c cs hc ih => simp [List.splitOnP_cons_eq_if_modifyHead, hc, ih]
  | case3 c hc => simp [List.splitOnP_cons_eq_if_modifyHead, hc]
  | case4 c hc d rest hd ih =>
      rw [ih]
      simp [List.splitOnP_cons_eq_if_modifyHead, hc, hd]
  | case5 c hc d rest hd w ws hwords ih =>
      obtain ⟨v, vs, hparts⟩ := List.exists_cons_of_ne_nil (List.splitOnP_ne_nil isBlank rest)
      have hfirst : w = d :: v ∧ ws = vs.filter (· ≠ []) := by
        rw [hwords] at ih
        simpa [List.splitOnP_cons_eq_if_modifyHead, hd, hparts] using ih
      rw [hwords]
      simp [List.splitOnP_cons_eq_if_modifyHead, hc, hd, hparts, hfirst]
  | case6 c hc d rest hd hwords ih =>
      obtain ⟨v, vs, hparts⟩ := List.exists_cons_of_ne_nil (List.splitOnP_ne_nil isBlank rest)
      rw [hwords] at ih
      simp [List.splitOnP_cons_eq_if_modifyHead, hd, hparts] at ih

/-! ### Single spaces -/

/-- The only blanks are spaces, each of them alone between two other characters. -/
structure Spaced (cs : List Char) : Prop where
  space : ∀ c ∈ cs, isBlank c = true → c = ' '
  first : ∀ c ∈ cs.head?, isBlank c = false
  last : ∀ c ∈ cs.getLast?, isBlank c = false
  apart : cs.IsChain fun c d => isBlank c = false ∨ isBlank d = false

theorem Spaced.nil : Spaced [] :=
  ⟨nofun, nofun, nofun, .nil⟩

theorem IsWord.spaced {w : List Char} (h : IsWord w) : Spaced w where
  space c hc hblank := absurd ((h.blank c hc).symm.trans hblank) Bool.false_ne_true
  first c hc := h.blank c (List.mem_of_mem_head? hc)
  last c hc := h.blank c (List.mem_of_mem_getLast? hc)
  apart := (List.pairwise_of_forall_mem_list fun c hc _ _ => .inl (h.blank c hc)).isChain

theorem Spaced.join {w cs : List Char} (hw : IsWord w) (h : Spaced cs) (hcs : cs ≠ []) :
    Spaced (w ++ ' ' :: cs) := by
  constructor
  · intro c hc hblank
    rcases List.mem_append.mp hc with hc | hc
    · exact hw.spaced.space c hc hblank
    · rcases List.mem_cons.mp hc with rfl | hc
      · rfl
      · exact h.space c hc hblank
  · intro c hc
    rw [List.head?_append_of_ne_nil w hw.ne_nil] at hc
    exact hw.spaced.first c hc
  · intro c hc
    rw [List.append_cons, List.getLast?_append_of_ne_nil _ hcs] at hc
    exact h.last c hc
  · refine List.isChain_append.mpr ⟨hw.spaced.apart, List.isChain_cons.mpr ⟨?_, h.apart⟩, ?_⟩
    · intro c hc
      exact .inr (h.first c hc)
    · intro c hc _ _
      exact .inl (hw.spaced.last c hc)

theorem spaced_intercalate {ws : List (List Char)} (h : ∀ w ∈ ws, IsWord w) : Spaced ([' '].intercalate ws) := by
  induction ws with
  | nil => exact .nil
  | cons w ws ih =>
      obtain ⟨hw, hws⟩ := List.forall_mem_cons.mp h
      cases ws with
      | nil =>
          rw [List.intercalate_singleton]
          exact hw.spaced
      | cons v vs =>
          have hne : [' '].intercalate (v :: vs) ≠ [] := by
            have hv := (hws v List.mem_cons_self).ne_nil
            cases vs <;> simp [hv]
          rw [List.intercalate_cons_cons, List.append_assoc]
          exact .join hw (ih hws) hne

theorem spaced_collapse (s : String) : Spaced (collapse s).toList := by
  rw [collapse, String.toList_ofList]
  exact spaced_intercalate fun w hw => isWord_of_mem_words hw

/-- A start of the text with a mark behind it, even if a space comes before the mark. -/
theorem Spaced.marked {cs kept : List Char} (h : Spaced cs) (hkept : kept <+: cs) {mark : Char}
    (hmark : isBlank mark = false) : Spaced (kept ++ [mark]) := by
  constructor
  · intro c hc hblank
    rcases List.mem_append.mp hc with hc | hc
    · exact h.space c (hkept.subset hc) hblank
    · rw [List.mem_singleton.mp hc, hmark] at hblank
      cases hblank
  · intro c hc
    cases kept with
    | nil =>
        cases hc
        exact hmark
    | cons d kept =>
        obtain ⟨rest, rfl⟩ := hkept
        exact h.first c hc
  · intro c hc
    rw [List.getLast?_concat] at hc
    cases hc
    exact hmark
  · obtain ⟨rest, rfl⟩ := hkept
    refine List.isChain_append.mpr ⟨h.apart.left_of_append, .singleton mark, ?_⟩
    intro _ _ c hc
    cases hc
    exact .inr hmark

/-! ### Cutting -/

/-- What is shown of a text in so many columns: all of it if it fits, and else its longest start that leaves a column
for the mark. -/
inductive Cut (room : Nat) (s : String) : String → Prop where
  | whole (h : displayWidth s ≤ room) : Cut room s s
  | nothing (h : room < displayWidth s) (hroom : room = 0) : Cut room s ""
  | marked {kept : List Char} (h : room < displayWidth s) (hroom : 0 < room) (hkept : kept <+: s.toList)
      (hfits : columnsOf kept ≤ room - 1)
      (hlongest : ∀ other, other <+: s.toList → columnsOf other ≤ room - 1 → other.length ≤ kept.length) :
      Cut room s (String.ofList (kept ++ ['…']))

theorem prefix_fitting {kept cs : List Char} {room : Nat} (h : kept <+: cs) (hfits : columnsOf kept ≤ room) :
    kept <+: fitting room cs := by
  induction cs generalizing kept room with
  | nil => exact h
  | cons c cs ih =>
      cases kept with
      | nil => exact List.nil_prefix
      | cons d kept =>
          obtain ⟨rfl, hrest⟩ := List.cons_prefix_cons.mp h
          rw [columnsOf] at hfits
          have hfirst : columns d ≤ room := by omega
          rw [fitting, if_pos hfirst]
          exact List.cons_prefix_cons.mpr ⟨rfl, ih hrest (by omega)⟩

theorem cut_iff {room : Nat} {s p : String} : Cut room s p ↔ p = truncate room s := by
  constructor
  · intro h
    cases h with
    | whole h => rw [truncate, if_pos h]
    | nothing h hroom => rw [truncate, if_neg (Nat.not_le.mpr h), if_pos hroom]
    | @marked kept h hroom hkept hfits hlongest =>
        have hsame : kept = fitting (room - 1) s.toList := by
          have hstart := prefix_fitting hkept hfits
          apply hstart.eq_of_length_le
          exact hlongest _ (isPrefix_fitting _ _) (columnsOf_fitting_le _ _)
        rw [truncate, if_neg (Nat.not_le.mpr h), if_neg hroom.ne', hsame]
  · rintro rfl
    unfold truncate
    split
    · rename_i h
      exact .whole h
    · rename_i h
      split
      · rename_i hroom
        exact .nothing (Nat.not_le.mp h) hroom
      · rename_i hroom
        refine .marked (Nat.not_le.mp h) (Nat.pos_of_ne_zero hroom) (isPrefix_fitting _ _)
          (columnsOf_fitting_le _ _) ?_
        intro other hother hfits
        exact (prefix_fitting hother hfits).length_le

theorem columnsOf_visible_le (cs : List Char) : columnsOf (visible cs) ≤ columnsOf cs := by
  have hpieces : ∀ ps : List Piece, columnsOf (ps.filterMap Piece.shown?) ≤ columnsOf (ps.flatMap Piece.text) := by
    intro ps
    induction ps with
    | nil => exact Nat.le_refl 0
    | cons p ps ih =>
        rw [List.flatMap_cons, columnsOf_append]
        cases p with
        | code code => exact Nat.le_trans ih (Nat.le_add_left _ _)
        | shown c => exact Nat.add_le_add_left ih (columns c)
  have hall := hpieces (pieces cs)
  rwa [pieces_flatMap_text] at hall

namespace Cut

variable {room : Nat} {s p : String}

theorem displayWidth_le (h : Cut room s p) : displayWidth p ≤ room := by
  cases h with
  | whole h => exact h
  | nothing h hroom => simp [displayWidth, visible, pieces, columnsOf]
  | @marked kept h hroom hkept hfits hlongest =>
      have hmark : columnsOf ['…'] = 1 := by rw [columnsOf, columns_ellipsis, columnsOf]
      calc displayWidth (String.ofList (kept ++ ['…']))
          ≤ columnsOf (kept ++ ['…']) := by
            rw [displayWidth, String.toList_ofList]
            exact columnsOf_visible_le _
        _ = columnsOf kept + 1 := by rw [columnsOf_append, hmark]
        _ ≤ room := by omega

theorem spaced (h : Cut room s p) (hs : Spaced s.toList) : Spaced p.toList := by
  cases h with
  | whole h => exact hs
  | nothing h hroom => exact .nil
  | marked h hroom hkept hfits hlongest =>
      rw [String.toList_ofList]
      exact hs.marked hkept (by decide)

end Cut

end ScriptRepl.Text
