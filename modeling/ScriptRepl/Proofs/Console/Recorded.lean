import ScriptRepl.Console.HistoryFile

/-! The entries that lines leave in a history, and the text of a file that holds them. An entry is one line and not
blank, so that the text can be cut into the same entries again. -/
namespace ScriptRepl.Console

namespace History

/-- The entries of lines that were entered in turn, the newest first. -/
def recorded (lines : List String) : List String :=
  ((lines.filter fun line => !Text.isBlankText line).map oneLine).reverse

theorem recorded_append (lines more : List String) : recorded (lines ++ more) = recorded more ++ recorded lines := by
  simp [recorded]

theorem recorded_of_blank {line : String} (h : Text.isBlankText line = true) : recorded [line] = [] := by
  simp [recorded, h]

theorem recorded_of_not_blank {line : String} (h : Text.isBlankText line = false) :
    recorded [line] = [oneLine line] := by
  simp [recorded, h]

theorem toList_oneLine (s : String) :
    (oneLine s).toList = s.toList.map fun c => if c = '\r' ∨ c = '\n' then ' ' else c := by
  simp [oneLine]

theorem not_lineEnd_of_mem_oneLine {s : String} {c : Char} (h : c ∈ (oneLine s).toList) :
    ¬ (c = '\r' ∨ c = '\n') := by
  rw [toList_oneLine, List.mem_map] at h
  obtain ⟨d, _, rfl⟩ := h
  split
  · decide
  · assumption

/-- A line end is blank, and so is the space that takes its place. -/
theorem isBlankText_oneLine (s : String) : Text.isBlankText (oneLine s) = Text.isBlankText s := by
  unfold Text.isBlankText
  rw [toList_oneLine, List.all_map]
  congr 1
  funext c
  by_cases hend : c = '\r' ∨ c = '\n'
  · rcases hend with rfl | rfl <;> rfl
  · simp [hend]

/-! ### What a history holds -/

/-- The entries are the first of `all` that there is room for. -/
def Holds (h : History) (all : List String) : Prop :=
  h.entries = all.take h.capacity

namespace Holds

variable {h : History} {all : List String}

theorem append (hall : h.Holds all) (line : String) : (h.append line).Holds (recorded [line] ++ all) := by
  unfold History.append
  dsimp only
  rw [isBlankText_oneLine]
  split
  · rename_i hblank
    rw [recorded_of_blank hblank]
    exact hall
  · rename_i hblank
    rw [recorded_of_not_blank (by simpa using hblank)]
    change (oneLine line :: h.entries).take h.capacity = (oneLine line :: all).take h.capacity
    rw [show h.entries = all.take h.capacity from hall]
    cases h.capacity with
    | zero => rfl
    | succ n => simp [List.take_take]

/-- It makes no difference whether the older entries were cut to the room that there is. -/
theorem install (hall : h.Holds all) (older : List String) : (h.install older).Holds (all ++ older) := by
  change (h.entries ++ older).take h.capacity = (all ++ older).take h.capacity
  rw [show h.entries = all.take h.capacity from hall, List.take_append, List.take_append, List.take_take,
    Nat.min_self]
  congr 2
  rw [List.length_take]
  omega

theorem install_take (hall : h.Holds all) (older : List String) :
    (h.install (older.take h.capacity)).Holds (all ++ older) := by
  have hcut := hall.install (older.take h.capacity)
  refine hcut.trans ?_
  change (all ++ older.take h.capacity).take h.capacity = (all ++ older).take h.capacity
  rw [List.take_append, List.take_append, List.take_take]
  congr 2
  omega

end Holds

@[simp] theorem capacity_append (h : History) (line : String) : (h.append line).capacity = h.capacity := by
  unfold append
  dsimp only
  split <;> rfl

end History

/-! ### Entries and their text -/

/-- A text that is one line of a file and is read as an entry. -/
structure IsEntry (s : String) : Prop where
  lineFeed : '\n' ∉ s.toList
  carriageReturn : '\r' ∉ s.toList
  holds : Text.isBlankText s = false

theorem isEntry_oneLine {s : String} (h : Text.isBlankText s = false) : IsEntry (History.oneLine s) where
  lineFeed hmem := (History.not_lineEnd_of_mem_oneLine hmem).elim (.inr rfl)
  carriageReturn hmem := (History.not_lineEnd_of_mem_oneLine hmem).elim (.inl rfl)
  holds := by rw [History.isBlankText_oneLine, h]

theorem isEntry_of_recorded {lines : List String} {s : String} (h : s ∈ History.recorded lines) : IsEntry s := by
  unfold History.recorded at h
  rw [List.mem_reverse, List.mem_map] at h
  obtain ⟨line, hline, rfl⟩ := h
  exact isEntry_oneLine (by simpa using (List.mem_filter.mp hline).2)

namespace HistoryFile

theorem dropReturn_of_not_mem {line : List Char} (h : '\r' ∉ line) : dropReturn line = line := by
  unfold dropReturn
  rw [if_neg]
  intro hlast
  exact h (List.mem_of_getLast? hlast)

theorem lines_ended {ls : List (List Char)} (h : ∀ l ∈ ls, '\r' ∉ l) : lines (ls ++ [[]]) = ls := by
  induction ls with
  | nil => rfl
  | cons l ls ih =>
      have hrest : lines (ls ++ [[]]) = ls := ih fun l' hl' => h l' (List.mem_cons_of_mem l hl')
      cases ls with
      | nil => simp [lines, dropReturn_of_not_mem (h l (List.mem_cons_self ..))]
      | cons next ls =>
          rw [List.cons_append, List.cons_append, lines]
          · rw [dropReturn_of_not_mem (h l (List.mem_cons_self ..))]
            exact congrArg (l :: ·) hrest
          · simp

theorem splitOn_render (entries : List String) :
    (render entries).toList.splitOn '\n' = ((['\n'].intercalate (entries.map String.toList)).splitOn '\n') ++ [[]] := by
  have htext : (render entries).toList = ['\n'].intercalate (entries.map String.toList) ++ '\n' :: [] := by
    simp [render]
  rw [htext, List.splitOn, List.splitOnP_append_cons _ _ (by rfl)]
  rfl

theorem parse_render {entries : List String} (h : ∀ e ∈ entries, IsEntry e) : parse (render entries) = entries := by
  unfold parse
  rw [splitOn_render]
  cases entries with
  | nil => rfl
  | cons e es =>
      have hlines : ∀ l ∈ (e :: es).map String.toList, '\n' ∉ l ∧ '\r' ∉ l ∧ (!l.all Text.isBlank) = true := by
        intro l hl
        obtain ⟨entry, hentry, rfl⟩ := List.mem_map.mp hl
        have hentry := h entry hentry
        exact ⟨hentry.lineFeed, hentry.carriageReturn, congrArg (!·) hentry.holds⟩
      have hsplit : (['\n'].intercalate ((e :: es).map String.toList)).splitOn '\n' = (e :: es).map String.toList :=
        List.splitOn_intercalate '\n' (fun l hl => (hlines l hl).1) (by simp)
      rw [hsplit, lines_ended fun l hl => (hlines l hl).2.1, List.filter_eq_self.mpr fun l hl => (hlines l hl).2.2]
      simp

end HistoryFile

end ScriptRepl.Console
