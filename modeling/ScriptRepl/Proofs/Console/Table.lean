import ScriptRepl.Console.Listing
import ScriptRepl.Proofs.Text.Adjoining

/-! The table of a listing. Each entry but the last of its row is filled up to the width of a column, so that every
entry begins where its column does, and no row is wider than the terminal if a single column is not. An escape sequence
that an entry leaves unfinished can take up what comes behind it; then less of the row shows, never more. -/
namespace ScriptRepl.Console.Listing

open Text (displayWidth columnsOf)

/-! ### Cells -/

/-- An entry in its row, behind the spaces that fill up the entry before it. -/
structure Cell where
  gap : Nat
  entry : String

namespace Cell

def blanks (c : Cell) : String :=
  "".pushn ' ' c.gap

def text (c : Cell) : String :=
  c.blanks ++ c.entry

def width (c : Cell) : Nat :=
  c.gap + displayWidth c.entry

def padding (c : Cell) : List Text.Piece :=
  List.replicate c.gap (.shown ' ')

/-- The pieces of the spaces and of the entry, each read on its own. -/
def pieces (c : Cell) : List Text.Piece :=
  c.padding ++ Text.pieces c.entry.toList

end Cell

def textOf (cells : List Cell) : String :=
  String.join (cells.map Cell.text)

def widthOf : List Cell → Nat
  | [] => 0
  | c :: cells => c.width + widthOf cells

/-- No escape sequence of the row reaches beyond the entry in which it begins. -/
def Separate (cells : List Cell) : Prop :=
  Text.pieces (textOf cells).toList = cells.flatMap Cell.pieces

variable {cells : List Cell} {c : Cell} {j : Nat}

theorem textOf_cons (c : Cell) (cells : List Cell) : textOf (c :: cells) = c.text ++ textOf cells :=
  String.join_cons

theorem toList_blanks (c : Cell) : c.blanks.toList = List.replicate c.gap ' ' :=
  toList_padding c.gap

theorem mem_textOf {ch : Char} (h : ch ∈ (textOf cells).toList) : ch = ' ' ∨ ∃ c ∈ cells, ch ∈ c.entry.toList := by
  rw [textOf, String.toList_join, List.flatMap_map, List.mem_flatMap] at h
  obtain ⟨c, hc, hch⟩ := h
  rw [Cell.text, String.toList_append, toList_blanks, List.mem_append] at hch
  rcases hch with hch | hch
  · exact .inl (List.eq_of_mem_replicate hch)
  · exact .inr ⟨c, hc, hch⟩

/-! ### Columns -/

theorem columnsOf_replicate (n : Nat) : columnsOf (List.replicate n ' ') = n := by
  induction n with
  | zero => rfl
  | succ n ih =>
      rw [List.replicate_succ, columnsOf, ih]
      exact Nat.add_comm 1 n

theorem columnsOf_padding (c : Cell) : columnsOf (c.padding.filterMap Text.Piece.shown?) = c.gap := by
  have hshown : c.padding.filterMap Text.Piece.shown? = List.replicate c.gap ' ' := by
    simp [Cell.padding, List.filterMap_replicate, Text.Piece.shown?]
  rw [hshown, columnsOf_replicate]

theorem columnsOf_pieces (cells : List Cell) :
    columnsOf ((cells.flatMap Cell.pieces).filterMap Text.Piece.shown?) = widthOf cells := by
  induction cells with
  | nil => rfl
  | cons c cells ih =>
      rw [List.flatMap_cons, List.filterMap_append, Text.columnsOf_append, ih, widthOf, Cell.pieces,
        List.filterMap_append, Text.columnsOf_append, columnsOf_padding]
      rfl

theorem displayWidth_blanks (c : Cell) : displayWidth c.blanks = c.gap := by
  have hplain : Text.Plain c.blanks := by
    intro ch hch
    rw [toList_blanks] at hch
    rw [List.eq_of_mem_replicate hch]
    decide
  rw [hplain.displayWidth_eq, toList_blanks, columnsOf_replicate]

/-- A row shows at most what its cells show. -/
theorem displayWidth_textOf_le (cells : List Cell) : displayWidth (textOf cells) ≤ widthOf cells := by
  induction cells with
  | nil => decide +kernel
  | cons c cells ih =>
      calc displayWidth (textOf (c :: cells))
          ≤ displayWidth c.text + displayWidth (textOf cells) := by
            rw [textOf_cons]
            exact Text.displayWidth_append_le _ _
        _ ≤ displayWidth c.blanks + displayWidth c.entry + widthOf cells :=
            Nat.add_le_add (Text.displayWidth_append_le _ _) ih
        _ = widthOf (c :: cells) := by rw [displayWidth_blanks, widthOf, Cell.width]

theorem Separate.displayWidth_eq (h : Separate cells) : displayWidth (textOf cells) = widthOf cells := by
  rw [displayWidth, Text.visible, h, columnsOf_pieces]

theorem head?_textOf (h : ∀ c ∈ cells, 0 < c.gap) : ∀ ch ∈ (textOf cells).toList.head?, ch = ' ' := by
  cases cells with
  | nil => exact nofun
  | cons c cells =>
      obtain ⟨n, hn⟩ := Nat.exists_eq_add_one.mpr (h c List.mem_cons_self)
      intro ch hch
      rw [textOf_cons, Cell.text, String.toList_append, String.toList_append, toList_blanks, hn] at hch
      exact (Option.some.inj hch).symm

theorem pieces_blanks_append (c : Cell) (rest : List Char) :
    Text.pieces (c.blanks.toList ++ rest) = c.padding ++ Text.pieces rest := by
  have hblanks : '\x1b' ∉ c.blanks.toList := by
    rw [toList_blanks]
    exact fun hmem => absurd (List.eq_of_mem_replicate hmem) (by decide)
  rw [Text.pieces_append_of_not_mem hblanks, toList_blanks, List.map_replicate, Cell.padding]

theorem separate_cons (c : Cell) (cells : List Cell) : Separate (c :: cells) ↔
    Text.pieces (c.entry.toList ++ (textOf cells).toList) =
      Text.pieces c.entry.toList ++ cells.flatMap Cell.pieces := by
  rw [Separate, textOf_cons, Cell.text, String.toList_append, String.toList_append, List.append_assoc,
    pieces_blanks_append, List.flatMap_cons, Cell.pieces, List.append_assoc, List.append_cancel_left_eq]

theorem separate_nil : Separate [] := by
  change Text.pieces [] = []
  rw [Text.pieces]

/-- A sequence that reaches beyond its entry takes some of the spaces there, and the row shows less than its cells. -/
theorem separate_of_le (hgap : ∀ c ∈ cells.tail, 0 < c.gap) (h : widthOf cells ≤ displayWidth (textOf cells)) :
    Separate cells := by
  induction cells with
  | nil => exact separate_nil
  | cons c cells ih =>
      have hshown : displayWidth (textOf (c :: cells)) =
          c.gap + columnsOf (Text.visible (c.entry.toList ++ (textOf cells).toList)) := by
        rw [displayWidth, Text.visible, textOf_cons, Cell.text, String.toList_append, String.toList_append,
          List.append_assoc, pieces_blanks_append, List.filterMap_append, Text.columnsOf_append, columnsOf_padding,
          Text.visible]
      have hboth := Text.displayWidth_append_le c.entry (textOf cells)
      rw [displayWidth, String.toList_append] at hboth
      rw [hshown, widthOf, Cell.width] at h
      have hbehind := ih (fun d hd => hgap d (List.mem_of_mem_tail hd)) (by omega)
      have hfull : columnsOf (Text.visible c.entry.toList) + columnsOf (Text.visible (textOf cells).toList) ≤
          columnsOf (Text.visible (c.entry.toList ++ (textOf cells).toList)) := by
        have hcells := displayWidth_textOf_le cells
        rw [displayWidth] at h hcells
        omega
      have hstart : ∀ ch ∈ (textOf cells).toList.head?, ch = ' ' := head?_textOf hgap
      rw [separate_cons, Text.pieces_append_of_le hstart hfull, hbehind]

/-- What stands before an entry takes the columns of its cells exactly if their entries are read one by one. -/
theorem displayWidth_before_iff (hgap : ∀ c ∈ cells.tail, 0 < c.gap) (c : Cell) :
    displayWidth (textOf cells ++ c.blanks) = widthOf cells + c.gap ↔ Separate cells := by
  have hwidth : displayWidth (textOf cells ++ c.blanks) = displayWidth (textOf cells) + c.gap := by
    have hblanks := displayWidth_blanks c
    rw [displayWidth, toList_blanks] at hblanks
    rw [displayWidth, Text.visible, String.toList_append, toList_blanks, Text.pieces_append_spaces,
      List.filterMap_append, Text.columnsOf_append, ← Text.visible, ← Text.visible, hblanks, displayWidth]
  rw [hwidth, Nat.add_right_cancel_iff]
  exact ⟨fun h => separate_of_le hgap (Nat.le_of_eq h.symm), fun h => h.displayWidth_eq⟩

theorem separate_of_not_mem (h : ∀ c ∈ cells, '\x1b' ∉ c.entry.toList) : Separate cells := by
  induction cells with
  | nil => exact separate_nil
  | cons c cells ih =>
      obtain ⟨hentry, hcells⟩ := List.forall_mem_cons.mp h
      rw [separate_cons, Text.pieces_append_of_not_mem hentry, ih hcells, Text.pieces_of_not_mem hentry]

/-! ### Rows -/

/-- The cells of a row of entries; each is as wide as a column, with the spaces that stand before the next one. -/
def cellsFrom (columnWidth : Nat) : Nat → List String → List Cell
  | _, [] => []
  | gap, entry :: rest => ⟨gap, entry⟩ :: cellsFrom columnWidth (columnWidth - displayWidth entry) rest

variable {columnWidth gap : Nat} {items : List String}

theorem map_entry_cellsFrom (columnWidth gap : Nat) (items : List String) :
    (cellsFrom columnWidth gap items).map Cell.entry = items := by
  induction items generalizing gap with
  | nil => rfl
  | cons entry rest ih => exact congrArg (entry :: ·) (ih _)

theorem textOf_cellsFrom (columnWidth gap : Nat) (entry : String) (rest : List String) :
    textOf (cellsFrom columnWidth gap (entry :: rest)) = "".pushn ' ' gap ++ row columnWidth (entry :: rest) := by
  induction rest generalizing gap entry with
  | nil =>
      rw [cellsFrom, textOf_cons, cellsFrom, row, Cell.text, Cell.blanks]
      exact String.append_empty
  | cons next rest ih =>
      have hrow : row columnWidth (entry :: next :: rest) =
          entry ++ "".pushn ' ' (columnWidth - displayWidth entry) ++ row columnWidth (next :: rest) := rfl
      rw [cellsFrom, textOf_cons, ih, hrow, Cell.text, Cell.blanks]
      simp only [String.append_assoc]

theorem textOf_row (columnWidth : Nat) (items : List String) :
    textOf (cellsFrom columnWidth 0 items) = row columnWidth items := by
  cases items with
  | nil => rfl
  | cons entry rest =>
      rw [textOf_cellsFrom]
      exact String.empty_append

/-- Every entry is filled up to the width of a column, so the next one begins a column further. -/
theorem width_before_cellsFrom (hitems : ∀ e ∈ items, displayWidth e ≤ columnWidth)
    (hcell : (cellsFrom columnWidth gap items)[j]? = some c) :
    widthOf ((cellsFrom columnWidth gap items).take j) + c.gap = gap + j * columnWidth := by
  induction items generalizing gap j with
  | nil => cases hcell
  | cons entry rest ih =>
      obtain ⟨hentry, hrest⟩ := List.forall_mem_cons.mp hitems
      cases j with
      | zero =>
          cases hcell
          simp [widthOf]
      | succ j =>
          have hbefore := ih hrest hcell
          rw [cellsFrom, List.take_succ_cons, widthOf, Cell.width, Nat.succ_mul]
          dsimp only
          omega

theorem widthOf_cellsFrom_le (hitems : ∀ e ∈ items, displayWidth e ≤ columnWidth) (gap : Nat) :
    widthOf (cellsFrom columnWidth gap items) ≤ gap + items.length * columnWidth := by
  induction items generalizing gap with
  | nil => exact Nat.zero_le _
  | cons entry rest ih =>
      obtain ⟨hentry, hrest⟩ := List.forall_mem_cons.mp hitems
      have hbehind := ih hrest (columnWidth - displayWidth entry)
      rw [cellsFrom, widthOf, Cell.width, List.length_cons, Nat.succ_mul]
      dsimp only
      omega

theorem gap_pos_of_mem_cellsFrom (hitems : ∀ e ∈ items, displayWidth e < columnWidth) (hgap : 0 < gap) :
    ∀ c ∈ cellsFrom columnWidth gap items, 0 < c.gap := by
  induction items generalizing gap with
  | nil => exact nofun
  | cons entry rest ih =>
      obtain ⟨hentry, hrest⟩ := List.forall_mem_cons.mp hitems
      exact List.forall_mem_cons.mpr ⟨hgap, ih hrest (Nat.sub_pos_of_lt hentry)⟩

/-! ### Cutting the entries into rows -/

theorem length_chunks {α : Type} (n : Nat) (xs : List α) : (chunks n xs).length = (xs.length + n) / (n + 1) := by
  fun_induction chunks n xs with
  | case1 => exact (Nat.div_eq_of_lt (by simp)).symm
  | case2 x xs ih =>
      have hone : (xs.length + 1 + n) / (n + 1) = xs.length / (n + 1) + 1 := by
        rw [Nat.add_assoc, Nat.add_comm 1 n, Nat.add_div_right _ (Nat.succ_pos n)]
      rw [List.length_cons, ih, List.length_drop, List.length_cons, hone]
      rcases Nat.le_total n xs.length with hle | hle
      · rw [Nat.sub_add_cancel hle]
      · rw [Nat.sub_eq_zero_of_le hle, Nat.zero_add, Nat.div_eq_of_lt (Nat.lt_succ_self n),
          Nat.div_eq_of_lt (Nat.lt_succ_of_le hle)]

theorem chunks_getElem? {α : Type} {n r : Nat} {xs ys : List α} (h : (chunks n xs)[r]? = some ys) :
    ys = (xs.drop (r * (n + 1))).take (n + 1) := by
  fun_induction chunks n xs generalizing r with
  | case1 => cases h
  | case2 x xs ih =>
      cases r with
      | zero =>
          cases h
          simp
      | succ r =>
          rw [ih h, List.drop_drop, Nat.succ_mul, ← Nat.add_assoc, List.drop_succ_cons, Nat.add_comm n (r * _)]

theorem displayWidth_add_two_le {entries : List String} {e : String} (he : e ∈ entries) (terminal : Nat) :
    displayWidth e + 2 ≤ (ofEntries entries terminal).columnWidth := by
  have hwidth := List.le_max?_getD_of_mem (k := 0) (List.mem_map_of_mem (f := displayWidth) he)
  rw [ofEntries, ofWidths, List.foldl_max]
  dsimp only
  omega

theorem columns_pos (entries : List String) (terminal : Nat) : 0 < (ofEntries entries terminal).columns :=
  Nat.le_max_left 1 _

/-- If one column fits on the terminal, all of them do. -/
theorem columns_mul_le {entries : List String} {terminal : Nat}
    (h : (ofEntries entries terminal).columnWidth ≤ terminal) :
    (ofEntries entries terminal).columns * (ofEntries entries terminal).columnWidth ≤ terminal := by
  have hpos : 0 < (ofEntries entries terminal).columnWidth := Nat.succ_pos _
  have hcolumns : (ofEntries entries terminal).columns = terminal / (ofEntries entries terminal).columnWidth :=
    Nat.max_eq_right ((Nat.le_div_iff_mul_le hpos).mpr (by rwa [Nat.one_mul]))
  rw [hcolumns]
  exact Nat.div_mul_le_self _ _

/-! ### The table -/

/-- The table consists of the rows: one below the other they are its text, there are as many as the listing says, and
each holds the entries that come next, without a line end in it. -/
structure Rows (entries : List String) (terminal : Nat) (rows : List (List Cell)) : Prop where
  text : format entries terminal = newline ++ newline.intercalate (rows.map textOf) ++ (newline ++ newline)
  length : rows.length = (ofEntries entries terminal).rows
  places : ∀ r cells, rows[r]? = some cells → cells.map Cell.entry =
    (entries.drop (r * (ofEntries entries terminal).columns)).take (ofEntries entries terminal).columns
  once : rows.flatten.map Cell.entry = entries
  line : ∀ cells ∈ rows, '\r' ∉ (textOf cells).toList ∧ '\n' ∉ (textOf cells).toList

/-- The entries stand in columns. Up to each of them the row is filled up with spaces, entry by entry; what shows of it
ends where the column begins unless an escape sequence reaches beyond its entry there. -/
structure InColumns (table : Listing) (terminal : Nat) (cells : List Cell) : Prop where
  filled : ∀ j c, cells[j]? = some c → widthOf (cells.take j) + c.gap = j * table.columnWidth
  start : ∀ j c, cells[j]? = some c →
    (displayWidth (textOf (cells.take j) ++ c.blanks) = j * table.columnWidth ↔ Separate (cells.take j))
  fits : table.columnWidth ≤ terminal → displayWidth (textOf cells) ≤ terminal

theorem inColumns_cellsFrom {table : Listing} {terminal : Nat}
    (hwidth : ∀ e ∈ items, displayWidth e < table.columnWidth)
    (hroom : table.columnWidth ≤ terminal → items.length * table.columnWidth ≤ terminal) :
    InColumns table terminal (cellsFrom table.columnWidth 0 items) := by
  have hle : ∀ e ∈ items, displayWidth e ≤ table.columnWidth := fun e he => Nat.le_of_lt (hwidth e he)
  have hgap : ∀ c ∈ (cellsFrom table.columnWidth 0 items).tail, 0 < c.gap := by
    cases items with
    | nil => exact nofun
    | cons entry rest =>
        obtain ⟨hentry, hrest⟩ := List.forall_mem_cons.mp hwidth
        exact gap_pos_of_mem_cellsFrom hrest (Nat.sub_pos_of_lt hentry)
  have hfilled : ∀ j c, (cellsFrom table.columnWidth 0 items)[j]? = some c →
      widthOf ((cellsFrom table.columnWidth 0 items).take j) + c.gap = j * table.columnWidth := by
    intro j c hcell
    rw [width_before_cellsFrom hle hcell, Nat.zero_add]
  refine ⟨hfilled, ?_, ?_⟩
  · intro j c hcell
    rw [← hfilled j c hcell]
    exact displayWidth_before_iff (fun d hd => hgap d ((List.take_sublist j _).tail.subset hd)) c
  · intro hcolumn
    calc displayWidth (textOf (cellsFrom table.columnWidth 0 items))
        ≤ widthOf (cellsFrom table.columnWidth 0 items) := displayWidth_textOf_le _
      _ ≤ 0 + items.length * table.columnWidth := widthOf_cellsFrom_le hle 0
      _ = items.length * table.columnWidth := Nat.zero_add _
      _ ≤ terminal := hroom hcolumn

theorem rows_chunks {entries : List String} (terminal : Nat) (hne : entries ≠ [])
    (hlines : ∀ e ∈ entries, '\r' ∉ e.toList ∧ '\n' ∉ e.toList) :
    Rows entries terminal ((chunks ((ofEntries entries terminal).columns - 1) entries).map
      (cellsFrom (ofEntries entries terminal).columnWidth 0)) := by
  have hcolumns : (ofEntries entries terminal).columns - 1 + 1 = (ofEntries entries terminal).columns :=
    Nat.sub_add_cancel (columns_pos entries terminal)
  refine ⟨?_, ?_, ?_, ?_, ?_⟩
  · have hempty : entries.isEmpty = false := List.isEmpty_eq_false_iff.mpr hne
    have htexts : textOf ∘ cellsFrom (ofEntries entries terminal).columnWidth 0 =
        row (ofEntries entries terminal).columnWidth := funext (textOf_row _)
    rw [format, hempty, List.map_map, htexts]
    rfl
  · rw [List.length_map, length_chunks, hcolumns, ← Nat.add_sub_assoc (columns_pos entries terminal), ofEntries,
      ofWidths, List.length_map]
  · intro r cells hcells
    rw [List.getElem?_map] at hcells
    obtain ⟨items, hitems, rfl⟩ := Option.map_eq_some_iff.mp hcells
    rw [map_entry_cellsFrom, chunks_getElem? hitems, hcolumns]
  · have hitems : List.map Cell.entry ∘ cellsFrom (ofEntries entries terminal).columnWidth 0 = id :=
      funext (map_entry_cellsFrom _ _)
    rw [List.map_flatten, List.map_map, hitems, List.map_id, chunks_flatten]
  · intro cells hcells
    obtain ⟨items, hitems, rfl⟩ := List.mem_map.mp hcells
    have hentries : ∀ c ∈ cellsFrom (ofEntries entries terminal).columnWidth 0 items, c.entry ∈ entries := by
      intro c hc
      have hentry := List.mem_map_of_mem (f := Cell.entry) hc
      rw [map_entry_cellsFrom] at hentry
      rw [← chunks_flatten ((ofEntries entries terminal).columns - 1) entries]
      exact List.mem_flatten.mpr ⟨items, hitems, hentry⟩
    have hnone : ∀ ch, ch ≠ ' ' → (∀ e ∈ entries, ch ∉ e.toList) →
        ch ∉ (textOf (cellsFrom (ofEntries entries terminal).columnWidth 0 items)).toList := by
      intro ch hspace hnot hmem
      rcases mem_textOf hmem with heq | ⟨c, hc, hch⟩
      · exact hspace heq
      · exact hnot _ (hentries c hc) hch
    exact ⟨hnone '\r' (by decide) fun e he => (hlines e he).1, hnone '\n' (by decide) fun e he => (hlines e he).2⟩

/-- A table has its entries in columns, in order and each of them once, and is no wider than a terminal on which one
column fits. -/
theorem format_in_columns {entries : List String} (terminal : Nat) (hne : entries ≠ [])
    (hlines : ∀ e ∈ entries, '\r' ∉ e.toList ∧ '\n' ∉ e.toList) :
    ∃ rows, Rows entries terminal rows ∧ ∀ cells ∈ rows, InColumns (ofEntries entries terminal) terminal cells := by
  refine ⟨_, rows_chunks terminal hne hlines, fun cells hcells => ?_⟩
  obtain ⟨items, hitems, rfl⟩ := List.mem_map.mp hcells
  obtain ⟨r, hr⟩ := List.mem_iff_getElem?.mp hitems
  have hplaces := chunks_getElem? hr
  rw [Nat.sub_add_cancel (columns_pos entries terminal)] at hplaces
  refine inColumns_cellsFrom ?_ ?_
  · intro e he
    rw [hplaces] at he
    have hentry := displayWidth_add_two_le (List.mem_of_mem_drop (List.mem_of_mem_take he)) terminal
    omega
  · intro hcolumn
    have hlength : items.length ≤ (ofEntries entries terminal).columns := by
      rw [hplaces]
      exact List.length_take_le _ _
    exact Nat.le_trans (Nat.mul_le_mul_right _ hlength) (columns_mul_le hcolumn)

/-- A wide letter takes two columns, and the last row is shorter. No entry holds an escape character, so each is in its
column. -/
theorem format_in_columns_wide :
    ["ab", "あ", "cde"] ≠ [] ∧ (∀ e ∈ ["ab", "あ", "cde"], '\r' ∉ e.toList ∧ '\n' ∉ e.toList) ∧
      format ["ab", "あ", "cde"] 12 = "\r\nab   あ\r\ncde\r\n\r\n" ∧
      ∃ rows, Rows ["ab", "あ", "cde"] 12 rows ∧
        (∀ cells ∈ rows, InColumns (ofEntries ["ab", "あ", "cde"] 12) 12 cells) ∧
        ∀ cells ∈ rows, ∀ j c, cells[j]? = some c → displayWidth (textOf (cells.take j) ++ c.blanks) = j * 5 := by
  have hne : ["ab", "あ", "cde"] ≠ [] := by decide
  have hlines : ∀ e ∈ ["ab", "あ", "cde"], '\r' ∉ e.toList ∧ '\n' ∉ e.toList := by decide
  have hwidth : (ofEntries ["ab", "あ", "cde"] 12).columnWidth = 5 := by decide +kernel
  have hescape : ∀ e ∈ ["ab", "あ", "cde"], '\x1b' ∉ e.toList := by decide
  obtain ⟨rows, hrows, hcolumns⟩ := format_in_columns 12 hne hlines
  refine ⟨hne, hlines, by decide +kernel, rows, hrows, hcolumns, fun cells hcells j c hcell => ?_⟩
  have hseparate : Separate (cells.take j) := by
    refine separate_of_not_mem fun d hd => hescape d.entry ?_
    rw [← hrows.once]
    exact List.mem_map_of_mem (List.mem_flatten_of_mem hcells (List.mem_of_mem_take hd))
  rw [← hwidth]
  exact ((hcolumns cells hcells).start j c hcell).mpr hseparate

/-- The second entry completes the sequence that the first one begins, so the third one is drawn four columns to the
left of its own. -/
theorem unfinished_sequence_shifts :
    ¬ ∃ rows, Rows ["\x1b[", "m", "x"] 80 rows ∧ ∀ cells ∈ rows, ∀ j c, cells[j]? = some c →
      displayWidth (textOf (cells.take j) ++ c.blanks) = j * (ofEntries ["\x1b[", "m", "x"] 80).columnWidth := by
  rintro ⟨rows, h, hcolumn⟩
  have hrows : rows.length = 1 := h.length.trans (by decide +kernel)
  obtain ⟨cells, rfl⟩ := List.length_eq_one_iff.mp hrows
  have hentries : cells.map Cell.entry = ["\x1b[", "m", "x"] := (h.places 0 cells rfl).trans (by decide +kernel)
  have hlength : cells.length = 3 := by
    rw [← List.length_map (f := Cell.entry), hentries]
    rfl
  obtain ⟨a, b, c, rfl⟩ := List.length_eq_three.mp hlength
  have hentry : c.entry = "x" := (List.cons.inj (List.cons.inj (List.cons.inj hentries).2).2).1
  have hformat : format ["\x1b[", "m", "x"] 80 = newline ++ ("\x1b[  m  " ++ "x") ++ (newline ++ newline) := by
    decide +kernel
  have htext : textOf [a, b, c] = textOf [a, b] ++ c.blanks ++ "x" := by
    have hlast : textOf [c] = c.blanks ++ "x" := by
      rw [textOf_cons, Cell.text, hentry]
      exact String.append_empty
    calc textOf ([a, b] ++ [c])
        = textOf [a, b] ++ textOf [c] := by rw [textOf, List.map_append, String.join_append, textOf, textOf]
      _ = textOf [a, b] ++ c.blanks ++ "x" := by rw [hlast, String.append_assoc]
  have hrow := hformat.symm.trans h.text
  rw [List.map_singleton, String.intercalate_singleton, String.append_left_inj, String.append_right_inj, htext,
    String.append_left_inj] at hrow
  have hthird := hcolumn _ (List.mem_singleton_self _) 2 c rfl
  rw [List.take_succ_cons, List.take_succ_cons, List.take_zero, ← hrow] at hthird
  exact absurd hthird (by decide +kernel)

end ScriptRepl.Console.Listing
