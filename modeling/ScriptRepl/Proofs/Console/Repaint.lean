import ScriptRepl.Proofs.Console.Terminal

/-! The screen and the terminal agree on where the line is. Between the first row of what is shown and the cursor there
are as many rows as the screen remembers, so that a repaint begins on that row; from there on it depends on nothing that
was shown before. -/
namespace ScriptRepl.Console

open Text (Plain Styled displayWidth columnsOf)

/-! ### What is shown -/

/-- The rows that a frame takes. -/
def Frame.rows (columns : Nat) (f : Frame) : Nat :=
  let width := displayWidth f.prompt + displayWidth f.line
  match f.suffix with
  | none => width / columns + 1
  | some ⟨_, .preview⟩ => width / columns + 2
  | some ⟨text, _⟩ => (width + displayWidth text) / columns + 1

/-- A frame of characters that take one column or none, and not too high for counts of 16 bits. -/
structure Frame.Fits (columns : Nat) (f : Frame) : Prop where
  prompt : Plain f.prompt
  line : ∃ text, Styled f.line.toList text ∧ f.beforeCursor.toList <+: text
  suffix : ∀ s, f.suffix = some s → Plain s.text
  rows : f.rows columns < 65536

/-- The rows that a search takes. -/
def searchRows (columns : Nat) (found : Option String) (query : String) : Nat :=
  displayWidth (found.getD "") / columns + displayWidth (Screen.searchLabel ++ query) / columns + 2

/-- The column at which a frame leaves the cursor, counted from the beginning of its first row. -/
def Frame.target (f : Frame) : Nat :=
  displayWidth f.prompt + displayWidth f.beforeCursor

inductive Repaint where
  | line (f : Frame)
  | search (found : Option String) (query : String)

namespace Repaint

def paint (s : Screen) : Repaint → List Command × Screen
  | line f => s.render f
  | search found query => s.renderSearch found query

def Fits (columns : Nat) : Repaint → Prop
  | line f => f.Fits columns
  | search found query =>
    (∀ line, found = some line → ∃ text, Styled line.toList text) ∧ Plain query ∧
      searchRows columns found query < 65536

/-- What is written after the old line has been cleared. -/
def ink (s : Screen) : Repaint → List Command
  | line f =>
    let (behind, lastRow) := s.behind (displayWidth f.prompt + displayWidth f.line) f.suffix
    let row := f.target / s.columns
    [.print f.prompt, .print f.line] ++ behind ++ (if row < lastRow then [.up (lastRow - row)] else []) ++
      [.column (f.target % s.columns), .showCursor]
  | search found query =>
    let line := (found.map (Text.underline query)).getD ""
    let label := Screen.searchLabel ++ query
    [.print (Text.Style.paint s.highlight line)] ++ s.settle (displayWidth line) ++
      [.newline, .print label, .showCursor] ++ s.settle (displayWidth label)

theorem paint_fst (s : Screen) (r : Repaint) : (r.paint s).1 = s.begin ++ r.ink s := by
  cases r with
  | line f =>
      simp only [paint, ink, Screen.render, Frame.target, List.append_assoc]
      rfl
  | search found query => simp [paint, ink, Screen.renderSearch]

theorem ink_line_eq (s : Screen) (f : Frame) :
    (line f).ink s = [.print f.prompt] ++ ([.print f.line] ++
      ((s.behind (displayWidth f.prompt + displayWidth f.line) f.suffix).1 ++
        ((if f.target / s.columns < (s.behind (displayWidth f.prompt + displayWidth f.line) f.suffix).2 then
          [.up ((s.behind (displayWidth f.prompt + displayWidth f.line) f.suffix).2 - f.target / s.columns)] else []) ++
            [.column (f.target % s.columns), .showCursor]))) := by
  simp only [ink, List.append_assoc]
  rfl

theorem ink_cursorRow (s : Screen) (r : Repaint) (n : Nat) : r.ink { s with cursorRow := n } = r.ink s := by
  cases r <;> rfl

theorem paint_snd (s : Screen) (r : Repaint) : (r.paint s).2 = { s with cursorRow := (r.paint s).2.cursorRow } := by
  cases r <;> rfl

theorem columns_paint (s : Screen) (r : Repaint) : (r.paint s).2.columns = s.columns := by
  cases r <;> rfl

end Repaint

/-! ### Where the cursor comes to rest -/

namespace Terminal

variable {P : Type} (sgr : List Char → P → P) {t : Terminal P} {s : Screen} {top n : Nat}

/-- The cursor is at a place and not behind the end of a full row. -/
structure Rests (t : Terminal P) (row col : Nat) : Prop where
  row : t.row = row
  col : t.col = col
  wraps : t.wraps = false

theorem Rests.stands {row : Nat} (h : t.Rests row 0) : t.Stands row 0 :=
  ⟨h.row, h.col, h.wraps⟩

/-- A new row after a full one brings the cursor to where the width says it is. -/
theorem Stands.settle (h : t.Stands top n) (hcolumns : t.columns = s.columns) (hreading : t.reading = .plain) :
    (t.run sgr (s.settle n)).Rests (top + n / s.columns) (n % s.columns) ∧
      Keeps top t (t.run sgr (s.settle n)) := by
  have hpos : 0 < t.columns := hcolumns ▸ s.columns_pos
  rw [← hcolumns]
  unfold Screen.settle
  rw [← hcolumns]
  cases n with
  | zero =>
      obtain ⟨hrow, hcol, hwraps⟩ := h
      exact ⟨⟨by simpa using hrow, by simpa using hcol, hwraps⟩, .refl _ _⟩
  | succ n =>
      obtain ⟨hrow, hcol, hwraps⟩ := h
      rcases succ_div_mod n hpos with ⟨hfull, hdiv, hmod⟩ | ⟨hfree, hdiv, hmod⟩
      · rw [if_pos (by simp [hmod]), run_newline hreading, hdiv, hmod]
        exact ⟨⟨by simp only [hrow]; omega, rfl, rfl⟩, ⟨rfl, id, fun _ _ => rfl⟩⟩
      · rw [if_neg (by simp [hmod]), hdiv, hmod]
        have hopen : t.wraps = false := by
          rw [hwraps]
          exact decide_eq_false (by omega)
        exact ⟨⟨hrow, by rw [run_nil]; omega, hopen⟩, .refl _ _⟩

theorem rests_newline (top : Nat) (hreading : t.reading = .plain) :
    (t.run sgr [.newline]).Rests (t.row + 1) 0 ∧ Keeps top t (t.run sgr [.newline]) := by
  rw [run_newline hreading]
  exact ⟨⟨rfl, rfl, rfl⟩, ⟨rfl, id, fun _ _ => rfl⟩⟩

/-- Less than a row is on the first one. -/
theorem Stands.row_of_lt (h : t.Stands top n) (hn : n < t.columns) : t.row = top := by
  cases n with
  | zero => exact h.1
  | succ n =>
      have hrow := h.1
      rw [Nat.div_eq_of_lt (by omega)] at hrow
      exact hrow

theorem Stands.print {line : String} {text : List Char} (h : t.Stands top n) (hcolumns : t.columns = s.columns)
    (hreading : t.reading = .plain) (hline : Styled line.toList text) :
    (t.run sgr [.print line]).Stands top (n + columnsOf text) ∧ Keeps top t (t.run sgr [.print line]) :=
  h.write (hcolumns ▸ s.columns_pos) hreading hline

/-- What is behind the line ends on the row that the screen counts. -/
theorem Stands.behind (h : t.Stands top n) (hcolumns : t.columns = s.columns) (hreading : t.reading = .plain)
    {suffix : Option Suffix} (hsuffix : ∀ x, suffix = some x → Plain x.text) :
    (t.run sgr (s.behind n suffix).1).row = top + (s.behind n suffix).2 ∧
      Keeps top t (t.run sgr (s.behind n suffix).1) := by
  unfold Screen.behind
  split
  · obtain ⟨hrests, hkeeps⟩ := h.settle sgr hcolumns hreading
    exact ⟨hrests.row, hkeeps⟩
  · -- A preview is narrower than a row, so that it ends on the row that it begins on.
    rename_i text
    obtain ⟨hplain, hnarrow⟩ := (hsuffix _ rfl).truncate (s.columns - 1)
    obtain ⟨hrests, hsettled⟩ := h.settle sgr hcolumns hreading
    dsimp only
    rw [run_append]
    change ((Terminal.run sgr _ [.newline]).run sgr [.print _]).row = _ ∧
      Keeps top t ((Terminal.run sgr _ [.newline]).run sgr [.print _])
    generalize t.run sgr (s.settle n) = u at hrests hsettled
    obtain ⟨hbelow, hnewline⟩ := rests_newline sgr top (hsettled.reading hreading)
    obtain ⟨hstands, hprinted⟩ := hbelow.stands.print sgr
      ((hnewline.columns.trans hsettled.columns).trans hcolumns) (hnewline.reading (hsettled.reading hreading))
      ((Styled.plain hplain).paint s.ghost)
    have hrow : u.row = top + n / s.columns := hrests.row
    refine ⟨?_, ?_⟩
    · rw [hstands.row_of_lt ?_, hrow, Nat.add_assoc]
      rw [hprinted.columns, hnewline.columns, hsettled.columns, hcolumns]
      have hpos := s.columns_pos
      omega
    · have htop : top ≤ u.row + 1 := by
        rw [hrow, Nat.add_assoc]
        exact Nat.le_add_right ..
      exact (hsettled.trans hnewline).trans (hprinted.mono htop)
  · rename_i text _ _
    have hplain : Plain text := hsuffix _ rfl
    obtain ⟨hstands, hprinted⟩ := h.print sgr hcolumns hreading ((Styled.plain hplain).paint s.ghost)
    obtain ⟨hrests, hsettled⟩ := hstands.settle sgr (hprinted.columns.trans hcolumns)
      (hprinted.reading hreading)
    rw [← hplain.displayWidth_eq] at hrests hsettled
    exact ⟨hrests.row, hprinted.trans hsettled⟩

/-- The way back from the last row of the line to the row of the cursor. -/
theorem run_back {row lastRow : Nat} (hrow : row ≤ lastRow) (hlast : lastRow < 65536) (hreading : t.reading = .plain)
    (ht : t.row = top + lastRow) :
    (t.run sgr (if row < lastRow then [.up (lastRow - row)] else [])).row = top + row ∧
      Keeps top t (t.run sgr (if row < lastRow then [.up (lastRow - row)] else [])) := by
  by_cases hback : row < lastRow
  · rw [if_pos hback, run_up (by omega) (by omega) hreading]
    refine ⟨?_, ⟨rfl, id, fun _ _ => rfl⟩⟩
    change t.row - (lastRow - row) = top + row
    omega
  · rw [if_neg hback]
    refine ⟨?_, .refl _ _⟩
    rw [run_nil]
    omega

theorem run_place {col : Nat} (hcol : col < t.columns) (hcolumns : t.columns < 65536) (hreading : t.reading = .plain) :
    t.run sgr [.column col, .showCursor] = { t with col, wraps := false, hidden := false } := by
  rw [show [Command.column col, .showCursor] = [.column col] ++ [.showCursor] from rfl, run_append,
    run_column hcol hcolumns hreading, run_showCursor (t := { t with col, wraps := false }) hreading]

/-- The way back from the last row of the line to the place of the cursor. -/
theorem run_return {row lastRow col : Nat} (hrow : row ≤ lastRow) (hlast : lastRow < 65536) (hcol : col < t.columns)
    (hcolumns : t.columns < 65536) (hreading : t.reading = .plain) (ht : t.row = top + lastRow) :
    let t' := t.run sgr ((if row < lastRow then [.up (lastRow - row)] else []) ++ [.column col, .showCursor])
    t'.Rests (top + row) col ∧ Keeps top t t' := by
  obtain ⟨hback, kept⟩ := run_back sgr hrow hlast hreading ht
  rw [run_append]
  generalize t.run sgr _ = u at hback kept ⊢
  rw [run_place sgr (kept.columns ▸ hcol) (kept.columns ▸ hcolumns) (kept.reading hreading)]
  exact ⟨⟨hback, rfl, rfl⟩, ⟨kept.columns, kept.reading, kept.above⟩⟩

end Terminal

namespace Frame

theorem Fits.beforeCursor {columns : Nat} {f : Frame} (h : f.Fits columns) : Plain f.beforeCursor := by
  obtain ⟨_, hline, more, rfl⟩ := h.line
  exact fun c hc => hline.isPlain c (List.mem_append_left more hc)

theorem Fits.displayWidth_le {columns : Nat} {f : Frame} (h : f.Fits columns) :
    displayWidth f.beforeCursor ≤ displayWidth f.line := by
  have hbefore := h.beforeCursor.displayWidth_eq
  obtain ⟨_, hline, more, rfl⟩ := h.line
  rw [hline.displayWidth_eq, hbefore, Text.columnsOf_append]
  exact Nat.le_add_right ..

/-- The width of what is before the cursor. -/
theorem Fits.target_eq {columns : Nat} {f : Frame} (h : f.Fits columns) :
    f.target = displayWidth (f.prompt ++ f.beforeCursor) := by
  rw [target, h.prompt.displayWidth_eq, h.beforeCursor.displayWidth_eq,
    (h.prompt.append h.beforeCursor).displayWidth_eq, String.toList_append, Text.columnsOf_append]

/-- The screen counts the rows of a frame. -/
theorem rows_eq (f : Frame) (s : Screen) :
    f.rows s.columns = (s.behind (displayWidth f.prompt + displayWidth f.line) f.suffix).2 + 1 := by
  unfold rows Screen.behind
  rcases f.suffix with _ | ⟨text, kind⟩
  · rfl
  · cases kind <;> rfl

theorem target_row_le {f : Frame} (hle : displayWidth f.beforeCursor ≤ displayWidth f.line) (s : Screen) :
    f.target / s.columns ≤ (s.behind (displayWidth f.prompt + displayWidth f.line) f.suffix).2 := by
  have hline : f.target / s.columns ≤ (displayWidth f.prompt + displayWidth f.line) / s.columns :=
    Nat.div_le_div_right (Nat.add_le_add_left hle _)
  refine Nat.le_trans hline ?_
  unfold Screen.behind
  split
  · exact Nat.le_refl _
  · exact Nat.le_succ _
  · exact Nat.div_le_div_right (Nat.le_add_right ..)

end Frame

namespace Terminal

variable {P : Type} (sgr : List Char → P → P) {t : Terminal P} {s : Screen} {top n : Nat}

theorem ink_line (ht : t.Stands top 0) (hreading : t.reading = .plain) (hcolumns : t.columns = s.columns)
    (hwidth : s.columns < 65536) {f : Frame} (hf : f.Fits s.columns) :
    let t' := t.run sgr ((Repaint.line f).ink s)
    t'.Rests (top + f.target / s.columns) (f.target % s.columns) ∧ Keeps top t t' := by
  obtain ⟨text, hline, -⟩ := hf.line
  rw [Repaint.ink_line_eq, run_append, run_append, run_append]
  obtain ⟨hprompt, kept⟩ := ht.print sgr hcolumns hreading (Styled.plain hf.prompt)
  rw [Nat.zero_add, ← hf.prompt.displayWidth_eq] at hprompt
  generalize t.run sgr [.print f.prompt] = t1 at hprompt kept ⊢
  obtain ⟨hwhole, kept1⟩ := hprompt.print sgr (kept.columns.trans hcolumns) (kept.reading hreading) hline
  rw [← hline.displayWidth_eq] at hwhole
  replace kept := kept.trans kept1
  generalize t1.run sgr [.print f.line] = t2 at hwhole kept ⊢
  obtain ⟨hlast, kept2⟩ := hwhole.behind sgr (kept.columns.trans hcolumns) (kept.reading hreading) hf.suffix
  replace kept := kept.trans kept2
  generalize t2.run sgr (s.behind _ _).1 = t3 at hlast kept ⊢
  have hrows : (s.behind (displayWidth f.prompt + displayWidth f.line) f.suffix).2 < 65536 := by
    have hfits := hf.rows
    rw [f.rows_eq s] at hfits
    omega
  have hcol : f.target % s.columns < t3.columns := by
    rw [kept.columns, hcolumns]
    exact Nat.mod_lt _ s.columns_pos
  obtain ⟨hrests, kept3⟩ := run_return sgr (Frame.target_row_le hf.displayWidth_le s) hrows hcol
    (by rw [kept.columns, hcolumns]; exact hwidth) (kept.reading hreading) hlast
  exact ⟨hrests, kept.trans kept3⟩

theorem ink_search (ht : t.Stands top 0) (hreading : t.reading = .plain) (hcolumns : t.columns = s.columns)
    {found : Option String} {query : String} (hfits : (Repaint.search found query).Fits s.columns) :
    let t' := t.run sgr ((Repaint.search found query).ink s)
    t'.row = top + (s.renderSearch found query).2.cursorRow ∧ Keeps top t t' := by
  obtain ⟨hfound, hquery, -⟩ := hfits
  obtain ⟨text, hline⟩ : ∃ text, Styled ((found.map (Text.underline query)).getD "").toList text := by
    cases found with
    | none => exact ⟨[], .nil⟩
    | some line =>
        obtain ⟨text, hline⟩ := hfound line rfl
        exact ⟨text, hline.underline query⟩
  have hlabel : Plain (Screen.searchLabel ++ query) := Plain.append (by decide) hquery
  simp only [Screen.renderSearch, Repaint.ink]
  generalize (found.map (Text.underline query)).getD "" = line at hline
  generalize Screen.searchLabel ++ query = label at hlabel
  have hink : [Command.print (Text.Style.paint s.highlight line)] ++ s.settle (displayWidth line) ++
      [.newline, .print label, .showCursor] ++ s.settle (displayWidth label) =
      [.print (Text.Style.paint s.highlight line)] ++ (s.settle (displayWidth line) ++
        ([.newline] ++ ([.print label] ++ ([.showCursor] ++ s.settle (displayWidth label))))) := by
    simp
  rw [hink, run_append, run_append, run_append, run_append, run_append]
  obtain ⟨hprinted, kept⟩ := ht.print sgr hcolumns hreading (hline.paint s.highlight)
  rw [Nat.zero_add, ← hline.displayWidth_eq] at hprinted
  generalize t.run sgr [.print _] = t1 at hprinted kept ⊢
  obtain ⟨hsettled, kept1⟩ := hprinted.settle sgr (kept.columns.trans hcolumns) (kept.reading hreading)
  replace kept := kept.trans kept1
  generalize t1.run sgr _ = t2 at hsettled kept ⊢
  obtain ⟨hbelow, kept2⟩ := rests_newline sgr top (kept.reading hreading)
  replace kept := kept.trans kept2
  have hrow : t2.row + 1 = top + (displayWidth line / s.columns + 1) := by
    rw [hsettled.row, Nat.add_assoc]
  rw [hrow] at hbelow
  generalize t2.run sgr [.newline] = t3 at hbelow kept ⊢
  obtain ⟨hlabelled, kept3⟩ := hbelow.stands.print sgr (kept.columns.trans hcolumns) (kept.reading hreading)
    (Styled.plain hlabel)
  rw [Nat.zero_add, ← hlabel.displayWidth_eq] at hlabelled
  replace kept := kept.trans (kept3.mono (Nat.le_add_right ..))
  generalize t3.run sgr [.print label] = t4 at hlabelled kept ⊢
  rw [run_showCursor (kept.reading hreading)]
  have hshown : ({ t4 with hidden := false } : Terminal P).Stands (top + (displayWidth line / s.columns + 1))
      (displayWidth label) := hlabelled.congr rfl rfl rfl rfl
  replace kept : Keeps top t { t4 with hidden := false } := ⟨kept.columns, kept.reading, kept.above⟩
  obtain ⟨hends, kept4⟩ := hshown.settle sgr (kept.columns.trans hcolumns) (kept.reading hreading)
  refine ⟨?_, kept.trans (kept4.mono (Nat.le_add_right ..))⟩
  rw [hends.row, Nat.add_assoc]

/-! ### Repaints -/

/-- Nothing is at row `top` or below it, and the cursor is at the beginning of this row, hidden. -/
def cleared (t : Terminal P) (top : Nat) : Terminal P :=
  { t with
    row := top
    col := 0
    wraps := false
    hidden := true
    cells := fun r c => if r < top then t.cells r c else none }

theorem keeps_cleared (t : Terminal P) (top : Nat) : Keeps top t (t.cleared top) where
  columns := rfl
  reading := id
  above r hr := by
    funext c
    exact if_pos hr

/-- A terminal is cleared the same way by whatever it is drawn below the row. -/
theorem Keeps.cleared_eq {t' : Terminal P} (h : Keeps top t t') (hreading : t.reading = .plain) (hpen : t'.pen = t.pen) :
    t'.cleared top = t.cleared top := by
  have hcells : (fun r c => if r < top then t'.cells r c else none) = fun r c => if r < top then t.cells r c else none := by
    funext r c
    by_cases hr : r < top
    · rw [if_pos hr, if_pos hr, h.above r hr]
    · rw [if_neg hr, if_neg hr]
  unfold cleared
  rw [hcells, h.columns, hpen, h.reading hreading, hreading]

theorem run_begin (hcolumns : t.columns = s.columns) (hwidth : s.columns < 65536) (hreading : t.reading = .plain)
    (hrow : t.row = top + s.cursorRow) (hcursor : s.cursorRow < 65536) : t.run sgr s.begin = t.cleared top := by
  have hup : ∃ col wraps, ({ t with hidden := true } : Terminal P).run sgr
      (if 0 < s.cursorRow then [.up s.cursorRow] else []) = { t with row := top, col, wraps, hidden := true } := by
    by_cases hdown : 0 < s.cursorRow
    · rw [if_pos hdown, run_up (t := { t with hidden := true }) hdown hcursor hreading]
      refine ⟨min t.col (t.columns - 1), false, ?_⟩
      rw [show t.row - s.cursorRow = top by omega]
      rfl
    · rw [if_neg hdown]
      have htop : t.row = top := by omega
      exact ⟨t.col, t.wraps, eq_at htop rfl rfl⟩
  obtain ⟨col, wraps, hup⟩ := hup
  have hpos : 0 < t.columns := hcolumns ▸ s.columns_pos
  rw [Screen.begin, run_append, run_append, run_hideCursor hreading, hup,
    show [Command.column 0, .clearBelow] = [.column 0] ++ [.clearBelow] from rfl, run_append,
    run_column (t := { t with row := top, col, wraps, hidden := true }) hpos (hcolumns ▸ hwidth) hreading,
    run_clearBelow (t := { t with row := top, col := 0, wraps := false, hidden := true }) hreading]
  unfold erase cleared
  congr 1
  funext r c
  by_cases hr : r < top
  · rw [if_pos hr, if_neg (by simp; omega)]
  · rw [if_neg hr, if_pos (by simp; omega)]

end Terminal

/-! ### A run -/

/-- What the screen is asked for. -/
inductive Showing where
  | repaint (r : Repaint)
  | newline
  | clear

namespace Showing

def draw (s : Screen) : Showing → List Command × Screen
  | repaint r => r.paint s
  | newline => s.newline
  | clear => s.clear

def Fits (columns : Nat) : Showing → Prop
  | repaint r => r.Fits columns
  | newline | clear => True

end Showing

/-- The screen and the terminal that it writes to. -/
structure View (P : Type) where
  terminal : Terminal P
  screen : Screen
  /-- The row on which what is shown begins. -/
  top : Nat

namespace View

variable {P : Type} (sgr : List Char → P → P)

/-- A repaint begins where the terminal is when the old line has been cleared, and a new row where the cursor is. -/
def step (v : View P) (x : Showing) : View P where
  terminal := v.terminal.run sgr (x.draw v.screen).1
  screen := (x.draw v.screen).2
  top :=
    match x with
    | .repaint _ => (v.terminal.run sgr v.screen.begin).row
    | .newline | .clear => (v.terminal.run sgr (x.draw v.screen).1).row

def run (v : View P) (xs : List Showing) : View P :=
  xs.foldl (step sgr) v

/-- The screen remembers how far below the first row the cursor is. -/
structure Sound (v : View P) : Prop where
  columns : v.terminal.columns = v.screen.columns
  reading : v.terminal.reading = .plain
  row : v.terminal.row = v.top + v.screen.cursorRow
  cursorRow : v.screen.cursorRow < 65536

variable {v : View P}

theorem Sound.run_begin (h : v.Sound) (hwidth : v.screen.columns < 65536) :
    v.terminal.run sgr v.screen.begin = v.terminal.cleared v.top :=
  Terminal.run_begin sgr h.columns hwidth h.reading h.row h.cursorRow

theorem Sound.top_repaint (h : v.Sound) (hwidth : v.screen.columns < 65536) (r : Repaint) :
    (v.step sgr (.repaint r)).top = v.top := by
  change (v.terminal.run sgr v.screen.begin).row = v.top
  rw [h.run_begin sgr hwidth]
  rfl

theorem Sound.terminal_repaint (h : v.Sound) (hwidth : v.screen.columns < 65536) (r : Repaint) :
    (v.step sgr (.repaint r)).terminal = (v.terminal.cleared v.top).run sgr (r.ink v.screen) := by
  change v.terminal.run sgr (r.paint v.screen).1 = _
  rw [r.paint_fst, Terminal.run_append, h.run_begin sgr hwidth]

/-- What a repaint leaves above the first row, and where it leaves the cursor. -/
theorem Sound.ink (h : v.Sound) (hwidth : v.screen.columns < 65536) {r : Repaint} (hfits : r.Fits v.screen.columns) :
    let t := (v.terminal.cleared v.top).run sgr (r.ink v.screen)
    t.row = v.top + (r.paint v.screen).2.cursorRow ∧ Terminal.Keeps v.top (v.terminal.cleared v.top) t := by
  have hstands : (v.terminal.cleared v.top).Stands v.top 0 := ⟨rfl, rfl, rfl⟩
  cases r with
  | line f =>
      obtain ⟨hrests, hkeeps⟩ := Terminal.ink_line sgr hstands h.reading h.columns hwidth hfits
      exact ⟨hrests.row, hkeeps⟩
  | search found query => exact Terminal.ink_search sgr hstands h.reading h.columns hfits

end View

/-- A screen counts rows with 16 bits. -/
theorem Repaint.Fits.cursorRow_lt {s : Screen} {r : Repaint} (h : r.Fits s.columns) :
    (r.paint s).2.cursorRow < 65536 := by
  cases r with
  | line f =>
      have hrow : f.target / s.columns ≤ _ := Frame.target_row_le (Frame.Fits.displayWidth_le h) _
      have hrows := h.rows
      rw [f.rows_eq s] at hrows
      change f.target / s.columns < 65536
      omega
  | search found query =>
      obtain ⟨hfound, -, hrows⟩ := h
      have hwidth : displayWidth ((found.map (Text.underline query)).getD "") = displayWidth (found.getD "") := by
        cases found with
        | none => rfl
        | some line =>
            obtain ⟨text, hline⟩ := hfound line rfl
            exact (hline.underline query).displayWidth_eq.trans hline.displayWidth_eq.symm
      unfold searchRows at hrows
      change displayWidth ((found.map (Text.underline query)).getD "") / s.columns + 1 +
        displayWidth (Screen.searchLabel ++ query) / s.columns < 65536
      rw [hwidth]
      omega

namespace View

variable {P : Type} (sgr : List Char → P → P) {v : View P}

theorem Sound.step (h : v.Sound) (hwidth : v.screen.columns < 65536) {x : Showing} (hfits : x.Fits v.screen.columns) :
    (v.step sgr x).Sound ∧ (v.step sgr x).screen.columns = v.screen.columns := by
  cases x with
  | repaint r =>
      obtain ⟨hrow, hkeeps⟩ := h.ink sgr hwidth hfits
      have hcolumns : (v.step sgr (.repaint r)).screen.columns = v.screen.columns := r.columns_paint v.screen
      rw [← h.terminal_repaint sgr hwidth] at hrow hkeeps
      refine ⟨⟨?_, hkeeps.reading h.reading, ?_, Repaint.Fits.cursorRow_lt hfits⟩, hcolumns⟩
      · rw [hkeeps.columns, hcolumns]
        exact h.columns
      · rw [h.top_repaint sgr hwidth]
        exact hrow
  | newline =>
      have hrun : v.terminal.run sgr v.screen.newline.1 = _ := Terminal.run_newline h.reading
      refine ⟨⟨?_, ?_, rfl, Nat.zero_lt_succ _⟩, rfl⟩
      · change (v.terminal.run sgr v.screen.newline.1).columns = _
        rw [hrun]
        exact h.columns
      · change (v.terminal.run sgr v.screen.newline.1).reading = _
        rw [hrun]
        exact h.reading
  | clear =>
      have hrun : v.terminal.run sgr v.screen.clear.1 = _ := Terminal.run_clear h.reading
      refine ⟨⟨?_, ?_, rfl, Nat.zero_lt_succ _⟩, rfl⟩
      · change (v.terminal.run sgr v.screen.clear.1).columns = _
        rw [hrun]
        exact h.columns
      · change (v.terminal.run sgr v.screen.clear.1).reading = _
        rw [hrun]
        exact h.reading

theorem Sound.run (h : v.Sound) (hwidth : v.screen.columns < 65536) {xs : List Showing}
    (hfits : ∀ x ∈ xs, x.Fits v.screen.columns) :
    (v.run sgr xs).Sound ∧ (v.run sgr xs).screen.columns = v.screen.columns := by
  induction xs generalizing v with
  | nil => exact ⟨h, rfl⟩
  | cons x xs ih =>
      obtain ⟨hstep, hcolumns⟩ := h.step sgr hwidth (hfits x (List.mem_cons_self ..))
      rw [← hcolumns] at hwidth hfits ⊢
      exact ih hstep hwidth fun y hy => hfits y (List.mem_cons_of_mem x hy)

/-- A repaint does not depend on what was at the first row or below it, and leaves what is above it. -/
theorem Sound.repaint (h : v.Sound) (hwidth : v.screen.columns < 65536) {r : Repaint}
    (hfits : r.Fits v.screen.columns) :
    let v' := v.step sgr (.repaint r)
    v'.terminal = (v.terminal.cleared v.top).run sgr (r.paint { v.screen with cursorRow := 0 }).1 ∧
      ∀ row < v.top, v'.terminal.cells row = v.terminal.cells row := by
  obtain ⟨-, hkeeps⟩ := h.ink sgr hwidth hfits
  have hterminal := h.terminal_repaint sgr hwidth r
  have hold : Terminal.Keeps v.top v.terminal (v.terminal.cleared v.top) := v.terminal.keeps_cleared v.top
  refine ⟨?_, ?_⟩
  · have hblank : ({ v with terminal := v.terminal.cleared v.top, screen := { v.screen with cursorRow := 0 } } :
        View P).Sound := ⟨h.columns, h.reading, rfl, Nat.zero_lt_succ _⟩
    have hfresh := hblank.terminal_repaint sgr hwidth r
    rw [r.ink_cursorRow, hold.cleared_eq h.reading rfl] at hfresh
    exact hterminal.trans hfresh.symm
  · intro row hrow
    rw [hterminal, hkeeps.above row hrow]
    exact hold.above row hrow

/-- The same repaint again leaves the terminal as it is, if the first one has given the pen back. -/
theorem Sound.repaint_twice (h : v.Sound) (hwidth : v.screen.columns < 65536) {r : Repaint}
    (hfits : r.Fits v.screen.columns) (hpen : (v.step sgr (.repaint r)).terminal.pen = v.terminal.pen) :
    ((v.step sgr (.repaint r)).step sgr (.repaint r)).terminal = (v.step sgr (.repaint r)).terminal := by
  obtain ⟨-, hkeeps⟩ := h.ink sgr hwidth hfits
  obtain ⟨hsound, hcolumns⟩ := h.step sgr (x := .repaint r) hwidth hfits
  have hfirst := h.terminal_repaint sgr hwidth r
  have hsecond := hsound.terminal_repaint sgr (hcolumns ▸ hwidth) r
  have hsame : (v.step sgr (.repaint r)).terminal.cleared v.top = v.terminal.cleared v.top := by
    refine Terminal.Keeps.cleared_eq ?_ h.reading hpen
    rw [hfirst]
    exact (v.terminal.keeps_cleared v.top).trans hkeeps
  have hink : r.ink (v.step sgr (.repaint r)).screen = r.ink v.screen := by
    change r.ink (r.paint v.screen).2 = _
    rw [r.paint_snd, r.ink_cursorRow]
  rw [hsecond, h.top_repaint sgr hwidth, hsame, hink, hfirst]

/-! ### Without colours -/

def bare (v : View P) : View Unit where
  terminal := v.terminal.bare
  screen := v.screen
  top := v.top

theorem bare_step {bareSgr : List Char → Unit → Unit} (v : View P) (x : Showing) :
    (v.step sgr x).bare = v.bare.step bareSgr x := by
  have hrun : ∀ commands, (v.terminal.run sgr commands).bare = v.terminal.bare.run bareSgr commands :=
    v.terminal.bare_run
  have hrow : ∀ commands, (v.terminal.run sgr commands).row = (v.terminal.bare.run bareSgr commands).row :=
    fun commands => congrArg Terminal.row (hrun commands)
  unfold bare step
  dsimp only
  rw [hrun]
  cases x <;> simp only [hrow]

/-- Whatever becomes of the pen, the same repaint again shows the same. -/
theorem Sound.bare_repaint_twice (h : v.Sound) (hwidth : v.screen.columns < 65536) {r : Repaint}
    (hfits : r.Fits v.screen.columns) :
    ((v.step sgr (.repaint r)).step sgr (.repaint r)).terminal.bare = (v.step sgr (.repaint r)).terminal.bare := by
  have hbare : v.bare.Sound := ⟨h.columns, h.reading, h.row, h.cursorRow⟩
  have htwice := hbare.repaint_twice (fun _ pen => pen) hwidth hfits rfl
  rw [← bare_step sgr, ← bare_step sgr] at htwice
  exact htwice

/-! ### Every run -/

/-- A repaint takes the place of what is shown. -/
structure Replaces (sgr : List Char → P → P) (v : View P) (r : Repaint) : Prop where
  /-- It begins on the same row. -/
  top : (v.step sgr (.repaint r)).top = v.top
  /-- A line leaves the cursor as far from its beginning as the width of what is before the cursor says. -/
  cursor : ∀ f, r = .line f →
    let width := displayWidth (f.prompt ++ f.beforeCursor)
    (v.step sgr (.repaint r)).terminal.Rests (v.top + width / v.screen.columns) (width % v.screen.columns)
  /-- It is what a screen that has shown nothing paints where nothing is left from the first row on. -/
  anew : (v.step sgr (.repaint r)).terminal =
    (v.terminal.cleared v.top).run sgr (r.paint { v.screen with cursorRow := 0 }).1
  above : ∀ row < v.top, (v.step sgr (.repaint r)).terminal.cells row = v.terminal.cells row
  /-- The same again shows the same, in the same colours if the first time gave the pen back. -/
  twice :
    let once := (v.step sgr (.repaint r)).terminal
    let again := ((v.step sgr (.repaint r)).step sgr (.repaint r)).terminal
    again.bare = once.bare ∧ (once.pen = v.terminal.pen → again = once)

theorem Sound.replaces (h : v.Sound) (hwidth : v.screen.columns < 65536) {r : Repaint}
    (hfits : r.Fits v.screen.columns) : v.Replaces sgr r where
  top := h.top_repaint sgr hwidth r
  cursor f hf := by
    subst hf
    have hstands : (v.terminal.cleared v.top).Stands v.top 0 := ⟨rfl, rfl, rfl⟩
    obtain ⟨hrests, -⟩ := Terminal.ink_line sgr hstands h.reading h.columns hwidth hfits
    rw [← h.terminal_repaint sgr hwidth, Frame.Fits.target_eq hfits] at hrests
    exact hrests
  anew := (h.repaint sgr hwidth hfits).1
  above := (h.repaint sgr hwidth hfits).2
  twice := ⟨h.bare_repaint_twice sgr hwidth hfits, h.repaint_twice sgr hwidth hfits⟩

/-- Whatever has been shown so far, the screen knows how far the cursor is below the first row, and every repaint takes
the place of what is shown. -/
theorem run_replaces (sgr : List Char → P → P) {t : Terminal P} {s : Screen} (hfresh : s.cursorRow = 0)
    (hreading : t.reading = .plain) (hcolumns : t.columns = s.columns) (hwidth : s.columns < 65536)
    {xs : List Showing} (hfits : ∀ x ∈ xs, x.Fits s.columns) :
    let v := View.run sgr { terminal := t, screen := s, top := t.row } xs
    v.terminal.row = v.top + v.screen.cursorRow ∧ ∀ r : Repaint, r.Fits s.columns → v.Replaces sgr r := by
  intro v
  have hstart : ({ terminal := t, screen := s, top := t.row } : View P).Sound :=
    ⟨hcolumns, hreading, by rw [hfresh]; rfl, by rw [hfresh]; exact Nat.zero_lt_succ _⟩
  obtain ⟨hsound, hsame⟩ := hstart.run sgr hwidth hfits
  refine ⟨hsound.row, ?_⟩
  intro r hr
  rw [← hsame] at hwidth hr
  exact hsound.replaces sgr hwidth hr

/-- A line that fills its row to the last column, a new row, and a search. -/
theorem run_replaces_full_row :
    let sgr := fun (code : List Char) (_ : List Char) => code
    let t : Terminal (List Char) := { columns := 5, row := 3, pen := [] }
    let s := Screen.ofColumns 5 .darkGrey .reset
    let line : Frame :=
      { prompt := "> ", line := Text.Style.paint .red "abc", beforeCursor := "a", suffix := some ⟨"de", .completion⟩ }
    let xs := [.repaint (.line line), .newline, .repaint (.search (some "ab") "b")]
    s.cursorRow = 0 ∧ t.reading = .plain ∧ t.columns = s.columns ∧ s.columns < 65536 ∧
      (∀ x ∈ xs, Showing.Fits s.columns x) ∧
      let v := View.run sgr { terminal := t, screen := s, top := t.row } xs
      v.terminal.row = v.top + v.screen.cursorRow ∧ ∀ r : Repaint, r.Fits s.columns → v.Replaces sgr r := by
  intro sgr t s line xs
  have hpainted : Styled line.line.toList "abc".toList := (Styled.plain (show Plain "abc" by decide)).paint .red
  have hline : line.Fits 5 := by
    refine ⟨by decide, ⟨_, hpainted, by decide⟩, ?_, ?_⟩
    · rintro _ ⟨⟩
      decide
    · have hprompt : displayWidth line.prompt = 2 := (Plain.displayWidth_eq (by decide)).trans (by decide)
      have hwidth : displayWidth line.line = 3 := hpainted.displayWidth_eq.trans (by decide)
      have hghost : displayWidth "de" = 2 := (Plain.displayWidth_eq (by decide)).trans (by decide)
      change (displayWidth line.prompt + displayWidth line.line + displayWidth "de") / 5 + 1 < 65536
      rw [hprompt, hwidth, hghost]
      decide
  have hsearch : (Repaint.search (some "ab") "b").Fits 5 := by
    refine ⟨?_, by decide, ?_⟩
    · rintro _ ⟨⟩
      exact ⟨_, Styled.plain (show Plain "ab" by decide)⟩
    · have hfound : displayWidth "ab" = 2 := (Plain.displayWidth_eq (by decide)).trans (by decide)
      have hlabel : displayWidth (Screen.searchLabel ++ "b") = 21 :=
        (Plain.displayWidth_eq (by decide)).trans (by decide)
      change displayWidth "ab" / 5 + displayWidth (Screen.searchLabel ++ "b") / 5 + 2 < 65536
      rw [hfound, hlabel]
      decide
  have hfits : ∀ x ∈ xs, x.Fits s.columns := by
    intro x hx
    rcases List.mem_cons.mp hx with rfl | hx
    · exact hline
    · rcases List.mem_cons.mp hx with rfl | hx
      · trivial
      · rw [List.mem_singleton.mp hx]
        exact hsearch
  exact ⟨rfl, rfl, rfl, by decide, hfits, run_replaces sgr rfl rfl rfl (by decide) hfits⟩

end View

end ScriptRepl.Console
