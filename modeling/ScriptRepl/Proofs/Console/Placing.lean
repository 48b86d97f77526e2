import ScriptRepl.Proofs.Console.Repaint
import ScriptRepl.Proofs.Console.WideCharacters

/-! Where the screen places the cursor when some characters are wide. The screen divides the width of the text by the
columns of a row. The terminal leaves a column free where a wide character does not fit, so that the two agree where the
free columns before the cursor are whole rows, and as many as the line takes beyond its width. -/
namespace ScriptRepl.Console

open Text (Coded IsPrinted Printed displayWidth columnsOf visible)

namespace Frame

/-- A frame of characters that take at most two columns, and not too high for counts of 16 bits. -/
structure FitsWide (columns : Nat) (f : Frame) : Prop where
  prompt : Printed f.prompt
  line : ∃ text, Coded IsPrinted f.line.toList text ∧ f.beforeCursor.toList <+: text
  suffix : ∀ s, f.suffix = some s → Printed s.text
  rows : f.rows columns < 65536

def upToCursor (f : Frame) : List Char :=
  f.prompt.toList ++ f.beforeCursor.toList

/-- What a suffix adds to the line. A preview has a row of its own. -/
def added : Option Suffix → List Char
  | none | some ⟨_, .preview⟩ => []
  | some ⟨text, _⟩ => text.toList

@[simp] theorem added_none : added none = [] := rfl

@[simp] theorem added_preview (text : String) : added (some ⟨text, .preview⟩) = [] := rfl

theorem added_of_ne {kind : SuffixKind} (h : kind ≠ .preview) (text : String) :
    added (some ⟨text, kind⟩) = text.toList := by
  cases kind with
  | preview => exact absurd rfl h
  | _ => rfl

def whole (f : Frame) : List Char :=
  f.prompt.toList ++ visible f.line.toList ++ added f.suffix

/-- The rows that the line takes beyond those that its width says. -/
def gained (columns : Nat) (f : Frame) : Nat :=
  (layOut columns 0 f.whole - 1) / columns - (columnsOf f.whole - 1) / columns

/-- A line that is laid out takes no fewer rows than its width says. -/
theorem gained_add (columns : Nat) (f : Frame) :
    f.gained columns + (columnsOf f.whole - 1) / columns = (layOut columns 0 f.whole - 1) / columns := by
  have hle := le_layOut columns 0 f.whole
  have hrows : (columnsOf f.whole - 1) / columns ≤ (layOut columns 0 f.whole - 1) / columns :=
    Nat.div_le_div_right (by omega)
  unfold gained
  omega

end Frame

namespace Frame.FitsWide

variable {columns : Nat} {f : Frame}

theorem coded_line (h : f.FitsWide columns) : Coded IsPrinted f.line.toList (visible f.line.toList) := by
  obtain ⟨text, hline, -⟩ := h.line
  rwa [hline.visible_eq fun _ hc => hc.ne_escape]

theorem exists_whole (h : f.FitsWide columns) : ∃ more, f.whole = f.upToCursor ++ more := by
  obtain ⟨text, hline, more, rfl⟩ := h.line
  refine ⟨more ++ Frame.added f.suffix, ?_⟩
  rw [Frame.whole, Frame.upToCursor, hline.visible_eq fun _ hc => hc.ne_escape]
  simp

theorem printed_beforeCursor (h : f.FitsWide columns) : Printed f.beforeCursor := by
  obtain ⟨text, hline, more, rfl⟩ := h.line
  exact fun c hc => hline.forall_mem c (List.mem_append_left more hc)

theorem target_eq (h : f.FitsWide columns) : f.target = columnsOf f.upToCursor := by
  rw [Frame.target, h.prompt.displayWidth_eq, h.printed_beforeCursor.displayWidth_eq, Frame.upToCursor,
    Text.columnsOf_append]

theorem displayWidth_le (h : f.FitsWide columns) : displayWidth f.beforeCursor ≤ displayWidth f.line := by
  have hbefore := h.printed_beforeCursor.displayWidth_eq
  obtain ⟨text, hline, more, rfl⟩ := h.line
  rw [hline.displayWidth_eq, hbefore, Text.columnsOf_append]
  exact Nat.le_add_right ..

end Frame.FitsWide

namespace Terminal

variable {P : Type} (sgr : List Char → P → P) {t : Terminal P} {s : Screen} {top n : Nat}

theorem Stands.row_eq (h : t.Stands top n) : t.row = top + (n - 1) / t.columns := by
  cases n with
  | zero => simpa using h.1
  | succ n => exact h.1

/-- The screen and the terminal add a row for the same reason. -/
theorem run_settle (s : Screen) (top : Nat) (hreading : t.reading = .plain) (width : Nat) :
    (t.run sgr (s.settle width)).row + (width - 1) / s.columns = t.row + width / s.columns ∧
      Keeps top t (t.run sgr (s.settle width)) := by
  unfold Screen.settle
  cases width with
  | zero => exact ⟨by simp, .refl _ _⟩
  | succ n =>
      rcases succ_div_mod n s.columns_pos with ⟨-, hdiv, hmod⟩ | ⟨-, hdiv, hmod⟩
      · rw [if_pos (by simp [hmod]), run_newline hreading, hdiv]
        exact ⟨by simp only [Nat.add_sub_cancel]; omega, ⟨rfl, id, fun _ _ => rfl⟩⟩
      · rw [if_neg (by simp [hmod]), hdiv]
        exact ⟨rfl, .refl _ _⟩

theorem narrow_settle (width : Nat) : ∀ command ∈ s.settle width, command.Narrow := by
  intro command hcommand
  unfold Screen.settle at hcommand
  split at hcommand
  · rw [List.mem_singleton.mp hcommand]
    exact Command.narrow_newline
  · cases hcommand

theorem Stands.printWide {line : String} {text : List Char} (h : t.Stands top n) (hcolumns : 2 ≤ t.columns)
    (hreading : t.reading = .plain) (hline : Coded IsPrinted line.toList text) :
    (t.runWide sgr [.print line]).Stands top (layOut t.columns n text) ∧ Keeps top t (t.runWide sgr [.print line]) :=
  h.writeWide hcolumns hreading hline

/-- What is behind the line ends as many rows too low as the line has gained. -/
theorem Stands.behindWide (hwide : 2 ≤ s.columns) (hcolumns : t.columns = s.columns) (hreading : t.reading = .plain)
    {text : List Char} (h : t.Stands top (layOut s.columns 0 text)) {suffix : Option Suffix}
    (hsuffix : ∀ x, suffix = some x → Printed x.text) :
    let t' := t.runWide sgr (s.behind (columnsOf text) suffix).1
    let line := text ++ Frame.added suffix
    t'.row + (columnsOf line - 1) / s.columns =
        top + (s.behind (columnsOf text) suffix).2 + (layOut s.columns 0 line - 1) / s.columns ∧
      Keeps top t t' := by
  have hrow : t.row = top + (layOut s.columns 0 text - 1) / s.columns := hcolumns ▸ h.row_eq
  dsimp only
  unfold Screen.behind
  split
  · obtain ⟨hsettled, kept⟩ := run_settle sgr s top hreading (columnsOf text)
    rw [runWide_eq_run (narrow_settle _), Frame.added_none, List.append_nil]
    exact ⟨by omega, kept⟩
  · -- A preview is narrower than a row, so that it ends on the row that it begins on.
    rename_i preview
    have hprinted : Printed preview := hsuffix _ rfl
    have hnarrow := Text.columnsOf_truncate_le hprinted.displayWidth_eq (s.columns - 1)
    have hink := (Coded.plain (hprinted.truncate (s.columns - 1))).paint s.ghost
    obtain ⟨hsettled, kept⟩ := run_settle sgr s top hreading (columnsOf text)
    have htop : top ≤ (t.run sgr (s.settle (columnsOf text))).row := by
      have hle : (columnsOf text - 1) / s.columns ≤ columnsOf text / s.columns := Nat.div_le_div_right (Nat.sub_le ..)
      have hbegan := h.top_le
      omega
    rw [Frame.added_preview, List.append_nil]
    dsimp only
    generalize Text.Style.paint s.ghost _ = ink at hink ⊢
    have hnewline : ∀ command ∈ [Command.newline], command.Narrow := by simpa using Command.narrow_newline
    rw [runWide_append, runWide_eq_run (narrow_settle _),
      show [Command.newline, .print ink] = [.newline] ++ [.print ink] from rfl, runWide_append, runWide_eq_run hnewline]
    generalize t.run sgr (s.settle (columnsOf text)) = u at hsettled kept htop ⊢
    obtain ⟨hbelow, kept1⟩ := rests_newline sgr top (kept.reading hreading)
    replace kept := kept.trans kept1
    generalize u.run sgr [.newline] = v at hbelow kept ⊢
    have hv : v.columns = s.columns := kept.columns.trans hcolumns
    obtain ⟨hstands, kept2⟩ := hbelow.stands.printWide sgr (hv ▸ hwide) (kept.reading hreading) hink
    rw [hv, layOut_of_lt s.columns (by omega)] at hstands
    have hends := hstands.row_of_lt (by rw [kept2.columns, hv]; omega)
    exact ⟨by omega, kept.trans (kept2.mono (Nat.le_succ_of_le htop))⟩
  · rename_i ghost kind hkind
    have hprinted : Printed ghost := hsuffix _ rfl
    obtain ⟨hstands, kept⟩ := h.printWide sgr (hcolumns ▸ hwide) hreading
      ((Coded.plain hprinted).paint s.ghost)
    rw [hcolumns, ← layOut_append] at hstands
    rw [Frame.added_of_ne hkind, hprinted.displayWidth_eq, ← Text.columnsOf_append]
    dsimp only
    rw [show Command.print _ :: s.settle _ = [.print _] ++ s.settle _ from rfl, runWide_append,
      runWide_eq_run (narrow_settle _)]
    generalize t.runWide sgr [.print _] = u at hstands kept ⊢
    obtain ⟨hsettled, kept1⟩ := run_settle sgr s top (kept.reading hreading)
      (columnsOf (text ++ ghost.toList))
    have hrow' : u.row = top + (layOut s.columns 0 (text ++ ghost.toList) - 1) / s.columns :=
      (kept.columns.trans hcolumns) ▸ hstands.row_eq
    exact ⟨by omega, kept.trans kept1⟩

/-- The place that the widths say and the place that the text takes the cursor to. -/
theorem div_mod_eq_iff {columns width spare gained : Nat} (hcolumns : 0 < columns) :
    (gained + width / columns = (width + spare) / columns ∧ width % columns = (width + spare) % columns) ↔
      spare = columns * gained := by
  constructor
  · rintro ⟨hdiv, hmod⟩
    have hwidth := Nat.div_add_mod width columns
    have hboth := Nat.div_add_mod (width + spare) columns
    rw [← hdiv, ← hmod, Nat.mul_add] at hboth
    omega
  · rintro rfl
    rw [Nat.add_mul_div_left _ _ hcolumns, Nat.add_mul_mod_self_left]
    exact ⟨Nat.add_comm .., rfl⟩

theorem narrow_return (row lastRow col : Nat) :
    ∀ command ∈ (if row < lastRow then [Command.up (lastRow - row)] else []) ++ [.column col, .showCursor],
      command.Narrow := by
  intro command hcommand
  refine Command.narrow ?_
  rintro text rfl
  simp at hcommand

theorem narrow_begin : ∀ command ∈ s.begin, command.Narrow := by
  intro command hcommand
  refine Command.narrow ?_
  rintro text rfl
  simp [Screen.begin] at hcommand

theorem runWide_render (hwide : 2 ≤ s.columns) (hwidth : s.columns < 65536) (hcolumns : t.columns = s.columns)
    (hreading : t.reading = .plain) (hrow : t.row = top + s.cursorRow) (hcursor : s.cursorRow < 65536) {f : Frame}
    (hf : f.FitsWide s.columns) :
    let t' := t.runWide sgr (s.render f).1
    t'.Rests (top + f.gained s.columns + f.target / s.columns) (f.target % s.columns) ∧ Keeps top t t' := by
  rw [show (s.render f).1 = s.begin ++ (Repaint.line f).ink s from Repaint.paint_fst s (.line f), runWide_append,
    runWide_eq_run narrow_begin, run_begin sgr hcolumns hwidth hreading hrow hcursor]
  have kept := keeps_cleared t top
  have hbegun : (t.cleared top).Stands top 0 := ⟨rfl, rfl, rfl⟩
  generalize t.cleared top = t0 at hbegun kept ⊢
  rw [Repaint.ink_line_eq, runWide_append, runWide_append, runWide_append]
  obtain ⟨hprompt, kept1⟩ := hbegun.printWide sgr (kept.columns.trans hcolumns ▸ hwide)
    (kept.reading hreading) (Coded.plain hf.prompt)
  rw [kept.columns.trans hcolumns] at hprompt
  replace kept := kept.trans kept1
  generalize t0.runWide sgr [.print f.prompt] = t1 at hprompt kept ⊢
  obtain ⟨hline, kept2⟩ := hprompt.printWide sgr (kept.columns.trans hcolumns ▸ hwide)
    (kept.reading hreading) hf.coded_line
  rw [kept.columns.trans hcolumns, ← layOut_append] at hline
  replace kept := kept.trans kept2
  generalize t1.runWide sgr [.print f.line] = t2 at hline kept ⊢
  obtain ⟨hlast, kept3⟩ := hline.behindWide sgr hwide (kept.columns.trans hcolumns) (kept.reading hreading)
    hf.suffix
  rw [Text.columnsOf_append, ← hf.prompt.displayWidth_eq,
    show columnsOf (visible f.line.toList) = displayWidth f.line from rfl] at hlast kept3
  replace kept := kept.trans kept3
  generalize t2.runWide sgr (s.behind _ _).1 = t3 at hlast kept ⊢
  have hgained := Frame.gained_add s.columns f
  have hlow : t3.row =
      top + f.gained s.columns + (s.behind (displayWidth f.prompt + displayWidth f.line) f.suffix).2 := by
    change t3.row + (columnsOf f.whole - 1) / s.columns = _ + (layOut s.columns 0 f.whole - 1) / s.columns at hlast
    omega
  have hrows : (s.behind (displayWidth f.prompt + displayWidth f.line) f.suffix).2 < 65536 := by
    have hfits := hf.rows
    rw [f.rows_eq s] at hfits
    omega
  have hcol : f.target % s.columns < t3.columns := by
    rw [kept.columns, hcolumns]
    exact Nat.mod_lt _ s.columns_pos
  obtain ⟨hrests, kept4⟩ := run_return sgr (Frame.target_row_le hf.displayWidth_le s) hrows hcol
    (by rw [kept.columns, hcolumns]; exact hwidth) (kept.reading hreading) hlow
  rw [runWide_eq_run (narrow_return _ _ _)]
  exact ⟨hrests, kept.trans (kept4.mono (Nat.le_add_right ..))⟩

/-- Where the text itself takes the terminal, when a full row is left. -/
theorem writeWide_own (top : Nat) (hwide : 2 ≤ s.columns) (hcolumns : t.columns = s.columns) (hreading : t.reading = .plain)
    {f : Frame} (hf : f.FitsWide s.columns) :
    let width := f.target + spare s.columns f.upToCursor
    ((t.cleared top).writeWide sgr f.upToCursor).wrap.Rests (top + width / s.columns) (width % s.columns) := by
  have hbegun : (t.cleared top).Stands top 0 := ⟨rfl, rfl, rfl⟩
  have htext : Coded IsPrinted f.upToCursor f.upToCursor :=
    (Coded.plain hf.prompt).append (Coded.plain hf.printed_beforeCursor)
  obtain ⟨hstands, kept⟩ :
      ((t.cleared top).writeWide sgr f.upToCursor).Stands top (layOut (t.cleared top).columns 0 f.upToCursor) ∧
        Keeps top (t.cleared top) ((t.cleared top).writeWide sgr f.upToCursor) :=
    hbegun.writeWide (hcolumns ▸ hwide) hreading htext
  have hwidth : layOut s.columns 0 f.upToCursor = f.target + spare s.columns f.upToCursor :=
    hf.target_eq ▸ layOut_eq s.columns f.upToCursor
  have hcolumns' : (t.cleared top).columns = s.columns := hcolumns
  rw [hcolumns', hwidth] at hstands
  have hpos := s.columns_pos
  rw [hstands.wrap (by rw [kept.columns, hcolumns']; exact hpos), kept.columns, hcolumns']
  exact ⟨rfl, rfl, rfl⟩

/-- A repaint places the cursor by the width of what is before it, but as many rows lower as the line has gained, so that
the next one begins on a row that is as much too low. That is where the text itself takes the terminal just when the
columns that it leaves free are as many as those rows have, and so wherever the line leaves none free. -/
theorem render_places (hwide : 2 ≤ s.columns) (hwidth : s.columns < 65536) (hcolumns : t.columns = s.columns)
    (hreading : t.reading = .plain) (hrow : t.row = top + s.cursorRow) (hcursor : s.cursorRow < 65536) {f : Frame}
    (hf : f.FitsWide s.columns) :
    let t' := t.runWide sgr (s.render f).1
    let own := ((t.cleared top).writeWide sgr f.upToCursor).wrap
    let free := spare s.columns f.upToCursor
    let gained := f.gained s.columns
    t'.Rests (top + gained + f.target / s.columns) (f.target % s.columns) ∧
      t'.row = top + gained + (s.render f).2.cursorRow ∧
      own.Rests (top + (f.target + free) / s.columns) ((f.target + free) % s.columns) ∧
      (t'.row = own.row ∧ t'.col = own.col ↔ free = s.columns * gained) ∧
      (layOut s.columns 0 f.whole = columnsOf f.whole → t'.row = own.row ∧ t'.col = own.col) ∧
      Keeps top t t' := by
  intro t' own free gained
  obtain ⟨hplaced, kept⟩ := runWide_render sgr hwide hwidth hcolumns hreading hrow hcursor hf
  have hown := writeWide_own sgr top hwide hcolumns hreading hf
  have hiff : t'.row = own.row ∧ t'.col = own.col ↔ free = s.columns * gained := by
    rw [hplaced.row, hplaced.col, hown.row, hown.col, Nat.add_assoc, Nat.add_left_cancel_iff]
    exact div_mod_eq_iff s.columns_pos
  refine ⟨hplaced, hplaced.row, hown, hiff, fun hclosed => hiff.mpr ?_, kept⟩
  obtain ⟨more, hwhole⟩ := hf.exists_whole
  have hfree : free ≤ spare s.columns f.whole := hwhole ▸ spare_le_append s.columns f.upToCursor more
  have hnone : spare s.columns f.whole = 0 := by rw [spare, hclosed, Nat.sub_self]
  have hgained : gained = 0 := by
    change Frame.gained s.columns f = 0
    rw [Frame.gained, hclosed, Nat.sub_self]
  rw [hgained, Nat.mul_zero]
  omega

/-- The cursor is before the column that is left free. -/
theorem render_places_before_gap :
    let t : Terminal Unit := { columns := 5, pen := () }
    let s : Screen := { columns := 5, columns_pos := by decide }
    let f : Frame := { prompt := "> ", line := "ああ", beforeCursor := "あ", suffix := none }
    let t' := t.runWide (fun _ pen => pen) (s.render f).1
    let own := ((t.cleared 0).writeWide (fun _ pen => pen) f.upToCursor).wrap
    f.FitsWide s.columns ∧ (layOut s.columns 0 f.whole, columnsOf f.whole) = (7, 6) ∧
      t'.Rests 0 4 ∧ own.Rests 0 4 ∧ t'.row = own.row ∧ t'.col = own.col := by
  intro t s f t' own
  have hf : f.FitsWide s.columns :=
    ⟨by decide +kernel, ⟨_, .plain (show Printed "ああ" by decide +kernel), by decide⟩, nofun, by decide +kernel⟩
  have htarget : f.target = 4 := by decide +kernel
  have hfree : spare s.columns f.upToCursor = 0 := by decide +kernel
  have hgained : f.gained s.columns = 0 := by decide +kernel
  obtain ⟨hplaced, -, hown, hiff, -, -⟩ :=
    render_places (fun _ pen => pen) (t := t) (by decide) (by decide) rfl rfl rfl (by decide) hf
  have hcolumns : s.columns = 5 := rfl
  rw [htarget, hgained, hcolumns] at hplaced
  rw [htarget, hfree, hcolumns] at hown
  rw [hfree, hgained] at hiff
  exact ⟨hf, by decide +kernel, hplaced, hown, hiff.mpr rfl⟩

/-- A wide character that goes to the next row takes the cursor two columns on from there. The screen places the cursor
one column on, in the middle of the character. -/
theorem render_misplaces :
    let t : Terminal Unit := { columns := 3, pen := () }
    let s : Screen := { columns := 3, columns_pos := by decide }
    let f : Frame := { prompt := "> ", line := "あ", beforeCursor := "あ", suffix := none }
    let t' := t.runWide (fun _ pen => pen) (s.render f).1
    let own := ((t.cleared 0).writeWide (fun _ pen => pen) f.upToCursor).wrap
    f.FitsWide s.columns ∧ (t'.row, t'.col) = (1, 1) ∧ (own.row, own.col) = (1, 2) := by
  intro t s f t' own
  have hf : f.FitsWide s.columns :=
    ⟨by decide +kernel, ⟨_, .plain (show Printed "あ" by decide +kernel), by decide⟩, nofun, by decide +kernel⟩
  exact ⟨hf, by decide +kernel, by decide +kernel⟩

end Terminal

end ScriptRepl.Console
