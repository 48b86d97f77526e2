import ScriptRepl.Console.Engine
import ScriptRepl.Proofs.Console.Drawing

/-! What a listing of candidates does to the line that it belongs to. It is written from the row of the cursor on: what
is drawn down to this row stays, and the listing stands below it, before the line is painted anew. So it stands below
the whole line if the cursor is in the last row of the line, and only then. -/
namespace ScriptRepl.Console

open Text (Plain Styled Unescaped displayWidth columnsOf)

/-! ### The text of a listing -/

namespace Listing

variable {entries : List String}

theorem unescaped_padding (n : Nat) : Unescaped ("".pushn ' ' n).toList := by
  rw [toList_padding]
  intro c hc
  rw [List.eq_of_mem_replicate hc]
  decide

theorem unescaped_row (columnWidth : Nat) (h : ∀ s ∈ entries, Unescaped s.toList) :
    Unescaped (row columnWidth entries).toList := by
  induction entries with
  | nil => exact nofun
  | cons entry rest ih =>
      obtain ⟨hentry, hrest⟩ := List.forall_mem_cons.mp h
      cases rest with
      | nil => exact hentry
      | cons next rest =>
          have hrow : row columnWidth (entry :: next :: rest) =
              entry ++ "".pushn ' ' (columnWidth - displayWidth entry) ++ row columnWidth (next :: rest) := rfl
          rw [hrow, String.toList_append, String.toList_append, Text.unescaped_append, Text.unescaped_append]
          exact ⟨⟨hentry, unescaped_padding _⟩, ih hrest⟩

theorem exists_row (columnWidth : Nat) (entry : String) (rest : List String) :
    ∃ more, row columnWidth (entry :: rest) = entry ++ more := by
  cases rest with
  | nil => exact ⟨"", (String.append_empty).symm⟩
  | cons next rest => exact ⟨_, String.append_assoc ..⟩

theorem unescaped_intercalate (separator : String) (hseparator : Unescaped separator.toList)
    (h : ∀ s ∈ entries, Unescaped s.toList) : Unescaped (separator.intercalate entries).toList := by
  induction entries with
  | nil => exact nofun
  | cons entry rest ih =>
      obtain ⟨hentry, hrest⟩ := List.forall_mem_cons.mp h
      cases rest with
      | nil => exact hentry
      | cons next rest =>
          rw [String.intercalate_cons_cons, String.toList_append, String.toList_append, Text.unescaped_append,
            Text.unescaped_append]
          exact ⟨⟨hentry, hseparator⟩, ih hrest⟩

/-- A table stands between an end of line and two, and begins with its first entry. -/
theorem exists_format {entry : String} {rest : List String} (terminal : Nat)
    (h : ∀ s ∈ entry :: rest, Unescaped s.toList) :
    ∃ body, (format (entry :: rest) terminal).toList = '\r' :: '\n' :: (body ++ ['\r', '\n', '\r', '\n']) ∧
      Unescaped body ∧ entry.toList <+: body := by
  have hrows : ∀ n, ∀ s ∈ (chunks n (entry :: rest)).map (row (ofEntries (entry :: rest) terminal).columnWidth),
      Unescaped s.toList := by
    intro n s hs
    obtain ⟨chunk, hchunk, rfl⟩ := List.mem_map.mp hs
    refine unescaped_row _ fun s hs => h s ?_
    rw [← chunks_flatten n (entry :: rest)]
    exact List.mem_flatten_of_mem hchunk hs
  have hrows := hrows ((ofEntries (entry :: rest) terminal).columns - 1)
  have hbody := unescaped_intercalate newline (by decide) hrows
  refine ⟨_, ?_, hbody, ?_⟩
  · simp [format, newline]
  · rw [chunks, List.map_cons]
    obtain ⟨more, hmore⟩ := exists_row (ofEntries (entry :: rest) terminal).columnWidth entry
      (rest.take ((ofEntries (entry :: rest) terminal).columns - 1))
    rw [hmore]
    cases List.map (row (ofEntries (entry :: rest) terminal).columnWidth)
        (chunks ((ofEntries (entry :: rest) terminal).columns - 1)
          (rest.drop ((ofEntries (entry :: rest) terminal).columns - 1))) with
    | nil => simp
    | cons => simp [String.intercalate_cons_cons]

end Listing

namespace Screen

theorem rawLines_append (last : Char) (cs ds : List Char) :
    rawLines last (cs ++ ds) = rawLines last cs ++ rawLines (cs.getLastD last) ds := by
  induction cs generalizing last with
  | nil => rfl
  | cons c cs ih =>
      rw [List.cons_append, rawLines, rawLines, ih, List.append_assoc]
      cases cs <;> rfl

theorem rawLines_of_not_mem {cs : List Char} (h : '\n' ∉ cs) (last : Char) : rawLines last cs = cs := by
  induction cs generalizing last with
  | nil => rfl
  | cons c cs ih =>
      rw [List.mem_cons, not_or] at h
      rw [rawLines, ih h.2, if_neg (by simp [Ne.symm h.1])]
      rfl

theorem unescaped_rawLines {cs : List Char} (h : Unescaped cs) (last : Char) : Unescaped (rawLines last cs) := by
  induction cs generalizing last with
  | nil => exact nofun
  | cons c cs ih =>
      obtain ⟨hc, hcs⟩ := List.forall_mem_cons.mp h
      rw [rawLines, Text.unescaped_append]
      refine ⟨?_, ih hcs c⟩
      split
      · decide
      · exact List.forall_mem_singleton.mpr hc

/-- What is written for a table. -/
theorem exists_rawLines_format {entry : String} {rest : List String} (terminal : Nat)
    (h : ∀ s ∈ entry :: rest, Unescaped s.toList) :
    ∃ body, rawLines '\x00' (Listing.format (entry :: rest) terminal).toList =
        ['\r', '\n'] ++ (body ++ (['\r', '\n'] ++ ['\r', '\n'])) ∧
      Unescaped body ∧ ('\n' ∉ entry.toList → entry.toList <+: body) := by
  obtain ⟨body, hformat, hbody, more, rfl⟩ := Listing.exists_format terminal h
  refine ⟨rawLines '\n' (entry.toList ++ more), ?_, unescaped_rawLines hbody _, fun hentry => ?_⟩
  · have hraw : rawLines '\x00' ('\r' :: '\n' :: (entry.toList ++ more ++ ['\r', '\n', '\r', '\n'])) =
        '\r' :: '\n' :: rawLines '\n' (entry.toList ++ more ++ ['\r', '\n', '\r', '\n']) := rfl
    rw [hformat, hraw, rawLines_append]
    rfl
  · rw [rawLines_append, rawLines_of_not_mem hentry]
    exact List.prefix_append _ _

end Screen

/-! ### The table on the terminal -/

namespace Terminal

variable {P : Type} {sgr : List Char → P → P} {t : Terminal P}

variable (sgr) in
/-- The cursor goes where it goes whatever is drawn. -/
theorem receive_cells {c : Char} (hc : c ≠ '\x1b') (hreading : t.reading = .plain)
    (cells : Nat → Nat → Option (Cell P)) :
    ∃ cells', ({ t with cells } : Terminal P).receive sgr c = { t.receive sgr c with cells := cells' } := by
  obtain ⟨columns, row, col, wraps, hidden, pen, drawn, reading⟩ := t
  cases hreading
  have hput : ∃ cells', ({ columns, row, col, wraps, hidden, pen, cells } : Terminal P).put c =
      { ({ columns, row, col, wraps, hidden, pen, cells := drawn } : Terminal P).put c with cells := cells' } := by
    cases wraps <;> exact ⟨_, rfl⟩
  have hjoin : ∃ cells', ({ columns, row, col, wraps, hidden, pen, cells } : Terminal P).join c =
      { ({ columns, row, col, wraps, hidden, pen, cells := drawn } : Terminal P).join c with cells := cells' } := by
    cases wraps with
    | true => exact ⟨_, rfl⟩
    | false =>
        cases col <;> exact ⟨_, rfl⟩
  unfold receive
  dsimp only
  rw [if_neg hc, if_neg hc]
  split
  · exact ⟨_, rfl⟩
  · split
    · exact ⟨_, rfl⟩
    · split
      · exact ⟨_, rfl⟩
      · split
        · exact hjoin
        · exact hput

variable (sgr) in
theorem write_cells {cs : List Char} (hcs : Unescaped cs) (hreading : t.reading = .plain)
    (cells : Nat → Nat → Option (Cell P)) :
    ∃ cells', ({ t with cells } : Terminal P).write sgr cs = { t.write sgr cs with cells := cells' } := by
  induction cs generalizing t cells with
  | nil => exact ⟨cells, rfl⟩
  | cons c cs ih =>
      obtain ⟨hc, hcs⟩ := List.forall_mem_cons.mp hcs
      obtain ⟨cells', hfirst⟩ := receive_cells sgr hc hreading cells
      rw [write_cons, write_cons, hfirst]
      exact ih hcs ((Draws.receive hc hreading).reading hreading) cells'

/-- What showed something from row `top` on shows the same character. -/
def Spares (before : Terminal P) (top : Nat) (after : Terminal P) : Prop :=
  ∀ r c, top ≤ r → before.Shows r c → (after.cells r c).map Cell.char = (before.cells r c).map Cell.char

/-- The places where a text draws: where it leaves something on a terminal that shows nothing. -/
def Marks (sgr : List Char → P → P) (t : Terminal P) (cs : List Char) (row col : Nat) : Prop :=
  (({ t with cells := fun _ _ => none } : Terminal P).write sgr cs).Shows row col

variable (sgr) in
/-- A text between an end of line and two leaves the row of the cursor and the last one as they are. -/
theorem write_between {body : List Char} (hbody : Unescaped body) (hreading : t.reading = .plain) :
    let t' := t.write sgr (['\r', '\n'] ++ (body ++ (['\r', '\n'] ++ ['\r', '\n'])))
    t.row < t'.row ∧ t'.columns = t.columns ∧ t'.reading = .plain ∧
      ∀ r, r ≤ t.row ∨ t'.row ≤ r → t'.cells r = t.cells r := by
  intro t'
  have hdraws : Draws { t with row := t.row + 1, col := 0, wraps := false }
      (({ t with row := t.row + 1, col := 0, wraps := false } : Terminal P).write sgr body) := .write hbody hreading
  have ht' : t' = t.write sgr (['\r', '\n'] ++ (body ++ (['\r', '\n'] ++ ['\r', '\n']))) := rfl
  rw [write_append, write_append, write_append, write_newline hreading] at ht'
  generalize ({ t with row := t.row + 1, col := 0, wraps := false } : Terminal P).write sgr body = u at hdraws ht'
  have hplain : u.reading = .plain := hdraws.reading hreading
  rw [write_newline hplain, write_newline (t := { u with row := u.row + 1, col := 0, wraps := false }) hplain] at ht'
  have hrow : t.row + 1 ≤ u.row := hdraws.row_le
  rw [ht']
  refine ⟨?_, hdraws.columns, hplain, fun r hr => ?_⟩
  · change t.row < u.row + 1 + 1
    omega
  · change r ≤ t.row ∨ u.row + 1 + 1 ≤ r at hr
    refine hdraws.elsewhere r ?_
    change r < t.row + 1 ∨ u.row < r
    omega

/-- Such a text draws nothing in the row of the cursor, and nothing in the last one. -/
theorem marks_between {body : List Char} (hbody : Unescaped body) (hreading : t.reading = .plain) {r c : Nat}
    (h : Marks sgr t (['\r', '\n'] ++ (body ++ (['\r', '\n'] ++ ['\r', '\n']))) r c) :
    t.row < r ∧ r < (t.write sgr (['\r', '\n'] ++ (body ++ (['\r', '\n'] ++ ['\r', '\n'])))).row := by
  have hwhole : Unescaped (['\r', '\n'] ++ (body ++ (['\r', '\n'] ++ ['\r', '\n']))) :=
    Text.unescaped_append.mpr ⟨by decide, Text.unescaped_append.mpr ⟨hbody, by decide⟩⟩
  obtain ⟨-, -, -, helsewhere⟩ :=
    write_between sgr (t := { t with cells := fun _ _ => none }) hbody hreading
  obtain ⟨cells', hsame⟩ := write_cells sgr hwhole hreading fun _ _ => none
  by_contra hout
  have hcells := helsewhere r (by
    rw [hsame]
    change r ≤ t.row ∨ (t.write sgr _).row ≤ r
    omega)
  rw [Marks, Shows, hcells] at h
  cases h

/-- A text that begins a new line with a column draws at the beginning of this line. -/
theorem marks_newline {first rest : List Char} (hreading : t.reading = .plain) (hfirst : ∀ c ∈ first, Text.IsPlain c)
    (hcolumns : 0 < columnsOf first) (hrest : Unescaped rest) :
    Marks sgr t (['\r', '\n'] ++ (first ++ rest)) (t.row + 1) 0 := by
  rw [Marks, write_append, write_append, write_newline (t := { t with cells := fun _ _ => none }) hreading]
  generalize hbare : ({ t with cells := fun _ _ => none, row := t.row + 1, col := 0, wraps := false } : Terminal P) = t0
  have hreading0 : t0.reading = .plain := hbare ▸ hreading
  have hshown : (t0.write sgr first).Shows (t.row + 1) 0 :=
    shows_write_plain (hbare ▸ ⟨rfl, rfl, rfl⟩) hreading0 hfirst hcolumns
  have hdraws : Draws t0 (t0.write sgr first) := .write (fun c hc => (hfirst c hc).ne_escape) hreading0
  exact (Draws.write hrest (hdraws.reading hreading0)).stays hshown

end Terminal

/-! ### The line alone -/

/-- A line without what is behind it. -/
def Frame.alone (f : Frame) : Frame :=
  { f with suffix := none }

theorem Frame.Fits.alone {columns : Nat} {f : Frame} (h : f.Fits columns) : f.alone.Fits columns where
  prompt := h.prompt
  line := h.line
  suffix := nofun
  rows := by
    have hrows := h.rows
    have hle : (displayWidth f.prompt + displayWidth f.line) / columns + 1 ≤ f.rows columns := by
      unfold Frame.rows
      dsimp only
      split
      · exact Nat.le_refl _
      · omega
      · exact Nat.succ_le_succ (Nat.div_le_div_right (Nat.le_add_right ..))
    exact Nat.lt_of_le_of_lt hle hrows

namespace Terminal

variable {P : Type} {sgr : List Char → P → P} {t : Terminal P} {s : Screen}

/-- Nothing is drawn, only the cursor is elsewhere. -/
structure Moves (t t' : Terminal P) : Prop where
  columns : t'.columns = t.columns
  reading : t'.reading = t.reading
  cells : t'.cells = t.cells

variable (sgr) in
theorem moves_settle (hreading : t.reading = .plain) (n : Nat) : Moves t (t.run sgr (s.settle n)) := by
  unfold Screen.settle
  split
  · rw [run_newline hreading]
    exact ⟨rfl, rfl, rfl⟩
  · exact ⟨rfl, rfl, rfl⟩

variable (sgr) in
theorem moves_back (row : Nat) {lastRow : Nat} (hlast : lastRow < 65536) (hreading : t.reading = .plain) :
    Moves t (t.run sgr (if row < lastRow then [.up (lastRow - row)] else [])) := by
  split
  · rw [run_up (by omega) (by omega) hreading]
    exact ⟨rfl, rfl, rfl⟩
  · exact ⟨rfl, rfl, rfl⟩

/-- A line that is painted alone fills as many places as it is wide. -/
theorem inked_alone {top : Nat} (ht : t.Stands top 0) (hempty : t.Inked top 0) (hreading : t.reading = .plain)
    (hcolumns : t.columns = s.columns) (hwidth : s.columns < 65536) {f : Frame} (hf : f.Fits s.columns) :
    (t.run sgr ((Repaint.line f.alone).ink s)).Inked top (displayWidth f.prompt + displayWidth f.line) := by
  obtain ⟨text, hline, -⟩ := hf.line
  have hpos : 0 < t.columns := hcolumns ▸ s.columns_pos
  have hink : (Repaint.line f.alone).ink s = [.print f.prompt] ++ ([.print f.line] ++
      (s.settle (displayWidth f.prompt + displayWidth f.line) ++
        ((if f.target / s.columns < (displayWidth f.prompt + displayWidth f.line) / s.columns then
          [.up ((displayWidth f.prompt + displayWidth f.line) / s.columns - f.target / s.columns)] else []) ++
            [.column (f.target % s.columns), .showCursor]))) := by
    simp only [Repaint.ink, List.append_assoc]
    rfl
  rw [hink, run_append, run_append, run_append, run_append]
  obtain ⟨hprompt, kept⟩ := ht.print sgr hcolumns hreading (Styled.plain hf.prompt)
  have hprompted : (t.run sgr [.print f.prompt]).Inked top (0 + columnsOf f.prompt.toList) :=
    hempty.write ht hpos hreading (Styled.plain hf.prompt)
  rw [Nat.zero_add, ← hf.prompt.displayWidth_eq] at hprompt hprompted
  generalize t.run sgr [.print f.prompt] = t1 at hprompt hprompted kept ⊢
  have hlined : (t1.run sgr [.print f.line]).Inked top (displayWidth f.prompt + columnsOf text) :=
    hprompted.write hprompt (kept.columns ▸ hpos) (kept.reading hreading) hline
  obtain ⟨-, kept1⟩ := hprompt.print sgr (kept.columns.trans hcolumns) (kept.reading hreading) hline
  rw [← hline.displayWidth_eq] at hlined
  replace kept := kept.trans kept1
  generalize t1.run sgr [.print f.line] = t2 at hlined kept ⊢
  -- From here on the cursor only moves.
  have hplain := kept.reading hreading
  have hsettled := moves_settle sgr (s := s) hplain (displayWidth f.prompt + displayWidth f.line)
  generalize t2.run sgr (s.settle _) = t3 at hsettled ⊢
  have hrows : (displayWidth f.prompt + displayWidth f.line) / s.columns < 65536 := by
    have hrows : (displayWidth f.prompt + displayWidth f.line) / s.columns + 1 < 65536 := hf.alone.rows
    omega
  have hback := moves_back sgr (f.target / s.columns) hrows (hsettled.reading.trans hplain)
  generalize t3.run sgr _ = t4 at hback ⊢
  have hall : t4.columns = s.columns :=
    hback.columns.trans (hsettled.columns.trans (kept.columns.trans hcolumns))
  rw [run_place sgr (by rw [hall]; exact Nat.mod_lt _ s.columns_pos) (by rw [hall]; exact hwidth)
    (hback.reading.trans (hsettled.reading.trans hplain))]
  exact hlined.congr (hback.cells.trans hsettled.cells) (hback.columns.trans hsettled.columns)

end Terminal

/-! ### The engine -/

namespace Engine

variable {e : Engine} {candidates : List String}

/-- The table that answers a request for all completions. -/
def table (e : Engine) (candidates : List String) : String :=
  Listing.format (candidates.map (e.buffer.beforeCursor ++ ·)) e.screen.columns

/-- The line alone, the table, and the line anew. -/
theorem output_onFull (hmode : e.mode = .normal) (hmany : 2 ≤ candidates.length) :
    let alone := e.screen.render e.frame.alone
    let table := alone.2.print (e.table candidates)
    (e.onFull (some (.candidates candidates))).output =
      e.output ++ alone.1 ++ table.1 ++ (table.2.render e.frame).1 := by
  match candidates, hmany with
  | first :: second :: rest, _ =>
    obtain ⟨settings, highlighter, buffer, decoder, history, suggestion, screen, mode, armed, scheduled,
      output, jobs⟩ := e
    cases hmode
    rfl

variable {P : Type} (sgr : List Char → P → P) {v : View P}

theorem run_print (t : Terminal P) (s : Screen) (text : String) :
    t.run sgr (s.print text).1 = t.write sgr (Screen.rawLines '\x00' text.toList) := by
  rw [Screen.print, Terminal.run_cons, Terminal.run_nil, Command.text, String.toList_ofList]

/-- The terminal when the listing is written, and the screen that paints the line anew behind it. -/
def listed (v : View P) (e : Engine) (candidates : List String) : View P :=
  let line := v.step sgr (.repaint (.line e.frame.alone))
  let terminal := line.terminal.write sgr (Screen.rawLines '\x00' (e.table candidates).toList)
  { terminal, screen := { line.screen with cursorRow := 0 }, top := terminal.row }

theorem run_onFull (hscreen : e.screen = v.screen) (htaken : e.output = []) (hmode : e.mode = .normal)
    (hmany : 2 ≤ candidates.length) :
    v.terminal.run sgr (e.onFull (some (.candidates candidates))).output =
      ((listed sgr v e candidates).step sgr (.repaint (.line e.frame))).terminal := by
  have hline : ∀ (w : View P) (f : Frame), (w.step sgr (.repaint (.line f))).terminal =
      w.terminal.run sgr (w.screen.render f).1 := fun _ _ => rfl
  rw [output_onFull hmode hmany, htaken, hscreen, List.nil_append, Terminal.run_append, Terminal.run_append, run_print,
    hline, listed]
  dsimp only
  rw [hline]
  rfl

/-- A listing leaves what is drawn down to the row of the cursor, and stands below it. So it leaves the whole line and
stands below it if the cursor is in the last row of the line, and only then. -/
theorem listing_below (hv : v.Sound) (hwidth : v.screen.columns < 65536) (hscreen : e.screen = v.screen)
    (htaken : e.output = []) (hmode : e.mode = .normal) (hfits : e.frame.Fits v.screen.columns)
    (hmany : 2 ≤ candidates.length) (hcandidates : ∀ s ∈ candidates, Unescaped s.toList) :
    let line := (v.step sgr (.repaint (.line e.frame.alone))).terminal
    let table := Screen.rawLines '\x00' (e.table candidates).toList
    let after := v.terminal.run sgr (e.onFull (some (.candidates candidates))).output
    let width := displayWidth e.frame.prompt + displayWidth e.frame.line
    let cursorRow := e.frame.target / v.screen.columns
    (∀ r ≤ v.top + cursorRow, after.cells r = line.cells r) ∧
      (∀ r c, line.Marks sgr table r c →
        v.top + cursorRow < r ∧ after.cells r c = (line.write sgr table).cells r c) ∧
      ((∀ s ∈ candidates.head?, Plain s ∧ 0 < displayWidth (e.buffer.beforeCursor ++ s)) →
        (line.Spares v.top after ∧
            (∀ r c r' c', v.top ≤ r → line.Shows r c → line.Marks sgr table r' c' → r < r') ↔
          (width - 1) / v.screen.columns ≤ cursorRow)) := by
  obtain ⟨first, rest, rfl⟩ := List.exists_cons_of_length_pos (Nat.lt_of_lt_of_le Nat.zero_lt_two hmany)
  intro line table after width cursorRow
  obtain ⟨hsound, hsame⟩ := hv.step sgr hwidth (x := .repaint (.line e.frame.alone)) hfits.alone
  have hrow : line.row = v.top + cursorRow := by
    have hrow := hsound.row
    rwa [hv.top_repaint sgr hwidth] at hrow
  have hreading : line.reading = .plain := hsound.reading
  have hcolumns : line.columns = v.screen.columns := hsound.columns.trans hsame
  have hinked : line.Inked v.top width := by
    have hline : line = _ := hv.terminal_repaint sgr hwidth (.line e.frame.alone)
    have hempty : (v.terminal.cleared v.top).Inked v.top 0 := by
      intro r c hr
      have hblank : (v.terminal.cleared v.top).cells r c = none := if_neg (by omega)
      simp [Terminal.Shows, hblank]
    rw [hline]
    exact Terminal.inked_alone ⟨rfl, rfl, rfl⟩ hempty hv.reading hv.columns hwidth hfits
  have hentries : ∀ s ∈ (first :: rest).map (e.buffer.beforeCursor ++ ·), Unescaped s.toList := by
    intro s hs
    obtain ⟨candidate, hcandidate, rfl⟩ := List.mem_map.mp hs
    rw [String.toList_append, Text.unescaped_append]
    exact ⟨fun c hc => (hfits.beforeCursor c hc).ne_escape, hcandidates candidate hcandidate⟩
  obtain ⟨body, hraw, hbody, hfirst⟩ := Screen.exists_rawLines_format e.screen.columns hentries
  have htable : table = ['\r', '\n'] ++ (body ++ (['\r', '\n'] ++ ['\r', '\n'])) := hraw
  obtain ⟨hlater, hlisted, hplain, helsewhere⟩ := Terminal.write_between sgr hbody hreading
  rw [← htable] at hlater hlisted hplain helsewhere
  have hbelow : ∀ r c, line.Marks sgr table r c → line.row < r ∧ r < (line.write sgr table).row := by
    intro r c hmarks
    rw [htable] at hmarks ⊢
    exact Terminal.marks_between hbody hreading hmarks
  -- The line is painted anew behind the table.
  have hanew : (listed sgr v e (first :: rest)).Sound := ⟨hlisted.trans hsound.columns, hplain, rfl, Nat.zero_lt_succ _⟩
  have habove : ∀ r < (line.write sgr table).row, after.cells r = (line.write sgr table).cells r := by
    have hkept := (hanew.repaint sgr (r := .line e.frame) hwidth hfits).2
    rwa [← run_onFull sgr hscreen htaken hmode hmany] at hkept
  have hkept : ∀ r ≤ v.top + cursorRow, after.cells r = line.cells r := by
    intro r hr
    rw [← hrow] at hr
    rw [habove r (by omega), helsewhere r (.inl hr)]
  refine ⟨hkept, fun r c hmarks => ?_, fun hhead => ?_⟩
  · obtain ⟨hcursor, hend⟩ := hbelow r c hmarks
    exact ⟨hrow ▸ hcursor, congrFun (habove r hend) c⟩
  · rw [← hcolumns, ← hinked.rows_le_iff (hcolumns ▸ v.screen.columns_pos) cursorRow]
    constructor
    · rintro ⟨-, hdown⟩ r c hr hshows
      obtain ⟨hfirstPlain, hfirstWidth⟩ := hhead first rfl
      have hentry : Plain (e.buffer.beforeCursor ++ first) := hfits.beforeCursor.append hfirstPlain
      rw [hentry.displayWidth_eq] at hfirstWidth
      have hbegins : line.Marks sgr table (line.row + 1) 0 := by
        obtain ⟨more, rfl⟩ := hfirst fun hmem => absurd (hentry _ hmem).control (by decide)
        rw [htable, List.append_assoc]
        refine Terminal.marks_newline hreading hentry hfirstWidth ?_
        exact Text.unescaped_append.mpr ⟨(Text.unescaped_append.mp hbody).2, by decide⟩
      have hlt := hdown r c _ _ hr hshows hbegins
      omega
    · intro hrows
      refine ⟨fun r c hr hshows => by rw [hkept r (hrows r c hr hshows)], fun r c r' c' hr hshows hmarks => ?_⟩
      have hle := hrows r c hr hshows
      have hlt := (hbelow r' c' hmarks).1
      omega

/-- A line of two rows with the cursor in the second one. -/
theorem listing_below_last_row :
    let sgr := fun (_ : List Char) (pen : Unit) => pen
    let e : Engine :=
      { Engine.new {} id (.inMemory 1) 5 with buffer := { prompt := "> ", text := "abcdef", cursor := 4 } }
    let v : View Unit := { terminal := { columns := 5, pen := () }, screen := e.screen, top := 0 }
    let candidates := ["x", "y"]
    v.Sound ∧ v.screen.columns < 65536 ∧ e.screen = v.screen ∧ e.output = [] ∧ e.mode = .normal ∧
      e.frame.Fits v.screen.columns ∧ 2 ≤ candidates.length ∧ (∀ s ∈ candidates, Unescaped s.toList) ∧
      (v.step sgr (.repaint (.line e.frame.alone))).terminal.Spares v.top
        (v.terminal.run sgr (e.onFull (some (.candidates candidates))).output) := by
  intro sgr e v candidates
  have hsound : v.Sound := ⟨rfl, rfl, rfl, Nat.zero_lt_succ _⟩
  have hbefore : e.frame.beforeCursor = "abcd" := by decide +kernel
  have hprompt : displayWidth e.frame.prompt = 2 := (Plain.displayWidth_eq (by decide)).trans (by decide)
  have hline : displayWidth e.frame.line = 6 := (Plain.displayWidth_eq (by decide)).trans (by decide)
  have htarget : e.frame.target = 6 := by
    rw [Frame.target, hprompt, hbefore, Plain.displayWidth_eq (by decide)]
    decide
  have hfits : e.frame.Fits v.screen.columns := by
    refine ⟨by decide, ⟨"abcdef".toList, Styled.plain (show Plain "abcdef" by decide), ?_⟩, ?_, ?_⟩
    · rw [hbefore]
      decide
    · rintro _ ⟨⟩
    · change (displayWidth e.frame.prompt + displayWidth e.frame.line) / 5 + 1 < 65536
      rw [hprompt, hline]
      decide
  have hcandidates : ∀ s ∈ candidates, Unescaped s.toList := by decide
  have hbelow := @listing_below e candidates Unit sgr v hsound (by decide) rfl rfl rfl hfits (by decide) hcandidates
  refine ⟨hsound, by decide, rfl, rfl, rfl, hfits, by decide, hcandidates, ((hbelow.2.2 ?_).mpr ?_).1⟩
  · rintro _ ⟨⟩
    refine ⟨by decide, ?_⟩
    rw [show e.buffer.beforeCursor ++ "x" = "abcdx" from by decide +kernel, Plain.displayWidth_eq (by decide)]
    decide
  · change (displayWidth e.frame.prompt + displayWidth e.frame.line - 1) / 5 ≤ e.frame.target / 5
    rw [hprompt, hline, htarget]

/-- With the cursor in the first row, the listing is written over the second one. -/
theorem listing_over_last_row :
    let sgr := fun (_ : List Char) (pen : Unit) => pen
    let e := ({ Engine.new {} id (.inMemory 1) 10 with
      buffer := { prompt := "> ", text := "abcdefghijkl" } } : Engine).paint
    let line := ({ columns := 10, pen := () } : Terminal Unit).run sgr e.output
    let after := line.run sgr (e.takeOutput.2.onFull (some (.candidates ["x", "y"]))).output
    (line.cells 1 0).map Cell.char = some 'i' ∧ (after.cells 1 0).map Cell.char = some 'x' ∧ ¬ line.Spares 0 after := by
  intro sgr e line after
  have hline : (line.cells 1 0).map Cell.char = some 'i' := by decide +kernel
  have hafter : (after.cells 1 0).map Cell.char = some 'x' := by decide +kernel
  refine ⟨hline, hafter, fun hspares => ?_⟩
  have hshows : line.Shows 1 0 := by
    rw [Terminal.Shows, ← Option.isSome_map (f := Cell.char), hline]
    rfl
  have hsame := hspares 1 0 (Nat.zero_le _) hshows
  rw [hline, hafter] at hsame
  cases hsame

end Engine

end ScriptRepl.Console
