import Mathlib.Logic.Function.Basic
import ScriptRepl.Console.Screen
import ScriptRepl.Proofs.Console.Styled

/-! A terminal that carries out what is written to it, one character after the other. It has rows without end; a
character that fills a row leaves the cursor there, and the next one goes to the next row. What a rendition sequence
does to the pen is left open. Characters wider than one column are not told apart. -/
namespace ScriptRepl.Console

/-- What is drawn at one place. -/
structure Cell (P : Type) where
  char : Char
  /-- The characters without a width that joined it. -/
  marks : List Char := []
  pen : P

inductive Reading where
  | plain
  | escape
  | control (parameters : List Char)
  deriving DecidableEq

structure Terminal (P : Type) where
  columns : Nat
  row : Nat := 0
  col : Nat := 0
  /-- The row is full: the next character goes to the next one. -/
  wraps : Bool := false
  hidden : Bool := false
  pen : P
  cells : Nat → Nat → Option (Cell P) := fun _ _ => none
  reading : Reading := .plain

namespace Terminal

variable {P : Type}

/-- Changes one place. -/
def change (t : Terminal P) (row col : Nat) (f : Option (Cell P) → Option (Cell P)) : Terminal P :=
  { t with cells := fun r c => if r = row ∧ c = col then f (t.cells r c) else t.cells r c }

def wrap (t : Terminal P) : Terminal P :=
  if t.wraps then { t with row := t.row + 1, col := 0, wraps := false } else t

/-- Draws a character and goes on, but not beyond the last column. -/
def put (t : Terminal P) (c : Char) : Terminal P :=
  let t := t.wrap
  let drawn := t.change t.row t.col fun _ => some { char := c, pen := t.pen }
  { drawn with col := min (t.col + 1) (t.columns - 1), wraps := t.col + 1 = t.columns }

/-- A character without a width joins the one before it in the row, if there is one. -/
def join (t : Terminal P) (c : Char) : Terminal P :=
  let joined (col : Nat) := t.change t.row col (Option.map fun cell => { cell with marks := cell.marks ++ [c] })
  if t.wraps then joined t.col else if 0 < t.col then joined (t.col - 1) else t

def erase (t : Terminal P) (erased : Nat → Nat → Bool) : Terminal P :=
  { t with cells := fun r c => if erased r c then none else t.cells r c }

def goTo (t : Terminal P) (row col : Nat) : Terminal P :=
  { t with row, col := min col (t.columns - 1), wraps := false }

/-- A count that is missing or nothing is one. -/
def count (parameters : List Char) : Nat :=
  max 1 (Nat.ofDigitChars 10 parameters 0)

variable (sgr : List Char → P → P)

def execute (t : Terminal P) (parameters : List Char) (final : Char) : Terminal P :=
  match final with
  | 'A' => t.goTo (t.row - count parameters) t.col
  | 'G' => t.goTo t.row (count parameters - 1)
  | 'H' =>
    let (row, col) := parameters.span (· ≠ ';')
    t.goTo (count row - 1) (count (col.drop 1) - 1)
  | 'J' =>
    match parameters with
    | [] | ['0'] => t.erase fun r c => t.row < r || (t.row = r && t.col ≤ c)
    | ['2'] => t.erase fun _ _ => true
    | _ => t
  | 'm' => { t with pen := sgr parameters t.pen }
  | 'l' => if parameters = ['?', '2', '5'] then { t with hidden := true } else t
  | 'h' => if parameters = ['?', '2', '5'] then { t with hidden := false } else t
  | _ => t

def receive (t : Terminal P) (c : Char) : Terminal P :=
  match t.reading with
  | .plain =>
    if c = '\x1b' then { t with reading := .escape }
    else if c = '\r' then { t with col := 0, wraps := false }
    else if c = '\n' then { t with row := t.row + 1, wraps := false }
    else if Text.isControl c then t
    else if Text.columns c = 0 then t.join c
    else t.put c
  | .escape => { t with reading := if c = '[' then .control [] else .plain }
  | .control parameters =>
    if Text.Escape.isFinal c then { t with reading := .plain }.execute sgr parameters c
    else { t with reading := .control (parameters ++ [c]) }

def write (t : Terminal P) (cs : List Char) : Terminal P :=
  cs.foldl (receive sgr) t

def run (t : Terminal P) (commands : List Command) : Terminal P :=
  commands.foldl (fun t command => t.write sgr command.text.toList) t

/-! ### Sequences -/

variable {sgr : List Char → P → P} {t t' : Terminal P}

@[simp] theorem write_nil (t : Terminal P) : t.write sgr [] = t := rfl

@[simp] theorem write_cons (t : Terminal P) (c : Char) (cs : List Char) :
    t.write sgr (c :: cs) = (t.receive sgr c).write sgr cs := rfl

theorem write_append (t : Terminal P) (cs ds : List Char) :
    t.write sgr (cs ++ ds) = (t.write sgr cs).write sgr ds :=
  List.foldl_append ..

@[simp] theorem run_nil (t : Terminal P) : t.run sgr [] = t := rfl

@[simp] theorem run_cons (t : Terminal P) (command : Command) (commands : List Command) :
    t.run sgr (command :: commands) = (t.write sgr command.text.toList).run sgr commands := rfl

theorem run_append (t : Terminal P) (commands more : List Command) :
    t.run sgr (commands ++ more) = (t.run sgr commands).run sgr more :=
  List.foldl_append ..

theorem not_isFinal_of_isDigit {c : Char} (h : c.isDigit = true) : Text.Escape.isFinal c = false := by
  have hlast : c ≤ '9' := (Bool.and_eq_true_iff.mp h).2 |> of_decide_eq_true
  have hbelow : ¬ '@' ≤ c := fun hfirst => absurd (Char.le_trans hfirst hlast) (by decide)
  simp [Text.Escape.isFinal, hbelow]

theorem write_parameters {read ps : List Char} (hps : ∀ c ∈ ps, Text.Escape.isFinal c = false)
    (hreading : t.reading = .control read) : t.write sgr ps = { t with reading := .control (read ++ ps) } := by
  induction ps generalizing t read with
  | nil => simp [← hreading]
  | cons c ps ih =>
      have hc : t.receive sgr c = { t with reading := .control (read ++ [c]) } := by
        unfold receive
        rw [hreading]
        dsimp only
        rw [if_neg (by simp [hps c])]
      rw [write_cons, hc, ih (fun d hd => hps d (List.mem_cons_of_mem c hd)) rfl, List.append_assoc]
      rfl

/-- A control sequence with parameters is carried out when it is complete. -/
theorem write_control (ps : List Char) (final : Char) (hps : ∀ c ∈ ps, Text.Escape.isFinal c = false)
    (hfinal : Text.Escape.isFinal final = true) (hreading : t.reading = .plain) :
    t.write sgr ('\x1b' :: '[' :: ps ++ [final]) = t.execute sgr ps final := by
  have hopened : t.write sgr ['\x1b', '['] = { t with reading := .control [] } := by
    simp [receive, hreading]
  have hplain : ({ t with reading := .plain } : Terminal P) = t := by rw [← hreading]
  rw [show '\x1b' :: '[' :: ps ++ [final] = ['\x1b', '['] ++ (ps ++ [final]) from rfl, write_append, write_append,
    hopened, write_parameters hps rfl, write_cons, write_nil, receive]
  dsimp only
  rw [if_pos hfinal, List.nil_append, hplain]

theorem write_count (sgr : List Char → P → P) (t : Terminal P) (n : Nat) (final : Char) (hn : 0 < n)
    (hfinal : Text.Escape.isFinal final = true) (hreading : t.reading = .plain) :
    ∃ ps, count ps = n ∧ t.write sgr ("\x1b[" ++ toString n ++ String.ofList [final]).toList = t.execute sgr ps final := by
  refine ⟨Nat.toDigits 10 n, ?_, ?_⟩
  · rw [count, Nat.ofDigitChars_toDigits (by decide) (Nat.le_refl 10)]
    omega
  · have hdigits : ∀ c ∈ Nat.toDigits 10 n, Text.Escape.isFinal c = false := by
      intro c hc
      exact not_isFinal_of_isDigit (Nat.isDigit_of_mem_toDigits (by decide) (Nat.le_refl 10) hc)
    rw [← write_control _ final hdigits hfinal hreading]
    simp

/-! ### Commands -/

theorem run_up {n : Nat} (hpos : 0 < n) (hn : n < 65536) (hreading : t.reading = .plain) :
    t.run sgr [.up n] = t.goTo (t.row - n) t.col := by
  obtain ⟨ps, hcount, hwrite⟩ := t.write_count sgr (n % 65536) 'A' (by omega) rfl hreading
  change t.write sgr ("\x1b[" ++ toString (n % 65536) ++ "A").toList = _
  rw [show "A" = String.ofList ['A'] from rfl, hwrite, execute, hcount, Nat.mod_eq_of_lt hn]

theorem run_column {n : Nat} (hn : n < t.columns) (hcolumns : t.columns < 65536) (hreading : t.reading = .plain) :
    t.run sgr [.column n] = { t with col := n, wraps := false } := by
  obtain ⟨ps, hcount, hwrite⟩ := t.write_count sgr (n % 65536 + 1) 'G' (by omega) rfl hreading
  change t.write sgr ("\x1b[" ++ toString (n % 65536 + 1) ++ "G").toList = _
  rw [show "G" = String.ofList ['G'] from rfl, hwrite, execute, hcount, Nat.mod_eq_of_lt (by omega)]
  unfold goTo
  congr
  omega

theorem run_newline (hreading : t.reading = .plain) :
    t.run sgr [.newline] = { t with row := t.row + 1, col := 0, wraps := false } := by
  simp [Command.newline, Command.text, receive, hreading]

theorem run_hideCursor (hreading : t.reading = .plain) : t.run sgr [.hideCursor] = { t with hidden := true } :=
  write_control ['?', '2', '5'] 'l' (by simp [Text.Escape.isFinal]) rfl hreading

theorem run_showCursor (hreading : t.reading = .plain) : t.run sgr [.showCursor] = { t with hidden := false } :=
  write_control ['?', '2', '5'] 'h' (by simp [Text.Escape.isFinal]) rfl hreading

theorem run_clearBelow (hreading : t.reading = .plain) :
    t.run sgr [.clearBelow] = t.erase fun r c => t.row < r || (t.row = r && t.col ≤ c) :=
  write_control [] 'J' (by simp [Text.Escape.isFinal]) rfl hreading

theorem run_clear (hreading : t.reading = .plain) :
    t.run sgr [.clearAll, .clearScrollback, .home] = (t.erase fun _ _ => true).goTo 0 0 := by
  have hall : t.run sgr [.clearAll] = t.erase fun _ _ => true :=
    write_control ['2'] 'J' (by simp [Text.Escape.isFinal]) rfl hreading
  have hscrollback : ∀ t : Terminal P, t.reading = .plain → t.run sgr [.clearScrollback] = t := fun t ht =>
    write_control ['3'] 'J' (by simp [Text.Escape.isFinal]) rfl ht
  have hhome : ∀ t : Terminal P, t.reading = .plain → t.run sgr [.home] = t.goTo 0 0 := fun t ht =>
    write_control ['1', ';', '1'] 'H' (by simp [Text.Escape.isFinal]) rfl ht
  rw [show [Command.clearAll, .clearScrollback, .home] = [.clearAll] ++ [.clearScrollback] ++ [.home] from rfl,
    run_append, run_append, hall, hscrollback (t.erase _) hreading, hhome (t.erase _) hreading]

/-! ### Where the cursor is -/

/-- What is above row `top` has not changed, and no sequence has been left open. -/
structure Keeps (top : Nat) (t t' : Terminal P) : Prop where
  columns : t'.columns = t.columns
  reading : t.reading = .plain → t'.reading = .plain
  above : ∀ r < top, t'.cells r = t.cells r

namespace Keeps

variable {top : Nat} {t t' t'' : Terminal P}

theorem refl (top : Nat) (t : Terminal P) : Keeps top t t := ⟨rfl, id, fun _ _ => rfl⟩

theorem trans (h : Keeps top t t') (h' : Keeps top t' t'') : Keeps top t t'' where
  columns := h'.columns.trans h.columns
  reading := h'.reading ∘ h.reading
  above r hr := (h'.above r hr).trans (h.above r hr)

theorem mono {low : Nat} (h : Keeps top t t') (hlow : low ≤ top) : Keeps low t t' where
  columns := h.columns
  reading := h.reading
  above r hr := h.above r (by omega)

theorem change {row : Nat} (hrow : top ≤ row) (col : Nat) (f : Option (Cell P) → Option (Cell P)) :
    Keeps top t (t.change row col f) where
  columns := rfl
  reading := id
  above r hr := by
    funext c
    exact if_neg (by omega)

end Keeps

/-- The cursor is where `n` columns take it from the beginning of row `top`. After the last column of a row it stays
there. -/
def Stands (t : Terminal P) (top : Nat) : Nat → Prop
  | 0 => t.row = top ∧ t.col = 0 ∧ t.wraps = false
  | n + 1 =>
    t.row = top + n / t.columns ∧ t.col = min (n % t.columns + 1) (t.columns - 1) ∧
      t.wraps = decide (n % t.columns + 1 = t.columns)

/-- The next column is in the same row, or is the first one of the next row. -/
theorem succ_div_mod (n : Nat) {columns : Nat} (hcolumns : 0 < columns) :
    (n % columns + 1 = columns ∧ (n + 1) / columns = n / columns + 1 ∧ (n + 1) % columns = 0) ∨
      (n % columns + 1 < columns ∧ (n + 1) / columns = n / columns ∧ (n + 1) % columns = n % columns + 1) := by
  have hlt := Nat.mod_lt n hcolumns
  have hn := Nat.mod_add_div n columns
  by_cases hfull : n % columns + 1 = columns
  · refine .inl ⟨hfull, (Nat.div_mod_unique hcolumns).mpr ⟨?_, hcolumns⟩⟩
    rw [Nat.mul_add, Nat.mul_one]
    omega
  · exact .inr ⟨by omega, (Nat.div_mod_unique hcolumns).mpr ⟨by omega, by omega⟩⟩

theorem eq_at {row col : Nat} {wraps : Bool} (hrow : t.row = row) (hcol : t.col = col) (hwraps : t.wraps = wraps) :
    t = { t with row, col, wraps } := by
  subst hrow hcol hwraps
  rfl

namespace Stands

variable {top n : Nat}

theorem congr (h : t.Stands top n) (hcolumns : t'.columns = t.columns) (hrow : t'.row = t.row) (hcol : t'.col = t.col)
    (hwraps : t'.wraps = t.wraps) : t'.Stands top n := by
  cases n with
  | zero => exact ⟨hrow.trans h.1, hcol.trans h.2.1, hwraps.trans h.2.2⟩
  | succ n =>
      rw [Stands, hcolumns, hrow, hcol, hwraps]
      exact h

theorem top_le (h : t.Stands top n) : top ≤ t.row := by
  cases n with
  | zero => exact Nat.le_of_eq h.1.symm
  | succ n => exact h.1 ▸ Nat.le_add_right ..

/-- The next character is drawn where the count of columns says. -/
theorem wrap (h : t.Stands top n) (hcolumns : 0 < t.columns) :
    t.wrap = { t with row := top + n / t.columns, col := n % t.columns, wraps := false } := by
  unfold Terminal.wrap
  cases n with
  | zero =>
      obtain ⟨hrow, hcol, hwraps⟩ := h
      rw [if_neg (by simp [hwraps])]
      exact eq_at (by simpa using hrow) (by simpa using hcol) hwraps
  | succ n =>
      obtain ⟨hrow, hcol, hwraps⟩ := h
      rcases succ_div_mod n hcolumns with ⟨hfull, hdiv, hmod⟩ | ⟨hfree, hdiv, hmod⟩
      · rw [if_pos (by simp [hwraps, hfull]), hdiv, hmod, hrow]
        rfl
      · have hopen : t.wraps = false := by
          rw [hwraps]
          exact decide_eq_false (by omega)
        rw [if_neg (by simp [hopen])]
        exact eq_at (by omega) (by omega) hopen

theorem put (h : t.Stands top n) (hcolumns : 0 < t.columns) (c : Char) :
    (t.put c).Stands top (n + 1) ∧ Keeps top t (t.put c) := by
  unfold Terminal.put
  rw [h.wrap hcolumns]
  have hchange : Keeps top t (t.change (top + n / t.columns) (n % t.columns) fun _ => some { char := c, pen := t.pen }) :=
    .change (Nat.le_add_right ..) _ _
  exact ⟨⟨rfl, rfl, rfl⟩, ⟨rfl, id, hchange.above⟩⟩

theorem join (h : t.Stands top n) (c : Char) : (t.join c).Stands top n ∧ Keeps top t (t.join c) := by
  unfold Terminal.join
  dsimp only
  split
  · exact ⟨h, .change h.top_le _ _⟩
  · split
    · exact ⟨h, .change h.top_le _ _⟩
    · exact ⟨h, .refl _ _⟩

end Stands

end Terminal

/-! ### Lines -/

namespace Terminal

open Text (IsPlain Styled renditionCode)

variable {P : Type} {sgr : List Char → P → P} {t : Terminal P} {top n : Nat}

theorem write_code {parameters : List Char} (h : ∀ c ∈ parameters, Text.isRendition c = true)
    (hreading : t.reading = .plain) :
    t.write sgr (renditionCode parameters) = { t with pen := sgr parameters t.pen } := by
  refine write_control _ _ ?_ rfl hreading
  intro c hc
  rcases Bool.or_eq_true_iff.mp (h c hc) with hdigit | hseparator
  · exact not_isFinal_of_isDigit hdigit
  · rw [eq_of_beq hseparator]
    rfl

theorem receive_plain {c : Char} (hc : IsPlain c) (hreading : t.reading = .plain) :
    t.receive sgr c = if Text.columns c = 0 then t.join c else t.put c := by
  have hcontrol := hc.control
  have hreturn : c ≠ '\r' := by
    rintro rfl
    cases hcontrol
  have hfeed : c ≠ '\n' := by
    rintro rfl
    cases hcontrol
  rw [receive, hreading]
  simp [hc.ne_escape, hreturn, hfeed, hcontrol]

/-- A line takes the cursor on by its columns. -/
theorem Stands.write {line text : List Char} (h : t.Stands top n) (hcolumns : 0 < t.columns)
    (hreading : t.reading = .plain) (hline : Styled line text) :
    (t.write sgr line).Stands top (n + Text.columnsOf text) ∧ Keeps top t (t.write sgr line) := by
  induction hline generalizing t n with
  | nil => exact ⟨h, .refl _ _⟩
  | code hparameters _ ih =>
      rw [write_append, write_code hparameters hreading]
      obtain ⟨hstands, hkeeps⟩ := ih (t := { t with pen := sgr _ t.pen }) (h.congr rfl rfl rfl rfl) hcolumns hreading
      exact ⟨hstands, ⟨hkeeps.columns, hkeeps.reading, hkeeps.above⟩⟩
  | @shown c line text hc _ ih =>
      rw [write_cons, receive_plain hc hreading, Text.columnsOf]
      by_cases hzero : Text.columns c = 0
      · rw [if_pos hzero, hzero, Nat.zero_add]
        obtain ⟨hstands, hkeeps⟩ := h.join c
        obtain ⟨hends, hrest⟩ := ih hstands (hkeeps.columns ▸ hcolumns) (hkeeps.reading hreading)
        exact ⟨hends, hkeeps.trans hrest⟩
      · have hone : Text.columns c = 1 := by
          have hle := hc.columns
          omega
        rw [if_neg hzero, hone, ← Nat.add_assoc]
        obtain ⟨hstands, hkeeps⟩ := h.put hcolumns c
        obtain ⟨hends, hrest⟩ := ih hstands (hkeeps.columns ▸ hcolumns) (hkeeps.reading hreading)
        exact ⟨hends, hkeeps.trans hrest⟩

end Terminal

/-! ### Without colours -/

def Cell.bare {P : Type} (cell : Cell P) : Cell Unit :=
  { char := cell.char, marks := cell.marks, pen := () }

namespace Terminal

variable {P : Type} {sgr : List Char → P → P} {bareSgr : List Char → Unit → Unit}

/-- What the terminal shows and where its cursor is, whatever the pen. -/
def bare (t : Terminal P) : Terminal Unit where
  columns := t.columns
  row := t.row
  col := t.col
  wraps := t.wraps
  hidden := t.hidden
  pen := ()
  cells := fun r c => (t.cells r c).map Cell.bare
  reading := t.reading

theorem bare_change (t : Terminal P) (row col : Nat) {f : Option (Cell P) → Option (Cell P)}
    {g : Option (Cell Unit) → Option (Cell Unit)} (h : ∀ cell, (f cell).map Cell.bare = g (cell.map Cell.bare)) :
    (t.change row col f).bare = t.bare.change row col g := by
  unfold bare change
  congr 1
  funext r c
  dsimp only
  split
  · exact h _
  · rfl

theorem bare_erase (t : Terminal P) (erased : Nat → Nat → Bool) : (t.erase erased).bare = t.bare.erase erased := by
  unfold bare erase
  congr 1
  funext r c
  dsimp only
  split <;> rfl

theorem bare_wrap (t : Terminal P) : t.wrap.bare = t.bare.wrap := by
  unfold wrap
  change _ = if t.wraps then _ else _
  split <;> rfl

theorem bare_put (t : Terminal P) (c : Char) : (t.put c).bare = t.bare.put c := by
  have hdrawn : (t.wrap.change t.wrap.row t.wrap.col fun _ => some { char := c, pen := t.wrap.pen }).bare =
      t.wrap.bare.change t.wrap.row t.wrap.col fun _ => some { char := c, pen := () } :=
    bare_change _ _ _ fun _ => rfl
  unfold put
  rw [← bare_wrap]
  exact congrArg (fun u : Terminal Unit =>
    { u with col := min (t.wrap.col + 1) (t.wrap.columns - 1), wraps := t.wrap.col + 1 = t.wrap.columns }) hdrawn

theorem bare_join (t : Terminal P) (c : Char) : (t.join c).bare = t.bare.join c := by
  have hjoined : ∀ col, (t.change t.row col (Option.map fun cell => { cell with marks := cell.marks ++ [c] })).bare =
      t.bare.change t.row col (Option.map fun cell => { cell with marks := cell.marks ++ [c] }) := by
    intro col
    refine bare_change _ _ _ fun cell => ?_
    cases cell <;> rfl
  unfold join
  change _ = if t.wraps then _ else if 0 < t.col then _ else _
  split
  · exact hjoined _
  · split
    · exact hjoined _
    · rfl

theorem bare_execute (t : Terminal P) (parameters : List Char) (final : Char) :
    (t.execute sgr parameters final).bare = t.bare.execute bareSgr parameters final := by
  unfold execute
  split
  · rfl
  · rfl
  · rfl
  · split
    · exact bare_erase ..
    · exact bare_erase ..
    · exact bare_erase ..
    · rfl
  · rfl
  · split <;> rfl
  · split <;> rfl
  · rfl

theorem bare_receive (t : Terminal P) (c : Char) : (t.receive sgr c).bare = t.bare.receive bareSgr c := by
  unfold receive
  rw [show t.bare.reading = t.reading from rfl]
  cases t.reading with
  | plain =>
      dsimp only
      split
      · rfl
      · split
        · rfl
        · split
          · rfl
          · split
            · rfl
            · split
              · exact bare_join t c
              · exact bare_put t c
  | escape => rfl
  | control parameters =>
      dsimp only
      split
      · exact bare_execute _ _ _
      · rfl

theorem bare_write (t : Terminal P) (cs : List Char) : (t.write sgr cs).bare = t.bare.write bareSgr cs := by
  induction cs generalizing t with
  | nil => rfl
  | cons c cs ih => rw [write_cons, write_cons, ih, bare_receive]

theorem bare_run (t : Terminal P) (commands : List Command) :
    (t.run sgr commands).bare = t.bare.run bareSgr commands := by
  induction commands generalizing t with
  | nil => rfl
  | cons command commands ih => rw [run_cons, run_cons, ih, bare_write]

end Terminal

end ScriptRepl.Console
