import ScriptRepl.Proofs.Console.Terminal

/-! A terminal on which some characters take two columns. Such a character is not divided: where a row has one column
left, it goes to the next row, and the column stays free. Text that is laid out so is as wide as its characters and the
columns that it leaves free. -/
namespace ScriptRepl.Text

/-- A character that takes one column or two, or joins the one before it. -/
structure IsPrinted (c : Char) : Prop where
  control : isControl c = false
  columns : columns c ≤ 2

instance (c : Char) : Decidable (IsPrinted c) :=
  decidable_of_iff (isControl c = false ∧ columns c ≤ 2) ⟨fun h => ⟨h.1, h.2⟩, fun h => ⟨h.control, h.columns⟩⟩

def Printed (s : String) : Prop :=
  ∀ c ∈ s.toList, IsPrinted c

instance (s : String) : Decidable (Printed s) :=
  List.decidableBAll IsPrinted s.toList

theorem IsPlain.isPrinted {c : Char} (h : IsPlain c) : IsPrinted c :=
  ⟨h.control, Nat.le_succ_of_le h.columns⟩

theorem IsPrinted.ne_escape {c : Char} (h : IsPrinted c) : c ≠ '\x1b' := by
  rintro rfl
  cases h.control

theorem Coded.displayWidth_eq {line : String} {text : List Char} (h : Coded IsPrinted line.toList text) :
    displayWidth line = columnsOf text := by
  rw [displayWidth, h.visible_eq fun _ hc => hc.ne_escape]

theorem Coded.paint {line : String} {text : List Char} (h : Coded IsPrinted line.toList text) (c : Color) :
    Coded IsPrinted (Style.paint c line).toList text := by
  have hcode {code : List Char} (hcode : Styled code []) : Coded IsPrinted code [] :=
    (Styled.iff_coded.mp hcode).mono fun _ => IsPlain.isPrinted
  have hpainted := ((hcode (.foreground c)).append h).append (hcode .resetForeground)
  simpa [Style.paint] using hpainted

theorem Printed.displayWidth_eq {s : String} (h : Printed s) : displayWidth s = columnsOf s.toList :=
  (Coded.plain h).displayWidth_eq

theorem Printed.truncate {s : String} (h : Printed s) (room : Nat) : Printed (truncate room s) := by
  intro c hc
  rcases mem_truncate hc with hkept | rfl
  · exact h c hkept
  · exact ⟨by decide, by decide +kernel⟩

theorem columns_le_one_of_ascii {c : Char} (h : c.toNat < 0x80) : columns c ≤ 1 := by
  unfold columns
  dsimp only
  split
  · exact Nat.zero_le 1
  · exact Nat.le_of_eq (if_pos (by omega))

theorem ascii_of_isDigit {c : Char} (h : c.isDigit = true) : c.toNat < 0x80 := by
  have hlast : c ≤ '9' := (Bool.and_eq_true_iff.mp h).2 |> of_decide_eq_true
  exact Nat.lt_of_le_of_lt (show c.toNat ≤ '9'.toNat from hlast) (by decide)

theorem ascii_renditionCode {parameters : List Char} (h : ∀ c ∈ parameters, isRendition c = true) :
    ∀ c ∈ renditionCode parameters, c.toNat < 0x80 := by
  intro c hc
  rw [renditionCode, List.mem_append, List.mem_cons, List.mem_cons, List.mem_singleton] at hc
  rcases hc with (rfl | rfl | hparameter) | rfl
  · decide
  · decide
  · rcases Bool.or_eq_true_iff.mp (h c hparameter) with hdigit | hseparator
    · exact ascii_of_isDigit hdigit
    · rw [eq_of_beq hseparator]
      decide
  · decide

end ScriptRepl.Text

namespace ScriptRepl.Console

open Text (Coded IsPrinted columnsOf)

/-! ### Laying out -/

/-- Where a character takes the cursor, in columns from the beginning of the first row. -/
def advance (columns n : Nat) (c : Char) : Nat :=
  if Text.columns c = 2 ∧ n % columns + 1 = columns then n + 3 else n + Text.columns c

def layOut (columns n : Nat) (cs : List Char) : Nat :=
  cs.foldl (advance columns) n

/-- The columns that a text from the beginning of a row leaves free. -/
def spare (columns : Nat) (cs : List Char) : Nat :=
  layOut columns 0 cs - columnsOf cs

variable (columns : Nat)

@[simp] theorem layOut_cons (n : Nat) (c : Char) (cs : List Char) :
    layOut columns n (c :: cs) = layOut columns (advance columns n c) cs := rfl

theorem layOut_append (n : Nat) (cs ds : List Char) :
    layOut columns n (cs ++ ds) = layOut columns (layOut columns n cs) ds :=
  List.foldl_append ..

theorem le_advance (n : Nat) (c : Char) : n + Text.columns c ≤ advance columns n c := by
  unfold advance
  split <;> omega

theorem le_layOut (n : Nat) (cs : List Char) : n + columnsOf cs ≤ layOut columns n cs := by
  induction cs generalizing n with
  | nil => exact Nat.le_refl n
  | cons c cs ih =>
      have hc := le_advance columns n c
      have hcs := ih (advance columns n c)
      rw [layOut_cons, Text.columnsOf]
      omega

theorem layOut_eq (cs : List Char) : layOut columns 0 cs = columnsOf cs + spare columns cs := by
  have hle := le_layOut columns 0 cs
  unfold spare
  omega

/-- What comes behind a text takes no free column back. -/
theorem spare_le_append (cs ds : List Char) : spare columns cs ≤ spare columns (cs ++ ds) := by
  have hcs := layOut_eq columns cs
  have hds := le_layOut columns (layOut columns 0 cs) ds
  unfold spare at *
  rw [layOut_append, Text.columnsOf_append]
  omega

/-- In a row that is wide enough nothing is left free. -/
theorem layOut_of_lt {n : Nat} {cs : List Char} (h : n + columnsOf cs < columns) :
    layOut columns n cs = n + columnsOf cs := by
  induction cs generalizing n with
  | nil => rfl
  | cons c cs ih =>
      rw [Text.columnsOf] at h ⊢
      have hfits : advance columns n c = n + Text.columns c := by
        refine if_neg fun hwide => ?_
        rw [Nat.mod_eq_of_lt (by omega)] at hwide
        omega
      rw [layOut_cons, hfits, ih (by omega), Nat.add_assoc]

/-! ### The terminal -/

namespace Terminal

variable {P : Type}

/-- Draws a character over two columns. Its cell is at the second of them, where what has no width joins it. -/
def drawWide (t : Terminal P) (c : Char) : Terminal P :=
  let drawn := (t.change t.row t.col fun _ => none).change t.row (t.col + 1) fun _ => some { char := c, pen := t.pen }
  { drawn with col := min (t.col + 2) (t.columns - 1), wraps := t.col + 2 = t.columns }

def putWide (t : Terminal P) (c : Char) : Terminal P :=
  let t := t.wrap
  if t.col + 1 = t.columns then ({ t with row := t.row + 1, col := 0 } : Terminal P).drawWide c else t.drawWide c

variable (sgr : List Char → P → P)

def receiveWide (t : Terminal P) (c : Char) : Terminal P :=
  if t.reading = .plain ∧ Text.columns c = 2 then t.putWide c else t.receive sgr c

def writeWide (t : Terminal P) (cs : List Char) : Terminal P :=
  cs.foldl (receiveWide sgr) t

def runWide (t : Terminal P) (commands : List Command) : Terminal P :=
  commands.foldl (fun t command => t.writeWide sgr command.text.toList) t

variable {sgr} {t : Terminal P} {top n : Nat}

@[simp] theorem writeWide_cons (t : Terminal P) (c : Char) (cs : List Char) :
    t.writeWide sgr (c :: cs) = (t.receiveWide sgr c).writeWide sgr cs := rfl

theorem writeWide_append (t : Terminal P) (cs ds : List Char) :
    t.writeWide sgr (cs ++ ds) = (t.writeWide sgr cs).writeWide sgr ds :=
  List.foldl_append ..

theorem runWide_append (t : Terminal P) (commands more : List Command) :
    t.runWide sgr (commands ++ more) = (t.runWide sgr commands).runWide sgr more :=
  List.foldl_append ..

/-! Where no character is wide, the terminal is the one that knows of none. -/

theorem writeWide_eq_write {cs : List Char} (h : ∀ c ∈ cs, Text.columns c ≤ 1) (t : Terminal P) :
    t.writeWide sgr cs = t.write sgr cs := by
  induction cs generalizing t with
  | nil => rfl
  | cons c cs ih =>
      obtain ⟨hc, hcs⟩ := List.forall_mem_cons.mp h
      have hreceive : t.receiveWide sgr c = t.receive sgr c := if_neg fun hwide => by omega
      rw [writeWide_cons, write_cons, hreceive, ih hcs]

end Terminal

/-- No wide character is written. -/
def Command.Narrow (command : Command) : Prop :=
  ∀ c ∈ command.text.toList, Text.columns c ≤ 1

namespace Command

theorem narrow_of_ascii {command : Command} (h : ∀ c ∈ command.text.toList, c.toNat < 0x80) : command.Narrow :=
  fun c hc => Text.columns_le_one_of_ascii (h c hc)

/-- A control sequence with a count. -/
theorem ascii_sequence (n : Nat) (final : Char) (hfinal : final.toNat < 0x80) :
    ∀ c ∈ ("\x1b[" ++ toString n ++ String.ofList [final]).toList, c.toNat < 0x80 := by
  intro c hc
  simp only [String.toList_append, List.mem_append, Nat.toString_eq_ofList_toDigits, String.toList_ofList,
    List.mem_singleton] at hc
  rcases hc with (hfirst | hdigit) | rfl
  · exact (by simp : ∀ c ∈ "\x1b[".toList, c.toNat < 0x80) c hfirst
  · exact Text.ascii_of_isDigit (Nat.isDigit_of_mem_toDigits (by decide) (Nat.le_refl 10) hdigit)
  · exact hfinal

/-- All that is written but text. -/
theorem narrow {command : Command} (h : ∀ s, command ≠ print s) : command.Narrow := by
  cases command with
  | print s => exact absurd rfl (h s)
  | up rows => exact narrow_of_ascii (ascii_sequence (rows % 65536) 'A' (by decide))
  | column n => exact narrow_of_ascii (ascii_sequence (n % 65536 + 1) 'G' (by decide))
  | _ => exact narrow_of_ascii (by simp [text])

theorem narrow_newline : newline.Narrow :=
  narrow_of_ascii (by simp [newline, text])

end Command

namespace Terminal

variable {P : Type} {sgr : List Char → P → P} {t : Terminal P} {top n : Nat}

theorem runWide_eq_run {commands : List Command} (h : ∀ command ∈ commands, command.Narrow) (t : Terminal P) :
    t.runWide sgr commands = t.run sgr commands := by
  induction commands generalizing t with
  | nil => rfl
  | cons command commands ih =>
      obtain ⟨hcommand, hcommands⟩ := List.forall_mem_cons.mp h
      change (t.writeWide sgr command.text.toList).runWide sgr commands = _
      rw [writeWide_eq_write hcommand, ih hcommands, run_cons]

theorem stands_drawWide (top n : Nat) (hrow : t.row = top + n / t.columns) (hcol : t.col + 1 = n % t.columns) (c : Char) :
    (t.drawWide c).Stands top (n + 1) ∧ Keeps top t (t.drawWide c) := by
  have hdrawn : Keeps top t ((t.change t.row t.col fun _ => none).change t.row (t.col + 1)
      fun _ => some { char := c, pen := t.pen }) :=
    (Keeps.change (hrow ▸ Nat.le_add_right ..) _ _).trans (.change (hrow ▸ Nat.le_add_right ..) _ _)
  refine ⟨⟨hrow, ?_, ?_⟩, ⟨rfl, id, hdrawn.above⟩⟩
  · exact congrArg (fun col => min (col + 1) (t.columns - 1)) hcol
  · exact congrArg (fun col => decide (col + 1 = t.columns)) hcol

/-- A wide character takes the next two columns, or the first two of the next row. -/
theorem Stands.putWide (h : t.Stands top n) (hcolumns : 2 ≤ t.columns) {c : Char} (hc : Text.columns c = 2) :
    (t.putWide c).Stands top (advance t.columns n c) ∧ Keeps top t (t.putWide c) := by
  have hpos : 0 < t.columns := by omega
  unfold Terminal.putWide advance
  rw [h.wrap hpos]
  dsimp only
  rcases succ_div_mod n hpos with ⟨hfull, hdiv, hmod⟩ | ⟨hfree, hdiv, hmod⟩
  · rw [if_pos hfull, if_pos ⟨hc, hfull⟩]
    have hsecond : (n + 2) / t.columns = n / t.columns + 1 ∧ (n + 2) % t.columns = 1 := by
      rcases succ_div_mod (n + 1) hpos with ⟨hfull', -, -⟩ | ⟨-, hdiv', hmod'⟩
      · omega
      · exact ⟨hdiv'.trans hdiv, by rw [hmod', hmod]⟩
    obtain ⟨hstands, hkeeps⟩ := stands_drawWide top (n + 2)
      (t := { t with row := top + n / t.columns + 1, col := 0, wraps := false })
      (by simp only [hsecond.1]; rfl) (by simp only [hsecond.2]) c
    exact ⟨hstands, ⟨hkeeps.columns, hkeeps.reading, hkeeps.above⟩⟩
  · rw [if_neg (by omega), if_neg (by omega), hc]
    obtain ⟨hstands, hkeeps⟩ := stands_drawWide top (n + 1)
      (t := { t with row := top + n / t.columns, col := n % t.columns, wraps := false })
      (by simp only [hdiv]) (by simp only [hmod]) c
    exact ⟨hstands, ⟨hkeeps.columns, hkeeps.reading, hkeeps.above⟩⟩

theorem Stands.receiveWide (h : t.Stands top n) (hcolumns : 2 ≤ t.columns) (hreading : t.reading = .plain) {c : Char}
    (hc : IsPrinted c) :
    (t.receiveWide sgr c).Stands top (advance t.columns n c) ∧ Keeps top t (t.receiveWide sgr c) := by
  unfold Terminal.receiveWide
  by_cases hwide : Text.columns c = 2
  · rw [if_pos ⟨hreading, hwide⟩]
    exact h.putWide hcolumns hwide
  · have hplain : Text.IsPlain c := by
      have hle := hc.columns
      exact ⟨hc.control, by omega⟩
    have hone : Text.Styled [c] [c] := .shown hplain .nil
    have hwritten : (t.write sgr [c]).Stands top (n + columnsOf [c]) ∧ Keeps top t (t.write sgr [c]) :=
      h.write (by omega) hreading hone
    rw [if_neg (fun hboth => hwide hboth.2), advance, if_neg (fun hboth => hwide hboth.1)]
    simpa [Text.columnsOf] using hwritten

/-- A line takes the cursor to where it is laid out to. -/
theorem Stands.writeWide {line text : List Char} (h : t.Stands top n) (hcolumns : 2 ≤ t.columns)
    (hreading : t.reading = .plain) (hline : Coded IsPrinted line text) :
    (t.writeWide sgr line).Stands top (layOut t.columns n text) ∧ Keeps top t (t.writeWide sgr line) := by
  induction hline generalizing t n with
  | nil => exact ⟨h, .refl _ _⟩
  | code hparameters _ ih =>
      rw [writeWide_append,
        writeWide_eq_write fun c hc => Text.columns_le_one_of_ascii (Text.ascii_renditionCode hparameters c hc),
        write_code hparameters hreading]
      obtain ⟨hstands, hkeeps⟩ := ih (t := { t with pen := sgr _ t.pen }) (h.congr rfl rfl rfl rfl) hcolumns hreading
      exact ⟨hstands, ⟨hkeeps.columns, hkeeps.reading, hkeeps.above⟩⟩
  | @shown c line text hc _ ih =>
      have hstep : (t.receiveWide sgr c).Stands top (advance t.columns n c) ∧ Keeps top t (t.receiveWide sgr c) :=
        h.receiveWide hcolumns hreading hc
      obtain ⟨hstands, hkeeps⟩ := hstep
      obtain ⟨hends, hrest⟩ := ih hstands (hkeeps.columns ▸ hcolumns) (hkeeps.reading hreading)
      rw [hkeeps.columns] at hends
      exact ⟨hends, hkeeps.trans hrest⟩

end Terminal

end ScriptRepl.Console
