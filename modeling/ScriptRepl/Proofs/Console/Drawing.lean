import ScriptRepl.Proofs.Console.Repaint
import ScriptRepl.Proofs.Syntax.Highlighting

/-! What writing leaves on a terminal. A text without escape characters draws between the row of the cursor and the row
on which it ends, and erases nothing; a line fills its columns without a gap. -/
namespace ScriptRepl.Console

open Text (Plain Styled Unescaped displayWidth columnsOf)

namespace Terminal

variable {P : Type} {sgr : List Char → P → P} {t t' t'' : Terminal P}

/-- Something is drawn at the place. -/
def Shows (t : Terminal P) (row col : Nat) : Prop :=
  (t.cells row col).isSome = true

theorem shows_change {row col : Nat} {f : Option (Cell P) → Option (Cell P)}
    (hf : ∀ cell, cell.isSome → (f cell).isSome)
    {r c : Nat} (h : t.Shows r c) : (t.change row col f).Shows r c := by
  change (if r = row ∧ c = col then f (t.cells r c) else t.cells r c).isSome = true
  split
  · exact hf _ h
  · exact h

/-! ### Texts without escape characters -/

/-- The cursor has gone down, or has stayed in its row, and there is a change only in rows that it was in. -/
structure Draws (t t' : Terminal P) : Prop where
  columns : t'.columns = t.columns
  reading : t.reading = .plain → t'.reading = .plain
  row_le : t.row ≤ t'.row
  elsewhere : ∀ r, r < t.row ∨ t'.row < r → t'.cells r = t.cells r
  stays : ∀ {r c}, t.Shows r c → t'.Shows r c

namespace Draws

theorem refl (t : Terminal P) : Draws t t := ⟨rfl, id, Nat.le_refl _, fun _ _ => rfl, id⟩

theorem trans (h : Draws t t') (h' : Draws t' t'') : Draws t t'' where
  columns := h'.columns.trans h.columns
  reading := h'.reading ∘ h.reading
  row_le := Nat.le_trans h.row_le h'.row_le
  elsewhere r hr := by
    have hrow := h.row_le
    have hrow' := h'.row_le
    rw [h'.elsewhere r (by omega), h.elsewhere r (by omega)]
  stays := h'.stays ∘ h.stays

/-- A change in the row of the cursor. -/
theorem change (t : Terminal P) (col : Nat) {f : Option (Cell P) → Option (Cell P)}
    (hf : ∀ cell, cell.isSome → (f cell).isSome) : Draws t (t.change t.row col f) where
  columns := rfl
  reading := id
  row_le := Nat.le_refl _
  elsewhere r hr := by
    change r < t.row ∨ t.row < r at hr
    funext c
    exact if_neg (by omega)
  stays := shows_change hf

theorem wrap (t : Terminal P) : Draws t t.wrap := by
  unfold Terminal.wrap
  split
  · exact ⟨rfl, id, Nat.le_succ _, fun _ _ => rfl, id⟩
  · exact .refl t

theorem put (t : Terminal P) (c : Char) : Draws t (t.put c) := by
  have hdrawn := change t.wrap t.wrap.col (f := fun _ => some { char := c, pen := t.wrap.pen }) fun _ _ => rfl
  have h := (wrap t).trans hdrawn
  exact ⟨h.columns, h.reading, h.row_le, h.elsewhere, h.stays⟩

theorem join (t : Terminal P) (c : Char) : Draws t (t.join c) := by
  have hjoined : ∀ col, Draws t
      (t.change t.row col (Option.map fun cell => { cell with marks := cell.marks ++ [c] })) := fun col =>
    change t col fun cell hcell => by simpa using hcell
  unfold Terminal.join
  dsimp only
  split
  · exact hjoined _
  · split
    · exact hjoined _
    · exact .refl t

theorem receive {c : Char} (hc : c ≠ '\x1b') (hreading : t.reading = .plain) : Draws t (t.receive sgr c) := by
  unfold Terminal.receive
  rw [hreading]
  dsimp only
  rw [if_neg hc]
  split
  · exact ⟨rfl, fun _ => rfl, Nat.le_refl _, fun _ _ => rfl, id⟩
  · split
    · exact ⟨rfl, fun _ => rfl, Nat.le_succ _, fun _ _ => rfl, id⟩
    · split
      · exact .refl t
      · split
        · exact join t c
        · exact put t c

theorem write {cs : List Char} (hcs : Unescaped cs) (hreading : t.reading = .plain) : Draws t (t.write sgr cs) := by
  induction cs generalizing t with
  | nil => exact .refl t
  | cons c cs ih =>
      obtain ⟨hc, hcs⟩ := List.forall_mem_cons.mp hcs
      have hfirst : Draws t (t.receive sgr c) := receive hc hreading
      exact hfirst.trans (ih hcs (hfirst.reading hreading))

end Draws

theorem write_newline (hreading : t.reading = .plain) :
    t.write sgr ['\r', '\n'] = { t with row := t.row + 1, col := 0, wraps := false } := by
  simp [receive, hreading]

/-- A line draws something where the cursor is at the beginning of a row, if it has a column. -/
theorem shows_write_plain {line : List Char} {row : Nat} (hrests : t.Rests row 0) (hreading : t.reading = .plain)
    (hline : ∀ c ∈ line, Text.IsPlain c) (hcolumns : 0 < columnsOf line) : (t.write sgr line).Shows row 0 := by
  induction line generalizing t with
  | nil => cases hcolumns
  | cons c line ih =>
      obtain ⟨hc, hline⟩ := List.forall_mem_cons.mp hline
      rw [write_cons, receive_plain hc hreading]
      by_cases hzero : Text.columns c = 0
      · have hjoin : t.join c = t := by simp [join, hrests.wraps, hrests.col]
        rw [columnsOf, hzero, Nat.zero_add] at hcolumns
        rw [if_pos hzero, hjoin]
        exact ih hrests hreading hline hcolumns
      · have hwrap : t.wrap = t := by simp [wrap, hrests.wraps]
        have hput : (t.put c).Shows row 0 := by
          change (((t.wrap.change t.wrap.row t.wrap.col fun _ =>
            some { char := c, pen := t.wrap.pen }).cells row 0).isSome) =
            true
          rw [hwrap, ← hrests.row, ← hrests.col]
          simp [change]
        rw [if_neg hzero]
        exact (Draws.write (fun d hd => (hline d hd).ne_escape) ((Draws.put t c).reading hreading)).stays hput

/-! ### Lines -/

/-- From row `top` on, the first `n` places show something and no others. -/
def Inked (t : Terminal P) (top n : Nat) : Prop :=
  ∀ r c, top ≤ r → (t.Shows r c ↔ c < t.columns ∧ (r - top) * t.columns + c < n)

namespace Inked

variable {top n : Nat}

theorem congr (h : t.Inked top n) (hcells : t'.cells = t.cells) (hcolumns : t'.columns = t.columns) :
    t'.Inked top n := by
  intro r c hr
  rw [Shows, hcells, hcolumns]
  exact h r c hr

theorem change_map (h : t.Inked top n) (row col : Nat) {f : Cell P → Cell P} :
    (t.change row col (Option.map f)).Inked top n := by
  intro r c hr
  refine Iff.trans ?_ (h r c hr)
  change (if r = row ∧ c = col then (t.cells r c).map f else t.cells r c).isSome = true ↔ (t.cells r c).isSome = true
  split
  · rw [Option.isSome_map]
  · exact Iff.rfl

theorem join (h : t.Inked top n) (c : Char) : (t.join c).Inked top n := by
  unfold Terminal.join
  dsimp only
  split
  · exact h.change_map _ _
  · split
    · exact h.change_map _ _
    · exact h

/-- The next place is the one behind the last. -/
theorem put (h : t.Inked top n) (hstands : t.Stands top n) (hcolumns : 0 < t.columns) (d : Char) :
    (t.put d).Inked top (n + 1) := by
  unfold Terminal.put
  rw [hstands.wrap hcolumns]
  intro r c hr
  have hplace := h r c hr
  have hlast : r = top + n / t.columns ∧ c = n % t.columns ↔ c < t.columns ∧ (r - top) * t.columns + c = n := by
    have hunique := Nat.div_mod_unique (a := n) (c := c) (d := r - top) hcolumns
    rw [Nat.mul_comm, Nat.add_comm c] at hunique
    constructor
    · rintro ⟨hrow, hcol⟩
      obtain ⟨heq, hlt⟩ := hunique.mp ⟨by omega, hcol.symm⟩
      exact ⟨hlt, heq⟩
    · rintro ⟨hlt, heq⟩
      obtain ⟨hrow, hcol⟩ := hunique.mpr ⟨heq, hlt⟩
      exact ⟨by omega, hcol.symm⟩
  change (if r = top + n / t.columns ∧ c = n % t.columns then some (_ : Cell P) else t.cells r c).isSome = true ↔
    c < t.columns ∧ (r - top) * t.columns + c < n + 1
  by_cases hhere : r = top + n / t.columns ∧ c = n % t.columns
  · obtain ⟨hlt, heq⟩ := hlast.mp hhere
    rw [if_pos hhere]
    simp [hlt, heq]
  · rw [if_neg hhere]
    change t.Shows r c ↔ _
    rw [hplace]
    refine and_congr_right fun hlt => ?_
    have hne : (r - top) * t.columns + c ≠ n := fun heq => hhere (hlast.mpr ⟨hlt, heq⟩)
    omega

theorem write {line text : List Char} (h : t.Inked top n) (hstands : t.Stands top n) (hcolumns : 0 < t.columns)
    (hreading : t.reading = .plain) (hline : Styled line text) :
    (t.write sgr line).Inked top (n + columnsOf text) := by
  induction hline generalizing t n with
  | nil => exact h
  | code hparameters _ ih =>
      rw [write_append, write_code hparameters hreading]
      exact ih (t := { t with pen := sgr _ t.pen }) (h.congr rfl rfl) (hstands.congr rfl rfl rfl rfl) hcolumns hreading
  | @shown c line text hc _ ih =>
      rw [write_cons, receive_plain hc hreading, columnsOf]
      by_cases hzero : Text.columns c = 0
      · obtain ⟨hjoined, hkeeps⟩ := hstands.join c
        rw [if_pos hzero, hzero, Nat.zero_add]
        exact ih (h.join c) hjoined (hkeeps.columns ▸ hcolumns) (hkeeps.reading hreading)
      · have hone : Text.columns c = 1 := by
          have hle := hc.columns
          omega
        obtain ⟨hput, hkeeps⟩ := hstands.put hcolumns c
        rw [if_neg hzero, hone, ← Nat.add_assoc]
        exact ih (h.put hstands hcolumns c) hput (hkeeps.columns ▸ hcolumns) (hkeeps.reading hreading)

/-- The last row that shows something is the one of the last place. -/
theorem rows_le_iff (h : t.Inked top n) (hcolumns : 0 < t.columns) (row : Nat) :
    (∀ r c, top ≤ r → t.Shows r c → r ≤ top + row) ↔ (n - 1) / t.columns ≤ row := by
  constructor
  · intro hrows
    by_cases hn : n = 0
    · rw [hn, Nat.zero_sub, Nat.zero_div]
      exact Nat.zero_le _
    · have hplace : t.Shows (top + (n - 1) / t.columns) ((n - 1) % t.columns) := by
        refine (h _ _ (Nat.le_add_right ..)).mpr ⟨Nat.mod_lt _ hcolumns, ?_⟩
        have hsum := Nat.div_add_mod' (n - 1) t.columns
        rw [Nat.add_sub_cancel_left]
        omega
      have hle := hrows _ _ (Nat.le_add_right ..) hplace
      omega
  · intro hrow r c hr hshows
    obtain ⟨_, hplace⟩ := (h r c hr).mp hshows
    have hle : r - top ≤ (n - 1) / t.columns := by
      rw [Nat.le_div_iff_mul_le hcolumns]
      omega
    omega

end Inked

end Terminal

end ScriptRepl.Console
