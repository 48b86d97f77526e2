import ScriptRepl.Text.Escape
import ScriptRepl.Text.Style

/-! Lines whose characters take one column or none, with sequences between them that change the rendition. Such a
sequence is one piece of the line, so that painting and underlining add no column. -/
namespace ScriptRepl.Text

def isControl (c : Char) : Bool :=
  c.toNat < 0x20 || (0x7f ≤ c.toNat && c.toNat ≤ 0x9f)

/-- A character that takes a column, or joins the one before it. -/
structure IsPlain (c : Char) : Prop where
  control : isControl c = false
  columns : columns c ≤ 1

instance (c : Char) : Decidable (IsPlain c) :=
  decidable_of_iff (isControl c = false ∧ columns c ≤ 1) ⟨fun h => ⟨h.1, h.2⟩, fun h => ⟨h.control, h.columns⟩⟩

def Plain (s : String) : Prop :=
  ∀ c ∈ s.toList, IsPlain c

instance (s : String) : Decidable (Plain s) :=
  List.decidableBAll IsPlain s.toList

theorem Plain.append {s s' : String} (h : Plain s) (h' : Plain s') : Plain (s ++ s') := by
  intro c hc
  rw [String.toList_append, List.mem_append] at hc
  exact hc.elim (h c) (h' c)

def isRendition (c : Char) : Bool :=
  c.isDigit || c == ';'

/-- A sequence that changes the rendition. -/
def renditionCode (parameters : List Char) : List Char :=
  '\x1b' :: '[' :: parameters ++ ['m']

/-- The first text is the second one with sequences that change the rendition. -/
inductive Styled : List Char → List Char → Prop where
  | nil : Styled [] []
  | shown {c : Char} {line text : List Char} (hc : IsPlain c) (hrest : Styled line text) :
      Styled (c :: line) (c :: text)
  | code {parameters line text : List Char} (hparameters : ∀ c ∈ parameters, isRendition c = true)
      (hrest : Styled line text) : Styled (renditionCode parameters ++ line) text

/-- The same for a text of whatever characters. -/
inductive Coded (p : Char → Prop) : List Char → List Char → Prop where
  | nil : Coded p [] []
  | shown {c : Char} {line text : List Char} (hc : p c) (hrest : Coded p line text) : Coded p (c :: line) (c :: text)
  | code {parameters line text : List Char} (hparameters : ∀ c ∈ parameters, isRendition c = true)
      (hrest : Coded p line text) : Coded p (renditionCode parameters ++ line) text

namespace Coded

variable {p q : Char → Prop} {line text line' text' : List Char}

theorem plain (h : ∀ c ∈ text, p c) : Coded p text text := by
  induction text with
  | nil => exact .nil
  | cons c text ih => exact .shown (h c (List.mem_cons_self ..)) (ih fun d hd => h d (List.mem_cons_of_mem c hd))

theorem append (h : Coded p line text) (h' : Coded p line' text') : Coded p (line ++ line') (text ++ text') := by
  induction h with
  | nil => exact h'
  | shown hc _ ih => exact .shown hc ih
  | code hparameters _ ih =>
      rw [List.append_assoc]
      exact .code hparameters ih

theorem forall_mem (h : Coded p line text) : ∀ c ∈ text, p c := by
  induction h with
  | nil => simp
  | shown hc _ ih => exact List.forall_mem_cons.mpr ⟨hc, ih⟩
  | code _ _ ih => exact ih

theorem mono (hpq : ∀ c, p c → q c) (h : Coded p line text) : Coded q line text := by
  induction h with
  | nil => exact .nil
  | shown hc _ ih => exact .shown (hpq _ hc) ih
  | code hparameters _ ih => exact .code hparameters ih

end Coded

namespace Styled

variable {line text line' text' : List Char}

theorem iff_coded : Styled line text ↔ Coded IsPlain line text where
  mp h := by
    induction h with
    | nil => exact .nil
    | shown hc _ ih => exact .shown hc ih
    | code hparameters _ ih => exact .code hparameters ih
  mpr h := by
    induction h with
    | nil => exact .nil
    | shown hc _ ih => exact .shown hc ih
    | code hparameters _ ih => exact .code hparameters ih

theorem plain (h : ∀ c ∈ text, IsPlain c) : Styled text text :=
  iff_coded.mpr (.plain h)

theorem append (h : Styled line text) (h' : Styled line' text') : Styled (line ++ line') (text ++ text') :=
  iff_coded.mpr ((iff_coded.mp h).append (iff_coded.mp h'))

/-- A sequence between two parts of a line. -/
theorem insert {parameters : List Char} (h : Styled line text) (hparameters : ∀ c ∈ parameters, isRendition c = true)
    (h' : Styled line' text') : Styled (line ++ (renditionCode parameters ++ line')) (text ++ text') :=
  h.append (.code hparameters h')

theorem isPlain (h : Styled line text) : ∀ c ∈ text, IsPlain c :=
  (iff_coded.mp h).forall_mem

end Styled

/-! ### Pieces -/

theorem IsPlain.ne_escape {c : Char} (h : IsPlain c) : c ≠ '\x1b' := by
  rintro rfl
  cases h.control

theorem pieces_cons_of_ne {c : Char} (h : c ≠ '\x1b') (cs : List Char) : pieces (c :: cs) = .shown c :: pieces cs := by
  have hnone : Escape.lengthPred? (c :: cs) = none := by
    unfold Escape.lengthPred?
    split <;> simp_all
  rw [pieces, hnone]

theorem isParameter_of_isRendition {c : Char} (h : isRendition c = true) : Escape.isParameter c = true := by
  unfold isRendition at h
  simp [Escape.isParameter, h]

theorem pieces_renditionCode {parameters : List Char} (h : ∀ c ∈ parameters, isRendition c = true) (cs : List Char) :
    pieces (renditionCode parameters ++ cs) = .code (renditionCode parameters) :: pieces cs := by
  have hlength : Escape.controlLength? (parameters ++ 'm' :: cs) = some (parameters.length + 1) := by
    have htake : (parameters ++ 'm' :: cs).takeWhile Escape.isParameter = parameters := by
      rw [List.takeWhile_append_of_pos fun c hc => isParameter_of_isRendition (h c hc)]
      simp [Escape.isParameter]
    unfold Escape.controlLength?
    rw [htake]
    simp [Escape.isIntermediate, Escape.isFinal]
  have hpred : Escape.lengthPred? ('\x1b' :: '[' :: (parameters ++ 'm' :: cs)) = some (parameters.length + 2) := by
    simp [Escape.lengthPred?, hlength]
  rw [show renditionCode parameters ++ cs = '\x1b' :: '[' :: (parameters ++ 'm' :: cs) by simp [renditionCode], pieces,
    hpred]
  have htake : (parameters ++ 'm' :: cs).take (parameters.length + 1) = parameters ++ ['m'] := by
    rw [List.take_append, List.take_of_length_le (by omega)]
    simp
  simp [renditionCode, htake]

theorem Coded.visible_eq {p : Char → Prop} {line text : List Char} (hp : ∀ c, p c → c ≠ '\x1b')
    (h : Coded p line text) : visible line = text := by
  unfold visible
  induction h with
  | nil => simp [pieces]
  | shown hc _ ih => simp [pieces_cons_of_ne (hp _ hc), Piece.shown?, ih]
  | code hparameters _ ih => rw [pieces_renditionCode hparameters, List.filterMap_cons_none rfl, ih]

theorem Styled.visible_eq {line text : List Char} (h : Styled line text) : visible line = text :=
  (iff_coded.mp h).visible_eq fun _ hc => hc.ne_escape

theorem Styled.displayWidth_eq {line : String} {text : List Char} (h : Styled line.toList text) :
    displayWidth line = columnsOf text := by
  rw [displayWidth, h.visible_eq]

/-! ### Painting and underlining -/

theorem Styled.resetForeground : Styled Style.resetForeground.toList [] :=
  .code (show ∀ c ∈ ['3', '9'], isRendition c = true by simp [isRendition]) .nil

theorem Styled.foreground (c : Color) : Styled (Style.foreground c).toList [] := by
  unfold Style.foreground
  split
  · rename_i n _
    have hcode : ("\x1b[38;5;" ++ toString n ++ "m").toList = renditionCode ("38;5;".toList ++ Nat.toDigits 10 n) := by
      simp [renditionCode]
    rw [hcode, ← List.append_nil (renditionCode _)]
    refine .code ?_ .nil
    intro c hc
    rcases List.mem_append.mp hc with hpalette | hdigit
    · exact (by simp [isRendition] : ∀ c ∈ "38;5;".toList, isRendition c = true) c hpalette
    · simp [isRendition, Nat.isDigit_of_mem_toDigits (by decide) (Nat.le_refl 10) hdigit]
  · exact resetForeground

theorem Styled.paint {line : String} {text : List Char} (h : Styled line.toList text) (c : Color) :
    Styled (Style.paint c line).toList text := by
  have hpainted := ((foreground c).append h).append resetForeground
  simpa [Style.paint] using hpainted

theorem Styled.between {line text : List Char} (h : Styled line text) (first last n : Nat) (on : Bool) :
    Styled (Underline.between first last n on (pieces line)) text := by
  have hstart : ∀ {l t : List Char} (b : Bool), Styled l t → Styled ((if b then Underline.start else []) ++ l) t := by
    intro l t b hl
    cases b with
    | false => exact hl
    | true => exact .code (show ∀ c ∈ ['4'], isRendition c = true by simp [isRendition]) hl
  have hstop : ∀ {l t : List Char} (b : Bool), Styled l t → Styled ((if b then Underline.stop else []) ++ l) t := by
    intro l t b hl
    cases b with
    | false => exact hl
    | true => exact .code (show ∀ c ∈ ['2', '4'], isRendition c = true by simp [isRendition]) hl
  induction h generalizing n on with
  | nil =>
      rw [pieces, Underline.between, ← List.append_nil (if on = true then _ else _)]
      exact hstop on .nil
  | shown hc _ ih =>
      rw [pieces_cons_of_ne hc.ne_escape, Underline.between, List.append_assoc]
      exact hstart _ (hstop _ (.shown hc (ih _ _)))
  | code hparameters _ ih =>
      rw [pieces_renditionCode hparameters, Underline.between, List.append_assoc]
      exact .code hparameters (hstart _ (ih _ _))

theorem Styled.underline {line : String} {text : List Char} (h : Styled line.toList text) (needle : String) :
    Styled (Text.underline needle line).toList text := by
  unfold Text.underline
  split
  · exact h
  · split
    · exact h
    · rw [String.toList_ofList]
      exact h.between _ _ _ _

/-! ### Cutting -/

theorem columnsOf_append (cs ds : List Char) : columnsOf (cs ++ ds) = columnsOf cs + columnsOf ds := by
  induction cs with
  | nil => simp [columnsOf]
  | cons c cs ih => simp [columnsOf, ih, Nat.add_assoc]

theorem isPrefix_fitting (room : Nat) (cs : List Char) : fitting room cs <+: cs := by
  induction cs generalizing room with
  | nil => exact List.prefix_rfl
  | cons c cs ih =>
      unfold fitting
      split
      · exact (List.prefix_cons_inj c).mpr (ih _)
      · exact List.nil_prefix

theorem columnsOf_fitting_le (room : Nat) (cs : List Char) : columnsOf (fitting room cs) ≤ room := by
  induction cs generalizing room with
  | nil => exact Nat.zero_le _
  | cons c cs ih =>
      unfold fitting
      split
      · rename_i hfits
        have hrest := ih (room - columns c)
        rw [columnsOf]
        omega
      · exact Nat.zero_le _

theorem Plain.displayWidth_eq {s : String} (h : Plain s) : displayWidth s = columnsOf s.toList :=
  (Styled.plain h).displayWidth_eq

/-- What is kept is of the text, but for the mark. -/
theorem mem_truncate {room : Nat} {s : String} {c : Char} (hc : c ∈ (truncate room s).toList) :
    c ∈ s.toList ∨ c = '…' := by
  unfold truncate at hc
  split at hc
  · exact .inl hc
  · split at hc
    · exact absurd hc (by simp)
    · rw [String.toList_ofList, List.mem_append] at hc
      rcases hc with hkept | hmark
      · exact .inl ((isPrefix_fitting _ _).subset hkept)
      · exact .inr (List.mem_singleton.mp hmark)

theorem columns_ellipsis : columns '…' = 1 := by
  decide +kernel

theorem columnsOf_truncate_le {s : String} (h : displayWidth s = columnsOf s.toList) (room : Nat) :
    columnsOf (truncate room s).toList ≤ room := by
  unfold truncate
  split
  · rename_i hfits
    exact h ▸ hfits
  · split
    · simp [columnsOf]
    · rename_i hroom
      have hkept := columnsOf_fitting_le (room - 1) s.toList
      have hmark : columnsOf ['…'] = 1 := by rw [columnsOf, columns_ellipsis, columnsOf]
      rw [String.toList_ofList, columnsOf_append, hmark]
      omega

theorem Plain.truncate {s : String} (h : Plain s) (room : Nat) :
    Plain (truncate room s) ∧ columnsOf (truncate room s).toList ≤ room := by
  refine ⟨fun c hc => ?_, columnsOf_truncate_le h.displayWidth_eq room⟩
  rcases mem_truncate hc with hkept | rfl
  · exact h c hkept
  · exact ⟨by decide, Nat.le_of_eq columns_ellipsis⟩

end ScriptRepl.Text
