import ScriptRepl.Proofs.Text.EscapeSequence
import ScriptRepl.Proofs.Text.Occurrence
import ScriptRepl.Proofs.Text.Rendition

/-! Underlining a match. The line keeps its pieces, and what comes in between are sequences that switch underlining on
and off; where a sequence of the line switches it off inside the match, it is on again behind it. So the characters of
the first occurrence are underlined and no others are, and they are drawn as before in all else. -/
namespace ScriptRepl.Text

namespace Underline

/-! ### The line piece by piece -/

/-- What switches underlining. -/
def Switches (code : List Char) : Prop :=
  code = start ∨ code = stop

/-- The pieces of the underlined line. -/
def marks (first last : Nat) : (n : Nat) → (on : Bool) → List Piece → List Piece
  | _, on, [] => if on then [.code stop] else []
  | n, on, .code code :: ps => .code code :: ((if on then [.code start] else []) ++ marks first last n on ps)
  | n, on, .shown c :: ps =>
    let opens := n == first && !on
    let closes := n == last && (on || opens)
    (if opens then [.code start] else []) ++ ((if closes then [.code stop] else []) ++
      .shown c :: marks first last (n + 1) ((on || opens) && !closes) ps)

variable {first last n : Nat} {on : Bool} {ps : List Piece}

theorem flatMap_text_ite (b : Bool) (code : List Char) :
    (if b then [Piece.code code] else []).flatMap Piece.text = if b then code else [] := by
  cases b with
  | false => rfl
  | true => exact List.append_nil code

theorem flatMap_text_marks (first last n : Nat) (on : Bool) (ps : List Piece) :
    (marks first last n on ps).flatMap Piece.text = between first last n on ps := by
  induction ps generalizing n on with
  | nil => exact flatMap_text_ite on stop
  | cons p ps ih =>
      cases p with
      | code code =>
          rw [marks, between, List.flatMap_cons, List.flatMap_append, flatMap_text_ite, ih, List.append_assoc]
          rfl
      | shown c =>
          rw [marks, between, List.flatMap_append, List.flatMap_append, flatMap_text_ite, flatMap_text_ite, List.flatMap_cons, ih,
            List.append_assoc]
          rfl

theorem interspersed_ite (b : Bool) {code : List Char} (hcode : Switches code) {line out : List Piece}
    (h : Interspersed Switches line out) : Interspersed Switches line ((if b then [.code code] else []) ++ out) := by
  cases b with
  | false => exact h
  | true => exact .add hcode h

theorem interspersed_marks (first last n : Nat) (on : Bool) (ps : List Piece) :
    Interspersed Switches ps (marks first last n on ps) := by
  induction ps generalizing n on with
  | nil =>
      rw [marks, ← List.append_nil (ite ..)]
      exact interspersed_ite on (.inr rfl) .nil
  | cons p ps ih =>
      cases p with
      | code code => exact .keep _ (interspersed_ite on (.inl rfl) (ih n on))
      | shown c => exact interspersed_ite _ (.inl rfl) (interspersed_ite _ (.inr rfl) (.keep _ (ih _ _)))

theorem Switches.exists_parameters {code : List Char} (h : Switches code) :
    ∃ ps, code = renditionCode ps ∧ ∀ c ∈ ps, isRendition c = true := by
  rcases h with rfl | rfl
  · exact ⟨['4'], rfl, by simp [isRendition]⟩
  · exact ⟨['2', '4'], rfl, by simp [isRendition]⟩

/-- The underlined line is read as the pieces it was made of. -/
theorem pieces_between (first last n : Nat) (on : Bool) (cs : List Char) :
    pieces (between first last n on (pieces cs)) = marks first last n on (pieces cs) := by
  rw [← flatMap_text_marks]
  exact (interspersed_marks first last n on _).asRead (fun _ hcode => hcode.exists_parameters) (asRead_pieces cs)

/-! ### How it is drawn -/

theorem after_start (pen : Pen) : pen.after start = pen.ruled true := by
  have hcode : Change.ofCode start = [.underline true] := by decide
  rw [Pen.after, hcode]
  rfl

theorem after_stop (pen : Pen) : pen.after stop = pen.ruled false := by
  have hcode : Change.ofCode stop = [.underline false] := by decide
  rw [Pen.after, hcode]
  rfl

/-- Underlining starts at the first character of the match and at no other, and it stops behind the last one. -/
theorem marks_shown (hlast : first < last) (c : Char) (ps : List Piece) :
    marks first last n (decide (first < n ∧ n ≤ last)) (.shown c :: ps) =
      (if n = first then [.code start] else []) ++ ((if n = last then [.code stop] else []) ++
        .shown c :: marks first last (n + 1) (decide (first ≤ n ∧ n < last)) ps) := by
  have hopens : (n == first && !decide (first < n ∧ n ≤ last)) = decide (n = first) := by
    rw [Bool.eq_iff_iff]
    simp
    omega
  have hcloses : (n == last && (decide (first < n ∧ n ≤ last) || decide (n = first))) = decide (n = last) := by
    rw [Bool.eq_iff_iff]
    simp
    omega
  have hnext : ((decide (first < n ∧ n ≤ last) || decide (n = first)) && !decide (n = last)) =
      decide (first ≤ n ∧ n < last) := by
    rw [Bool.eq_iff_iff]
    simp
    omega
  rw [marks, hopens, hcloses, hnext]
  simp only [decide_eq_true_eq]

theorem drawn_switched (hlast : first < last) (pen : Pen) (n : Nat) (ps : List Piece) :
    drawn (pen.ruled (decide (first < n ∧ n ≤ last)))
        ((if n = first then [.code start] else []) ++ ((if n = last then [.code stop] else []) ++ ps)) =
      drawn (pen.ruled (decide (first ≤ n ∧ n < last))) ps := by
  by_cases hfirst : n = first
  · subst hfirst
    simp [hlast, hlast.ne, drawn, after_start]
  · by_cases hend : n = last
    · subst hend
      simp [hlast.ne', drawn, after_stop]
    · have hsame : (first < n ∧ n ≤ last) ↔ first ≤ n ∧ n < last := by omega
      simp [hfirst, hend, hsame]

theorem drawn_marks (hlast : first < last) (hps : ∀ code, .code code ∈ ps → .underline true ∉ Change.ofCode code)
    (hon : on = decide (first < n ∧ n ≤ last)) (pen : Pen) :
    drawn (pen.ruled on) (marks first last n on ps) =
      (drawn pen ps).mapIdx fun i (c, pen) => (c, pen.ruled (decide (first ≤ n + i ∧ n + i < last))) := by
  induction ps generalizing n on pen with
  | nil => cases on <;> rfl
  | cons p ps ih =>
      have hrest : ∀ code, .code code ∈ ps → .underline true ∉ Change.ofCode code :=
        fun code hcode => hps code (List.mem_cons_of_mem _ hcode)
      cases p with
      | code code =>
          have hpen : drawn (pen.ruled on) (marks first last n on (.code code :: ps)) =
              drawn ((pen.after code).ruled on) (marks first last n on ps) := by
            cases on with
            | false =>
                have hoff : ((pen.ruled false).after code).underlined = false :=
                  Pen.not_underlined_change (hps code List.mem_cons_self) rfl
                have hafter := Pen.ruled_after pen code false ((pen.ruled false).after code).underlined
                rw [Pen.ruled_underlined, hoff] at hafter
                rw [← hafter]
                rfl
            | true =>
                rw [← Pen.ruled_after pen code true true, ← after_start]
                rfl
          rw [hpen, ih hrest hon, drawn]
      | shown c =>
          have hnext : decide (first ≤ n ∧ n < last) = decide (first < n + 1 ∧ n + 1 ≤ last) := by
            simp only [Nat.lt_add_one_iff, Nat.add_one_le_iff]
          subst hon
          rw [marks_shown hlast, drawn_switched hlast, drawn, ih hrest hnext, drawn, List.mapIdx_cons]
          simp only [Nat.add_zero, Nat.add_assoc, Nat.add_comm 1]

end Underline

/-- Underlining a match leaves what shows as it is, and the sequences of the line whole and in their order: only such
as switch underlining come in between. A line in which the needle does not show stays as it is. In another one whose own
sequences do not switch underlining on, the characters of the first occurrence are underlined and no others are; in all
else each character is drawn as before. -/
theorem underline_marks (needle line : String) (hneedle : needle ≠ "") :
    let ps := pieces line.toList
    let marked := pieces (underline needle line).toList
    stripEscapes (underline needle line) = stripEscapes line ∧
      Interspersed Underline.Switches ps marked ∧
      (¬ needle.toList <:+: visible line.toList → underline needle line = line) ∧
      ∀ first, FirstAt needle.toList (visible line.toList) first →
        (∀ code, .code code ∈ ps → .underline true ∉ Change.ofCode code) →
        ∀ pen : Pen, pen.underlined = false →
          (drawn pen ps).map Prod.fst = visible line.toList ∧
          drawn pen marked = (drawn pen ps).mapIdx fun i (c, pen) =>
            (c, pen.ruled (decide (first ≤ i ∧ i < first + needle.length))) := by
  intro ps marked
  have hne : ¬ needle.isEmpty = true := by simpa using hneedle
  have hpositive : 0 < needle.length := by
    rw [Nat.pos_iff_ne_zero]
    simpa using hneedle
  have hmarked : ∀ first, find? needle.toList (visible line.toList) = some first →
      marked = Underline.marks first (first + needle.length) 0 false ps := by
    intro first hfirst
    simp only [marked, ps]
    rw [underline, if_neg hne, hfirst]
    dsimp only
    rw [String.toList_ofList, Underline.pieces_between]
  have hmissing : find? needle.toList (visible line.toList) = none → underline needle line = line := by
    intro hnone
    rw [underline, if_neg hne, hnone]
  have hinterspersed : Interspersed Underline.Switches ps marked := by
    cases hfind : find? needle.toList (visible line.toList) with
    | none =>
        simp only [marked, hmissing hfind]
        exact .refl ps
    | some first =>
        rw [hmarked first hfind]
        exact Underline.interspersed_marks _ _ _ _ ps
  refine ⟨?_, hinterspersed, fun hnone => hmissing (find?_eq_none_iff.mpr hnone), ?_⟩
  · rw [stripEscapes, visible, hinterspersed.shown_eq]
    rfl
  · intro first hfirst hcodes pen hpen
    refine ⟨map_fst_drawn pen ps, ?_⟩
    have hoff : false = decide (first < 0 ∧ 0 ≤ first + needle.length) := by simp
    have hdrawn := Underline.drawn_marks (Nat.lt_add_of_pos_right hpositive) hcodes hoff pen
    rw [← hpen, Pen.ruled_underlined, hpen] at hdrawn
    rw [hmarked first (find?_eq_some_iff.mpr hfirst), hdrawn]
    simp only [Nat.zero_add]

/-- A match in which the line is reset, behind an escape character that begins no sequence. -/
theorem underline_marks_reset :
    let line := "\x1b\x1b[1mab\x1b[0mc\x1b"
    let ps := pieces line.toList
    "bc" ≠ "" ∧ FirstAt "bc".toList (visible line.toList) 2 ∧
      (∀ code, .code code ∈ ps → .underline true ∉ Change.ofCode code) ∧
      drawn {} (pieces (underline "bc" line).toList) = (drawn {} ps).mapIdx fun i (c, pen) =>
        (c, pen.ruled (decide (2 ≤ i ∧ i < 4))) := by
  intro line ps
  have hps : ps = [.shown '\x1b', .code "\x1b[1m".toList, .shown 'a', .shown 'b', .code "\x1b[0m".toList, .shown 'c',
      .shown '\x1b'] := by
    decide +kernel
  have hfirst : FirstAt "bc".toList (visible line.toList) 2 := by
    rw [← find?_eq_some_iff]
    decide +kernel
  have hcodes : ∀ code, .code code ∈ ps → .underline true ∉ Change.ofCode code := by
    rw [hps]
    intro code hcode
    simp only [List.mem_cons, Piece.code.injEq, List.not_mem_nil, reduceCtorEq, false_or, or_false] at hcode
    rcases hcode with rfl | rfl
    · decide
    · decide
  have hne : "bc" ≠ "" := by decide
  have hmarks := underline_marks "bc" line hne
  exact ⟨hne, hfirst, hcodes, (hmarks.2.2.2 2 hfirst hcodes {} rfl).2⟩

end ScriptRepl.Text
