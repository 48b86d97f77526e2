import Mathlib.Logic.Function.Basic
import ScriptRepl.Number.Numeral
import ScriptRepl.Proofs.Console.Styled

/-! How characters are drawn. A rendition sequence is a list of numbers, each a change of the pen or, with those behind
it, of a colour; the pen goes on from one sequence to the next. Underlining is apart from all else: what a sequence
does to the rest of the pen does not depend on it. -/
namespace ScriptRepl.Text

/-- What can be switched on and off, underlining aside. -/
inductive Face where
  | bold | faint | italic | blink | inverse | hidden | struck | overlined
  deriving DecidableEq

/-- What can be coloured. -/
inductive Layer where
  | ink | ground | line
  deriving DecidableEq

inductive Shade where
  /-- The terminal's own. -/
  | own
  | basic (n : Nat)
  | palette (n : Nat)
  | mixed (red green blue : Nat)
  deriving DecidableEq

structure Pen where
  underlined : Bool := false
  faces : Face → Bool := fun _ => false
  shades : Layer → Shade := fun _ => .own

inductive Change where
  | reset
  | underline (on : Bool)
  | face (f : Face) (on : Bool)
  | colour (layer : Layer) (shade : Shade)
  deriving DecidableEq

namespace Change

def apply : Change → Pen → Pen
  | reset, _ => {}
  | underline on, pen => { pen with underlined := on }
  | face f on, pen => { pen with faces := Function.update pen.faces f on }
  | colour layer shade, pen => { pen with shades := Function.update pen.shades layer shade }

/-- What a number stands for on its own. -/
def ofNumber (n : Nat) : List Change :=
  match n with
  | 0 => [reset]
  | 1 => [face .bold true]
  | 2 => [face .faint true]
  | 3 => [face .italic true]
  | 4 | 21 => [underline true]
  | 5 | 6 => [face .blink true]
  | 7 => [face .inverse true]
  | 8 => [face .hidden true]
  | 9 => [face .struck true]
  | 22 => [face .bold false, face .faint false]
  | 23 => [face .italic false]
  | 24 => [underline false]
  | 25 => [face .blink false]
  | 27 => [face .inverse false]
  | 28 => [face .hidden false]
  | 29 => [face .struck false]
  | 39 => [colour .ink .own]
  | 49 => [colour .ground .own]
  | 53 => [face .overlined true]
  | 55 => [face .overlined false]
  | 59 => [colour .line .own]
  | n =>
    if 30 ≤ n ∧ n < 38 then [colour .ink (.basic (n - 30))]
    else if 40 ≤ n ∧ n < 48 then [colour .ground (.basic (n - 40))]
    else if 90 ≤ n ∧ n < 98 then [colour .ink (.basic (n - 82))]
    else if 100 ≤ n ∧ n < 108 then [colour .ground (.basic (n - 92))]
    else []

/-- The numbers that take a colour from those behind them. -/
def layer? : Nat → Option Layer
  | 38 => some .ink
  | 48 => some .ground
  | 58 => some .line
  | _ => none

def ofNumbers : List Nat → List Change
  | [] => []
  | n :: ns =>
    match layer? n, ns with
    | some layer, 5 :: i :: rest => colour layer (.palette i) :: ofNumbers rest
    | some layer, 2 :: red :: green :: blue :: rest => colour layer (.mixed red green blue) :: ofNumbers rest
    | _, ns => ofNumber n ++ ofNumbers ns

/-- What stands between the ends of a rendition sequence. -/
def parameters? : List Char → Option (List Char)
  | '\x1b' :: '[' :: cs => if cs.getLast? = some 'm' ∧ cs.dropLast.all isRendition then some cs.dropLast else none
  | _ => none

/-- The changes that a sequence stands for; a number that is missing is 0. Only rendition sequences have any. -/
def ofCode (code : List Char) : List Change :=
  match parameters? code with
  | some ps => ofNumbers ((split [';'] ps).map Number.digitsToNat)
  | none => []

example : ofCode "\x1b[m".toList = [reset] := by decide

example : ofCode "\x1b[1;38;5;4;49m".toList = [face .bold true, colour .ink (.palette 4), colour .ground .own] := by
  decide

end Change

namespace Pen

/-- The pen with underlining switched on or off. -/
def ruled (pen : Pen) (on : Bool) : Pen :=
  { pen with underlined := on }

def change (pen : Pen) (changes : List Change) : Pen :=
  changes.foldl (fun pen change => change.apply pen) pen

/-- The pen behind a sequence. -/
def after (pen : Pen) (code : List Char) : Pen :=
  pen.change (Change.ofCode code)

variable {pen : Pen}

@[simp] theorem ruled_ruled (pen : Pen) (on on' : Bool) : (pen.ruled on).ruled on' = pen.ruled on' := rfl

@[simp] theorem underlined_ruled (pen : Pen) (on : Bool) : (pen.ruled on).underlined = on := rfl

theorem ruled_underlined (pen : Pen) : pen.ruled pen.underlined = pen := rfl

theorem ruled_apply (change : Change) (pen : Pen) (on on' : Bool) :
    (change.apply (pen.ruled on)).ruled on' = (change.apply pen).ruled on' := by
  cases change <;> rfl

/-- Underlining or not, the rest of the pen changes in the same way. -/
theorem ruled_change (changes : List Change) (pen : Pen) (on on' : Bool) :
    ((pen.ruled on).change changes).ruled on' = (pen.change changes).ruled on' := by
  induction changes generalizing pen on with
  | nil => rfl
  | cons change changes ih =>
      have hnext := ruled_apply change pen on (change.apply (pen.ruled on)).underlined
      rw [ruled_underlined] at hnext
      calc ((pen.ruled on).change (change :: changes)).ruled on'
          = ((change.apply (pen.ruled on)).change changes).ruled on' := rfl
        _ = ((change.apply pen).change changes).ruled on' := by rw [hnext, ih]
        _ = (pen.change (change :: changes)).ruled on' := rfl

theorem ruled_after (pen : Pen) (code : List Char) (on on' : Bool) :
    ((pen.ruled on).after code).ruled on' = (pen.after code).ruled on' :=
  ruled_change _ pen on on'

/-- Changes none of which switches underlining on do not bring it about. -/
theorem not_underlined_change {changes : List Change} (h : .underline true ∉ changes) (hpen : pen.underlined = false) :
    (pen.change changes).underlined = false := by
  induction changes generalizing pen with
  | nil => exact hpen
  | cons change changes ih =>
      rw [List.mem_cons, not_or] at h
      apply ih h.2
      cases change with
      | underline on =>
          cases on with
          | true => exact absurd rfl h.1
          | false => rfl
      | reset => rfl
      | face f on => exact hpen
      | colour layer shade => exact hpen

end Pen

/-- The characters that show, each with the pen that it is drawn with. -/
def drawn (pen : Pen) : List Piece → List (Char × Pen)
  | [] => []
  | .code code :: ps => drawn (pen.after code) ps
  | .shown c :: ps => (c, pen) :: drawn pen ps

theorem map_fst_drawn (pen : Pen) (ps : List Piece) : (drawn pen ps).map Prod.fst = ps.filterMap Piece.shown? := by
  induction ps generalizing pen with
  | nil => rfl
  | cons p ps ih =>
      cases p with
      | code code => exact ih (pen.after code)
      | shown c => exact congrArg (c :: ·) (ih pen)

end ScriptRepl.Text
