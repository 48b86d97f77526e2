import ScriptRepl.Proofs.Console.Zipper

/-! Any sequence of edits of the line is the same edits of a zipper. The line's operations say whether they did
anything, which the zipper shows. -/
namespace ScriptRepl.Console

/-- The operations on the line. -/
inductive Edit where
  | insert (s : String)
  | deleteBackward
  | deleteForward
  | move (delta : Int)
  | toStart
  | toEnd
  | wordLeft
  | wordRight
  | deleteWordBackward
  | clearToCursor
  | clearFromCursor
  | replace (s : String) (cursor : Nat)
  | clear
  | setSuffix (suffix : Option Suffix)
  | accept
  | continueLine (prompt : String)
  | reset (prompt : String)

namespace Buffer

def answered : Bool × Buffer → Option Bool × Buffer
  | (answer, b) => (some answer, b)

/-- An edit, with its answer if it has one. -/
def apply (b : Buffer) : Edit → Option Bool × Buffer
  | .insert s => (none, b.insert s)
  | .deleteBackward => answered b.deleteBackward
  | .deleteForward => answered b.deleteForward
  | .move delta => answered (b.move delta)
  | .toStart => answered b.toStart
  | .toEnd => answered b.toEnd
  | .wordLeft => answered b.wordLeft
  | .wordRight => answered b.wordRight
  | .deleteWordBackward => answered b.deleteWordBackward
  | .clearToCursor => answered b.clearToCursor
  | .clearFromCursor => answered b.clearFromCursor
  | .replace s cursor => (none, b.replace s cursor)
  | .clear => (none, b.clear)
  | .setSuffix suffix => (none, b.setSuffix suffix)
  | .accept => answered b.accept
  | .continueLine prompt => (none, b.continueLine prompt)
  | .reset prompt => (none, b.reset prompt)

def run (b : Buffer) (edits : List Edit) : Buffer :=
  edits.foldl (fun b edit => (b.apply edit).2) b

end Buffer

/-- A zipper and what is shown behind the line. -/
structure Line where
  zipper : Zipper := ⟨[], []⟩
  suffix : Option Suffix := none

namespace Line

/-- What is shown behind the line goes with the first change. -/
def goTo (l : Line) (z : Zipper) : Line :=
  if z = l.zipper then l else ⟨z, none⟩

/-- The completion that can be taken into the line, with the cursor at its end. -/
def completion? (l : Line) : Option String :=
  match l.suffix, l.zipper.right with
  | some ⟨text, .completion⟩, [] => some text
  | _, _ => none

def apply (l : Line) : Edit → Line
  | .insert s => l.goTo (l.zipper.insert s.toList)
  | .deleteBackward => l.goTo l.zipper.deleteBackward
  | .deleteForward => l.goTo l.zipper.deleteForward
  | .move delta => l.goTo (l.zipper.move delta)
  | .toStart => l.goTo l.zipper.toStart
  | .toEnd => l.goTo l.zipper.toEnd
  | .wordLeft => l.goTo l.zipper.wordLeft
  | .wordRight => l.goTo l.zipper.wordRight
  | .deleteWordBackward => l.goTo l.zipper.deleteWordBackward
  | .clearToCursor => l.goTo l.zipper.clearToCursor
  | .clearFromCursor => l.goTo l.zipper.clearFromCursor
  | .replace s cursor => ⟨.ofOffset s.toList cursor, none⟩
  | .setSuffix suffix => { l with suffix }
  | .accept =>
    match l.completion? with
    | some text => ⟨l.zipper.insert text.toList, none⟩
    | none => l
  | .clear | .continueLine _ | .reset _ => {}

def run (l : Line) (edits : List Edit) : Line :=
  edits.foldl apply l

/-- Whether an edit changes the text or moves the cursor, or takes in a completion. -/
def Does (l : Line) (edit : Edit) : Prop :=
  (l.apply edit).zipper ≠ l.zipper ∨ (∃ text, edit = .accept ∧ l.completion? = some text)

theorem does_iff {l : Line} {edit : Edit} (h : edit ≠ .accept) : l.Does edit ↔ (l.apply edit).zipper ≠ l.zipper :=
  or_iff_left fun ⟨_, haccept, _⟩ => h haccept

theorem goTo_bare (z z' : Zipper) : (⟨z, none⟩ : Line).goTo z' = ⟨z', none⟩ := by
  unfold goTo
  split
  · rename_i h
    rw [h]
  · rfl

theorem goTo_zipper (l : Line) (z : Zipper) : (l.goTo z).zipper = z := by
  unfold goTo
  split
  · rename_i h
    exact h.symm
  · rfl

end Line

namespace Buffer

/-- The cursor is between two characters of the text, and those on its sides are the zipper's. -/
structure Shows (b : Buffer) (l : Line) : Prop where
  cut : Text.splitAt? b.cursor b.text.toList = some (l.zipper.left.reverse, l.zipper.right)
  suffix : b.suffix = l.suffix

section

variable {b : Buffer} {l : Line}

theorem Shows.sides (h : b.Shows l) : b.sides = (l.zipper.left.reverse, l.zipper.right) := by
  rw [Buffer.sides, h.cut, Option.getD_some]

theorem Shows.before (h : b.Shows l) : b.before = l.zipper.left.reverse := by
  rw [Buffer.before, h.sides]

theorem Shows.after (h : b.Shows l) : b.after = l.zipper.right := by
  rw [Buffer.after, h.sides]

theorem shows_place (b : Buffer) (z : Zipper) : (b.place z.left.reverse z.right).Shows ⟨z, none⟩ := by
  refine ⟨?_, rfl⟩
  unfold place
  dsimp only
  rw [String.toList_ofList, Text.splitAt?_size]

theorem sides_eq_iff (h : b.Shows l) (z : Zipper) : (z.left.reverse, z.right) = b.sides ↔ z = l.zipper := by
  obtain ⟨left, right⟩ := z
  rw [h.sides, Prod.mk.injEq, List.reverse_inj]
  constructor
  · rintro ⟨rfl, rfl⟩
    rfl
  · intro hsame
    rw [← hsame]
    exact ⟨rfl, rfl⟩

/-- An edit that puts the cursor between the two sides of a zipper goes to that zipper, and says whether it is
another one. -/
theorem Shows.edit (h : b.Shows l) {before after : List Char} {z : Zipper} (hbefore : before = z.left.reverse)
    (hafter : after = z.right) :
    (b.edit before after).2.Shows (l.goTo z) ∧ ((b.edit before after).1 = true ↔ (l.goTo z).zipper ≠ l.zipper) := by
  subst hbefore hafter
  refine ⟨?_, ?_⟩
  · unfold Buffer.edit Line.goTo
    by_cases hsame : z = l.zipper
    · rw [if_pos ((sides_eq_iff h z).mpr hsame), if_pos hsame]
      exact h
    · rw [if_neg (mt (sides_eq_iff h z).mp hsame), if_neg hsame]
      exact b.shows_place z
  · rw [b.edit_fst, Line.goTo_zipper, ne_eq, sides_eq_iff h z]

theorem Shows.insert (h : b.Shows l) (s : String) : (b.insert s).Shows (l.goTo (l.zipper.insert s.toList)) := by
  refine (h.edit ?_ ?_).1
  · rw [h.before, Zipper.insert_eq, List.reverse_append, List.reverse_reverse]
  · rw [h.after, Zipper.insert_eq]

/-- So many characters to the left. -/
theorem Shows.goLeft (h : b.Shows l) (n : Nat) :
    b.before.take (b.before.length - n) = (Zipper.goLeft^[n] l.zipper).left.reverse ∧
      b.before.drop (b.before.length - n) ++ b.after = (Zipper.goLeft^[n] l.zipper).right := by
  rw [h.before, h.after, Zipper.goLeft_iterate, List.length_reverse, List.reverse_drop, List.reverse_take]
  exact ⟨rfl, rfl⟩

theorem Shows.goRight (h : b.Shows l) (n : Nat) :
    b.before ++ b.after.take n = (Zipper.goRight^[n] l.zipper).left.reverse ∧
      b.after.drop n = (Zipper.goRight^[n] l.zipper).right := by
  rw [h.before, h.after, Zipper.goRight_iterate, List.reverse_append, List.reverse_reverse]
  exact ⟨rfl, rfl⟩

theorem Shows.move (h : b.Shows l) (delta : Int) :
    (b.move delta).2.Shows (l.goTo (l.zipper.move delta)) ∧
      ((b.move delta).1 = true ↔ (l.goTo (l.zipper.move delta)).zipper ≠ l.zipper) := by
  unfold Buffer.move
  dsimp only
  cases delta with
  | ofNat n =>
      have hright : ¬ Int.ofNat n < 0 := Int.not_lt.mpr (Int.natCast_nonneg n)
      rw [if_neg hright]
      exact h.edit (h.goRight n).1 (h.goRight n).2
  | negSucc n =>
      rw [if_pos (Int.negSucc_lt_zero n)]
      exact h.edit (h.goLeft (n + 1)).1 (h.goLeft (n + 1)).2

/-- Where a motion to the left by a word cuts the text before the cursor. -/
theorem Shows.cutWordLeft (h : b.Shows l) :
    b.cutWordLeft.1 = l.zipper.wordLeft.left.reverse ∧ b.cutWordLeft.2 ++ b.after = l.zipper.wordLeft.right := by
  obtain ⟨rest, hleft, hword⟩ := l.zipper.wordLeft_eq
  rw [← h.before] at hleft hword
  have hgo := h.goLeft (Text.wordLeft b.before).length
  rw [Zipper.goLeft_iterate, hleft, List.drop_left, List.take_left] at hgo
  rw [hword]
  exact hgo

theorem Shows.wordRight (h : b.Shows l) :
    b.before ++ Text.wordRight b.after = l.zipper.wordRight.left.reverse ∧
      b.after.drop (Text.wordRight b.after).length = l.zipper.wordRight.right := by
  obtain ⟨rest, hright, hword⟩ := l.zipper.wordRight_eq
  rw [hword, h.before, h.after, List.reverse_append, List.reverse_reverse]
  refine ⟨rfl, ?_⟩
  conv => lhs; arg 2; rw [hright]
  rw [List.drop_left]

/-- The text after the cursor is empty exactly if the cursor is at the end. -/
theorem Shows.atEnd_iff (h : b.Shows l) : b.atEnd = true ↔ l.zipper.right = [] := by
  obtain ⟨htext, hcursor⟩ := Text.eq_append_of_splitAt? h.cut
  rw [Buffer.atEnd, decide_eq_true_iff, ← Text.size_toList, htext, ← hcursor, Text.size_append]
  cases l.zipper.right with
  | nil => simp [Text.size]
  | cons c cs =>
      have hpos := c.utf8Size_pos
      simp only [Text.size, reduceCtorEq, iff_false]
      omega

theorem Shows.completion?_eq_some_iff (h : b.Shows l) {text : String} :
    l.completion? = some text ↔ b.completion? = some text ∧ b.atEnd = true := by
  rw [h.atEnd_iff]
  unfold Line.completion? Buffer.completion?
  rw [h.suffix]
  constructor
  · intro hsome
    split at hsome
    · rename_i hsuffix hright
      rw [hsuffix]
      exact ⟨hsome, hright⟩
    · cases hsome
  · rintro ⟨hsome, hright⟩
    split at hsome
    · rename_i hsuffix
      rw [hsuffix, hright]
      exact hsome
    · cases hsome

/-- A completion goes into the line if the cursor is at the end, and else nothing happens. -/
theorem Shows.accept_of_some (h : b.Shows l) {text : String} (htaken : l.completion? = some text) :
    b.accept = (true, { b with suffix := none }.insert text) := by
  obtain ⟨hcompletion, hend⟩ := h.completion?_eq_some_iff.mp htaken
  rw [Buffer.accept, hcompletion]
  exact if_pos hend

theorem Shows.accept_of_none (h : b.Shows l) (hrefused : l.completion? = none) : b.accept = (false, b) := by
  unfold Buffer.accept
  split
  · rename_i text hcompletion
    refine if_neg fun hend => ?_
    rw [h.completion?_eq_some_iff.mpr ⟨hcompletion, hend⟩] at hrefused
    cases hrefused
  · rfl

theorem Shows.accept (h : b.Shows l) :
    b.accept.2.Shows (l.apply .accept) ∧ (b.accept.1 = true ↔ l.Does .accept) := by
  cases htaken : l.completion? with
  | some text =>
      have hline : l.apply .accept = ⟨l.zipper.insert text.toList, none⟩ := by
        rw [Line.apply, htaken]
      have hbare : ({ b with suffix := none } : Buffer).Shows ⟨l.zipper, none⟩ := ⟨h.cut, rfl⟩
      have hinsert := hbare.insert text
      rw [Line.goTo_bare] at hinsert
      rw [h.accept_of_some htaken, hline]
      exact ⟨hinsert, iff_of_true rfl (.inr ⟨text, rfl, htaken⟩)⟩
  | none =>
      have hline : l.apply .accept = l := by
        rw [Line.apply, htaken]
      rw [h.accept_of_none htaken, Line.Does, hline, htaken]
      refine ⟨h, iff_of_false nofun ?_⟩
      rintro (hchanged | ⟨text, _, htext⟩)
      · exact hchanged rfl
      · cases htext

/-- One edit of the line is the same edit of its zipper, and the answer is whether it does anything. -/
theorem Shows.apply (h : b.Shows l) (edit : Edit) :
    (b.apply edit).2.Shows (l.apply edit) ∧ ∀ answer ∈ (b.apply edit).1, (answer = true ↔ l.Does edit) := by
  have hanswered : ∀ {r : Bool × Buffer}, b.apply edit = answered r → edit ≠ .accept →
      r.2.Shows (l.apply edit) ∧ (r.1 = true ↔ (l.apply edit).zipper ≠ l.zipper) →
      (b.apply edit).2.Shows (l.apply edit) ∧ ∀ answer ∈ (b.apply edit).1, (answer = true ↔ l.Does edit) := by
    intro r hr hedit hboth
    rw [hr]
    refine ⟨hboth.1, ?_⟩
    intro answer hanswer
    cases hanswer
    exact hboth.2.trans (Line.does_iff hedit).symm
  cases edit with
  | insert s => exact ⟨h.insert s, nofun⟩
  | deleteBackward =>
      refine hanswered rfl nofun (h.edit ?_ h.after)
      rw [h.before, List.dropLast_reverse]
      rfl
  | deleteForward =>
      refine hanswered rfl nofun (h.edit h.before ?_)
      rw [h.after, List.drop_one]
      rfl
  | move delta => exact hanswered rfl nofun (h.move delta)
  | toStart =>
      refine hanswered rfl nofun (h.edit ?_ ?_)
      · rw [Zipper.toStart_eq]
        rfl
      · rw [Zipper.toStart_eq, h.before, h.after]
  | toEnd =>
      refine hanswered rfl nofun (h.edit ?_ ?_)
      · rw [Zipper.toEnd_eq, h.before, h.after, List.reverse_append, List.reverse_reverse]
      · rw [Zipper.toEnd_eq]
  | wordLeft => exact hanswered rfl nofun (h.edit h.cutWordLeft.1 h.cutWordLeft.2)
  | wordRight => exact hanswered rfl nofun (h.edit h.wordRight.1 h.wordRight.2)
  | deleteWordBackward => exact hanswered rfl nofun (h.edit h.cutWordLeft.1 h.after)
  | clearToCursor => exact hanswered rfl nofun (h.edit rfl h.after)
  | clearFromCursor => exact hanswered rfl nofun (h.edit h.before rfl)
  | replace s cursor =>
      refine ⟨?_, nofun⟩
      have hplaced := b.shows_place (.ofOffset s.toList cursor)
      simp only [Zipper.ofOffset_eq, List.reverse_reverse] at hplaced
      rw [Line.apply, Zipper.ofOffset_eq]
      exact hplaced
  | clear => exact ⟨b.shows_place ⟨[], []⟩, nofun⟩
  | setSuffix suffix => exact ⟨⟨h.cut, rfl⟩, nofun⟩
  | accept =>
      refine ⟨h.accept.1, ?_⟩
      intro answer hanswer
      cases hanswer
      exact h.accept.2
  | continueLine prompt => exact ⟨shows_place _ ⟨[], []⟩, nofun⟩
  | reset prompt => exact ⟨shows_place _ ⟨[], []⟩, nofun⟩

end

/-- Any edits in turn. -/
theorem Shows.run {b : Buffer} {l : Line} (h : b.Shows l) (edits : List Edit) : (b.run edits).Shows (l.run edits) := by
  induction edits generalizing b l with
  | nil => exact h
  | cons edit edits ih => exact ih (h.apply edit).1

theorem shows_new (prompt : String) : ({ prompt } : Buffer).Shows {} :=
  ⟨rfl, rfl⟩

end Buffer

end ScriptRepl.Console
