import ScriptRepl.Proofs.Console.Editing

/-! The operations on the line as they go about the bytes of the text. Each of these steps can go wrong: a place may
lie beyond the end or inside a character, and a difference may be negative. Between two characters none goes wrong,
and so none does in any line that is reached. -/
namespace ScriptRepl

namespace Text

def isBoundary (offset : Nat) (cs : List Char) : Bool :=
  (splitAt? offset cs).isSome

def insertAt? (offset : Nat) (more cs : List Char) : Option (List Char) := do
  let (before, after) ← splitAt? offset cs
  return before ++ more ++ after

/-- Without the character that is at the place. -/
def removeAt? (offset : Nat) (cs : List Char) : Option (List Char) := do
  match ← splitAt? offset cs with
  | (before, _ :: after) => return before ++ after
  | (_, []) => none

def removeRange? (start stop : Nat) (cs : List Char) : Option (List Char) := do
  let (front, after) ← splitAt? stop cs
  let (before, _) ← splitAt? start front
  return before ++ after

/-- A text that is shorter already stays as it is. -/
def truncate? (offset : Nat) (cs : List Char) : Option (List Char) :=
  if size cs < offset then some cs else (splitAt? offset cs).map Prod.fst

/-- Steps back to a boundary. -/
def floor? (cs : List Char) : Nat → Option Nat
  | 0 => if isBoundary 0 cs then some 0 else none
  | offset + 1 => if isBoundary (offset + 1) cs then some (offset + 1) else floor? cs offset

def subtract? (a b : Nat) : Option Nat :=
  if b ≤ a then some (a - b) else none

theorem subtract?_add (a b : Nat) : subtract? (a + b) b = some a := by
  rw [subtract?, if_pos (Nat.le_add_left b a), Nat.add_sub_cancel]

theorem eq_of_size_eq {a b a' b' : List Char} (h : a ++ b = a' ++ b') (hsize : size a = size a') :
    a = a' ∧ b = b' := by
  have hcut := splitAt?_size a b
  rw [h, hsize, splitAt?_size] at hcut
  cases hcut
  exact ⟨rfl, rfl⟩

theorem removeRange?_size (a b c : List Char) :
    removeRange? (size a) (size (a ++ b)) (a ++ b ++ c) = some (a ++ c) := by
  rw [removeRange?, splitAt?_size]
  dsimp only [Option.bind_eq_bind, Option.bind_some]
  rw [splitAt?_size]
  rfl

/-- Steps to the left over the end of a text come to what is left of it. -/
theorem subtractAll (before passed : List Char) :
    passed.foldlM (fun target c => subtract? target c.utf8Size) (size (before ++ passed.reverse)) =
      some (size before) := by
  induction passed with
  | nil => rw [List.reverse_nil, List.append_nil, List.foldlM_nil]; rfl
  | cons c passed ih =>
      have hlast : size (before ++ (c :: passed).reverse) = size (before ++ passed.reverse) + c.utf8Size := by
        simp [size, Nat.add_assoc]
      rw [List.foldlM_cons, hlast, subtract?_add]
      exact ih

theorem addAll (n : Nat) (cs : List Char) : cs.foldl (fun target c => target + c.utf8Size) n = n + size cs := by
  induction cs generalizing n with
  | nil => rfl
  | cons c cs ih => rw [List.foldl_cons, ih, size, Nat.add_assoc]

/-- There is no boundary between an offset and the greatest one that is not after it. -/
theorem not_isBoundary {offset n : Nat} {cs : List Char} (hlow : size (splitNear offset cs).1 < n)
    (hhigh : n ≤ offset) : isBoundary n cs = false := by
  rw [isBoundary, Option.isSome_eq_false_iff, Option.isNone_iff_eq_none]
  induction cs generalizing offset n with
  | nil =>
      cases n with
      | zero => cases hlow
      | succ n => rfl
  | cons c cs ih =>
      cases n with
      | zero => cases hlow
      | succ n =>
          rw [splitAt?]
          split
          · rename_i hfits
            rw [splitNear, if_pos (Nat.le_trans hfits hhigh)] at hlow
            simp only [size] at hlow
            have hrest : splitAt? (n + 1 - c.utf8Size) cs = none := by
              refine ih ?_ (Nat.sub_le_sub_right hhigh c.utf8Size)
              omega
            rw [hrest]
          · rfl

theorem floor?_eq {offset n : Nat} {cs : List Char} (hlow : size (splitNear offset cs).1 ≤ n) (hhigh : n ≤ offset) :
    floor? cs n = some (size (splitNear offset cs).1) := by
  have hboundary : isBoundary (size (splitNear offset cs).1) cs = true := by
    have hcut := splitAt?_size (splitNear offset cs).1 (splitNear offset cs).2
    rw [splitNear_append] at hcut
    rw [isBoundary, hcut]
    rfl
  induction n with
  | zero =>
      rw [Nat.le_zero.mp hlow] at hboundary ⊢
      rw [floor?, if_pos hboundary]
  | succ n ih =>
      rw [floor?]
      obtain hlt | heq := Nat.lt_or_eq_of_le hlow
      · rw [not_isBoundary hlt hhigh]
        exact ih (Nat.le_of_lt_succ hlt) (Nat.le_of_succ_le hhigh)
      · rw [← heq, if_pos hboundary]

/-- An offset beyond the end counts as the end. -/
theorem splitNear_min (offset : Nat) (cs : List Char) : splitNear (min offset (size cs)) cs = splitNear offset cs := by
  induction cs generalizing offset with
  | nil => rfl
  | cons c cs ih =>
      have hrest : min offset (size (c :: cs)) - c.utf8Size = min (offset - c.utf8Size) (size cs) := by
        simp only [size]
        omega
      have hfits : c.utf8Size ≤ min offset (size (c :: cs)) ↔ c.utf8Size ≤ offset := by
        simp only [size]
        omega
      simp only [splitNear, hrest, hfits, ih]

end Text

namespace Console.Buffer

def touched (b : Buffer) : Buffer :=
  { b with suffix := none, generation := b.generation + 1 }

def moveTo (b : Buffer) (cursor : Nat) : Bool × Buffer :=
  if cursor = b.cursor then (false, b) else (true, { b with cursor }.touched)

/-- With the text that a step leaves, if it did not go wrong, and the cursor. -/
def changed? (b : Buffer) (text? : Option (List Char)) (cursor : Nat) : Option (Bool × Buffer) := do
  let text ← text?
  return (true, { b with text := String.ofList text, cursor }.touched)

def insert? (b : Buffer) (s : String) : Option Buffer :=
  if s.isEmpty then some b
  else do
    let text ← Text.insertAt? b.cursor s.toList b.text.toList
    return { b with text := String.ofList text, cursor := b.cursor + s.utf8ByteSize }.touched

def deleteBackward? (b : Buffer) : Option (Bool × Buffer) := do
  let (before, _) ← Text.splitAt? b.cursor b.text.toList
  match before.getLast? with
  | none => return (false, b)
  | some c =>
    let cursor ← Text.subtract? b.cursor c.utf8Size
    b.changed? (Text.removeAt? cursor b.text.toList) cursor

def deleteForward? (b : Buffer) : Option (Bool × Buffer) :=
  if b.atEnd then some (false, b) else b.changed? (Text.removeAt? b.cursor b.text.toList) b.cursor

def move? (b : Buffer) (delta : Int) : Option (Bool × Buffer) := do
  let (before, after) ← Text.splitAt? b.cursor b.text.toList
  if delta < 0 then
    let passed := before.reverse.take delta.natAbs
    let target ← passed.foldlM (fun target c => Text.subtract? target c.utf8Size) b.cursor
    return b.moveTo target
  else
    let passed := after.take delta.natAbs
    return b.moveTo (passed.foldl (fun target c => target + c.utf8Size) b.cursor)

/-- Where the match of a word and the blanks behind it starts that ends at the cursor. -/
def wordStart? (b : Buffer) : Option Nat := do
  let (before, _) ← Text.splitAt? b.cursor b.text.toList
  return Text.size (before.take (before.length - (Text.wordLeft before).length))

def wordEnd? (b : Buffer) : Option Nat := do
  let (_, after) ← Text.splitAt? b.cursor b.text.toList
  return b.cursor + Text.size (Text.wordRight after)

def wordLeft? (b : Buffer) : Option (Bool × Buffer) :=
  b.wordStart?.map b.moveTo

def wordRight? (b : Buffer) : Option (Bool × Buffer) :=
  b.wordEnd?.map b.moveTo

def deleteWordBackward? (b : Buffer) : Option (Bool × Buffer) := do
  let start ← b.wordStart?
  if start = b.cursor then return (false, b)
  else b.changed? (Text.removeRange? start b.cursor b.text.toList) start

def clearToCursor? (b : Buffer) : Option (Bool × Buffer) :=
  if b.cursor = 0 then some (false, b) else b.changed? (Text.removeRange? 0 b.cursor b.text.toList) 0

def clearFromCursor? (b : Buffer) : Option (Bool × Buffer) :=
  if b.atEnd then some (false, b) else b.changed? (Text.truncate? b.cursor b.text.toList) b.cursor

def replace? (b : Buffer) (s : String) (cursor : Nat) : Option Buffer := do
  let cursor ← Text.floor? s.toList (min cursor s.utf8ByteSize)
  return { b with text := s, cursor }.touched

def accept? (b : Buffer) : Option (Bool × Buffer) :=
  match b.suffix with
  | some ⟨text, .completion⟩ =>
    if b.atEnd then ({ b with suffix := none }.insert? text).map (true, ·) else some (false, b)
  | _ => some (false, b)

/-- An edit on the bytes of the text, or nothing if one of its steps goes wrong. -/
def attempt (b : Buffer) : Edit → Option (Option Bool × Buffer)
  | .insert s => (b.insert? s).map (none, ·)
  | .deleteBackward => b.deleteBackward?.map answered
  | .deleteForward => b.deleteForward?.map answered
  | .move delta => (b.move? delta).map answered
  | .toStart => some (answered (b.moveTo 0))
  | .toEnd => some (answered (b.moveTo b.text.utf8ByteSize))
  | .wordLeft => b.wordLeft?.map answered
  | .wordRight => b.wordRight?.map answered
  | .deleteWordBackward => b.deleteWordBackward?.map answered
  | .clearToCursor => b.clearToCursor?.map answered
  | .clearFromCursor => b.clearFromCursor?.map answered
  | .replace s cursor => (b.replace? s cursor).map (none, ·)
  | .clear => (b.replace? "" 0).map (none, ·)
  | .setSuffix suffix => some (none, { b with suffix })
  | .accept => b.accept?.map answered
  | .continueLine prompt =>
    ({ b with committed := b.committed ++ b.text ++ "\n", prompt }.replace? "" 0).map (none, ·)
  | .reset prompt => ({ b with committed := "", prompt }.replace? "" 0).map (none, ·)

def attemptAll (b : Buffer) (edits : List Edit) : Option Buffer :=
  edits.foldlM (fun b edit => (b.attempt edit).map Prod.snd) b

/-! ### Between two characters -/

section

variable {b : Buffer} {l : Line}

theorem Shows.cursor_eq (h : b.Shows l) : b.cursor = Text.size b.before := by
  rw [h.before]
  exact (Text.eq_append_of_splitAt? h.cut).2.symm

theorem Shows.cut_sides (h : b.Shows l) : Text.splitAt? b.cursor b.text.toList = some (b.before, b.after) := by
  rw [h.before, h.after]
  exact h.cut

theorem text_eq {x y : List Char} (h : x ++ y = b.before ++ b.after) : b.text = String.ofList (x ++ y) := by
  rw [h, b.sides_append, String.ofList_toList]

theorem edit_of_ne {x y : List Char} (hne : (x, y) ≠ b.sides) : b.edit x y = (true, b.place x y) :=
  if_neg hne

theorem edit_of_eq {x y : List Char} (heq : (x, y) = b.sides) : b.edit x y = (false, b) :=
  if_pos heq

/-- To move the cursor is to cut the same text at another place. -/
theorem Shows.moveTo (h : b.Shows l) {cursor : Nat} {x y : List Char} (htext : x ++ y = b.before ++ b.after)
    (hcursor : cursor = Text.size x) : b.moveTo cursor = b.edit x y := by
  unfold Buffer.moveTo
  split
  · rename_i hstays
    rw [hcursor, h.cursor_eq] at hstays
    obtain ⟨rfl, rfl⟩ := Text.eq_of_size_eq htext hstays
    exact (edit_of_eq rfl).symm
  · rename_i hmoves
    rw [edit_of_ne]
    · simp only [touched, place, text_eq htext, hcursor]
    · intro heq
      have hbefore : x = b.before := congrArg Prod.fst heq
      exact hmoves (by rw [hcursor, hbefore, h.cursor_eq])

/-- A step that leaves another text puts the cursor between its sides. -/
theorem changed?_eq {text? : Option (List Char)} {cursor : Nat} {x y : List Char} (htext : text? = some (x ++ y))
    (hcursor : cursor = Text.size x) (hne : (x, y) ≠ b.sides) : b.changed? text? cursor = some (b.edit x y) := by
  rw [edit_of_ne hne, htext, hcursor]
  rfl

theorem Shows.insert? (h : b.Shows l) (s : String) : b.insert? s = some (b.insert s) := by
  unfold Buffer.insert? Buffer.insert
  split
  · rename_i hempty
    rw [String.isEmpty_iff.mp hempty, edit_of_eq]
    simp [Buffer.before, Buffer.after]
  · rename_i hempty
    have hne : (b.before ++ s.toList, b.after) ≠ b.sides := by
      intro heq
      have hnil : s.toList = [] := List.append_right_eq_self.mp (congrArg Prod.fst heq)
      exact hempty (String.isEmpty_iff.mpr (String.toList_eq_nil_iff.mp hnil))
    rw [edit_of_ne hne, Text.insertAt?, h.cut_sides, h.cursor_eq, ← Text.size_toList s, ← Text.size_append]
    rfl

theorem Shows.deleteBackward? (h : b.Shows l) : b.deleteBackward? = some b.deleteBackward := by
  unfold Buffer.deleteBackward? Buffer.deleteBackward
  rw [h.cut_sides]
  dsimp only [Option.bind_eq_bind, Option.bind_some]
  cases hlast : b.before.getLast? with
  | none =>
      rw [List.getLast?_eq_none_iff] at hlast
      rw [edit_of_eq]
      · rfl
      · rw [hlast, List.dropLast_nil, ← hlast]
        rfl
  | some c =>
      have hbefore : b.before = b.before.dropLast ++ [c] := by
        obtain ⟨front, hfront⟩ := List.getLast?_eq_some_iff.mp hlast
        rw [hfront, List.dropLast_concat]
      have hcursor : b.cursor = Text.size b.before.dropLast + c.utf8Size := by
        conv_lhs => rw [h.cursor_eq, hbefore]
        simp [Text.size]
      have htext : b.text.toList = b.before.dropLast ++ c :: b.after := by
        conv_lhs => rw [← b.sides_append, hbefore]
        simp
      dsimp only
      rw [hcursor, Text.subtract?_add]
      refine changed?_eq ?_ rfl ?_
      · rw [Text.removeAt?, htext, Text.splitAt?_size]
        rfl
      · intro heq
        have hshort : b.before.dropLast = b.before := congrArg Prod.fst heq
        rw [hbefore] at hshort
        simp at hshort

theorem Shows.not_atEnd (h : b.Shows l) (hend : ¬ b.atEnd = true) : b.after ≠ [] := by
  rw [h.after]
  exact mt h.atEnd_iff.mpr hend

theorem Shows.atEnd (h : b.Shows l) (hend : b.atEnd = true) : b.after = [] := by
  rw [h.after]
  exact h.atEnd_iff.mp hend

theorem Shows.deleteForward? (h : b.Shows l) : b.deleteForward? = some b.deleteForward := by
  unfold Buffer.deleteForward? Buffer.deleteForward
  split
  · rename_i hend
    rw [edit_of_eq]
    rw [h.atEnd hend, List.drop_nil, ← h.atEnd hend]
    rfl
  · rename_i hend
    obtain ⟨c, after, hafter⟩ := List.exists_cons_of_ne_nil (h.not_atEnd hend)
    refine changed?_eq ?_ h.cursor_eq ?_
    · rw [Text.removeAt?, h.cut_sides, hafter]
      rfl
    · intro heq
      have hshort : b.after.drop 1 = b.after := congrArg Prod.snd heq
      rw [hafter] at hshort
      simp at hshort

theorem Shows.move? (h : b.Shows l) (delta : Int) : b.move? delta = some (b.move delta) := by
  unfold Buffer.move? Buffer.move
  rw [h.cut_sides]
  dsimp only [Option.bind_eq_bind, Option.bind_some]
  split
  · have hpassed : (b.before.reverse.take delta.natAbs).reverse =
        b.before.drop (b.before.length - delta.natAbs) := by
      rw [List.reverse_take, List.reverse_reverse, List.length_reverse]
    have hback := Text.subtractAll (b.before.take (b.before.length - delta.natAbs))
      (b.before.reverse.take delta.natAbs)
    rw [hpassed, List.take_append_drop, ← h.cursor_eq] at hback
    rw [hback]
    refine congrArg some (h.moveTo ?_ rfl)
    rw [← List.append_assoc, List.take_append_drop]
  · rw [Text.addAll]
    refine congrArg some (h.moveTo ?_ ?_)
    · rw [List.append_assoc, List.take_append_drop]
    · rw [h.cursor_eq, Text.size_append]

/-- Where a motion to the left by a word goes. -/
theorem Shows.wordStart? (h : b.Shows l) : b.wordStart? = some (Text.size b.cutWordLeft.1) := by
  rw [Buffer.wordStart?, h.cut_sides]
  rfl

theorem cutWordLeft_append (b : Buffer) : b.cutWordLeft.1 ++ b.cutWordLeft.2 = b.before :=
  List.take_append_drop _ _

theorem Shows.wordLeft? (h : b.Shows l) : b.wordLeft? = some b.wordLeft := by
  rw [Buffer.wordLeft?, h.wordStart?, Option.map_some]
  refine congrArg some (h.moveTo ?_ rfl)
  rw [← List.append_assoc]
  exact congrArg (· ++ b.after) (cutWordLeft_append b)

theorem wordRight_append (cs : List Char) : Text.wordRight cs ++ cs.drop (Text.wordRight cs).length = cs := by
  obtain ⟨rest, hrest, _⟩ := Zipper.wordRight_eq ⟨[], cs⟩
  have hdrop : (Text.wordRight cs ++ rest).drop (Text.wordRight cs).length = rest := List.drop_left
  rw [← hrest] at hdrop
  rw [hdrop, ← hrest]

theorem Shows.wordRight? (h : b.Shows l) : b.wordRight? = some b.wordRight := by
  rw [Buffer.wordRight?, Buffer.wordEnd?, h.cut_sides]
  dsimp only [Option.bind_eq_bind, Option.bind_some, Option.pure_def, Option.map_some]
  refine congrArg some (h.moveTo ?_ ?_)
  · rw [List.append_assoc, wordRight_append]
  · rw [h.cursor_eq, Text.size_append]

theorem Shows.deleteWordBackward? (h : b.Shows l) : b.deleteWordBackward? = some b.deleteWordBackward := by
  unfold Buffer.deleteWordBackward? Buffer.deleteWordBackward
  rw [h.wordStart?]
  dsimp only [Option.bind_eq_bind, Option.bind_some]
  split
  · rename_i hstays
    rw [h.cursor_eq] at hstays
    have hsame := (Text.eq_of_size_eq ((cutWordLeft_append b).trans (List.append_nil _).symm) hstays).1
    rw [edit_of_eq]
    · rfl
    · rw [hsame]
      rfl
  · rename_i hmoves
    refine changed?_eq ?_ rfl ?_
    · rw [h.cursor_eq, ← b.sides_append, ← cutWordLeft_append b, Text.removeRange?_size]
    · intro heq
      have hbefore : b.cutWordLeft.1 = b.before := (Prod.mk.inj heq).1
      exact hmoves (by rw [hbefore, h.cursor_eq])

theorem Shows.clearToCursor? (h : b.Shows l) : b.clearToCursor? = some b.clearToCursor := by
  unfold Buffer.clearToCursor? Buffer.clearToCursor
  have hzero : b.cursor = 0 ↔ b.before = [] := by
    rw [h.cursor_eq]
    constructor
    · intro hsize
      exact (Text.eq_of_size_eq (List.append_nil b.before) hsize).1
    · intro hnil
      rw [hnil, Text.size]
  split
  · rename_i hstart
    rw [edit_of_eq]
    rw [← hzero.mp hstart]
    rfl
  · rename_i hmoves
    refine changed?_eq ?_ rfl ?_
    · have hremove := Text.removeRange?_size [] b.before b.after
      rw [List.nil_append, b.sides_append, ← h.cursor_eq] at hremove
      exact hremove
    · intro heq
      exact hmoves (hzero.mpr (congrArg Prod.fst heq).symm)

theorem Shows.clearFromCursor? (h : b.Shows l) : b.clearFromCursor? = some b.clearFromCursor := by
  unfold Buffer.clearFromCursor? Buffer.clearFromCursor
  split
  · rename_i hend
    rw [edit_of_eq]
    rw [← h.atEnd hend]
    rfl
  · rename_i hend
    refine changed?_eq ?_ h.cursor_eq ?_
    · have hfits : ¬ Text.size b.text.toList < b.cursor := by
        rw [h.cursor_eq, ← b.sides_append, Text.size_append]
        omega
      rw [Text.truncate?, if_neg hfits, h.cut_sides, List.append_nil]
      rfl
    · intro heq
      exact h.not_atEnd hend (congrArg Prod.snd heq).symm

theorem replace?_eq (b : Buffer) (s : String) (cursor : Nat) : b.replace? s cursor = some (b.replace s cursor) := by
  have hfloor := Text.floor?_eq (Zipper.size_splitNear_le (min cursor s.utf8ByteSize) s.toList) (Nat.le_refl _)
  rw [← Text.size_toList, Text.splitNear_min] at hfloor
  rw [Buffer.replace?, ← Text.size_toList, hfloor]
  refine congrArg some ?_
  simp only [Buffer.replace, place, touched, Text.splitNear_append, String.ofList_toList]

theorem Shows.accept? (h : b.Shows l) : b.accept? = some b.accept := by
  have hbare : ({ b with suffix := none } : Buffer).Shows ⟨l.zipper, none⟩ := ⟨h.cut, rfl⟩
  unfold Buffer.accept? Buffer.accept Buffer.completion?
  cases b.suffix with
  | none => rfl
  | some suffix =>
      obtain ⟨text, kind⟩ := suffix
      cases kind with
      | completion =>
          dsimp only
          rw [hbare.insert?]
          split <;> rfl
      | hint => rfl
      | preview => rfl

/-- No step goes wrong. -/
theorem Shows.attempt_eq (h : b.Shows l) (edit : Edit) : b.attempt edit = some (b.apply edit) := by
  cases edit with
  | insert s => rw [attempt, h.insert?]; rfl
  | deleteBackward => rw [attempt, h.deleteBackward?]; rfl
  | deleteForward => rw [attempt, h.deleteForward?]; rfl
  | move delta => rw [attempt, h.move?]; rfl
  | toStart => exact congrArg (some ∘ answered) (h.moveTo rfl rfl)
  | toEnd =>
      refine congrArg (some ∘ answered) (h.moveTo (List.append_nil _) ?_)
      rw [← Text.size_toList, b.sides_append]
  | wordLeft => rw [attempt, h.wordLeft?]; rfl
  | wordRight => rw [attempt, h.wordRight?]; rfl
  | deleteWordBackward => rw [attempt, h.deleteWordBackward?]; rfl
  | clearToCursor => rw [attempt, h.clearToCursor?]; rfl
  | clearFromCursor => rw [attempt, h.clearFromCursor?]; rfl
  | replace s cursor => rw [attempt, replace?_eq]; rfl
  | clear => rw [attempt, replace?_eq]; rfl
  | setSuffix suffix => rfl
  | accept => rw [attempt, h.accept?]; rfl
  | continueLine prompt => rw [attempt, replace?_eq]; rfl
  | reset prompt => rw [attempt, replace?_eq]; rfl

theorem Shows.attemptAll_eq (h : b.Shows l) (edits : List Edit) : b.attemptAll edits = some (b.run edits) := by
  induction edits generalizing b l with
  | nil => rfl
  | cons edit edits ih =>
      rw [attemptAll, List.foldlM_cons, h.attempt_eq]
      exact ih (h.apply edit).1

end

/-- Whatever edits a new line has had: none of their steps on the bytes has gone wrong, the cursor is between the
characters that the same edits of a zipper leave on its sides, and the answer to the next edit is whether it does
anything. -/
theorem run_refines (prompt : String) (edits : List Edit) (edit : Edit) :
    let b := ({ prompt } : Buffer).run edits
    let l := ({} : Line).run edits
    ({ prompt } : Buffer).attemptAll edits = some b ∧
      Text.splitAt? b.cursor b.text.toList = some (l.zipper.left.reverse, l.zipper.right) ∧
      b.attempt edit = some (b.apply edit) ∧
      ∀ answer ∈ (b.apply edit).1, (answer = true ↔ l.Does edit) := by
  have hshows := (shows_new prompt).run edits
  exact ⟨(shows_new prompt).attemptAll_eq edits, hshows.cut, hshows.attempt_eq edit, (hshows.apply edit).2⟩

end Console.Buffer

end ScriptRepl
