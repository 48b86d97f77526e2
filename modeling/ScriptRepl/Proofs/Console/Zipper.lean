import Mathlib.Data.Nat.Find
import Mathlib.Logic.Function.Iterate
import ScriptRepl.Console.Buffer

/-! The line as a zipper: the characters on the two sides of the cursor, without offsets. Its operations go from
character to character; the buffer's do the same. -/
namespace ScriptRepl.Console

/-- The characters before the cursor, nearest first, and those after it. -/
structure Zipper where
  left : List Char
  right : List Char
  deriving DecidableEq

namespace Zipper

def goLeft : Zipper → Zipper
  | ⟨c :: left, right⟩ => ⟨left, c :: right⟩
  | ⟨[], right⟩ => ⟨[], right⟩

def goRight : Zipper → Zipper
  | ⟨left, c :: right⟩ => ⟨c :: left, right⟩
  | ⟨left, []⟩ => ⟨left, []⟩

/-- Goes left as long as the next character is of the class. -/
def goLeftWhile (p : Char → Bool) (z : Zipper) : Zipper :=
  go z.left z.right
where
  go : List Char → List Char → Zipper
    | c :: left, right => if p c then go left (c :: right) else ⟨c :: left, right⟩
    | [], right => ⟨[], right⟩

def goRightWhile (p : Char → Bool) (z : Zipper) : Zipper :=
  go z.left z.right
where
  go : List Char → List Char → Zipper
    | left, c :: right => if p c then go (c :: left) right else ⟨left, c :: right⟩
    | left, [] => ⟨left, []⟩

def insert (z : Zipper) (cs : List Char) : Zipper :=
  cs.foldl (fun z c => ⟨c :: z.left, z.right⟩) z

def deleteBackward (z : Zipper) : Zipper :=
  ⟨z.left.tail, z.right⟩

def deleteForward (z : Zipper) : Zipper :=
  ⟨z.left, z.right.tail⟩

def move (z : Zipper) : Int → Zipper
  | .ofNat n => goRight^[n] z
  | .negSucc n => goLeft^[n + 1] z

def toStart (z : Zipper) : Zipper :=
  goLeft^[z.left.length] z

def toEnd (z : Zipper) : Zipper :=
  goRight^[z.right.length] z

/-- Over blanks, and then over one run of word characters or of symbols. -/
def wordLeft (z : Zipper) : Zipper :=
  let z := z.goLeftWhile Text.isBlank
  match z.left with
  | [] => z
  | c :: _ => z.goLeftWhile (if Text.isWordChar c then Text.isWordChar else Text.isSymbolChar)

/-- Over blanks; or over a word and the blanks behind it; or up to the next word. -/
def wordRight (z : Zipper) : Zipper :=
  match z.right with
  | [] => z
  | c :: _ =>
    if Text.isBlank c then z.goRightWhile Text.isBlank
    else if Text.isWordChar c then (z.goRightWhile Text.isWordChar).goRightWhile Text.isBlank
    else z.goRightWhile fun d => !Text.isWordChar d

def deleteWordBackward (z : Zipper) : Zipper :=
  ⟨z.wordLeft.left, z.right⟩

def clearToCursor (z : Zipper) : Zipper :=
  ⟨[], z.right⟩

def clearFromCursor (z : Zipper) : Zipper :=
  ⟨z.left, []⟩

/-- A text with as many characters before the cursor as the offset has bytes for. -/
def ofOffset (cs : List Char) (offset : Nat) : Zipper :=
  goRight^[Nat.findGreatest (fun n => Text.size (cs.take n) ≤ offset) cs.length] ⟨[], cs⟩

/-! ### Steps as lengths -/

theorem goLeft_iterate (left right : List Char) (n : Nat) :
    goLeft^[n] ⟨left, right⟩ = ⟨left.drop n, (left.take n).reverse ++ right⟩ := by
  induction n generalizing left right with
  | zero => simp
  | succ n ih =>
      rw [Function.iterate_succ_apply]
      cases left with
      | nil => simp [goLeft, ih]
      | cons c left => simp [goLeft, ih]

theorem goRight_iterate (left right : List Char) (n : Nat) :
    goRight^[n] ⟨left, right⟩ = ⟨(right.take n).reverse ++ left, right.drop n⟩ := by
  induction n generalizing left right with
  | zero => simp
  | succ n ih =>
      rw [Function.iterate_succ_apply]
      cases right with
      | nil => simp [goRight, ih]
      | cons c right => simp [goRight, ih]

theorem goLeftWhile_eq (p : Char → Bool) (z : Zipper) :
    z.goLeftWhile p = ⟨z.left.dropWhile p, (z.left.takeWhile p).reverse ++ z.right⟩ := by
  obtain ⟨left, right⟩ := z
  unfold goLeftWhile
  dsimp only
  induction left generalizing right with
  | nil => rfl
  | cons c left ih =>
      rw [goLeftWhile.go]
      split
      · rename_i hc
        simp [ih, hc]
      · rename_i hc
        simp [hc]

theorem goRightWhile_eq (p : Char → Bool) (z : Zipper) :
    z.goRightWhile p = ⟨(z.right.takeWhile p).reverse ++ z.left, z.right.dropWhile p⟩ := by
  obtain ⟨left, right⟩ := z
  unfold goRightWhile
  dsimp only
  induction right generalizing left with
  | nil => rfl
  | cons c right ih =>
      rw [goRightWhile.go]
      split
      · rename_i hc
        simp [ih, hc]
      · rename_i hc
        simp [hc]

theorem insert_eq (z : Zipper) (cs : List Char) : z.insert cs = ⟨cs.reverse ++ z.left, z.right⟩ := by
  unfold insert
  induction cs generalizing z with
  | nil => rfl
  | cons c cs ih => simp [ih]

theorem toStart_eq (z : Zipper) : z.toStart = ⟨[], z.left.reverse ++ z.right⟩ := by
  rw [toStart, goLeft_iterate, List.drop_length, List.take_length]

theorem toEnd_eq (z : Zipper) : z.toEnd = ⟨z.right.reverse ++ z.left, []⟩ := by
  rw [toEnd, goRight_iterate, List.drop_length, List.take_length]

theorem leadingRun_cons (c : Char) (cs : List Char) :
    Text.leadingRun (c :: cs) =
      (c :: cs).takeWhile (if Text.isWordChar c then Text.isWordChar else Text.isSymbolChar) := by
  rw [Text.leadingRun]
  split <;> rfl

/-- A motion to the left by a word passes over what `Text.wordLeft` finds. -/
theorem wordLeft_eq (z : Zipper) :
    ∃ rest, z.left = Text.wordLeft z.left.reverse ++ rest ∧
      z.wordLeft = ⟨rest, (Text.wordLeft z.left.reverse).reverse ++ z.right⟩ := by
  have hblanks := List.takeWhile_append_dropWhile (p := Text.isBlank) (l := z.left)
  unfold wordLeft Text.wordLeft
  rw [goLeftWhile_eq, List.reverse_reverse]
  dsimp only
  cases hrest : z.left.dropWhile Text.isBlank with
  | nil =>
      rw [hrest] at hblanks
      exact ⟨[], by rw [Text.leadingRun, List.append_nil, hblanks], by rw [Text.leadingRun, List.append_nil]⟩
  | cons c rest =>
      have hrun := List.takeWhile_append_dropWhile
        (p := if Text.isWordChar c then Text.isWordChar else Text.isSymbolChar) (l := c :: rest)
      refine ⟨(c :: rest).dropWhile (if Text.isWordChar c then Text.isWordChar else Text.isSymbolChar), ?_, ?_⟩
      · rw [leadingRun_cons, List.append_assoc, hrun, ← hrest, hblanks]
      · dsimp only
        rw [goLeftWhile_eq, leadingRun_cons, List.reverse_append, List.append_assoc]

theorem wordRight_eq (z : Zipper) :
    ∃ rest, z.right = Text.wordRight z.right ++ rest ∧
      z.wordRight = ⟨(Text.wordRight z.right).reverse ++ z.left, rest⟩ := by
  obtain ⟨left, right⟩ := z
  unfold wordRight
  cases right with
  | nil => exact ⟨[], rfl, rfl⟩
  | cons c right =>
      dsimp only [Text.wordRight]
      split
      · exact ⟨_, List.takeWhile_append_dropWhile.symm, goRightWhile_eq _ _⟩
      · split
        · refine ⟨((c :: right).dropWhile Text.isWordChar).dropWhile Text.isBlank, ?_, ?_⟩
          · rw [List.append_assoc, List.takeWhile_append_dropWhile, List.takeWhile_append_dropWhile]
          · rw [goRightWhile_eq, goRightWhile_eq, List.reverse_append, List.append_assoc]
        · exact ⟨_, List.takeWhile_append_dropWhile.symm, goRightWhile_eq _ _⟩

theorem size_splitNear_le (offset : Nat) (cs : List Char) : Text.size (Text.splitNear offset cs).1 ≤ offset := by
  fun_induction Text.splitNear offset cs with
  | case1 => exact Nat.zero_le _
  | case2 offset c cs hfits rest ih =>
      simp only [Text.size, rest]
      omega
  | case3 => exact Nat.zero_le _

theorem lt_size_of_splitNear_lt {offset n : Nat} {cs : List Char} (h : (Text.splitNear offset cs).1.length < n)
    (hn : n ≤ cs.length) : offset < Text.size (cs.take n) := by
  obtain ⟨n, rfl⟩ := Nat.exists_eq_succ_of_ne_zero (Nat.ne_zero_of_lt h)
  induction cs generalizing offset n with
  | nil => cases hn
  | cons c cs ih =>
      rw [List.take_succ_cons, Text.size]
      rw [Text.splitNear] at h
      split at h
      · have hlt : (Text.splitNear (offset - c.utf8Size) cs).1.length < n := Nat.lt_of_succ_lt_succ h
        obtain ⟨n, rfl⟩ := Nat.exists_eq_succ_of_ne_zero (Nat.ne_zero_of_lt hlt)
        have hrest := ih n hlt (Nat.le_of_succ_le_succ hn)
        omega
      · omega

/-- The greatest boundary that is not after the offset has before it as many characters as fit. -/
theorem ofOffset_eq (cs : List Char) (offset : Nat) :
    ofOffset cs offset = ⟨(Text.splitNear offset cs).1.reverse, (Text.splitNear offset cs).2⟩ := by
  have happend := Text.splitNear_append offset cs
  generalize hsplit : Text.splitNear offset cs = parts at happend
  obtain ⟨before, after⟩ := parts
  have hcount : Nat.findGreatest (fun n => Text.size (cs.take n) ≤ offset) cs.length = before.length := by
    rw [Nat.findGreatest_eq_iff]
    refine ⟨?_, fun _ => ?_, fun n hlt hle => ?_⟩
    · rw [← happend, List.length_append]
      exact Nat.le_add_right _ _
    · have hfits := size_splitNear_le offset cs
      rw [hsplit] at hfits
      rw [← happend, List.take_left]
      exact hfits
    · have hmore : offset < Text.size (cs.take n) := lt_size_of_splitNear_lt (by rw [hsplit]; exact hlt) hle
      exact Nat.not_le.mpr hmore
  rw [ofOffset, hcount, goRight_iterate, ← happend, List.take_left, List.drop_left, List.append_nil]

end Zipper

end ScriptRepl.Console
