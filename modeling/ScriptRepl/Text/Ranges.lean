/-! Sets of code points as sorted bounds: a code point is in the set when it lies in one of the half-open
intervals `[start, stop)` that the list spells out pair by pair. -/
namespace ScriptRepl.Text

def inRanges : List Nat → Nat → Bool
  | start :: stop :: rest, n => start ≤ n && (n < stop || inRanges rest n)
  | _, _ => false

theorem inRanges_eq_false_of_lt {start : Nat} {rest : List Nat} {n : Nat} (h : n < start) :
    inRanges (start :: rest) n = false := by
  cases rest with
  | nil => rfl
  | cons stop rest => simp [inRanges, Nat.not_le.2 h]

end ScriptRepl.Text
