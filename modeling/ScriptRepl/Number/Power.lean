/-! Powers of the two bases that numbers are kept and spelled in. -/
namespace ScriptRepl.Number

def twoTo (n : Nat) : Nat :=
  Nat.pow 2 n

def tenTo (n : Nat) : Nat :=
  Nat.pow 10 n

theorem twoTo_pos (n : Nat) : 0 < twoTo n :=
  Nat.pow_pos (by decide)

theorem tenTo_pos (n : Nat) : 0 < tenTo n :=
  Nat.pow_pos (by decide)

end ScriptRepl.Number
