import ScriptRepl.Text.Bytes

/-! A place in a text that is being read: the byte offset and the characters that follow it. -/
namespace ScriptRepl.Text

structure Cursor where
  offset : Nat
  rest : List Char
  deriving DecidableEq, Repr

namespace Cursor

def ofString (s : String) : Cursor :=
  ⟨0, s.toList⟩

def next? : Cursor → Option (Char × Cursor)
  | ⟨_, []⟩ => none
  | ⟨n, c :: cs⟩ => some (c, ⟨n + c.utf8Size, cs⟩)

def peek? (c : Cursor) : Option Char :=
  c.rest.head?

/-- Passes over the characters of the class that come first. -/
def skipWhile (p : Char → Bool) (c : Cursor) : Cursor :=
  go c.offset c.rest
where
  go (n : Nat) : List Char → Cursor
    | [] => ⟨n, []⟩
    | c :: cs => if p c then go (n + c.utf8Size) cs else ⟨n, c :: cs⟩

def skip : Nat → Cursor → Cursor
  | n + 1, ⟨offset, c :: cs⟩ => skip n ⟨offset + c.utf8Size, cs⟩
  | _, c => c

def atEnd (c : Cursor) : Cursor :=
  ⟨c.offset + size c.rest, []⟩

/-- One place can be reached from another by passing over characters. -/
def Reaches (a b : Cursor) : Prop :=
  ∃ passed, a.rest = passed ++ b.rest ∧ b.offset = a.offset + size passed

theorem Reaches.refl (a : Cursor) : a.Reaches a :=
  ⟨[], rfl, rfl⟩

theorem Reaches.trans {a b c : Cursor} (h : a.Reaches b) (g : b.Reaches c) : a.Reaches c := by
  obtain ⟨p, hp, hn⟩ := h
  obtain ⟨q, hq, hm⟩ := g
  exact ⟨p ++ q, by rw [hp, hq, List.append_assoc], by rw [hm, hn, size_append, Nat.add_assoc]⟩

theorem Reaches.length_le {a b : Cursor} (h : a.Reaches b) : b.rest.length ≤ a.rest.length := by
  obtain ⟨p, hp, _⟩ := h
  simp [hp]

theorem reaches_of_next? {a b : Cursor} {c : Char} (h : a.next? = some (c, b)) : a.Reaches b := by
  obtain ⟨n, _ | ⟨d, cs⟩⟩ := a
  · simp [next?] at h
  · simp only [next?, Option.some.injEq, Prod.mk.injEq] at h
    obtain ⟨rfl, rfl⟩ := h
    exact ⟨[d], rfl, by simp [size]⟩

theorem length_lt_of_next? {a b : Cursor} {c : Char} (h : a.next? = some (c, b)) :
    b.rest.length < a.rest.length := by
  obtain ⟨n, _ | ⟨d, cs⟩⟩ := a
  · simp [next?] at h
  · simp only [next?, Option.some.injEq, Prod.mk.injEq] at h
    obtain ⟨rfl, rfl⟩ := h
    simp

theorem reaches_skipWhile_go (p : Char → Bool) (n : Nat) (cs : List Char) :
    Reaches ⟨n, cs⟩ (skipWhile.go p n cs) := by
  induction cs generalizing n with
  | nil => exact .refl _
  | cons c cs ih =>
    rw [skipWhile.go]
    split
    · exact .trans (reaches_of_next? rfl) (ih _)
    · exact .refl _

theorem reaches_skipWhile (p : Char → Bool) (c : Cursor) : c.Reaches (c.skipWhile p) :=
  reaches_skipWhile_go p c.offset c.rest

theorem reaches_skip (n : Nat) (c : Cursor) : c.Reaches (c.skip n) := by
  fun_induction skip n c with
  | case1 n offset c cs ih => exact .trans (reaches_of_next? rfl) ih
  | case2 => exact .refl _

theorem reaches_atEnd (c : Cursor) : c.Reaches c.atEnd :=
  ⟨c.rest, by simp [atEnd], rfl⟩

end Cursor

end ScriptRepl.Text
