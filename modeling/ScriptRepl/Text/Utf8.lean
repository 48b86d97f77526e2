/-! UTF-8 read from the front of the bytes that have come. Every longest part of the bytes that cannot begin a
character becomes one replacement character; the bytes of a character whose last ones have not come yet are held
back. -/
namespace ScriptRepl.Text.Utf8

def replacement : Char := '\ufffd'

/-- A character behind its first byte: the bits read so far, the bounds of the next byte and the number of bytes that
follow that one. -/
def within (bits low high more : Nat) : List UInt8 → Option (Char × List UInt8)
  | [] => none
  | b :: bs =>
    if low ≤ b.toNat && b.toNat ≤ high then
      let bits := bits * 64 + (b.toNat - 0x80)
      match more with
      | 0 => some (Char.ofNat bits, bs)
      | more + 1 => within bits 0x80 0xbf more bs
    else some (replacement, b :: bs)

/-- What the first byte of a character says of it. -/
inductive Lead where
  /-- The byte is a character, or begins none. -/
  | alone (c : Char)
  | opens (bits low high more : Nat)

def lead (b : Nat) : Lead :=
  if b < 0x80 then .alone (Char.ofNat b)
  else if b < 0xc2 then .alone replacement
  else if b < 0xe0 then .opens (b - 0xc0) 0x80 0xbf 0
  else if b < 0xf0 then
    .opens (b - 0xe0) (if b = 0xe0 then 0xa0 else 0x80) (if b = 0xed then 0x9f else 0xbf) 1
  else if b < 0xf5 then
    .opens (b - 0xf0) (if b = 0xf0 then 0x90 else 0x80) (if b = 0xf4 then 0x8f else 0xbf) 2
  else .alone replacement

/-- The first character and the bytes behind it; none if there are no bytes, or not yet all of the first character. -/
def front : List UInt8 → Option (Char × List UInt8)
  | [] => none
  | b :: bs =>
    match lead b.toNat with
    | .alone c => some (c, bs)
    | .opens bits low high more => within bits low high more bs

theorem length_le_of_within {bits low high more : Nat} {bs rest : List UInt8} {c : Char}
    (h : within bits low high more bs = some (c, rest)) : rest.length ≤ bs.length := by
  induction bs generalizing bits low high more with
  | nil =>
      rw [within] at h
      cases h
  | cons b bs ih =>
      rw [within] at h
      split at h
      · cases more with
        | zero =>
            obtain ⟨_, rfl⟩ := Prod.mk.inj (Option.some.inj h)
            exact Nat.le_succ _
        | succ more => exact Nat.le_succ_of_le (ih h)
      · obtain ⟨_, rfl⟩ := Prod.mk.inj (Option.some.inj h)
        exact Nat.le_refl _

theorem length_lt_of_front {bs rest : List UInt8} {c : Char} (h : front bs = some (c, rest)) :
    rest.length < bs.length := by
  cases bs with
  | nil => cases h
  | cons b bs =>
      refine Nat.lt_succ_of_le ?_
      rw [front] at h
      split at h
      · obtain ⟨_, rfl⟩ := Prod.mk.inj (Option.some.inj h)
        exact Nat.le_refl _
      · exact length_le_of_within h

/-- The characters, and the bytes that are held back. -/
def decode (bytes : List UInt8) : List Char × List UInt8 :=
  match _h : front bytes with
  | none => ([], bytes)
  | some (c, rest) =>
    let (cs, held) := decode rest
    (c :: cs, held)
termination_by bytes.length
decreasing_by exact length_lt_of_front _h

theorem decode_of_none {bytes : List UInt8} (h : front bytes = none) : decode bytes = ([], bytes) := by
  rw [decode]
  split
  · rfl
  · simp_all

theorem decode_of_some {bytes rest : List UInt8} {c : Char} (h : front bytes = some (c, rest)) :
    decode bytes = (c :: (decode rest).1, (decode rest).2) := by
  rw [decode]
  split
  · simp_all
  · rename_i hfront
    rw [h] at hfront
    cases hfront
    rfl

end ScriptRepl.Text.Utf8
