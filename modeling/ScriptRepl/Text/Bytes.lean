/-! Places in a text as UTF-8 byte offsets. An offset names a place only on a character boundary; `splitAt?` says
whether it does and cuts there. -/
namespace ScriptRepl.Text

/-- Bytes that the characters take in UTF-8. -/
def size : List Char → Nat
  | [] => 0
  | c :: cs => c.utf8Size + size cs

@[simp] theorem size_append (a b : List Char) : size (a ++ b) = size a + size b := by
  induction a with
  | nil => simp [size]
  | cons c a ih => simp [size, ih, Nat.add_assoc]

theorem size_toList (s : String) : size s.toList = s.utf8ByteSize := by
  have hofList : ∀ cs : List Char, size cs = (String.ofList cs).utf8ByteSize := by
    intro cs
    induction cs with
    | nil => rfl
    | cons c cs ih =>
        rw [size, ih, String.ofList_cons, String.utf8ByteSize_append]
        simp
  rw [hofList, String.ofList_toList]

/-- Cuts at a byte offset; there is no cut inside a character or past the end. -/
def splitAt? : Nat → List Char → Option (List Char × List Char)
  | 0, cs => some ([], cs)
  | _ + 1, [] => none
  | n + 1, c :: cs =>
    if c.utf8Size ≤ n + 1 then
      match splitAt? (n + 1 - c.utf8Size) cs with
      | some (a, b) => some (c :: a, b)
      | none => none
    else none

theorem splitAt?_size (a b : List Char) : splitAt? (size a) (a ++ b) = some (a, b) := by
  induction a with
  | nil => cases b <;> rfl
  | cons c a ih =>
    obtain ⟨n, hn⟩ : ∃ n, size (c :: a) = n + 1 :=
      ⟨size (c :: a) - 1, by have := c.utf8Size_pos; simp only [size]; omega⟩
    rw [hn, List.cons_append, splitAt?]
    have hsize : n + 1 - c.utf8Size = size a := by simp only [size] at hn; omega
    have hle : c.utf8Size ≤ n + 1 := by simp only [size] at hn; omega
    simp [hle, hsize, ih]

theorem eq_append_of_splitAt? {n : Nat} {cs a b : List Char} (h : splitAt? n cs = some (a, b)) :
    cs = a ++ b ∧ size a = n := by
  fun_induction splitAt? n cs generalizing a b with
  | case1 => simp_all [size]
  | case2 => simp at h
  | case3 n c cs hle a' b' hs ih =>
    obtain ⟨rfl, rfl⟩ := Prod.mk.inj (Option.some.inj h)
    obtain ⟨rfl, hsize⟩ := ih hs
    exact ⟨rfl, by simp only [size]; omega⟩
  | case4 => simp at h
  | case5 => simp at h

/-- The two sides of the greatest boundary that is not after the offset. -/
def splitNear : Nat → List Char → List Char × List Char
  | _, [] => ([], [])
  | n, c :: cs =>
    if c.utf8Size ≤ n then
      let rest := splitNear (n - c.utf8Size) cs
      (c :: rest.1, rest.2)
    else ([], c :: cs)

theorem splitNear_append (n : Nat) (cs : List Char) : (splitNear n cs).1 ++ (splitNear n cs).2 = cs := by
  fun_induction splitNear n cs with
  | case1 => rfl
  | case2 n c cs _ rest ih => exact congrArg (c :: ·) ih
  | case3 => rfl

end ScriptRepl.Text
