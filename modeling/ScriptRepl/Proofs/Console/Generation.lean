import ScriptRepl.Console.Background

/-! How the line goes on in time. Within one generation only its suffix is taken away; every other change begins a new
generation, without a suffix. A job therefore fits the line as long as the generation that it bears is the line's. -/
namespace ScriptRepl.Console

namespace Buffer

/-- The second line is the first one, bare or as it was, or belongs to a later generation. -/
inductive Advances (b : Buffer) : Buffer → Prop where
  | same : b.Advances b
  | bare : b.Advances (b.setSuffix none)
  | later {b' : Buffer} (hgeneration : b.generation < b'.generation) (hsuffix : b'.suffix = none) : b.Advances b'

theorem Advances.generation_le {b b' : Buffer} (h : b.Advances b') : b.generation ≤ b'.generation := by
  cases h with
  | same => exact Nat.le_refl _
  | bare => exact Nat.le_refl _
  | later hgeneration _ => exact Nat.le_of_lt hgeneration

theorem Advances.trans {a b c : Buffer} (hab : a.Advances b) (hbc : b.Advances c) : a.Advances c := by
  cases hbc with
  | same => exact hab
  | bare =>
      cases hab with
      | same => exact .bare
      | bare => exact .bare
      | later hgeneration _ => exact .later hgeneration rfl
  | later hgeneration hsuffix => exact .later (Nat.lt_of_le_of_lt hab.generation_le hgeneration) hsuffix

theorem advances_place (b : Buffer) (before after : List Char) : b.Advances (b.place before after) :=
  .later (Nat.lt_succ_self _) rfl

theorem advances_edit (b : Buffer) (before after : List Char) : b.Advances (b.edit before after).2 := by
  unfold edit
  split
  · exact .same
  · exact b.advances_place before after

theorem advances_move (b : Buffer) (delta : Int) : b.Advances (b.move delta).2 := by
  unfold move
  dsimp only
  split
  · exact b.advances_edit _ _
  · exact b.advances_edit _ _

theorem advances_accept (b : Buffer) : b.Advances b.accept.2 := by
  unfold accept
  split
  · split
    · exact Advances.bare.trans (advances_edit (b.setSuffix none) _ _)
    · exact .same
  · exact .same

theorem advances_replace (b : Buffer) (s : String) (cursor : Nat) : b.Advances (b.replace s cursor) :=
  b.advances_place _ _

theorem advances_continueLine (b : Buffer) (prompt : String) : b.Advances (b.continueLine prompt) :=
  .later (Nat.lt_succ_self _) rfl

theorem advances_reset (b : Buffer) (prompt : String) : b.Advances (b.reset prompt) :=
  .later (Nat.lt_succ_self _) rfl

/-- With the cursor at the end the statement up to the cursor is the whole one. -/
theorem beforeCursor_of_atEnd {b : Buffer} (h : b.atEnd = true) : b.beforeCursor = b.text := by
  have hcursor : b.cursor = Text.size b.text.toList := by
    rw [Text.size_toList]
    exact of_decide_eq_true h
  have hsplit := Text.splitAt?_size b.text.toList []
  rw [List.append_nil, ← hcursor] at hsplit
  rw [beforeCursor, before, sides, hsplit]
  exact String.ofList_toList

end Buffer

/-! ### Jobs -/

/-- A job is for the line or for an earlier one. -/
def Job.Fits (b : Buffer) : Job → Prop
  | .complete generation mode source =>
      generation ≤ b.generation ∧
        (generation = b.generation → source = b.committed ++ b.beforeCursor ∧ (mode = .partly → b.atEnd = true))
  | .preview generation source _ =>
      generation ≤ b.generation ∧ (generation = b.generation → source = b.statement)

theorem Job.Fits.advance {b b' : Buffer} {job : Job} (h : job.Fits b) (hb : b.Advances b') : job.Fits b' := by
  cases hb with
  | same => exact h
  | bare => cases job <;> exact h
  | later hgeneration _ =>
      cases job with
      | complete generation mode source =>
          have hle : generation ≤ b.generation := h.1
          exact ⟨by omega, fun heq => by omega⟩
      | preview generation source width =>
          have hle : generation ≤ b.generation := h.1
          exact ⟨by omega, fun heq => by omega⟩

end ScriptRepl.Console
