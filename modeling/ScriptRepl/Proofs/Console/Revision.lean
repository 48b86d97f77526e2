import ScriptRepl.Proofs.Console.Editing

/-! The generation of the line. An edit takes it one further exactly where the line itself is another one, so what was
found out for a generation holds as long as the line has it. -/
namespace ScriptRepl.Console.Buffer

/-- The line without what is only shown: its text, its cursor, its prompt and the lines above it. -/
def content (b : Buffer) : String × Nat × String × String :=
  (b.text, b.cursor, b.prompt, b.committed)

/-- The line is as it was but for its suffix, or it has no suffix and is one generation further. -/
inductive Revises (b : Buffer) : Buffer → Prop
  | keeps (suffix : Option Suffix) : b.Revises (b.setSuffix suffix)
  | touches {b' : Buffer} (hgeneration : b'.generation = b.generation + 1) (hsuffix : b'.suffix = none) : b.Revises b'

theorem Revises.content_eq {b b' : Buffer} (h : b.Revises b') (hgeneration : b'.generation = b.generation) :
    b'.content = b.content := by
  cases h with
  | keeps suffix => rfl
  | touches htouched _ => omega

theorem Revises.of_content_ne {b b' : Buffer} (h : b.Revises b') (hne : b'.content ≠ b.content) :
    b'.suffix = none ∧ b.generation < b'.generation := by
  cases h with
  | keeps suffix => exact absurd rfl hne
  | touches hgeneration hsuffix => exact ⟨hsuffix, by omega⟩

theorem Revises.generation_bounds {b b' : Buffer} (h : b.Revises b') :
    b.generation ≤ b'.generation ∧ b'.generation ≤ b.generation + 1 := by
  cases h with
  | keeps suffix => exact ⟨Nat.le_refl _, Nat.le_succ _⟩
  | touches hgeneration _ => omega

/-- The suffix may go first. -/
theorem Revises.of_bare {b b' : Buffer} (h : (b.setSuffix none).Revises b') : b.Revises b' := by
  cases h with
  | keeps suffix => exact .keeps suffix
  | touches hgeneration hsuffix => exact .touches hgeneration hsuffix

/-- What an edit makes of the line: a revision, and nothing if the answer is that there was nothing to do. -/
structure Outcome (b : Buffer) (r : Option Bool × Buffer) : Prop where
  revises : b.Revises r.2
  refuses : r.1 = some false → r.2 = b

theorem revises_place (b : Buffer) (before after : List Char) : b.Revises (b.place before after) :=
  .touches rfl rfl

theorem outcome_edit (b : Buffer) (before after : List Char) : b.Outcome (answered (b.edit before after)) := by
  unfold edit
  split
  · exact ⟨.keeps b.suffix, fun _ => rfl⟩
  · exact ⟨b.revises_place before after, nofun⟩

theorem outcome_silent {b b' : Buffer} (h : b.Revises b') : b.Outcome (none, b') :=
  ⟨h, nofun⟩

theorem outcome_move (b : Buffer) (delta : Int) : b.Outcome (answered (b.move delta)) := by
  unfold move
  dsimp only
  split
  · exact b.outcome_edit _ _
  · exact b.outcome_edit _ _

/-- A completion is taken into the line that has no suffix any more; one without text only goes. -/
theorem outcome_accept (b : Buffer) : b.Outcome (answered b.accept) := by
  unfold accept
  split
  · rename_i text _
    split
    · exact ⟨((b.setSuffix none).outcome_edit _ _).revises.of_bare, nofun⟩
    · exact ⟨.keeps b.suffix, fun _ => rfl⟩
  · exact ⟨.keeps b.suffix, fun _ => rfl⟩

theorem apply_outcome (b : Buffer) (edit : Edit) : b.Outcome (b.apply edit) := by
  cases edit with
  | insert s => exact outcome_silent (b.outcome_edit _ _).revises
  | deleteBackward => exact b.outcome_edit _ _
  | deleteForward => exact b.outcome_edit _ _
  | move delta => exact b.outcome_move delta
  | toStart => exact b.outcome_edit _ _
  | toEnd => exact b.outcome_edit _ _
  | wordLeft => exact b.outcome_edit _ _
  | wordRight => exact b.outcome_edit _ _
  | deleteWordBackward => exact b.outcome_edit _ _
  | clearToCursor => exact b.outcome_edit _ _
  | clearFromCursor => exact b.outcome_edit _ _
  | replace s cursor => exact outcome_silent (b.revises_place _ _)
  | clear => exact outcome_silent (b.revises_place _ _)
  | setSuffix suffix => exact outcome_silent (.keeps suffix)
  | accept => exact b.outcome_accept
  | continueLine prompt => exact outcome_silent (.touches rfl rfl)
  | reset prompt => exact outcome_silent (.touches rfl rfl)

/-! ### Runs of edits -/

theorem run_append (b : Buffer) (edits later : List Edit) : b.run (edits ++ later) = (b.run edits).run later :=
  List.foldl_append

theorem run_generation_bounds (b : Buffer) (edits : List Edit) :
    b.generation ≤ (b.run edits).generation ∧ (b.run edits).generation ≤ b.generation + edits.length := by
  induction edits generalizing b with
  | nil => exact ⟨Nat.le_refl _, Nat.le_refl _⟩
  | cons edit edits ih =>
      have hstep := (b.apply_outcome edit).revises.generation_bounds
      have hrest := ih (b.apply edit).2
      have hrun : b.run (edit :: edits) = (b.apply edit).2.run edits := rfl
      rw [hrun, List.length_cons]
      omega

theorem run_content_eq (b : Buffer) (edits : List Edit) (h : (b.run edits).generation = b.generation) :
    (b.run edits).content = b.content := by
  induction edits generalizing b with
  | nil => rfl
  | cons edit edits ih =>
      have hrun : b.run (edit :: edits) = (b.apply edit).2.run edits := rfl
      rw [hrun] at h ⊢
      -- the generation cannot go back, so the first edit has left it as it is
      have hstep := (b.apply_outcome edit).revises
      have hle := hstep.generation_bounds.1
      have hle' := ((b.apply edit).2.run_generation_bounds edits).1
      have hfirst : (b.apply edit).2.generation = b.generation := by omega
      rw [ih (b.apply edit).2 (h.trans hfirst.symm), hstep.content_eq hfirst]

/-- Two points of a run with the same generation, the first one before the second one. -/
theorem content_eq_of_le (b : Buffer) (edits : List Edit) {m n : Nat} (hmn : m ≤ n)
    (h : (b.run (edits.take m)).generation = (b.run (edits.take n)).generation) :
    (b.run (edits.take n)).content = (b.run (edits.take m)).content := by
  obtain ⟨k, rfl⟩ := Nat.exists_eq_add_of_le hmn
  rw [List.take_add, run_append] at h ⊢
  exact run_content_eq _ _ h.symm

/-- In a run of edits a generation stands for one text, one cursor, one prompt and the same lines above. The edit that
comes next leaves no suffix and a later generation if it changes any of these, and leaves everything if its answer is
`false`. The generation counts no further than the edits. -/
theorem run_identifies (b : Buffer) (edits : List Edit) :
    (∀ m n, (b.run (edits.take m)).generation = (b.run (edits.take n)).generation →
        (b.run (edits.take m)).content = (b.run (edits.take n)).content) ∧
      (∀ edit,
        (((b.run edits).apply edit).2.content ≠ (b.run edits).content →
            ((b.run edits).apply edit).2.suffix = none ∧
              (b.run edits).generation < ((b.run edits).apply edit).2.generation) ∧
          (((b.run edits).apply edit).1 = some false → ((b.run edits).apply edit).2 = b.run edits)) ∧
      (b.run edits).generation ≤ b.generation + edits.length := by
  refine ⟨fun m n h => ?_, fun edit => ?_, (b.run_generation_bounds edits).2⟩
  · rcases Nat.le_total m n with hmn | hnm
    · exact (content_eq_of_le b edits hmn h).symm
    · exact content_eq_of_le b edits hnm h.symm
  · have houtcome := (b.run edits).apply_outcome edit
    exact ⟨houtcome.revises.of_content_ne, houtcome.refuses⟩

end ScriptRepl.Console.Buffer
