import ScriptRepl.Proofs.Console.Belonging
import ScriptRepl.Proofs.Console.Statements

/-! The candidates and the one of them that is shown. They are kept apart from the line: whatever moves the line on
leaves behind the candidates of an older generation, which no longer count, and within one generation the two are only
parted by a candidate that is dismissed and by an answer that takes the candidates away without giving any. -/
namespace ScriptRepl.Console

open Assist (Completion)

/-! ### The line -/

/-- The line is as it was, or belongs to a later generation. -/
inductive Buffer.Moves (b : Buffer) : Buffer → Prop where
  | same : b.Moves b
  | later {b' : Buffer} (hgeneration : b.generation < b'.generation) (hsuffix : b'.suffix = none) : b.Moves b'

namespace Buffer

theorem Moves.advances {b b' : Buffer} (h : b.Moves b') : b.Advances b' := by
  cases h with
  | same => exact .same
  | later hgeneration hsuffix => exact .later hgeneration hsuffix

theorem moves_edit (b : Buffer) (before after : List Char) : b.Moves (b.edit before after).2 := by
  unfold edit
  split
  · exact .same
  · exact .later (Nat.lt_succ_self _) rfl

theorem moves_move (b : Buffer) (delta : Int) : b.Moves (b.move delta).2 := by
  unfold move
  dsimp only
  split
  · exact b.moves_edit _ _
  · exact b.moves_edit _ _

theorem moves_replace (b : Buffer) (s : String) (cursor : Nat) : b.Moves (b.replace s cursor) :=
  .later (Nat.lt_succ_self _) rfl

/-- Whatever becomes of a line, a new one comes after it. -/
theorem Advances.moves_reset {b b' : Buffer} (h : b.Advances b') (prompt : String) : b.Moves (b'.reset prompt) :=
  .later (Nat.lt_succ_of_le h.generation_le) rfl

theorem Advances.moves_continueLine {b b' : Buffer} (h : b.Advances b') (prompt : String) :
    b.Moves (b'.continueLine prompt) :=
  .later (Nat.lt_succ_of_le h.generation_le) rfl

@[simp] theorem completion?_bare (b : Buffer) : (b.setSuffix none).completion? = none := rfl

theorem completion?_of_suffix_none {b : Buffer} (h : b.suffix = none) : b.completion? = none := by
  rw [completion?, h]

theorem Advances.eq_of_completion? {b b' : Buffer} (h : b.Advances b') (hcompletion : b'.completion? ≠ none) :
    b' = b := by
  cases h with
  | same => rfl
  | bare => exact absurd rfl hcompletion
  | later _ hsuffix => exact absurd (completion?_of_suffix_none hsuffix) hcompletion

theorem insert_later (b : Buffer) {text : String} (htext : text ≠ "") :
    b.generation < (b.insert text).generation ∧ (b.insert text).suffix = none := by
  unfold insert edit
  split
  · rename_i hsame
    have hempty : text.toList = [] := List.append_right_eq_self.mp (congrArg Prod.fst hsame)
    exact absurd (String.toList_eq_nil_iff.mp hempty) htext
  · exact ⟨Nat.lt_succ_self _, rfl⟩

/-- Taking in a candidate moves the line on, unless there is no text in it. -/
theorem accept_cases (b : Buffer) :
    b.Moves b.accept.2 ∨ b.completion? = some "" ∧ b.accept.2 = b.setSuffix none := by
  unfold accept
  split
  · rename_i text htext
    split
    · by_cases hempty : text = ""
      · subst hempty
        refine .inr ⟨htext, ?_⟩
        change ((b.setSuffix none).edit (b.before ++ []) b.after).2 = _
        rw [List.append_nil, edit]
        exact congrArg Prod.snd (if_pos rfl)
      · obtain ⟨hgeneration, hsuffix⟩ := (b.setSuffix none).insert_later hempty
        exact .inl (.later hgeneration hsuffix)
    · exact .inl .same
  · exact .inl .same

end Buffer

/-! ### Candidates -/

namespace Suggestion

/-- What is shown of the candidates is what they say is shown, and the other way round. -/
structure Coupled (s : Suggestion) (b : Buffer) : Prop where
  shown : ∀ text, b.completion? = some text →
    s.generation = b.generation ∧ ∃ i, s.index = some i ∧ s.candidates[i]? = some text
  counted : s.generation = b.generation → ∀ i, s.index = some i →
    ∃ text, s.candidates[i]? = some text ∧ b.completion? = some text

/-- A candidate that is shown belongs to the generation that is kept, and it is the one that is counted if any are
left. -/
structure Linked (s : Suggestion) (b : Buffer) : Prop where
  generation_le : s.generation ≤ b.generation
  bounded : ∀ i, s.index = some i → i < s.candidates.length
  shown : ∀ text, b.completion? = some text →
    s.generation = b.generation ∧
      (s.candidates = [] ∧ s.index = none ∨ ∃ i, s.index = some i ∧ s.candidates[i]? = some text)

variable {s : Suggestion} {b b' : Buffer}

theorem Linked.advance (h : s.Linked b) (hb : b.Advances b') : s.Linked b' := by
  cases hb with
  | same => exact h
  | bare => exact ⟨h.generation_le, h.bounded, nofun⟩
  | later hgeneration hsuffix =>
      refine ⟨Nat.le_trans h.generation_le (Nat.le_of_lt hgeneration), h.bounded, ?_⟩
      intro text htext
      rw [Buffer.completion?_of_suffix_none hsuffix] at htext
      cases htext

theorem Linked.clear (h : s.Linked b) : s.clear.Linked b := by
  refine ⟨h.generation_le, nofun, ?_⟩
  intro text htext
  exact ⟨(h.shown text htext).1, .inl ⟨rfl, rfl⟩⟩

/-- Candidates of an older generation neither show nor count. -/
theorem Linked.coupled_of_ne (h : s.Linked b) (hne : s.generation ≠ b.generation) : s.Coupled b := by
  constructor
  · intro text htext
    exact absurd (h.shown text htext).1 hne
  · intro heq
    exact absurd heq hne

theorem coupled_of_none (hcompletion : b.completion? = none) (hindex : s.index = none) : s.Coupled b := by
  constructor
  · intro text htext
    rw [hcompletion] at htext
    cases htext
  · intro _ i hi
    rw [hindex] at hi
    cases hi

/-- Where no candidate is shown, something else may be. -/
theorem Coupled.reshow (h : s.Coupled b) (hnone : b.completion? = none) {suffix : Option Suffix}
    (hsuffix : (b.setSuffix suffix).completion? = none) : s.Coupled (b.setSuffix suffix) := by
  constructor
  · intro text htext
    rw [hsuffix] at htext
    cases htext
  · intro hgeneration i hi
    obtain ⟨text, _, htext⟩ := h.counted hgeneration i hi
    rw [hnone] at htext
    cases htext

theorem Coupled.moves (h : s.Coupled b) (hlinked : s.Linked b) (hb : b.Moves b') : s.Coupled b' := by
  cases hb with
  | same => exact h
  | later hgeneration hsuffix =>
      have hle := hlinked.generation_le
      apply (hlinked.advance (.later hgeneration hsuffix)).coupled_of_ne
      omega

/-! ### Turning -/

theorem completion?_shown (s : Suggestion) (b : Buffer) :
    (b.setSuffix s.shown).completion? = s.index.bind (s.candidates[·]?) := by
  unfold shown Buffer.completion? Buffer.setSuffix
  cases s.index with
  | none => rfl
  | some i =>
      cases hi : s.candidates[i]? with
      | none => simp [hi]
      | some text => simp [hi]

/-- The place behind the last candidate is that of none. -/
theorem getElem?_slot (texts : List String) (index : Option Nat) :
    index.bind (texts[·]?) = texts[index.getD texts.length]? := by
  cases index with
  | none => simp
  | some i => rfl

theorem turn_lt {n : Nat} (hn : 0 < n) {index : Option Nat} (hindex : ∀ i, index = some i → i < n) (forward : Bool) :
    ∀ i, turn n forward index = some i → i < n := by
  intro i hi
  unfold turn at hi
  split at hi
  · split at hi
    · cases hi
      exact hn
    · cases hi
      omega
  · rename_i j
    have hj := hindex j rfl
    split at hi
    · split at hi
      · cases hi
        assumption
      · cases hi
    · split at hi
      · cases hi
        omega
      · cases hi

/-- With a place for no candidate behind the last one, the places are passed in a circle. -/
theorem slot_turn {n : Nat} {index : Option Nat} (hindex : ∀ i, index = some i → i < n) (forward : Bool) :
    (turn n forward index).getD n = (index.getD n + if forward then 1 else n) % (n + 1) := by
  have hwrap {m : Nat} (hm : m ≤ n) : (m + (n + 1)) % (n + 1) = m := by
    rw [Nat.add_mod_right, Nat.mod_eq_of_lt (Nat.lt_succ_of_le hm)]
  cases index with
  | none =>
      cases forward with
      | true => simp [turn]
      | false =>
          have hlast : n + n = (n - 1) + (n + 1) ∨ n = 0 := by omega
          rcases hlast with hlast | rfl
          · simp [turn, hlast, hwrap (Nat.sub_le n 1)]
          · rfl
  | some i =>
      have hi := hindex i rfl
      cases forward with
      | true =>
          have hmod : (i + 1) % (n + 1) = i + 1 := Nat.mod_eq_of_lt (by omega)
          simp only [turn, if_true, Option.getD_some, hmod]
          split
          · rfl
          · simp only [Option.getD_none]
            omega
      | false =>
          simp only [turn, Bool.false_eq_true, if_false, Option.getD_some]
          split
          · have hback : i + n = (i - 1) + (n + 1) := by omega
            rw [hback, hwrap (by omega), Option.getD_some]
          · have hfirst : i = 0 := by omega
            rw [hfirst, Nat.zero_add, Nat.mod_eq_of_lt (Nat.lt_succ_self n), Option.getD_none]

theorem linked_of_shown (hgeneration : s.generation = b.generation)
    (hbounded : ∀ i, s.index = some i → i < s.candidates.length) :
    s.Linked (b.setSuffix s.shown) ∧ s.Coupled (b.setSuffix s.shown) := by
  have hcompletion := s.completion?_shown b
  refine ⟨⟨Nat.le_of_eq hgeneration, hbounded, ?_⟩, ?_, ?_⟩
  · intro text htext
    rw [hcompletion] at htext
    exact ⟨hgeneration, .inr (Option.bind_eq_some_iff.mp htext)⟩
  · intro text htext
    rw [hcompletion] at htext
    exact ⟨hgeneration, Option.bind_eq_some_iff.mp htext⟩
  · intro _ i hi
    obtain ⟨text, htext⟩ : ∃ text, s.candidates[i]? = some text := ⟨_, List.getElem?_eq_getElem (hbounded i hi)⟩
    refine ⟨text, htext, ?_⟩
    rw [hcompletion, hi, Option.bind_some, htext]

theorem Linked.rotate (h : s.Linked b) (forward : Bool) :
    (s.rotate b.generation forward).2.Linked (b.setSuffix (s.rotate b.generation forward).1) ∧
      (s.rotate b.generation forward).2.Coupled (b.setSuffix (s.rotate b.generation forward).1) := by
  unfold Suggestion.rotate
  split
  · exact ⟨h.clear.advance .bare, coupled_of_none rfl rfl⟩
  · rename_i hgeneration
    have hgeneration : s.generation = b.generation := Decidable.of_not_not hgeneration
    split
    · rename_i hempty
      have hnone : s.index = none := by
        rw [Option.eq_none_iff_forall_ne_some]
        intro i hi
        have hlt := h.bounded i hi
        rw [List.isEmpty_iff.mp hempty] at hlt
        cases hlt
      exact ⟨h.advance .bare, coupled_of_none rfl hnone⟩
    · rename_i hsome
      apply linked_of_shown
      · exact hgeneration
      · apply turn_lt _ h.bounded
        exact List.length_pos_iff.mpr fun hempty => hsome (List.isEmpty_iff.mpr hempty)

/-! ### Taking over -/

theorem usable_ne_nil (result : Except CallError (Option Completion)) : usable result ≠ some (.candidates []) := by
  intro hnil
  rw [usable_candidates hnil] at hnil
  cases hnil

theorem usable_ne_blank (result : Except CallError (Option Completion)) : usable result ≠ some (.candidates [""]) := by
  intro hblank
  rw [usable_candidates hblank] at hblank
  cases hblank

/-- What comes in place of a suffix is coupled; a candidate that stays is not, its candidates being gone. -/
theorem take_cases (s : Suggestion) (b : Buffer) {result : Option Completion}
    (hresult : result ≠ some (.candidates [])) :
    (∃ suffix s', s.take b.generation result = (some suffix, s') ∧ s'.Linked (b.setSuffix (some suffix)) ∧
        s'.Coupled (b.setSuffix (some suffix))) ∨
      result = none ∧ ∃ s', s.take b.generation result = (none, s') ∧ s'.Linked b ∧
        (b.completion? = none → s'.Coupled b) := by
  cases result with
  | none =>
      refine .inr ⟨rfl, _, rfl, ⟨Nat.le_refl _, nofun, ?_⟩, ?_⟩
      · intro text htext
        exact ⟨rfl, .inl ⟨rfl, rfl⟩⟩
      · intro hcompletion
        exact coupled_of_none hcompletion rfl
  | some completion =>
      cases completion with
      | hint text => exact .inl ⟨_, _, rfl, ⟨Nat.le_refl _, nofun, nofun⟩, coupled_of_none rfl rfl⟩
      | candidates texts =>
          cases texts with
          | nil => exact absurd rfl hresult
          | cons text texts =>
              have hshown := linked_of_shown (b := b)
                (s := { candidates := text :: texts, index := some 0, generation := b.generation }) rfl (by
                  rintro _ ⟨⟩
                  exact Nat.zero_lt_succ _)
              exact .inl ⟨_, _, rfl, hshown⟩

end Suggestion

/-! ### The engine -/

/-- A completion to be shown is asked for when work is scheduled for its generation. -/
def Job.Scheduled (e : Engine) : Job → Prop
  | .complete generation .partly _ =>
      generation ≤ e.buffer.generation ∧ (generation = e.buffer.generation → e.scheduled = some generation)
  | _ => True

theorem Job.Scheduled.advance {e e' : Engine} {job : Job} (h : job.Scheduled e)
    (hbuffer : e.buffer.Advances e'.buffer) (hscheduled : e'.scheduled = e.scheduled) : job.Scheduled e' := by
  have hgeneration := hbuffer.generation_le
  unfold Job.Scheduled at h ⊢
  split
  · rename_i generation source
    obtain ⟨hle, hcurrent⟩ := h
    refine ⟨Nat.le_trans hle hgeneration, fun heq => ?_⟩
    rw [hscheduled]
    exact hcurrent (by omega)
  · trivial

/-- Once work is scheduled for a line, it has been for all jobs that are for this line. -/
theorem Job.Scheduled.now {e e' : Engine} {job : Job} (h : job.Scheduled e) (hbuffer : e'.buffer = e.buffer)
    (hscheduled : e'.scheduled = some e.buffer.generation) : job.Scheduled e' := by
  unfold Job.Scheduled at h ⊢
  split
  · rw [hbuffer, hscheduled]
    exact ⟨h.1, fun heq => congrArg some heq.symm⟩
  · trivial

/-- An answer takes the candidates away and neither gives nor inserts any. -/
def Answer.withdraws : Answer → Bool
  | .completion _ .partly _ result => (Suggestion.usable result).isNone
  | .completion _ .full _ result =>
    match Suggestion.usable result with
    | some (.candidates [_]) => false
    | _ => true
  | .preview .. => false

namespace Engine

/-- Candidates come into an engine when work has been scheduled for their generation, and stay linked to the line. -/
structure Tended (issued : List Job) (e : Engine) : Prop where
  issued : ∀ job ∈ issued, job.Scheduled e
  jobs : ∀ job ∈ e.jobs, job.Scheduled e
  linked : e.suggestion.Linked e.buffer
  kept : e.suggestion.generation = e.buffer.generation → e.suggestion.candidates ≠ [] →
    e.scheduled = some e.buffer.generation
  shown : e.buffer.completion? ≠ none → e.scheduled = some e.buffer.generation

def Coupled (e : Engine) : Prop :=
  e.suggestion.Coupled e.buffer

/-- The second engine has the line and the candidates of the first one, or another line. -/
structure Carries (e e' : Engine) : Prop where
  buffer : e.buffer.Moves e'.buffer
  suggestion : e'.suggestion = e.suggestion ∨
    e'.suggestion = e.suggestion.clear ∧ e.buffer.generation < e'.buffer.generation
  scheduled : e'.scheduled = e.scheduled
  jobs : ∀ job ∈ e'.jobs, job ∈ e.jobs ∨ job.Scheduled e'

section

variable {issued : List Job} {e e' : Engine}

theorem Tended.advance (h : e.Tended issued) (hbuffer : e.buffer.Advances e'.buffer)
    (hsuggestion : e'.suggestion = e.suggestion ∨ e'.suggestion = e.suggestion.clear)
    (hscheduled : e'.scheduled = e.scheduled) (hjobs : ∀ job ∈ e'.jobs, job ∈ e.jobs ∨ job.Scheduled e') :
    e'.Tended issued where
  issued := fun job hjob => (h.issued job hjob).advance hbuffer hscheduled
  jobs := by
    intro job hjob
    rcases hjobs job hjob with hold | hnew
    · exact (h.jobs job hold).advance hbuffer hscheduled
    · exact hnew
  linked := by
    rcases hsuggestion with hsame | hclear
    · rw [hsame]
      exact h.linked.advance hbuffer
    · rw [hclear]
      exact h.linked.clear.advance hbuffer
  kept := by
    intro hgeneration hcandidates
    have hsame : e'.suggestion = e.suggestion := by
      rcases hsuggestion with hsame | hclear
      · exact hsame
      · rw [hclear] at hcandidates
        exact absurd rfl hcandidates
    rw [hsame] at hgeneration hcandidates
    have hle := h.linked.generation_le
    have hup := hbuffer.generation_le
    have hkept : e.buffer.generation = e'.buffer.generation := by omega
    rw [hscheduled, ← hkept]
    exact h.kept (hgeneration.trans hkept.symm) hcandidates
  shown := by
    intro hcompletion
    have hsame := hbuffer.eq_of_completion? hcompletion
    rw [hsame] at hcompletion ⊢
    rw [hscheduled]
    exact h.shown hcompletion

theorem Tended.carry (h : e.Tended issued) (hcarries : e.Carries e') : e'.Tended issued := by
  apply h.advance hcarries.buffer.advances _ hcarries.scheduled hcarries.jobs
  exact hcarries.suggestion.imp id And.left

theorem Coupled.carry (hcoupled : e.Coupled) (h : e.Tended issued) (hcarries : e.Carries e') : e'.Coupled := by
  have hlinked := (h.carry hcarries).linked
  unfold Coupled at hcoupled ⊢
  rcases hcarries.suggestion with hsame | ⟨hclear, hlater⟩
  · rw [hsame]
    exact hcoupled.moves h.linked hcarries.buffer
  · have hle := h.linked.generation_le
    apply hlinked.coupled_of_ne
    rw [hclear]
    exact Nat.ne_of_lt (Nat.lt_of_le_of_lt hle hlater)

/-- The suffix and the candidates are changed at once, so that they are linked anew. -/
theorem Tended.replace (h : e.Tended issued) {suffix : Option Suffix} {s : Suggestion}
    (hlinked : s.Linked (e.buffer.setSuffix suffix))
    (hkept : s.generation = e.buffer.generation → s.candidates ≠ [] → e.scheduled = some e.buffer.generation)
    (hshown : (e.buffer.setSuffix suffix).completion? ≠ none → e.scheduled = some e.buffer.generation) :
    ({ e with suggestion := s, buffer := e.buffer.setSuffix suffix } : Engine).Tended issued where
  issued := by
    intro job hjob
    cases job <;> exact h.issued _ hjob
  jobs := by
    intro job hjob
    cases job <;> exact h.jobs _ hjob
  linked := hlinked
  kept := hkept
  shown := hshown

theorem Tended.rotate (h : e.Tended issued) (forward : Bool) :
    (e.rotate forward).Tended issued ∧ (e.rotate forward).Coupled := by
  obtain ⟨hlinked, hcoupled⟩ := h.linked.rotate forward
  have hscheduled : e.scheduled = some e.buffer.generation ∨
      (e.suggestion.rotate e.buffer.generation forward).2.candidates = [] ∧
        (e.buffer.setSuffix (e.suggestion.rotate e.buffer.generation forward).1).completion? = none := by
    unfold Suggestion.rotate
    split
    · exact .inr ⟨rfl, rfl⟩
    · rename_i hgeneration
      split
      · rename_i hempty
        exact .inr ⟨List.isEmpty_iff.mp hempty, rfl⟩
      · rename_i hsome
        left
        apply h.kept (Decidable.of_not_not hgeneration)
        exact fun hempty => hsome (List.isEmpty_iff.mpr hempty)
  refine ⟨h.replace hlinked ?_ ?_, hcoupled⟩
  · exact fun _ hcandidates => hscheduled.resolve_right fun hnone => hcandidates hnone.1
  · exact fun hcompletion => hscheduled.resolve_right fun hnone => hcompletion hnone.2

/-! ### Painting and scheduling -/

@[simp] theorem paint_scheduled (e : Engine) : e.paint.scheduled = e.scheduled := by
  unfold paint
  split <;> rfl

theorem carries_of_same (hbuffer : e'.buffer = e.buffer) (hsuggestion : e'.suggestion = e.suggestion)
    (hscheduled : e'.scheduled = e.scheduled) (hjobs : e'.jobs = e.jobs) : e.Carries e' := by
  refine ⟨?_, .inl hsuggestion, hscheduled, ?_⟩
  · rw [hbuffer]
    exact .same
  · intro job hjob
    rw [hjobs] at hjob
    exact .inl hjob

theorem carries_paint (e : Engine) : e.Carries e.paint :=
  carries_of_same e.paint_buffer e.paint_suggestion e.paint_scheduled e.paint_jobs

theorem carries_issue (e : Engine) {job : Job} (hjob : job.Scheduled (e.issue job)) : e.Carries (e.issue job) := by
  refine ⟨.same, .inl rfl, rfl, ?_⟩
  intro other hother
  rcases List.mem_append.mp hother with hold | hnew
  · exact .inl hold
  · right
    rwa [List.mem_singleton.mp hnew]

theorem carries_requestPreview (e : Engine) : e.Carries e.requestPreview := by
  unfold requestPreview
  split
  · exact e.carries_issue trivial
  · exact carries_of_same rfl rfl rfl rfl

/-- When work is scheduled for a line nothing has been shown behind it yet. -/
theorem Tended.schedule (h : e.Tended issued) : e.schedule.Tended issued ∧ (e.Coupled → e.schedule.Coupled) := by
  unfold Engine.schedule
  split
  · exact ⟨h, id⟩
  · rename_i hnew
    have hnone : e.buffer.completion? = none := by
      cases hcompletion : e.buffer.completion? with
      | none => rfl
      | some text =>
          have hdone := h.shown (by rw [hcompletion]; exact nofun)
          rw [hdone] at hnew
          simp at hnew
    have hcoupled : Engine.Coupled
        { e with scheduled := some e.buffer.generation, suggestion := e.suggestion.clear } :=
      Suggestion.coupled_of_none hnone rfl
    have hcleared : Tended issued
        { e with scheduled := some e.buffer.generation, suggestion := e.suggestion.clear } :=
      ⟨fun job hjob => (h.issued job hjob).now rfl rfl, fun job hjob => (h.jobs job hjob).now rfl rfl, h.linked.clear,
        fun _ _ => rfl, fun _ => rfl⟩
    have hcarried {e' : Engine} (hcarries : Carries
        { e with scheduled := some e.buffer.generation, suggestion := e.suggestion.clear } e') :
        e'.Tended issued ∧ (e.Coupled → e'.Coupled) :=
      ⟨hcleared.carry hcarries, fun _ => hcoupled.carry hcleared hcarries⟩
    dsimp only
    split
    · exact ⟨hcleared, fun _ => hcoupled⟩
    · split
      · exact hcarried (carries_issue _ ⟨Nat.le_refl _, fun _ => rfl⟩)
      · exact hcarried (carries_requestPreview _)

theorem Tended.refresh (h : e.Tended issued) : e.refresh.Tended issued ∧ (e.Coupled → e.refresh.Coupled) := by
  obtain ⟨hscheduled, hcoupled⟩ := (h.carry e.carries_paint).schedule
  exact ⟨hscheduled, fun he => hcoupled (he.carry h e.carries_paint)⟩

/-! ### Answers -/

theorem Tended.onPartly (h : e.Tended issued) (hscheduled : e.scheduled = some e.buffer.generation)
    {result : Option Completion} (hresult : result ≠ some (.candidates [])) :
    (e.onPartly e.buffer.generation result).Tended issued ∧
      (result ≠ none ∨ e.buffer.completion? = none → (e.onPartly e.buffer.generation result).Coupled) := by
  unfold Engine.onPartly
  rcases e.suggestion.take_cases e.buffer hresult with
    ⟨suffix, s, htake, hlinked, hcoupled⟩ | ⟨hnone, s, htake, hlinked, hcoupled⟩
  · rw [htake]
    have hshown := h.replace hlinked (fun _ _ => hscheduled) fun _ => hscheduled
    have hboth : Engine.Coupled { e with suggestion := s, buffer := e.buffer.setSuffix (some suffix) } := hcoupled
    exact ⟨hshown.carry (carries_paint _), fun _ => hboth.carry hshown (carries_paint _)⟩
  · rw [htake]
    have hkept : Tended issued { e with suggestion := s } :=
      ⟨h.issued, h.jobs, hlinked, fun _ _ => hscheduled, fun _ => hscheduled⟩
    refine ⟨hkept.carry (carries_requestPreview _), fun hgives => ?_⟩
    have hbare := hgives.resolve_left fun hgiven => hgiven hnone
    have hboth : Engine.Coupled { e with suggestion := s } := hcoupled hbare
    exact hboth.carry hkept (carries_requestPreview _)

theorem showListing_spec (e : Engine) (listing : String) :
    (e.showListing listing).buffer = e.buffer ∧ (e.showListing listing).suggestion = e.suggestion ∧
      (e.showListing listing).scheduled = e.scheduled ∧ (e.showListing listing).jobs = e.jobs := by
  unfold showListing
  simp [draw, withBuffer]

theorem Tended.onFull (h : e.Tended issued) {result : Option Completion} (hresult : result ≠ some (.candidates [""])) :
    (e.onFull result).Tended issued ∧
      (e.Coupled → (∃ text, result = some (.candidates [text])) ∨ e.buffer.completion? = none →
        (e.onFull result).Coupled) := by
  have hcleared : ({ e with suggestion := e.suggestion.clear } : Engine).Tended issued :=
    h.advance .same (.inr rfl) rfl fun _ => .inl
  have hbare {e' : Engine} (hcarries : Carries { e with suggestion := e.suggestion.clear } e')
      (hno : ¬∃ text, result = some (.candidates [text])) :
      e'.Tended issued ∧ (e.Coupled → (∃ text, result = some (.candidates [text])) ∨ e.buffer.completion? = none →
        e'.Coupled) := by
    refine ⟨hcleared.carry hcarries, fun _ hgives => ?_⟩
    have hboth : Engine.Coupled { e with suggestion := e.suggestion.clear } :=
      Suggestion.coupled_of_none (hgives.resolve_left hno) rfl
    exact hboth.carry hcleared hcarries
  unfold Engine.onFull
  dsimp only
  split
  · rename_i text hinsert
    have htext : text ≠ "" := by
      rintro rfl
      exact hresult (Suggestion.resolve_insert hinsert)
    obtain ⟨hgeneration, hsuffix⟩ := e.buffer.insert_later htext
    have hcarries : e.Carries
        (({ e with suggestion := e.suggestion.clear } : Engine).withBuffer (e.buffer.insert text)) :=
      ⟨.later hgeneration hsuffix, .inr ⟨rfl, hgeneration⟩, rfl, fun _ => .inl⟩
    obtain ⟨hrefreshed, hcoupled⟩ := (h.carry hcarries).refresh
    exact ⟨hrefreshed, fun he _ => hcoupled (he.carry h hcarries)⟩
  · rename_i listing hlisting
    obtain ⟨hbuffer, hsuggestion, hscheduled, hjobs⟩ :=
      showListing_spec { e with suggestion := e.suggestion.clear } listing
    apply hbare (carries_of_same hbuffer hsuggestion hscheduled hjobs)
    rintro ⟨text, rfl⟩
    cases hlisting
  · rename_i hnothing
    apply hbare (carries_of_same rfl rfl rfl rfl)
    rintro ⟨text, rfl⟩
    cases hnothing

theorem Tended.onPreview (h : e.Tended issued) (text : Option String) :
    (e.onPreview text).Tended issued ∧ (e.Coupled → (e.onPreview text).Coupled) := by
  unfold Engine.onPreview
  split
  · rename_i text hsuffix
    have hnone : e.buffer.completion? = none := Buffer.completion?_of_suffix_none hsuffix
    split
    · exact ⟨h, id⟩
    · have hlinked : e.suggestion.Linked (e.buffer.setSuffix (some ⟨text, .preview⟩)) :=
        ⟨h.linked.generation_le, h.linked.bounded, nofun⟩
      have hshown : (e.withBuffer (e.buffer.setSuffix (some ⟨text, .preview⟩))).Tended issued :=
        h.replace hlinked h.kept nofun
      refine ⟨hshown.carry (carries_paint _), fun he => ?_⟩
      have hboth : (e.withBuffer (e.buffer.setSuffix (some ⟨text, .preview⟩))).Coupled :=
        Suggestion.Coupled.reshow he hnone rfl
      exact hboth.carry hshown (carries_paint _)
  · exact ⟨h, id⟩

/-- An answer that parts a candidate that is shown from the others, which it takes away. -/
def parts (e : Engine) (a : Answer) : Bool :=
  a.withdraws && e.isCurrent a.event && e.buffer.completion?.isSome

theorem completion?_of_not_parts {a : Answer} (h : e.parts a = false) (hcurrent : e.isCurrent a.event = true)
    (hwithdraws : a.withdraws = true) : e.buffer.completion? = none := by
  unfold parts at h
  rw [hwithdraws, hcurrent] at h
  exact Option.not_isSome_iff_eq_none.mp (Bool.eq_false_iff.mp h)

theorem Tended.onAnswer (h : e.Tended issued) {a : Answer} (hjob : a.job ∈ issued) :
    (e.onEvent a.event).Tended issued ∧
      (e.Coupled → e.parts a = false → (e.onEvent a.event).Coupled) := by
  unfold Engine.onEvent
  split
  · exact ⟨h, fun he _ => he⟩
  · rename_i hcurrent
    have hcurrent : e.isCurrent a.event = true := by simpa using hcurrent
    cases a with
    | completion generation mode source result =>
        obtain rfl : generation = e.buffer.generation := generation_of_isCurrent hcurrent rfl
        cases mode with
        | partly =>
            obtain ⟨htended, hcoupled⟩ := h.onPartly ((h.issued _ hjob).2 rfl) (Suggestion.usable_ne_nil result)
            refine ⟨htended, fun _ hcalm => hcoupled ?_⟩
            by_cases hnone : Suggestion.usable result = none
            · exact .inr (completion?_of_not_parts hcalm hcurrent (Option.isNone_iff_eq_none.mpr hnone))
            · exact .inl hnone
        | full =>
            obtain ⟨htended, hcoupled⟩ := h.onFull (Suggestion.usable_ne_blank result)
            refine ⟨htended, fun he hcalm => hcoupled he ?_⟩
            by_cases honly : ∃ text, Suggestion.usable result = some (.candidates [text])
            · exact .inl honly
            · refine .inr (completion?_of_not_parts hcalm hcurrent ?_)
              rw [Answer.withdraws]
              split
              · rename_i text htext
                exact absurd ⟨text, htext⟩ honly
              · rfl
    | preview generation source width text =>
        obtain ⟨htended, hcoupled⟩ := h.onPreview text
        exact ⟨htended, fun he _ => hcoupled he⟩

/-! ### Keys -/

theorem carries_withBuffer (e : Engine) {b : Buffer} (hb : e.buffer.Moves b) : e.Carries (e.withBuffer b) :=
  ⟨hb, .inl rfl, rfl, fun _ => .inl⟩

theorem carries_draw (e : Engine) (act : Screen → List Command × Screen) : e.Carries (e.draw act) :=
  carries_of_same rfl rfl rfl rfl

theorem carries_recallLine (e : Engine) (step : History → Option String × History) : e.Carries (e.recallLine step) := by
  unfold recallLine
  dsimp only
  split
  · exact ⟨e.buffer.moves_replace _ _, .inl rfl, rfl, fun _ => .inl⟩
  · exact carries_of_same rfl rfl rfl rfl

theorem carries_interrupt (e : Engine) : e.Carries e.interrupt.2 := by
  unfold interrupt
  split
  · exact ⟨Buffer.Advances.same.moves_reset _, .inl rfl, rfl, fun _ => .inl⟩
  · split
    · exact carries_of_same rfl rfl rfl rfl
    · exact carries_of_same rfl rfl rfl rfl

/-- A key that parts a candidate that is shown from the others: it dismisses the candidate, or takes it in though it is
empty. -/
def disturbs (e : Engine) (k : Key) : Bool :=
  (e.action? k = some .dismiss && e.buffer.completion?.isSome) ||
    (e.action? k = some .accept && e.buffer.completion? = some "")

/-- What a key does to the line and the candidates: it moves the line on or lets it be, it turns the candidates, or it
takes the suffix away. -/
inductive Treats (e : Engine) (action : Action) : Engine → Prop where
  | carries {e' : Engine} (h : e.Carries e') : e.Treats action e'
  | rotates (forward : Bool) : e.Treats action (e.rotate forward)
  | bares (h : action = .dismiss ∨ action = .accept ∧ e.buffer.completion? = some "") :
      e.Treats action (e.withBuffer (e.buffer.setSuffix none))

theorem treats_act (e : Engine) {action : Action} (hsubmit : action ≠ .submit) :
    e.Treats action (e.act action).2 := by
  cases action with
  | insert text => exact .carries ⟨e.buffer.moves_edit _ _, .inl rfl, rfl, fun _ => .inl⟩
  | left => exact .carries (e.carries_withBuffer (e.buffer.moves_move _))
  | right => exact .carries (e.carries_withBuffer (e.buffer.moves_move _))
  | wordLeft => exact .carries (e.carries_withBuffer (e.buffer.moves_edit _ _))
  | wordRight => exact .carries (e.carries_withBuffer (e.buffer.moves_edit _ _))
  | toStart => exact .carries (e.carries_withBuffer (e.buffer.moves_edit _ _))
  | toEnd => exact .carries (e.carries_withBuffer (e.buffer.moves_edit _ _))
  | deleteBackward => exact .carries (e.carries_withBuffer (e.buffer.moves_edit _ _))
  | deleteForward => exact .carries (e.carries_withBuffer (e.buffer.moves_edit _ _))
  | deleteWordBackward => exact .carries (e.carries_withBuffer (e.buffer.moves_edit _ _))
  | deleteToEnd => exact .carries (e.carries_withBuffer (e.buffer.moves_edit _ _))
  | deleteToStart => exact .carries (e.carries_withBuffer (e.buffer.moves_edit _ _))
  | older => exact .carries (e.carries_recallLine History.previous)
  | newer => exact .carries (e.carries_recallLine History.next)
  | search => exact .carries (carries_of_same rfl rfl rfl rfl)
  | accept =>
      rcases e.buffer.accept_cases with hmoves | ⟨hempty, hbare⟩
      · exact .carries (e.carries_withBuffer hmoves)
      · have hbares : e.Treats .accept (e.withBuffer (e.buffer.setSuffix none)) := .bares (.inr ⟨rfl, hempty⟩)
        rwa [← hbare] at hbares
  | complete =>
      dsimp only [act]
      split
      · exact .carries (carries_of_same rfl rfl rfl rfl)
      · exact .carries (e.carries_issue trivial)
  | nextCandidate => exact .rotates true
  | previousCandidate => exact .rotates false
  | dismiss => exact .bares (.inl rfl)
  | submit => exact absurd rfl hsubmit
  | clearScreen => exact .carries (e.carries_draw Screen.clear)
  | interrupt => exact .carries e.carries_interrupt
  | endOfInput => exact .carries (e.carries_draw Screen.newline)
  | unsupported => exact .carries (carries_of_same rfl rfl rfl rfl)

theorem carries_pressSearch (e : Engine) (s : Search) (k : Key) : e.Carries (e.pressSearch s k).2 := by
  unfold pressSearch
  dsimp only
  split
  · exact carries_of_same rfl rfl rfl rfl
  · exact carries_of_same rfl rfl rfl rfl
  · exact carries_of_same rfl rfl rfl rfl
  · exact ⟨e.buffer.moves_replace _ _, .inl rfl, rfl, fun _ => .inl⟩
  · exact carries_of_same rfl rfl rfl rfl
  · exact ⟨e.buffer.moves_replace _ _, .inl rfl, rfl, fun _ => .inl⟩

theorem carries_onOutcome {left : Engine} (hbuffer : e.buffer.Advances left.buffer)
    (hsuggestion : left.suggestion = e.suggestion) (hscheduled : left.scheduled = e.scheduled)
    (hjobs : left.jobs = e.jobs) (statement : String) (outcome : LineOutcome) :
    e.Carries (left.onOutcome statement outcome) := by
  have hlater (b : Buffer) (hb : b.generation = left.buffer.generation + 1) :
      e.buffer.generation < b.generation := by
    rw [hb]
    exact Nat.lt_succ_of_le hbuffer.generation_le
  have hold : ∀ job ∈ left.jobs, job ∈ e.jobs ∨ job.Scheduled (left.onOutcome statement outcome) := by
    rw [hjobs]
    exact fun _ => .inl
  have hclear : left.suggestion.clear = e.suggestion.clear := by rw [hsuggestion]
  cases outcome with
  | needsAnotherLine => exact ⟨hbuffer.moves_continueLine _, .inr ⟨hclear, hlater _ rfl⟩, hscheduled, hold⟩
  | output text =>
      unfold onOutcome at hold ⊢
      dsimp only at hold ⊢
      split
      · rename_i hend
        rw [if_pos hend] at hold
        exact ⟨hbuffer.moves_reset _, .inr ⟨hclear, hlater _ rfl⟩, hscheduled, hold⟩
      · rename_i hend
        rw [if_neg hend] at hold
        exact ⟨hbuffer.moves_reset _, .inr ⟨hclear, hlater _ rfl⟩, hscheduled, hold⟩

/-- A line that is submitted makes room for another one, whether its statement is evaluated or not. -/
theorem carries_key_submit (handler : LineHandler σ) (e : Engine) {k : Key} (hsubmit : e.action? k = some .submit)
    (s : σ) : e.Carries (e.key handler k s).2.1 := by
  have hpress := press_submit hsubmit
  unfold submit at hpress
  dsimp only at hpress
  generalize hleft :
    ((({ e with armed := false } : Engine).withBuffer (e.buffer.setSuffix none).toEnd.2).paint.draw Screen.newline) =
      left at hpress
  have hadvances : e.buffer.Advances left.buffer := by
    rw [← hleft]
    change e.buffer.Advances (Engine.paint _).buffer
    rw [paint_buffer]
    exact Buffer.Advances.bare.trans (Buffer.advances_edit _ _ _)
  have hsuggestion : left.suggestion = e.suggestion := by
    rw [← hleft]
    exact paint_suggestion _
  have hscheduled : left.scheduled = e.scheduled := by
    rw [← hleft]
    exact paint_scheduled _
  have hjobs : left.jobs = e.jobs := by
    rw [← hleft]
    exact paint_jobs _
  split at hpress
  · rw [key_of_goOn handler hpress]
    refine ⟨hadvances.moves_reset _, .inl hsuggestion, hscheduled, ?_⟩
    intro job hjob
    left
    rw [← hjobs]
    exact hjob
  · rw [key_of_evaluate handler hpress]
    exact carries_onOutcome hadvances hsuggestion hscheduled hjobs _ _

theorem press_response (e : Engine) {k : Key} (hsubmit : e.action? k ≠ some .submit) (statement : String) :
    (e.press k).1 ≠ .evaluate statement := by
  by_cases hinterrupt : e.action? k = some .interrupt
  · rw [press_interrupt hinterrupt]
    exact e.interrupt_response statement
  · exact (e.quiet_press hsubmit hinterrupt).response statement

theorem action?_of_evaluate {e e' : Engine} {k : Key} {statement : String} (h : e.press k = (.evaluate statement, e')) :
    e.action? k = some .submit :=
  Decidable.byContradiction fun hother => e.press_response hother statement (congrArg Prod.fst h)

theorem statement_of_evaluate {e e' : Engine} {k : Key} {statement : String}
    (h : e.press k = (.evaluate statement, e')) : statement = e.buffer.statement := by
  obtain ⟨left, _, _, hsubmit⟩ := ({ e with armed := false } : Engine).submit_spec
  rw [press_submit (action?_of_evaluate h), hsubmit] at h
  split at h
  · cases h
  · cases h
    rfl

theorem Tended.act (h : e.Tended issued) {action : Action} (hsubmit : action ≠ .submit) :
    (e.act action).2.Tended issued ∧
      (e.Coupled →
        (e.buffer.completion? = none ∨ action ≠ .dismiss ∧ (action = .accept → e.buffer.completion? ≠ some "")) →
          (e.act action).2.Coupled) := by
  have htreats := e.treats_act hsubmit
  generalize (e.act action).2 = e' at htreats
  cases htreats with
  | carries hcarries => exact ⟨h.carry hcarries, fun he _ => he.carry h hcarries⟩
  | rotates forward => exact ⟨(h.rotate forward).1, fun _ _ => (h.rotate forward).2⟩
  | bares haction =>
      refine ⟨h.advance .bare (.inl rfl) rfl fun _ => .inl, fun he hcalm => ?_⟩
      have hnone : e.buffer.completion? = none := by
        rcases hcalm with hnone | ⟨hdismiss, haccept⟩
        · exact hnone
        · rcases haction with haction | ⟨haction, hempty⟩
          · exact absurd haction hdismiss
          · exact absurd hempty (haccept haction)
      exact Suggestion.Coupled.reshow he hnone rfl

theorem Tended.pressNormal (h : e.Tended issued) {k : Key} (hsubmit : k.action e.context ≠ .submit) :
    (e.pressNormal k).2.Tended issued ∧
      (e.Coupled →
        (e.buffer.completion? = none ∨
          k.action e.context ≠ .dismiss ∧ (k.action e.context = .accept → e.buffer.completion? ≠ some "")) →
            (e.pressNormal k).2.Coupled) := by
  unfold Engine.pressNormal
  dsimp only
  split
  · exact h.act hsubmit
  · have hdisarmed : e.Carries { e with armed := false } := carries_of_same rfl rfl rfl rfl
    obtain ⟨htended, hcoupled⟩ := (h.carry hdisarmed).act hsubmit
    exact ⟨htended, fun he => hcoupled (he.carry h hdisarmed)⟩

theorem Tended.key (h : e.Tended issued) (handler : LineHandler σ) (k : Key) (s : σ) :
    (e.key handler k s).2.1.Tended issued ∧ (e.Coupled → e.disturbs k = false → (e.key handler k s).2.1.Coupled) := by
  by_cases hsubmit : e.action? k = some .submit
  · have hcarries := carries_key_submit handler e hsubmit s
    exact ⟨h.carry hcarries, fun he _ => he.carry h hcarries⟩
  · rw [key_of_not_evaluate handler (e.press_response hsubmit)]
    unfold Engine.press
    split
    · rename_i hmode
      have haction : e.action? k = some (k.action e.context) := by
        unfold Engine.action?
        rw [hmode]
      obtain ⟨htended, hcoupled⟩ := h.pressNormal fun hother => hsubmit (haction.trans (congrArg some hother))
      refine ⟨htended, fun he hcalm => hcoupled he ?_⟩
      unfold disturbs at hcalm
      rw [haction, Bool.or_eq_false_iff] at hcalm
      obtain ⟨hdismiss, haccept⟩ := hcalm
      by_cases hnone : e.buffer.completion? = none
      · exact .inl hnone
      · right
        constructor
        · intro hother
          simp [hother, Option.isSome_iff_ne_none.mpr hnone] at hdismiss
        · intro hother hempty
          simp [hother, hempty] at haccept
    · rename_i search _
      have hcarries := e.carries_pressSearch search k
      exact ⟨h.carry hcarries, fun he _ => he.carry h hcarries⟩

/-- None of the keys parts a candidate that is shown from the others when its turn comes. -/
def calm (handler : LineHandler σ) (e : Engine) : List Key → σ → Bool
  | [], _ => true
  | k :: ks, s =>
    !e.disturbs k &&
      match e.key handler k s with
      | (.goOn, e, s) => e.calm handler ks s
      | (.exit _, _, _) => true

theorem Tended.keys (h : e.Tended issued) (handler : LineHandler σ) (ks : List Key) (s : σ) :
    (e.keys handler ks s).2.1.Tended issued ∧
      (e.Coupled → e.calm handler ks s = true → (e.keys handler ks s).2.1.Coupled) := by
  induction ks generalizing e s with
  | nil => exact ⟨h, fun he _ => he⟩
  | cons k ks ih =>
      obtain ⟨hkey, hcoupled⟩ := h.key handler k s
      unfold Engine.keys calm
      split
      · rename_i e' s' heq
        rw [heq] at hkey hcoupled
        obtain ⟨hkeys, hrest⟩ := ih hkey s'
        refine ⟨hkeys, fun he hcalm => ?_⟩
        simp only [heq, Bool.and_eq_true] at hcalm
        exact hrest (hcoupled he (by simpa using hcalm.1)) hcalm.2
      · rename_i heq
        rw [heq] at hkey hcoupled
        refine ⟨hkey, fun he hcalm => ?_⟩
        rw [Bool.and_eq_true] at hcalm
        exact hcoupled he (by simpa using hcalm.1)

theorem Tended.keysThenRefresh (h : e.Tended issued) (handler : LineHandler σ) (ks : List Key) (s : σ) :
    (e.keysThenRefresh handler ks s).2.1.Tended issued ∧
      (e.Coupled → e.calm handler ks s = true → (e.keysThenRefresh handler ks s).2.1.Coupled) := by
  obtain ⟨hkeys, hcoupled⟩ := h.keys handler ks s
  unfold Engine.keysThenRefresh
  split
  · rename_i heq
    rw [heq] at hkeys hcoupled
    obtain ⟨hrefreshed, hkept⟩ := hkeys.refresh
    exact ⟨hrefreshed, fun he hcalm => hkept (hcoupled he hcalm)⟩
  · exact ⟨hkeys, hcoupled⟩

/-! ### Turning by keys -/

/-- One of the candidates is shown, or none of them at the last place, and turning goes on from there. -/
structure TurnedTo (texts : List String) (place : Nat) (e : Engine) : Prop where
  mode : e.mode = .normal
  generation : e.suggestion.generation = e.buffer.generation
  candidates : e.suggestion.candidates = texts
  bounded : ∀ i, e.suggestion.index = some i → i < texts.length
  index : e.suggestion.index.getD texts.length = place
  shown : e.buffer.completion? = texts[place]?

theorem TurnedTo.rotate {texts : List String} {place : Nat} (h : e.TurnedTo texts place) (htexts : texts ≠ [])
    (forward : Bool) :
    (e.rotate forward).TurnedTo texts ((place + if forward then 1 else texts.length) % (texts.length + 1)) := by
  obtain ⟨hmode, hgeneration, rfl, hbounded, rfl, hshown⟩ := h
  have hrotate : e.suggestion.rotate e.buffer.generation forward =
      (({ e.suggestion with index := Suggestion.turn e.suggestion.candidates.length forward e.suggestion.index } :
        Suggestion).shown,
        { e.suggestion with index := Suggestion.turn e.suggestion.candidates.length forward e.suggestion.index }) := by
    unfold Suggestion.rotate
    rw [if_neg (not_not_intro hgeneration), if_neg (by simpa using htexts)]
  have hturn := Suggestion.turn_lt (List.length_pos_iff.mpr htexts) hbounded forward
  have hslot := Suggestion.slot_turn hbounded forward
  unfold Engine.rotate
  rw [hrotate]
  refine ⟨hmode, hgeneration, rfl, hturn, hslot, ?_⟩
  rw [← hslot, Suggestion.completion?_shown, Suggestion.getElem?_slot]

theorem press_rotate (hmode : e.mode = .normal) {k : Key} {forward : Bool}
    (hk : k.action e.context = if forward then .nextCandidate else .previousCandidate) :
    e.press k = (.goOn, ({ e with armed := false } : Engine).rotate forward) := by
  cases forward with
  | true =>
      have hnext : k.action e.context = .nextCandidate := hk
      simp [press, hmode, pressNormal, hnext, act]
  | false =>
      have hprevious : k.action e.context = .previousCandidate := hk
      simp [press, hmode, pressNormal, hprevious, act]

/-- Pressing a key that turns the candidates turns them as often as it is pressed. -/
theorem TurnedTo.keys {texts : List String} {place : Nat} (h : e.TurnedTo texts place) (htexts : texts ≠ [])
    (handler : LineHandler σ) {k : Key} {forward : Bool}
    (hk : ∀ context, k.action context = if forward then .nextCandidate else .previousCandidate) (n : Nat) (s : σ) :
    (e.keys handler (List.replicate n k) s).2.1.TurnedTo texts
      ((place + n * if forward then 1 else texts.length) % (texts.length + 1)) := by
  induction n generalizing e place with
  | zero =>
      have hplace : place < texts.length + 1 := by
        rw [← h.index]
        cases hi : e.suggestion.index with
        | none => exact Nat.lt_succ_self _
        | some i => exact Nat.lt_succ_of_lt (h.bounded i hi)
      rw [Nat.zero_mul, Nat.add_zero, Nat.mod_eq_of_lt hplace]
      exact h
  | succ n ih =>
      have hkey : e.key handler k s = (.goOn, ({ e with armed := false } : Engine).rotate forward, s) :=
        key_of_goOn handler (press_rotate h.mode (hk e.context)) s
      have hdisarmed : TurnedTo texts place { e with armed := false } :=
        ⟨h.mode, h.generation, h.candidates, h.bounded, h.index, h.shown⟩
      have hrest := ih (hdisarmed.rotate htexts forward)
      rw [Nat.mod_add_mod, Nat.add_assoc, Nat.add_comm (if forward then 1 else texts.length), ← Nat.succ_mul] at hrest
      rw [List.replicate_succ, Engine.keys, hkey]
      exact hrest

/-- Where a candidate is shown that is counted, the candidates are turned to it. -/
theorem Coupled.turnedTo (h : e.Coupled) (htended : e.Tended issued) (hmode : e.mode = .normal) {text : String}
    (htext : e.buffer.completion? = some text) :
    ∃ i, e.suggestion.candidates[i]? = some text ∧ e.TurnedTo e.suggestion.candidates i := by
  obtain ⟨hgeneration, i, hi, hcandidate⟩ := h.shown text htext
  refine ⟨i, hcandidate, hmode, hgeneration, rfl, htended.linked.bounded, ?_, ?_⟩
  · rw [hi, Option.getD_some]
  · rw [htext, hcandidate]

end

end Engine

/-! ### The run -/

namespace World

/-- The jobs that were issued and the engine go together. -/
def Tended (w : World σ) : Prop :=
  w.engine.Tended w.issued

/-- The input does not part a candidate that is shown from the others. -/
def calm (handler : LineHandler σ) (w : World σ) : Input → Bool
  | .chunk bytes =>
    Engine.calm handler { w.engine with decoder := (w.engine.decoder.feed bytes).2 } (w.engine.decoder.feed bytes).1
      w.state
  | .flush =>
    Engine.calm handler { w.engine with decoder := w.engine.decoder.flush.2 } w.engine.decoder.flush.1 w.state
  | .answer a => !w.engine.parts a
  | .historyLoaded _ | .resize _ => true

/-- None of the inputs does when its turn comes. -/
def calmAll (handler : LineHandler σ) (w : World σ) : List Input → Bool
  | [] => true
  | input :: inputs => w.calm handler input && (w.step handler input).calmAll handler inputs

theorem tended_settle {w : World σ} {e : Engine} (h : e.Tended w.issued) : (w.settle e).Tended where
  issued := by
    intro job hjob
    rcases List.mem_append.mp hjob with hold | hnew
    · exact (h.issued job hold).advance .same rfl
    · exact (h.jobs job hnew).advance .same rfl
  jobs := by
    intro job hjob
    cases hjob
  linked := h.linked
  kept := h.kept
  shown := h.shown

theorem tended_start (settings : Settings) (highlighter : String → String) (history : HistoryStore) (columns : Nat)
    (state : σ) : (start settings highlighter history columns state).Tended ∧
      (start settings highlighter history columns state).engine.Coupled := by
  have hnew : (Engine.new settings highlighter history columns).Tended [] :=
    ⟨nofun, nofun, ⟨Nat.le_refl _, nofun, nofun⟩, fun _ hcandidates => absurd rfl hcandidates,
      fun hcompletion => absurd rfl hcompletion⟩
  have hcoupled : (Engine.new settings highlighter history columns).Coupled := Suggestion.coupled_of_none rfl rfl
  obtain ⟨htended, hkept⟩ := hnew.refresh
  exact ⟨tended_settle htended, hkept hcoupled⟩

theorem Tended.step {w : World σ} (h : w.Tended) (handler : LineHandler σ) (input : Input) :
    (w.step handler input).Tended ∧
      (w.engine.Coupled → w.calm handler input = true → (w.step handler input).engine.Coupled) := by
  cases input with
  | chunk bytes =>
      have hdecoded : w.engine.Carries { w.engine with decoder := (w.engine.decoder.feed bytes).2 } :=
        Engine.carries_of_same rfl rfl rfl rfl
      obtain ⟨hfed, hcoupled⟩ :=
        (Engine.Tended.carry h hdecoded).keysThenRefresh handler (w.engine.decoder.feed bytes).1 w.state
      exact ⟨tended_settle hfed, fun he hcalm => hcoupled (he.carry h hdecoded) hcalm⟩
  | flush =>
      have hdecoded : w.engine.Carries { w.engine with decoder := w.engine.decoder.flush.2 } :=
        Engine.carries_of_same rfl rfl rfl rfl
      obtain ⟨hflushed, hcoupled⟩ :=
        (Engine.Tended.carry h hdecoded).keysThenRefresh handler w.engine.decoder.flush.1 w.state
      exact ⟨tended_settle hflushed, fun he hcalm => hcoupled (he.carry h hdecoded) hcalm⟩
  | answer a =>
      unfold World.step
      dsimp only
      split
      · rename_i hjob
        obtain ⟨hanswered, hcoupled⟩ := Engine.Tended.onAnswer h hjob
        refine ⟨tended_settle (w := { w with answers := a :: w.answers }) hanswered, fun he hcalm => ?_⟩
        exact hcoupled he (by simpa [calm] using hcalm)
      · exact ⟨h, fun he _ => he⟩
  | historyLoaded lines =>
      have hcarries : w.engine.Carries (w.engine.onEvent (.historyLoaded lines)) :=
        Engine.carries_of_same rfl rfl rfl rfl
      refine ⟨tended_settle (Engine.Tended.carry h hcarries), fun he _ => ?_⟩
      have hloaded : (w.engine.onEvent (.historyLoaded lines)).Coupled := he.carry h hcarries
      exact hloaded
  | resize columns =>
      have hresized : w.engine.Carries (w.engine.setColumns columns) := Engine.carries_of_same rfl rfl rfl rfl
      have htended := Engine.Tended.carry h hresized
      refine ⟨tended_settle (htended.carry (Engine.carries_paint _)), fun he _ => ?_⟩
      have hpainted : (w.engine.setColumns columns).paint.Coupled :=
        Engine.Coupled.carry (he.carry h hresized) htended (Engine.carries_paint _)
      exact hpainted

theorem Tended.run {w : World σ} (h : w.Tended) (handler : LineHandler σ) (inputs : List Input) :
    (w.run handler inputs).Tended ∧
      (w.engine.Coupled → w.calmAll handler inputs = true → (w.run handler inputs).engine.Coupled) := by
  induction inputs generalizing w with
  | nil => exact ⟨h, fun he _ => he⟩
  | cons input inputs ih =>
      obtain ⟨hstep, hcoupled⟩ := h.step handler input
      obtain ⟨hrun, hrest⟩ := ih hstep
      refine ⟨hrun, fun he hcalm => ?_⟩
      rw [calmAll, Bool.and_eq_true] at hcalm
      exact hrest (hcoupled he hcalm.1) hcalm.2

/-- At any time a candidate that is shown is one of the line's own, and the one that is counted if any are left. What is
shown and what is counted agree after every turn and on every new line, and they go on to agree until a candidate is
dismissed, an empty one taken in, or the candidates withdrawn by an answer. As long as they agree, each press turns to
the next candidate and behind the last one to none, and then it begins again. -/
theorem run_cycles (handler : LineHandler σ) (settings : Settings) (highlighter : String → String)
    (history : HistoryStore) (columns : Nat) (state : σ) (inputs : List Input) :
    let first := start settings highlighter history columns state
    let w := first.run handler inputs
    let e := w.engine
    (first.calmAll handler inputs = true → e.Coupled) ∧
      e.suggestion.Linked e.buffer ∧
      (e.suggestion.generation ≠ e.buffer.generation → e.Coupled) ∧
      (∀ forward, (e.rotate forward).Coupled) ∧
      (∀ more, e.Coupled → w.calmAll handler more = true → (w.run handler more).engine.Coupled) ∧
      ∀ text, e.mode = .normal → e.Coupled → e.buffer.completion? = some text →
        ∃ i, e.suggestion.candidates[i]? = some text ∧ ∀ n s,
          (e.keys handler (List.replicate n (Key.ofAlt ']')) s).2.1.buffer.completion? =
            e.suggestion.candidates[(i + n) % (e.suggestion.candidates.length + 1)]? := by
  intro first w e
  obtain ⟨hstart, hcoupled⟩ := tended_start settings highlighter history columns state
  obtain ⟨hrun, hkept⟩ := hstart.run handler inputs
  have htended : e.Tended w.issued := hrun
  refine ⟨hkept hcoupled, htended.linked, htended.linked.coupled_of_ne, ?_, ?_, ?_⟩
  · exact fun forward => (htended.rotate forward).2
  · exact fun more => (hrun.run handler more).2
  · intro text hmode he htext
    obtain ⟨i, hi, hturned⟩ := he.turnedTo htended hmode htext
    have htexts : e.suggestion.candidates ≠ [] := by
      intro hempty
      rw [hempty] at hi
      cases hi
    refine ⟨i, hi, fun n s => ?_⟩
    have hkey : ∀ context, (Key.ofAlt ']').action context = if true then .nextCandidate else .previousCandidate :=
      fun _ => rfl
    have hpressed := hturned.keys htexts handler hkey n s
    simpa using hpressed.shown

example :
    (start {} id (.inMemory 10) 80 ()).calmAll (fun _ => pure .needsAnotherLine)
      [.chunk [0x4d, 0x61], .answer (.completion 1 .partly "Ma" (.ok (some (.candidates ["th", "p"])))),
       .chunk [0x1b, 0x5d, 0x1b, 0x5d], .chunk [0x09], .answer (.completion 1 .full "Ma" (.ok none)), .chunk [0x1b],
       .flush] = true := by
  decide +kernel

/-- Two candidates are there for a line and the first one is shown. Once they have been listed as well, none is counted,
and the next turn takes away the one that is shown; if instead it is dismissed, it is counted all the same, and the next
turn passes it over. -/
theorem candidates_parted :
    let both : Except CallError (Option Completion) := .ok (some (.candidates ["x", "n"]))
    let typed := [.chunk [0x4d, 0x61, 0x74, 0x68, 0x2e, 0x6d], .answer (.completion 1 .partly "Math.m" both)]
    let w := (start {} id (.inMemory 10) 80 ()).run (fun _ => pure .needsAnotherLine) typed
    let run (inputs : List Input) := (w.run (fun _ => pure .needsAnotherLine) inputs).engine
    let listing := [.chunk [0x09], .answer (.completion 1 .full "Math.m" both)]
    let dismissal := [.chunk [0x1b], .flush]
    let next : Input := .chunk [0x1b, 0x5d]
    ((run listing).mode = .normal ∧ (run listing).buffer.completion? = some "x" ∧ ¬ (run listing).Coupled ∧
        (run (listing ++ [next])).buffer.completion? = none) ∧
      (run dismissal).mode = .normal ∧ (run dismissal).buffer.completion? = none ∧ ¬ (run dismissal).Coupled ∧
        (run (dismissal ++ [next])).buffer.completion? = some "n" := by
  intro both typed w run listing dismissal next
  have hlisted : (run listing).mode = .normal ∧ (run listing).buffer.completion? = some "x" ∧
      (run listing).suggestion.index = none ∧ (run (listing ++ [next])).buffer.completion? = none := by
    decide +kernel
  have hdismissed : (run dismissal).mode = .normal ∧ (run dismissal).buffer.completion? = none ∧
      (run dismissal).suggestion.generation = (run dismissal).buffer.generation ∧
      (run dismissal).suggestion.index = some 0 ∧ (run (dismissal ++ [next])).buffer.completion? = some "n" := by
    decide +kernel
  obtain ⟨hmode, hshown, hindex, hgone⟩ := hlisted
  obtain ⟨hmode', hbare, hgeneration, hcounted, hpassed⟩ := hdismissed
  refine ⟨⟨hmode, hshown, ?_, hgone⟩, hmode', hbare, ?_, hpassed⟩
  · intro hcoupled
    obtain ⟨_, i, hi, _⟩ := hcoupled.shown "x" hshown
    rw [hindex] at hi
    cases hi
  · intro hcoupled
    obtain ⟨text, _, htext⟩ := hcoupled.counted hgeneration 0 hcounted
    rw [hbare] at htext
    cases htext

end World

end ScriptRepl.Console
