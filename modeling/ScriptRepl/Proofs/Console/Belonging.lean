import ScriptRepl.Proofs.Console.Generation
import ScriptRepl.Proofs.Console.World

/-! What is shown behind the line is what was answered about this line, however late and in whatever order the
answers come. Between the line and the background there are only generations: the invariant says what a generation
stands for in the jobs and in the candidates that are kept. -/
namespace ScriptRepl.Console

/-- The suffix is part of an answer about the line as it is. -/
def Suffix.BelongsTo (answers : List Answer) (b : Buffer) (s : Suffix) : Prop :=
  match s.kind with
  | .completion =>
      b.atEnd = true ∧ ∃ generation mode texts,
        .completion generation mode b.statement (.ok (some (.candidates texts))) ∈ answers ∧ s.text ∈ texts
  | .hint =>
      b.atEnd = true ∧ ∃ generation mode,
        .completion generation mode b.statement (.ok (some (.hint s.text))) ∈ answers
  | .preview => ∃ generation width, .preview generation b.statement width (some s.text) ∈ answers

theorem Suffix.BelongsTo.answered {answers : List Answer} {b : Buffer} {s : Suffix} (h : s.BelongsTo answers b)
    (a : Answer) : s.BelongsTo (a :: answers) b := by
  unfold BelongsTo at h ⊢
  split at h
  · obtain ⟨hend, generation, mode, texts, hmem, htext⟩ := h
    exact ⟨hend, generation, mode, texts, List.mem_cons_of_mem a hmem, htext⟩
  · obtain ⟨hend, generation, mode, hmem⟩ := h
    exact ⟨hend, generation, mode, List.mem_cons_of_mem a hmem⟩
  · obtain ⟨generation, width, hmem⟩ := h
    exact ⟨generation, width, List.mem_cons_of_mem a hmem⟩

theorem Buffer.Advances.suffix_belongs {answers : List Answer} {b b' : Buffer} (hb : b.Advances b')
    (h : ∀ s, b.suffix = some s → s.BelongsTo answers b) : ∀ s, b'.suffix = some s → s.BelongsTo answers b' := by
  intro s hs
  cases hb with
  | same => exact h s hs
  | bare => cases hs
  | later _ hsuffix =>
      rw [hsuffix] at hs
      cases hs

/-! ### Candidates -/

namespace Suggestion

open Assist (Completion)

/-- The suffixes that a completion can be shown as. -/
def offers : Option Completion → List Suffix
  | none => []
  | some (.hint text) => [⟨text, .hint⟩]
  | some (.candidates texts) => texts.map (⟨·, .completion⟩)

theorem belongsTo_of_offered {answers : List Answer} {b : Buffer} {generation : Nat} {mode : CompletionMode}
    {result : Except CallError (Option Completion)} {s : Suffix}
    (hanswer : .completion generation mode b.statement result ∈ answers) (hend : b.atEnd = true)
    (hs : s ∈ offers (usable result)) : s.BelongsTo answers b := by
  unfold usable at hs
  split at hs
  · rename_i texts
    split at hs
    · cases hs
    · obtain ⟨text, htext, rfl⟩ := List.mem_map.mp hs
      exact ⟨hend, generation, mode, texts, hanswer, htext⟩
  · rename_i completion hcandidates
    cases completion with
    | none => cases hs
    | some completion =>
        cases completion with
        | hint text =>
            rw [offers, List.mem_singleton] at hs
            subst hs
            exact ⟨hend, generation, mode, hanswer⟩
        | candidates texts => exact absurd rfl (hcandidates texts)
  · cases hs

theorem mem_of_shown {s : Suggestion} {suffix : Suffix} (h : s.shown = some suffix) :
    ∃ text ∈ s.candidates, suffix = ⟨text, .completion⟩ := by
  unfold shown at h
  simp only [Option.bind_eq_bind, Option.bind_eq_some_iff, Option.pure_def, Option.some.injEq] at h
  obtain ⟨i, _, text, htext, rfl⟩ := h
  exact ⟨text, List.mem_of_getElem? htext, rfl⟩

theorem resolve_insert {completion : Option Completion} {typed text : String} {columns : Nat}
    (h : resolve completion typed columns = .insert text) : completion = some (.candidates [text]) := by
  unfold resolve at h
  split at h
  · cases h
  · cases h
    rfl
  · cases h
  · cases h
  · cases h

theorem usable_candidates {result : Except CallError (Option Completion)} {texts : List String}
    (h : usable result = some (.candidates texts)) : result = .ok (some (.candidates texts)) := by
  unfold usable at h
  split at h
  · split at h
    · cases h
    · cases h
      rfl
  · rw [h]
  · cases h

theorem take_generation (s : Suggestion) (generation : Nat) (completion : Option Completion) :
    (s.take generation completion).2.generation = generation := by
  unfold take
  split <;> rfl

theorem take_candidates (s : Suggestion) (generation : Nat) (completion : Option Completion) {text : String}
    (h : text ∈ (s.take generation completion).2.candidates) : ⟨text, .completion⟩ ∈ offers completion := by
  unfold take at h
  split at h
  · cases h
  · cases h
  · exact List.mem_map_of_mem h

theorem take_suffix (s : Suggestion) (generation : Nat) (completion : Option Completion) {suffix : Suffix}
    (h : (s.take generation completion).1 = some suffix) : suffix ∈ offers completion := by
  unfold take at h
  split at h
  · cases h
  · cases h
    exact List.mem_singleton.mpr rfl
  · obtain ⟨text, htext, rfl⟩ := mem_of_shown h
    exact List.mem_map_of_mem htext

/-- Candidates of the line's own generation belong to the line. -/
structure Fits (answers : List Answer) (b : Buffer) (s : Suggestion) : Prop where
  generation_le : s.generation ≤ b.generation
  belongs : s.generation = b.generation → ∀ text ∈ s.candidates, Suffix.BelongsTo answers b ⟨text, .completion⟩

variable {answers : List Answer} {b b' : Buffer} {s : Suggestion}

theorem Fits.advance (h : s.Fits answers b) (hb : b.Advances b') : s.Fits answers b' := by
  have hle := h.generation_le
  cases hb with
  | same => exact h
  | bare => exact ⟨hle, h.belongs⟩
  | later hgeneration _ => exact ⟨by omega, fun heq => by omega⟩

theorem Fits.clear (h : s.Fits answers b) : s.clear.Fits answers b := by
  refine ⟨h.generation_le, ?_⟩
  intro _ text htext
  cases htext

theorem Fits.rotate (h : s.Fits answers b) (forward : Bool) :
    (s.rotate b.generation forward).2.Fits answers b ∧
      ∀ suffix, (s.rotate b.generation forward).1 = some suffix → suffix.BelongsTo answers b := by
  unfold Suggestion.rotate
  split
  · refine ⟨h.clear, ?_⟩
    intro suffix hnone
    cases hnone
  · rename_i hgeneration
    split
    · refine ⟨h, ?_⟩
      intro suffix hnone
      cases hnone
    · refine ⟨⟨h.generation_le, h.belongs⟩, ?_⟩
      intro suffix hshown
      obtain ⟨text, htext, rfl⟩ := mem_of_shown hshown
      exact h.belongs (Decidable.of_not_not hgeneration) text htext

end Suggestion

/-! ### The engine -/

namespace Engine

/-- What the engine shows and keeps is for the line as it is, and what it has asked for is for this line or for an
earlier one. -/
structure Sound (answers : List Answer) (issued : List Job) (e : Engine) : Prop where
  issued : ∀ job ∈ issued, job.Fits e.buffer
  jobs : ∀ job ∈ e.jobs, job.Fits e.buffer
  suffix : ∀ s, e.buffer.suffix = some s → s.BelongsTo answers e.buffer
  suggestion : e.suggestion.Fits answers e.buffer

section

variable {answers : List Answer} {issued : List Job} {e e' : Engine}

@[simp] theorem paint_buffer (e : Engine) : e.paint.buffer = e.buffer := by
  unfold paint
  split <;> rfl

@[simp] theorem paint_jobs (e : Engine) : e.paint.jobs = e.jobs := by
  unfold paint
  split <;> rfl

@[simp] theorem paint_suggestion (e : Engine) : e.paint.suggestion = e.suggestion := by
  unfold paint
  split <;> rfl

theorem Sound.advance (h : e.Sound answers issued) (hbuffer : e.buffer.Advances e'.buffer)
    (hjobs : e'.jobs = e.jobs) (hsuggestion : e'.suggestion = e.suggestion) : e'.Sound answers issued where
  issued := fun job hjob => (h.issued job hjob).advance hbuffer
  jobs := by
    intro job hjob
    rw [hjobs] at hjob
    exact (h.jobs job hjob).advance hbuffer
  suffix := hbuffer.suffix_belongs h.suffix
  suggestion := by
    rw [hsuggestion]
    exact h.suggestion.advance hbuffer

theorem Sound.withBuffer (h : e.Sound answers issued) {b : Buffer} (hb : e.buffer.Advances b) :
    (e.withBuffer b).Sound answers issued :=
  h.advance hb rfl rfl

theorem Sound.setSuffix (h : e.Sound answers issued) {suffix : Option Suffix}
    (hsuffix : ∀ s, suffix = some s → s.BelongsTo answers e.buffer) :
    (e.withBuffer (e.buffer.setSuffix suffix)).Sound answers issued where
  issued := by
    intro job hjob
    cases job <;> exact h.issued _ hjob
  jobs := by
    intro job hjob
    cases job <;> exact h.jobs _ hjob
  suffix := hsuffix
  suggestion := ⟨h.suggestion.generation_le, h.suggestion.belongs⟩

theorem Sound.suggest (h : e.Sound answers issued) {s : Suggestion} (hs : s.Fits answers e.buffer) :
    ({ e with suggestion := s } : Engine).Sound answers issued :=
  ⟨h.issued, h.jobs, h.suffix, hs⟩

theorem Sound.draw (h : e.Sound answers issued) (act : Screen → List Command × Screen) :
    (e.draw act).Sound answers issued :=
  h.advance .same rfl rfl

theorem Sound.paint (h : e.Sound answers issued) : e.paint.Sound answers issued := by
  refine h.advance ?_ e.paint_jobs e.paint_suggestion
  rw [paint_buffer]
  exact .same

theorem Sound.issue (h : e.Sound answers issued) {job : Job} (hjob : job.Fits e.buffer) :
    (e.issue job).Sound answers issued where
  issued := h.issued
  jobs := by
    intro other hother
    rcases List.mem_append.mp hother with hold | hnew
    · exact h.jobs other hold
    · rw [List.mem_singleton.mp hnew]
      exact hjob
  suffix := h.suffix
  suggestion := h.suggestion

theorem Sound.requestCompletion (h : e.Sound answers issued) {mode : CompletionMode}
    (hmode : mode = .partly → e.buffer.atEnd = true) : (e.requestCompletion mode).Sound answers issued :=
  h.issue ⟨Nat.le_refl _, fun _ => ⟨rfl, hmode⟩⟩

theorem Sound.requestPreview (h : e.Sound answers issued) : e.requestPreview.Sound answers issued := by
  unfold Engine.requestPreview
  split
  · exact h.issue ⟨Nat.le_refl _, fun _ => rfl⟩
  · exact h

theorem Sound.schedule (h : e.Sound answers issued) : e.schedule.Sound answers issued := by
  unfold Engine.schedule
  split
  · exact h
  · have hcleared : ({ e with scheduled := some e.buffer.generation, suggestion := e.suggestion.clear } :
        Engine).Sound answers issued :=
      (h.suggest h.suggestion.clear).advance .same rfl rfl
    dsimp only
    split
    · exact hcleared
    · split
      · rename_i hend
        exact hcleared.requestCompletion fun _ => hend
      · exact hcleared.requestPreview

theorem Sound.refresh (h : e.Sound answers issued) : e.refresh.Sound answers issued :=
  h.paint.schedule

/-! ### Answers -/

theorem Sound.answered (h : e.Sound answers issued) (a : Answer) : e.Sound (a :: answers) issued where
  issued := h.issued
  jobs := h.jobs
  suffix := fun s hs => (h.suffix s hs).answered a
  suggestion := ⟨h.suggestion.generation_le, fun hg text htext => (h.suggestion.belongs hg text htext).answered a⟩

theorem Sound.showSuffix (h : e.Sound answers issued) {suffix : Suffix}
    (hsuffix : suffix.BelongsTo answers e.buffer) : (e.showSuffix suffix).Sound answers issued := by
  refine (h.setSuffix ?_).paint
  intro s hs
  cases hs
  exact hsuffix

theorem Sound.showListing (h : e.Sound answers issued) (listing : String) :
    (e.showListing listing).Sound answers issued := by
  have hback : (((e.withBuffer (e.buffer.setSuffix none)).paint).withBuffer e.buffer).Sound answers issued :=
    h.advance .same (paint_jobs _) (paint_suggestion _)
  exact (hback.draw _).paint

theorem Sound.onPartly (h : e.Sound answers issued) {source : String}
    {result : Except CallError (Option Assist.Completion)} (hsource : source = e.buffer.statement)
    (hend : e.buffer.atEnd = true)
    (hanswer : .completion e.buffer.generation .partly source result ∈ answers) :
    (e.onPartly e.buffer.generation (Suggestion.usable result)).Sound answers issued := by
  subst hsource
  have hoffered : ∀ s ∈ Suggestion.offers (Suggestion.usable result), s.BelongsTo answers e.buffer :=
    fun s hs => Suggestion.belongsTo_of_offered hanswer hend hs
  have hfits : (e.suggestion.take e.buffer.generation (Suggestion.usable result)).2.Fits answers e.buffer := by
    refine ⟨Nat.le_of_eq (Suggestion.take_generation _ _ _), ?_⟩
    intro _ text htext
    exact hoffered _ (Suggestion.take_candidates _ _ _ htext)
  unfold Engine.onPartly
  dsimp only
  split
  · rename_i suffix hsuffix
    exact (h.suggest hfits).showSuffix (hoffered suffix (Suggestion.take_suffix _ _ _ hsuffix))
  · exact (h.suggest hfits).requestPreview

@[simp] theorem schedule_buffer (e : Engine) : e.schedule.buffer = e.buffer := by
  unfold schedule
  split
  · rfl
  · dsimp only
    split
    · rfl
    · split
      · rfl
      · unfold requestPreview
        split <;> rfl

/-- The only thing that an answer with all candidates does to the line is to insert the only candidate. -/
theorem onFull_buffer (e : Engine) (result : Option Assist.Completion) :
    (e.onFull result).buffer = e.buffer ∨
      ∃ text, result = some (.candidates [text]) ∧ (e.onFull result).buffer = e.buffer.insert text := by
  unfold onFull
  dsimp only
  split
  · rename_i text hinsert
    refine .inr ⟨text, Suggestion.resolve_insert hinsert, ?_⟩
    rw [refresh, schedule_buffer, paint_buffer]
    rfl
  · exact .inl (paint_buffer _)
  · exact .inl rfl

theorem Sound.onFull (h : e.Sound answers issued) (result : Option Assist.Completion) :
    (e.onFull result).Sound answers issued := by
  have hcleared := h.suggest h.suggestion.clear
  unfold Engine.onFull
  dsimp only
  split
  · exact (hcleared.withBuffer (e.buffer.advances_edit _ _)).refresh
  · exact hcleared.showListing _
  · exact hcleared

theorem Sound.onPreview (h : e.Sound answers issued) {source : String} {width : Nat} {text : Option String}
    (hsource : source = e.buffer.statement) (hanswer : .preview e.buffer.generation source width text ∈ answers) :
    (e.onPreview text).Sound answers issued := by
  subst hsource
  unfold Engine.onPreview
  split
  · split
    · exact h
    · exact h.showSuffix ⟨_, width, hanswer⟩
  · exact h

theorem generation_of_isCurrent {event : Event} {generation : Nat} (h : e.isCurrent event = true)
    (hevent : event.generation? = some generation) : generation = e.buffer.generation := by
  rw [isCurrent, hevent, Bool.and_eq_true] at h
  exact of_decide_eq_true h.1

theorem Sound.onAnswer (h : e.Sound answers issued) {a : Answer} (ha : a ∈ answers) (hjob : a.job ∈ issued) :
    (e.onEvent a.event).Sound answers issued := by
  unfold Engine.onEvent
  split
  · exact h
  · rename_i hcurrent
    have hcurrent : e.isCurrent a.event = true := by simpa using hcurrent
    have hfits := h.issued a.job hjob
    cases a with
    | completion generation mode source result =>
        have hgeneration : generation = e.buffer.generation := generation_of_isCurrent hcurrent rfl
        subst hgeneration
        obtain ⟨hsource, hmode⟩ := hfits.2 rfl
        cases mode with
        | partly =>
            have hend : e.buffer.atEnd = true := hmode rfl
            rw [Buffer.beforeCursor_of_atEnd hend] at hsource
            exact h.onPartly hsource hend ha
        | full => exact h.onFull _
    | preview generation source width text =>
        have hgeneration : generation = e.buffer.generation := generation_of_isCurrent hcurrent rfl
        subst hgeneration
        exact h.onPreview (hfits.2 rfl) ha

/-- An answer with all candidates inserts text only into the line up to the cursor that it was asked for. -/
theorem Sound.onAnswer_full (h : e.Sound answers issued) {generation : Nat} {source : String}
    (hjob : .complete generation .full source ∈ issued) (result : Except CallError (Option Assist.Completion)) :
    let after := (e.onEvent (Answer.completion generation .full source result).event).buffer
    after = e.buffer ∨
      source = e.buffer.committed ++ e.buffer.beforeCursor ∧
        ∃ text, result = .ok (some (.candidates [text])) ∧ after = e.buffer.insert text := by
  intro after
  by_cases hcurrent : e.isCurrent (.completed generation .full (Suggestion.usable result)) = true
  · have hgeneration : generation = e.buffer.generation := generation_of_isCurrent hcurrent rfl
    have hsource := ((h.issued _ hjob).2 hgeneration).1
    have hafter : after = (e.onFull (Suggestion.usable result)).buffer := by
      simp [after, onEvent, Answer.event, hcurrent]
    rw [hafter]
    rcases e.onFull_buffer (Suggestion.usable result) with hsame | ⟨text, hresult, hinserted⟩
    · exact .inl hsame
    · exact .inr ⟨hsource, text, Suggestion.usable_candidates hresult, hinserted⟩
  · refine .inl ?_
    simp [after, onEvent, Answer.event, hcurrent]

/-! ### Keys -/

theorem Sound.recallLine (h : e.Sound answers issued) (step : History → Option String × History) :
    (e.recallLine step).Sound answers issued := by
  unfold Engine.recallLine
  dsimp only
  split
  · exact h.advance (e.buffer.advances_replace _ _) rfl rfl
  · exact h.advance .same rfl rfl

theorem Sound.rotate (h : e.Sound answers issued) (forward : Bool) : (e.rotate forward).Sound answers issued := by
  obtain ⟨hfits, hsuffix⟩ := h.suggestion.rotate forward
  exact (h.suggest hfits).setSuffix hsuffix

theorem Sound.resetLine (h : e.Sound answers issued) : e.resetLine.Sound answers issued :=
  h.withBuffer (e.buffer.advances_reset _)

theorem Sound.interrupt (h : e.Sound answers issued) : e.interrupt.2.Sound answers issued := by
  unfold Engine.interrupt
  split
  · exact h.advance (e.buffer.advances_reset _) rfl rfl
  · split
    · exact h.advance .same rfl rfl
    · exact h.advance .same rfl rfl

theorem Sound.submit (h : e.Sound answers issued) : e.submit.2.Sound answers issued := by
  have hleft : ((e.withBuffer (e.buffer.setSuffix none).toEnd.2).paint.draw Screen.newline).Sound answers issued :=
    (h.withBuffer (Buffer.Advances.bare.trans (Buffer.advances_edit _ _ _))).paint.draw _
  unfold Engine.submit
  dsimp only
  split
  · exact hleft.resetLine
  · exact hleft

theorem Sound.onOutcome (h : e.Sound answers issued) (statement : String) (outcome : LineOutcome) :
    (e.onOutcome statement outcome).Sound answers issued := by
  have hcleared := h.suggest h.suggestion.clear
  cases outcome with
  | needsAnotherLine => exact hcleared.advance (e.buffer.advances_continueLine _) rfl rfl
  | output text =>
      unfold Engine.onOutcome
      dsimp only
      split
      · exact hcleared.advance (e.buffer.advances_reset _) rfl rfl
      · exact hcleared.advance (e.buffer.advances_reset _) rfl rfl

theorem Sound.act (h : e.Sound answers issued) (action : Action) : (e.act action).2.Sound answers issued := by
  cases action with
  | insert text => exact h.advance (e.buffer.advances_edit _ _) rfl rfl
  | left => exact h.withBuffer (e.buffer.advances_move _)
  | right => exact h.withBuffer (e.buffer.advances_move _)
  | wordLeft => exact h.withBuffer (e.buffer.advances_edit _ _)
  | wordRight => exact h.withBuffer (e.buffer.advances_edit _ _)
  | toStart => exact h.withBuffer (e.buffer.advances_edit _ _)
  | toEnd => exact h.withBuffer (e.buffer.advances_edit _ _)
  | deleteBackward => exact h.withBuffer (e.buffer.advances_edit _ _)
  | deleteForward => exact h.withBuffer (e.buffer.advances_edit _ _)
  | deleteWordBackward => exact h.withBuffer (e.buffer.advances_edit _ _)
  | deleteToEnd => exact h.withBuffer (e.buffer.advances_edit _ _)
  | deleteToStart => exact h.withBuffer (e.buffer.advances_edit _ _)
  | older => exact h.recallLine History.previous
  | newer => exact h.recallLine History.next
  | search => exact h.advance .same rfl rfl
  | accept => exact h.withBuffer e.buffer.advances_accept
  | complete =>
      dsimp only [Engine.act]
      split
      · exact h
      · exact h.requestCompletion (by simp)
  | nextCandidate => exact h.rotate true
  | previousCandidate => exact h.rotate false
  | dismiss => exact h.withBuffer .bare
  | submit => exact h.submit
  | clearScreen => exact h.draw Screen.clear
  | interrupt => exact h.interrupt
  | endOfInput => exact h.draw Screen.newline
  | unsupported => exact h

theorem Sound.pressNormal (h : e.Sound answers issued) (k : Key) : (e.pressNormal k).2.Sound answers issued := by
  unfold Engine.pressNormal
  dsimp only
  split
  · exact h.act _
  · have hdisarmed : ({ e with armed := false } : Engine).Sound answers issued := h.advance .same rfl rfl
    exact hdisarmed.act _

theorem Sound.pressSearch (h : e.Sound answers issued) (s : Search) (k : Key) :
    (e.pressSearch s k).2.Sound answers issued := by
  unfold Engine.pressSearch
  dsimp only
  split
  · exact h.advance .same rfl rfl
  · exact h.advance .same rfl rfl
  · exact h.advance .same rfl rfl
  · exact h.advance (e.buffer.advances_replace _ _) rfl rfl
  · exact h.advance .same rfl rfl
  · exact h.advance (e.buffer.advances_replace _ _) rfl rfl

theorem Sound.press (h : e.Sound answers issued) (k : Key) : (e.press k).2.Sound answers issued := by
  unfold Engine.press
  split
  · exact h.pressNormal k
  · exact h.pressSearch _ k

theorem Sound.key (h : e.Sound answers issued) (handler : LineHandler σ) (k : Key) (s : σ) :
    (e.key handler k s).2.1.Sound answers issued := by
  have hpress := h.press k
  unfold Engine.key
  split
  · rename_i heq
    rw [heq] at hpress
    exact hpress
  · rename_i heq
    rw [heq] at hpress
    exact hpress
  · rename_i heq
    rw [heq] at hpress
    exact hpress.onOutcome _ _

theorem Sound.keys (h : e.Sound answers issued) (handler : LineHandler σ) (ks : List Key) (s : σ) :
    (e.keys handler ks s).2.1.Sound answers issued := by
  induction ks generalizing e s with
  | nil => exact h
  | cons k ks ih =>
      have hkey := h.key handler k s
      unfold Engine.keys
      split
      · rename_i heq
        rw [heq] at hkey
        exact ih hkey _
      · rename_i heq
        rw [heq] at hkey
        exact hkey

theorem Sound.keysThenRefresh (h : e.Sound answers issued) (handler : LineHandler σ) (ks : List Key) (s : σ) :
    (e.keysThenRefresh handler ks s).2.1.Sound answers issued := by
  have hkeys := h.keys handler ks s
  unfold Engine.keysThenRefresh
  split
  · rename_i heq
    rw [heq] at hkeys
    exact hkeys.refresh
  · exact hkeys

theorem Sound.feed (h : e.Sound answers issued) (handler : LineHandler σ) (chunk : List UInt8) (s : σ) :
    (e.feed handler chunk s).2.1.Sound answers issued := by
  have hdecoded : ({ e with decoder := (e.decoder.feed chunk).2 } : Engine).Sound answers issued :=
    h.advance .same rfl rfl
  exact hdecoded.keysThenRefresh handler (e.decoder.feed chunk).1 s

theorem Sound.flushEscape (h : e.Sound answers issued) (handler : LineHandler σ) (s : σ) :
    (e.flushEscape handler s).2.1.Sound answers issued := by
  have hdecoded : ({ e with decoder := e.decoder.flush.2 } : Engine).Sound answers issued :=
    h.advance .same rfl rfl
  exact hdecoded.keysThenRefresh handler e.decoder.flush.1 s

end

end Engine

/-! ### The run -/

namespace World

def Sound (w : World σ) : Prop :=
  w.engine.Sound w.answers w.issued

theorem sound_settle {w : World σ} {e : Engine} (h : e.Sound w.answers w.issued) : (w.settle e).Sound where
  issued := by
    intro job hjob
    rcases List.mem_append.mp hjob with hold | hnew
    · exact h.issued job hold
    · exact h.jobs job hnew
  jobs := by
    intro job hjob
    cases hjob
  suffix := h.suffix
  suggestion := h.suggestion

theorem sound_start (settings : Settings) (highlighter : String → String) (history : HistoryStore) (columns : Nat)
    (state : σ) : (start settings highlighter history columns state).Sound := by
  refine sound_settle (Engine.Sound.refresh ⟨?_, ?_, ?_, ⟨Nat.le_refl _, ?_⟩⟩)
  · intro job hjob
    cases hjob
  · intro job hjob
    cases hjob
  · intro s hs
    cases hs
  · intro _ text htext
    cases htext

theorem Sound.step {w : World σ} (h : w.Sound) (handler : LineHandler σ) (input : Input) :
    (w.step handler input).Sound := by
  cases input with
  | chunk bytes => exact sound_settle (Engine.Sound.feed h handler bytes w.state)
  | flush => exact sound_settle (Engine.Sound.flushEscape h handler w.state)
  | answer a =>
      unfold World.step
      dsimp only
      split
      · rename_i hjob
        have hanswered : w.engine.Sound (a :: w.answers) w.issued := Engine.Sound.answered h a
        exact sound_settle (w := { w with answers := a :: w.answers })
          (hanswered.onAnswer (List.mem_cons_self ..) hjob)
      · exact h
  | historyLoaded lines => exact sound_settle (Engine.Sound.advance h .same rfl rfl)
  | resize columns => exact sound_settle (Engine.Sound.paint (Engine.Sound.advance h .same rfl rfl))

theorem Sound.run {w : World σ} (h : w.Sound) (handler : LineHandler σ) (inputs : List Input) :
    (w.run handler inputs).Sound := by
  induction inputs generalizing w with
  | nil => exact h
  | cons input inputs ih => exact ih (h.step handler input)

/-- What is shown behind the line is part of an answer that was given about this line. -/
def SuffixBelongs (w : World σ) : Prop :=
  ∀ s, w.engine.buffer.suffix = some s → s.BelongsTo w.answers w.engine.buffer

/-- An answer to any request for all candidates inserts nothing, unless the request was made for the line up to the
cursor as it is now. -/
def InsertsFresh (w : World σ) : Prop :=
  ∀ generation source result, .complete generation .full source ∈ w.issued →
    let line := w.engine.buffer
    let after := (w.engine.onEvent (Answer.completion generation .full source result).event).buffer
    after = line ∨
      source = line.committed ++ line.beforeCursor ∧
        ∃ text, result = .ok (some (.candidates [text])) ∧ after = line.insert text

/-- However chunks of input, pauses and answers follow each other, the suffix belongs to the line, and nothing is
inserted into a line that was not asked about. -/
theorem run_belongs (handler : LineHandler σ) (settings : Settings) (highlighter : String → String)
    (history : HistoryStore) (columns : Nat) (state : σ) (inputs : List Input) :
    let w := (start settings highlighter history columns state).run handler inputs
    w.SuffixBelongs ∧ w.InsertsFresh := by
  intro w
  have hsound : w.Sound := (sound_start settings highlighter history columns state).run handler inputs
  refine ⟨hsound.suffix, ?_⟩
  intro generation source result hjob
  exact hsound.onAnswer_full hjob result

end World

end ScriptRepl.Console
