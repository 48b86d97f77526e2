import Mathlib.Algebra.GroupWithZero.Nat
import ScriptRepl.Proofs.Console.Cycling

/-! What asks for background work. A key does for all candidates, a change of the line for a completion to be shown or a
preview, and a completion that there is nothing to show of for a preview. Work is scheduled for a generation once, so
that no more than one job of a kind is issued for it but for those that a key asked for; and the answer to a job asks
for less than what it answers. -/
namespace ScriptRepl.Console

/-! ### Kinds of jobs -/

namespace Job

def generation : Job → Nat
  | complete generation _ _ => generation
  | preview generation _ _ => generation

/-- Asked for by a key. -/
def isFull : Job → Bool
  | complete _ .full _ => true
  | _ => false

def isPartly (generation : Nat) : Job → Bool
  | complete g .partly _ => g = generation
  | _ => false

def isPreview (generation : Nat) : Job → Bool
  | preview g _ _ => g = generation
  | _ => false

/-- How many answers it takes at most until nothing is left of a job and of all that comes of it. -/
def weight : Job → Nat
  | complete _ .full _ => 3
  | complete _ .partly _ => 2
  | preview .. => 1

theorem weight_pos (job : Job) : 0 < job.weight := by
  unfold weight
  split <;> decide

theorem of_isPartly {job : Job} {g : Nat} (h : job.isPartly g = true) :
    job.isFull = false ∧ job.isPreview g = false ∧ job.generation = g := by
  cases job with
  | complete generation mode source =>
      cases mode with
      | partly => exact ⟨rfl, rfl, of_decide_eq_true h⟩
      | full => cases h
  | preview generation source width => cases h

theorem of_isPreview {job : Job} {g : Nat} (h : job.isPreview g = true) :
    job.isFull = false ∧ job.isPartly g = false ∧ job.generation = g := by
  cases job with
  | complete generation mode source => cases h
  | preview generation source width => exact ⟨rfl, rfl, of_decide_eq_true h⟩

theorem kinds_of_isFull {job : Job} (h : job.isFull = true) (g : Nat) :
    job.isPartly g = false ∧ job.isPreview g = false := by
  cases job with
  | complete generation mode source =>
      cases mode with
      | partly => cases h
      | full => exact ⟨rfl, rfl⟩
  | preview generation source width => cases h

end Job

/-- The key that asks for all candidates. -/
def Key.isTab (k : Key) : Bool :=
  k.name = .tab && !k.ctrl && !k.alt

/-- How many completions an action asks for. -/
def Action.asked : Action → Nat
  | .complete => 1
  | _ => 0

theorem Key.isTab_of_complete {k : Key} {context : KeyContext} (h : k.action context = .complete) : k.isTab = true := by
  unfold action controlAction altAction at h
  dsimp only at h
  repeat' split at h
  all_goals cases h
  all_goals
    rename_i hname hplain
    rw [isTab, hname]
    simpa using hplain

theorem Key.asked_le (k : Key) (context : KeyContext) : (k.action context).asked ≤ [k].countP isTab := by
  by_cases hcomplete : k.action context = .complete
  · rw [hcomplete, List.countP_singleton, if_pos (isTab_of_complete hcomplete)]
    exact Nat.le_refl 1
  · have hnone : (k.action context).asked = 0 := by
      revert hcomplete
      cases k.action context <;> simp [Action.asked]
    rw [hnone]
    exact Nat.zero_le _

namespace Engine

variable {e e' : Engine} {n m : Nat}

/-! ### Keys -/

/-- The line goes on, no work is scheduled, and at most so many completions are asked for by keys. -/
structure Asks (n : Nat) (e e' : Engine) : Prop where
  generation_le : e.buffer.generation ≤ e'.buffer.generation
  scheduled : e'.scheduled = e.scheduled
  jobs : ∃ fulls, e'.jobs = e.jobs ++ fulls ∧ fulls.length ≤ n ∧ ∀ job ∈ fulls, job.isFull = true

theorem asks_of_le (hgeneration : e.buffer.generation ≤ e'.buffer.generation) (hscheduled : e'.scheduled = e.scheduled)
    (hjobs : e'.jobs = e.jobs) : e.Asks 0 e' :=
  ⟨hgeneration, hscheduled, [], by rw [hjobs, List.append_nil], Nat.le_refl 0, nofun⟩

theorem asks_of_advances (hbuffer : e.buffer.Advances e'.buffer) (hscheduled : e'.scheduled = e.scheduled)
    (hjobs : e'.jobs = e.jobs) : e.Asks 0 e' :=
  asks_of_le hbuffer.generation_le hscheduled hjobs

theorem Asks.refl (e : Engine) : e.Asks 0 e :=
  asks_of_advances .same rfl rfl

theorem Asks.trans {e'' : Engine} (h : e.Asks n e') (g : e'.Asks m e'') : e.Asks (n + m) e'' := by
  obtain ⟨fulls, hjobs, hlength, hfulls⟩ := h.jobs
  obtain ⟨more, hjobs', hlength', hmore⟩ := g.jobs
  refine ⟨Nat.le_trans h.generation_le g.generation_le, g.scheduled.trans h.scheduled, fulls ++ more, ?_, ?_, ?_⟩
  · rw [hjobs', hjobs, List.append_assoc]
  · rw [List.length_append]
    exact Nat.add_le_add hlength hlength'
  · exact List.forall_mem_append.mpr ⟨hfulls, hmore⟩

theorem Asks.mono (h : e.Asks n e') (hn : n ≤ m) : e.Asks m e' := by
  obtain ⟨fulls, hjobs, hlength, hfulls⟩ := h.jobs
  exact ⟨h.generation_le, h.scheduled, fulls, hjobs, Nat.le_trans hlength hn, hfulls⟩

theorem asks_withBuffer (e : Engine) {b : Buffer} (hb : e.buffer.Advances b) : e.Asks 0 (e.withBuffer b) :=
  asks_of_advances hb rfl rfl

theorem asks_paint (e : Engine) : e.Asks 0 e.paint := by
  refine asks_of_advances ?_ e.paint_scheduled e.paint_jobs
  rw [paint_buffer]
  exact .same

theorem Asks.draw (h : e.Asks n e') {act : Screen → List Command × Screen} : e.Asks n (e'.draw act) :=
  ⟨h.generation_le, h.scheduled, h.jobs⟩

theorem asks_recallLine (e : Engine) (step : History → Option String × History) : e.Asks 0 (e.recallLine step) := by
  unfold recallLine
  dsimp only
  split
  · exact asks_of_advances (e.buffer.advances_replace _ _) rfl rfl
  · exact asks_of_advances .same rfl rfl

theorem asks_rotate (e : Engine) (forward : Bool) : e.Asks 0 (e.rotate forward) :=
  asks_of_le (Nat.le_refl _) rfl rfl

theorem asks_interrupt (e : Engine) : e.Asks 0 e.interrupt.2 := by
  unfold interrupt
  split
  · exact asks_of_advances (e.buffer.advances_reset _) rfl rfl
  · split <;> exact asks_of_advances .same rfl rfl

theorem asks_submit (e : Engine) : e.Asks 0 e.submit.2 := by
  have hleft : e.Asks 0 ((e.withBuffer (e.buffer.setSuffix none).toEnd.2).paint.draw Screen.newline) :=
    (e.asks_withBuffer (Buffer.Advances.bare.trans (Buffer.advances_edit _ _ _))).trans (asks_paint _).draw
  unfold submit
  dsimp only
  split
  · exact hleft.trans (asks_withBuffer _ (Buffer.advances_reset _ _))
  · exact hleft

theorem asks_onOutcome (e : Engine) (statement : String) (outcome : LineOutcome) :
    e.Asks 0 (e.onOutcome statement outcome) := by
  cases outcome with
  | needsAnotherLine => exact asks_of_advances (e.buffer.advances_continueLine _) rfl rfl
  | output text =>
      unfold onOutcome
      dsimp only
      split <;> exact asks_of_advances (e.buffer.advances_reset _) rfl rfl

theorem asks_complete (e : Engine) : e.Asks 1 (e.requestCompletion .full) :=
  ⟨Nat.le_refl _, rfl, [_], rfl, Nat.le_refl 1, List.forall_mem_singleton.mpr rfl⟩

theorem asks_act (e : Engine) (action : Action) : e.Asks action.asked (e.act action).2 := by
  cases action with
  | insert text => exact asks_of_advances (e.buffer.advances_edit _ _) rfl rfl
  | left | right => exact e.asks_withBuffer (e.buffer.advances_move _)
  | wordLeft | wordRight | toStart | toEnd => exact e.asks_withBuffer (e.buffer.advances_edit _ _)
  | deleteBackward | deleteForward | deleteWordBackward | deleteToEnd | deleteToStart =>
      exact e.asks_withBuffer (e.buffer.advances_edit _ _)
  | older => exact e.asks_recallLine History.previous
  | newer => exact e.asks_recallLine History.next
  | accept => exact e.asks_withBuffer e.buffer.advances_accept
  | complete =>
      dsimp only [act]
      split
      · exact (Asks.refl e).mono (Nat.zero_le 1)
      · exact e.asks_complete
  | nextCandidate => exact e.asks_rotate true
  | previousCandidate => exact e.asks_rotate false
  | dismiss => exact e.asks_withBuffer .bare
  | submit => exact e.asks_submit
  | interrupt => exact e.asks_interrupt
  | search | clearScreen | endOfInput | unsupported => exact asks_of_advances .same rfl rfl

theorem asks_pressSearch (e : Engine) (s : Search) (k : Key) : e.Asks 0 (e.pressSearch s k).2 := by
  unfold pressSearch
  dsimp only
  split
  · exact asks_of_advances .same rfl rfl
  · exact asks_of_advances .same rfl rfl
  · exact asks_of_advances .same rfl rfl
  · exact asks_of_advances (e.buffer.advances_replace _ _) rfl rfl
  · exact asks_of_advances .same rfl rfl
  · exact asks_of_advances (e.buffer.advances_replace _ _) rfl rfl

/-- Only the tabulator asks for a completion. -/
theorem asks_press (e : Engine) (k : Key) : e.Asks ([k].countP Key.isTab) (e.press k).2 := by
  unfold press
  split
  · unfold pressNormal
    dsimp only
    split
    · exact (e.asks_act _).mono (k.asked_le _)
    · have hdisarmed : e.Asks 0 { e with armed := false } := asks_of_advances .same rfl rfl
      rw [← Nat.zero_add (List.countP _ _)]
      exact hdisarmed.trans ((asks_act _ _).mono (k.asked_le _))
  · exact (e.asks_pressSearch _ k).mono (Nat.zero_le _)

variable (handler : LineHandler σ)

theorem asks_key (e : Engine) (k : Key) (s : σ) : e.Asks ([k].countP Key.isTab) (e.key handler k s).2.1 := by
  have hpress := e.asks_press k
  unfold key
  split
  · rename_i e' heq
    rwa [heq] at hpress
  · rename_i e' heq
    rwa [heq] at hpress
  · rename_i statement e' heq
    rw [heq] at hpress
    exact hpress.trans (asks_onOutcome _ _ _)

/-- Of keys that come together, each tabulator asks for one completion at most. -/
theorem asks_keys (e : Engine) (ks : List Key) (s : σ) : e.Asks (ks.countP Key.isTab) (e.keys handler ks s).2.1 := by
  induction ks generalizing e s with
  | nil => exact .refl e
  | cons k ks ih =>
      have hkey := e.asks_key handler k s
      rw [← List.singleton_append, List.countP_append]
      unfold keys
      dsimp only [List.singleton_append]
      split
      · rename_i e' s' heq
        rw [heq] at hkey
        exact hkey.trans (ih e' s')
      · rename_i reason e' s' heq
        rw [heq] at hkey
        exact hkey.mono (Nat.le_add_right _ _)

/-! ### Work that is scheduled -/

/-- What painting the line leads to: nothing if work was scheduled for its generation before or there is none to do, and
else one job. -/
structure Schedules (e e' : Engine) : Prop where
  generation : e'.buffer.generation = e.buffer.generation
  work : (e'.scheduled = e.scheduled ∧ e'.jobs = e.jobs) ∨
    e.scheduled ≠ some e.buffer.generation ∧ e'.scheduled = some e.buffer.generation ∧
      (e'.jobs = e.jobs ∨ (∃ source, e'.jobs = e.jobs ++ [.complete e.buffer.generation .partly source]) ∨
        ∃ source width, e'.jobs = e.jobs ++ [.preview e.buffer.generation source width])

theorem requestPreview_cases (e : Engine) :
    e.requestPreview = e ∨ ∃ source width, e.requestPreview = e.issue (.preview e.buffer.generation source width) := by
  unfold requestPreview
  split
  · exact .inr ⟨_, _, rfl⟩
  · exact .inl rfl

theorem schedules (e : Engine) : e.Schedules e.schedule := by
  refine ⟨congrArg Buffer.generation e.schedule_buffer, ?_⟩
  unfold schedule
  split
  · exact .inl ⟨rfl, rfl⟩
  · rename_i hnew
    have hnew : e.scheduled ≠ some e.buffer.generation := by
      intro hscheduled
      simp [hscheduled] at hnew
    dsimp only
    split
    · exact .inr ⟨hnew, rfl, .inl rfl⟩
    · split
      · exact .inr ⟨hnew, rfl, .inr (.inl ⟨_, rfl⟩)⟩
      · rcases requestPreview_cases
            { e with scheduled := some e.buffer.generation, suggestion := e.suggestion.clear } with
          hnone | ⟨source, width, hjob⟩
        · rw [hnone]
          exact .inr ⟨hnew, rfl, .inl rfl⟩
        · rw [hjob]
          exact .inr ⟨hnew, rfl, .inr (.inr ⟨source, width, rfl⟩)⟩

/-- Keys are pressed, and the line is painted if none of them leaves. -/
def Proceeds (n : Nat) (e e' : Engine) : Prop :=
  ∃ e₁, e.Asks n e₁ ∧ e₁.Schedules e'

theorem Asks.proceeds (h : e.Asks n e') : e.Proceeds n e' :=
  ⟨e', h, rfl, .inl ⟨rfl, rfl⟩⟩

theorem Asks.proceeds_refresh (h : e.Asks n e') : e.Proceeds n e'.refresh :=
  ⟨e'.paint, h.trans e'.asks_paint, schedules _⟩

theorem proceeds_keysThenRefresh (e : Engine) (ks : List Key) (s : σ) :
    e.Proceeds (ks.countP Key.isTab) (e.keysThenRefresh handler ks s).2.1 := by
  have hkeys := e.asks_keys handler ks s
  unfold keysThenRefresh
  split
  · rename_i e' s' heq
    rw [heq] at hkeys
    exact hkeys.proceeds_refresh
  · exact hkeys.proceeds

/-! ### Answers -/

theorem asks_showSuffix (e : Engine) (suffix : Suffix) : e.Asks 0 (e.showSuffix suffix) := by
  have hshown : e.Asks 0 (e.withBuffer (e.buffer.setSuffix (some suffix))) := asks_of_le (Nat.le_refl _) rfl rfl
  exact hshown.trans (asks_paint _)

/-- A preview is asked for, and nothing else happens to the line or the work for it. -/
structure Previews (e e' : Engine) : Prop where
  generation : e'.buffer.generation = e.buffer.generation
  scheduled : e'.scheduled = e.scheduled
  jobs : ∃ source width, e'.jobs = e.jobs ++ [.preview e.buffer.generation source width]

theorem onPartly_cases (e : Engine) (generation : Nat) (result : Option Assist.Completion) :
    e.Asks 0 (e.onPartly generation result) ∨ e.Previews (e.onPartly generation result) := by
  have hsuggested (suggestion : Suggestion) : e.Asks 0 { e with suggestion } := asks_of_advances .same rfl rfl
  unfold onPartly
  dsimp only
  split
  · exact .inl ((hsuggested _).trans (asks_showSuffix _ _))
  · rcases requestPreview_cases { e with suggestion := (e.suggestion.take generation result).2 } with
      hnone | ⟨source, width, hjob⟩
    · rw [hnone]
      exact .inl (hsuggested _)
    · rw [hjob]
      exact .inr ⟨rfl, rfl, source, width, rfl⟩

theorem proceeds_onFull (e : Engine) (result : Option Assist.Completion) : e.Proceeds 0 (e.onFull result) := by
  unfold onFull
  dsimp only
  split
  · rename_i text _
    have hinserted : e.Asks 0
        (({ e with suggestion := e.suggestion.clear } : Engine).withBuffer (e.buffer.insert text)) :=
      asks_of_advances (e.buffer.advances_edit _ _) rfl rfl
    exact hinserted.proceeds_refresh
  · rename_i listing _
    obtain ⟨hbuffer, -, hscheduled, hjobs⟩ := showListing_spec { e with suggestion := e.suggestion.clear } listing
    have hlisted : e.Asks 0 (({ e with suggestion := e.suggestion.clear } : Engine).showListing listing) := by
      refine asks_of_advances ?_ hscheduled hjobs
      rw [hbuffer]
      exact .same
    exact hlisted.proceeds
  · have hcleared : e.Asks 0 { e with suggestion := e.suggestion.clear } := asks_of_advances .same rfl rfl
    exact hcleared.proceeds

theorem asks_onPreview (e : Engine) (text : Option String) : e.Asks 0 (e.onPreview text) := by
  unfold onPreview
  split
  · split
    · exact .refl e
    · exact e.asks_showSuffix _
  · exact .refl e

/-- What the answer to a job leads to: all candidates to what a change of the line leads to, a completion that there is
nothing to show of to a preview, and a preview to nothing. -/
inductive Follows (e : Engine) : Job → Engine → Prop where
  | nothing {job : Job} {e' : Engine} (h : e.Asks 0 e') : e.Follows job e'
  | previews {source : String} {e' : Engine} (h : e.Previews e') :
      e.Follows (.complete e.buffer.generation .partly source) e'
  | proceeds {generation : Nat} {source : String} {e' : Engine} (h : e.Proceeds 0 e') :
      e.Follows (.complete generation .full source) e'

theorem follows_onEvent (e : Engine) (a : Answer) : e.Follows a.job (e.onEvent a.event) := by
  unfold onEvent
  split
  · exact .nothing (.refl e)
  · rename_i hcurrent
    have hcurrent : e.isCurrent a.event = true := by simpa using hcurrent
    cases a with
    | completion generation mode source result =>
        obtain rfl : generation = e.buffer.generation := generation_of_isCurrent hcurrent rfl
        cases mode with
        | partly =>
            rcases e.onPartly_cases e.buffer.generation (Suggestion.usable result) with h | h
            · exact .nothing h
            · exact .previews h
        | full => exact .proceeds (e.proceeds_onFull (Suggestion.usable result))
    | preview generation source width text => exact .nothing (e.asks_onPreview text)

/-! ### One job of a kind for each generation -/

/-- Work is scheduled for a generation once, and either for a completion to be shown or for a preview; a preview comes
in the place of such a completion only when that is no longer outstanding. -/
structure Tallied (issued waiting : List Job) (e : Engine) : Prop where
  scheduled_le : ∀ g, e.scheduled = some g → g ≤ e.buffer.generation
  past : ∀ job ∈ issued ++ e.jobs, job.isFull = false → ∃ g, e.scheduled = some g ∧ job.generation ≤ g
  mem_issued : ∀ job ∈ waiting, job ∈ issued
  partly : ∀ g, (issued ++ e.jobs).countP (Job.isPartly g) ≤ 1
  preview : ∀ g, (issued ++ e.jobs).countP (Job.isPreview g) + (waiting ++ e.jobs).countP (Job.isPartly g) ≤ 1

variable {issued waiting : List Job}

theorem Tallied.asks (h : e.Tallied issued waiting) (hasks : e.Asks n e') : e'.Tallied issued waiting := by
  obtain ⟨fulls, hjobs, -, hfulls⟩ := hasks.jobs
  have hpartly (g : Nat) : fulls.countP (Job.isPartly g) = 0 :=
    List.countP_eq_zero.mpr fun job hjob => by simp [(Job.kinds_of_isFull (hfulls job hjob) g).1]
  have hpreview (g : Nat) : fulls.countP (Job.isPreview g) = 0 :=
    List.countP_eq_zero.mpr fun job hjob => by simp [(Job.kinds_of_isFull (hfulls job hjob) g).2]
  refine ⟨fun g hg => ?_, fun job hjob hkind => ?_, h.mem_issued, fun g => ?_, fun g => ?_⟩
  · rw [hasks.scheduled] at hg
    exact Nat.le_trans (h.scheduled_le g hg) hasks.generation_le
  · rw [hjobs, ← List.append_assoc, List.mem_append] at hjob
    rw [hasks.scheduled]
    refine h.past job (hjob.resolve_right fun hfull => ?_) hkind
    rw [hfulls job hfull] at hkind
    cases hkind
  · rw [hjobs, ← List.append_assoc, List.countP_append, hpartly]
    exact h.partly g
  · have hold := h.preview g
    simp only [hjobs, List.countP_append, hpreview, hpartly, Nat.add_zero] at hold ⊢
    exact hold

/-- There is no work yet for a generation that none was scheduled for. -/
theorem Tallied.counts_of_unscheduled (h : e.Tallied issued waiting) (hnew : e.scheduled ≠ some e.buffer.generation) :
    (issued ++ e.jobs).countP (Job.isPartly e.buffer.generation) = 0 ∧
      (issued ++ e.jobs).countP (Job.isPreview e.buffer.generation) +
        (waiting ++ e.jobs).countP (Job.isPartly e.buffer.generation) = 0 := by
  -- work is for the generation that was scheduled last or an older one, and the line has gone on since
  have hnone : ∀ job ∈ issued ++ e.jobs, job.isFull = false → job.generation ≠ e.buffer.generation := by
    intro job hjob hkind hgeneration
    obtain ⟨g, hg, hle⟩ := h.past job hjob hkind
    have hle' := h.scheduled_le g hg
    rw [hgeneration] at hle
    exact hnew (by rw [hg, Nat.le_antisymm hle' hle])
  have hpartly : ∀ job ∈ issued ++ e.jobs, ¬job.isPartly e.buffer.generation = true := fun job hjob hkind =>
    hnone job hjob (Job.of_isPartly hkind).1 (Job.of_isPartly hkind).2.2
  have hpreview : ∀ job ∈ issued ++ e.jobs, ¬job.isPreview e.buffer.generation = true := fun job hjob hkind =>
    hnone job hjob (Job.of_isPreview hkind).1 (Job.of_isPreview hkind).2.2
  refine ⟨List.countP_eq_zero.mpr hpartly, ?_⟩
  rw [List.countP_eq_zero.mpr hpreview, List.countP_eq_zero.mpr fun job hjob => hpartly job ?_]
  exact (List.mem_append.mp hjob).elim (fun hold => List.mem_append_left _ (h.mem_issued job hold))
    (List.mem_append_right _)

/-- One more job for a generation without work that is counted with it. -/
theorem Tallied.add (h : e.Tallied issued waiting) {job : Job}
    (hgeneration : e'.buffer.generation = e.buffer.generation) (hscheduled : e'.scheduled = e.scheduled)
    (hjobs : e'.jobs = e.jobs ++ [job])
    (hpast : ∃ g, e.scheduled = some g ∧ job.generation ≤ g)
    (hpartly : job.isPartly job.generation = true → (issued ++ e.jobs).countP (Job.isPartly job.generation) = 0)
    (hpreview : (issued ++ e.jobs).countP (Job.isPreview job.generation) +
      (waiting ++ e.jobs).countP (Job.isPartly job.generation) = 0) : e'.Tallied issued waiting := by
  refine ⟨fun g hg => ?_, fun other hother hkind => ?_, h.mem_issued, fun g => ?_, fun g => ?_⟩
  · rw [hgeneration]
    exact h.scheduled_le g (hscheduled ▸ hg)
  · rw [hjobs, ← List.append_assoc, List.mem_append, List.mem_singleton] at hother
    rw [hscheduled]
    rcases hother with hold | rfl
    · exact h.past other hold hkind
    · exact hpast
  · rw [hjobs, ← List.append_assoc, List.countP_append, List.countP_singleton]
    split
    · rename_i hkind
      obtain ⟨-, -, rfl⟩ := Job.of_isPartly hkind
      exact Nat.succ_le_succ (Nat.le_of_eq (hpartly hkind))
    · exact h.partly g
  · have hold := h.preview g
    simp only [hjobs, List.countP_append, List.countP_singleton] at hold hpreview ⊢
    by_cases hkind : job.isPreview g = true
    · obtain ⟨-, hother, rfl⟩ := Job.of_isPreview hkind
      rw [if_pos hkind, if_neg (by simp [hother])]
      omega
    · rw [if_neg hkind]
      split
      · rename_i hkind'
        obtain ⟨-, -, rfl⟩ := Job.of_isPartly hkind'
        omega
      · omega

theorem Tallied.schedules (h : e.Tallied issued waiting) (hwork : e.Schedules e') : e'.Tallied issued waiting := by
  have hle := Nat.le_of_eq hwork.generation.symm
  rcases hwork.work with ⟨hscheduled, hjobs⟩ | ⟨hnew, hscheduled, hjobs⟩
  · exact h.asks (asks_of_le hle hscheduled hjobs)
  · obtain ⟨hpartly, hpreview⟩ := h.counts_of_unscheduled hnew
    have hmarked : Tallied issued waiting { e with scheduled := some e.buffer.generation } := by
      refine ⟨?_, fun job hjob hkind => ?_, h.mem_issued, h.partly, h.preview⟩
      · rintro _ ⟨⟩
        exact Nat.le_refl _
      · obtain ⟨g, hg, hle⟩ := h.past job hjob hkind
        exact ⟨_, rfl, Nat.le_trans hle (h.scheduled_le g hg)⟩
    have hadd {job : Job} (hjobs : e'.jobs = e.jobs ++ [job]) (hgeneration : job.generation = e.buffer.generation) :
        e'.Tallied issued waiting := by
      rw [← hgeneration] at hpartly hpreview
      exact hmarked.add hwork.generation hscheduled hjobs ⟨_, rfl, Nat.le_of_eq hgeneration⟩ (fun _ => hpartly) hpreview
    rcases hjobs with hjobs | ⟨source, hjobs⟩ | ⟨source, width, hjobs⟩
    · exact hmarked.asks (asks_of_le hle hscheduled hjobs)
    · exact hadd hjobs rfl
    · exact hadd hjobs rfl

theorem Tallied.proceeds (h : e.Tallied issued waiting) (hproceeds : e.Proceeds n e') : e'.Tallied issued waiting := by
  obtain ⟨e₁, hasks, hwork⟩ := hproceeds
  exact (h.asks hasks).schedules hwork

/-- A job that was answered is no longer outstanding. -/
theorem Tallied.erase (h : e.Tallied issued waiting) (job : Job) : e.Tallied issued (waiting.erase job) where
  scheduled_le := h.scheduled_le
  past := h.past
  mem_issued := fun other hother => h.mem_issued other (List.mem_of_mem_erase hother)
  partly := h.partly
  preview g := by
    refine Nat.le_trans (Nat.add_le_add_left ?_ _) (h.preview g)
    exact (List.erase_sublist.append_right _).countP_le

theorem Tallied.answered (h : e.Tallied issued waiting) {job : Job} (hjob : job ∈ waiting)
    (hfollows : e.Follows job e') : e'.Tallied issued (waiting.erase job) := by
  cases hfollows with
  | nothing hasks => exact (h.erase job).asks hasks
  | proceeds hproceeds => exact (h.erase _).proceeds hproceeds
  | @previews source _ hpreviews =>
      -- the completion that was answered is the only work for its generation, and the preview takes its place
      obtain ⟨source', width, hjobs⟩ := hpreviews.jobs
      have hpast := h.past _ (List.mem_append_left _ (h.mem_issued _ hjob)) rfl
      refine (h.erase _).add hpreviews.generation hpreviews.scheduled hjobs hpast nofun ?_
      have hbefore := h.preview e.buffer.generation
      have hperm := (List.perm_cons_erase hjob).countP_eq (Job.isPartly e.buffer.generation)
      have hkind : (Job.complete e.buffer.generation .partly source).isPartly e.buffer.generation = true :=
        decide_eq_true rfl
      rw [List.countP_cons_of_pos hkind] at hperm
      simp only [List.countP_append, Job.generation] at hbefore ⊢
      omega

theorem Tallied.taken (h : e.Tallied issued waiting) : e.takeJobs.2.Tallied (issued ++ e.jobs) (waiting ++ e.jobs) where
  scheduled_le := h.scheduled_le
  past := by
    rw [show e.takeJobs.2.jobs = [] from rfl, List.append_nil]
    exact h.past
  mem_issued := by
    intro job hjob
    rw [List.mem_append] at hjob ⊢
    exact hjob.imp_left (h.mem_issued job)
  partly := by
    rw [show e.takeJobs.2.jobs = [] from rfl, List.append_nil]
    exact h.partly
  preview := by
    rw [show e.takeJobs.2.jobs = [] from rfl, List.append_nil, List.append_nil]
    exact h.preview

/-! ### How much more there can be -/

theorem Asks.countP_isFull (h : e.Asks n e') : e'.jobs.countP Job.isFull ≤ e.jobs.countP Job.isFull + n := by
  obtain ⟨fulls, hjobs, hlength, -⟩ := h.jobs
  rw [hjobs, List.countP_append]
  exact Nat.add_le_add_left (Nat.le_trans List.countP_le_length hlength) _

theorem Schedules.countP_isFull (h : e.Schedules e') : e'.jobs.countP Job.isFull = e.jobs.countP Job.isFull := by
  rcases h.work with ⟨-, hjobs⟩ | ⟨-, -, hjobs | ⟨source, hjobs⟩ | ⟨source, width, hjobs⟩⟩
  · rw [hjobs]
  · rw [hjobs]
  · rw [hjobs, List.countP_append]
    rfl
  · rw [hjobs, List.countP_append]
    rfl

theorem Proceeds.countP_isFull (h : e.Proceeds n e') : e'.jobs.countP Job.isFull ≤ e.jobs.countP Job.isFull + n := by
  obtain ⟨e₁, hasks, hwork⟩ := h
  rw [hwork.countP_isFull]
  exact hasks.countP_isFull

theorem Follows.countP_isFull {job : Job} (h : e.Follows job e') :
    e'.jobs.countP Job.isFull ≤ e.jobs.countP Job.isFull := by
  cases h with
  | nothing hasks => exact hasks.countP_isFull
  | proceeds hproceeds => exact hproceeds.countP_isFull
  | previews hpreviews =>
      obtain ⟨source, width, hjobs⟩ := hpreviews.jobs
      rw [hjobs, List.countP_append]
      exact Nat.le_refl _

end Engine

/-- Of several jobs. -/
def Job.weights (jobs : List Job) : Nat :=
  (jobs.map Job.weight).sum

theorem Job.weights_append (a b : List Job) : weights (a ++ b) = weights a + weights b := by
  rw [weights, List.map_append, List.sum_append]
  rfl

namespace Engine

variable {e e' : Engine}

theorem Asks.jobs_eq (h : e.Asks 0 e') : e'.jobs = e.jobs := by
  obtain ⟨fulls, hjobs, hlength, -⟩ := h.jobs
  rw [hjobs, List.length_eq_zero_iff.mp (Nat.le_zero.mp hlength), List.append_nil]

theorem Schedules.weights_le (h : e.Schedules e') : Job.weights e'.jobs ≤ Job.weights e.jobs + 2 := by
  rcases h.work with ⟨-, hjobs⟩ | ⟨-, -, hjobs | ⟨source, hjobs⟩ | ⟨source, width, hjobs⟩⟩
  · rw [hjobs]
    exact Nat.le_add_right _ _
  · rw [hjobs]
    exact Nat.le_add_right _ _
  · rw [hjobs, Job.weights_append]
    exact Nat.le_refl _
  · rw [hjobs, Job.weights_append]
    exact Nat.le_succ _

/-- What an answer asks for weighs less than what it answers. -/
theorem Follows.weights_lt {job : Job} (h : e.Follows job e') :
    Job.weights e'.jobs < Job.weights e.jobs + job.weight := by
  cases h with
  | nothing hasks =>
      rw [hasks.jobs_eq]
      exact Nat.lt_add_of_pos_right job.weight_pos
  | proceeds hproceeds =>
      obtain ⟨e₁, hasks, hwork⟩ := hproceeds
      have hle := hwork.weights_le
      rw [hasks.jobs_eq] at hle
      exact Nat.lt_of_le_of_lt hle (Nat.lt_succ_self _)
  | previews hpreviews =>
      obtain ⟨source, width, hjobs⟩ := hpreviews.jobs
      rw [hjobs, Job.weights_append]
      exact Nat.lt_succ_self _

end Engine

end ScriptRepl.Console
