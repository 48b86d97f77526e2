import ScriptRepl.Proofs.Console.Accepting
import ScriptRepl.Proofs.Console.Leaving

/-! Leaving by the key for an interrupt. An interrupt that finds no statement to give up asks for a second one, and
nothing but a key takes that back. So a key leaves exactly if it and the last key before it are such interrupts, and
that one has only asked. -/
namespace ScriptRepl.Console

namespace Key

/-- The key for an interrupt. -/
def IsInterrupt (k : Key) : Prop :=
  k.IsControl 'c'

theorem controlAction_interrupt {context : KeyContext} {c : Char} : controlAction context c = .interrupt ↔ c = 'c' := by
  unfold controlAction
  repeat' split
  all_goals simp_all

theorem action_interrupt {context : KeyContext} {k : Key} : k.action context = .interrupt ↔ k.IsInterrupt := by
  rw [action_control (by simp) (altAction_ne (by decide)) (by decide)]
  constructor
  · rintro ⟨c, hk, hc⟩
    obtain rfl := controlAction_interrupt.mp hc
    exact hk
  · exact fun hk => ⟨'c', hk, controlAction_interrupt.mpr rfl⟩

end Key

namespace Engine

/-- The key is an interrupt that finds no statement to give up. -/
structure Interrupts (e : Engine) (k : Key) : Prop where
  mode : e.mode = .normal
  key : k.IsInterrupt
  statement : e.buffer.statement = ""

theorem Interrupts.action? {e : Engine} {k : Key} (h : e.Interrupts k) : e.action? k = some .interrupt := by
  unfold Engine.action?
  rw [h.mode]
  exact congrArg some (Key.action_interrupt.mpr h.key)

theorem Interrupts.mode_key {e : Engine} {k : Key} (h : e.Interrupts k) (handler : LineHandler σ) (s : σ) :
    (e.key handler k s).2.1.mode = .normal := by
  have hpress := press_interrupt h.action?
  rw [key_of_not_evaluate handler (hpress ▸ e.interrupt_response), hpress]
  exact e.mode_interrupt.trans h.mode

/-! ### What asks for a second interrupt -/

theorem armed_paint (e : Engine) : e.paint.armed = e.armed := by
  obtain ⟨screen, output, hpaint⟩ := e.paint_spec
  rw [hpaint]

theorem armed_requestPreview (e : Engine) : e.requestPreview.armed = e.armed := by
  unfold requestPreview
  split <;> rfl

theorem armed_refresh (e : Engine) : e.refresh.armed = e.armed := by
  obtain ⟨scheduled, suggestion, jobs, hschedule, -⟩ := e.paint.schedule_spec
  rw [refresh, hschedule]
  exact e.armed_paint

theorem armed_showSuffix (e : Engine) (suffix : Suffix) : (e.showSuffix suffix).armed = e.armed :=
  armed_paint _

theorem armed_showListing (e : Engine) (listing : String) : (e.showListing listing).armed = e.armed := by
  unfold showListing
  exact (armed_paint _).trans (armed_paint _)

theorem armed_onEvent (e : Engine) (event : Event) : (e.onEvent event).armed = e.armed := by
  unfold onEvent
  split
  · rfl
  · cases event with
    | historyLoaded lines => rfl
    | completed generation mode result =>
        cases mode with
        | partly =>
            dsimp only
            unfold onPartly
            dsimp only
            split
            · exact armed_showSuffix _ _
            · exact armed_requestPreview _
        | full =>
            dsimp only
            unfold onFull
            dsimp only
            split
            · exact armed_refresh _
            · exact armed_showListing _ _
            · rfl
    | previewed generation text =>
        dsimp only
        unfold onPreview
        split
        · split
          · rfl
          · exact armed_showSuffix _ _
        · rfl

theorem armed_recallLine (e : Engine) (step : History → Option String × History) :
    (e.recallLine step).armed = e.armed := by
  unfold recallLine
  dsimp only
  split <;> rfl

theorem armed_submit (e : Engine) : e.submit.2.armed = e.armed := by
  have hleft : ((e.withBuffer (e.buffer.setSuffix none).toEnd.2).paint.draw Screen.newline).armed = e.armed :=
    armed_paint (e.withBuffer (e.buffer.setSuffix none).toEnd.2)
  unfold submit
  dsimp only
  split
  · exact hleft
  · exact hleft

theorem armed_onOutcome (e : Engine) (statement : String) (outcome : LineOutcome) :
    (e.onOutcome statement outcome).armed = e.armed := by
  cases outcome with
  | needsAnotherLine => rfl
  | output text =>
      unfold onOutcome
      dsimp only
      split <;> rfl

theorem armed_act (e : Engine) {action : Action} (h : action ≠ .interrupt) : (e.act action).2.armed = e.armed := by
  cases action with
  | interrupt => exact absurd rfl h
  | older => exact e.armed_recallLine _
  | newer => exact e.armed_recallLine _
  | complete =>
      unfold act
      dsimp only
      split <;> rfl
  | submit => exact e.armed_submit
  | _ => rfl

/-! ### Keys -/

/-- The key leaves, or asks for the key that leaves. -/
structure Guards (e : Engine) (k : Key) (out : Response × Engine) : Prop where
  leaves : out.1 = .exit .interrupted ↔ e.Interrupts k ∧ e.armed = true
  asks : out.2.armed = true ↔ e.Interrupts k ∧ out.1 = .goOn

theorem guards_of_not_interrupts {e : Engine} {k : Key} (h : ¬ e.Interrupts k) {out : Response × Engine}
    (hleaves : out.1 ≠ .exit .interrupted) (hasks : out.2.armed = false) : e.Guards k out where
  leaves := iff_of_false hleaves fun hk => h hk.1
  asks := iff_of_false (by simp [hasks]) fun hk => h hk.1

theorem act_ne_interrupted (e : Engine) {action : Action} (h : action ≠ .interrupt) :
    (e.act action).1 ≠ .exit .interrupted := by
  cases action with
  | interrupt => exact absurd rfl h
  | submit =>
      unfold act submit
      dsimp only
      split <;> simp
  | _ => simp [act]

theorem guards_interrupt {e : Engine} {k : Key} (hmode : e.mode = .normal) (hk : k.IsInterrupt) :
    e.Guards k e.interrupt := by
  by_cases hstatement : e.buffer.statement = ""
  · have hinterrupts : e.Interrupts k := ⟨hmode, hk, hstatement⟩
    cases harmed : e.armed with
    | false =>
        exact ⟨by simp [interrupt, hstatement, harmed], by simp [interrupt, hstatement, harmed, draw, hinterrupts]⟩
    | true =>
        exact ⟨by simp [interrupt, hstatement, harmed, hinterrupts], by simp [interrupt, hstatement, harmed, draw]⟩
  · refine guards_of_not_interrupts (fun h => hstatement h.statement) ?_ ?_
    · simp [interrupt, hstatement]
    · simp [interrupt, hstatement, resetLine, endRecall, withBuffer]

theorem guards_press {e : Engine} (hsearch : e.Searches → e.armed = false) (k : Key) : e.Guards k (e.press k) := by
  cases hmode : e.mode with
  | normal =>
      by_cases hk : k.IsInterrupt
      · have haction : e.action? k = some .interrupt := by
          unfold action?
          rw [hmode]
          exact congrArg some (Key.action_interrupt.mpr hk)
        rw [press_interrupt haction]
        exact guards_interrupt hmode hk
      · have hother : k.action e.context ≠ .interrupt := fun h => hk (Key.action_interrupt.mp h)
        have hpress : e.press k = ({ e with armed := false } : Engine).act (k.action e.context) := by
          unfold press pressNormal
          rw [hmode]
          exact congrArg (act · _) (if_neg hother)
        rw [hpress]
        exact guards_of_not_interrupts (fun h => hk h.key) (act_ne_interrupted _ hother) (armed_act _ hother)
  | search search =>
      have harmed : e.armed = false := hsearch ⟨search, hmode⟩
      have hpress : e.press k = e.pressSearch search k := by
        unfold press
        rw [hmode]
      rw [hpress]
      refine guards_of_not_interrupts (fun h => nomatch hmode.symm.trans h.mode) ?_ ?_
      · unfold pressSearch
        dsimp only
        split <;> simp
      · unfold pressSearch
        dsimp only
        split <;> exact harmed

variable (handler : LineHandler σ)

/-- A key leaves by an interrupt if one has been asked for, and asks for one if it goes on; what a handler makes of a
statement does not matter. -/
theorem key_guards {e : Engine} (hsearch : e.Searches → e.armed = false) (k : Key) (s : σ) :
    ((e.key handler k s).1 = .exit .interrupted ↔ e.Interrupts k ∧ e.armed = true) ∧
      ((e.key handler k s).2.1.armed = true ↔ e.Interrupts k ∧ (e.key handler k s).1 = .goOn) := by
  obtain ⟨hleaves, hasks⟩ := guards_press hsearch k
  rcases hpress : e.press k with ⟨response, e'⟩
  rw [hpress] at hleaves hasks
  cases response with
  | goOn =>
      rw [key_of_goOn handler hpress]
      exact ⟨by simpa using hleaves, by simpa using hasks⟩
  | exit reason =>
      have hkey : e.key handler k s = (.exit reason, e', s) := by
        unfold key
        rw [hpress]
      rw [hkey]
      exact ⟨by simpa using hleaves, by simpa using hasks⟩
  | evaluate statement =>
      have hnot : ¬ e.Interrupts k := fun h => e.interrupt_response statement
        (congrArg Prod.fst ((press_interrupt h.action?).symm.trans hpress))
      have harmed : e'.armed = false := by simpa [hnot] using hasks
      rw [key_of_evaluate handler hpress]
      simp [hnot, armed_onOutcome, harmed]

end Engine

namespace Moment

variable (handler : LineHandler σ)

/-- The last key among the moments, and what came before it. -/
def LastKey (ms before : List Moment) (k : Key) : Prop :=
  ∃ between, ms = before ++ .key k :: between ∧ ∀ k', .key k' ∉ between

theorem lastKey_concat_key {ms before : List Moment} {k k' : Key} :
    LastKey (ms ++ [.key k]) before k' ↔ before = ms ∧ k' = k := by
  constructor
  · rintro ⟨between, hsplit, hnone⟩
    rcases List.eq_nil_or_concat' between with rfl | ⟨between, m, rfl⟩
    · obtain ⟨rfl, hlast⟩ := List.append_inj' hsplit rfl
      cases hlast
      exact ⟨rfl, rfl⟩
    · rw [← List.cons_append, ← List.append_assoc] at hsplit
      obtain ⟨-, hlast⟩ := List.append_inj' hsplit rfl
      cases hlast
      exact absurd (by simp) (hnone k)
  · rintro ⟨rfl, rfl⟩
    exact ⟨[], rfl, by simp⟩

theorem lastKey_concat {ms before : List Moment} {m : Moment} (hm : ∀ k, m ≠ .key k) {k : Key} :
    LastKey (ms ++ [m]) before k ↔ LastKey ms before k := by
  constructor
  · rintro ⟨between, hsplit, hnone⟩
    rcases List.eq_nil_or_concat' between with rfl | ⟨between, m', rfl⟩
    · obtain ⟨-, hlast⟩ := List.append_inj' hsplit rfl
      cases hlast
      exact absurd rfl (hm k)
    · rw [← List.cons_append, ← List.append_assoc] at hsplit
      obtain ⟨hms, -⟩ := List.append_inj' hsplit rfl
      exact ⟨between, hms, fun k' hk' => hnone k' (List.mem_append_left _ hk')⟩
  · rintro ⟨between, rfl, hnone⟩
    refine ⟨between ++ [m], by simp, fun k' hk' => ?_⟩
    rcases List.mem_append.mp hk' with hk' | hk'
    · exact hnone k' hk'
    · exact hm k' (List.mem_singleton.mp hk').symm

/-- Nothing but a key changes whether a second interrupt is awaited. -/
theorem armed_pass {e : Engine} {s : σ} {m : Moment} (hm : ∀ k, m ≠ .key k) :
    (m.pass handler e s).1.armed = e.armed := by
  cases m with
  | key k => exact absurd rfl (hm k)
  | decoded decoder => rfl
  | delivery event => exact e.armed_onEvent event
  | resize columns => exact Engine.armed_paint _
  | refresh => exact e.armed_refresh
  | collect => rfl

/-- The last key was an interrupt with nothing to give up, and went on. -/
def Asked (first : Engine) (s : σ) (ms : List Moment) : Prop :=
  ∃ before k, LastKey ms before k ∧
    let (e, s') := passAll handler first s before
    e.Interrupts k ∧ (e.key handler k s').1 = .goOn

theorem asked_concat_key {first : Engine} {s : σ} {ms : List Moment} {k : Key} :
    Asked handler first s (ms ++ [.key k]) ↔
      let (e, s') := passAll handler first s ms
      e.Interrupts k ∧ (e.key handler k s').1 = .goOn := by
  simp [Asked, lastKey_concat_key, and_assoc]

theorem asked_concat {first : Engine} {s : σ} {ms : List Moment} {m : Moment} (hm : ∀ k, m ≠ .key k) :
    Asked handler first s (ms ++ [m]) ↔ Asked handler first s ms := by
  simp only [Asked, lastKey_concat hm]

/-- A second interrupt is awaited exactly if one has asked for it, and never in a search. -/
theorem armed_passAll (first : Engine) (s : σ) (harmed : first.armed = false) (ms : List Moment) :
    ((passAll handler first s ms).1.armed = true ↔ Asked handler first s ms) ∧
      ((passAll handler first s ms).1.Searches → (passAll handler first s ms).1.armed = false) := by
  -- From the last moment back: if it is a key it is the last one, and else the last key is that of the others.
  induction ms using List.reverseRecOn with
  | nil =>
      have hnone : ¬ Asked handler first s [] := by
        rintro ⟨before, k, ⟨between, hsplit, -⟩, -⟩
        simp at hsplit
      exact ⟨iff_of_false (by simp [passAll, harmed]) hnone, fun _ => harmed⟩
  | append_singleton ms m ih =>
      obtain ⟨hasked, hsearch⟩ := ih
      rw [passAll_concat]
      by_cases hkey : ∃ k, m = .key k
      · obtain ⟨k, rfl⟩ := hkey
        rw [asked_concat_key]
        obtain ⟨-, hasks⟩ := Engine.key_guards handler hsearch k (passAll handler first s ms).2
        refine ⟨hasks, fun hsearches => Bool.eq_false_iff.mpr fun hafter => ?_⟩
        exact Engine.not_searches_iff.mpr ((hasks.mp hafter).1.mode_key handler _) hsearches
      · have hother : ∀ k, m ≠ .key k := fun k hk => hkey ⟨k, hk⟩
        rw [asked_concat handler hother, armed_pass handler hother]
        refine ⟨hasked, fun hsearches => hsearch ?_⟩
        obtain ⟨search, hsearching⟩ := hsearches
        exact ⟨search, (Engine.mode_pass handler hother).symm.trans hsearching⟩

/-- In every run, which is moments in turn: a key leaves by an interrupt exactly if it is the key for that and finds no
statement to give up, and so was the key handled last before it, which went on. -/
theorem interrupts_leave (settings : Settings) (highlighter : String → String) (capacity : Nat)
    (backing : Option Backing) (columns : Nat) (handler : LineHandler σ) (s : σ) :
    let first := Engine.new settings highlighter { history := { capacity }, backing } columns
    (∀ os, passAll handler first s (ofOccasions handler first s os) = Occasion.applyAll handler first s os) ∧
      ∀ ms k,
        let (e, s') := passAll handler first s ms
        (e.key handler k s').1 = .exit .interrupted ↔
          e.Interrupts k ∧ ∃ before k', LastKey ms before k' ∧
            let (e', s'') := passAll handler first s before
            e'.Interrupts k' ∧ (e'.key handler k' s'').1 = .goOn := by
  intro first
  refine ⟨passAll_ofOccasions handler first s, fun ms k => ?_⟩
  obtain ⟨hasked, hsearch⟩ := armed_passAll handler first s rfl ms
  obtain ⟨hleaves, -⟩ := Engine.key_guards handler hsearch k (passAll handler first s ms).2
  exact hleaves.trans (and_congr_right fun _ => hasked)

end Moment

end ScriptRepl.Console
