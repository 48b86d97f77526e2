import ScriptRepl.Proofs.Console.Belonging
import ScriptRepl.Proofs.Console.Chronicle

/-! Where the lines that are submitted go. Of all keys only the one that submits and the one that interrupts touch the
ledger, and what comes from the background only brings older entries. So the ledger is at any time what the chronicle
makes of it. -/
namespace ScriptRepl.Console

/-! ### What the engine keeps -/

namespace Buffer

theorem committed_edit (b : Buffer) (before after : List Char) : (b.edit before after).2.committed = b.committed := by
  unfold edit
  split <;> rfl

theorem committed_move (b : Buffer) (delta : Int) : (b.move delta).2.committed = b.committed := by
  unfold move
  dsimp only
  split
  · exact b.committed_edit _ _
  · exact b.committed_edit _ _

theorem committed_accept (b : Buffer) : b.accept.2.committed = b.committed := by
  unfold accept
  split
  · split
    · exact committed_edit (b.setSuffix none) _ _
    · rfl
  · rfl

theorem statement_toEnd (b : Buffer) : b.toEnd.2.statement = b.statement := by
  unfold toEnd edit
  split
  · rfl
  · change b.committed ++ String.ofList (b.before ++ b.after ++ []) = b.committed ++ b.text
    rw [List.append_nil, sides_append, String.ofList_toList]

end Buffer

namespace History

theorem endRecall_append (h : History) (line : String) : (h.append line).endRecall = h.endRecall.append line := by
  unfold append
  dsimp only
  split <;> rfl

theorem endRecall_previous (h : History) : h.previous.2.endRecall = h.endRecall := by
  unfold previous
  split <;> rfl

theorem endRecall_next (h : History) : h.next.2.endRecall = h.endRecall := by
  unfold next
  split <;> rfl

end History

namespace Engine

def ledger (e : Engine) : Ledger where
  committed := e.buffer.committed
  history := e.history.history.endRecall

theorem ledger_eq {e e' : Engine} (hbuffer : e'.buffer.committed = e.buffer.committed)
    (hhistory : e'.history = e.history) : e'.ledger = e.ledger := by
  unfold ledger
  rw [hbuffer, hhistory]

@[simp] theorem paint_history (e : Engine) : e.paint.history = e.history := by
  unfold paint
  split <;> rfl

theorem ledger_paint (e : Engine) : e.paint.ledger = e.ledger :=
  ledger_eq (congrArg Buffer.committed e.paint_buffer) e.paint_history

theorem ledger_requestPreview (e : Engine) : e.requestPreview.ledger = e.ledger := by
  unfold requestPreview
  split <;> rfl

theorem ledger_refresh (e : Engine) : e.refresh.ledger = e.ledger := by
  rw [← e.ledger_paint]
  unfold refresh schedule
  split
  · rfl
  · dsimp only
    split
    · rfl
    · split
      · rfl
      · exact ledger_requestPreview _

/-! ### Deliveries -/

theorem ledger_showSuffix (e : Engine) (suffix : Suffix) : (e.showSuffix suffix).ledger = e.ledger :=
  ledger_paint _

theorem ledger_showListing (e : Engine) (listing : String) : (e.showListing listing).ledger = e.ledger := by
  refine (ledger_paint _).trans ?_
  exact ledger_eq rfl (paint_history _)

theorem ledger_onPartly (e : Engine) (generation : Nat) (result : Option Assist.Completion) :
    (e.onPartly generation result).ledger = e.ledger := by
  unfold onPartly
  dsimp only
  split
  · exact ledger_showSuffix _ _
  · exact ledger_requestPreview _

theorem ledger_onFull (e : Engine) (result : Option Assist.Completion) : (e.onFull result).ledger = e.ledger := by
  unfold onFull
  dsimp only
  split
  · refine (ledger_refresh _).trans ?_
    exact ledger_eq (e.buffer.committed_edit _ _) rfl
  · exact ledger_showListing _ _
  · rfl

theorem ledger_onPreview (e : Engine) (text : Option String) : (e.onPreview text).ledger = e.ledger := by
  unfold onPreview
  split
  · split
    · rfl
    · exact ledger_showSuffix _ _
  · rfl

/-- What an event leaves in the chronicle. -/
def eventChronicle : Event → Chronicle
  | .historyLoaded lines => [.delivered lines]
  | .completed .. | .previewed .. => []

theorem leads_onEvent (e : Engine) (event : Event) :
    e.ledger.Leads (eventChronicle event) (e.onEvent event).ledger := by
  cases event with
  | historyLoaded lines =>
      refine .single trivial ?_
      change Ledger.mk _ (HistoryStore.install _ _).history.endRecall = _
      rw [HistoryStore.history_install]
      rfl
  | completed generation mode result =>
      refine .none ?_
      unfold onEvent
      split
      · rfl
      · cases mode with
        | partly => exact ledger_onPartly e generation result
        | full => exact ledger_onFull e result
  | previewed generation text =>
      refine .none ?_
      unfold onEvent
      split
      · rfl
      · exact ledger_onPreview e text

/-! ### Keys -/

/-- A key that hands over no statement and leaves the ledger as it is. -/
structure Quiet (e : Engine) (out : Response × Engine) : Prop where
  response : ∀ statement, out.1 ≠ .evaluate statement
  ledger : out.2.ledger = e.ledger

theorem quiet_goOn {e e' : Engine} (h : e'.ledger = e.ledger) : e.Quiet (.goOn, e') :=
  ⟨by simp, h⟩

theorem quiet_edit {e : Engine} {b : Buffer} (h : b.committed = e.buffer.committed) :
    e.Quiet (.goOn, e.withBuffer b) :=
  quiet_goOn (ledger_eq h rfl)

theorem quiet_recallLine (e : Engine) {step : History → Option String × History}
    (h : ∀ history, (step history).2.endRecall = history.endRecall) : e.Quiet (.goOn, e.recallLine step) := by
  have hwalked : e.ledger = ⟨e.buffer.committed, (step e.history.history).2.endRecall⟩ := by
    rw [h]
    rfl
  refine quiet_goOn ?_
  rw [hwalked]
  unfold recallLine
  dsimp only
  split <;> rfl

theorem quiet_act (e : Engine) {action : Action} (hsubmit : action ≠ .submit) (hinterrupt : action ≠ .interrupt) :
    e.Quiet (e.act action) := by
  cases action with
  | insert text =>
      have hedited : (e.withBuffer (e.buffer.insert text)).ledger = e.ledger :=
        ledger_eq (e.buffer.committed_edit _ _) rfl
      exact quiet_goOn hedited
  | left => exact quiet_edit (e.buffer.committed_move _)
  | right => exact quiet_edit (e.buffer.committed_move _)
  | wordLeft => exact quiet_edit (e.buffer.committed_edit _ _)
  | wordRight => exact quiet_edit (e.buffer.committed_edit _ _)
  | toStart => exact quiet_edit (e.buffer.committed_edit _ _)
  | toEnd => exact quiet_edit (e.buffer.committed_edit _ _)
  | deleteBackward => exact quiet_edit (e.buffer.committed_edit _ _)
  | deleteForward => exact quiet_edit (e.buffer.committed_edit _ _)
  | deleteWordBackward => exact quiet_edit (e.buffer.committed_edit _ _)
  | deleteToEnd => exact quiet_edit (e.buffer.committed_edit _ _)
  | deleteToStart => exact quiet_edit (e.buffer.committed_edit _ _)
  | older => exact e.quiet_recallLine History.endRecall_previous
  | newer => exact e.quiet_recallLine History.endRecall_next
  | search => exact quiet_goOn rfl
  | accept => exact quiet_edit e.buffer.committed_accept
  | complete =>
      refine quiet_goOn ?_
      split <;> rfl
  | nextCandidate => exact quiet_goOn rfl
  | previousCandidate => exact quiet_goOn rfl
  | dismiss => exact quiet_edit rfl
  | submit => exact absurd rfl hsubmit
  | clearScreen => exact quiet_goOn rfl
  | interrupt => exact absurd rfl hinterrupt
  | endOfInput => exact ⟨by simp [act], rfl⟩
  | unsupported => exact quiet_goOn rfl

theorem quiet_pressSearch (e : Engine) (s : Search) (k : Key) : e.Quiet (e.pressSearch s k) := by
  unfold pressSearch
  dsimp only
  split
  · exact quiet_goOn rfl
  · exact quiet_goOn rfl
  · exact quiet_goOn rfl
  · exact quiet_goOn rfl
  · exact ⟨by simp, rfl⟩
  · exact quiet_goOn rfl

/-- What a key does to the line. A search takes all keys for itself. -/
def action? (e : Engine) (k : Key) : Option Action :=
  match e.mode with
  | .normal => some (k.action e.context)
  | .search _ => none

theorem quiet_press (e : Engine) {k : Key} (hsubmit : e.action? k ≠ some .submit)
    (hinterrupt : e.action? k ≠ some .interrupt) : e.Quiet (e.press k) := by
  unfold press
  unfold action? at hsubmit hinterrupt
  split
  · rename_i hmode
    rw [hmode] at hsubmit hinterrupt
    have hother : k.action e.context ≠ .interrupt := fun h => hinterrupt (congrArg some h)
    unfold pressNormal
    dsimp only
    rw [if_neg hother]
    have hact : ({ e with armed := false } : Engine).Quiet _ :=
      quiet_act _ (fun h => hsubmit (congrArg some h)) hother
    exact ⟨hact.response, hact.ledger⟩
  · exact e.quiet_pressSearch _ k

theorem press_submit {e : Engine} {k : Key} (h : e.action? k = some .submit) :
    e.press k = { e with armed := false }.submit := by
  unfold action? at h
  split at h
  · rename_i hmode
    have haction : k.action e.context = .submit := by simpa using h
    simp [press, hmode, pressNormal, haction, act]
  · cases h

theorem press_interrupt {e : Engine} {k : Key} (h : e.action? k = some .interrupt) : e.press k = e.interrupt := by
  unfold action? at h
  split at h
  · rename_i hmode
    have haction : k.action e.context = .interrupt := by simpa using h
    simp [press, hmode, pressNormal, haction, act]
  · cases h

/-! ### Submitting and interrupting -/

/-- The line has been left when its statement is handed over, and nothing has come of it yet. -/
theorem submit_spec (e : Engine) :
    ∃ left : Engine, left.ledger = e.ledger ∧ left.buffer.statement = e.buffer.statement ∧
      e.submit = if Text.isBlankText e.buffer.statement then (.goOn, left.resetLine)
        else (.evaluate e.buffer.statement, left) := by
  refine ⟨(e.withBuffer (e.buffer.setSuffix none).toEnd.2).paint.draw Screen.newline, ?_, ?_, rfl⟩
  · refine (ledger_paint _).trans ?_
    exact ledger_eq ((e.buffer.setSuffix none).committed_edit _ _) rfl
  · change (Engine.paint _).buffer.statement = _
    rw [paint_buffer]
    exact (e.buffer.setSuffix none).statement_toEnd

theorem ledger_onOutcome (e : Engine) {line statement : String} (hline : e.buffer.statement = e.buffer.committed ++ line)
    (outcome : LineOutcome) :
    (e.onOutcome statement outcome).ledger = e.ledger.after (.submitted line (some (statement, outcome))) := by
  cases outcome with
  | needsAnotherLine =>
      change Ledger.mk (e.buffer.statement ++ "\n") _ = _
      rw [hline]
      rfl
  | output text =>
      have hcommitted : (e.onOutcome statement (.output text)).buffer.committed = "" := by
        unfold onOutcome
        dsimp only
        split <;> rfl
      have hhistory : (e.onOutcome statement (.output text)).history = e.history.append statement := by
        unfold onOutcome
        dsimp only
        split <;> rfl
      unfold ledger Ledger.after
      dsimp only
      rw [hcommitted, hhistory, HistoryStore.history_append, History.endRecall_append]

/-- If there is no statement, nothing is above the line either. -/
theorem ledger_interrupt (e : Engine) : e.interrupt.2.ledger = e.ledger.after .interrupted := by
  unfold interrupt
  split
  · rfl
  · rename_i hstatement
    have hempty : e.buffer.committed ++ e.buffer.text = "" := by simpa [Buffer.statement] using hstatement
    have hkept : e.ledger = e.ledger.after .interrupted := by
      unfold ledger Ledger.after
      dsimp only
      rw [(String.append_eq_empty_iff.mp hempty).1]
    split
    · exact hkept
    · exact hkept

theorem interrupt_response (e : Engine) (statement : String) : e.interrupt.1 ≠ .evaluate statement := by
  unfold interrupt
  split
  · simp
  · split
    · simp
    · simp

/-! ### What is lived through -/

variable (handler : LineHandler σ)

/-- The call of the handler that a key leads to. -/
def call? (e : Engine) (k : Key) (s : σ) : Option (String × LineOutcome) :=
  match (e.press k).1 with
  | .evaluate statement => some (statement, (handler statement s).1)
  | .goOn | .exit _ => none

def keyChronicle (e : Engine) (k : Key) (s : σ) : Chronicle :=
  match e.action? k with
  | some .submit => [.submitted e.buffer.text (e.call? handler k s)]
  | some .interrupt => [.interrupted]
  | _ => []

def keysChronicle (e : Engine) : List Key → σ → Chronicle
  | [], _ => []
  | k :: ks, s =>
    e.keyChronicle handler k s ++
      match e.key handler k s with
      | (.goOn, e, s) => e.keysChronicle ks s
      | (.exit _, _, _) => []

theorem key_of_goOn {e e' : Engine} {k : Key} (h : e.press k = (.goOn, e')) (s : σ) :
    e.key handler k s = (.goOn, e', s) := by
  unfold key
  rw [h]

theorem key_of_evaluate {e e' : Engine} {k : Key} {statement : String} (h : e.press k = (.evaluate statement, e'))
    (s : σ) :
    e.key handler k s =
      (.goOn, e'.onOutcome statement (handler statement s).1, (handler statement s).2) := by
  unfold key
  rw [h]
  rfl

/-- A key that hands over no statement is done when it has been pressed. -/
theorem key_of_not_evaluate {e : Engine} {k : Key} (h : ∀ statement, (e.press k).1 ≠ .evaluate statement) (s : σ) :
    (e.key handler k s).2 = ((e.press k).2, s) := by
  unfold key
  split
  · rename_i heq
    rw [heq]
  · rename_i heq
    rw [heq]
  · rename_i statement _ heq
    exact absurd (congrArg Prod.fst heq) (h statement)

/-! ### What keys preserve -/

section

variable {p : Engine → Prop}

theorem key_keeps {e : Engine} {k : Key} (hpress : p (e.press k).2)
    (houtcome : ∀ statement e', e.press k = (.evaluate statement, e') → ∀ outcome, p (e'.onOutcome statement outcome))
    (s : σ) : p (e.key handler k s).2.1 := by
  rcases hpressed : e.press k with ⟨response, e'⟩
  rw [hpressed] at hpress
  cases response with
  | goOn =>
      rw [key_of_goOn handler hpressed]
      exact hpress
  | exit reason =>
      rw [key_of_not_evaluate handler (by simp [hpressed]), hpressed]
      exact hpress
  | evaluate statement =>
      rw [key_of_evaluate handler hpressed]
      exact houtcome statement e' hpressed _

/-- What each key keeps is kept by all of them. -/
theorem keys_keep {ks : List Key} (hkey : ∀ e, p e → ∀ k ∈ ks, ∀ s, p (e.key handler k s).2.1) {e : Engine} (h : p e)
    (s : σ) : p (e.keys handler ks s).2.1 := by
  induction ks generalizing e s with
  | nil => exact h
  | cons k ks ih =>
      have hfirst := hkey e h k (List.mem_cons_self ..) s
      have hrest : ∀ e, p e → ∀ l ∈ ks, ∀ s, p (e.key handler l s).2.1 :=
        fun e he l hl => hkey e he l (List.mem_cons_of_mem k hl)
      rw [keys]
      rcases hpressed : e.key handler k s with ⟨flow, e', s'⟩
      rw [hpressed] at hfirst
      cases flow with
      | goOn => exact ih hrest hfirst s'
      | exit reason => exact hfirst

theorem keysThenRefresh_keeps (hrefresh : ∀ e, p e → p e.refresh) {e : Engine} {ks : List Key} {s : σ}
    (h : p (e.keys handler ks s).2.1) : p (e.keysThenRefresh handler ks s).2.1 := by
  rw [keysThenRefresh]
  rcases hpressed : e.keys handler ks s with ⟨flow, e', s'⟩
  rw [hpressed] at h
  cases flow with
  | goOn => exact hrefresh e' h
  | exit reason => exact h

end

/-! ### What the chronicle says -/

theorem leads_submit (e : Engine) {k : Key} (hsubmit : e.action? k = some .submit) (s : σ) :
    e.ledger.Leads [.submitted e.buffer.text (e.call? handler k s)] (e.key handler k s).2.1.ledger := by
  obtain ⟨left, hledger, hstatement, hpress⟩ := submit_spec { e with armed := false }
  rw [← press_submit hsubmit] at hpress
  change left.ledger = e.ledger at hledger
  change left.buffer.statement = e.buffer.statement at hstatement
  change e.press k = if Text.isBlankText e.buffer.statement then _ else _ at hpress
  by_cases hblank : Text.isBlankText e.buffer.statement = true
  · rw [if_pos hblank] at hpress
    have hcall : e.call? handler k s = none := by
      unfold call?
      rw [hpress]
    rw [hcall, key_of_goOn handler hpress s]
    refine .single (if_pos hblank).symm ?_
    rw [← hledger]
    rfl
  · rw [if_neg hblank] at hpress
    have hcall : e.call? handler k s = some (e.buffer.statement, (handler e.buffer.statement s).1) := by
      unfold call?
      rw [hpress]
    have hleft : left.buffer.statement = left.buffer.committed ++ e.buffer.text := by
      rw [hstatement, show left.buffer.committed = e.buffer.committed from congrArg Ledger.committed hledger]
      rfl
    rw [hcall, key_of_evaluate handler hpress s]
    refine .single (if_neg hblank).symm ?_
    rw [ledger_onOutcome left hleft, hledger]

theorem leads_key (e : Engine) (k : Key) (s : σ) :
    e.ledger.Leads (e.keyChronicle handler k s) (e.key handler k s).2.1.ledger := by
  unfold keyChronicle
  split
  · rename_i hsubmit
    exact e.leads_submit handler hsubmit s
  · rename_i hinterrupt
    have hpress := press_interrupt hinterrupt
    refine .single trivial ?_
    rw [key_of_not_evaluate handler (by rw [hpress]; exact e.interrupt_response) s, hpress, ledger_interrupt]
  · rename_i hsubmit hinterrupt
    have hquiet := e.quiet_press (k := k) (fun h => hsubmit h) (fun h => hinterrupt h)
    rw [key_of_not_evaluate handler hquiet.response s]
    exact .none hquiet.ledger

theorem leads_keys (e : Engine) (ks : List Key) (s : σ) :
    e.ledger.Leads (e.keysChronicle handler ks s) (e.keys handler ks s).2.1.ledger := by
  induction ks generalizing e s with
  | nil => exact .nil _
  | cons k ks ih =>
      have hfirst := e.leads_key handler k s
      rw [keysChronicle, keys]
      rcases hkey : e.key handler k s with ⟨flow, e', s'⟩
      rw [hkey] at hfirst
      cases flow with
      | goOn => exact hfirst.append (ih e' s')
      | exit reason => simpa using hfirst

theorem leads_keysThenRefresh (e : Engine) (ks : List Key) (s : σ) :
    e.ledger.Leads (e.keysChronicle handler ks s) (e.keysThenRefresh handler ks s).2.1.ledger := by
  have hkeys := e.leads_keys handler ks s
  unfold keysThenRefresh
  split
  · rename_i heq
    rw [heq] at hkeys
    dsimp only
    rw [ledger_refresh]
    exact hkeys
  · exact hkeys

end Engine

/-- What can happen to an engine, in any order. -/
inductive Occasion where
  | chunk (bytes : List UInt8)
  /-- No byte has followed the beginning of an escape sequence for a while. -/
  | flush
  | delivery (event : Event)
  | resize (columns : Nat)
  /-- The line is painted, as it is before there is any input. -/
  | refresh
  /-- What the engine has written and asked for is taken. -/
  | collect

namespace Occasion

variable (handler : LineHandler σ)

def apply (e : Engine) (s : σ) : Occasion → Engine × σ
  | chunk bytes => (e.feed handler bytes s).2
  | flush => (e.flushEscape handler s).2
  | delivery event => (e.onEvent event, s)
  | resize columns => ((e.setColumns columns).paint, s)
  | refresh => (e.refresh, s)
  | collect => (e.takeOutput.2.takeJobs.2, s)

def applyAll (e : Engine) (s : σ) : List Occasion → Engine × σ
  | [] => (e, s)
  | o :: os =>
    let (e, s) := o.apply handler e s
    applyAll e s os

theorem applyAll_append (e : Engine) (s : σ) (os os' : List Occasion) :
    applyAll handler e s (os ++ os') =
      applyAll handler (applyAll handler e s os).1 (applyAll handler e s os).2 os' := by
  induction os generalizing e s with
  | nil => rfl
  | cons o os ih => exact ih _ _

def chronicle (e : Engine) (s : σ) : Occasion → Chronicle
  | chunk bytes =>
    let (ks, decoder) := e.decoder.feed bytes
    { e with decoder }.keysChronicle handler ks s
  | flush =>
    let (ks, decoder) := e.decoder.flush
    { e with decoder }.keysChronicle handler ks s
  | delivery event => Engine.eventChronicle event
  | resize _ | refresh | collect => []

def chronicleAll (e : Engine) (s : σ) : List Occasion → Chronicle
  | [] => []
  | o :: os =>
    o.chronicle handler e s ++
      let (e, s) := o.apply handler e s
      chronicleAll e s os

theorem leads (e : Engine) (s : σ) (o : Occasion) :
    e.ledger.Leads (o.chronicle handler e s) (o.apply handler e s).1.ledger := by
  cases o with
  | chunk bytes =>
      exact Engine.leads_keysThenRefresh handler { e with decoder := (e.decoder.feed bytes).2 }
        (e.decoder.feed bytes).1 s
  | flush =>
      exact Engine.leads_keysThenRefresh handler { e with decoder := e.decoder.flush.2 } e.decoder.flush.1 s
  | delivery event => exact e.leads_onEvent event
  | resize columns => exact .none (e.setColumns columns).ledger_paint
  | refresh => exact .none e.ledger_refresh
  | collect => exact .none rfl

theorem leads_all (e : Engine) (s : σ) (os : List Occasion) :
    e.ledger.Leads (chronicleAll handler e s os) (applyAll handler e s os).1.ledger := by
  induction os generalizing e s with
  | nil => exact .nil _
  | cons o os ih => exact (leads handler e s o).append (ih _ _)

end Occasion

/-! ### The calls of the handler -/

/-- A handler that also writes down its calls. -/
def recording (handler : LineHandler σ) : LineHandler (σ × List (String × LineOutcome)) :=
  fun statement (s, calls) =>
    let (outcome, s) := handler statement s
    (outcome, s, calls ++ [(statement, outcome)])

namespace Engine

variable (handler : LineHandler σ)

theorem call?_of_quiet {e : Engine} {k : Key} (h : ∀ statement, (e.press k).1 ≠ .evaluate statement) (s : σ) :
    e.call? handler k s = none := by
  unfold call?
  split
  · rename_i heq
    exact absurd heq (h _)
  · rfl
  · rfl

/-- No call is missing in the chronicle. -/
theorem calls_keyChronicle (e : Engine) (k : Key) (s : σ) :
    (e.keyChronicle handler k s).calls = (e.call? handler k s).toList := by
  unfold keyChronicle
  split
  · cases e.call? handler k s <;> rfl
  · rename_i hinterrupt
    rw [call?_of_quiet handler (by rw [press_interrupt hinterrupt]; exact e.interrupt_response) s]
    rfl
  · rename_i hsubmit hinterrupt
    rw [call?_of_quiet handler (e.quiet_press (fun h => hsubmit h) (fun h => hinterrupt h)).response s]
    rfl

theorem key_recording (e : Engine) (k : Key) (s : σ) (calls : List (String × LineOutcome)) :
    e.key (recording handler) k (s, calls) =
      let (flow, e', s') := e.key handler k s
      (flow, e', s', calls ++ (e.keyChronicle handler k s).calls) := by
  rw [calls_keyChronicle]
  unfold key call?
  split
  · rename_i heq
    simp [heq]
  · rename_i heq
    simp [heq]
  · rename_i heq
    simp only [heq]
    rfl

theorem keys_recording (e : Engine) (ks : List Key) (s : σ) (calls : List (String × LineOutcome)) :
    e.keys (recording handler) ks (s, calls) =
      let (flow, e', s') := e.keys handler ks s
      (flow, e', s', calls ++ (e.keysChronicle handler ks s).calls) := by
  induction ks generalizing e s calls with
  | nil => simp [keys, keysChronicle, Chronicle.calls]
  | cons k ks ih =>
      rw [keys, keys, keysChronicle, key_recording]
      rcases e.key handler k s with ⟨flow, e', s'⟩
      cases flow with
      | goOn =>
          dsimp only
          rw [ih, Chronicle.calls_append, List.append_assoc]
      | exit reason => simp

theorem keysThenRefresh_recording (e : Engine) (ks : List Key) (s : σ) (calls : List (String × LineOutcome)) :
    e.keysThenRefresh (recording handler) ks (s, calls) =
      let (flow, e', s') := e.keysThenRefresh handler ks s
      (flow, e', s', calls ++ (e.keysChronicle handler ks s).calls) := by
  rw [keysThenRefresh, keysThenRefresh, keys_recording]
  rcases e.keys handler ks s with ⟨flow, e', s'⟩
  cases flow <;> rfl

end Engine

namespace Occasion

variable (handler : LineHandler σ)

theorem apply_recording (e : Engine) (s : σ) (calls : List (String × LineOutcome)) (o : Occasion) :
    o.apply (recording handler) e (s, calls) =
      let (e', s') := o.apply handler e s
      (e', s', calls ++ (o.chronicle handler e s).calls) := by
  cases o with
  | chunk bytes =>
      change (Engine.keysThenRefresh _ _ _ _).2 = _
      rw [Engine.keysThenRefresh_recording]
      rfl
  | flush =>
      change (Engine.keysThenRefresh _ _ _ _).2 = _
      rw [Engine.keysThenRefresh_recording]
      rfl
  | delivery event => cases event <;> simp [apply, chronicle, Engine.eventChronicle, Chronicle.calls, Deed.call?]
  | resize columns => simp [apply, chronicle, Chronicle.calls]
  | refresh => simp [apply, chronicle, Chronicle.calls]
  | collect => simp [apply, chronicle, Chronicle.calls]

theorem applyAll_recording (e : Engine) (s : σ) (calls : List (String × LineOutcome)) (os : List Occasion) :
    applyAll (recording handler) e (s, calls) os =
      let (e', s') := applyAll handler e s os
      (e', s', calls ++ (chronicleAll handler e s os).calls) := by
  induction os generalizing e s calls with
  | nil => simp [applyAll, chronicleAll, Chronicle.calls]
  | cons o os ih =>
      rw [applyAll, applyAll, chronicleAll, apply_recording]
      dsimp only
      rw [ih, Chronicle.calls_append, List.append_assoc]

/-- Whatever happens, each statement reaches the handler once and as it was submitted, and the history holds the newest
of the completed ones and behind them what was delivered. -/
theorem statements_kept (settings : Settings) (highlighter : String → String) (capacity : Nat)
    (backing : Option Backing) (columns : Nat) (handler : LineHandler σ) (s : σ) (os : List Occasion) :
    let e := Engine.new settings highlighter { history := { capacity }, backing } columns
    let c := chronicleAll handler e s os
    let (e', s') := applyAll handler e s os
    applyAll (recording handler) e (s, []) os = (e', s', c.calls) ∧ c.Faithful ∧
      e'.history.history.entries = c.entries.take capacity := by
  intro e c
  have hleads : e.ledger.Leads c (applyAll handler e s os).1.ledger := leads_all handler e s os
  have hempty : e.ledger.Sums capacity [] := ⟨rfl, rfl, (List.take_nil ..).symm⟩
  have hsums := hleads.sums hempty
  refine ⟨?_, hleads.faithful hempty, ?_⟩
  · rw [applyAll_recording]
    rfl
  · have hentries := hsums.history
    unfold History.Holds at hentries
    rw [hsums.capacity] at hentries
    exact hentries

end Occasion

end ScriptRepl.Console
