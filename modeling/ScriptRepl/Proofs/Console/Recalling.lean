import ScriptRepl.Proofs.Console.Accepting

/-! The walk through the history and text that comes into the line. Typing ends the walk, so that the next one begins
at the newest entry. Text that was offered behind the line or as the only candidate leaves the walk where it is. -/
namespace ScriptRepl.Console

namespace History

/-- The number of the entry that a step back in the walk comes to. -/
def olderNumber (h : History) : Nat :=
  h.reached.elim 0 fun n => min (n + 1) (h.entries.length - 1)

theorem previous_fst (h : History) : h.previous.1 = h.entries[h.olderNumber]? := by
  unfold previous
  split
  · rename_i hempty
    rw [List.isEmpty_iff.mp hempty]
    rfl
  · unfold olderNumber
    cases h.reached <;> rfl

/-- There is no way from no walk to a newer entry. -/
theorem next_of_reached_none {h : History} (hreached : h.reached = none) : h.next = (none, h) := by
  unfold next
  rw [hreached]

end History

namespace Buffer

theorem text_edit (b : Buffer) (before after : List Char) :
    (b.edit before after).2.text = String.ofList (before ++ after) := by
  have hsides := (b.edit before after).2.sides_append
  unfold Buffer.before Buffer.after at hsides
  rw [sides_edit] at hsides
  rw [hsides, String.ofList_toList]

theorem text_insert (b : Buffer) (s : String) :
    (b.insert s).text = String.ofList (b.before ++ s.toList ++ b.after) :=
  b.text_edit _ _

theorem accept_of_atEnd {b : Buffer} {text : String} (hcompletion : b.completion? = some text) (hend : b.atEnd = true) :
    b.accept.2 = (b.setSuffix none).insert text := by
  unfold accept
  rw [hcompletion]
  dsimp only
  rw [if_pos hend]
  rfl

end Buffer

/-- The key that accepts has this meaning only where there is something to accept. -/
theorem Key.context_of_accept {k : Key} {context : KeyContext} (h : k.action context = .accept) :
    context.hasCompletion = true ∧ context.atEnd = true := by
  unfold action controlAction altAction at h
  dsimp only at h
  repeat' split at h
  all_goals cases h
  all_goals
    rename_i hboth
    exact Bool.and_eq_true_iff.mp hboth

namespace Engine

variable (handler : LineHandler σ)

/-- The text is typed. -/
def Types (e : Engine) (m : Moment) (text : String) : Prop :=
  ∃ k, m = .key k ∧ e.action? k = some (.insert text)

/-- The text was offered, behind the line or as the only candidate, and is taken into the line. -/
inductive Takes (e : Engine) : Moment → String → Prop where
  | accepted {k : Key} {text : String} (haction : e.action? k = some .accept)
      (htext : e.buffer.completion? = some text) : e.Takes (.key k) text
  | candidate {generation : Nat} {text : String}
      (hcurrent : e.isCurrent (.completed generation .full (some (.candidates [text]))) = true) :
      e.Takes (.delivery (.completed generation .full (some (.candidates [text])))) text

/-- A walk through the history is on. -/
def Walks (e : Engine) : Prop :=
  e.history.history.reached ≠ none

/-! ### Text that comes into the line -/

theorem Types.pass_eq {e : Engine} {m : Moment} {text : String} (h : e.Types m text) (s : σ) :
    m.pass handler e s =
      ((({ e with armed := false } : Engine).withBuffer (e.buffer.insert text)).endRecall, s) := by
  obtain ⟨k, rfl, haction⟩ := h
  exact congrArg Prod.snd (key_of_goOn handler (press_of_action? haction (by simp)) s)

theorem Takes.history {e : Engine} {m : Moment} {text : String} (h : e.Takes m text) (s : σ) :
    (m.pass handler e s).1.history = e.history := by
  cases h with
  | @accepted k _ haction htext =>
      have hkey := key_of_goOn handler (press_of_action? haction (by simp)) s
      exact congrArg (fun out : Flow × Engine × σ => out.2.1.history) hkey
  | @candidate generation _ hcurrent =>
      have hstays : e.Stays (e.onEvent (.completed generation .full (some (.candidates [text])))) :=
        e.stays_onEvent nofun
      exact hstays.history

theorem Takes.text {e : Engine} {m : Moment} {text : String} (h : e.Takes m text) (s : σ) :
    (m.pass handler e s).1.buffer.text = String.ofList (e.buffer.before ++ text.toList ++ e.buffer.after) := by
  cases h with
  | @accepted k _ haction htext =>
      have hkey := key_of_goOn handler (press_of_action? haction (by simp)) s
      have hend : e.buffer.atEnd = true := (Key.context_of_accept (pressNormal_of_action? haction).2.1).2
      have hbuffer : (Moment.pass handler e s (.key k)).1.buffer = e.buffer.accept.2 :=
        congrArg (fun out : Flow × Engine × σ => out.2.1.buffer) hkey
      rw [hbuffer, Buffer.accept_of_atEnd htext hend, Buffer.text_insert]
      rfl
  | @candidate generation _ hcurrent =>
      change (e.onEvent _).buffer.text = _
      unfold onEvent
      rw [hcurrent]
      change (Engine.refresh _).buffer.text = _
      rw [refresh, schedule_buffer, paint_buffer]
      exact e.buffer.text_insert text

theorem reached_recallLine (e : Engine) (step : History → Option String × History) :
    (e.recallLine step).history.history.reached = (step e.history.history).2.reached := by
  unfold recallLine
  dsimp only
  split <;> rfl

/-- The key for the older entry puts it into the line. -/
theorem older_recalls {e : Engine} {k : Key} (h : e.action? k = some .older) (s : σ) :
    (e.key handler k s).2.1.buffer.text =
      (e.history.history.entries[e.history.history.olderNumber]?).getD e.buffer.text := by
  have hkey := key_of_goOn handler (press_of_action? h (by simp)) s
  have hbuffer : (e.key handler k s).2.1.buffer =
      (({ e with armed := false } : Engine).recallLine History.previous).buffer :=
    congrArg (fun out : Flow × Engine × σ => out.2.1.buffer) hkey
  rw [hbuffer, ← History.previous_fst]
  unfold recallLine HistoryStore.walk
  dsimp only
  cases e.history.history.previous.1 with
  | none => rfl
  | some line =>
      change (e.buffer.replace line line.utf8ByteSize).text = line
      rw [Buffer.replace_toEnd]
      simp [Buffer.place]

theorem older_newest {e : Engine} (hreached : e.history.history.reached = none) {k : Key}
    (h : e.action? k = some .older) (s : σ) :
    (e.key handler k s).2.1.buffer.text = e.history.history.entries.headD e.buffer.text := by
  rw [older_recalls handler h, History.olderNumber, hreached, List.headD_eq_head?_getD, List.head?_eq_getElem?]
  rfl

/-- Where the history is as it was, the walk goes on from there. -/
theorem older_goes_on {e e' : Engine} (hhistory : e'.history = e.history) {k : Key} (h : e'.action? k = some .older)
    (s : σ) :
    (e'.key handler k s).2.1.buffer.text =
      (e.history.history.entries[e.history.history.olderNumber]?).getD e'.buffer.text := by
  rw [older_recalls handler h, hhistory]

/-! ### Walks -/

theorem reached_act {e : Engine} (h : e.history.history.reached = none) {action : Action} (hother : action ≠ .older) :
    (e.act action).2.history.history.reached = none := by
  cases action with
  | older => exact absurd rfl hother
  | newer =>
      change (e.recallLine History.next).history.history.reached = none
      rw [reached_recallLine, History.next_of_reached_none h]
      exact h
  | insert text => rfl
  | complete =>
      unfold act
      dsimp only
      split <;> exact h
  | submit =>
      have hleft : ((e.withBuffer (e.buffer.setSuffix none).toEnd.2).paint.draw Screen.newline).history = e.history :=
        (Stays.paint ⟨rfl, rfl⟩).history
      unfold act submit
      dsimp only
      split
      · exact (congrArg (fun history => history.history.reached) hleft).trans h
      · exact (congrArg (fun history => history.history.reached) hleft).trans h
  | interrupt =>
      unfold act interrupt
      dsimp only
      split
      · rfl
      · split
        · exact h
        · exact h
  | _ => exact h

theorem reached_onOutcome {e : Engine} (h : e.history.history.reached = none) (statement : String)
    (outcome : LineOutcome) : (e.onOutcome statement outcome).history.history.reached = none := by
  cases outcome with
  | needsAnotherLine => exact h
  | output text =>
      have hhistory : (e.onOutcome statement (.output text)).history = e.history.append statement := by
        unfold onOutcome
        dsimp only
        split <;> rfl
      rw [hhistory, HistoryStore.history_append]
      unfold History.append
      dsimp only
      split
      · exact h
      · rfl

theorem reached_press {e : Engine} (h : e.history.history.reached = none) {k : Key}
    (hother : e.action? k ≠ some .older) : (e.press k).2.history.history.reached = none := by
  unfold press
  unfold action? at hother
  cases hmode : e.mode with
  | normal =>
      rw [hmode] at hother
      unfold pressNormal
      dsimp only
      refine reached_act ?_ fun haction => hother (congrArg some haction)
      split
      · exact h
      · exact h
  | search search =>
      dsimp only
      unfold pressSearch
      dsimp only
      split <;> exact h

/-- No key but the one for the older entry begins a walk. -/
theorem begins_walk {e : Engine} {s : σ} {m : Moment} (h : ¬ e.Walks) (hafter : (m.pass handler e s).1.Walks) :
    ∃ k, m = .key k ∧ e.action? k = some .older := by
  have hnone : e.history.history.reached = none := not_not.mp h
  rcases e.pass_cases handler s m with ⟨k, rfl⟩ | ⟨lines, rfl, hloaded⟩ | hstays
  · by_cases haction : e.action? k = some .older
    · exact ⟨k, rfl, haction⟩
    · have hpress := reached_press hnone haction
      refine absurd ?_ hafter
      refine key_keeps handler (p := fun e => e.history.history.reached = none) hpress (fun statement e' heq outcome => ?_) s
      rw [heq] at hpress
      exact reached_onOutcome hpress statement outcome
  · rw [hloaded] at hafter
    unfold Walks at hafter
    rw [HistoryStore.history_install] at hafter
    exact absurd hnone hafter
  · unfold Walks at hafter
    rw [hstays.history] at hafter
    exact absurd hnone hafter

end Engine

namespace Moment

variable {handler : LineHandler σ} {first : Engine} {s : σ}

/-- Nothing has been typed since a walk began that is still on. -/
theorem Began.not_types {before during : List Moment} {m : Moment}
    (h : Began handler Engine.Walks first s before m during) {some more : List Moment} {m' : Moment}
    (hduring : during = some ++ m' :: more) (text : String) :
    ¬ (passAll handler first s (before ++ m :: some)).1.Types m' text := by
  intro htypes
  have hlater : some ++ [m'] <+: during := ⟨more, by simp [hduring]⟩
  have hwalks := h.since _ hlater
  rw [← List.cons_append, ← List.append_assoc, passAll_concat, htypes.pass_eq handler] at hwalks
  exact hwalks rfl

/-- In every state of every run: text that is typed ends the walk through the history, and the next step back comes to
the newest entry. Text that was offered and is taken into the line leaves the walk where it is, and the next step back
goes on from there. A walk that is on was begun by the key for the older entry, and nothing has been typed since. -/
theorem insertions_recall (settings : Settings) (highlighter : String → String) (capacity : Nat)
    (backing : Option Backing) (columns : Nat) (handler : LineHandler σ) (s : σ) (ms : List Moment) :
    let first := Engine.new settings highlighter { history := { capacity }, backing } columns
    let e := (passAll handler first s ms).1
    let s' := (passAll handler first s ms).2
    (∀ m text, e.Types m text →
        let e' := (m.pass handler e s').1
        e'.buffer.text = String.ofList (e.buffer.before ++ text.toList ++ e.buffer.after) ∧
          e'.history.history.reached = none ∧
          ∀ k, e'.action? k = some .older →
            (e'.key handler k (m.pass handler e s').2).2.1.buffer.text = e'.history.history.entries.headD e'.buffer.text) ∧
      (∀ m text, e.Takes m text →
        let e' := (m.pass handler e s').1
        e'.buffer.text = String.ofList (e.buffer.before ++ text.toList ++ e.buffer.after) ∧
          e'.history = e.history ∧
          ∀ k, e'.action? k = some .older →
            (e'.key handler k (m.pass handler e s').2).2.1.buffer.text =
              (e.history.history.entries[e.history.history.olderNumber]?).getD e'.buffer.text) ∧
      (e.Walks → ∃ before begins during, ms = before ++ .key begins :: during ∧
        Began handler Engine.Walks first s before (.key begins) during ∧
        (passAll handler first s before).1.action? begins = some .older ∧
        ∀ some m more, during = some ++ m :: more →
          ∀ text, ¬ (passAll handler first s (before ++ .key begins :: some)).1.Types m text) := by
  intro first e s'
  refine ⟨fun m text htypes => ?_, fun m text htakes => ?_, fun hwalks => ?_⟩
  · rw [htypes.pass_eq handler]
    exact ⟨Buffer.text_insert _ text, rfl, fun k hk => Engine.older_newest handler rfl hk _⟩
  · have hhistory := htakes.history handler (passAll handler first s ms).2
    exact ⟨htakes.text handler _, hhistory, fun k hk => Engine.older_goes_on handler hhistory hk _⟩
  · have hnot : ¬ first.Walks := fun hfirst => hfirst rfl
    obtain ⟨before, m, during, rfl, hbegan⟩ := exists_began hnot hwalks
    have hbegun := hbegan.since [] List.nil_prefix
    rw [passAll_concat] at hbegun
    obtain ⟨begins, rfl, haction⟩ := Engine.begins_walk handler hbegan.not_before hbegun
    exact ⟨before, begins, during, rfl, hbegan, haction, fun some m more => hbegan.not_types⟩

/-- A letter that is typed at the newest entry ends the walk, and the same letter that was offered does not. -/
theorem insertions_recall_letter :
    let handler : LineHandler Unit := fun _ => pure .needsAnotherLine
    let first := Engine.new {} id { history := { capacity := 10 } } 80
    let up : Key := { name := .up, sequence := "\x1b[A" }
    let typed : Moment := .key (.text "c")
    let taken : Moment := .key { name := .right, sequence := "\x1b[C" }
    let ms : List Moment :=
      [.delivery (.historyLoaded ["b", "a"]), .key up, .refresh,
        .delivery (.completed 1 .partly (some (.candidates ["c"])))]
    let e := (passAll handler first () ms).1
    let s := (passAll handler first () ms).2
    (e.Types typed "c" ∧
      let e' := (typed.pass handler e s).1
      e'.buffer.text = "bc" ∧ e'.history.history.reached = none ∧
        e'.action? up = some .older ∧ (e'.key handler up (typed.pass handler e s).2).2.1.buffer.text = "b") ∧
      (e.Takes taken "c" ∧
        let e' := (taken.pass handler e s).1
        e'.buffer.text = "bc" ∧ e'.history = e.history ∧
          e'.action? up = some .older ∧ (e'.key handler up (taken.pass handler e s).2).2.1.buffer.text = "a") ∧
      e.Walks ∧
      ∃ before begins during, ms = before ++ .key begins :: during ∧
        Began handler Engine.Walks first () before (.key begins) during ∧
        (passAll handler first () before).1.action? begins = some .older ∧
        ∀ some m more, during = some ++ m :: more →
          ∀ text, ¬ (passAll handler first () (before ++ .key begins :: some)).1.Types m text := by
  intro handler first up typed taken ms e s
  obtain ⟨htypes, htakes, hwalks⟩ := insertions_recall {} id 10 none 80 handler () ms
  have htyped : e.Types typed "c" := ⟨_, rfl, by decide +kernel⟩
  have htaken : e.Takes taken "c" := .accepted (by decide +kernel) (by decide +kernel)
  have hwalk : e.Walks := by
    unfold Engine.Walks
    decide +kernel
  have hup : (typed.pass handler e s).1.action? up = some .older := by decide +kernel
  have hup' : (taken.pass handler e s).1.action? up = some .older := by decide +kernel
  obtain ⟨htext, hreached, holder⟩ := htypes typed "c" htyped
  obtain ⟨htext', hhistory, holder'⟩ := htakes taken "c" htaken
  have hline : String.ofList (e.buffer.before ++ "c".toList ++ e.buffer.after) = "bc" := by decide +kernel
  have hnewest : (typed.pass handler e s).1.history.history.entries.headD
      (typed.pass handler e s).1.buffer.text = "b" := by decide +kernel
  have hnext : (e.history.history.entries[e.history.history.olderNumber]?).getD
      (taken.pass handler e s).1.buffer.text = "a" := by decide +kernel
  -- With the run named in the same words throughout, nothing has to compute it again.
  dsimp only [e, s, first] at htyped htaken hwalk hup hup' hline hnewest hnext ⊢
  exact ⟨⟨htyped, htext.trans hline, hreached, hup, (holder up hup).trans hnewest⟩,
    ⟨htaken, htext'.trans hline, hhistory, hup', (holder' up hup').trans hnext⟩, hwalk, hwalks hwalk⟩

/-- What was offered behind the newest entry is taken. The walk goes on, and the next step back is not to the newest
entry. -/
theorem taking_keeps_walking :
    let handler : LineHandler Unit := fun _ => pure .needsAnotherLine
    let (walking, s) := Occasion.applyAll handler (.new {} id (.inMemory 10) 80) ()
      [.delivery (.historyLoaded ["b", "a"]), .chunk [0x1b, 0x5b, 0x41],
        .delivery (.completed 1 .partly (some (.candidates ["c"])))]
    let (e, s') := Occasion.applyAll handler walking s [.chunk [0x1b, 0x5b, 0x43]]
    walking.history.history.entries = ["b", "a"] ∧ walking.buffer.text = "b" ∧ e.buffer.text = "bc" ∧
      e.history.history.reached = some 0 ∧ (e.feed handler [0x1b, 0x5b, 0x41] s').2.1.buffer.text = "a" := by
  decide +kernel

end Moment

end ScriptRepl.Console
