import ScriptRepl.Proofs.Console.Bindings
import ScriptRepl.Proofs.Console.Moments
import ScriptRepl.Proofs.Console.Searching
import ScriptRepl.Proofs.Syntax.Tiling

/-! Accepting what a search has found. As long as an engine searches the line is what it was before, and what is shown
is an entry of the history. The key that accepts makes the line what was found, and empty if nothing was. -/
namespace ScriptRepl.Console

theorem History.mem_of_sought {h : History} {query line : String} {skip : Nat} (hsought : h.sought query skip = some line) :
    line ∈ h.entries ∧ query.toList <:+: line.toList := by
  have hquery : query ≠ "" := by
    rintro rfl
    rw [h.sought_empty] at hsought
    cases hsought
  rw [h.sought_of_ne hquery, containing_eq] at hsought
  obtain ⟨hmem, hcontains⟩ := List.mem_filter.mp (List.mem_of_getElem? hsought)
  exact ⟨hmem, of_decide_eq_true hcontains⟩

theorem Buffer.replace_toEnd (b : Buffer) (line : String) :
    b.replace line line.utf8ByteSize = b.place line.toList [] := by
  have hsplit := Text.splitNear_size line.toList []
  rw [List.append_nil, Text.size_toList] at hsplit
  rw [replace, hsplit]

namespace Engine

variable (handler : LineHandler σ)

def Searches (e : Engine) : Prop :=
  ∃ search, e.mode = .search search

theorem not_searches_iff {e : Engine} : ¬ e.Searches ↔ e.mode = .normal := by
  unfold Searches
  cases e.mode with
  | normal => simp
  | search search => simp

/-! ### Moments other than keys -/

/-- Of all moments only keys change the mode, and beside them only entries that are loaded change the history. -/
theorem pass_cases (e : Engine) (s : σ) (m : Moment) :
    (∃ k, m = .key k) ∨
      (∃ lines, m = .delivery (.historyLoaded lines) ∧
        (m.pass handler e s).1 = { e with history := e.history.install lines }) ∨
      e.Stays (m.pass handler e s).1 := by
  cases m with
  | key k => exact .inl ⟨k, rfl⟩
  | delivery event =>
      cases event with
      | historyLoaded lines => exact .inr (.inl ⟨lines, rfl, rfl⟩)
      | completed generation mode result => exact .inr (.inr (e.stays_onEvent nofun))
      | previewed generation text => exact .inr (.inr (e.stays_onEvent nofun))
  | decoded decoder => exact .inr (.inr ⟨rfl, rfl⟩)
  | resize columns =>
      have hresized : e.Stays (e.setColumns columns) := ⟨rfl, rfl⟩
      exact .inr (.inr hresized.paint)
  | refresh => exact .inr (.inr (Stays.refresh ⟨rfl, rfl⟩))
  | collect => exact .inr (.inr ⟨rfl, rfl⟩)

/-- What comes from the background does not reach the line while the engine searches. -/
theorem buffer_onEvent {e : Engine} (h : e.Searches) (event : Event) : (e.onEvent event).buffer = e.buffer := by
  obtain ⟨search, hmode⟩ := h
  unfold onEvent isCurrent
  cases event with
  | historyLoaded lines => rfl
  | completed generation mode result => simp [Event.generation?, hmode]
  | previewed generation text => simp [Event.generation?, hmode]

theorem mode_pass {e : Engine} {s : σ} {m : Moment} (h : ∀ k, m ≠ .key k) : (m.pass handler e s).1.mode = e.mode := by
  rcases e.pass_cases handler s m with ⟨k, rfl⟩ | ⟨lines, -, hloaded⟩ | hstays
  · exact absurd rfl (h k)
  · rw [hloaded]
  · exact hstays.mode

/-! ### Keys -/

theorem pressNormal_of_action? {e : Engine} {k : Key} {action : Action} (h : e.action? k = some action) :
    e.mode = .normal ∧ k.action e.context = action ∧ e.press k = e.pressNormal k := by
  unfold action? at h
  split at h
  · rename_i hmode
    refine ⟨hmode, by simpa using h, ?_⟩
    unfold press
    rw [hmode]
  · cases h

theorem press_of_action? {e : Engine} {k : Key} {action : Action} (h : e.action? k = some action)
    (hinterrupt : action ≠ .interrupt) : e.press k = ({ e with armed := false } : Engine).act action := by
  obtain ⟨-, haction, hpress⟩ := pressNormal_of_action? h
  rw [hpress]
  unfold pressNormal
  dsimp only
  rw [haction, if_neg hinterrupt]

/-- A search goes on behind a key if the key was one for the search, and the line is what it was. -/
theorem buffer_key_of_searches {e : Engine} {k : Key} {s : σ} (h : e.Searches)
    (hafter : (e.key handler k s).2.1.Searches) : (e.key handler k s).2.1.buffer = e.buffer := by
  obtain ⟨search, hmode⟩ := h
  have hpress : e.press k = e.pressSearch search k := by
    unfold press
    rw [hmode]
  have hresponse := (e.quiet_pressSearch search k).response
  rw [key_of_not_evaluate handler (hpress ▸ hresponse) s, hpress] at hafter ⊢
  have hnormal : ∀ e' : Engine, e'.mode = .normal → ¬ e'.Searches := fun _ => not_searches_iff.mpr
  unfold pressSearch at hafter ⊢
  dsimp only at hafter ⊢
  cases hkey : searchKey k (search.query.isEmpty && e.buffer.statement.isEmpty) with
  | add text => rfl
  | remove => rfl
  | further => rfl
  | cancel =>
      rw [hkey] at hafter
      exact absurd hafter (hnormal _ rfl)
  | leave =>
      rw [hkey] at hafter
      exact absurd hafter (hnormal _ rfl)
  | accept =>
      rw [hkey] at hafter
      exact absurd hafter (hnormal _ rfl)

/-- The line is the same from one moment to the next as long as the engine searches. -/
theorem buffer_pass_of_searches {e : Engine} {s : σ} {m : Moment} (h : e.Searches)
    (hafter : (m.pass handler e s).1.Searches) : (m.pass handler e s).1.buffer = e.buffer := by
  cases m with
  | key k => exact buffer_key_of_searches handler h hafter
  | decoded decoder => rfl
  | delivery event => exact buffer_onEvent h event
  | resize columns => exact paint_buffer _
  | refresh =>
      change e.refresh.buffer = e.buffer
      rw [refresh, schedule_buffer, paint_buffer]
  | collect => rfl

/-- A search begins with the key for it, and the line is what it was. -/
theorem begins_search {e : Engine} {s : σ} {m : Moment} (h : ¬ e.Searches) (hafter : (m.pass handler e s).1.Searches) :
    ∃ k, m = .key k ∧ e.action? k = some .search ∧ (m.pass handler e s).1.buffer = e.buffer := by
  have hmode := not_searches_iff.mp h
  by_cases hkey : ∃ k, m = .key k
  · obtain ⟨k, rfl⟩ := hkey
    by_cases haction : e.action? k = some .search
    · refine ⟨k, rfl, haction, ?_⟩
      have hpassed := key_of_goOn handler (press_of_action? haction (by simp)) s
      exact congrArg (fun out : Flow × Engine × σ => out.2.1.buffer) hpassed
    · refine absurd hafter ?_
      have hnormal : ∀ e' : Engine, e'.mode = .normal → ¬ e'.Searches := fun _ => not_searches_iff.mpr
      refine key_keeps handler (p := fun e => ¬ e.Searches) (hnormal _ ?_) (fun statement e' heq outcome => ?_) s
      · have hpress : e.press k = e.pressNormal k := by
          unfold press
          rw [hmode]
        unfold action? at haction
        rw [hmode] at haction
        rw [hpress]
        unfold pressNormal
        dsimp only
        rw [mode_act _ fun hsearch => haction (congrArg some hsearch)]
        split
        · exact hmode
        · exact hmode
      · exact hnormal _ ((mode_onOutcome e' statement outcome).trans (mode_of_evaluate heq))
  · obtain ⟨search, hsearch⟩ := hafter
    rw [mode_pass handler fun k hk => hkey ⟨k, hk⟩, hmode] at hsearch
    cases hsearch

/-! ### What is shown -/

/-- What a search shows is what it seeks; one that shows nothing may have missed entries that were loaded. -/
def ShowsSought (e : Engine) : Prop :=
  e.history.history.Fits ∧ ∀ search, e.mode = .search search → search.found ≠ none → search.Right e.history.history

theorem showsSought_pass {e : Engine} {s : σ} {m : Moment} (h : e.ShowsSought) : (m.pass handler e s).1.ShowsSought := by
  obtain ⟨hfits, hright⟩ := h
  rcases e.pass_cases handler s m with ⟨k, rfl⟩ | ⟨lines, rfl, hloaded⟩ | hstays
  · refine ⟨(e.leads_key handler k s).fits hfits, fun search hmode _ => ?_⟩
    exact e.searchRight_key handler k s search hmode
  · rw [hloaded]
    refine ⟨?_, fun search hmode hfound => ?_⟩
    · rw [HistoryStore.history_install]
      exact List.length_take_le ..
    · rw [HistoryStore.history_install]
      exact ((hright search hmode hfound).install hfits lines).resolve_right fun hmissed => hfound hmissed.1
  · refine ⟨?_, fun search hmode hfound => ?_⟩
    · rw [hstays.history]
      exact hfits
    · rw [hstays.history]
      exact hright search (hstays.mode.symm.trans hmode) hfound

theorem key_accept {e : Engine} {search : Search} (hmode : e.mode = .search search) {k : Key}
    (hk : searchKey k (search.query.isEmpty && e.buffer.statement.isEmpty) = .accept) (s : σ) :
    e.key handler k s =
      (.goOn, { e with mode := .normal, buffer := e.buffer.place (search.found.getD "").toList [] }, s) := by
  refine key_of_goOn handler ?_ s
  unfold press
  rw [hmode]
  dsimp only
  unfold pressSearch
  dsimp only
  rw [hk]
  dsimp only
  rw [Buffer.replace_toEnd]

end Engine

namespace Moment

/-- In every state of every run: a key that accepts what a search has found ends the search. If an entry is shown, the
line becomes that entry, which is in the history and holds what was sought, and the cursor goes to its end; if none is
shown, the line becomes empty. Until then the line was the one in which the search had begun. -/
theorem accepts_shown (settings : Settings) (highlighter : String → String) (capacity : Nat)
    (backing : Option Backing) (columns : Nat) (handler : LineHandler σ) (s : σ) (ms : List Moment) :
    let first := Engine.new settings highlighter { history := { capacity }, backing } columns
    let (e, s') := passAll handler first s ms
    ∀ search k, e.mode = .search search →
      Engine.searchKey k (search.query.isEmpty && e.buffer.statement.isEmpty) = .accept →
      let (flow, e', _) := e.key handler k s'
      flow = .goOn ∧ e'.mode = .normal ∧
        (∀ line, search.found = some line →
          e'.buffer.text = line ∧ e'.buffer.cursor = line.utf8ByteSize ∧ line ∈ e'.history.history.entries ∧
            search.query.toList <:+: line.toList) ∧
        (search.found = none → e'.buffer.text = "" ∧ e'.buffer.cursor = 0) ∧
        ∃ before begins during, ms = before ++ .key begins :: during ∧
          Began handler Engine.Searches first s before (.key begins) during ∧
          let earlier := (passAll handler first s before).1
          earlier.action? begins = some .search ∧ e.buffer = earlier.buffer := by
  intro first search k hmode hk
  rw [Engine.key_accept handler hmode hk]
  have hshows : (passAll handler first s ms).1.ShowsSought := by
    refine passAll_keeps (fun e s m => Engine.showsSought_pass handler) ⟨Nat.zero_le _, ?_⟩ ms
    exact fun search hmode => nomatch hmode
  refine ⟨rfl, rfl, fun line hfound => ?_, fun hfound => ?_, ?_⟩
  · have hsought := (hshows.2 search hmode (by simp [hfound])).found.symm.trans hfound
    obtain ⟨hmem, hcontains⟩ := History.mem_of_sought hsought
    refine ⟨?_, ?_, hmem, hcontains⟩
    · simp [Buffer.place, hfound]
    · simp [Buffer.place, hfound, Text.size_toList]
  · simp [Buffer.place, hfound, Text.size]
  · have hnot : ¬ first.Searches := Engine.not_searches_iff.mpr rfl
    obtain ⟨before, m, during, rfl, hbegan⟩ := exists_began hnot ⟨search, hmode⟩
    have hbegun := hbegan.since [] List.nil_prefix
    rw [passAll_concat] at hbegun
    obtain ⟨begins, rfl, haction, hbuffer⟩ := Engine.begins_search handler hbegan.not_before hbegun
    refine ⟨before, begins, during, rfl, hbegan, haction, ?_⟩
    have hsame := hbegan.eq_of_same (f := Engine.buffer) fun e s m => Engine.buffer_pass_of_searches handler
    rw [passAll_concat, hbuffer] at hsame
    exact hsame

/-- The older of two entries with the letter is accepted, in the middle of a line. -/
theorem accepts_shown_older :
    let handler : LineHandler Unit := fun _ => pure .needsAnotherLine
    let first := Engine.new {} id { history := { capacity := 10 } } 80
    let further := Key.control '\x12'
    let ms : List Moment :=
      [.delivery (.historyLoaded ["let b", "b"]), .key (.text "1 +"), .key further, .key (.text "b"), .key further]
    let enter : Key := { name := .enter, sequence := "\r" }
    let search : Search := ⟨"b", 1, some "b"⟩
    let (e, s') := passAll handler first () ms
    e.mode = .search search ∧
      Engine.searchKey enter (search.query.isEmpty && e.buffer.statement.isEmpty) = .accept ∧
      let (flow, e', _) := e.key handler enter s'
      flow = .goOn ∧ e'.mode = .normal ∧ e'.buffer.text = "b" ∧ e'.buffer.cursor = "b".utf8ByteSize ∧
        "b" ∈ e'.history.history.entries ∧
        ∃ before begins during, ms = before ++ .key begins :: during ∧
          Began handler Engine.Searches first () before (.key begins) during ∧
          let earlier := (passAll handler first () before).1
          earlier.action? begins = some .search ∧ e.buffer = earlier.buffer := by
  intro handler first further ms enter search
  have hmode : (passAll handler first () ms).1.mode = .search search := by decide +kernel
  have hkey : Engine.searchKey enter
      (search.query.isEmpty && (passAll handler first () ms).1.buffer.statement.isEmpty) = .accept := by
    decide +kernel
  obtain ⟨hflow, hnormal, hshown, -, hbegan⟩ :=
    accepts_shown {} id 10 none 80 handler () ms search enter hmode hkey
  obtain ⟨htext, hcursor, hmem, -⟩ := hshown "b" rfl
  exact ⟨hmode, hkey, hflow, hnormal, htext, hcursor, hmem, hbegan⟩

/-- A line is typed and a search begun that seeks nothing yet. The key that accepts takes the line away. -/
theorem accepting_nothing_empties :
    let handler : LineHandler Unit := fun _ => pure .needsAnotherLine
    let (typed, s) := Occasion.applyAll handler (.new {} id (.inMemory 10) 80) () [.chunk [0x61, 0x62, 0x63]]
    let (e, s') := Occasion.applyAll handler typed s [.chunk [0x12]]
    e.mode = .search {} ∧ (typed.buffer.text, typed.buffer.cursor) = ("abc", 3) ∧ e.buffer = typed.buffer ∧
      let e' := (e.feed handler [0x0d] s').2.1
      e'.mode = .normal ∧ (e'.buffer.text, e'.buffer.cursor) = ("", 0) := by
  decide +kernel

end Moment

end ScriptRepl.Console
