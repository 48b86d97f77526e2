import ScriptRepl.Proofs.Console.Statements

/-! An engine without its past. As long as nothing comes from the background, a key does to an engine what it does to a
new one that has the same line, history and mode: how often the line was painted, how many generations have passed and
whether a text was typed at once make no difference. -/
namespace ScriptRepl.Console

/-! ### Lines that stand alone -/

namespace Buffer

/-- The line as it is, in a buffer that has seen no change. -/
def afresh (b : Buffer) : Buffer :=
  { b with suffix := none, generation := 0 }

theorem afresh_edit (b : Buffer) (before after : List Char) :
    (b.edit before after).2.afresh = (b.afresh.edit before after).2.afresh := by
  have hsides : b.afresh.sides = b.sides := rfl
  unfold edit
  rw [hsides]
  split <;> rfl

theorem afresh_move (b : Buffer) (delta : Int) : (b.move delta).2.afresh = (b.afresh.move delta).2.afresh := by
  unfold move
  dsimp only
  split
  · exact b.afresh_edit _ _
  · exact b.afresh_edit _ _

theorem suffix_edit {b : Buffer} (h : b.suffix = none) (before after : List Char) :
    (b.edit before after).2.suffix = none := by
  unfold edit
  split
  · exact h
  · rfl

theorem suffix_move {b : Buffer} (h : b.suffix = none) (delta : Int) : (b.move delta).2.suffix = none := by
  unfold move
  dsimp only
  split
  · exact suffix_edit h _ _
  · exact suffix_edit h _ _

theorem completion?_of_bare {b : Buffer} (h : b.suffix = none) : b.completion? = none := by
  rw [completion?, h]

theorem accept_of_bare {b : Buffer} (h : b.suffix = none) : b.accept = (false, b) := by
  rw [accept, completion?_of_bare h]

theorem insert_empty (b : Buffer) : b.insert "" = b := by
  have hsame : (b.before ++ "".toList, b.after) = b.sides := by
    rw [String.toList_empty, List.append_nil]
    rfl
  rw [insert, edit, if_pos hsame]

theorem insert_of_ne {s : String} (b : Buffer) (h : s ≠ "") : b.insert s = b.place (b.before ++ s.toList) b.after := by
  have hother : (b.before ++ s.toList, b.after) ≠ b.sides := by
    intro hsame
    have hbefore : b.before ++ s.toList = b.before := congrArg Prod.fst hsame
    rw [List.append_right_eq_self, String.toList_eq_nil_iff] at hbefore
    exact h hbefore
  rw [insert, edit, if_neg hother]

/-- Two texts that are inserted one behind the other. -/
theorem afresh_insert_append (b : Buffer) (s t : String) :
    ((b.insert s).insert t).afresh = (b.insert (s ++ t)).afresh := by
  by_cases hs : s = ""
  · rw [hs, insert_empty, String.empty_append]
  · by_cases ht : t = ""
    · rw [ht, insert_empty, String.append_empty]
    · have hst : s ++ t ≠ "" := fun h => hs (String.append_eq_empty_iff.mp h).1
      have hsides := b.sides_place (b.before ++ s.toList) b.after
      have hbefore : (b.place (b.before ++ s.toList) b.after).before = b.before ++ s.toList := congrArg Prod.fst hsides
      have hafter : (b.place (b.before ++ s.toList) b.after).after = b.after := by
        rw [after, hsides]
      rw [b.insert_of_ne hs, insert_of_ne _ ht, b.insert_of_ne hst, hbefore, hafter, String.toList_append,
        List.append_assoc]
      rfl

theorem suffix_insert {b : Buffer} (h : b.suffix = none) (s : String) : (b.insert s).suffix = none :=
  suffix_edit h _ _

end Buffer

/-! ### Engines that stand alone -/

namespace Engine

/-- A new engine with the same line, history and mode. -/
def afresh (e : Engine) : Engine :=
  { new e.settings id e.history 1 with buffer := e.buffer.afresh, mode := e.mode, armed := e.armed }

/-- Nothing has come from the background that could be taken into the line. -/
structure Bare (e : Engine) : Prop where
  suffix : e.buffer.suffix = none
  candidates : e.suggestion.candidates = []

theorem bare_new (settings : Settings) (highlighter : String → String) (history : HistoryStore) (columns : Nat) :
    (new settings highlighter history columns).Bare :=
  ⟨rfl, rfl⟩

theorem bare_afresh (e : Engine) : e.afresh.Bare :=
  ⟨rfl, rfl⟩

theorem Bare.withBuffer {e : Engine} (h : e.Bare) {b : Buffer} (hb : b.suffix = none) : (e.withBuffer b).Bare :=
  ⟨hb, h.candidates⟩

theorem afresh_withBuffer {e e' : Engine} {b b' : Buffer} (h : e.afresh = e'.afresh) (hb : b.afresh = b'.afresh) :
    (e.withBuffer b).afresh = (e'.withBuffer b').afresh := by
  change { e.afresh with buffer := b.afresh } = { e'.afresh with buffer := b'.afresh }
  rw [h, hb]

theorem afresh_resetLine {e e' : Engine} (h : e.afresh = e'.afresh) : e.resetLine.afresh = e'.resetLine.afresh := by
  have hsettings : e.settings = e'.settings := (congrArg Engine.settings h :)
  refine afresh_withBuffer h ?_
  rw [hsettings]
  rfl

theorem paint_spec (e : Engine) : ∃ screen output, e.paint = { e with screen, output } := by
  unfold paint
  split
  · exact ⟨_, _, rfl⟩
  · exact ⟨_, _, rfl⟩

theorem schedule_spec (e : Engine) :
    ∃ scheduled suggestion jobs, e.schedule = { e with scheduled, suggestion, jobs } ∧
      (suggestion = e.suggestion ∨ suggestion = e.suggestion.clear) := by
  unfold schedule
  split
  · exact ⟨_, _, _, rfl, .inl rfl⟩
  · dsimp only
    split
    · exact ⟨_, _, _, rfl, .inr rfl⟩
    · split
      · exact ⟨_, _, _, rfl, .inr rfl⟩
      · unfold requestPreview
        split
        · exact ⟨_, _, _, rfl, .inr rfl⟩
        · exact ⟨_, _, _, rfl, .inr rfl⟩

theorem afresh_paint (e : Engine) : e.paint.afresh = e.afresh := by
  obtain ⟨screen, output, hpaint⟩ := e.paint_spec
  rw [hpaint]
  rfl

theorem afresh_refresh (e : Engine) : e.refresh.afresh = e.afresh := by
  obtain ⟨scheduled, suggestion, jobs, hschedule, -⟩ := e.paint.schedule_spec
  rw [← e.afresh_paint, refresh, hschedule]
  rfl

theorem Bare.refresh {e : Engine} (h : e.Bare) : e.refresh.Bare := by
  obtain ⟨screen, output, hpaint⟩ := e.paint_spec
  obtain ⟨scheduled, suggestion, jobs, hschedule, hsuggestion⟩ := e.paint.schedule_spec
  have hcandidates : suggestion.candidates = [] := by
    rcases hsuggestion with rfl | rfl
    · rw [hpaint]
      exact h.candidates
    · rfl
  rw [Engine.refresh, hschedule, hpaint]
  exact ⟨h.suffix, hcandidates⟩

/-! ### Keys -/

/-- Two things that a key did, one of them to an engine that stands alone. -/
structure Agrees (out out' : Response × Engine) : Prop where
  response : out.1 = out'.1
  afresh : out.2.afresh = out'.2.afresh
  bare : out.2.Bare

variable {e : Engine}

theorem Bare.agrees_edit (h : e.Bare) {b b' : Buffer} (hb : b.afresh = b'.afresh) (hsuffix : b.suffix = none) :
    Agrees (.goOn, e.withBuffer b) (.goOn, e.afresh.withBuffer b') :=
  ⟨rfl, afresh_withBuffer rfl hb, h.withBuffer hsuffix⟩

theorem Bare.agrees_recallLine (h : e.Bare) (step : History → Option String × History) :
    Agrees (.goOn, e.recallLine step) (.goOn, e.afresh.recallLine step) := by
  have hwalked : e.afresh.history.walk step = e.history.walk step := rfl
  unfold recallLine
  rw [hwalked]
  dsimp only
  split
  · exact ⟨rfl, rfl, rfl, h.candidates⟩
  · exact ⟨rfl, rfl, h.suffix, h.candidates⟩

theorem rotate_of_no_candidates {s : Suggestion} (h : s.candidates = []) (generation : Nat) (forward : Bool) :
    (s.rotate generation forward).1 = none ∧ (s.rotate generation forward).2.candidates = [] := by
  unfold Suggestion.rotate
  split
  · exact ⟨rfl, rfl⟩
  · rw [h]
    exact ⟨rfl, h⟩

theorem Bare.agrees_rotate (h : e.Bare) (forward : Bool) :
    Agrees (.goOn, e.rotate forward) (.goOn, e.afresh.rotate forward) := by
  have hnone := rotate_of_no_candidates h.candidates e.buffer.generation forward
  exact ⟨rfl, rfl, hnone.1, hnone.2⟩

theorem Bare.agrees_submit (h : e.Bare) : Agrees e.submit e.afresh.submit := by
  have hleft : ((e.withBuffer (e.buffer.setSuffix none).toEnd.2).paint.draw Screen.newline).afresh =
      ((e.afresh.withBuffer (e.buffer.afresh.setSuffix none).toEnd.2).paint.draw Screen.newline).afresh := by
    change (Engine.paint _).afresh = (Engine.paint _).afresh
    rw [afresh_paint, afresh_paint]
    exact afresh_withBuffer rfl (Buffer.afresh_edit _ _ _)
  have hbare : ((e.withBuffer (e.buffer.setSuffix none).toEnd.2).paint.draw Screen.newline).Bare := by
    have hedited : (e.withBuffer (e.buffer.setSuffix none).toEnd.2).Bare := h.withBuffer (Buffer.suffix_edit rfl _ _)
    exact ⟨(congrArg Buffer.suffix (paint_buffer _)).trans hedited.suffix,
      (congrArg Suggestion.candidates (paint_suggestion _)).trans hedited.candidates⟩
  have hstatement : e.afresh.buffer.statement = e.buffer.statement := rfl
  unfold submit
  dsimp only
  rw [hstatement]
  split
  · exact ⟨rfl, afresh_resetLine hleft, rfl, hbare.candidates⟩
  · exact ⟨rfl, hleft, hbare⟩

theorem Bare.agrees_interrupt (h : e.Bare) : Agrees e.interrupt e.afresh.interrupt := by
  have hstatement : e.afresh.buffer.statement = e.buffer.statement := rfl
  have harmed : e.afresh.armed = e.armed := rfl
  unfold interrupt
  rw [hstatement, harmed]
  split
  · exact ⟨rfl, rfl, rfl, h.candidates⟩
  · split
    · exact ⟨rfl, rfl, h.suffix, h.candidates⟩
    · exact ⟨rfl, rfl, h.suffix, h.candidates⟩

theorem Bare.agrees_act (h : e.Bare) (action : Action) : Agrees (e.act action) (e.afresh.act action) := by
  cases action with
  | insert text =>
      have hinserted := h.agrees_edit (e.buffer.afresh_edit (e.buffer.before ++ text.toList) e.buffer.after)
        (Buffer.suffix_edit h.suffix _ _)
      exact ⟨rfl, congrArg endRecall hinserted.afresh, hinserted.bare.suffix, h.candidates⟩
  | left => exact h.agrees_edit (e.buffer.afresh_move _) (Buffer.suffix_move h.suffix _)
  | right => exact h.agrees_edit (e.buffer.afresh_move _) (Buffer.suffix_move h.suffix _)
  | wordLeft => exact h.agrees_edit (e.buffer.afresh_edit _ _) (Buffer.suffix_edit h.suffix _ _)
  | wordRight => exact h.agrees_edit (e.buffer.afresh_edit _ _) (Buffer.suffix_edit h.suffix _ _)
  | toStart => exact h.agrees_edit (e.buffer.afresh_edit _ _) (Buffer.suffix_edit h.suffix _ _)
  | toEnd => exact h.agrees_edit (e.buffer.afresh_edit _ _) (Buffer.suffix_edit h.suffix _ _)
  | deleteBackward => exact h.agrees_edit (e.buffer.afresh_edit _ _) (Buffer.suffix_edit h.suffix _ _)
  | deleteForward => exact h.agrees_edit (e.buffer.afresh_edit _ _) (Buffer.suffix_edit h.suffix _ _)
  | deleteWordBackward => exact h.agrees_edit (e.buffer.afresh_edit _ _) (Buffer.suffix_edit h.suffix _ _)
  | deleteToEnd => exact h.agrees_edit (e.buffer.afresh_edit _ _) (Buffer.suffix_edit h.suffix _ _)
  | deleteToStart => exact h.agrees_edit (e.buffer.afresh_edit _ _) (Buffer.suffix_edit h.suffix _ _)
  | older => exact h.agrees_recallLine _
  | newer => exact h.agrees_recallLine _
  | search => exact ⟨rfl, rfl, h.suffix, h.candidates⟩
  | accept =>
      have hnothing : e.buffer.accept.2.afresh = e.afresh.buffer.accept.2.afresh := by
        rw [Buffer.accept_of_bare h.suffix, Buffer.accept_of_bare e.bare_afresh.suffix]
        rfl
      refine h.agrees_edit hnothing ?_
      rw [Buffer.accept_of_bare h.suffix]
      exact h.suffix
  | complete =>
      change Agrees (.goOn, if e.buffer.isEmpty then e else _) (.goOn, if e.buffer.isEmpty then e.afresh else _)
      split
      · exact ⟨rfl, rfl, h⟩
      · exact ⟨rfl, rfl, h.suffix, h.candidates⟩
  | nextCandidate => exact h.agrees_rotate true
  | previousCandidate => exact h.agrees_rotate false
  | dismiss => exact h.agrees_edit rfl rfl
  | submit => exact h.agrees_submit
  | clearScreen => exact ⟨rfl, rfl, h.suffix, h.candidates⟩
  | interrupt => exact h.agrees_interrupt
  | endOfInput => exact ⟨rfl, rfl, h.suffix, h.candidates⟩
  | unsupported => exact ⟨rfl, rfl, h⟩

theorem Bare.agrees_pressNormal (h : e.Bare) (k : Key) : Agrees (e.pressNormal k) (e.afresh.pressNormal k) := by
  have hcontext : e.afresh.context = e.context := by
    unfold context
    rw [Buffer.completion?_of_bare h.suffix, h.suffix]
    rfl
  unfold pressNormal
  rw [hcontext]
  dsimp only
  split
  · exact h.agrees_act _
  · exact Bare.agrees_act (e := { e with armed := false }) ⟨h.suffix, h.candidates⟩ _

theorem Bare.agrees_pressSearch (h : e.Bare) (s : Search) (k : Key) :
    Agrees (e.pressSearch s k) (e.afresh.pressSearch s k) := by
  have hstatement : e.afresh.buffer.statement = e.buffer.statement := rfl
  unfold pressSearch
  dsimp only
  rw [hstatement]
  split
  · exact ⟨rfl, rfl, h.suffix, h.candidates⟩
  · exact ⟨rfl, rfl, h.suffix, h.candidates⟩
  · exact ⟨rfl, rfl, h.suffix, h.candidates⟩
  · exact ⟨rfl, rfl, rfl, h.candidates⟩
  · exact ⟨rfl, rfl, h.suffix, h.candidates⟩
  · exact ⟨rfl, rfl, rfl, h.candidates⟩

theorem Bare.agrees_press (h : e.Bare) (k : Key) : Agrees (e.press k) (e.afresh.press k) := by
  have hmode : e.afresh.mode = e.mode := rfl
  unfold press
  rw [hmode]
  split
  · exact h.agrees_pressNormal k
  · exact h.agrees_pressSearch _ k

/-- Two engines that stand alone and do not differ otherwise. -/
structure Alike (e e' : Engine) : Prop where
  afresh : e.afresh = e'.afresh
  bare : e.Bare
  bare' : e'.Bare

variable {e' e'' : Engine}

theorem Alike.refl (h : e.Bare) : e.Alike e :=
  ⟨rfl, h, h⟩

theorem Alike.symm (h : e.Alike e') : e'.Alike e :=
  ⟨h.afresh.symm, h.bare', h.bare⟩

theorem Alike.trans (h : e.Alike e') (h' : e'.Alike e'') : e.Alike e'' :=
  ⟨h.afresh.trans h'.afresh, h.bare, h'.bare'⟩

theorem Alike.press (h : e.Alike e') (k : Key) :
    (e.press k).1 = (e'.press k).1 ∧ (e.press k).2.Alike (e'.press k).2 := by
  have hone := h.bare.agrees_press k
  have hother := h.bare'.agrees_press k
  rw [← h.afresh] at hother
  exact ⟨hone.response.trans hother.response.symm, hone.afresh.trans hother.afresh.symm, hone.bare, hother.bare⟩

theorem onOutcome_output (e : Engine) (statement text : String) :
    (e.onOutcome statement (.output text)).afresh =
        ({ e with history := e.history.append statement } : Engine).resetLine.afresh ∧
      (e.onOutcome statement (.output text)).Bare := by
  unfold onOutcome
  dsimp only
  split
  · exact ⟨rfl, rfl, rfl⟩
  · exact ⟨rfl, rfl, rfl⟩

theorem Alike.onOutcome (h : e.Alike e') (statement : String) (outcome : LineOutcome) :
    (e.onOutcome statement outcome).Alike (e'.onOutcome statement outcome) := by
  have hbuffer : e.buffer.afresh = e'.buffer.afresh := (congrArg Engine.buffer h.afresh :)
  have hsettings : e.settings = e'.settings := (congrArg Engine.settings h.afresh :)
  cases outcome with
  | needsAnotherLine =>
      have hline : (e.buffer.continueLine e.settings.continuationPrompt).afresh =
          (e'.buffer.continueLine e'.settings.continuationPrompt).afresh := by
        change (e.buffer.afresh.continueLine _).afresh = (e'.buffer.afresh.continueLine _).afresh
        rw [hbuffer, hsettings]
      have hcontinued := afresh_withBuffer h.afresh hline
      exact ⟨hcontinued, ⟨rfl, rfl⟩, ⟨rfl, rfl⟩⟩
  | output text =>
      have hrecorded : ({ e with history := e.history.append statement } : Engine).afresh =
          ({ e' with history := e'.history.append statement } : Engine).afresh := by
        change { e.afresh with history := e.afresh.history.append statement } =
          { e'.afresh with history := e'.afresh.history.append statement }
        rw [h.afresh]
      have hone := e.onOutcome_output statement text
      have hother := e'.onOutcome_output statement text
      exact ⟨hone.1.trans ((afresh_resetLine hrecorded).trans hother.1.symm), hone.2, hother.2⟩

theorem Alike.refresh (h : e.Alike e') : e.refresh.Alike e' :=
  ⟨e.afresh_refresh.trans h.afresh, h.bare.refresh, h.bare'⟩

variable (handler : LineHandler σ)

theorem Alike.key (h : e.Alike e') (k : Key) (s : σ) :
    (e.key handler k s).1 = (e'.key handler k s).1 ∧ (e.key handler k s).2.1.Alike (e'.key handler k s).2.1 ∧
      (e.key handler k s).2.2 = (e'.key handler k s).2.2 := by
  obtain ⟨hresponse, halike⟩ := h.press k
  unfold Engine.key
  rcases hone : e.press k with ⟨response, one⟩
  rcases hother : e'.press k with ⟨response', other⟩
  rw [hone, hother] at hresponse halike
  cases hresponse
  cases response with
  | goOn => exact ⟨rfl, halike, rfl⟩
  | exit reason => exact ⟨rfl, halike, rfl⟩
  | evaluate statement => exact ⟨rfl, halike.onOutcome _ _, rfl⟩

/-! ### Text that is typed -/

/-- What a text that is typed leaves. -/
def type (e : Engine) (text : String) : Engine :=
  (e.press (.text text)).2

theorem press_text (e : Engine) (text : String) : e.press (.text text) = (.goOn, e.type text) := by
  unfold type press
  split
  · rfl
  · rfl

theorem type_of_normal (h : e.mode = .normal) (text : String) :
    e.type text = (({ e with armed := false } : Engine).withBuffer (e.buffer.insert text)).endRecall := by
  have haction : (Key.text text).action e.context = .insert text := rfl
  have hpress : e.press (.text text) = e.pressNormal (.text text) := by rw [press, h]
  rw [type, hpress, pressNormal, haction]
  rfl

theorem type_of_search {found : Search} (h : e.mode = .search found) (text : String) :
    e.type text = { e with mode := .search (e.lookUp { found with query := found.query ++ text, skip := 0 }) } := by
  unfold type press
  rw [h]
  rfl

theorem lookUp_of_history (h : e'.history = e.history) (s : Search) : e'.lookUp s = e.lookUp s := by
  unfold lookUp
  rw [h]

/-- What was found before makes no difference to what is found. -/
theorem lookUp_found (e : Engine) (s : Search) (found : Option String) : e.lookUp { s with found } = e.lookUp s := by
  unfold lookUp
  dsimp only

theorem query_lookUp (e : Engine) (s : Search) : (e.lookUp s).query = s.query := by
  unfold lookUp
  split
  · rfl
  · dsimp only
    split
    · rfl
    · rfl

theorem lookUp_append (e : Engine) (search : Search) (s t : String) :
    e.lookUp { e.lookUp { search with query := search.query ++ s, skip := 0 } with
        query := (e.lookUp { search with query := search.query ++ s, skip := 0 }).query ++ t, skip := 0 } =
      e.lookUp { search with query := search.query ++ (s ++ t), skip := 0 } := by
  rw [query_lookUp, ← String.append_assoc]
  exact e.lookUp_found { search with query := search.query ++ s ++ t, skip := 0 } _

/-- A text that is typed in two parts. -/
theorem Bare.alike_type_append (h : e.Bare) (s t : String) : (e.type (s ++ t)).Alike ((e.type s).type t) := by
  cases hmode : e.mode with
  | normal =>
      have hfirst : (e.type s).mode = .normal := by rw [type_of_normal hmode]; exact hmode
      rw [type_of_normal hfirst, type_of_normal hmode, type_of_normal hmode]
      have hline := e.buffer.afresh_insert_append s t
      have hinserted := afresh_withBuffer (e := { e with armed := false }) rfl hline
      refine ⟨(congrArg endRecall hinserted).symm, ?_, ?_⟩
      · exact ⟨Buffer.suffix_insert h.suffix _, h.candidates⟩
      · exact ⟨Buffer.suffix_insert (Buffer.suffix_insert h.suffix s) t, h.candidates⟩
  | search found =>
      have hfirst := type_of_search hmode s
      have hmode' : (e.type s).mode = .search (e.lookUp { found with query := found.query ++ s, skip := 0 }) := by
        rw [hfirst]
      have htyped : (e.type s).type t = e.type (s ++ t) := by
        have hhistory : (e.type s).history = e.history := by rw [hfirst]
        rw [type_of_search hmode', type_of_search hmode (s ++ t), lookUp_of_history hhistory, hfirst]
        exact congrArg (fun search => ({ e with mode := .search search } : Engine)) (e.lookUp_append found s t)
      have hbare : (e.type (s ++ t)).Bare := by
        rw [type_of_search hmode]
        exact ⟨h.suffix, h.candidates⟩
      rw [htyped]
      exact .refl hbare

/-! ### The decoder -/

theorem decoder_paint (e : Engine) : e.paint.decoder = e.decoder := by
  obtain ⟨screen, output, hpaint⟩ := e.paint_spec
  rw [hpaint]

theorem decoder_refresh (e : Engine) : e.refresh.decoder = e.decoder := by
  obtain ⟨scheduled, suggestion, jobs, hschedule, -⟩ := e.paint.schedule_spec
  rw [← e.decoder_paint, refresh, hschedule]

theorem decoder_recallLine (e : Engine) (step : History → Option String × History) :
    (e.recallLine step).decoder = e.decoder := by
  unfold recallLine
  dsimp only
  split <;> rfl

theorem decoder_act (e : Engine) (action : Action) : (e.act action).2.decoder = e.decoder := by
  cases action with
  | older => exact e.decoder_recallLine _
  | newer => exact e.decoder_recallLine _
  | complete =>
      unfold act
      dsimp only
      split <;> rfl
  | submit =>
      change e.submit.2.decoder = e.decoder
      unfold submit
      dsimp only
      split
      · exact decoder_paint _
      · exact decoder_paint _
  | interrupt =>
      change e.interrupt.2.decoder = e.decoder
      unfold interrupt
      split
      · rfl
      · split <;> rfl
  | _ => rfl

theorem decoder_press (e : Engine) (k : Key) : (e.press k).2.decoder = e.decoder := by
  unfold press
  split
  · unfold pressNormal
    dsimp only
    rw [decoder_act]
    split <;> rfl
  · unfold pressSearch
    dsimp only
    split <;> rfl

theorem decoder_onOutcome (e : Engine) (statement : String) (outcome : LineOutcome) :
    (e.onOutcome statement outcome).decoder = e.decoder := by
  unfold onOutcome
  cases outcome with
  | needsAnotherLine => rfl
  | output text =>
      dsimp only
      split <;> rfl

theorem decoder_key (e : Engine) (k : Key) (s : σ) : (e.key handler k s).2.1.decoder = e.decoder := by
  rw [← e.decoder_press k]
  unfold key
  rcases e.press k with ⟨_ | reason | statement, left⟩
  · rfl
  · rfl
  · exact left.decoder_onOutcome _ _

end Engine

end ScriptRepl.Console
