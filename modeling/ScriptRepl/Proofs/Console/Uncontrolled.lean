import ScriptRepl.Proofs.Console.Bindings
import ScriptRepl.Proofs.Console.Cycling
import ScriptRepl.Proofs.Console.Offsets
import ScriptRepl.Proofs.Console.Styled

/-! Where control characters cannot come from. A key that inserts text holds none, and the statement that goes into the
history is one line by then; what is recalled, found or taken in was held to the same before. -/
namespace ScriptRepl

/-! ### Texts -/

namespace Text

/-- No character is a control character of ASCII. -/
def Clean (cs : List Char) : Prop :=
  ∀ c ∈ cs, ¬ IsControl c

instance (cs : List Char) : Decidable (Clean cs) :=
  List.decidableBAll (fun c => ¬ IsControl c) cs

variable {cs ds : List Char}

theorem clean_nil : Clean [] :=
  nofun

theorem Clean.append (h : Clean cs) (h' : Clean ds) : Clean (cs ++ ds) :=
  fun c hc => (List.mem_append.mp hc).elim (h c) (h' c)

theorem Clean.left (h : Clean (cs ++ ds)) : Clean cs :=
  fun c hc => h c (List.mem_append_left ds hc)

theorem Clean.right (h : Clean (cs ++ ds)) : Clean ds :=
  fun c hc => h c (List.mem_append_right cs hc)

theorem Clean.sublist (h : Clean cs) (hds : ds.Sublist cs) : Clean ds :=
  fun c hc => h c (hds.subset hc)

theorem Clean.visible_eq (h : Clean cs) : visible cs = cs := by
  unfold visible
  induction cs with
  | nil => simp [pieces]
  | cons c cs ih =>
      obtain ⟨hc, hcs⟩ := List.forall_mem_cons.mp h
      have hescape : c ≠ '\x1b' := by
        rintro rfl
        exact hc (by decide)
      rw [pieces_cons_of_ne hescape, List.filterMap_cons, ih hcs]
      rfl

/-- Such a text is as wide as its characters. -/
theorem Clean.displayWidth_eq {s : String} (h : Clean s.toList) : displayWidth s = columnsOf s.toList := by
  rw [displayWidth, h.visible_eq]

/-- No control characters but line feeds. -/
def Lined (cs : List Char) : Prop :=
  ∀ c ∈ cs, IsControl c → c = '\n'

theorem Clean.lined (h : Clean cs) : Lined cs :=
  fun c hc hcontrol => absurd hcontrol (h c hc)

theorem Lined.append (h : Lined cs) (h' : Lined ds) : Lined (cs ++ ds) :=
  fun c hc => (List.mem_append.mp hc).elim (h c) (h' c)

end Text

namespace Console

/-! ### Lines -/

namespace Buffer

structure Clean (b : Buffer) : Prop where
  text : Text.Clean b.text.toList
  committed : Text.Lined b.committed.toList
  completion : ∀ s, b.completion? = some s → Text.Clean s.toList

variable {b : Buffer}

theorem clean_new (prompt : String) : ({ prompt } : Buffer).Clean :=
  ⟨Text.clean_nil, nofun, nofun⟩

theorem Clean.sides (h : b.Clean) : Text.Clean b.before ∧ Text.Clean b.after := by
  have htext := h.text
  rw [← b.sides_append] at htext
  exact ⟨htext.left, htext.right⟩

theorem Clean.lined (h : b.Clean) : Text.Lined b.statement.toList := by
  rw [statement, String.toList_append]
  exact h.committed.append h.text.lined

theorem Clean.place (h : b.Clean) {before after : List Char} (hbefore : Text.Clean before)
    (hafter : Text.Clean after) : (b.place before after).Clean where
  text := by
    rw [Buffer.place, String.toList_ofList]
    exact hbefore.append hafter
  committed := h.committed
  completion := nofun

theorem Clean.edit (h : b.Clean) {before after : List Char} (hbefore : Text.Clean before) (hafter : Text.Clean after) :
    (b.edit before after).2.Clean := by
  unfold Buffer.edit
  split
  · exact h
  · exact h.place hbefore hafter

theorem Clean.insert (h : b.Clean) {s : String} (hs : Text.Clean s.toList) : (b.insert s).Clean :=
  h.edit (h.sides.1.append hs) h.sides.2

theorem Clean.move (h : b.Clean) (delta : Int) : (b.move delta).2.Clean := by
  obtain ⟨hbefore, hafter⟩ := h.sides
  unfold Buffer.move
  dsimp only
  split
  · exact h.edit (hbefore.sublist (List.take_sublist ..)) ((hbefore.sublist (List.drop_sublist ..)).append hafter)
  · exact h.edit (hbefore.append (hafter.sublist (List.take_sublist ..))) (hafter.sublist (List.drop_sublist ..))

theorem Clean.wordLeft (h : b.Clean) : b.wordLeft.2.Clean := by
  obtain ⟨hbefore, hafter⟩ := h.sides
  exact h.edit (hbefore.sublist (List.take_sublist ..)) ((hbefore.sublist (List.drop_sublist ..)).append hafter)

theorem Clean.wordRight (h : b.Clean) : b.wordRight.2.Clean := by
  obtain ⟨hbefore, hafter⟩ := h.sides
  have hparts := hafter
  rw [← wordRight_append b.after] at hparts
  exact h.edit (hbefore.append hparts.left) hparts.right

theorem Clean.replace (h : b.Clean) {s : String} (hs : Text.Clean s.toList) (cursor : Nat) :
    (b.replace s cursor).Clean := by
  rw [← Text.splitNear_append cursor s.toList] at hs
  exact h.place hs.left hs.right

theorem Clean.clear (h : b.Clean) : b.clear.Clean :=
  h.place Text.clean_nil Text.clean_nil

theorem Clean.setSuffix (h : b.Clean) {suffix : Option Suffix}
    (hsuffix : ∀ s, suffix = some ⟨s, .completion⟩ → Text.Clean s.toList) : (b.setSuffix suffix).Clean where
  text := h.text
  committed := h.committed
  completion s hs := by
    unfold completion? at hs
    split at hs
    · rename_i text heq
      cases hs
      exact hsuffix s heq
    · cases hs

theorem Clean.bare (h : b.Clean) : (b.setSuffix none).Clean :=
  h.setSuffix nofun

theorem Clean.accept (h : b.Clean) : b.accept.2.Clean := by
  unfold Buffer.accept
  split
  · rename_i text htext
    split
    · exact h.bare.insert (h.completion text htext)
    · exact h
  · exact h

theorem Clean.continueLine (h : b.Clean) (prompt : String) : (b.continueLine prompt).Clean := by
  have hcommitted : Text.Lined (b.statement ++ "\n").toList := by
    rw [String.toList_append]
    exact h.lined.append fun c hc _ => List.mem_singleton.mp hc
  have hcontinued : ({ b with committed := b.statement ++ "\n", prompt } : Buffer).Clean :=
    ⟨h.text, hcommitted, h.completion⟩
  exact hcontinued.clear

theorem Clean.reset (h : b.Clean) (prompt : String) : (b.reset prompt).Clean := by
  have hreset : ({ b with committed := "", prompt } : Buffer).Clean := ⟨h.text, nofun, h.completion⟩
  exact hreset.clear

end Buffer

/-! ### History -/

namespace History

def Clean (h : History) : Prop :=
  ∀ s ∈ h.entries, Text.Clean s.toList

variable {h : History}

theorem clean_oneLine {s : String} (hs : Text.Lined s.toList) : Text.Clean (oneLine s).toList := by
  intro c hc
  rw [toList_oneLine, List.mem_map] at hc
  obtain ⟨d, hd, rfl⟩ := hc
  split
  · decide
  · rename_i hend
    exact fun hcontrol => hend (.inr (hs d hd hcontrol))

theorem Clean.append (hclean : h.Clean) {s : String} (hs : Text.Lined s.toList) : (h.append s).Clean := by
  unfold History.append
  dsimp only
  split
  · exact hclean
  · intro entry hentry
    rcases List.mem_cons.mp (List.mem_of_mem_take hentry) with rfl | hold
    · exact clean_oneLine hs
    · exact hclean entry hold

theorem Clean.install (hclean : h.Clean) {older : List String} (holder : ∀ s ∈ older, Text.Clean s.toList) :
    (h.install older).Clean := by
  intro entry hentry
  rcases List.mem_append.mp (List.mem_of_mem_take hentry) with hold | hnew
  · exact hclean entry hold
  · exact holder entry hnew

/-- A step through a history leaves the entries as they are and gives one of them, or the empty line. -/
structure Walks (step : History → Option String × History) : Prop where
  entries : ∀ h, (step h).2.entries = h.entries
  line : ∀ h s, (step h).1 = some s → s = "" ∨ s ∈ h.entries

theorem walks_previous : Walks previous where
  entries h := by
    unfold previous
    split <;> rfl
  line h s hs := by
    unfold previous at hs
    split at hs
    · cases hs
    · exact .inr (List.mem_of_getElem? hs)

theorem walks_next : Walks next where
  entries h := by
    unfold next
    split <;> rfl
  line h s hs := by
    unfold next at hs
    split at hs
    · cases hs
    · cases hs
      exact .inl rfl
    · exact .inr (List.mem_of_getElem? hs)

end History

/-! ### Candidates, searches and events -/

def Suggestion.Clean (s : Suggestion) : Prop :=
  ∀ text ∈ s.candidates, Text.Clean text.toList

structure Search.Clean (s : Search) : Prop where
  query : Text.Clean s.query.toList
  found : ∀ entry, s.found = some entry → Text.Clean entry.toList

/-- What comes from the background and can become part of the line. -/
def Event.Clean : Event → Prop
  | completed _ _ result => ∀ texts, result = some (.candidates texts) → ∀ s ∈ texts, Text.Clean s.toList
  | previewed .. => True
  | historyLoaded lines => ∀ s ∈ lines, Text.Clean s.toList

namespace Suggestion

variable {s : Suggestion}

theorem Clean.clear : s.clear.Clean :=
  nofun

theorem Clean.shown (h : s.Clean) {text : String} (htext : s.shown = some ⟨text, .completion⟩) :
    Text.Clean text.toList := by
  obtain ⟨candidate, hcandidate, heq⟩ := mem_of_shown htext
  cases heq
  exact h text hcandidate

theorem clean_take {generation : Nat} {mode : CompletionMode} {result : Option Assist.Completion}
    (h : (Event.completed generation mode result).Clean) :
    (s.take generation result).2.Clean ∧
      ∀ text, (s.take generation result).1 = some ⟨text, .completion⟩ → Text.Clean text.toList := by
  unfold take
  split
  · exact ⟨nofun, nofun⟩
  · exact ⟨nofun, nofun⟩
  · rename_i candidates
    have htaken : Clean { s.clear with generation, candidates, index := some 0 } := h candidates rfl
    exact ⟨htaken, fun text htext => htaken.shown htext⟩

theorem Clean.rotate (h : s.Clean) (generation : Nat) (forward : Bool) :
    (s.rotate generation forward).2.Clean ∧
      ∀ text, (s.rotate generation forward).1 = some ⟨text, .completion⟩ → Text.Clean text.toList := by
  unfold Suggestion.rotate
  split
  · exact ⟨nofun, nofun⟩
  · split
    · exact ⟨h, nofun⟩
    · have hturned : Clean { s with index := turn s.candidates.length forward s.index } := h
      exact ⟨hturned, fun text htext => hturned.shown htext⟩

end Suggestion

/-! ### Keys that have been sent -/

namespace Decoder

theorem sent_call {d : Decoder} {story : List Piece} (h : d.Behind story) (c : Call) :
    (∀ k ∈ (d.call c).1, k.Sent) ∧ ∃ story', (d.call c).2.Behind story' := by
  cases c with
  | feed chunk =>
      obtain ⟨added, _, _, hbehind, hsent⟩ := feed_tells h chunk
      exact ⟨hsent, _, hbehind⟩
  | flush =>
      obtain ⟨added, _, _, hbehind, hsent⟩ := flush_tells h
      exact ⟨hsent, _, hbehind⟩

end Decoder

/-! ### Engines -/

namespace Engine

structure Clean (e : Engine) : Prop where
  buffer : e.buffer.Clean
  suggestion : e.suggestion.Clean
  history : e.history.history.Clean
  search : ∀ search, e.mode = .search search → search.Clean
  decoder : ∃ story, e.decoder.Behind story

variable {e : Engine}

theorem Clean.withBuffer (h : e.Clean) {b : Buffer} (hb : b.Clean) : (e.withBuffer b).Clean :=
  { h with buffer := hb }

theorem Clean.suggest (h : e.Clean) {suggestion : Suggestion} (hs : suggestion.Clean) :
    ({ e with suggestion } : Engine).Clean :=
  { h with suggestion := hs }

theorem Clean.remember (h : e.Clean) {history : HistoryStore} (hh : history.history.Clean) :
    ({ e with history } : Engine).Clean :=
  { h with history := hh }

theorem Clean.normal (h : e.Clean) : ({ e with mode := .normal } : Engine).Clean :=
  { h with search := nofun }

theorem Clean.draw (h : e.Clean) (act : Screen → List Command × Screen) : (e.draw act).Clean :=
  { h with }

theorem Clean.issue (h : e.Clean) (job : Job) : (e.issue job).Clean :=
  { h with }

theorem Clean.paint (h : e.Clean) : e.paint.Clean := by
  unfold Engine.paint
  split
  · exact h.draw _
  · exact h.draw _

theorem Clean.requestPreview (h : e.Clean) : e.requestPreview.Clean := by
  unfold Engine.requestPreview
  split
  · exact h.issue _
  · exact h

theorem Clean.schedule (h : e.Clean) : e.schedule.Clean := by
  have hcleared : ({ e with scheduled := some e.buffer.generation, suggestion := e.suggestion.clear } : Engine).Clean :=
    { h with suggestion := .clear }
  unfold Engine.schedule
  split
  · exact h
  · dsimp only
    split
    · exact hcleared
    · split
      · exact hcleared.issue _
      · exact hcleared.requestPreview

theorem Clean.refresh (h : e.Clean) : e.refresh.Clean :=
  h.paint.schedule

/-! ### Events -/

theorem Clean.showSuffix (h : e.Clean) {suffix : Suffix}
    (hsuffix : ∀ s, suffix = ⟨s, .completion⟩ → Text.Clean s.toList) : (e.showSuffix suffix).Clean := by
  have hshown : (e.buffer.setSuffix (some suffix)).Clean :=
    h.buffer.setSuffix fun s hs => hsuffix s (Option.some.inj hs)
  exact (h.withBuffer hshown).paint

theorem Clean.showListing (h : e.Clean) (listing : String) : (e.showListing listing).Clean := by
  have hbare : (e.withBuffer (e.buffer.setSuffix none)).paint.Clean := (h.withBuffer h.buffer.bare).paint
  exact ((hbare.withBuffer h.buffer).draw _).paint

theorem Clean.onPartly (h : e.Clean) {generation : Nat} {result : Option Assist.Completion}
    (hevent : (Event.completed generation .partly result).Clean) : (e.onPartly generation result).Clean := by
  obtain ⟨htaken, hshown⟩ := Suggestion.clean_take (s := e.suggestion) hevent
  unfold Engine.onPartly
  dsimp only
  split
  · rename_i suffix hsuffix
    refine (h.suggest htaken).showSuffix fun s hs => hshown s ?_
    rw [hsuffix, hs]
  · exact (h.suggest htaken).requestPreview

theorem Clean.onFull (h : e.Clean) {generation : Nat} {result : Option Assist.Completion}
    (hevent : (Event.completed generation .full result).Clean) : (e.onFull result).Clean := by
  have hcleared : ({ e with suggestion := e.suggestion.clear } : Engine).Clean := h.suggest .clear
  unfold Engine.onFull
  dsimp only
  split
  · rename_i text hinsert
    have htext := hevent [text] (Suggestion.resolve_insert hinsert) text (List.mem_singleton.mpr rfl)
    exact (hcleared.withBuffer (h.buffer.insert htext)).refresh
  · exact hcleared.showListing _
  · exact hcleared

theorem Clean.onPreview (h : e.Clean) (text : Option String) : (e.onPreview text).Clean := by
  unfold Engine.onPreview
  split
  · split
    · exact h
    · exact h.showSuffix nofun
  · exact h

theorem Clean.onEvent (h : e.Clean) {event : Event} (hevent : event.Clean) : (e.onEvent event).Clean := by
  unfold Engine.onEvent
  split
  · exact h
  · cases event with
    | historyLoaded lines =>
        refine h.remember ?_
        rw [HistoryStore.history_install]
        exact h.history.install hevent
    | completed generation mode result =>
        cases mode with
        | partly => exact h.onPartly hevent
        | full => exact h.onFull hevent
    | previewed generation text => exact h.onPreview text

/-! ### Keys -/

theorem Clean.recallLine (h : e.Clean) {step : History → Option String × History} (hstep : History.Walks step) :
    (e.recallLine step).Clean := by
  have hwalked : ({ e with history := (e.history.walk step).2 } : Engine).Clean := by
    refine h.remember fun s hs => h.history s ?_
    rw [← hstep.entries e.history.history]
    exact hs
  unfold Engine.recallLine
  dsimp only
  split
  · rename_i line hline
    refine hwalked.withBuffer (h.buffer.replace ?_ _)
    rcases hstep.line e.history.history line hline with rfl | hentry
    · exact Text.clean_nil
    · exact h.history line hentry
  · exact hwalked

theorem Clean.rotate (h : e.Clean) (forward : Bool) : (e.rotate forward).Clean := by
  obtain ⟨hrotated, hshown⟩ := h.suggestion.rotate e.buffer.generation forward
  exact (h.suggest hrotated).withBuffer (h.buffer.setSuffix hshown)

theorem Clean.resetLine (h : e.Clean) : e.resetLine.Clean :=
  h.withBuffer (h.buffer.reset _)

theorem Clean.endRecall (h : e.Clean) : e.endRecall.Clean :=
  h.remember h.history

theorem Clean.interrupt (h : e.Clean) : e.interrupt.2.Clean := by
  have hdisarmed : ∀ armed, ({ e with armed } : Engine).Clean := fun _ => { h with }
  unfold Engine.interrupt
  split
  · exact (hdisarmed false).resetLine.endRecall
  · split
    · exact (hdisarmed false).draw Screen.newline
    · exact ((hdisarmed true).draw Screen.newline).draw (·.print (e.settings.exitConfirmMessage ++ "\n"))

theorem Clean.submit (h : e.Clean) : e.submit.2.Clean := by
  have hend : (e.buffer.setSuffix none).toEnd.2.Clean :=
    h.buffer.bare.edit (h.buffer.bare.sides.1.append h.buffer.bare.sides.2) Text.clean_nil
  have hleft := (h.withBuffer hend).paint.draw Screen.newline
  unfold Engine.submit
  dsimp only
  split
  · exact hleft.resetLine
  · exact hleft

theorem Clean.onOutcome (h : e.Clean) {statement : String} (hstatement : Text.Lined statement.toList)
    (outcome : LineOutcome) : (e.onOutcome statement outcome).Clean := by
  cases outcome with
  | needsAnotherLine => exact (h.withBuffer (h.buffer.continueLine _)).suggest .clear
  | output text =>
      have hrecorded : (e.history.append statement).history.Clean := by
        rw [HistoryStore.history_append]
        exact h.history.append hstatement
      have hshown : (e.draw (·.print text)).Clean := h.draw _
      unfold Engine.onOutcome
      dsimp only
      split
      · exact (hshown.remember hrecorded).resetLine.suggest .clear
      · exact ((hshown.draw _).remember hrecorded).resetLine.suggest .clear

theorem Clean.act (h : e.Clean) {action : Action} (haction : ∀ s, action = .insert s → Text.Clean s.toList) :
    (e.act action).2.Clean := by
  obtain ⟨hbefore, hafter⟩ := h.buffer.sides
  cases action with
  | insert s => exact (h.withBuffer (h.buffer.insert (haction s rfl))).endRecall
  | left => exact h.withBuffer (h.buffer.move _)
  | right => exact h.withBuffer (h.buffer.move _)
  | wordLeft => exact h.withBuffer h.buffer.wordLeft
  | wordRight => exact h.withBuffer h.buffer.wordRight
  | toStart => exact h.withBuffer (h.buffer.edit Text.clean_nil (hbefore.append hafter))
  | toEnd => exact h.withBuffer (h.buffer.edit (hbefore.append hafter) Text.clean_nil)
  | deleteBackward => exact h.withBuffer (h.buffer.edit (hbefore.sublist (List.dropLast_sublist _)) hafter)
  | deleteForward => exact h.withBuffer (h.buffer.edit hbefore (hafter.sublist (List.drop_sublist ..)))
  | deleteWordBackward => exact h.withBuffer (h.buffer.edit (hbefore.sublist (List.take_sublist ..)) hafter)
  | deleteToEnd => exact h.withBuffer (h.buffer.edit hbefore Text.clean_nil)
  | deleteToStart => exact h.withBuffer (h.buffer.edit Text.clean_nil hafter)
  | older => exact h.recallLine History.walks_previous
  | newer => exact h.recallLine History.walks_next
  | search =>
      refine { h with search := ?_ }
      intro search hmode
      cases hmode
      exact ⟨Text.clean_nil, nofun⟩
  | accept => exact h.withBuffer h.buffer.accept
  | complete =>
      dsimp only [Engine.act]
      split
      · exact h
      · exact h.issue _
  | nextCandidate => exact h.rotate true
  | previousCandidate => exact h.rotate false
  | dismiss => exact h.withBuffer h.buffer.bare
  | submit => exact h.submit
  | clearScreen => exact h.draw Screen.clear
  | interrupt => exact h.interrupt
  | endOfInput => exact h.draw Screen.newline
  | unsupported => exact h

theorem Clean.pressNormal (h : e.Clean) {k : Key} (hk : k.Sent) : (e.pressNormal k).2.Clean := by
  have haction : ∀ s, k.action e.context = .insert s → Text.Clean s.toList := by
    intro s hs
    obtain ⟨htext, rfl⟩ := Key.text_of_insert hs
    exact hk.text htext
  unfold Engine.pressNormal
  dsimp only
  split
  · exact h.act haction
  · have hdisarmed : ({ e with armed := false } : Engine).Clean := { h with }
    exact hdisarmed.act haction

theorem Clean.lookUp (h : e.Clean) {s : Search} (hquery : Text.Clean s.query.toList) : (e.lookUp s).Clean := by
  unfold Engine.lookUp
  split
  · exact ⟨hquery, nofun⟩
  · dsimp only
    split
    · exact ⟨hquery, nofun⟩
    · refine ⟨hquery, fun entry hentry => h.history entry ?_⟩
      exact List.mem_of_mem_filter (List.mem_of_getElem? hentry)

theorem Clean.pressSearch (h : e.Clean) {s : Search} (hs : s.Clean) {k : Key} (hk : k.Sent) :
    (e.pressSearch s k).2.Clean := by
  have hlook : ∀ s : Search, Text.Clean s.query.toList → ({ e with mode := .search (e.lookUp s) } : Engine).Clean := by
    intro s hquery
    refine { h with search := ?_ }
    intro search hmode
    cases hmode
    exact h.lookUp hquery
  unfold Engine.pressSearch
  dsimp only
  split
  · rename_i text hadd
    refine hlook _ ?_
    obtain ⟨htext, rfl⟩ := text_of_add hadd
    rw [String.toList_append]
    exact hs.query.append (hk.text htext)
  · refine hlook _ ?_
    rw [String.toList_ofList]
    exact hs.query.sublist (List.dropLast_sublist _)
  · exact hlook _ hs.query
  · exact h.normal.withBuffer h.buffer.clear
  · exact h.normal.draw Screen.newline
  · refine h.normal.withBuffer (h.buffer.replace ?_ _)
    cases hfound : s.found with
    | none => exact Text.clean_nil
    | some entry => exact hs.found entry hfound

theorem Clean.press (h : e.Clean) {k : Key} (hk : k.Sent) : (e.press k).2.Clean := by
  unfold Engine.press
  split
  · exact h.pressNormal hk
  · rename_i s hmode
    exact h.pressSearch (h.search s hmode) hk

variable (handler : LineHandler σ)

theorem Clean.key (h : e.Clean) {k : Key} (hk : k.Sent) (s : σ) : (e.key handler k s).2.1.Clean := by
  have hpress := h.press hk
  refine key_keeps handler hpress (fun statement e' hpressed outcome => ?_) s
  rw [hpressed] at hpress
  refine hpress.onOutcome ?_ outcome
  rw [statement_of_evaluate hpressed]
  exact h.buffer.lined

theorem Clean.keys (h : e.Clean) {ks : List Key} (hks : ∀ k ∈ ks, k.Sent) (s : σ) :
    (e.keys handler ks s).2.1.Clean :=
  keys_keep handler (fun _ he k hk => he.key handler (hks k hk)) h s

theorem Clean.keysThenRefresh (h : e.Clean) {ks : List Key} (hks : ∀ k ∈ ks, k.Sent) (s : σ) :
    (e.keysThenRefresh handler ks s).2.1.Clean :=
  keysThenRefresh_keeps handler (fun _ he => he.refresh) (h.keys handler hks s)

/-- The keys of a chunk or a pause, and the engine that is about to take them. -/
theorem Clean.call (h : e.Clean) (c : Decoder.Call) :
    (∀ k ∈ (e.decoder.call c).1, k.Sent) ∧ ({ e with decoder := (e.decoder.call c).2 } : Engine).Clean := by
  obtain ⟨story, hbehind⟩ := h.decoder
  obtain ⟨hsent, hbehind'⟩ := Decoder.sent_call hbehind c
  exact ⟨hsent, { h with decoder := hbehind' }⟩

/-! ### The texts of an engine -/

/-- The line, what is sought and found, and the history. -/
def texts (e : Engine) : List String :=
  let searched :=
    match e.mode with
    | .normal => []
    | .search search => search.query :: search.found.toList
  e.buffer.text :: searched ++ e.history.history.entries

theorem Clean.texts (h : e.Clean) : ∀ text ∈ e.texts, Text.Clean text.toList := by
  intro text htext
  unfold Engine.texts at htext
  rcases List.mem_cons.mp htext with rfl | htext
  · exact h.buffer.text
  rcases List.mem_append.mp htext with hsearched | hentry
  · cases hmode : e.mode with
    | normal =>
        rw [hmode] at hsearched
        cases hsearched
    | search search =>
        have hsearch := h.search search hmode
        rw [hmode] at hsearched
        rcases List.mem_cons.mp hsearched with rfl | hfound
        · exact hsearch.query
        · exact hsearch.found text (Option.mem_toList.mp hfound)
  · exact h.history text hentry

theorem clean_new (settings : Settings) (highlighter : String → String) (capacity : Nat) (backing : Option Backing)
    (columns : Nat) : (new settings highlighter { history := { capacity }, backing } columns).Clean where
  buffer := Buffer.clean_new _
  suggestion := nofun
  history := nofun
  search := nofun
  decoder := ⟨[], Decoder.behind_nil⟩

end Engine

namespace Occasion

variable (handler : LineHandler σ)

theorem clean_apply {e : Engine} (h : e.Clean) (s : σ) {o : Occasion}
    (ho : ∀ event, o = .delivery event → event.Clean) : (o.apply handler e s).1.Clean := by
  cases o with
  | chunk bytes =>
      obtain ⟨hsent, hdecoded⟩ := h.call (.feed bytes)
      exact hdecoded.keysThenRefresh handler hsent s
  | flush =>
      obtain ⟨hsent, hdecoded⟩ := h.call .flush
      exact hdecoded.keysThenRefresh handler hsent s
  | delivery event => exact h.onEvent (ho event rfl)
  | resize columns =>
      have hresized : (e.setColumns columns).Clean := { h with }
      exact hresized.paint
  | refresh => exact h.refresh
  | collect => exact { h with }

theorem clean_applyAll {e : Engine} (h : e.Clean) (s : σ) {os : List Occasion}
    (hos : ∀ event, .delivery event ∈ os → event.Clean) : (applyAll handler e s os).1.Clean := by
  induction os generalizing e s with
  | nil => exact h
  | cons o os ih =>
      refine ih (clean_apply handler h s fun event ho => ?_) _ fun event hevent => ?_
      · exact hos event (ho ▸ List.mem_cons_self ..)
      · exact hos event (List.mem_cons_of_mem o hevent)

/-- Behind any key of any chunk, and behind anything else that happens, no text of the engine holds a control character,
if what came from the background held none. So all of them are as wide as their characters. -/
theorem texts_uncontrolled (settings : Settings) (highlighter : String → String) (capacity : Nat)
    (backing : Option Backing) (columns : Nat) (handler : LineHandler σ) (s : σ) (os : List Occasion)
    (hos : ∀ event, .delivery event ∈ os → event.Clean) (c : Decoder.Call) (n : Nat) :
    let first := Engine.new settings highlighter { history := { capacity }, backing } columns
    let (e, s') := applyAll handler first s os
    let (ks, decoder) := e.decoder.call c
    let (_, e', _) := ({ e with decoder } : Engine).keys handler (ks.take n) s'
    ∀ text ∈ e'.texts, Text.Clean text.toList ∧ Text.displayWidth text = Text.columnsOf text.toList := by
  intro first
  have hclean := clean_applyAll handler (Engine.clean_new settings highlighter capacity backing columns) s hos
  obtain ⟨hsent, hdecoded⟩ := hclean.call c
  have htaken : ∀ k ∈ ((applyAll handler first s os).1.decoder.call c).1.take n, k.Sent :=
    fun k hk => hsent k (List.mem_of_mem_take hk)
  have hkeys := hdecoded.keys handler htaken (applyAll handler first s os).2
  intro text htext
  have htext := hkeys.texts text htext
  exact ⟨htext, htext.displayWidth_eq⟩

/-- A candidate is taken into a statement of two lines, and a search finds a line that was loaded. -/
theorem texts_uncontrolled_found :
    let handler := Engine.sessionHandler []
    let first := Engine.new {} id (.inMemory 10) 80
    let os : List Occasion :=
      [.chunk [0x28], .delivery (.completed 1 .partly (some (.candidates ["1"]))), .chunk [0x06, 0x0d, 0x29, 0x0d],
        .delivery (.historyLoaded ["let a"]), .chunk [0x12]]
    let (e, s) := applyAll handler first ({}, .fresh 0) os
    let (ks, decoder) := e.decoder.call (.feed [0x6c])
    let (_, e', _) := ({ e with decoder } : Engine).keys handler (ks.take 1) s
    (∀ event, .delivery event ∈ os → event.Clean) ∧ e'.texts = ["", "l", "let a", "(1 )", "let a"] ∧
      ∀ text ∈ e'.texts, Text.Clean text.toList ∧ Text.displayWidth text = Text.columnsOf text.toList := by
  intro handler first os
  have hos : ∀ event, .delivery event ∈ os → event.Clean := by
    intro event hevent
    simp only [os, List.mem_cons, List.not_mem_nil, reduceCtorEq, delivery.injEq, false_or, or_false] at hevent
    rcases hevent with rfl | rfl
    · intro texts htexts s hs
      cases htexts
      rw [List.mem_singleton.mp hs]
      decide
    · intro s hs
      rw [List.mem_singleton.mp hs]
      decide
  refine ⟨hos, by decide +kernel, ?_⟩
  exact texts_uncontrolled {} id 10 none 80 handler ({}, .fresh 0) os hos (.feed [0x6c]) 1

end Occasion

end Console

end ScriptRepl
