import ScriptRepl.Console.Background
import ScriptRepl.Console.Decoder
import ScriptRepl.Console.HistoryFile
import ScriptRepl.Console.Screen
import ScriptRepl.Console.Settings

/-! The state behind the line: what is edited, what is remembered, what is on the screen and what has been asked for
in the background. -/
namespace ScriptRepl.Console

/-- A search through the history, from the newest entry back. -/
structure Search where
  query : String := ""
  /-- How many of the entries that contain the text are passed over. -/
  skip : Nat := 0
  found : Option String := none
  deriving DecidableEq, Repr

inductive Mode where
  | normal
  | search (s : Search)
  deriving DecidableEq, Repr

inductive ExitReason where
  | interrupted
  | endOfInput
  deriving DecidableEq, Repr

structure Engine where
  settings : Settings
  /-- Colours a line without changing it. -/
  highlighter : String → String
  buffer : Buffer
  decoder : Decoder := {}
  history : HistoryStore
  suggestion : Suggestion := {}
  screen : Screen
  mode : Mode := .normal
  /-- The last key was an interrupt that asked for a second one. -/
  armed : Bool := false
  /-- The generation for which background work was last issued. -/
  scheduled : Option Nat := none
  /-- What has been written to the terminal and not been taken yet. -/
  output : List Command := []
  /-- The jobs that have been issued and not been taken yet. -/
  jobs : List Job := []

namespace Engine

def new (settings : Settings) (highlighter : String → String) (history : HistoryStore) (columns : Nat) : Engine :=
  { settings, highlighter, history
    buffer := { prompt := settings.prompt }
    screen := .ofColumns columns settings.ghost settings.highlight }

def takeOutput (e : Engine) : List Command × Engine :=
  (e.output, { e with output := [] })

def takeJobs (e : Engine) : List Job × Engine :=
  (e.jobs, { e with jobs := [] })

def setColumns (e : Engine) (columns : Nat) : Engine :=
  { e with screen := e.screen.setColumns columns }

def draw (e : Engine) (act : Screen → List Command × Screen) : Engine :=
  let (commands, screen) := act e.screen
  { e with screen, output := e.output ++ commands }

def withBuffer (e : Engine) (buffer : Buffer) : Engine :=
  { e with buffer }

def frame (e : Engine) : Frame where
  prompt := e.buffer.prompt
  line := e.highlighter e.buffer.text
  beforeCursor := e.buffer.beforeCursor
  suffix := e.buffer.suffix

def paint (e : Engine) : Engine :=
  match e.mode with
  | .normal => e.draw (·.render e.frame)
  | .search s => e.draw (·.renderSearch (s.found.map e.highlighter) s.query)

/-! ### Background work -/

def issue (e : Engine) (job : Job) : Engine :=
  { e with jobs := e.jobs ++ [job] }

def requestCompletion (e : Engine) (mode : CompletionMode) : Engine :=
  e.issue (.complete e.buffer.generation mode (e.buffer.committed ++ e.buffer.beforeCursor))

/-- Asks for the value of the statement so far, in one row of the screen. -/
def requestPreview (e : Engine) : Engine :=
  if e.settings.eagerEval then
    e.issue (.preview e.buffer.generation e.buffer.statement
      (min e.settings.previewMaxLen (e.screen.columns - 1)))
  else e

/-- Issues the background work for a line, once for each generation. -/
def schedule (e : Engine) : Engine :=
  if e.mode ≠ .normal || e.scheduled = some e.buffer.generation then e
  else
    let e := { e with scheduled := some e.buffer.generation, suggestion := e.suggestion.clear }
    if e.buffer.isEmpty then e
    else if e.buffer.atEnd then e.requestCompletion .partly
    else e.requestPreview

/-- Paints the line and issues what its change calls for. -/
def refresh (e : Engine) : Engine :=
  e.paint.schedule

/-! ### Results of background work -/

def showSuffix (e : Engine) (suffix : Suffix) : Engine :=
  (e.withBuffer (e.buffer.setSuffix (some suffix))).paint

/-- Writes a listing below the line and the line anew below it. -/
def showListing (e : Engine) (listing : String) : Engine :=
  let bare := (e.withBuffer (e.buffer.setSuffix none)).paint
  ((bare.withBuffer e.buffer).draw (·.print listing)).paint

/-- Whether an event is still of use: the line has not changed since, and it is on the screen. -/
def isCurrent (e : Engine) (event : Event) : Bool :=
  match event.generation? with
  | none => true
  | some generation => generation = e.buffer.generation && e.mode = .normal

def onPartly (e : Engine) (generation : Nat) (result : Option Assist.Completion) : Engine :=
  let (suffix, suggestion) := e.suggestion.take generation result
  let e := { e with suggestion }
  match suffix with
  | some suffix => e.showSuffix suffix
  | none => e.requestPreview

def onFull (e : Engine) (result : Option Assist.Completion) : Engine :=
  let e := { e with suggestion := e.suggestion.clear }
  match Suggestion.resolve result e.buffer.beforeCursor e.screen.columns with
  | .insert text => (e.withBuffer (e.buffer.insert text)).refresh
  | .listing text => e.showListing text
  | .nothing => e

/-- A preview is shown if nothing else is. -/
def onPreview (e : Engine) (text : Option String) : Engine :=
  match text, e.buffer.suffix with
  | some text, none => if text.isEmpty then e else e.showSuffix { text, kind := .preview }
  | _, _ => e

def onEvent (e : Engine) (event : Event) : Engine :=
  if !e.isCurrent event then e
  else
    match event with
    | .historyLoaded lines => { e with history := e.history.install lines }
    | .completed generation .partly result => e.onPartly generation result
    | .completed _ .full result => e.onFull result
    | .previewed _ text => e.onPreview text

end Engine

end ScriptRepl.Console
