import ScriptRepl.Console.Action
import ScriptRepl.Console.Engine
import ScriptRepl.Console.Session

/-! What a pressed key does to the engine. A key that submits the line leaves it open what becomes of it: that is
decided by whoever evaluates the statement. -/
namespace ScriptRepl.Console

inductive Response where
  | goOn
  | exit (reason : ExitReason)
  | evaluate (statement : String)
  deriving DecidableEq, Repr

namespace Engine

def context (e : Engine) : KeyContext where
  atEnd := e.buffer.atEnd
  isEmpty := e.buffer.isEmpty
  hasCompletion := e.buffer.completion?.isSome
  hasSuffix := e.buffer.suffix.isSome

def resetLine (e : Engine) : Engine :=
  e.withBuffer (e.buffer.reset e.settings.prompt)

def endRecall (e : Engine) : Engine :=
  { e with history := e.history.endRecall }

def recallLine (e : Engine) (step : History → Option String × History) : Engine :=
  let (entry, history) := e.history.walk step
  let e := { e with history }
  match entry with
  | some line => e.withBuffer (e.buffer.replace line line.utf8ByteSize)
  | none => e

def rotate (e : Engine) (forward : Bool) : Engine :=
  let (suffix, suggestion) := e.suggestion.rotate e.buffer.generation forward
  { e with suggestion, buffer := e.buffer.setSuffix suffix }

/-- An interrupt gives up the statement; if there is none, the second one in a row leaves. -/
def interrupt (e : Engine) : Response × Engine :=
  if !e.buffer.statement.isEmpty then
    (.goOn, { e with armed := false }.resetLine.endRecall)
  else if e.armed then (.exit .interrupted, { e with armed := false }.draw Screen.newline)
  else
    let e := { e with armed := true }.draw Screen.newline
    (.goOn, e.draw (·.print (e.settings.exitConfirmMessage ++ "\n")))

/-- Leaves the line and hands over its statement, unless that is blank. -/
def submit (e : Engine) : Response × Engine :=
  let statement := e.buffer.statement
  let left := (e.withBuffer (e.buffer.setSuffix none).toEnd.2).paint.draw Screen.newline
  if Text.isBlankText statement then (.goOn, left.resetLine) else (.evaluate statement, left)

def onOutcome (e : Engine) (statement : String) (outcome : LineOutcome) : Engine :=
  let e :=
    match outcome with
    | .needsAnotherLine => e.withBuffer (e.buffer.continueLine e.settings.continuationPrompt)
    | .output text =>
      let e := e.draw (·.print text)
      let e := if text.endsWith '\n' then e else e.draw Screen.newline
      { e with history := e.history.append statement }.resetLine
  { e with suggestion := e.suggestion.clear }

def act (e : Engine) : Action → Response × Engine
  | .insert text => (.goOn, (e.withBuffer (e.buffer.insert text)).endRecall)
  | .left => (.goOn, e.withBuffer (e.buffer.move (-1)).2)
  | .right => (.goOn, e.withBuffer (e.buffer.move 1).2)
  | .wordLeft => (.goOn, e.withBuffer e.buffer.wordLeft.2)
  | .wordRight => (.goOn, e.withBuffer e.buffer.wordRight.2)
  | .toStart => (.goOn, e.withBuffer e.buffer.toStart.2)
  | .toEnd => (.goOn, e.withBuffer e.buffer.toEnd.2)
  | .deleteBackward => (.goOn, e.withBuffer e.buffer.deleteBackward.2)
  | .deleteForward => (.goOn, e.withBuffer e.buffer.deleteForward.2)
  | .deleteWordBackward => (.goOn, e.withBuffer e.buffer.deleteWordBackward.2)
  | .deleteToEnd => (.goOn, e.withBuffer e.buffer.clearFromCursor.2)
  | .deleteToStart => (.goOn, e.withBuffer e.buffer.clearToCursor.2)
  | .older => (.goOn, e.recallLine History.previous)
  | .newer => (.goOn, e.recallLine History.next)
  | .search => (.goOn, { e with mode := .search {} })
  | .accept => (.goOn, e.withBuffer e.buffer.accept.2)
  | .complete => (.goOn, if e.buffer.isEmpty then e else e.requestCompletion .full)
  | .nextCandidate => (.goOn, e.rotate true)
  | .previousCandidate => (.goOn, e.rotate false)
  | .dismiss => (.goOn, e.withBuffer (e.buffer.setSuffix none))
  | .submit => e.submit
  | .clearScreen => (.goOn, e.draw Screen.clear)
  | .interrupt => e.interrupt
  | .endOfInput => (.exit .endOfInput, e.draw Screen.newline)
  | .unsupported => (.goOn, e)

/-- A key in normal mode. Any other key than an interrupt takes back what an interrupt asked for. -/
def pressNormal (e : Engine) (k : Key) : Response × Engine :=
  let action := k.action e.context
  let e := if action = .interrupt then e else { e with armed := false }
  e.act action

/-! ### Searching the history -/

/-- Looks for the entry that the search has come to; it stays on the oldest one that contains the text. -/
def lookUp (e : Engine) (s : Search) : Search :=
  if s.query.isEmpty then { s with found := none }
  else
    let entries := e.history.history.containing s.query
    if entries.isEmpty then { s with found := none }
    else
      let skip := min s.skip (entries.length - 1)
      { s with skip, found := entries[skip]? }

inductive SearchKey where
  | add (text : String)
  | remove
  | further
  | cancel
  | leave
  | accept
  deriving DecidableEq, Repr

/-- Any key that is no other one accepts what was found. -/
def searchKey (k : Key) (nothingTyped : Bool) : SearchKey :=
  let control := k.ctrl && !k.alt
  match k.name with
  | .text => if !k.ctrl && !k.alt then .add k.sequence else .accept
  | .backspace => .remove
  | .escape => .cancel
  | .char c =>
    if control && c = 'r' then .further
    else if control && (c = 'c' || c = 'g') then .cancel
    else if control && c = 'd' && nothingTyped then .leave
    else .accept
  | _ => .accept

def pressSearch (e : Engine) (s : Search) (k : Key) : Response × Engine :=
  let look (s : Search) : Response × Engine := (.goOn, { e with mode := .search (e.lookUp s) })
  match searchKey k (s.query.isEmpty && e.buffer.statement.isEmpty) with
  | .add text => look { s with query := s.query ++ text, skip := 0 }
  | .remove => look { s with query := String.ofList s.query.toList.dropLast, skip := 0 }
  | .further => look { s with skip := s.skip + 1 }
  | .cancel => (.goOn, { e with mode := .normal, buffer := e.buffer.clear })
  | .leave => (.exit .endOfInput, { e with mode := .normal }.draw Screen.newline)
  | .accept =>
    let line := s.found.getD ""
    (.goOn, { e with mode := .normal, buffer := e.buffer.replace line line.utf8ByteSize })

def press (e : Engine) (k : Key) : Response × Engine :=
  match e.mode with
  | .normal => e.pressNormal k
  | .search s => e.pressSearch s k

end Engine

end ScriptRepl.Console
