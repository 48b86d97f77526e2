import ScriptRepl.Console.History
import ScriptRepl.Json.Skip
import ScriptRepl.Json.Typed
import ScriptRepl.Text.Style

/-! The settings of the console and the file they are read from. -/
namespace ScriptRepl.Console

open Json (Reader Fault)
open Text (Color)

structure Settings where
  prompt : String := "> "
  continuationPrompt : String := "... "
  historySize : Nat := History.defaultCapacity
  historyFile : Option String := none
  persistHistory : Bool := true
  eagerEval : Bool := true
  eagerTimeoutMs : Nat := 250
  previewMaxLen : Nat := 120
  ghostColor : String := "dark_grey"
  matchColor : String := "reset"
  exitConfirmMessage : String := "(To exit, press Ctrl+C again or Ctrl+D)"
  heading : Option String := none
  deriving DecidableEq, Repr

inductive SettingsError where
  | missingFile
  | malformed (fault : Fault)

namespace Settings

/-- The colour of what is shown behind the line. -/
def ghost (s : Settings) : Color :=
  (Color.ofName? s.ghostColor).getD .darkGrey

/-- The colour of the searched text in a line that was found. -/
def highlight (s : Settings) : Color :=
  (Color.ofName? s.matchColor).getD .reset

/-- A field of the file: its name, and how its value changes the settings. -/
structure Field where
  name : String
  read : Settings → Reader Settings

/-- The fields, in the order in which a list gives them. -/
def fields : List Field :=
  [⟨"prompt", fun s => return { s with prompt := ← text }⟩,
   ⟨"continuation_prompt", fun s => return { s with continuationPrompt := ← text }⟩,
   ⟨"history_size", fun s => return { s with historySize := ← Reader.typedNat "usize" }⟩,
   ⟨"history_file", fun s => return { s with historyFile := ← Reader.nullable (Reader.typedText "path string") }⟩,
   ⟨"persist_history", fun s => return { s with persistHistory := ← truth }⟩,
   ⟨"eager_eval", fun s => return { s with eagerEval := ← truth }⟩,
   ⟨"eager_timeout_ms", fun s => return { s with eagerTimeoutMs := ← Reader.typedNat "u64" }⟩,
   ⟨"preview_max_len", fun s => return { s with previewMaxLen := ← Reader.typedNat "usize" }⟩,
   ⟨"ghost_color", fun s => return { s with ghostColor := ← text }⟩,
   ⟨"match_color", fun s => return { s with matchColor := ← text }⟩,
   ⟨"exit_confirm_message", fun s => return { s with exitConfirmMessage := ← text }⟩,
   ⟨"heading", fun s => return { s with heading := ← Reader.nullable text }⟩]
where
  text : Reader String := Reader.typedText "a string"
  truth : Reader Bool := Reader.typedBool "a boolean"

/-- Settings as a list: values of the fields in their order. Fields that are left out keep their values. -/
def ofItems (s : Settings) : (first : Bool) → List Field → Reader Settings
  | _, [] => return s
  | first, field :: rest => do
    if ← Reader.nextItem first then ofItems (← field.read s) false rest else return s

/-- A field that was given before. The fault lies after the end of the object, if that is what follows. -/
def duplicate (name : String) : Reader α := do
  if (← Reader.peekPastSpace) = some '\x7d' then Reader.advance 1
  Reader.failHere (.duplicateField name)

/-- One field of an object; a field with an unknown name is passed over. -/
def ofField (seen : List String × Settings) (name : String) : Reader (List String × Settings) := do
  let (names, s) := seen
  match fields.find? (·.name = name) with
  | none => do
    Reader.colon
    Reader.skip
    return seen
  | some field =>
    if name ∈ names then duplicate name
    else
      Reader.colon
      return (name :: names, ← field.read s)

def reader : Reader Settings := do
  match ← Reader.firstOfValue with
  | '[' => do
    Reader.advance 1
    let s ← ofItems {} true fields
    Reader.endList
    return s
  | '\x7b' => do
    Reader.advance 1
    let (_, s) ← Reader.fields ofField (← Reader.remaining) true ([], {})
    Reader.endObject
    return s
  | _ => Reader.wrongType "struct EngineConfig"

/-- Reads the content of a settings file, if there is a file. -/
def read : Option String → Except SettingsError Settings
  | none => .error .missingFile
  | some content => (Reader.whole reader content).mapError .malformed

/-- The defaults stand in for settings that cannot be read. -/
def load (content : Option String) : Settings :=
  match read content with
  | .ok s => s
  | .error _ => {}

end Settings

def SettingsError.message (path : String) (content : Option String) : SettingsError → String
  | missingFile =>
    let cause := "No such file or directory (os error 2)"
    "failed to read config " ++ path ++ ": " ++ cause ++ ": " ++ cause
  | malformed fault =>
    let cause := fault.message (content.getD "")
    "invalid config " ++ path ++ ": " ++ cause ++ ": " ++ cause

def fatalMessage (context cause : String) : String :=
  "tern: " ++ context ++ ": " ++ cause

end ScriptRepl.Console
