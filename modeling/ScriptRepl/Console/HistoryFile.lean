import ScriptRepl.Console.History

/-! A history that is kept in a file. Nothing is written before the entries of the file have been installed, and
nothing after a write that failed. Trouble with the file never reaches the history itself. -/
namespace ScriptRepl.Console

inductive FileEntry where
  | missing
  | directory
  /-- A file that cannot be read as text. -/
  | illegible
  | text (content : String)
  deriving DecidableEq, Repr

/-- A path on a disk. `failing` says of each attempt to write whether it fails for reasons of its own. -/
structure Disk where
  entry : FileEntry := .missing
  attempts : Nat := 0
  failing : Nat → Bool := fun _ => false

namespace Disk

def read? (d : Disk) : Option String :=
  match d.entry with
  | .text content => some content
  | .missing | .directory | .illegible => none

/-- Replaces the content of the file, which is made if there is none. The answer says whether this was possible. -/
def write (d : Disk) (content : String) : Bool × Disk :=
  let fails := d.failing d.attempts || d.entry = .directory
  let d := { d with attempts := d.attempts + 1 }
  if fails then (false, d) else (true, { d with entry := .text content })

end Disk

namespace HistoryFile

/-- Drops the carriage return at the end of a line that a line feed ended. -/
def dropReturn (line : List Char) : List Char :=
  if line.getLast? = some '\r' then line.dropLast else line

/-- The lines of a text; each but the last ends with a line feed, and a last line that is empty is none. -/
def lines : List (List Char) → List (List Char)
  | [] => []
  | [last] => if last.isEmpty then [] else [last]
  | line :: rest => dropReturn line :: lines rest

def parse (content : String) : List String :=
  ((lines (content.toList.splitOn '\n')).filter fun line => !line.all Text.isBlank).map String.ofList

def render (entries : List String) : String :=
  "\n".intercalate entries ++ "\n"

/-- The first entries of a file. A file that is missing or cannot be read has none. -/
def load (d : Disk) (count : Nat) : List String :=
  match d.read? with
  | some content => (parse content).take count
  | none => []

end HistoryFile

structure Backing where
  disk : Disk
  /-- No write has failed. -/
  enabled : Bool := true
  installed : Bool := false
  /-- Writes wait in a queue that a writer works off. -/
  queued : Bool := false
  queue : List String := []

namespace Backing

def write (b : Backing) (content : String) : Backing :=
  let (written, disk) := b.disk.write content
  { b with disk, enabled := b.enabled && written }

/-- The writer takes the oldest content of the queue; it writes nothing once a write has failed. -/
def workOff (b : Backing) : Backing :=
  match b.queue with
  | [] => b
  | content :: queue =>
    let b := { b with queue }
    if b.enabled then b.write content else b

def drain (b : Backing) : Backing :=
  b.queue.foldl (fun b _ => b.workOff) b

def save (b : Backing) (entries : List String) : Backing :=
  if !b.installed || !b.enabled then b
  else
    let content := HistoryFile.render entries
    if b.queued then { b with queue := b.queue ++ [content] } else b.write content

end Backing

/-- A history with the place where it is kept, if there is one. -/
structure HistoryStore where
  history : History
  backing : Option Backing := none

namespace HistoryStore

def inMemory (capacity : Nat) : HistoryStore :=
  { history := { capacity } }

def onDisk (disk : Disk) (capacity : Nat) (queued : Bool := false) : HistoryStore :=
  { history := { capacity }, backing := some { disk, queued } }

def isPersistent (s : HistoryStore) : Bool :=
  s.backing.any (·.enabled)

def save (s : HistoryStore) : HistoryStore :=
  { s with backing := s.backing.map (·.save s.history.entries) }

def append (s : HistoryStore) (line : String) : HistoryStore :=
  if Text.isBlankText (History.oneLine line) then s
  else { s with history := s.history.append line }.save

/-- Installs the older entries. They are written only if there was an entry before: else the file holds them. -/
def install (s : HistoryStore) (older : List String) : HistoryStore :=
  let installed : HistoryStore :=
    { history := s.history.install older
      backing := s.backing.map fun b => { b with installed := true } }
  if s.history.entries.isEmpty then installed else installed.save

@[simp] theorem history_save (s : HistoryStore) : s.save.history = s.history := rfl

theorem history_append (s : HistoryStore) (line : String) : (s.append line).history = s.history.append line := by
  unfold append
  split
  · rename_i h
    simp [History.append, h]
  · rfl

theorem history_install (s : HistoryStore) (older : List String) :
    (s.install older).history = s.history.install older := by
  unfold install
  split <;> rfl

def walk (s : HistoryStore) (step : History → Option String × History) : Option String × HistoryStore :=
  let (entry, history) := step s.history
  (entry, { s with history })

def endRecall (s : HistoryStore) : HistoryStore :=
  { s with history := s.history.endRecall }

end HistoryStore

end ScriptRepl.Console
