import ScriptRepl.Console.Options
import ScriptRepl.Console.Run
import ScriptRepl.Syntax.Highlight

/-! The program: it reads bytes from standard input, which a terminal in raw mode sends as they are typed, and
writes what the engine says to standard output. Background work is done between two chunks of input. -/
namespace ScriptRepl.Main

open Console

structure Program where
  engine : Engine
  session : Session := {}
  host : Host

namespace Program

def write (text : String) : IO Unit := do
  let out ← IO.getStdout
  out.putStr text
  out.flush

def flush (p : Program) : IO Program := do
  let (commands, engine) := p.engine.takeOutput
  write (String.join (commands.map Command.text))
  return { p with engine }

/-- Evaluates a statement; what it prints comes before its output. -/
def evaluate (p : Program) (statement : String) : IO Program := do
  let p ← p.flush
  let (outcome, session, host) := Engine.sessionHandler [] statement (p.session, p.host)
  for line in host.realm.printed.toList.drop p.host.realm.printed.size do
    write (String.ofList (Screen.rawLines '\x00' (line ++ "\n").toList))
  return { engine := p.engine.onOutcome statement outcome, session, host }

def press (p : Program) : List Key → IO (Flow × Program)
  | [] => return (.goOn, { p with engine := p.engine.refresh })
  | k :: ks => do
    match p.engine.press k with
    | (.goOn, engine) => press { p with engine } ks
    | (.exit reason, engine) => return (.exit reason, { p with engine })
    | (.evaluate statement, engine) => press (← evaluate { p with engine } statement) ks

def doJob (p : Program) (job : Job) : Program :=
  let (event, host) := Engine.doJob [] p.engine.previewTicks job p.host
  { p with engine := p.engine.onEvent event, host }

def doJobs (p : Program) : Program :=
  let (jobs, engine) := p.engine.takeJobs
  jobs.foldl doJob { p with engine }

/-- Does all jobs, also those that their results give rise to. -/
partial def settle (p : Program) : IO Program := do
  if p.engine.jobs.isEmpty then return p
  else p.doJobs.settle

/-- The content of the history file, if the history has been written. -/
def historyContent (p : Program) : Option String :=
  p.engine.history.backing.bind (·.disk.read?)

def saveHistory (path : Option String) (old new : Program) : IO Unit := do
  match path, new.historyContent with
  | some path, some content =>
    if old.historyContent ≠ some content then
      try
        IO.FS.createDirAll (directoryOf path)
        IO.FS.writeFile path content
      catch _ => return
  | _, _ => return

partial def loop (path : Option String) (p : Program) : IO Unit := do
  let p ← (← p.settle).flush
  let chunk ← (← IO.getStdin).read 1024
  if chunk.isEmpty then return
  let (ks, decoder) := p.engine.decoder.feed chunk.toList
  let (flow, next) ← { p with engine := { p.engine with decoder } }.press ks
  let next ← next.flush
  saveHistory path p next
  match flow with
  | .goOn => loop path next
  | .exit _ => return

end Program

def readFile (path : String) : IO FileEntry := do
  try return .text (← IO.FS.readFile path)
  catch
    | .noFileOrDirectory .. => return .missing
    | _ => return .illegible

def readSettings (o : Options) : IO Settings := do
  let path := o.config <|> userFile (← IO.getEnv "XDG_CONFIG_HOME") (← IO.getEnv "HOME") ".config" "config.json"
  match path with
  | none => return o.apply {}
  | some path =>
    match ← readFile path with
    | .text content => return o.apply (Settings.load (some content))
    | _ => return o.apply {}

def historyPath (s : Settings) : IO (Option String) := do
  if !s.persistHistory then return none
  return s.historyFile <|>
    userFile (← IO.getEnv "XDG_DATA_HOME") (← IO.getEnv "HOME") ".local/share" "history"

def openHistory (s : Settings) (path : Option String) : IO HistoryStore := do
  match path with
  | none => return .inMemory s.historySize
  | some path =>
    let disk : Disk := { entry := ← readFile path }
    return (HistoryStore.onDisk disk s.historySize).install (HistoryFile.load disk s.historySize)

def columns : IO Nat := do
  return ((← IO.getEnv "COLUMNS").bind String.toNat?).getD 80

def start (o : Options) : IO Unit := do
  let settings ← readSettings o
  let path ← historyPath settings
  let history ← openHistory settings path
  let engine := Engine.new settings Syntax.highlight history (← columns)
  let engine :=
    match settings.heading with
    | some heading => engine.draw (·.print (heading ++ "\n"))
    | none => engine
  let seed := (← IO.monoNanosNow).toUInt64
  Program.loop path { engine := engine.refresh, host := Host.fresh seed }

end ScriptRepl.Main

def main (args : List String) : IO UInt32 := do
  match ScriptRepl.Console.Options.parse {} args with
  | .ok options => do
    ScriptRepl.Main.start options
    return 0
  | .error message => do
    IO.eprintln (ScriptRepl.Console.fatalMessage "cannot start" message)
    return 2
