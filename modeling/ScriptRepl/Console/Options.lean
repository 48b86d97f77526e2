import ScriptRepl.Console.Settings

/-! The command line, and where the files of a user are. -/
namespace ScriptRepl.Console

structure Options where
  /-- The settings file to read in place of the user's own. -/
  config : Option String := none
  noHistory : Bool := false
  noEager : Bool := false
  heading : Option String := none
  deriving DecidableEq, Repr

namespace Options

/-- Reads the arguments in turn; the message names the first one that is not understood. -/
def parse (o : Options) : List String → Except String Options
  | [] => .ok o
  | "--no-history" :: rest => parse { o with noHistory := true } rest
  | "--no-eager" :: rest => parse { o with noEager := true } rest
  | "--config" :: path :: rest | "-c" :: path :: rest => parse { o with config := some path } rest
  | "--heading" :: text :: rest => parse { o with heading := some text } rest
  | argument :: _ => .error ("unexpected argument " ++ argument)

def apply (o : Options) (s : Settings) : Settings :=
  { s with
    persistHistory := s.persistHistory && !o.noHistory
    eagerEval := s.eagerEval && !o.noEager
    heading := o.heading <|> s.heading }

end Options

/-- A file of a user: in the directory that the environment names, or else in the one below the user's own. -/
def userFile (named home : Option String) (below name : String) : Option String :=
  let directory := named <|> home.map fun home => home ++ "/" ++ below
  directory.map fun directory => directory ++ "/tern/" ++ name

def directoryOf (path : String) : String :=
  String.ofList (path.toList.reverse.dropWhile (· ≠ '/')).reverse

end ScriptRepl.Console
