import ScriptRepl.Console.Press

/-! Input as it comes: chunks of bytes, each of which gives keys and ends with a repaint. -/
namespace ScriptRepl.Console

/-- Whoever evaluates submitted statements, with a state of its own. -/
abbrev LineHandler (σ : Type) := String → StateM σ LineOutcome

inductive Flow where
  | goOn
  | exit (reason : ExitReason)
  deriving DecidableEq, Repr

namespace Engine

/-- One key; a statement that it submits is evaluated at once. -/
def key (handler : LineHandler σ) (e : Engine) (k : Key) (s : σ) : Flow × Engine × σ :=
  match e.press k with
  | (.goOn, e) => (.goOn, e, s)
  | (.exit reason, e) => (.exit reason, e, s)
  | (.evaluate statement, e) =>
    let (outcome, s) := handler statement s
    (.goOn, e.onOutcome statement outcome, s)

/-- Keys in turn. After a key that exits the others are dropped. -/
def keys (handler : LineHandler σ) (e : Engine) : List Key → σ → Flow × Engine × σ
  | [], s => (.goOn, e, s)
  | k :: ks, s =>
    match e.key handler k s with
    | (.goOn, e, s) => e.keys handler ks s
    | (.exit reason, e, s) => (.exit reason, e, s)

/-- Keys that came together; the line is painted after the last one. -/
def keysThenRefresh (handler : LineHandler σ) (e : Engine) (ks : List Key) (s : σ) : Flow × Engine × σ :=
  match e.keys handler ks s with
  | (.goOn, e, s) => (.goOn, e.refresh, s)
  | left => left

def feed (handler : LineHandler σ) (e : Engine) (chunk : List UInt8) (s : σ) : Flow × Engine × σ :=
  let (ks, decoder) := e.decoder.feed chunk
  { e with decoder }.keysThenRefresh handler ks s

/-- No byte has followed the beginning of an escape sequence for a while. -/
def flushEscape (handler : LineHandler σ) (e : Engine) (s : σ) : Flow × Engine × σ :=
  let (ks, decoder) := e.decoder.flush
  { e with decoder }.keysThenRefresh handler ks s

def chunks (handler : LineHandler σ) (e : Engine) : List (List UInt8) → σ → ExitReason × Engine × σ
  | [], s => (.endOfInput, e, s)
  | chunk :: rest, s =>
    match e.feed handler chunk s with
    | (.goOn, e, s) => e.chunks handler rest s
    | (.exit reason, e, s) => (reason, e, s)

/-- From the first painting until a key leaves or the input ends. -/
def run (handler : LineHandler σ) (e : Engine) (input : List (List UInt8)) (s : σ) : ExitReason × Engine × σ :=
  e.refresh.chunks handler input s

/-! ### With a session on a host -/

def sessionHandler (down : List Outage) : LineHandler (Session × Host) := fun line (session, host) =>
  let ((outcome, session), host) := (session.onLine line).run down host
  (outcome, session, host)

/-- The budget that the settings give a preview; only one of nothing is ever used up. -/
def previewTicks (e : Engine) : Option Nat :=
  if e.settings.eagerTimeoutMs = 0 then some 0 else none

/-- Does a job without a break, a preview within a budget of `ticks`. -/
def doJob (down : List Outage) (ticks : Option Nat) (job : Job) (host : Host) : Event × Host :=
  let (number, host) := host.takeGroup
  (job.request ticks number).run down host

end Engine

end ScriptRepl.Console
