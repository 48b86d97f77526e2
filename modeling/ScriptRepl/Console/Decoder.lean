import ScriptRepl.Console.Key
import ScriptRepl.Number.Numeral
import ScriptRepl.Text.Utf8

/-! From the bytes a terminal sends to keys. The bytes may come in chunks that are cut anywhere; what is cut off is
held back in the state until the rest comes or `flush` gives it up. -/
namespace ScriptRepl.Console

/-- What has been read of an escape sequence. -/
inductive Sequence where
  | none
  /-- The escape character. -/
  | opened
  /-- The escape character, `[` and the parameters so far. -/
  | control (parameters : String)
  /-- The escape character and `O`. -/
  | application
  deriving DecidableEq, Repr

namespace Sequence

/-- One parameter of a control sequence; one that is missing or too large is 1. -/
def parameter (digits : List Char) : Nat :=
  if digits.isEmpty then 1
  else
    let n := Number.digitsToNat digits
    if n < Number.twoTo 32 then n else 1

/-- The key of a number that is followed by `~`. -/
def numbered : Nat → KeyName
  | 1 | 7 => .home
  | 2 => .insert
  | 3 => .delete
  | 4 | 8 => .endKey
  | 5 => .pageUp
  | 6 => .pageDown
  | _ => .unknown

def lettered (c : Char) : KeyName :=
  match c with
  | 'A' => .up
  | 'B' => .down
  | 'C' => .right
  | 'D' => .left
  | 'H' => .home
  | 'F' => .endKey
  | _ => .unknown

/-- A control sequence: the first parameter names the key if the last character is `~`, the second one holds the
modifiers. -/
def controlKey (parameters : String) (last : Char) : Key :=
  let fields := (parameters.toList.splitOn ';').map parameter
  let name := if last = '~' then numbered (fields.headD 1) else lettered last
  .ofSequence name ((fields.drop 1).headD 1) ("\x1b[" ++ parameters ++ last.toString)

def applicationKey (last : Char) : Key :=
  .ofSequence (lettered last) 1 ("\x1bO" ++ last.toString)

end Sequence

structure Decoder where
  sequence : Sequence := .none
  /-- The bytes of a character that is not complete. -/
  bytes : List UInt8 := []
  /-- The last character was a carriage return, which a line feed belongs to. -/
  afterReturn : Bool := false
  deriving DecidableEq, Repr

namespace Decoder

/-- Whether the beginning of an escape sequence is held back. -/
def isPending (d : Decoder) : Bool :=
  d.sequence ≠ .none

/-- One character: the key it completes, if any. -/
def step (d : Decoder) (c : Char) : Option Key × Decoder :=
  let next (sequence : Sequence) : Decoder := { d with sequence, afterReturn := false }
  match d.sequence with
  | .none =>
    if c = '\x1b' then (none, next .opened)
    else
      match Key.ofControl? c with
      | some key =>
        if d.afterReturn && c = '\n' then (none, next .none)
        else (some key, { next .none with afterReturn := key.name = .enter })
      | none => (some (.text c.toString), next .none)
  | .opened =>
    if c = '[' then (none, next (.control ""))
    else if c = 'O' then (none, next .application)
    else if c = '\x1b' then (some { name := .escape, sequence := "\x1b" }, next .opened)
    else (some (.ofAlt c), next .none)
  | .control parameters =>
    if c.isDigit || c = ';' then (none, next (.control (parameters.push c)))
    else (some (Sequence.controlKey parameters c), next .none)
  | .application => (some (Sequence.applicationKey c), next .none)

/-- One key for each character that inserts itself. -/
def keys (d : Decoder) : List Char → List Key × Decoder
  | [] => ([], d)
  | c :: cs =>
    let (key?, d) := d.step c
    let (ks, d) := d.keys cs
    (key?.toList ++ ks, d)

theorem keys_append (d : Decoder) (a b : List Char) :
    d.keys (a ++ b) = ((d.keys a).1 ++ ((d.keys a).2.keys b).1, ((d.keys a).2.keys b).2) := by
  induction a generalizing d with
  | nil => rfl
  | cons c a ih => simp [keys, ih, List.append_assoc]

/-- The keys of a chunk; characters to insert that follow each other are one key. -/
def feed (d : Decoder) (chunk : List UInt8) : List Key × Decoder :=
  let (cs, bytes) := Text.Utf8.decode (d.bytes ++ chunk)
  let (ks, d) := { d with bytes }.keys cs
  (Key.joinText ks, d)

/-- Gives up an escape sequence: the escape character alone is a key, and what follows it inserts itself. -/
def flush (d : Decoder) : List Key × Decoder :=
  let given :=
    match d.sequence with
    | .none => []
    | .opened => [{ name := .escape, sequence := "\x1b" }]
    | .control parameters => [.text ("[" ++ parameters)]
    | .application => [.text "O"]
  (given, { d with sequence := .none })

end Decoder

end ScriptRepl.Console
