/-! Keys as the terminal reports them: which key it is, the modifiers held with it and the characters it was sent
as. -/
namespace ScriptRepl.Console

inductive KeyName where
  /-- Characters to insert; they are the sequence of the key. -/
  | text
  /-- A character that is pressed together with a modifier. -/
  | char (c : Char)
  /-- What sends a carriage return. -/
  | enter
  | lineFeed
  | tab
  | backspace
  | delete
  | escape
  | up
  | down
  | left
  | right
  | home
  | endKey
  | insert
  | pageUp
  | pageDown
  | unknown
  deriving DecidableEq, Repr

structure Key where
  name : KeyName
  sequence : String
  ctrl : Bool := false
  alt : Bool := false
  shift : Bool := false
  deriving DecidableEq, Repr

namespace Key

def text (s : String) : Key :=
  { name := .text, sequence := s }

def isText (k : Key) : Bool :=
  k.name = .text

/-- A letter with the control key, which sends the letter's number in the alphabet. -/
def control (c : Char) : Key :=
  { name := .char (Char.ofNat (c.toNat + 0x60)), sequence := c.toString, ctrl := true }

/-- A key that comes after the escape character: the alt key is held with it. -/
def withAlt (c : Char) (k : Key) : Key :=
  { k with alt := true, sequence := String.ofList ['\x1b', c] }

/-- The key of a control character. The escape character is none, since it begins a sequence. -/
def ofControl? (c : Char) : Option Key :=
  let named (name : KeyName) : Option Key := some { name, sequence := c.toString }
  if c = '\r' then named .enter
  else if c = '\n' then named .lineFeed
  else if c = '\t' then named .tab
  else if c = '\x08' || c = '\x7f' then named .backspace
  else if '\x01' ≤ c && c ≤ '\x1a' then some (control c)
  else if c = '\x00' || ('\x1c' ≤ c && c ≤ '\x1f') then named .unknown
  else none

def ofAlt (c : Char) : Key :=
  (ofControl? c).getD { name := .char c, sequence := "", shift := c.isUpper } |>.withAlt c

/-- The modifiers of a sequence are sent as one more than the sum of 1 for shift, 2 for alt and 4 for control. -/
def ofSequence (name : KeyName) (modifiers : Nat) (sequence : String) : Key :=
  let bits := modifiers - 1
  { name, sequence, shift := bits.testBit 0, alt := bits.testBit 1, ctrl := bits.testBit 2 }

/-- Joins neighbouring keys that insert text. -/
def joinText : List Key → List Key
  | [] => []
  | k :: ks =>
    match joinText ks with
    | [] => [k]
    | l :: ls => if k.isText && l.isText then text (k.sequence ++ l.sequence) :: ls else k :: l :: ls

end Key

end ScriptRepl.Console
