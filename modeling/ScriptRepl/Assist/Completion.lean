import ScriptRepl.Assist.Hint
import ScriptRepl.Realm.Request
import ScriptRepl.Syntax.Lexer
import ScriptRepl.Text.Bytes

/-! What can come next in a source: names of properties after a dot, names and keywords elsewhere, and the missing
arguments of an open call. Token lists before a place have the nearest token first. -/
namespace ScriptRepl.Assist

open Syntax (Token TokenKind Keyword Punct)

inductive Completion where
  /-- Texts that can be appended as they are. -/
  | candidates (suffixes : List String)
  /-- A note that is not meant to be inserted. -/
  | hint (text : String)
  deriving DecidableEq, Repr

def isOpening (t : Token) : Bool :=
  t.kind = .punct .openParen || t.kind = .punct .openBracket || t.kind = .punct .openBrace

def isClosing (t : Token) : Bool :=
  t.kind = .punct .closeParen || t.kind = .punct .closeBracket || t.kind = .punct .closeBrace

/-- Whether a token can be the last one of a value that is called or indexed. -/
def endsValue (t : Token) : Bool :=
  match t.kind with
  | .name _ | .number _ | .text _ | .template _ => true
  | .keyword (.literal _) => true
  | .punct p => p = .closeParen || p = .closeBracket
  | _ => false

/-- The bracket that opens the outermost of `depth` open ones, and the tokens before it. -/
def openingOf? : (depth : Nat) → List Token → Option (Token × List Token)
  | _, [] => none
  | depth, t :: before =>
    if isClosing t then openingOf? (depth + 1) before
    else if isOpening t then
      match depth with
      | 0 => some (t, before)
      | 1 => some (t, before)
      | depth + 2 => openingOf? (depth + 1) before
    else openingOf? depth before

theorem length_lt_of_openingOf? {depth : Nat} {ts before : List Token} {t : Token}
    (h : openingOf? depth ts = some (t, before)) : before.length < ts.length := by
  fun_induction openingOf? depth ts with
  | case1 => simp at h
  | case2 _ _ _ _ ih => exact Nat.lt_succ_of_lt (ih h)
  | case3 => simp_all
  | case4 => simp_all
  | case5 _ _ _ _ _ ih => exact Nat.lt_succ_of_lt (ih h)
  | case6 _ _ _ _ _ ih => exact Nat.lt_succ_of_lt (ih h)

/-- The last part of a chain of members, indices and calls: it begins with a token that has others before it, or it
is applied to the value that ends before it. -/
inductive Link where
  | begins (t : Token) (before : List Token)
  | applied (before : List Token)

def Link.before : Link → List Token
  | begins _ before => before
  | applied before => before

def bracketed? (ts : List Token) : Option Link :=
  (openingOf? 0 ts).map fun (t, before) => .begins t before

def link? : List Token → Option Link
  | [] => none
  | t :: before =>
    match t.kind with
    | .name _ | .number _ | .text _ | .template _ => some (.begins t before)
    | .keyword (.literal _) => some (.begins t before)
    | .punct .closeBrace => bracketed? (t :: before)
    | .punct .closeParen | .punct .closeBracket =>
      (bracketed? (t :: before)).map fun link =>
        if link.before.head?.any endsValue then .applied link.before else link
    | _ => none

theorem length_lt_of_bracketed? {ts : List Token} {link : Link} (h : bracketed? ts = some link) :
    link.before.length < ts.length := by
  obtain ⟨⟨t, before⟩, ho, rfl⟩ := Option.map_eq_some_iff.1 h
  exact length_lt_of_openingOf? ho

theorem length_lt_of_link? {ts : List Token} {link : Link} (h : link? ts = some link) :
    link.before.length < ts.length := by
  cases ts with
  | nil => simp [link?] at h
  | cons t before =>
    simp only [link?] at h
    split at h
    all_goals first
      | (simp only [Option.some.injEq] at h; subst h; exact Nat.lt_succ_self _)
      | exact length_lt_of_bracketed? h
      | (obtain ⟨link', hb, rfl⟩ := Option.map_eq_some_iff.1 h
         have := length_lt_of_bracketed? hb
         split <;> exact this)
      | simp at h

/-- The first token of the chain that ends with the first of the tokens. -/
def chainStart? (ts : List Token) : Option Token :=
  match _h : link? ts with
  | none => none
  | some (.applied before) => chainStart? before
  | some (.begins t (dot :: target :: before)) =>
    if dot.kind = .punct .dot then chainStart? (target :: before) else some t
  | some (.begins t _) => some t
termination_by ts.length
decreasing_by
  · exact length_lt_of_link? _h
  · have := length_lt_of_link? _h
    simp only [Link.before, List.length_cons] at this ⊢
    omega

/-- An open bracket with the tokens before it, the commas directly inside it and whether anything follows the last
of them. -/
structure OpenBracket where
  before : List Token
  isCall : Bool
  commas : Nat
  content : Bool

/-- Whether the commas and what follows them make so many arguments. -/
def OpenBracket.supplied (b : OpenBracket) : Nat :=
  b.commas + if b.content then 1 else 0

/-- Notes that something stands in the innermost bracket. -/
def markContent : List OpenBracket → List OpenBracket
  | [] => []
  | b :: bs => { b with content := true } :: bs

/-- The open brackets, innermost first, after one more token; `before` are the tokens that come before it. -/
def openStep (before : List Token) (stack : List OpenBracket) (t : Token) : List OpenBracket :=
  if isOpening t then
    ⟨before, t.kind = .punct .openParen && before.head?.any endsValue, 0, false⟩ :: markContent stack
  else if isClosing t then stack.tail
  else if t.kind = .punct .comma then
    match stack with
    | [] => []
    | b :: bs => { b with commas := b.commas + 1, content := false } :: bs
  else markContent stack

/-- The innermost open bracket of tokens in their order, if it is that of a call. -/
def openCall? (ts : List Token) : Option OpenBracket :=
  let (_, stack) := ts.foldl (fun (before, stack) t => (t :: before, openStep before stack t)) ([], [])
  stack.head?.filter (·.isCall)

def slice (source : String) (start stop : Nat) : String :=
  String.ofList (Text.splitNear (stop - start) (Text.splitNear start source.toList).2).1

/-- The names that go on from a word, without it, each once. -/
def suffixesOf (word : String) (names : List String) : List String :=
  let rests := names.filterMap fun name =>
    if word.toList.isPrefixOf name.toList then some (String.ofList (name.toList.drop word.length)) else none
  (rests.filter fun s => !s.isEmpty).eraseDups

def candidates? (suffixes : List String) : Option Completion :=
  if suffixes.isEmpty then none else some (.candidates suffixes)

/-- A request that may fail for a cause that is not the code's. -/
abbrev Attempt (α : Type) := ExceptT CallError Request α

def ask (c : Call) : Attempt c.Reply :=
  ExceptT.lift (Request.ask c)

/-- The value of a part of the source, without effects; none if it throws or takes too long. -/
def peekValue (source : String) (group : Group) : Attempt (Option Remote) := do
  match ← ask (.evaluate source { speculative := true, group := some group }) with
  | .ok (.value v) => return some v
  | .ok (.exception _) => return none
  | .error .timeout => return none
  | .error e => throw e

/-- The value of the chain that ends with the first of the tokens. -/
def chainValue (source : String) (ts : List Token) (group : Group) : Attempt (Option Remote) := do
  match chainStart? ts, ts with
  | some start, last :: _ => peekValue (slice source start.start last.stop) group
  | _, _ => return none

/-- Properties of the value before a dot that go on from `word`, own ones first. -/
def completeMember (source : String) (target : List Token) (word : String) (group : Group) :
    Attempt (Option Completion) := do
  match ← chainValue source target group with
  | none => return none
  | some v =>
    match ← ask (.properties v.id) with
    | .error e => throw e
    | .ok properties =>
      let (own, inherited) := properties.partition (·.2)
      let names := (own ++ inherited).map (·.1)
      return candidates? (suffixesOf word (names.filter Text.isName))

def completeName (word : String) : Attempt (Option Completion) := do
  let names ← ask .globalNames
  return candidates? (suffixesOf word (names ++ Keyword.all.map Keyword.text))

/-- The hint for the innermost open call. -/
def completeCall (source : String) (ts : List Token) (group : Group) : Attempt (Option Completion) := do
  match openCall? ts with
  | none => return none
  | some bracket =>
    match ← chainValue source bracket.before group with
    | none => return none
    | some v =>
      let f? ← ask (.builtin v.id)
      return f?.map fun f => .hint (callHint f bracket.supplied source)

def isDeclaring (t : Token) : Bool :=
  match t.kind with
  | .keyword (.decl _) => true
  | _ => false

/-- Completes the word or the dot that the source ends with. -/
def completeWord (source : String) (ts : List Token) (group : Group) : Attempt (Option Completion) := do
  match ts with
  | [] => return none
  | last :: before =>
    match last.kind, before with
    | .punct .dot, target@(_ :: _) => completeMember source target "" group
    | .name word, dot :: target@(_ :: _) =>
      if dot.kind = .punct .dot then completeMember source target word group
      else if isDeclaring dot then return none
      else completeName word
    | .name word, _ => if before.head?.any isDeclaring then return none else completeName word
    | _, _ => return none

/-- The completion of a source, by tokens nearest first and without comments. -/
def completeTokens (source : String) (ts : List Token) (group : Group) : Attempt (Option Completion) := do
  let word? ←
    if source.toList.getLast?.any Text.isBlank then pure none else completeWord source ts group
  match word? with
  | some c => return some c
  | none => completeCall source ts.reverse group

/-- The completion of a source. Inside comments, and where the source cannot be read, there is none. -/
def completeSource (source : String) (group : Group) : Attempt (Option Completion) := do
  let lexed := Syntax.lex source
  match lexed.result with
  | .error _ => return none
  | .ok _ =>
    match lexed.tokens.reverse with
    | [] => return none
    | last :: before =>
      if last.kind.isComment then return none
      else completeTokens source (last :: before.filter fun t => !t.kind.isComment) group

/-- Completes a source and gives back the handles that this took. -/
def complete (source : String) (group : Group) : Request (Except CallError (Option Completion)) := do
  let result ← (completeSource source group).run
  Request.ask (.release group)
  return result

end ScriptRepl.Assist
