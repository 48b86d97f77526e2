import ScriptRepl.Console.Background
import ScriptRepl.Console.Session
import ScriptRepl.Proofs.Assist.OwnGroup

/-! A session, completions and previews that share a host. Whoever is at work waits for the answer to one call, and
the calls of all are answered one at a time and in any order. -/
namespace ScriptRepl

/-! ### Evaluations that fail -/

/-- The host has not evaluated a source. -/
def Call.Failed : (c : Call) → c.Reply → Prop
  | .evaluate _ _, .error _ => True
  | _, _ => False

namespace Request

variable {α β : Type}

/-- How a request ends, whatever the replies are. -/
def Ends (post : α → Prop) : Request α → Prop
  | .done a => post a
  | .call _ next => ∀ reply, (next reply).Ends post

/-- How a request ends after an evaluation that failed. -/
def Heeds (post : α → Prop) : Request α → Prop
  | .done _ => True
  | .call c next => ∀ reply, (c.Failed reply → (next reply).Ends post) ∧ (next reply).Heeds post

theorem Ends.bind {post : β → Prop} {x : Request α} {f : α → Request β} (hx : x.Ends fun a => (f a).Ends post) :
    (x >>= f).Ends post := by
  induction x with
  | done a => exact hx
  | call c next ih => exact fun reply => ih reply (hx reply)

theorem Heeds.bind {post : β → Prop} {x : Request α} {f : α → Request β} (hx : x.Heeds fun a => (f a).Ends post)
    (hf : ∀ a, (f a).Heeds post) : (x >>= f).Heeds post := by
  induction x with
  | done a => exact hf a
  | call c next ih => exact fun reply => ⟨fun hfailed => ((hx reply).1 hfailed).bind, ih reply (hx reply).2⟩

end Request

namespace Console

/-! ### What a session keeps -/

/-- The groups of the first lines. -/
def LineGroup (lines : Nat) (group : Group) : Prop :=
  ∃ k, 1 ≤ k ∧ k ≤ lines ∧ group = .line k

theorem LineGroup.mono {lines lines' : Nat} {group : Group} (h : LineGroup lines group) (hle : lines ≤ lines') :
    LineGroup lines' group := by
  obtain ⟨k, hpos, hk, rfl⟩ := h
  exact ⟨k, hpos, Nat.le_trans hk hle, rfl⟩

theorem LineGroup.ne_next {lines : Nat} {group : Group} (h : LineGroup lines group) :
    group ≠ .line (lines + 1) := by
  obtain ⟨k, _, hk, rfl⟩ := h
  intro heq
  rw [Group.line_inj heq] at hk
  exact Nat.not_succ_le_self lines hk

/-- Each of the two is the only handle in the group of its line, and in the groups of the other lines there is none. -/
structure Keeps (lines : Nat) (one other : Option Kept) (held : Holdings) : Prop where
  own : ∀ kept, kept ∈ one ∨ kept ∈ other → LineGroup lines kept.group ∧ held kept.group = [kept.id]
  apart : ∀ kept ∈ one, ∀ kept' ∈ other, kept.group ≠ kept'.group
  only : ∀ k, held (.line k) ≠ [] → ∃ kept, (kept ∈ one ∨ kept ∈ other) ∧ kept.group = .line k

def Live (one other : Option Kept) (held : Holdings) : Prop :=
  ∀ kept, kept ∈ one ∨ kept ∈ other → kept.id ∈ held kept.group

def freed (replaced : Option Kept) (held : Holdings) : Holdings :=
  match replaced with
  | none => held
  | some kept => Function.update held kept.group []

theorem freed_of_ne {replaced : Option Kept} {held : Holdings} {group : Group}
    (h : ∀ kept ∈ replaced, kept.group ≠ group) : freed replaced held group = held group := by
  cases replaced with
  | none => rfl
  | some kept => exact Function.update_of_ne (h kept rfl).symm _ _

theorem ne_of_freed_ne_nil {replaced : Option Kept} {held : Holdings} {group : Group}
    (h : freed replaced held group ≠ []) : ∀ kept ∈ replaced, kept.group ≠ group := by
  rintro kept ⟨⟩ rfl
  exact h (Function.update_self _ _ _)

namespace Keeps

variable {lines : Nat} {one other : Option Kept} {held : Holdings}

theorem symm (h : Keeps lines one other held) : Keeps lines other one held where
  own := fun kept hkept => h.own kept hkept.symm
  apart := fun kept hkept kept' hkept' => (h.apart kept' hkept' kept hkept).symm
  only := by
    intro k hk
    obtain ⟨kept, hkept, hgroup⟩ := h.only k hk
    exact ⟨kept, hkept.symm, hgroup⟩

theorem live (h : Keeps lines one other held) : Live one other held := by
  intro kept hkept
  rw [(h.own kept hkept).2]
  exact List.mem_singleton_self _

/-- The group of the next line is empty. -/
theorem fresh (h : Keeps lines one other held) : held (.line (lines + 1)) = [] := by
  by_contra hne
  obtain ⟨kept, hkept, hgroup⟩ := h.only _ hne
  exact (h.own kept hkept).1.ne_next hgroup

/-- The handle of the next line takes the place of one of the two. -/
theorem replace (h : Keeps lines one other held) (id : Nat) :
    Keeps (lines + 1) (some ⟨id, .line (lines + 1)⟩) other
      (freed one (Function.update held (.line (lines + 1)) [id])) where
  own := by
    have hone : ∀ kept ∈ one, kept.group ≠ .line (lines + 1) := fun kept hkept => (h.own kept (.inl hkept)).1.ne_next
    rintro kept (⟨⟨⟩⟩ | hkept)
    · refine ⟨⟨lines + 1, Nat.le_add_left 1 lines, Nat.le_refl _, rfl⟩, ?_⟩
      rw [freed_of_ne hone, Function.update_self]
    · obtain ⟨hgroup, hheld⟩ := h.own kept (.inr hkept)
      refine ⟨hgroup.mono (Nat.le_succ lines), ?_⟩
      rw [freed_of_ne fun kept' hkept' => h.apart kept' hkept' kept hkept, Function.update_of_ne hgroup.ne_next, hheld]
  apart := by
    rintro kept ⟨⟩ kept' hkept'
    exact (h.own kept' (.inr hkept')).1.ne_next.symm
  only := by
    intro k hk
    have hne := ne_of_freed_ne_nil hk
    rw [freed_of_ne hne] at hk
    by_cases hnext : k = lines + 1
    · subst hnext
      exact ⟨_, .inl rfl, rfl⟩
    · rw [Function.update_of_ne fun heq => hnext (Group.line_inj heq)] at hk
      obtain ⟨kept, hone | hother, hgroup⟩ := h.only k hk
      · exact absurd hgroup (hne kept hone)
      · exact ⟨kept, .inr hother, hgroup⟩

/-- The next line leaves nothing. -/
theorem next (h : Keeps lines one other held) :
    Keeps (lines + 1) one other (Function.update held (.line (lines + 1)) []) := by
  rw [← h.fresh, Function.update_eq_self]
  exact ⟨fun kept hkept => ⟨(h.own kept hkept).1.mono (Nat.le_succ lines), (h.own kept hkept).2⟩, h.apart, h.only⟩

end Keeps

namespace Session

theorem orderly_keep {owned : Group → Prop} {inv : Holdings → Prop} {held : Holdings} {v : Remote} {group : Group}
    (s : Session) (name : String) {replaced : Option Kept} (hinv : inv held) (howned : owned group)
    (hid : v.id ∈ held group) (hreplaced : ∀ kept ∈ replaced, owned kept.group) :
    (s.keep name v replaced).Orderly owned inv (fun held' _ => held' = freed replaced held) held := by
  have hnames : ∀ id ∈ some v.id, ∃ group, owned group ∧ id ∈ held group := by
    rintro _ ⟨⟩
    exact ⟨group, howned, hid⟩
  have hinspected : (s.inspected v).Orderly owned inv (fun held' _ => held' = held) held := by
    refine .ask hinv hnames fun reply => ?_
    cases reply <;> rfl
  refine hinspected.bind fun held' text hsame => ?_
  subst hsame
  refine .ask hinv hnames fun _ => ?_
  cases replaced with
  | none => rfl
  | some kept => exact .ask hinv (hreplaced kept rfl) fun _ => rfl

/-- A line that is evaluated ends with a session that keeps what it should; until then the handles that the session
kept before are live. -/
theorem orderly_onLine {s : Session} {line : String} (hcheck : Syntax.check line ≠ .incomplete) {held : Holdings}
    (h : Keeps s.lines s.last s.lastError held) :
    (s.onLine line).Orderly (LineGroup (s.lines + 1)) (Live s.last s.lastError)
      (fun held out => out.2.lines = s.lines + 1 ∧ Keeps out.2.lines out.2.last out.2.lastError held) held := by
  have hmine : LineGroup (s.lines + 1) (.line (s.lines + 1)) := ⟨s.lines + 1, Nat.le_add_left 1 _, Nat.le_refl _, rfl⟩
  have htaken : ∀ id, Live s.last s.lastError (Function.update held (.line (s.lines + 1)) [id]) := by
    intro id kept hkept
    rw [Function.update_of_ne (h.own kept hkept).1.ne_next]
    exact h.live kept hkept
  have hregister : ∀ id, held.register (some (.line (s.lines + 1))) id =
      Function.update held (.line (s.lines + 1)) [id] := by
    intro id
    rw [Holdings.register, h.fresh, List.nil_append]
  have hmember : ∀ id, id ∈ Function.update held (.line (s.lines + 1)) [id] (.line (s.lines + 1)) := by
    intro id
    rw [Function.update_self]
    exact List.mem_singleton_self id
  have howned : ∀ kept, kept ∈ s.last ∨ kept ∈ s.lastError → LineGroup (s.lines + 1) kept.group :=
    fun kept hkept => (h.own kept hkept).1.mono (Nat.le_succ _)
  unfold onLine
  rw [if_neg hcheck]
  refine .ask h.live ⟨_, rfl, hmine⟩ fun reply => ?_
  cases reply with
  | ok outcome =>
      cases outcome with
      | value v =>
          have hafter : (Call.evaluate line { group := some (.line (s.lines + 1)) }).after held (.ok (.value v)) =
              Function.update held (.line (s.lines + 1)) [v.id] := hregister v.id
          rw [hafter]
          refine (orderly_keep _ "_" (htaken v.id) hmine (hmember v.id) fun kept hkept =>
            howned kept (.inl hkept)).bind fun held' text hheld => ?_
          subst hheld
          exact ⟨rfl, h.replace v.id⟩
      | exception v =>
          have hafter : (Call.evaluate line { group := some (.line (s.lines + 1)) }).after held (.ok (.exception v)) =
              Function.update held (.line (s.lines + 1)) [v.id] := hregister v.id
          rw [hafter]
          refine (orderly_keep _ "_err" (htaken v.id) hmine (hmember v.id) fun kept hkept =>
            howned kept (.inr hkept)).bind fun held' text hheld => ?_
          subst hheld
          exact ⟨rfl, (h.symm.replace v.id).symm⟩
  | error e => exact .ask h.live hmine fun _ => ⟨rfl, h.next⟩

/-- To show and to bind a value is not to evaluate. -/
theorem heeds_keep (post : String → Prop) (s : Session) (name : String) (v : Remote) (replaced : Option Kept) :
    (s.keep name v replaced).Heeds post := by
  have hinspected : ∀ post, (s.inspected v).Heeds post := by
    intro post reply
    refine ⟨False.elim, ?_⟩
    cases reply <;> trivial
  refine (hinspected _).bind fun text => ?_
  refine fun reply => ⟨False.elim, ?_⟩
  cases replaced with
  | none => trivial
  | some kept => exact fun _ => ⟨False.elim, trivial⟩

/-- A line whose evaluation fails leaves what the session keeps. -/
theorem heeds_onLine (s : Session) (line : String) :
    (s.onLine line).Heeds fun out => out.2.last = s.last ∧ out.2.lastError = s.lastError := by
  unfold onLine
  split
  · trivial
  · intro reply
    cases reply with
    | ok outcome =>
        refine ⟨False.elim, ?_⟩
        cases outcome with
        | value v => exact (heeds_keep _ _ _ v _).bind fun _ => trivial
        | exception v => exact (heeds_keep _ _ _ v _).bind fun _ => trivial
    | error e => exact ⟨fun _ _ => ⟨rfl, rfl⟩, fun _ => ⟨False.elim, trivial⟩⟩

end Session

/-! ### One call at a time -/

/-- A call that is not answered yet, and what its answer leads to. -/
structure Question (α : Type) where
  call : Call
  next : call.Reply → Request α

def Question.request {α : Type} (question : Question α) : Request α :=
  .call question.call question.next

def Job.group (number : Nat) : Job → Group
  | .complete _ _ _ => .completion number
  | .preview _ _ _ => .preview number

/-- What is left to do once a job has taken too long. Only previews are cut off. -/
def Job.late (number : Nat) : Job → Option (Question Event)
  | .complete _ _ _ => none
  | .preview generation _ _ => some ⟨.release (.preview number), fun _ => return .previewed generation none⟩

/-- A job in flight. -/
structure Errand where
  group : Group
  question : Question Event
  late : Option (Question Event)

namespace Errand

/-- Nothing is left of a job that is done. -/
def remaining (group : Group) (late : Option (Question Event)) : Request Event → List Errand
  | .done _ => []
  | .call c next => [⟨group, ⟨c, next⟩, late⟩]

/-- A job that is about to end is not cut off. -/
def expire (errand : Errand) : Errand :=
  match errand.question.call with
  | .release _ => errand
  | _ => { errand with question := errand.late.getD errand.question }

end Errand

/-- A host, the session, the line that it is at, the jobs in flight and the groups that have been given back. -/
structure Desk where
  host : Host
  session : Session
  line : Option (Question (LineOutcome × Session)) := none
  errands : List Errand := []
  returned : List Group := []

inductive Move where
  | submit (line : String)
  | serveLine (down : List Outage)
  | start (job : Job) (ticks : Option Nat)
  | serve (n : Nat) (down : List Outage)
  | expire (n : Nat)

namespace Desk

/-- Nothing has been submitted or asked for. -/
def fresh (host : Host) (colors : Bool) : Desk where
  host
  session := { colors }

/-- The session is at a line until it is done with it. -/
def atLine (desk : Desk) : Request (LineOutcome × Session) → Desk
  | .done (_, session) => { desk with session, line := none }
  | .call c next => { desk with line := some ⟨c, next⟩ }

def answer (desk : Desk) (down : List Outage) (c : Call) : Desk :=
  { desk with host := (desk.host.answer down c).2, returned := desk.returned ++ c.returned }

/-- A line is submitted when there is none in flight; a call that is served is answered as a whole. -/
def step (desk : Desk) : Move → Desk
  | .submit line =>
    match desk.line with
    | none => desk.atLine (desk.session.onLine line)
    | some _ => desk
  | .serveLine down =>
    match desk.line with
    | none => desk
    | some ⟨c, next⟩ => (desk.answer down c).atLine (next (desk.host.answer down c).1)
  | .start job ticks =>
    let (number, host) := desk.host.takeGroup
    { desk with
      host
      errands := desk.errands ++ Errand.remaining (job.group number) (job.late number) (job.request ticks number) }
  | .serve n down =>
    match desk.errands[n]? with
    | none => desk
    | some ⟨group, ⟨c, next⟩, late⟩ =>
      { desk.answer down c with
        errands := desk.errands.take n ++ Errand.remaining group late (next (desk.host.answer down c).1) ++
          desk.errands.drop (n + 1) }
  | .expire n => { desk with errands := desk.errands.modify n Errand.expire }

theorem step_submit {desk : Desk} (h : desk.line = none) (line : String) :
    desk.step (.submit line) = desk.atLine (desk.session.onLine line) := by
  simp only [step, h]

theorem step_submit_of_some {desk : Desk} {question : Question (LineOutcome × Session)}
    (h : desk.line = some question) (line : String) : desk.step (.submit line) = desk := by
  simp only [step, h]

theorem step_serveLine {desk : Desk} {c : Call} {next : c.Reply → Request (LineOutcome × Session)}
    (h : desk.line = some ⟨c, next⟩) (down : List Outage) :
    desk.step (.serveLine down) = (desk.answer down c).atLine (next (desk.host.answer down c).1) := by
  simp only [step, h]

theorem step_serveLine_of_none {desk : Desk} (h : desk.line = none) (down : List Outage) :
    desk.step (.serveLine down) = desk := by
  simp only [step, h]

theorem step_serve {desk : Desk} {n : Nat} {errand : Errand} (h : desk.errands[n]? = some errand)
    (down : List Outage) :
    desk.step (.serve n down) = { desk.answer down errand.question.call with
      errands := desk.errands.take n ++ Errand.remaining errand.group errand.late
        (errand.question.next (desk.host.answer down errand.question.call).1) ++ desk.errands.drop (n + 1) } := by
  simp only [step, h]

theorem step_serve_of_none {desk : Desk} {n : Nat} (h : desk.errands[n]? = none) (down : List Outage) :
    desk.step (.serve n down) = desk := by
  simp only [step, h]

def run (desk : Desk) (moves : List Move) : Desk :=
  moves.foldl step desk

theorem run_append (desk : Desk) (moves moves' : List Move) :
    desk.run (moves ++ moves') = (desk.run moves).run moves' :=
  List.foldl_append

/-- Someone waits for the answer to the call. -/
def Waits (desk : Desk) (c : Call) : Prop :=
  (∃ question ∈ desk.line, question.call = c) ∨ ∃ errand ∈ desk.errands, errand.question.call = c

def Idle (desk : Desk) : Prop :=
  desk.line = none ∧ desk.errands = []

end Desk

end Console

end ScriptRepl
