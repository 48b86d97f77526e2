import ScriptRepl.Console.Run

/-! The engine in its surroundings: input comes in chunks, lines are evaluated by a handler, and each job that was
issued is answered at any later time, or never, or more than once. -/
namespace ScriptRepl.Console

/-- A job and what came out of it. -/
inductive Answer where
  | completion (generation : Nat) (mode : CompletionMode) (source : String)
      (result : Except CallError (Option Assist.Completion))
  | preview (generation : Nat) (source : String) (width : Nat) (text : Option String)

namespace Answer

def job : Answer → Job
  | completion generation mode source _ => .complete generation mode source
  | preview generation source width _ => .preview generation source width

/-- What the engine is told. -/
def event : Answer → Event
  | completion generation mode _ result => .completed generation mode (Suggestion.usable result)
  | preview generation _ _ text => .previewed generation text

end Answer

/-- A host answers a job whatever state it is in. -/
theorem Job.exists_answer (job : Job) (ticks : Option Nat) (number : Nat) (down : List Outage) (host : Host) :
    ∃ answer : Answer, answer.job = job ∧ ((job.request ticks number).run down host).1 = answer.event := by
  cases job with
  | complete generation mode source =>
      let result := ((Assist.complete source (.completion number)).run down host).1
      refine ⟨.completion generation mode source result, rfl, ?_⟩
      rw [Job.request, Request.run_bind]
      rfl
  | preview generation source width =>
      let text := ((Assist.preview source width ticks (.preview number)).run down host).1
      refine ⟨.preview generation source width text, rfl, ?_⟩
      rw [Job.request, Request.run_bind]
      rfl

inductive Input where
  | chunk (bytes : List UInt8)
  /-- No byte has followed the beginning of an escape sequence for a while. -/
  | flush
  | answer (a : Answer)
  | historyLoaded (lines : List String)
  | resize (columns : Nat)

/-- The engine, the state of the handler, the jobs that were issued and the answers that were given. -/
structure World (σ : Type) where
  engine : Engine
  state : σ
  issued : List Job := []
  answers : List Answer := []

namespace World

/-- Takes the jobs that the engine has issued. -/
def settle (w : World σ) (e : Engine) : World σ :=
  { w with engine := e.takeJobs.2, issued := w.issued ++ e.takeJobs.1 }

def start (settings : Settings) (highlighter : String → String) (history : HistoryStore) (columns : Nat)
    (state : σ) : World σ :=
  let engine := Engine.new settings highlighter history columns
  { engine, state : World σ }.settle engine.refresh

/-- There is no answer to a job that was not issued. -/
def step (handler : LineHandler σ) (w : World σ) : Input → World σ
  | .chunk bytes =>
    let (_, engine, state) := w.engine.feed handler bytes w.state
    { w with state }.settle engine
  | .flush =>
    let (_, engine, state) := w.engine.flushEscape handler w.state
    { w with state }.settle engine
  | .answer a =>
    if a.job ∈ w.issued then { w with answers := a :: w.answers }.settle (w.engine.onEvent a.event) else w
  | .historyLoaded lines => w.settle (w.engine.onEvent (.historyLoaded lines))
  | .resize columns => w.settle (w.engine.setColumns columns).paint

def run (handler : LineHandler σ) (w : World σ) (inputs : List Input) : World σ :=
  inputs.foldl (step handler) w

end World

end ScriptRepl.Console
