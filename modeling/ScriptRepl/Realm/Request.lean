import ScriptRepl.Realm.Host

/-! Work on a host as a sequence of calls. Each call is answered as a whole, and what other requests do may come
between two of them. -/
namespace ScriptRepl

inductive Call where
  | evaluate (source : String) (options : EvalOptions)
  | inspect (id : Nat) (style : InspectStyle)
  | bind (name : String) (id : Nat)
  | properties (id : Nat)
  | builtin (id : Nat)
  | globalNames
  | release (group : Group)

abbrev Call.Reply : Call → Type
  | evaluate .. => Except CallError Outcome
  | inspect .. => Except CallError String
  | bind .. => Except CallError Unit
  | properties _ => Except CallError (List (String × Bool))
  | builtin _ => Option Builtin
  | globalNames => List String
  | release _ => Unit

/-- The calls that can be out of order: such a call fails and does not reach the host. -/
inductive Outage where
  | evaluate
  | inspect
  | bind
  deriving DecidableEq, Repr

def Outage.text : Outage → String
  | evaluate => "evaluate"
  | inspect => "inspect"
  | bind => "set_binding"

def Outage.error (outage : Outage) : CallError :=
  .unreachable outage.text

namespace Host

def answer (down : List Outage) (host : Host) : (c : Call) → c.Reply × Host
  | .evaluate source options =>
    if .evaluate ∈ down then (.error Outage.evaluate.error, host) else host.evaluate source options
  | .inspect id style =>
    if .inspect ∈ down then (.error Outage.inspect.error, host) else (host.inspect id style, host)
  | .bind name id => if .bind ∈ down then (.error Outage.bind.error, host) else host.bind name id
  | .properties id => (host.properties id, host)
  | .builtin id => (host.builtin? id, host)
  | .globalNames => (host.globalNames, host)
  | .release group => ((), host.release group)

end Host

inductive Request (α : Type) : Type where
  | done (a : α)
  | call (c : Call) (next : c.Reply → Request α)

namespace Request

def bind : Request α → (α → Request β) → Request β
  | done a, f => f a
  | call c next, f => call c fun reply => (next reply).bind f

instance : Monad Request where
  pure := done
  bind := bind

def ask (c : Call) : Request c.Reply :=
  call c done

/-- Runs a request without a break. -/
def run (down : List Outage) : Request α → Host → α × Host
  | done a, host => (a, host)
  | call c next, host =>
    let (reply, host) := host.answer down c
    (next reply).run down host

theorem run_bind (x : Request α) (f : α → Request β) (down : List Outage) (host : Host) :
    (x >>= f).run down host = (f (x.run down host).1).run down (x.run down host).2 := by
  induction x generalizing host with
  | done a => rfl
  | call c next ih => exact ih _ _

end Request

namespace Host

def takeGroup (host : Host) : Nat × Host :=
  (host.nextGroup, { host with nextGroup := host.nextGroup + 1 })

end Host

end ScriptRepl
