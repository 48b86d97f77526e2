import ScriptRepl.Proofs.Realm.Fault
import ScriptRepl.Proofs.Realm.Holding

/-! What lasts on a host whatever its callers do. An object keeps its place and its kind, and the number of a handle
belongs to it for good: it is given out once, and a handle keeps its value and its group as long as it is held. -/
namespace ScriptRepl

/-! ### Numbers that are given out -/

/-- The number of the handle that an evaluation answers with. -/
def Outcome.numbers : Except CallError Outcome → List Nat
  | .ok (.value v) => [v.id]
  | .ok (.exception v) => [v.id]
  | .error _ => []

def Call.numbers : (c : Call) → c.Reply → List Nat
  | .evaluate _ _, reply => Outcome.numbers reply
  | _, _ => []

/-- Of all its calls, when it runs without a break. -/
def Request.numbers (down : List Outage) : Request α → Host → List Nat
  | done _, _ => []
  | call c next, host =>
    let (reply, host) := host.answer down c
    c.numbers reply ++ (next reply).numbers down host

namespace Host

/-- A visit, or a whole request such as a completion or a preview. -/
inductive Use : Type 1 where
  | visit (v : Visit)
  | request {α : Type} (down : List Outage) (x : Request α)

def Visit.numbers (host : Host) : Visit → List Nat
  | .call down c => c.numbers (host.answer down c).1
  | .callFunction function args group => Outcome.numbers (host.callFunction function args group).1
  | .takeGroup => []

def use (host : Host) : Use → Host
  | .visit v => host.visit v
  | .request down x => (x.run down host).2

def Use.numbers (host : Host) : Use → List Nat
  | .visit v => v.numbers host
  | .request down x => x.numbers down host

def uses (host : Host) : List Use → Host
  | [] => host
  | u :: us => (host.use u).uses us

/-- In the order in which they are given out. -/
def numbers (host : Host) : List Use → List Nat
  | [] => []
  | u :: us => u.numbers host ++ (host.use u).numbers us

/-! ### From one state of a host to a later one -/

/-- What is there stays, and only new numbers are given out in between. -/
structure Continues (before : Host) (ids : List Nat) (after : Host) : Prop where
  develops : before.realm.heap.Develops after.realm.heap
  nextId_le : before.nextId ≤ after.nextId
  handles : ∀ handle ∈ after.handles, handle ∈ before.handles ∨ handle.id ∈ ids
  increasing : ids.Pairwise (· < ·)
  bounds : ∀ id ∈ ids, before.nextId ≤ id ∧ id < after.nextId

/-- No reference leads out of the heap, and no two handles have the same number. -/
structure WellFormed (host : Host) : Prop where
  closed : host.Closed
  ordered : host.Ordered

variable {host before after : Host} {ids : List Nat}

namespace Continues

theorem refl (host : Host) : host.Continues [] host where
  develops := .refl _
  nextId_le := Nat.le_refl _
  handles := fun _ => .inl
  increasing := .nil
  bounds := nofun

theorem trans {a b c : Host} {ids ids' : List Nat} (h : a.Continues ids b) (g : b.Continues ids' c) :
    a.Continues (ids ++ ids') c where
  develops := h.develops.trans g.develops
  nextId_le := Nat.le_trans h.nextId_le g.nextId_le
  handles := by
    intro handle hhandle
    rw [List.mem_append]
    rcases g.handles handle hhandle with hhandle | hid
    · exact (h.handles handle hhandle).imp_right .inl
    · exact .inr (.inr hid)
  increasing := List.pairwise_append.mpr ⟨h.increasing, g.increasing, fun id hid id' hid' =>
    Nat.lt_of_lt_of_le (h.bounds id hid).2 (g.bounds id' hid').1⟩
  bounds := by
    refine List.forall_mem_append.mpr ⟨fun id hid => ?_, fun id hid => ?_⟩
    · exact ⟨(h.bounds id hid).1, Nat.lt_of_lt_of_le (h.bounds id hid).2 g.nextId_le⟩
    · exact ⟨Nat.le_trans h.nextId_le (g.bounds id hid).1, (g.bounds id hid).2⟩

/-- What gives out no number and takes handles away at most. -/
theorem of_sublist (hheap : before.realm.heap.Develops after.realm.heap) (hnext : after.nextId = before.nextId)
    (hhandles : after.handles ⊆ before.handles) : before.Continues [] after where
  develops := hheap
  nextId_le := Nat.le_of_eq hnext.symm
  handles := fun _ hhandle => .inl (hhandles hhandle)
  increasing := .nil
  bounds := nofun

theorem of_added {v : Value} {group : Option Group} (hheap : before.realm.heap.Develops after.realm.heap)
    (hhandles : after.handles = before.handles ++ [⟨before.nextId, v, group⟩])
    (hnext : after.nextId = before.nextId + 1) : before.Continues [before.nextId] after where
  develops := hheap
  nextId_le := by rw [hnext]; exact Nat.le_succ _
  handles := by
    intro handle hhandle
    rw [hhandles, List.mem_append, List.mem_singleton] at hhandle
    refine hhandle.imp_right ?_
    rintro rfl
    exact List.mem_singleton_self _
  increasing := List.pairwise_singleton _ _
  bounds := by
    intro id hid
    rw [List.mem_singleton.mp hid, hnext]
    exact ⟨Nat.le_refl _, Nat.lt_succ_self _⟩

/-- A number that was given out before is that of the same handle, with its value and its group. -/
theorem mem_of_lt (h : before.Continues ids after) {handle : Handle} (hhandle : handle ∈ after.handles)
    (hlt : handle.id < before.nextId) : handle ∈ before.handles :=
  (h.handles handle hhandle).resolve_right fun hid => Nat.not_lt.mpr (h.bounds _ hid).1 hlt

end Continues

/-! ### One use -/

theorem develops_perform {mayFault : Prop} (hhost : host.Closed) (ticks : Option Nat) (group : Option Group)
    {x : Eval Value} (hx : Eval.Safe host.realm.heap mayFault Value.InHeap x) :
    host.realm.heap.Develops (host.perform ticks group x).2.realm.heap := by
  have hdevelops := (hx ⟨host.realm, ticks⟩ rfl hhost.realm).develops
  have hout : x.run.run ⟨host.realm, ticks⟩ = x.outcome ⟨host.realm, ticks⟩ := rfl
  rw [perform, hout]
  revert hdevelops
  generalize x.outcome ⟨host.realm, ticks⟩ = out
  obtain ⟨result, run⟩ := out
  intro hdevelops
  cases result with
  | ok v => exact hdevelops
  | error e => cases e <;> exact hdevelops

/-- A computation gives out the number of what comes out of it. -/
theorem continues_perform {mayFault : Prop} (hhost : host.WellFormed) (ticks : Option Nat) (group : Option Group)
    {x : Eval Value} (hx : Eval.Safe host.realm.heap mayFault Value.InHeap x) :
    (host.perform ticks group x).2.WellFormed ∧
      host.Continues (Outcome.numbers (host.perform ticks group x).1) (host.perform ticks group x).2 := by
  have hheap := develops_perform hhost.closed ticks group hx
  have hclosed := (hhost.closed.perform ticks group hx).1
  obtain ⟨-, ⟨e, hanswer, -, hhandles, hnext⟩ | ⟨v, remote, hid, hanswer, hhandles, hnext⟩⟩ :=
    perform_cases host ticks group x
  · refine ⟨⟨hclosed, hhost.ordered.of_same hhandles hnext⟩, ?_⟩
    rw [hanswer]
    exact .of_sublist hheap hnext (by rw [hhandles]; exact List.Subset.refl _)
  · refine ⟨⟨hclosed, hhost.ordered.of_added hhandles hnext⟩, ?_⟩
    have hnumbers : Outcome.numbers (host.perform ticks group x).1 = [host.nextId] := by
      rcases hanswer with hanswer | hanswer
      · rw [hanswer, ← hid]
        rfl
      · rw [hanswer, ← hid]
        rfl
    rw [hnumbers]
    exact .of_added hheap hhandles hnext

theorem continues_answer (hhost : host.WellFormed) (down : List Outage) (c : Call) :
    (host.answer down c).2.WellFormed ∧ host.Continues (c.numbers (host.answer down c).1) (host.answer down c).2 := by
  cases c with
  | evaluate source options =>
      rw [answer]
      split
      · exact ⟨hhost, .refl host⟩
      · exact continues_perform hhost _ _ (safe_programOf source options host.realm.heap)
  | bind name id =>
      refine ⟨⟨hhost.closed.answer down _, hhost.ordered.answer down _⟩, ?_⟩
      rw [answer]
      split
      · exact .refl host
      · rw [Host.bind]
        split
        · exact .of_sublist (.refl _) rfl (List.Subset.refl _)
        · exact .refl host
  | release group =>
      refine ⟨⟨hhost.closed.release group, hhost.ordered.answer down _⟩, ?_⟩
      exact .of_sublist (.refl _) rfl (List.filter_sublist.subset)
  | inspect id style =>
      rw [answer]
      split <;> exact ⟨hhost, .refl host⟩
  | properties _ | builtin _ | globalNames => exact ⟨hhost, .refl host⟩

theorem continues_visit (hhost : host.WellFormed) (v : Visit) :
    (host.visit v).WellFormed ∧ host.Continues (v.numbers host) (host.visit v) := by
  cases v with
  | call down c => exact continues_answer hhost down c
  | callFunction function args group =>
      rw [visit, Visit.numbers, callFunction]
      split
      · rename_i f vs hf hvs
        have hsafe : Eval.Safe host.realm.heap False Value.InHeap (callValue false 0 f vs _) :=
          safe_callValue false 0 (hhost.closed.lookups hvs) ("object " ++ CallError.handleText function)
        exact continues_perform hhost none group hsafe
      · exact ⟨hhost, .refl host⟩
      · exact ⟨hhost, .refl host⟩
  | takeGroup => exact ⟨⟨⟨hhost.closed.realm, hhost.closed.handles⟩, ⟨hhost.ordered.nodup, hhost.ordered.lt⟩⟩,
      .of_sublist (.refl _) rfl (List.Subset.refl _)⟩

/-- A request is the sequence of its calls. -/
theorem continues_request {α : Type} (x : Request α) (hhost : host.WellFormed) (down : List Outage) :
    (x.run down host).2.WellFormed ∧ host.Continues (x.numbers down host) (x.run down host).2 := by
  induction x generalizing host with
  | done a => exact ⟨hhost, .refl host⟩
  | call c next ih =>
      obtain ⟨hwellFormed, hcontinues⟩ := continues_answer hhost down c
      obtain ⟨hend, hrest⟩ := ih (host.answer down c).1 hwellFormed
      exact ⟨hend, hcontinues.trans hrest⟩

theorem continues_use (hhost : host.WellFormed) (u : Use) :
    (host.use u).WellFormed ∧ host.Continues (u.numbers host) (host.use u) := by
  cases u with
  | visit v => exact continues_visit hhost v
  | request down x => exact continues_request x hhost down

/-! ### Every run -/

theorem continues_uses (hhost : host.WellFormed) (us : List Use) :
    (host.uses us).WellFormed ∧ host.Continues (host.numbers us) (host.uses us) := by
  induction us generalizing host with
  | nil => exact ⟨hhost, .refl host⟩
  | cons u us ih =>
      obtain ⟨hwellFormed, hcontinues⟩ := continues_use hhost u
      obtain ⟨hend, hrest⟩ := ih hwellFormed
      exact ⟨hend, hcontinues.trans hrest⟩

theorem wellFormed_fresh (seed : UInt64) : (fresh seed).WellFormed :=
  ⟨.fresh seed, ⟨List.nodup_nil, nofun⟩⟩

/-- Whatever callers do with a host, with calls in any order or with whole requests: no reference that they or a program
can get hold of leads out of the heap, every object stays where it is and of its kind, a function as it is, and the
numbers of the handles only go up, so that each is given out once and means the same handle, of the same group, for as
long as it is held. -/
theorem uses_endure (seed : UInt64) (us more : List Use) :
    let before := (fresh seed).uses us
    let after := before.uses more
    before.WellFormed ∧ ((fresh seed).numbers us).Pairwise (· < ·) ∧
      (∀ handle ∈ before.handles, handle.id ∈ (fresh seed).numbers us) ∧
      before.Continues (before.numbers more) after ∧
      ∀ handle ∈ after.handles, handle.id < before.nextId → handle ∈ before.handles := by
  obtain ⟨hbefore, hfirst⟩ := continues_uses (wellFormed_fresh seed) us
  obtain ⟨-, hmore⟩ := continues_uses hbefore more
  refine ⟨hbefore, hfirst.increasing, fun handle hhandle => ?_, hmore, fun _ => hmore.mem_of_lt⟩
  exact (hfirst.handles handle hhandle).resolve_left List.not_mem_nil

end Host

end ScriptRepl
