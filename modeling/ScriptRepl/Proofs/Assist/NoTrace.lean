import ScriptRepl.Assist.Completion
import ScriptRepl.Assist.Preview
import ScriptRepl.Proofs.Realm.Speculation

/-! What speculation leaves behind on a host. Evaluation adds at most one handle; a completion or a preview gives
back the whole group of handles that it works in, and touches no other. -/
namespace ScriptRepl

open Eval

namespace Host

theorem harmless_programOf (source : String) (options : EvalOptions) (h : options.speculative = true) :
    Harmless (programOf source options) := by
  unfold programOf
  rw [h]
  split
  · exact .raise _ _
  · exact Evaluation.harmless_run _ _

/-- A computation on the realm reaches the handles only by the one that it may add. -/
theorem perform_frame (host : Host) (ticks : Option Nat) (group : Option Group) {x : Eval Value} (hx : Harmless x) :
    host.realm.Undisturbed (host.perform ticks group x).2.realm ∧
      ∃ new, (host.perform ticks group x).2.handles = host.handles ++ new ∧ new.length ≤ 1 ∧
        ∀ handle ∈ new, handle.group = group := by
  have hrealm := hx ⟨host.realm, ticks⟩
  unfold perform
  change host.realm.Undisturbed (x.run.run ⟨host.realm, ticks⟩).2.realm at hrealm
  generalize x.run.run ⟨host.realm, ticks⟩ = out at hrealm ⊢
  obtain ⟨result, run⟩ := out
  cases result with
  | ok v => exact ⟨hrealm, _, rfl, Nat.le_refl 1, by simp⟩
  | error e =>
      cases e with
      | throw v => exact ⟨hrealm, _, rfl, Nat.le_refl 1, by simp⟩
      | timeout => exact ⟨hrealm, [], by simp, Nat.zero_le 1, by simp⟩
      | fault => exact ⟨hrealm, [], by simp, Nat.zero_le 1, by simp⟩

/-- The handles of all groups but one. -/
def handlesOutside (host : Host) (group : Group) : List Handle :=
  host.handles.filter fun handle => handle.group ≠ some group

theorem handlesOutside_release (host : Host) (group : Group) :
    (host.release group).handlesOutside group = host.handlesOutside group := by
  simp [handlesOutside, release]

/-- Only handles of one group have come or gone, and the realm is undisturbed. -/
structure Spared (group : Group) (before after : Host) : Prop where
  realm : before.realm.Undisturbed after.realm
  handles : after.handlesOutside group = before.handlesOutside group

namespace Spared

theorem refl (group : Group) (host : Host) : Spared group host host :=
  ⟨.refl _, rfl⟩

theorem trans {group : Group} {a b c : Host} (h : Spared group a b) (g : Spared group b c) : Spared group a c :=
  ⟨h.realm.trans g.realm, g.handles.trans h.handles⟩

end Spared

end Host

/-! ### Requests -/

/-- The calls that a request makes which works in a group of its own and has no effects. -/
def Call.Speculates (group : Group) : Call → Prop
  | .evaluate _ options => options.speculative = true ∧ options.group = some group
  | .bind _ _ => False
  | .release g => g = group
  | _ => True

theorem Host.spared_answer {group : Group} {c : Call} (h : c.Speculates group) (down : List Outage) (host : Host) :
    Spared group host (host.answer down c).2 := by
  cases c with
  | evaluate source options =>
      unfold answer
      split
      · exact .refl group host
      · obtain ⟨hrealm, new, hnew, _, hgroup⟩ :=
          host.perform_frame options.ticks options.group (harmless_programOf source options h.1)
        refine ⟨hrealm, ?_⟩
        have hnone : new.filter (fun handle => handle.group ≠ some group) = [] := by
          rw [List.filter_eq_nil_iff]
          intro handle hmem
          simp [hgroup handle hmem, h.2]
        change (host.perform _ _ _).2.handles.filter _ = _
        rw [hnew, List.filter_append, hnone, List.append_nil]
        rfl
  | inspect id style =>
      dsimp only [answer]
      split <;> exact .refl group host
  | bind name id => exact h.elim
  | properties id => exact .refl group host
  | builtin id => exact .refl group host
  | globalNames => exact .refl group host
  | release g =>
      cases h
      exact ⟨.refl _, host.handlesOutside_release _⟩

namespace Request

/-- A request all of whose calls are of that kind, whatever the answers are. -/
def Speculates (group : Group) : Request α → Prop
  | done _ => True
  | call c next => c.Speculates group ∧ ∀ reply, (next reply).Speculates group

theorem Speculates.bind {group : Group} {x : Request α} {f : α → Request β} (hx : x.Speculates group)
    (hf : ∀ a, (f a).Speculates group) : (x >>= f).Speculates group := by
  induction x with
  | done a => exact hf a
  | call c next ih => exact ⟨hx.1, fun reply => ih reply (hx.2 reply)⟩

theorem Speculates.ask {group : Group} {c : Call} (h : c.Speculates group) : (ask c).Speculates group :=
  ⟨h, fun _ => trivial⟩

theorem Speculates.run {group : Group} {x : Request α} (hx : x.Speculates group) (down : List Outage) (host : Host) :
    Host.Spared group host (x.run down host).2 := by
  induction x generalizing host with
  | done a => exact .refl group host
  | call c next ih => exact (Host.spared_answer hx.1 down host).trans (ih _ (hx.2 _) _)

end Request

namespace Assist

open Request (Speculates)

/-- A failure ends an attempt, and then it makes no more calls. -/
theorem speculates_attempt_bind {group : Group} {x : Attempt α} {f : α → Attempt β}
    (hx : Speculates group x.run) (hf : ∀ a, Speculates group (f a).run) : Speculates group (x >>= f).run := by
  refine Speculates.bind hx fun result => ?_
  cases result with
  | ok a => exact hf a
  | error e => trivial

theorem speculates_ask {group : Group} {c : Call} (h : c.Speculates group) : Speculates group (ask c).run :=
  ⟨h, fun _ => trivial⟩

theorem speculates_peekValue (source : String) (group : Group) : Speculates group (peekValue source group).run := by
  refine speculates_attempt_bind (speculates_ask ⟨rfl, rfl⟩) fun reply => ?_
  split <;> trivial

theorem speculates_chainValue (source : String) (ts : List Syntax.Token) (group : Group) :
    Speculates group (chainValue source ts group).run := by
  unfold chainValue
  split
  · exact speculates_peekValue _ group
  · trivial

theorem speculates_completeMember (source : String) (target : List Syntax.Token) (word : String) (group : Group) :
    Speculates group (completeMember source target word group).run := by
  refine speculates_attempt_bind (speculates_chainValue source target group) fun v? => ?_
  cases v? with
  | none => trivial
  | some v =>
      refine speculates_attempt_bind (speculates_ask trivial) fun reply => ?_
      split <;> trivial

theorem speculates_completeName (word : String) (group : Group) : Speculates group (completeName word).run :=
  speculates_attempt_bind (speculates_ask trivial) fun _ => trivial

theorem speculates_completeCall (source : String) (ts : List Syntax.Token) (group : Group) :
    Speculates group (completeCall source ts group).run := by
  unfold completeCall
  split
  · trivial
  · refine speculates_attempt_bind (speculates_chainValue source _ group) fun v? => ?_
    cases v? with
    | none => trivial
    | some v => exact speculates_attempt_bind (speculates_ask trivial) fun _ => trivial

theorem speculates_completeWord (source : String) (ts : List Syntax.Token) (group : Group) :
    Speculates group (completeWord source ts group).run := by
  unfold completeWord
  split
  · trivial
  · split
    · exact speculates_completeMember source _ _ group
    · split
      · exact speculates_completeMember source _ _ group
      · split
        · trivial
        · exact speculates_completeName _ group
    · split
      · trivial
      · exact speculates_completeName _ group
    · trivial

theorem speculates_completeTokens (source : String) (ts : List Syntax.Token) (group : Group) :
    Speculates group (completeTokens source ts group).run := by
  unfold completeTokens
  dsimp only
  split
  · exact speculates_completeCall source _ group
  · refine speculates_attempt_bind (speculates_completeWord source ts group) fun word? => ?_
    cases word? with
    | some c => trivial
    | none => exact speculates_completeCall source _ group

theorem speculates_completeSource (source : String) (group : Group) :
    Speculates group (completeSource source group).run := by
  unfold completeSource
  dsimp only
  split
  · trivial
  · split
    · trivial
    · split
      · trivial
      · exact speculates_completeTokens source _ group

theorem speculates_inspectValue (source : String) (ticks : Option Nat) (group : Group) :
    Speculates group (inspectValue source ticks group) := by
  refine Speculates.bind (.ask ⟨rfl, rfl⟩) fun reply => ?_
  split
  · split
    · trivial
    · refine Speculates.bind (.ask trivial) fun text => ?_
      split <;> trivial
  · trivial

/-- Work in a group that ends with giving the group back leaves the handles of the others. -/
theorem run_release {group : Group} {x : Request α} (hx : x.Speculates group) (f : α → β) (down : List Outage)
    (host : Host) :
    let after := ((do
      let a ← x
      Request.ask (.release group)
      return f a : Request β).run down host).2
    host.realm.Undisturbed after.realm ∧ after.handles = host.handlesOutside group := by
  have hspared := hx.run down host
  rw [Request.run_bind]
  exact ⟨hspared.realm, hspared.handles⟩

theorem complete_frame (source : String) (group : Group) (down : List Outage) (host : Host) :
    let after := ((complete source group).run down host).2
    host.realm.Undisturbed after.realm ∧ after.handles = host.handlesOutside group :=
  run_release (speculates_completeSource source group) id down host

theorem preview_frame (source : String) (width : Nat) (ticks : Option Nat) (group : Group) (down : List Outage)
    (host : Host) :
    let after := ((preview source width ticks group).run down host).2
    host.realm.Undisturbed after.realm ∧
      (after.handles = host.handles ∨ after.handles = host.handlesOutside group) := by
  unfold preview
  split
  · exact ⟨.refl _, .inl rfl⟩
  · obtain ⟨hrealm, hhandles⟩ := run_release (speculates_inspectValue source ticks group)
      (fun text? => text?.map fun text => Text.truncate width (Text.collapse text)) down host
    exact ⟨hrealm, .inr hhandles⟩

theorem evaluate_empty (host : Host) (group : Option Group) :
    host.evaluate "" { group } =
      (.ok (.value (host.register .undefined group).1), (host.register .undefined group).2) := by
  unfold Host.evaluate Host.programOf
  rw [Syntax.parseProgram_empty]
  rfl

/-- The host after its caller has evaluated an empty source in a group of the name that a completion gives its own. -/
def namesake : Host :=
  ((Host.fresh 1).evaluate "" { group := some (.named "completion-0") }).2

theorem namesake_handles : namesake.handles = [⟨1, .undefined, some (.completion 0)⟩] := by
  have hgroup : Group.completion 0 = .named "completion-0" := by decide
  rw [namesake, evaluate_empty, hgroup]
  rfl

/-- A completion gives back the handles of anyone whose group has its name. -/
theorem complete_takes_namesake :
    namesake.liveHandles = 1 ∧ ((complete "" (.completion 0)).run [] namesake).2.liveHandles = 0 := by
  have hafter := (complete_frame "" (.completion 0) [] namesake).2
  refine ⟨by rw [Host.liveHandles, namesake_handles]; rfl, ?_⟩
  rw [Host.liveHandles, hafter, Host.handlesOutside, namesake_handles]
  simp

/-- Speculative evaluations, completions and previews change no variable, no object that was there, no output and
no random state, and of the handles at most the one they make or those under their own group's name. -/
theorem speculation_no_trace (host : Host) (source : String) :
    (∀ ticks group,
      let after := (host.evaluate source { speculative := true, ticks, group }).2
      host.realm.Undisturbed after.realm ∧ ∃ new, after.handles = host.handles ++ new ∧ new.length ≤ 1) ∧
    (∀ down n,
      let after := ((complete source (.completion n)).run down host).2
      host.realm.Undisturbed after.realm ∧ after.handles = host.handlesOutside (.completion n)) ∧
    ∀ down width ticks n,
      let after := ((preview source width ticks (.preview n)).run down host).2
      host.realm.Undisturbed after.realm ∧
        (after.handles = host.handles ∨ after.handles = host.handlesOutside (.preview n)) := by
  refine ⟨?_, ?_, ?_⟩
  · intro ticks group
    obtain ⟨hrealm, new, hnew, hone, _⟩ := host.perform_frame ticks group
      (Host.harmless_programOf source { speculative := true, ticks, group } rfl)
    exact ⟨hrealm, new, hnew, hone⟩
  · intro down n
    exact complete_frame source _ down host
  · intro down width ticks n
    exact preview_frame source width ticks _ down host

end Assist

end ScriptRepl
