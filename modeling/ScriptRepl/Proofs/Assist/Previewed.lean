import ScriptRepl.Assist.Preview
import ScriptRepl.Proofs.Assist.Candidates
import ScriptRepl.Proofs.Realm.Speculation
import ScriptRepl.Proofs.Text.Collapse

/-! What previews show: the compact inspection of the value that a source gives without effects, in one row of
single-spaced words. Sources that throw or give nothing worth showing have none, and evaluating them in earnest would
give no more. -/
namespace ScriptRepl

/-! ### Answers -/

/-- Whatever the calls are answered, the result is such. -/
def Request.Always (p : α → Prop) : Request α → Prop
  | done a => p a
  | call c next => ∀ reply : c.Reply, (next reply).Always p

namespace Request

theorem Always.bind {p : α → Prop} {q : β → Prop} {x : Request α} {f : α → Request β} (h : x.Always p)
    (hf : ∀ a, p a → (f a).Always q) : (x >>= f).Always q := by
  induction x with
  | done a => exact hf a h
  | call c next ih => exact fun reply => ih reply (h reply)

theorem always_true (x : Request α) : x.Always fun _ => True := by
  induction x with
  | done a => trivial
  | call c next ih => exact ih

theorem Always.run {p : α → Prop} {x : Request α} (h : x.Always p) (down : List Outage) (host : Host) :
    p (x.run down host).1 := by
  induction x generalizing host with
  | done a => exact h
  | call c next ih => exact ih _ (h _) _

end Request

namespace Host

open Eval

variable {host : Host} {source : String} {run : Run}

/-- The handle of a value that a program gives: what is inspected through it is that value. -/
theorem evaluate_of_outcome (hordered : host.Ordered) (options : EvalOptions) {v : Value}
    (h : (programOf source options).outcome ⟨host.realm, options.ticks⟩ = (.ok v, run)) :
    ∃ remote after, host.evaluate source options = (.ok (.value remote), after) ∧
      remote.kind = run.realm.heap.kindOf v ∧
      ∀ style, after.inspect remote.id style = .ok (run.realm.heap.inspect style v) := by
  have hafter : Ordered { host with realm := run.realm } := ⟨hordered.nodup, hordered.lt⟩
  unfold outcome at h
  unfold evaluate perform
  rw [h]
  exact ⟨_, _, rfl, rfl, inspect_of_value? (hafter.value?_register v options.group)⟩

theorem evaluate_of_interrupt (options : EvalOptions) {e : Interrupt}
    (h : (programOf source options).outcome ⟨host.realm, options.ticks⟩ = (.error e, run)) (remote : Remote) :
    (host.evaluate source options).1 ≠ .ok (.value remote) := by
  unfold outcome at h
  unfold evaluate perform
  rw [h]
  cases e <;> exact nofun

end Host

namespace Assist

open Eval

variable {host : Host} {source text : String} {ticks : Option Nat} {group : Group} {down : List Outage}

/-- The run gives a value worth showing, and this is its compact inspection. -/
def Shows (out : Except Interrupt Value × Run) (text : String) : Prop :=
  ∃ v run, out = (.ok v, run) ∧ run.realm.heap.kindOf v ≠ .undefined ∧ run.realm.heap.kindOf v ≠ .function ∧
    text = run.realm.heap.inspect { compact := true } v

theorem shows_ok {v : Value} {run : Run} :
    Shows (.ok v, run) text ↔ ¬ (run.realm.heap.kindOf v = .undefined ∨ run.realm.heap.kindOf v = .function) ∧
      run.realm.heap.inspect { compact := true } v = text := by
  constructor
  · rintro ⟨v, run, ⟨⟩, hundefined, hfunction, rfl⟩
    exact ⟨not_or.mpr ⟨hundefined, hfunction⟩, rfl⟩
  · rintro ⟨hkind, rfl⟩
    rw [not_or] at hkind
    exact ⟨v, run, rfl, hkind.1, hkind.2, rfl⟩

theorem not_shows_error {e : Interrupt} {run : Run} : ¬ Shows (.error e, run) text := by
  rintro ⟨v, run, hv, -⟩
  cases hv

/-- What a preview asks for, and what it takes from the answers. -/
theorem run_inspectValue (source : String) (ticks : Option Nat) (group : Group) (down : List Outage) (host : Host) :
    ((inspectValue source ticks group).run down host).1 =
      match host.answer down (.evaluate source { speculative := true, ticks, group := some group }) with
      | (.ok (.value v), after) =>
        if v.kind = .undefined ∨ v.kind = .function then none
        else (after.answer down (.inspect v.id { compact := true })).1.toOption
      | _ => none := by
  unfold inspectValue
  rw [Request.run_bind]
  generalize hanswer : host.answer down (.evaluate source { speculative := true, ticks, group := some group }) = out
  have hask : (Request.ask (.evaluate source { speculative := true, ticks, group := some group })).run down host = out :=
    hanswer
  rw [hask]
  obtain ⟨reply, after⟩ := out
  cases reply with
  | error e => rfl
  | ok outcome =>
      cases outcome with
      | exception thrown => rfl
      | value v =>
          dsimp only
          split
          · rfl
          · rw [Request.run_bind]
            generalize hinspect : after.answer down (.inspect v.id { compact := true }) = out
            have hask : (Request.ask (.inspect v.id { compact := true })).run down after = out := hinspect
            rw [hask]
            obtain ⟨reply, last⟩ := out
            cases reply <;> rfl

/-- A value that is worth showing is inspected as it stands behind the run without effects. -/
theorem inspectValue_eq_some_iff (hordered : host.Ordered) :
    ((inspectValue source ticks group).run down host).1 = some text ↔
      .evaluate ∉ down ∧ .inspect ∉ down ∧
        Shows ((Host.programOf source { speculative := true }).outcome ⟨host.realm, ticks⟩) text := by
  rw [run_inspectValue]
  by_cases hevaluate : .evaluate ∈ down
  · simp [Host.answer, hevaluate]
  · have hanswer : host.answer down (.evaluate source { speculative := true, ticks, group := some group }) =
        host.evaluate source { speculative := true, ticks, group := some group } := if_neg hevaluate
    rw [hanswer]
    cases hout : (Host.programOf source { speculative := true }).outcome ⟨host.realm, ticks⟩ with
    | mk result run =>
        cases result with
        | error e =>
            have hvalue := Host.evaluate_of_interrupt { speculative := true, ticks, group := some group } hout
            generalize host.evaluate source _ = out at hvalue ⊢
            split
            · exact absurd rfl (hvalue _)
            · simp [not_shows_error]
        | ok v =>
            obtain ⟨remote, after, hgives, hkind, hinspect⟩ :=
              Host.evaluate_of_outcome hordered { speculative := true, ticks, group := some group } hout
            rw [hgives, shows_ok]
            dsimp only
            rw [hkind]
            by_cases hworth : run.realm.heap.kindOf v = .undefined ∨ run.realm.heap.kindOf v = .function
            · simp [hworth]
            · by_cases hdown : .inspect ∈ down
              · simp [Host.answer, hworth, hdown, Except.toOption]
              · simp [Host.answer, hworth, hdown, hevaluate, hinspect, Except.toOption]

theorem run_preview (source : String) (width : Nat) (ticks : Option Nat) (group : Group) (down : List Outage)
    (host : Host) :
    ((preview source width ticks group).run down host).1 =
      if Text.isBlankText source = false ∧ Syntax.check source = .complete then
        ((inspectValue source ticks group).run down host).1.map fun text => Text.truncate width (Text.collapse text)
      else none := by
  have hcondition : ¬ (Text.isBlankText source || Syntax.check source != .complete) = true ↔
      Text.isBlankText source = false ∧ Syntax.check source = .complete := by
    simp
  unfold preview
  split
  · rename_i h
    rw [if_neg fun hboth => hcondition.mpr hboth h]
    rfl
  · rename_i h
    rw [if_pos (hcondition.mp h), Request.run_bind]
    rfl

/-- What a preview shows is in one row, whatever other requests do to the realm in the meantime. -/
theorem always_preview (source : String) (width : Nat) (ticks : Option Nat) (group : Group) :
    (preview source width ticks group).Always fun shown =>
      ∀ p, shown = some p → Text.Spaced p.toList ∧ Text.displayWidth p ≤ width := by
  unfold preview
  split
  · exact nofun
  · refine (Request.always_true _).bind fun text? _ reply p hp => ?_
    obtain ⟨text, -, rfl⟩ := Option.map_eq_some_iff.mp hp
    have hcut := Text.cut_iff.mpr (Eq.refl (Text.truncate width (Text.collapse text)))
    exact ⟨hcut.spaced (Text.spaced_collapse text), hcut.displayWidth_le⟩

/-- A source that has a preview gives the same value when it may have effects. -/
theorem Shows.earnest {start : Run} (h : Shows ((Host.programOf source { speculative := true }).outcome start) text) :
    Shows ((Host.programOf source {}).outcome start) text := by
  unfold Host.programOf at h ⊢
  cases hparse : Syntax.parseProgram source with
  | error e =>
      rw [hparse] at h
      exact h
  | ok program =>
      rw [hparse] at h
      dsimp only at h ⊢
      rcases Evaluation.agrees_run .undefined program start with ⟨thrown, hthrown, -⟩ | hsame
      · obtain ⟨v, run, hv, -⟩ := h
        rw [hv] at hthrown
        cases hthrown
      · rwa [hsame] at h

/-- A preview is at most as wide as it may be, and all its blanks are single spaces between other characters. There is
one exactly if the source is complete and neither blank nor out of reach, and without effects gives a value that is
worth showing; it is the compact inspection of that value with its words one space apart, cut if it is too wide. A
source that throws or gives nothing worth showing when it may have effects has no preview either. -/
theorem preview_one_row (hordered : host.Ordered) (source : String) (width : Nat) (ticks : Option Nat) (group : Group)
    (down : List Outage) :
    let shown := ((preview source width ticks group).run down host).1
    let start : Run := ⟨host.realm, ticks⟩
    ((preview source width ticks group).Always fun shown =>
        ∀ p, shown = some p → Text.Spaced p.toList ∧ Text.displayWidth p ≤ width) ∧
      (∀ p, shown = some p ↔
        Text.isBlankText source = false ∧ Syntax.check source = .complete ∧ .evaluate ∉ down ∧ .inspect ∉ down ∧
          ∃ text, Shows ((Host.programOf source { speculative := true }).outcome start) text ∧
            let words := (text.toList.splitOnP Text.isBlank).filter (· ≠ [])
            Text.Cut width (String.ofList ([' '].intercalate words)) p) ∧
      ((∀ text, ¬ Shows ((Host.programOf source {}).outcome start) text) → shown = none) := by
  intro shown start
  have hshown : ∀ p, shown = some p ↔
      Text.isBlankText source = false ∧ Syntax.check source = .complete ∧ .evaluate ∉ down ∧ .inspect ∉ down ∧
        ∃ text, Shows ((Host.programOf source { speculative := true }).outcome start) text ∧
          Text.Cut width (Text.collapse text) p := by
    intro p
    simp only [shown, run_preview]
    split
    · rename_i h
      simp only [Option.map_eq_some_iff, inspectValue_eq_some_iff hordered, Text.cut_iff, h.1, h.2, true_and]
      constructor
      · rintro ⟨text, ⟨hevaluate, hinspect, hshows⟩, hp⟩
        exact ⟨hevaluate, hinspect, text, hshows, hp.symm⟩
      · rintro ⟨hevaluate, hinspect, text, hshows, hp⟩
        exact ⟨text, ⟨hevaluate, hinspect, hshows⟩, hp.symm⟩
    · rename_i h
      exact ⟨nofun, fun hboth => absurd ⟨hboth.1, hboth.2.1⟩ h⟩
  refine ⟨always_preview source width ticks group, ?_, ?_⟩
  · simpa only [Text.collapse, Text.words_eq_splitOnP] using hshown
  · intro hnone
    rw [Option.eq_none_iff_forall_ne_some]
    intro p hp
    obtain ⟨-, -, -, -, text, hshows, -⟩ := (hshown p).mp hp
    exact hnone text hshows.earnest

/-- A text whose spaces become one, with the mark behind it. -/
theorem preview_one_row_marked :
    (Host.fresh 1).Ordered ∧
      ((preview "'a  b'" 4 none (.preview 0)).run [] (Host.fresh 1)).1 = some "'a …" ∧
      Text.Spaced "'a …".toList ∧ Text.displayWidth "'a …" ≤ 4 := by
  have hordered : (Host.fresh 1).Ordered := ⟨.nil, nofun⟩
  have hshown : ((preview "'a  b'" 4 none (.preview 0)).run [] (Host.fresh 1)).1 = some "'a …" := by decide +kernel
  have hrow := (preview_one_row hordered "'a  b'" 4 none (.preview 0) []).1
  exact ⟨hordered, hshown, hrow.run [] (Host.fresh 1) _ hshown⟩

end Assist

end ScriptRepl
