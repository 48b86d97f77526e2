import ScriptRepl.Proofs.Realm.Literal
import ScriptRepl.Proofs.Realm.Moderate

/-! How long the texts get that callers can have made. Whatever they do, no text in the realm or behind a handle is
too long as long as no program makes one where it does not look at the length; but where programs only add texts up,
nothing stops them from growing. -/
namespace ScriptRepl

open Eval
open Syntax (Expr Program)

namespace Host

/-- No text that is stored in the realm or came out of an evaluation is too long. -/
structure Fits (host : Host) : Prop where
  realm : host.realm.Fits
  handles : ∀ handle ∈ host.handles, handle.value.Fits

def Visit.source? : Visit → Option String
  | .call _ (.evaluate source _) => some source
  | .call _ (.inspect ..) | .call _ (.bind ..) | .call _ (.properties _) | .call _ (.builtin _) => none
  | .call _ .globalNames | .call _ (.release _) | .callFunction .. | .takeGroup => none

/-- What the visit has evaluated or called makes no text too long where it does not look at the length. -/
def Moderate (host : Host) : Visit → Prop
  | .call down (.evaluate source options) =>
    .evaluate ∉ down → ∀ program, Syntax.parseProgram source = .ok program →
      Evaluation.RunModerate options.speculative program ⟨host.realm, options.ticks⟩
  | .callFunction function args _ =>
    ∀ f vs, host.lookup function = .ok f → args.mapM host.lookup = .ok vs → CallFits f vs ⟨host.realm, none⟩
  | .call _ (.inspect ..) | .call _ (.bind ..) | .call _ (.properties _) | .call _ (.builtin _) => True
  | .call _ .globalNames | .call _ (.release _) | .takeGroup => True

/-- Each visit, of the host as the visits before it leave it. -/
def ModerateAlong (host : Host) : List Visit → Prop
  | [] => True
  | v :: vs => host.Moderate v ∧ (host.visit v).ModerateAlong vs

namespace Fits

variable {host : Host}

theorem fresh (seed : UInt64) : (Host.fresh seed).Fits :=
  ⟨Realm.fits_fresh seed, nofun⟩

theorem register (hhost : host.Fits) {v : Value} (hv : v.Fits) (group : Option Group) :
    (host.register v group).2.Fits := by
  refine ⟨hhost.realm, List.forall_mem_append.mpr ⟨hhost.handles, fun handle hhandle => ?_⟩⟩
  rw [List.mem_singleton.mp hhandle]
  exact hv

theorem lookup (hhost : host.Fits) {id : Nat} {v : Value} (hv : host.lookup id = .ok v) : v.Fits := by
  obtain ⟨handle, hhandle, rfl⟩ := exists_handle_of_lookup hv
  exact hhost.handles handle hhandle

theorem lookups (hhost : host.Fits) {ids : List Nat} {vs : List Value} (hvs : ids.mapM host.lookup = .ok vs) :
    Value.AllFit vs := by
  intro v hv
  obtain ⟨handle, hhandle, rfl⟩ := exists_handle_of_lookups hvs v hv
  exact hhost.handles handle hhandle

theorem perform (hhost : host.Fits) (ticks : Option Nat) (group : Option Group) {x : Eval Value}
    (hx : Kept Value.Fits (x.outcome ⟨host.realm, ticks⟩)) : (host.perform ticks group x).2.Fits := by
  have hout : x.run.run ⟨host.realm, ticks⟩ = x.outcome ⟨host.realm, ticks⟩ := rfl
  rw [Host.perform, hout]
  generalize x.outcome ⟨host.realm, ticks⟩ = out at hx
  obtain ⟨result, run⟩ := out
  have hmoved : Fits { host with realm := run.realm } := ⟨hx.realm, hhost.handles⟩
  cases result with
  | ok v => exact hmoved.register (hx.given v rfl) group
  | error e =>
      cases e with
      | throw v => exact hmoved.register (hx.thrown v rfl) group
      | timeout => exact hmoved
      | fault => exact hmoved

theorem evaluate (hhost : host.Fits) {source : String} (hsource : TextFits source) (options : EvalOptions)
    (h : ∀ program, Syntax.parseProgram source = .ok program →
      Evaluation.RunModerate options.speculative program ⟨host.realm, options.ticks⟩) :
    (host.evaluate source options).2.Fits := by
  refine hhost.perform _ _ ?_
  unfold programOf
  split
  · exact Fitting.raise (by decide) _ _ hhost.realm
  · rename_i program hparse
    have hprogram := Syntax.textsWithin_of_parseProgram hparse hsource
    have hundefined : Value.undefined.Fits := trivial
    exact Evaluation.kept_run program hprogram hundefined hhost.realm (h program hparse)

theorem bind (hhost : host.Fits) (name : String) (id : Nat) : (host.bind name id).2.Fits := by
  rw [Host.bind]
  split
  · rename_i v hv
    exact ⟨hhost.realm.bind (b := ⟨v, .varKind⟩) (hhost.lookup hv), hhost.handles⟩
  · exact hhost

theorem callFunction (hhost : host.Fits) (function : Nat) (args : List Nat) (group : Option Group)
    (h : host.Moderate (.callFunction function args group)) : (host.callFunction function args group).2.Fits := by
  rw [Host.callFunction]
  split
  · rename_i f vs hf hvs
    exact hhost.perform _ _ (kept_callValue _ _ _ hhost.realm (hhost.lookups hvs) (h f vs hf hvs))
  · exact hhost
  · exact hhost

theorem answer (hhost : host.Fits) (down : List Outage) (c : Call)
    (hsource : ∀ source ∈ Visit.source? (.call down c), TextFits source) (h : host.Moderate (.call down c)) :
    (host.answer down c).2.Fits := by
  cases c with
  | evaluate source options =>
      rw [Host.answer]
      split
      · exact hhost
      · exact hhost.evaluate (hsource source rfl) options (h ‹_›)
  | bind name id =>
      rw [Host.answer]
      split
      · exact hhost
      · exact hhost.bind name id
  | inspect id style =>
      rw [Host.answer]
      split <;> exact hhost
  | release group => exact ⟨hhost.realm, fun handle hhandle => hhost.handles handle (List.mem_filter.mp hhandle).1⟩
  | _ => exact hhost

theorem visit (hhost : host.Fits) (v : Visit) (hsource : ∀ source ∈ v.source?, TextFits source)
    (h : host.Moderate v) : (host.visit v).Fits := by
  cases v with
  | call down c => exact hhost.answer down c hsource h
  | callFunction function args group => exact hhost.callFunction function args group h
  | takeGroup => exact ⟨hhost.realm, hhost.handles⟩

theorem visits (hhost : host.Fits) (vs : List Visit) (hsources : ∀ v ∈ vs, ∀ source ∈ v.source?, TextFits source)
    (h : host.ModerateAlong vs) : (vs.foldl Host.visit host).Fits := by
  induction vs generalizing host with
  | nil => exact hhost
  | cons v vs ih =>
      obtain ⟨hfirst, hrest⟩ := List.forall_mem_cons.mp hsources
      exact ih (hhost.visit v hfirst h.1) hrest h.2

end Fits

end Host

/-! ### Texts that only grow -/

section

open Syntax Syntax.Grammar

/-- A source that is the declaration of a variable with a value. -/
theorem parseProgram_of_declaration {source name : String} (kinds : List TokenKind) {e : Expr}
    (hkinds : (significant (lex source).tokens).map Token.kind =
      .keyword (.decl .varKind) :: .name name :: .punct .assign :: kinds)
    (hwhole : (lex source).result.toOption.isSome = true)
    (he : ∀ ts : List Token, ts.map Token.kind = kinds → Expression ts e) :
    parseProgram source = .ok [.decl .varKind name (some e)] := by
  generalize hlex : lex source = lexed at hkinds hwhole
  obtain ⟨ts, result⟩ := lexed
  cases result with
  | error e => cases hwhole
  | ok mark =>
      obtain ⟨key, us, hts, hkey, hus⟩ := List.map_eq_cons_iff.mp hkinds
      obtain ⟨target, us, rfl, htarget, hus⟩ := List.map_eq_cons_iff.mp hus
      obtain ⟨assign, us, rfl, hassign, hus⟩ := List.map_eq_cons_iff.mp hus
      have hbody : Body (key :: target :: assign :: us) (.decl .varKind name (some e)) :=
        .valued hkey htarget hassign (he us hus)
      have hprogram := Program.ended hbody (Parser.ends_nil 0) nofun .nil
      rw [List.append_nil, ← hts] at hprogram
      exact parseProgram_derives.mpr ⟨ts, mark, hlex, hprogram⟩

theorem parse_letter : parseProgram "var s = 'a'" = .ok [.decl .varKind "s" (some (.text "a"))] := by
  refine parseProgram_of_declaration [.text "a"] (by decide +kernel) (by decide +kernel) fun ts hts => ?_
  obtain ⟨t, ts, rfl, ht, hts⟩ := List.map_eq_cons_iff.mp hts
  obtain rfl := List.map_eq_nil_iff.mp hts
  exact (Primary.text ht).assignment

theorem parse_twice :
    parseProgram "var s = s + s" = .ok [.decl .varKind "s" (some (.binary .add (.name "s") (.name "s")))] := by
  refine parseProgram_of_declaration [.name "s", .punct .plus, .name "s"] (by decide +kernel) (by decide +kernel)
    fun ts hts => ?_
  simp only [List.map_eq_cons_iff, List.map_eq_nil_iff] at hts
  obtain ⟨left, _, rfl, hleft, plus, _, rfl, hplus, right, _, rfl, hright, rfl⟩ := hts
  have hname (room : Nat) {stratum : Nat} {t : Token} (ht : t.kind = .name "s") (hstratum : stratum ≤ 8) :
      Binary (Nested.none.within room) stratum [t] (.name "s") :=
    (Chain.primary (.name ht)).binary hstratum
  have hadd : (Punct.plus, Expr.binary .add) ∈ operators 6 := by simp [operators]
  have hsum : Binary (Nested.none.within Parser.maxNesting) 6 ([left] ++ plus :: [right]) _ :=
    .operator (hname _ hleft (by decide)) hadd hplus (hname 127 hright (by decide))
  exact .conditional (.binary (hsum.of_le (by decide)))

end

namespace Eval

theorem Then.of_outcome {x : Eval α} {next : α → Run → Prop} {a : α} {run after : Run}
    (h : x.outcome run = (.ok a, after)) (hnext : next a after) : Then x next run := by
  intro _ _ hout
  cases h.symm.trans hout
  exact hnext

end Eval

namespace Evaluation

theorem applyBinary_texts (h : Heap) (s t : String) : applyBinary h .add (.text s) (.text t) = .text (s ++ t) := by
  simp only [applyBinary, isTextual, Bool.or_self, if_true, Heap.display, Heap.displayAt]

theorem outcome_text (text : String) (realm : Realm) :
    (eval false 0 (.text text)).outcome ⟨realm, none⟩ = (.ok (.text text), ⟨realm, none⟩) := by
  rw [eval]
  rfl

theorem outcome_name {realm : Realm} {name : String} {b : Binding} (hb : realm.globals.get? name = some b) :
    (eval false 1 (.name name)).outcome ⟨realm, none⟩ = (.ok b.value, ⟨realm, none⟩) := by
  have htick : tick.outcome ⟨realm, none⟩ = (.ok (), ⟨realm, none⟩) := rfl
  have hguard : (guardDepth 1).outcome ⟨realm, none⟩ = (.ok (), ⟨realm, none⟩) := rfl
  rw [eval, outcome_bind, htick]
  dsimp only
  rw [outcome_bind, hguard]
  dsimp only
  rw [outcome_bind, outcome_globals]
  dsimp only
  rw [hb]
  rfl

/-- A variable that is a text, added to itself. -/
theorem outcome_twice {realm : Realm} {name text : String}
    (htext : realm.globals.get? name = some ⟨.text text, .varKind⟩) :
    (eval false 0 (.binary .add (.name name) (.name name))).outcome ⟨realm, none⟩ =
      (.ok (.text (text ++ text)), ⟨realm, none⟩) := by
  have hname := outcome_name htext
  rw [eval]
  change ((eval false 1 (.name name) >>= fun a => eval false 1 (.name name) >>= fun b =>
    heap >>= fun h => pure (applyBinary h .add a b) : Eval Value)).outcome ⟨realm, none⟩ = _
  rw [outcome_bind, hname]
  dsimp only
  rw [outcome_bind, hname]
  exact congrArg (fun v => (Except.ok v, (⟨realm, none⟩ : Run))) (applyBinary_texts realm.heap text text)

end Evaluation

namespace Host

variable {host : Host} {source name : String} {e : Expr} {v : Value}

/-- What is declared is a variable with the value of the initializer. -/
theorem get?_evaluate_declaration (hparse : Syntax.parseProgram source = .ok [.decl .varKind name (some e)])
    (hfree : Evaluation.Clashes host.realm.globals .varKind name = false)
    (he : (Evaluation.eval false 0 e).outcome ⟨host.realm, none⟩ = (.ok v, ⟨host.realm, none⟩)) :
    (host.visit (.call [] (.evaluate source {}))).realm.globals.get? name = some ⟨v, .varKind⟩ := by
  have hdeclare : (Evaluation.declare false .varKind name (some e)).outcome ⟨host.realm, none⟩ =
      (setGlobal name ⟨v, .varKind⟩).outcome ⟨host.realm, none⟩ := by
    rw [Evaluation.outcome_declare, hfree, if_neg Bool.false_ne_true]
    dsimp only
    rw [outcome_bind, he]
  have hrun : (programOf source {}).outcome ⟨host.realm, none⟩ =
      (.ok .undefined, ⟨{ host.realm with globals := host.realm.globals.insert name ⟨v, .varKind⟩ }, none⟩) := by
    unfold programOf
    rw [hparse]
    change (Evaluation.declare false .varKind name (some e) >>= fun _ => _ : Eval Value).outcome _ = _
    rw [outcome_bind, hdeclare]
    rfl
  have hout : (programOf source {}).run.run ⟨host.realm, none⟩ =
      (programOf source {}).outcome ⟨host.realm, none⟩ := rfl
  change (host.perform none none (programOf source {})).2.realm.globals.get? name = _
  rw [perform, hout, hrun]
  exact Dict.get?_insert_self _ _ _

/-- The variable is the text. -/
def Stands (host : Host) (name text : String) : Prop :=
  host.realm.globals.get? name = some ⟨.text text, .varKind⟩

def declareLetter : Visit :=
  .call [] (.evaluate "var s = 'a'" {})

def declareTwice : Visit :=
  .call [] (.evaluate "var s = s + s" {})

theorem stands_declareLetter : ((fresh 1).visit declareLetter).Stands "s" "a" :=
  get?_evaluate_declaration parse_letter (by decide) (Evaluation.outcome_text "a" _)

theorem stands_declareTwice {text : String} (h : host.Stands "s" text) :
    (host.visit declareTwice).Stands "s" (text ++ text) := by
  refine get?_evaluate_declaration parse_twice ?_ (Evaluation.outcome_twice h)
  rw [Evaluation.Clashes, h]
  rfl

/-- Each time the text gets twice as long. -/
theorem stands_replicate_declareTwice {text : String} (h : host.Stands "s" text) (n : Nat) :
    ∃ grown, ((List.replicate n declareTwice).foldl visit host).Stands "s" grown ∧
      grown.utf8ByteSize = text.utf8ByteSize * 2 ^ n := by
  induction n generalizing host text with
  | zero => exact ⟨text, h, (Nat.mul_one _).symm⟩
  | succ n ih =>
      obtain ⟨grown, hgrown, hsize⟩ := ih (stands_declareTwice h)
      refine ⟨grown, hgrown, ?_⟩
      rw [hsize, String.utf8ByteSize_append, Nat.pow_succ, ← Nat.two_mul, Nat.mul_comm 2, Nat.mul_assoc,
        Nat.mul_comm 2]

theorem textFits_declareLetter : ∀ source ∈ declareLetter.source?, TextFits source := by
  rintro _ ⟨⟩
  decide

theorem textFits_declareTwice : ∀ source ∈ declareTwice.source?, TextFits source := by
  rintro _ ⟨⟩
  decide

theorem moderate_declareLetter (host : Host) : host.Moderate declareLetter := by
  intro _ program hparse
  cases parse_letter.symm.trans hparse
  refine ⟨fun _ _ _ _ e he => ?_, fun _ _ _ => trivial⟩
  cases he
  rw [Evaluation.Moderate.eq_def]
  exact fun _ _ _ _ _ _ => trivial

theorem moderate_declareTwice {text : String} (h : host.Stands "s" text) (hsum : TextFits (text ++ text)) :
    host.Moderate declareTwice := by
  have hname := Evaluation.outcome_name h
  have hread : Evaluation.Moderate false 1 (.name "s") ⟨host.realm, none⟩ := by
    rw [Evaluation.Moderate.eq_def]
    exact fun _ _ _ _ _ _ => trivial
  intro _ program hparse
  cases parse_twice.symm.trans hparse
  refine ⟨.of_outcome rfl fun _ e he => ?_, fun _ _ _ => trivial⟩
  cases he
  rw [Evaluation.Moderate.eq_def]
  refine .of_outcome rfl (.of_outcome rfl ⟨hread, .of_outcome hname ⟨hread, .of_outcome hname fun _ => ?_⟩⟩)
  rw [Evaluation.applyBinary_texts]
  exact hsum

/-- Whatever callers do with sources that are not too long, no value that came out of it or is stored in a global name,
in an object or for a method is a text that is too long, provided that no sum, template, error message or native that
does not look at the length of the text it builds makes one. -/
theorem texts_fit (seed : UInt64) (visits : List Visit)
    (hsources : ∀ v ∈ visits, ∀ source ∈ v.source?, TextFits source)
    (hmoderate : (fresh seed).ModerateAlong visits) : (visits.foldl visit (fresh seed)).Fits :=
  (Fits.fresh seed).visits visits hsources hmoderate

/-- A text that is doubled once. -/
theorem texts_fit_twice :
    let visits := [declareLetter, declareTwice]
    (∀ v ∈ visits, ∀ source ∈ v.source?, TextFits source) ∧ (fresh 1).ModerateAlong visits ∧
      (visits.foldl visit (fresh 1)).Fits := by
  intro visits
  have hsources : ∀ v ∈ visits, ∀ source ∈ v.source?, TextFits source := by
    intro v hv
    rcases List.mem_pair.mp hv with rfl | rfl
    · exact textFits_declareLetter
    · exact textFits_declareTwice
  have hmoderate : (fresh 1).ModerateAlong visits :=
    ⟨moderate_declareLetter _, moderate_declareTwice stands_declareLetter (by decide), trivial⟩
  exact ⟨hsources, hmoderate, texts_fit 1 visits hsources hmoderate⟩

/-- A sum of texts does not look at the length of what it builds. -/
theorem sums_unlimited :
    let visits := declareLetter :: List.replicate 29 declareTwice
    (∀ v ∈ visits, ∀ source ∈ v.source?, TextFits source) ∧ ¬ (visits.foldl visit (fresh 1)).Fits := by
  constructor
  · intro v hv
    rcases List.mem_cons.mp hv with rfl | hv
    · exact textFits_declareLetter
    · rw [List.eq_of_mem_replicate hv]
      exact textFits_declareTwice
  · intro hfits
    rw [List.foldl_cons] at hfits
    obtain ⟨grown, hgrown, hsize⟩ := stands_replicate_declareTwice stands_declareLetter 29
    have hlong : maxTextBytes < grown.utf8ByteSize := by
      rw [hsize]
      decide
    have hshort : TextFits grown := hfits.realm.globals _ (Dict.mem_of_get? hgrown)
    exact absurd hshort (Nat.not_le_of_lt hlong)

end Host

end ScriptRepl
