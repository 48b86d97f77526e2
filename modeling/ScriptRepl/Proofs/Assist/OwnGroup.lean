import ScriptRepl.Assist.Completion
import ScriptRepl.Assist.Preview
import ScriptRepl.Proofs.Realm.Holding

/-! A completion or a preview names only the handle that it has just taken, and ends with none in its group. -/
namespace ScriptRepl.Assist

/-- All calls are in the group and name handles in it. -/
abbrev Keeps (group : Group) {α : Type} (post : Holdings → α → Prop) : Request α → Holdings → Prop :=
  Request.Orderly (· = group) (fun _ => True) post

section

variable {α β : Type} {group : Group} {held : Holdings}

theorem keeps_ask {post : Holdings → β → Prop} {c : Call} {f : c.Reply → Request β}
    (hminds : c.Minds (· = group) held) (h : ∀ reply, Keeps group post (f reply) (c.after held reply)) :
    Keeps group post (Request.ask c >>= f) held :=
  Request.Orderly.ask trivial hminds h

/-- Of two attempts in turn the second one is made if the first one has not failed. -/
theorem keeps_attempt_bind {mid : Holdings → α → Prop} {x : Attempt α} {f : α → Attempt β}
    (hx : Keeps group (fun held result => ∀ a, result = .ok a → mid held a) x.run held)
    (hf : ∀ held a, mid held a → Keeps group (fun _ _ => True) (f a).run held) :
    Keeps group (fun _ _ => True) (x >>= f).run held := by
  refine Request.Orderly.bind hx fun held result hresult => ?_
  cases result with
  | ok a => exact hf held a (hresult a rfl)
  | error e => trivial

/-- The value is that of a handle in the group. -/
def Held (group : Group) (held : Holdings) (v? : Option Remote) : Prop :=
  ∀ v, v? = some v → v.id ∈ held group

theorem held_after_evaluate {source : String} {options : EvalOptions} (hgroup : options.group = some group)
    {v : Remote} {outcome : Outcome} (houtcome : outcome = .value v ∨ outcome = .exception v) :
    v.id ∈ (Call.evaluate source options).after held (.ok outcome) group := by
  obtain rfl | rfl := houtcome
  all_goals
    simp only [Call.after, hgroup, Holdings.register, Function.update_self]
    exact List.mem_append_right _ (List.mem_singleton_self _)

theorem keeps_peekValue (source : String) (group : Group) (held : Holdings) :
    Keeps group (fun held result => ∀ v?, result = .ok v? → Held group held v?) (peekValue source group).run held := by
  refine keeps_ask ⟨group, rfl, rfl⟩ fun reply => ?_
  cases reply with
  | ok outcome =>
      cases outcome with
      | value v =>
          rintro _ ⟨⟩ v' ⟨⟩
          exact held_after_evaluate rfl (.inl rfl)
      | exception v =>
          rintro _ ⟨⟩
          nofun
  | error e =>
      cases e with
      | timeout =>
          rintro _ ⟨⟩
          nofun
      | _ => nofun

theorem keeps_chainValue (source : String) (ts : List Syntax.Token) (group : Group) (held : Holdings) :
    Keeps group (fun held result => ∀ v?, result = .ok v? → Held group held v?) (chainValue source ts group).run
      held := by
  unfold chainValue
  split
  · exact keeps_peekValue _ group held
  · rintro _ ⟨⟩
    nofun

theorem keeps_completeMember (source : String) (target : List Syntax.Token) (word : String) (group : Group)
    (held : Holdings) : Keeps group (fun _ _ => True) (completeMember source target word group).run held := by
  refine keeps_attempt_bind (keeps_chainValue source target group held) fun held v? hheld => ?_
  cases v? with
  | none => trivial
  | some v =>
      refine ⟨trivial, ?_, fun reply => ?_⟩
      · rintro id ⟨⟩
        exact ⟨group, rfl, hheld v rfl⟩
      · cases reply with
        | ok properties => trivial
        | error e => trivial

theorem keeps_completeName (word : String) (group : Group) (held : Holdings) :
    Keeps group (fun _ _ => True) (completeName word).run held :=
  ⟨trivial, nofun, fun _ => trivial⟩

theorem keeps_completeCall (source : String) (ts : List Syntax.Token) (group : Group) (held : Holdings) :
    Keeps group (fun _ _ => True) (completeCall source ts group).run held := by
  unfold completeCall
  split
  · trivial
  · refine keeps_attempt_bind (keeps_chainValue source _ group held) fun held v? hheld => ?_
    cases v? with
    | none => trivial
    | some v =>
        refine ⟨trivial, ?_, fun reply => trivial⟩
        rintro id ⟨⟩
        exact ⟨group, rfl, hheld v rfl⟩

theorem keeps_completeWord (source : String) (ts : List Syntax.Token) (group : Group) (held : Holdings) :
    Keeps group (fun _ _ => True) (completeWord source ts group).run held := by
  unfold completeWord
  split
  · trivial
  · split
    · exact keeps_completeMember source _ _ group held
    · split
      · exact keeps_completeMember source _ _ group held
      · split
        · trivial
        · exact keeps_completeName _ group held
    · split
      · trivial
      · exact keeps_completeName _ group held
    · trivial

theorem keeps_completeTokens (source : String) (ts : List Syntax.Token) (group : Group) (held : Holdings) :
    Keeps group (fun _ _ => True) (completeTokens source ts group).run held := by
  unfold completeTokens
  dsimp only
  split
  · exact keeps_completeCall source _ group held
  · refine Request.Orderly.bind (keeps_completeWord source ts group held) fun held result _ => ?_
    cases result with
    | error e => trivial
    | ok word? =>
        cases word? with
        | some c => trivial
        | none => exact keeps_completeCall source _ group held

theorem keeps_completeSource (source : String) (group : Group) (held : Holdings) :
    Keeps group (fun _ _ => True) (completeSource source group).run held := by
  unfold completeSource
  dsimp only
  split
  · trivial
  · split
    · trivial
    · split
      · trivial
      · exact keeps_completeTokens source _ group held

theorem keeps_inspectValue (source : String) (ticks : Option Nat) (group : Group) (held : Holdings) :
    Keeps group (fun _ _ => True) (inspectValue source ticks group) held := by
  refine keeps_ask ⟨group, rfl, rfl⟩ fun reply => ?_
  split
  · split
    · trivial
    · rename_i v _
      refine keeps_ask ?_ fun reply => ?_
      · rintro id ⟨⟩
        exact ⟨group, rfl, held_after_evaluate rfl (.inl rfl)⟩
      · split <;> trivial
  · trivial

/-- Work in a group that ends with giving it back leaves no handle in it. -/
theorem keeps_release {x : Request α} (hx : Keeps group (fun _ _ => True) x held) (f : α → β) :
    Keeps group (fun held _ => held group = []) (do
      let a ← x
      Request.ask (.release group)
      return f a) held := by
  refine hx.bind fun held a _ => keeps_ask rfl fun reply => ?_
  have hafter : Function.update held group [] group = [] := Function.update_self group [] held
  exact hafter

theorem keeps_complete (source : String) (group : Group) (held : Holdings) :
    Keeps group (fun held _ => held group = []) (complete source group) held :=
  keeps_release (keeps_completeSource source group held) id

theorem keeps_preview (source : String) (width : Nat) (ticks : Option Nat) (group : Group) {held : Holdings}
    (hnone : held group = []) :
    Keeps group (fun held _ => held group = []) (preview source width ticks group) held := by
  unfold preview
  split
  · exact hnone
  · exact keeps_release (keeps_inspectValue source ticks group held) _

end

end ScriptRepl.Assist
