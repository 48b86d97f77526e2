import Mathlib.Data.List.Nodup
import Mathlib.Logic.Function.Basic
import ScriptRepl.Realm.Request

/-! Who holds which handle. A request that keeps to groups of its own names only handles that it holds, and the others
hold theirs whatever it does. -/
namespace ScriptRepl

/-! ### Names of groups -/

namespace Group

/-- A number can be read back from its digits. -/
theorem number_inj {s : String} {m n : Nat} (h : named (s ++ toString m) = named (s ++ toString n)) : m = n := by
  have htext : toString m = toString n := (String.append_right_inj s).mp (Group.mk.inj h)
  have hdigits : Nat.toDigits 10 m = Nat.toDigits 10 n := String.ofList_injective htext
  rw [← Nat.ofDigitChars_toDigits (by decide) (Nat.le_refl 10) (n := m), hdigits,
    Nat.ofDigitChars_toDigits (by decide) (Nat.le_refl 10)]

theorem line_inj {m n : Nat} (h : line m = line n) : m = n :=
  number_inj h

theorem completion_inj {m n : Nat} (h : completion m = completion n) : m = n :=
  number_inj h

theorem preview_inj {m n : Nat} (h : preview m = preview n) : m = n :=
  number_inj h

/-- Names whose first letters differ. -/
theorem named_ne {s s' : String} (h : s.toList.head? ≠ s'.toList.head?) : named s ≠ named s' := by
  intro heq
  rw [Group.mk.inj heq] at h
  exact h rfl

theorem line_ne_completion (m n : Nat) : line m ≠ completion n :=
  named_ne (by simp)

theorem line_ne_preview (m n : Nat) : line m ≠ preview n :=
  named_ne (by simp)

theorem completion_ne_preview (m n : Nat) : completion m ≠ preview n :=
  named_ne (by simp)

end Group

/-! ### What calls do to the handles -/

/-- The numbers of the handles in each group. -/
abbrev Holdings := Group → List Nat

def Holdings.register (held : Holdings) (group : Option Group) (id : Nat) : Holdings :=
  match group with
  | some group => Function.update held group (held group ++ [id])
  | none => held

namespace Call

/-- By its answer. -/
def after (held : Holdings) : (c : Call) → c.Reply → Holdings
  | .evaluate _ options, .ok (.value v) => held.register options.group v.id
  | .evaluate _ options, .ok (.exception v) => held.register options.group v.id
  | .release group, _ => Function.update held group []
  | _, _ => held

def returned : Call → List Group
  | .release group => [group]
  | _ => []

def handle? : Call → Option Nat
  | .inspect id _ | .bind _ id | .properties id | .builtin id => some id
  | _ => none

/-- Takes and gives back handles in groups of its own, and names only handles in these. -/
def Minds (owned : Group → Prop) (held : Holdings) : Call → Prop
  | .evaluate _ options => ∃ group, options.group = some group ∧ owned group
  | .release group => owned group
  | c => ∀ id ∈ c.handle?, ∃ group, owned group ∧ id ∈ held group

/-- The answer is that there is no such handle. -/
def Unknown : (c : Call) → c.Reply → Prop
  | .evaluate _ _, .error (.unknown _) => True
  | .inspect _ _, .error (.unknown _) => True
  | .bind _ _, .error (.unknown _) => True
  | .properties _, .error (.unknown _) => True
  | _, _ => False

theorem after_congr {held held' : Holdings} (c : Call) (reply : c.Reply) {group : Group}
    (h : held group = held' group) : c.after held reply group = c.after held' reply group := by
  have hregister : ∀ group? id, held.register group? id group = held'.register group? id group := by
    intro group? id
    cases group? with
    | none => exact h
    | some other =>
        by_cases heq : group = other
        · subst heq
          simp only [Holdings.register, Function.update_self, h]
        · simp only [Holdings.register, Function.update_of_ne heq, h]
  cases c with
  | evaluate source options =>
      cases reply with
      | error e => exact h
      | ok outcome => cases outcome <;> exact hregister _ _
  | release other =>
      by_cases heq : group = other
      · subst heq
        simp only [after, Function.update_self]
      · simp only [after, Function.update_of_ne heq, h]
  | _ => exact h

/-- A call leaves the handles in the groups of others. -/
theorem after_of_not_owned {owned : Group → Prop} {held : Holdings} {c : Call} (h : c.Minds owned held)
    (reply : c.Reply) {group : Group} (hgroup : ¬ owned group) : c.after held reply group = held group := by
  have hne : ∀ {other}, owned other → group ≠ other := by
    rintro other hother rfl
    exact hgroup hother
  cases c with
  | evaluate source options =>
      obtain ⟨other, hother, howned⟩ := h
      cases reply with
      | error e => rfl
      | ok outcome =>
          cases outcome <;> simp only [after, hother, Holdings.register, Function.update_of_ne (hne howned)]
  | release other => exact Function.update_of_ne (hne h) _ _
  | _ => rfl

theorem Minds.congr {owned : Group → Prop} {held held' : Holdings} {c : Call} (h : c.Minds owned held)
    (hsame : ∀ group, owned group → held group = held' group) : c.Minds owned held' := by
  have hnames : (∀ id ∈ c.handle?, ∃ group, owned group ∧ id ∈ held group) →
      ∀ id ∈ c.handle?, ∃ group, owned group ∧ id ∈ held' group := by
    intro hheld id hid
    obtain ⟨group, howned, hmem⟩ := hheld id hid
    exact ⟨group, howned, hsame group howned ▸ hmem⟩
  cases c with
  | evaluate source options => exact h
  | release group => exact h
  | _ => exact hnames h

theorem Minds.returned {owned : Group → Prop} {held : Holdings} {c : Call} (h : c.Minds owned held) :
    ∀ group ∈ c.returned, owned group := by
  cases c with
  | release group =>
      intro group' hgroup'
      rw [List.mem_singleton.mp hgroup']
      exact h
  | _ => nofun

end Call

namespace Request

variable {α β : Type} {owned : Group → Prop} {inv : Holdings → Prop} {post : Holdings → α → Prop}

/-- Every call minds the handles it finds, whatever the replies are; `inv` holds before each of them and `post` at
the end. -/
def Orderly (owned : Group → Prop) (inv : Holdings → Prop) (post : Holdings → α → Prop) : Request α → Holdings → Prop
  | .done a, held => post held a
  | .call c next, held =>
    inv held ∧ c.Minds owned held ∧ ∀ reply, (next reply).Orderly owned inv post (c.after held reply)

theorem Orderly.ask {post : Holdings → β → Prop} {c : Call} {held : Holdings} {f : c.Reply → Request β}
    (hinv : inv held) (hminds : c.Minds owned held)
    (h : ∀ reply, (f reply).Orderly owned inv post (c.after held reply)) :
    (Request.ask c >>= f).Orderly owned inv post held :=
  ⟨hinv, hminds, h⟩

theorem Orderly.bind {mid : Holdings → α → Prop} {post : Holdings → β → Prop} {x : Request α} {f : α → Request β}
    {held : Holdings} (hx : x.Orderly owned inv mid held)
    (hf : ∀ held a, mid held a → (f a).Orderly owned inv post held) : (x >>= f).Orderly owned inv post held := by
  induction x generalizing held with
  | done a => exact hf held a hx
  | call c next ih => exact ⟨hx.1, hx.2.1, fun reply => ih reply (hx.2.2 reply)⟩

/-- What others do in their groups makes no difference. -/
theorem Orderly.congr {reads : Group → Prop} (howned : ∀ group, owned group → reads group)
    (hinv : ∀ {held held' : Holdings}, (∀ group, reads group → held group = held' group) → inv held → inv held')
    (hpost : ∀ {held held' : Holdings} {a}, (∀ group, reads group → held group = held' group) →
      post held a → post held' a)
    {x : Request α} {held held' : Holdings} (hsame : ∀ group, reads group → held group = held' group)
    (hx : x.Orderly owned inv post held) : x.Orderly owned inv post held' := by
  induction x generalizing held held' with
  | done a => exact hpost hsame hx
  | call c next ih =>
      obtain ⟨hbefore, hminds, hnext⟩ := hx
      refine ⟨hinv hsame hbefore, ?_, fun reply => ?_⟩
      · exact hminds.congr fun group hgroup => hsame group (howned group hgroup)
      · exact ih reply (fun group hgroup => c.after_congr reply (hsame group hgroup)) (hnext reply)

end Request

namespace Host

/-! ### On a host -/

/-- The handles from a number on; the older ones are someone else's. -/
def holdings (first : Nat) (host : Host) : Holdings := fun group =>
  (host.handles.filter fun handle => first ≤ handle.id ∧ handle.group = some group).map (·.id)

/-- No two handles have the same number, and the next number is free. -/
structure Ordered (host : Host) : Prop where
  nodup : (host.handles.map (·.id)).Nodup
  lt : ∀ handle ∈ host.handles, handle.id < host.nextId

theorem Ordered.value?_register {host : Host} (h : host.Ordered) (v : Value) (group : Option Group) :
    (host.register v group).2.value? (host.register v group).1.id = some v := by
  have hold : host.handles.find? (·.id == host.nextId) = none := by
    rw [List.find?_eq_none]
    intro handle hhandle
    have hlt := h.lt handle hhandle
    simp only [beq_iff_eq]
    omega
  simp [register, value?, List.find?_append, hold]

theorem inspect_of_value? {host : Host} {id : Nat} {v : Value} (h : host.value? id = some v) (style : InspectStyle) :
    host.inspect id style = .ok (host.realm.heap.inspect style v) := by
  unfold inspect lookup
  rw [h]
  rfl

/-- A computation on the realm that ends adds the handle that it answers with, and else none. -/
theorem perform_cases (host : Host) (ticks : Option Nat) (group : Option Group) (x : Eval Value) :
    (host.perform ticks group x).2.nextGroup = host.nextGroup ∧
      ((∃ e, (host.perform ticks group x).1 = .error e ∧ (∀ id, e ≠ .unknown id) ∧
          (host.perform ticks group x).2.handles = host.handles ∧
          (host.perform ticks group x).2.nextId = host.nextId) ∨
        ∃ v : Value, ∃ remote : Remote, remote.id = host.nextId ∧
          ((host.perform ticks group x).1 = .ok (.value remote) ∨
            (host.perform ticks group x).1 = .ok (.exception remote)) ∧
          (host.perform ticks group x).2.handles = host.handles ++ [⟨host.nextId, v, group⟩] ∧
          (host.perform ticks group x).2.nextId = host.nextId + 1) := by
  unfold perform
  generalize x.run.run ⟨host.realm, ticks⟩ = out
  obtain ⟨result, run⟩ := out
  cases result with
  | ok v => exact ⟨rfl, .inr ⟨v, _, rfl, .inl rfl, rfl, rfl⟩⟩
  | error e =>
      cases e with
      | throw v => exact ⟨rfl, .inr ⟨v, _, rfl, .inr rfl, rfl, rfl⟩⟩
      | timeout => exact ⟨rfl, .inl ⟨_, rfl, nofun, rfl, rfl⟩⟩
      | fault => exact ⟨rfl, .inl ⟨_, rfl, nofun, rfl, rfl⟩⟩

/-- All that a call can do to the handles: nothing, or add one, or take away a group. -/
theorem answer_cases (down : List Outage) (host : Host) (c : Call) :
    (host.answer down c).2.nextGroup = host.nextGroup ∧
      (((host.answer down c).2.handles = host.handles ∧ (host.answer down c).2.nextId = host.nextId ∧
          (∀ held, c.after held (host.answer down c).1 = held) ∧ c.returned = []) ∨
        (∃ source options v, c = .evaluate source options ∧
          (host.answer down c).2.handles = host.handles ++ [⟨host.nextId, v, options.group⟩] ∧
          (host.answer down c).2.nextId = host.nextId + 1 ∧
          ∀ held, c.after held (host.answer down c).1 = held.register options.group host.nextId) ∨
        ∃ group, c = .release group) := by
  have hquiet : ∀ {c : Call}, (host.answer down c).2 = host → (∀ held, c.after held (host.answer down c).1 = held) →
      c.returned = [] → (host.answer down c).2.handles = host.handles ∧ (host.answer down c).2.nextId = host.nextId ∧
        (∀ held, c.after held (host.answer down c).1 = held) ∧ c.returned = [] := by
    intro c hhost hafter hreturned
    rw [hhost]
    exact ⟨rfl, rfl, hafter, hreturned⟩
  cases c with
  | evaluate source options =>
      by_cases hdown : Outage.evaluate ∈ down
      · have hanswer : host.answer down (.evaluate source options) = (.error Outage.evaluate.error, host) :=
          if_pos hdown
        refine ⟨by rw [hanswer], .inl (hquiet (by rw [hanswer]) ?_ rfl)⟩
        rw [hanswer]
        exact fun _ => rfl
      · have hanswer : host.answer down (.evaluate source options) = host.evaluate source options := if_neg hdown
        rw [hanswer]
        obtain ⟨hgroup, ⟨e, hreply, _, hhandles, hnext⟩ | ⟨v, remote, hid, hreply, hhandles, hnext⟩⟩ :=
          host.perform_cases options.ticks options.group (programOf source options)
        · refine ⟨hgroup, .inl ⟨hhandles, hnext, fun held => ?_, rfl⟩⟩
          rw [evaluate, hreply]
          rfl
        · refine ⟨hgroup, .inr (.inl ⟨source, options, v, rfl, hhandles, hnext, fun held => ?_⟩)⟩
          rw [evaluate, ← hid]
          obtain hreply | hreply := hreply <;> rw [hreply] <;> rfl
  | inspect id style =>
      have hhost : (host.answer down (.inspect id style)).2 = host := by
        dsimp only [answer]
        split <;> rfl
      exact ⟨by rw [hhost], .inl (hquiet hhost (fun _ => rfl) rfl)⟩
  | bind name id =>
      have hhost : (host.answer down (.bind name id)).2.handles = host.handles ∧
          (host.answer down (.bind name id)).2.nextId = host.nextId ∧
          (host.answer down (.bind name id)).2.nextGroup = host.nextGroup := by
        dsimp only [answer]
        split
        · exact ⟨rfl, rfl, rfl⟩
        · unfold Host.bind
          split <;> exact ⟨rfl, rfl, rfl⟩
      exact ⟨hhost.2.2, .inl ⟨hhost.1, hhost.2.1, fun _ => rfl, rfl⟩⟩
  | properties id => exact ⟨rfl, .inl (hquiet rfl (fun _ => rfl) rfl)⟩
  | builtin id => exact ⟨rfl, .inl (hquiet rfl (fun _ => rfl) rfl)⟩
  | globalNames => exact ⟨rfl, .inl (hquiet rfl (fun _ => rfl) rfl)⟩
  | release group => exact ⟨rfl, .inr (.inr ⟨group, rfl⟩)⟩

theorem holdings_answer {first : Nat} {host : Host} (hfirst : first ≤ host.nextId) (down : List Outage) (c : Call) :
    (host.answer down c).2.holdings first = c.after (host.holdings first) (host.answer down c).1 := by
  funext group
  obtain ⟨_, ⟨hhandles, _, hafter, _⟩ | ⟨source, options, v, rfl, hhandles, _, hafter⟩ | ⟨other, rfl⟩⟩ :=
    answer_cases down host c
  · rw [hafter, holdings, hhandles, holdings]
  · rw [hafter, holdings, hhandles, List.filter_append, List.map_append]
    cases hgroup : options.group with
    | none => simp [Holdings.register, holdings]
    | some other =>
        by_cases heq : group = other
        · subst heq
          simp [Holdings.register, holdings, hfirst]
        · have hne : other ≠ group := fun h => heq h.symm
          simp [Holdings.register, holdings, heq, hne]
  · have hhandles : (host.answer down (.release other)).2.handles =
        host.handles.filter fun handle => handle.group ≠ some other := rfl
    by_cases heq : group = other
    · subst heq
      simp [holdings, hhandles, Call.after, List.filter_filter]
    · simp only [holdings, hhandles, List.filter_filter, Call.after, Function.update_of_ne heq]
      refine congrArg _ (List.filter_congr fun handle _ => ?_)
      rw [← Bool.decide_and, decide_eq_decide]
      exact and_iff_left_of_imp fun h hother => heq (Option.some.inj (h.2.symm.trans hother))

theorem Ordered.of_same {host host' : Host} (h : host.Ordered) (hhandles : host'.handles = host.handles)
    (hnext : host'.nextId = host.nextId) : host'.Ordered :=
  ⟨by rw [hhandles]; exact h.nodup, by rw [hhandles, hnext]; exact h.lt⟩

/-- The next number is good for one more handle. -/
theorem Ordered.of_added {host host' : Host} (h : host.Ordered) {v : Value} {group : Option Group}
    (hhandles : host'.handles = host.handles ++ [⟨host.nextId, v, group⟩])
    (hnext : host'.nextId = host.nextId + 1) : host'.Ordered := by
  refine ⟨?_, ?_⟩
  · rw [hhandles, List.map_append, List.nodup_append]
    refine ⟨h.nodup, List.nodup_singleton _, ?_⟩
    intro id hid id' hid' heq
    obtain ⟨handle, hhandle, rfl⟩ := List.mem_map.mp hid
    have hlt := h.lt handle hhandle
    rw [heq, List.mem_singleton.mp hid'] at hlt
    exact Nat.lt_irrefl _ hlt
  · intro handle hhandle
    rw [hhandles] at hhandle
    rw [hnext]
    obtain hold | hnew := List.mem_append.mp hhandle
    · exact Nat.lt_succ_of_lt (h.lt handle hold)
    · rw [List.mem_singleton.mp hnew]
      exact Nat.lt_succ_self _

theorem Ordered.answer {host : Host} (h : host.Ordered) (down : List Outage) (c : Call) :
    (host.answer down c).2.Ordered := by
  obtain ⟨_, ⟨hhandles, hnext, _⟩ | ⟨source, options, v, rfl, hhandles, hnext, _⟩ | ⟨group, rfl⟩⟩ :=
    answer_cases down host c
  · exact h.of_same hhandles hnext
  · exact h.of_added hhandles hnext
  · refine ⟨h.nodup.sublist (List.filter_sublist.map _), fun handle hhandle => ?_⟩
    exact h.lt handle (List.mem_filter.mp hhandle).1

/-- What is left of the handles that a host had before: all but those in groups that were given back since. Every
handle that has come since is in a group. -/
structure Since (before : Host) (returned : List Group) (host : Host) : Prop where
  ordered : host.Ordered
  nextId_le : before.nextId ≤ host.nextId
  old : (host.handles.filter fun handle => handle.id < before.nextId) =
    before.handles.filter fun handle => ∀ group ∈ returned, handle.group ≠ some group
  grouped : ∀ handle ∈ host.handles, before.nextId ≤ handle.id → handle.group ≠ none

theorem Ordered.since {host : Host} (h : host.Ordered) : Since host [] host where
  ordered := h
  nextId_le := Nat.le_refl _
  old := by
    refine List.filter_congr fun handle hhandle => ?_
    rw [decide_eq_decide]
    exact iff_of_true (h.lt handle hhandle) nofun
  grouped := fun handle hhandle hle => absurd (h.lt handle hhandle) (Nat.not_lt.mpr hle)

theorem Since.answer {before host : Host} {returned : List Group} (h : Since before returned host)
    {owned : Group → Prop} {held : Holdings} {c : Call} (hminds : c.Minds owned held) (down : List Outage) :
    Since before (returned ++ c.returned) (host.answer down c).2 := by
  have hordered := h.ordered.answer down c
  obtain ⟨_, ⟨hhandles, hnext, _, hreturned⟩ | ⟨source, options, v, rfl, hhandles, hnext, _⟩ | ⟨group, rfl⟩⟩ :=
    answer_cases down host c
  · refine ⟨hordered, by rw [hnext]; exact h.nextId_le, ?_, by rw [hhandles]; exact h.grouped⟩
    rw [hhandles, hreturned, List.append_nil]
    exact h.old
  · refine ⟨hordered, by rw [hnext]; exact Nat.le_succ_of_le h.nextId_le, ?_, ?_⟩
    · have hnew : ¬ host.nextId < before.nextId := Nat.not_lt.mpr h.nextId_le
      have hreturned : (Call.evaluate source options).returned = [] := rfl
      rw [hhandles, List.filter_append, h.old, hreturned, List.append_nil]
      simp [hnew]
    · intro handle hhandle hle
      rw [hhandles] at hhandle
      obtain hold | hnew := List.mem_append.mp hhandle
      · exact h.grouped handle hold hle
      · obtain ⟨group, hgroup, _⟩ := hminds
        rw [List.mem_singleton.mp hnew, hgroup]
        nofun
  · refine ⟨hordered, h.nextId_le, ?_, fun handle hhandle => h.grouped handle (List.mem_filter.mp hhandle).1⟩
    have hhandles : (host.answer down (.release group)).2.handles =
        host.handles.filter fun handle => handle.group ≠ some group := rfl
    have hcomm : ((host.handles.filter fun handle => handle.group ≠ some group).filter fun handle =>
        handle.id < before.nextId) = (host.handles.filter fun handle =>
          handle.id < before.nextId).filter fun handle => handle.group ≠ some group := by
      rw [List.filter_filter, List.filter_filter]
      exact List.filter_congr fun _ _ => Bool.and_comm _ _
    rw [hhandles, hcomm, h.old, List.filter_filter]
    refine List.filter_congr fun handle _ => ?_
    rw [← Bool.decide_and, decide_eq_decide, Call.returned]
    constructor
    · rintro ⟨hgroup, hothers⟩ other hother
      obtain hother | hother := List.mem_append.mp hother
      · exact hothers other hother
      · rw [List.mem_singleton.mp hother]
        exact hgroup
    · intro hall
      exact ⟨hall group (List.mem_append_right _ (List.mem_singleton_self _)),
        fun other hother => hall other (List.mem_append_left _ hother)⟩

theorem mem_holdings {host : Host} {first id : Nat} {group : Group} :
    id ∈ host.holdings first group ↔
      ∃ handle ∈ host.handles, first ≤ handle.id ∧ handle.group = some group ∧ handle.id = id := by
  simp [holdings, and_assoc]

/-- A handle that is held is live. -/
theorem value?_of_held {host : Host} {first id : Nat} {group : Group} (h : id ∈ host.holdings first group) :
    (host.value? id).isSome = true := by
  obtain ⟨handle, hhandle, _, _, rfl⟩ := mem_holdings.mp h
  rw [value?, Option.isSome_map, List.find?_isSome]
  exact ⟨handle, hhandle, beq_self_eq_true _⟩

/-- No handle is held in two groups. -/
theorem Ordered.group_eq {host : Host} (h : host.Ordered) {first id : Nat} {group group' : Group}
    (hid : id ∈ host.holdings first group) (hid' : id ∈ host.holdings first group') : group = group' := by
  obtain ⟨handle, hmem, _, hgroup, rfl⟩ := mem_holdings.mp hid
  obtain ⟨handle', hmem', _, hgroup', heq⟩ := mem_holdings.mp hid'
  have hsame : handle' = handle := List.inj_on_of_nodup_map h.nodup hmem' hmem heq
  subst hsame
  exact Option.some.inj (hgroup.symm.trans hgroup')

/-- A call that names live handles only is never told that there is none. -/
theorem not_unknown {host : Host} {c : Call} (h : ∀ id ∈ c.handle?, (host.value? id).isSome = true)
    (down : List Outage) : ¬ c.Unknown (host.answer down c).1 := by
  have hlookup : ∀ id ∈ c.handle?, ∃ v, host.lookup id = .ok v := by
    intro id hid
    obtain ⟨v, hv⟩ := Option.isSome_iff_exists.mp (h id hid)
    exact ⟨v, by rw [lookup, hv]⟩
  cases c with
  | evaluate source options =>
      dsimp only [answer]
      split
      · nofun
      · rw [evaluate]
        obtain ⟨_, ⟨e, hreply, hknown, _⟩ | ⟨v, remote, _, hreply, _⟩⟩ :=
          host.perform_cases options.ticks options.group (programOf source options)
        · rw [hreply]
          cases e with
          | unknown id => exact absurd rfl (hknown id)
          | _ => nofun
        · obtain hreply | hreply := hreply <;> rw [hreply] <;> nofun
  | inspect id style =>
      obtain ⟨v, hv⟩ := hlookup id rfl
      dsimp only [answer]
      split
      · nofun
      · rw [inspect, hv]
        nofun
  | bind name id =>
      obtain ⟨v, hv⟩ := hlookup id rfl
      dsimp only [answer]
      split
      · nofun
      · rw [Host.bind, hv]
        nofun
  | properties id =>
      obtain ⟨v, hv⟩ := hlookup id rfl
      dsimp only [answer]
      rw [properties, hv]
      nofun
  | builtin id => exact fun h => h
  | globalNames => exact fun h => h
  | release group => exact fun h => h

/-- A call that minds what is held is never told that there is no such handle. -/
theorem not_unknown_of_minds {host : Host} {owned : Group → Prop} {first : Nat} {c : Call}
    (h : c.Minds owned (host.holdings first)) (down : List Outage) : ¬ c.Unknown (host.answer down c).1 := by
  refine not_unknown (fun id hid => ?_) down
  have hlive : (∀ id ∈ c.handle?, ∃ group, owned group ∧ id ∈ host.holdings first group) →
      (host.value? id).isSome = true := by
    intro hheld
    obtain ⟨group, _, hmem⟩ := hheld id hid
    exact value?_of_held hmem
  cases c with
  | evaluate source options => nomatch hid
  | release group => nomatch hid
  | globalNames => nomatch hid
  | _ => exact hlive h

end Host

end ScriptRepl
