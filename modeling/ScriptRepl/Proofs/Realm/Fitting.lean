import ScriptRepl.Proofs.Realm.Fits

/-! Computations that make no text too long: from a realm whose texts are not too long they leave such a realm, and
what they give is not too long. Of the natives these are all but those that `Builtin.builds` tells. -/
namespace ScriptRepl

namespace Eval

/-- The texts of the realm are not too long, nor is a value that is thrown, and what is given has the property. -/
structure Kept (P : α → Prop) (out : Except Interrupt α × Run) : Prop where
  realm : out.2.realm.Fits
  given : ∀ a, out.1 = .ok a → P a
  thrown : ∀ v, out.1 = .error (.throw v) → v.Fits

def Fitting (P : α → Prop) (x : Eval α) : Prop :=
  ∀ run : Run, run.realm.Fits → Kept P (x.outcome run)

theorem Kept.bind {P : α → Prop} {Q : β → Prop} {x : Eval α} {f : α → Eval β} {run : Run}
    (hx : Kept P (x.outcome run))
    (hf : ∀ a after, x.outcome run = (.ok a, after) → P a → after.realm.Fits → Kept Q ((f a).outcome after)) :
    Kept Q ((x >>= f).outcome run) := by
  rw [outcome_bind]
  cases hr : x.outcome run with
  | mk result after =>
      rw [hr] at hx
      cases result with
      | ok a => exact hf a after hr (hx.given a rfl) hx.realm
      | error e => exact ⟨hx.realm, nofun, fun v hv => hx.thrown v (congrArg Except.error (Except.error.inj hv))⟩

/-- What reads the heap first. -/
theorem Kept.heap {P : α → Prop} {k : Heap → Eval α} {run : Run} (hk : Kept P ((k run.realm.heap).outcome run)) :
    Kept P ((Eval.heap >>= k).outcome run) :=
  hk

theorem Kept.display {P : α → Prop} {v : Value} {k : String → Eval α} {run : Run}
    (hk : Kept P ((k (run.realm.heap.display v)).outcome run)) : Kept P ((Eval.display v >>= k).outcome run) :=
  hk

namespace Fitting

variable {P : α → Prop} {Q : β → Prop}

theorem pure {a : α} (ha : P a) : Fitting P (Pure.pure a) := by
  intro run hrun
  exact ⟨hrun, by rintro _ ⟨⟩; exact ha, nofun⟩

theorem bind {x : Eval α} {f : α → Eval β} (hx : Fitting P x) (hf : ∀ a, P a → Fitting Q (f a)) :
    Fitting Q (x >>= f) :=
  fun run hrun => (hx run hrun).bind fun a after _ ha hafter => hf a ha after hafter

/-- What only reads the heap. -/
theorem read {x : Eval α} {f : Heap → α} (hx : ∀ run, x.outcome run = (.ok (f run.realm.heap), run))
    {k : α → Eval β} (hk : ∀ h : Heap, h.Fits → Fitting Q (k (f h))) : Fitting Q (x >>= k) := by
  intro run hrun
  rw [outcome_bind, hx]
  exact hk _ hrun.heap run hrun

theorem heap {k : Heap → Eval α} (hk : ∀ h : Heap, h.Fits → Fitting P (k h)) : Fitting P (heap >>= k) :=
  read (f := id) (fun _ => rfl) hk

theorem display {v : Value} {k : String → Eval α} (hk : ∀ h : Heap, Fitting P (k (h.display v))) :
    Fitting P (display v >>= k) :=
  read (f := (·.display v)) (fun _ => rfl) fun h _ => hk h

theorem toNumber {v : Value} {k : Float → Eval α} (hk : ∀ x, Fitting P (k x)) : Fitting P (toNumber v >>= k) :=
  read (f := (·.toNumber v)) (fun _ => rfl) fun _ _ => hk _

theorem globals {k : Dict Binding → Eval α}
    (hk : ∀ d : Dict Binding, (∀ b ∈ d.values, b.value.Fits) → Fitting P (k d)) : Fitting P (globals >>= k) :=
  fun run hrun => hk _ hrun.globals run hrun

theorem setGlobal {name : String} {b : Binding} (hb : b.value.Fits) : Fitting (fun _ => True) (setGlobal name b) :=
  fun _ hrun => ⟨hrun.bind hb, fun _ _ => trivial, nofun⟩

theorem print (line : String) : Fitting (fun _ => True) (print line) :=
  fun _ hrun => ⟨⟨hrun.heap, hrun.globals⟩, fun _ _ => trivial, nofun⟩

theorem setHeap {h : Heap} (hh : h.Fits) : Fitting (fun _ => True) (setHeap h) :=
  fun _ hrun => ⟨hrun.withHeap hh, fun _ _ => trivial, nofun⟩

theorem alloc {o : Obj} (ho : o.Fits) : Fitting Value.Fits (alloc o) :=
  fun _ hrun => ⟨hrun.withHeap (hrun.heap.alloc ho), by rintro _ ⟨⟩; trivial, nofun⟩

theorem raise {name : String} (hname : TextFits name) (message : String) : Fitting P (raise name message) := by
  refine bind (alloc (.error hname)) fun v hv => ?_
  intro run hrun
  exact ⟨hrun, nofun, by rintro _ ⟨⟩; exact hv⟩

theorem throwFault : Fitting P (throw .fault : Eval α) :=
  fun _ hrun => ⟨hrun, nofun, nofun⟩

theorem tick : Fitting (fun _ => True) tick := by
  rintro ⟨realm, ticks⟩ hrun
  cases ticks with
  | none => exact ⟨hrun, fun _ _ => trivial, nofun⟩
  | some n =>
      cases n with
      | zero => exact ⟨hrun, nofun, nofun⟩
      | succ n => exact ⟨hrun, fun _ _ => trivial, nofun⟩

theorem ite {c : Prop} [Decidable c] {x y : Eval α} (hx : Fitting P x) (hy : Fitting P y) :
    Fitting P (if c then x else y) := by
  split
  · exact hx
  · exact hy

theorem guardDepth (depth : Nat) : Fitting (fun _ => True) (guardDepth depth) :=
  ite (raise (by decide) _) (pure trivial)

theorem guardEffect (speculative : Bool) : Fitting (fun _ => True) (guardEffect speculative) :=
  ite (raise (by decide) _) (pure trivial)

end Fitting

end Eval

open Eval

/-! ### Properties -/

theorem ne_text_of_lookup {table : List (String × Builtin)} {key : String} {f : Builtin}
    (htable : ∀ m ∈ table, ∀ op, m.2 ≠ .text op) (hf : table.lookup key = some f) (op : TextOp) : f ≠ .text op := by
  obtain ⟨before, after, rfl, -⟩ := List.lookup_eq_some_iff.mp hf
  exact htable (key, f) (List.mem_append_right _ List.mem_cons_self) op

theorem ne_text_of_objectProperty {o : Obj} {key : String} {f : Builtin} (hf : objectProperty o key = .method (some f))
    (op : TextOp) : f ≠ .text op := by
  have hcommon := fun (key : String) (hf : Builtin.commonMethods.lookup key = some f) =>
    ne_text_of_lookup (by simp [Builtin.commonMethods]) hf op
  have hlist := fun (key : String) (hf : Builtin.listMethods.lookup key = some f) =>
    ne_text_of_lookup (by simp [Builtin.listMethods]) hf op
  cases o with
  | plain fields =>
      rw [objectProperty] at hf
      split at hf
      · cases hf
      · exact hcommon key (Found.method.inj hf)
  | list items =>
      rw [objectProperty] at hf
      split at hf
      · cases hf
      · split at hf
        · cases hf
        · exact hlist key (Found.method.inj hf)
  | function g self =>
      rw [objectProperty] at hf
      split at hf
      · cases hf
      · split at hf
        · cases hf
        · exact hcommon key (Found.method.inj hf)
  | error name message =>
      rw [objectProperty] at hf
      split at hf
      · cases hf
      · split at hf
        · cases hf
        · exact hcommon key (Found.method.inj hf)

/-- Only texts have methods of texts. -/
theorem exists_text_of_method {h : Heap} {target : Value} {key : String} {op : TextOp}
    (hf : h.property? target key = some (.method (some (.text op)))) : ∃ s, target = .text s := by
  cases target with
  | undefined => cases hf
  | null => cases hf
  | bool b =>
      have hf := Found.method.inj (Option.some.inj hf)
      exact absurd rfl (ne_text_of_lookup (by simp [Builtin.commonMethods]) hf op)
  | number x =>
      have hf := Found.method.inj (Option.some.inj hf)
      exact absurd rfl (ne_text_of_lookup (by simp [Builtin.numberMethods]) hf op)
  | text s => exact ⟨s, rfl⟩
  | object r => exact absurd rfl (ne_text_of_objectProperty (Option.some.inj hf) op)

/-- The message of an error may be read, and is not looked at when it is made. -/
def MessageFits (h : Heap) (target : Value) (key : String) : Prop :=
  ∀ name message, h.object? target = some (.error name message) → key = "message" → TextFits message

theorem fits_of_objectProperty {o : Obj} (ho : o.Fits) {key : String} {v : Value}
    (hmessage : ∀ name message, o = .error name message → key = "message" → TextFits message)
    (hv : objectProperty o key = .stored v) : v.Fits := by
  cases o with
  | plain fields =>
      rw [objectProperty] at hv
      split at hv
      · rename_i hget
        cases hv
        exact ho.parts _ (Dict.mem_of_get? hget)
      · cases hv
  | list items =>
      rw [objectProperty] at hv
      split at hv
      · cases hv
        trivial
      · split at hv
        · cases hv
          rw [← Array.getElem?_toList]
          exact ho.parts.getD _
        · cases hv
  | function f self =>
      rw [objectProperty] at hv
      split at hv
      · cases hv
        exact .name f
      · split at hv <;> cases hv
        trivial
  | error name message =>
      rw [objectProperty] at hv
      split at hv
      · cases hv
        exact ho.name name message rfl
      · split at hv
        · rename_i hkey
          cases hv
          exact hmessage name message rfl hkey
        · cases hv

theorem fits_of_textProperty {s key : String} (hs : TextFits s) {v : Value} (hv : textProperty s key = .stored v) :
    v.Fits := by
  rw [textProperty] at hv
  split at hv
  · cases hv
    trivial
  · split at hv
    · split at hv
      · rename_i hc
        cases hv
        exact hs.of_char (List.mem_of_getElem? hc)
      · cases hv
        trivial
    · cases hv

theorem Heap.Fits.stored {h : Heap} (hh : h.Fits) {target v : Value} {key : String} (htarget : target.Fits)
    (hmessage : MessageFits h target key) (hv : h.property? target key = some (.stored v)) : v.Fits := by
  cases target with
  | text s => exact fits_of_textProperty htarget (Option.some.inj hv)
  | object r =>
      have hv := Option.some.inj hv
      cases hr : h.get? r with
      | none =>
          rw [hr] at hv
          exact fits_of_objectProperty (.plain fun _ hv => absurd hv List.not_mem_nil) nofun hv
      | some o =>
          rw [hr] at hv
          refine fits_of_objectProperty (hh r o hr) (fun name message ho => ?_) hv
          exact hmessage name message (hr.trans (congrArg some ho))
  | _ => cases hv

theorem kept_getProperty {target : Value} {key : String} {run : Run} (hrun : run.realm.Fits) (htarget : target.Fits)
    (hmessage : MessageFits run.realm.heap target key) : Kept Value.Fits ((getProperty target key).outcome run) := by
  unfold getProperty
  refine Kept.heap ?_
  split
  · rename_i v hv
    exact Fitting.pure (hrun.heap.stored htarget hmessage hv) run hrun
  · rename_i f hf
    cases f with
    | none => exact Fitting.pure trivial run hrun
    | some f =>
        refine Fitting.alloc (.function ?_ ?_) run hrun
        · exact fun v hv => List.mem_singleton.mp hv ▸ htarget
        · rintro op rfl
          obtain ⟨s, rfl⟩ := exists_text_of_method hf
          exact ⟨s, rfl⟩
  · refine (Fitting.display fun h => ?_) run hrun
    exact .raise (by decide) _

theorem fitting_setProperty (target : Value) (key : String) {v : Value} (hv : v.Fits) :
    Fitting (fun _ => True) (setProperty target key v) := by
  have hrefused : ∀ target : Value, Fitting (fun _ => True) (do
      let shown ← display target
      raise "TypeError" ("Cannot set properties of " ++ shown ++ " (setting '" ++ key ++ "')") : Eval Unit) :=
    fun target => .display fun _ => .raise (by decide) _
  cases target with
  | undefined => exact hrefused _
  | null => exact hrefused _
  | object r =>
      refine .heap fun h hh => ?_
      split
      · exact .pure trivial
      · rename_i o hr
        split
        · rename_i o' ho
          exact .setHeap (hh.set r ((hh r o hr).write hv ho))
        · exact .throwFault
  | _ => exact .pure trivial

/-! ### Native functions -/

/-- Whether a native makes a text of others without a look at its length: it puts texts or keys together, changes
their letters, or turns an object into a text. -/
def Builtin.builds (f : Builtin) (self first : Value) : Bool :=
  match f with
  | .jsonStringify | .fields .keys | .fields .entries => true
  | .text .toUpperCase | .text .toLowerCase | .list .join => true
  | .toText | .jsonParse => first.isObject
  | .toString => self.isObject
  | .math _ | .mathMax | .mathMin | .mathPow | .mathRandom | .fields .values | .isArray | .toNumber | .toBoolean
  | .consoleLog | .consoleError | .parseInt | .parseFloat | .isNaN | .isFinite | .toFixed => false
  | .text .trim | .text .includes | .text .startsWith | .text .endsWith | .text .slice | .text .split
  | .text .repeated | .text .indexOf | .text .charAt => false
  | .list .includes | .list .indexOf | .list .slice | .list .concat | .list .reverse | .list .push | .list .pop => false

theorem TextMethod.fits_repeated {s : String} {x : Float} {cs : List Char}
    (h : repeated s.toList s.utf8ByteSize x = .ok cs) : TextFits (String.ofList cs) := by
  have hsize : ∀ n, Text.size (List.replicate n s.toList).flatten = s.utf8ByteSize * n := by
    intro n
    induction n with
    | zero => rfl
    | succ n ih =>
        rw [List.replicate_succ, List.flatten_cons, Text.size_append, ih, Text.size_toList, Nat.mul_succ, Nat.add_comm]
  have hbound : ∀ (fault : RepeatFault) (refused : Bool) (n : Nat),
      (if refused then .error fault
        else if maxTextBytes < s.utf8ByteSize * n then .error .length
        else if s.toList.isEmpty then .ok []
        else .ok (List.replicate n s.toList).flatten : Except RepeatFault (List Char)) = .ok cs →
      Text.size cs ≤ maxTextBytes := by
    intro fault refused n h
    split at h
    · cases h
    · split at h
      · cases h
      · rename_i hmax
        split at h
        · cases h
          exact Nat.zero_le _
        · cases h
          rw [hsize]
          exact Nat.le_of_not_lt hmax
  unfold TextFits
  rw [Text.utf8ByteSize_ofList]
  exact hbound _ _ _ h

theorem fitting_callTextMethod {op : TextOp} (hop : op ≠ .toUpperCase ∧ op ≠ .toLowerCase) {s : String}
    (hs : TextFits s) (args : List Value) : Fitting Value.Fits (callTextMethod op s args) := by
  refine .heap fun h _ => ?_
  cases op with
  | toUpperCase => exact absurd rfl hop.1
  | toLowerCase => exact absurd rfl hop.2
  | trim => exact .pure (hs.of_sublist (Text.trimBoth_sublist _))
  | slice => exact .pure (hs.of_sublist ((List.drop_sublist _ _).trans (List.take_sublist _ _)))
  | indexOf =>
      dsimp only
      split <;> exact .pure trivial
  | charAt =>
      refine .pure (hs.of_sublist ?_)
      split
      · exact List.nil_sublist _
      · cases hc : s.toList[Number.toNatUpTo (Number.twoTo 64 - 1) (h.toNumber (argument args 0))]? with
        | none => exact List.nil_sublist _
        | some c => exact List.singleton_sublist.mpr (List.mem_of_getElem? hc)
  | repeated =>
      dsimp only
      split
      · rename_i cs hcs
        exact .pure (TextMethod.fits_repeated hcs)
      · exact .raise (by decide) _
      · exact .raise (by decide) _
  | split =>
      refine .alloc (.list fun v hv => ?_)
      obtain ⟨piece, hpiece, rfl⟩ := List.mem_map.mp (by simpa only [List.toList_toArray] using hv)
      replace hpiece : piece ∈ [s.toList] ∨ ∃ separator, piece ∈ Text.split separator s.toList := by
        split at hpiece
        · split at hpiece
          · exact .inl hpiece
          · exact .inr ⟨_, hpiece⟩
        · replace hpiece := List.mem_of_mem_take hpiece
          split at hpiece
          · exact .inl hpiece
          · exact .inr ⟨_, hpiece⟩
      refine hs.of_sublist ?_
      rcases hpiece with hpiece | ⟨separator, hpiece⟩
      · rw [List.mem_singleton.mp hpiece]
      · exact Text.split_sublist hpiece
  | _ => exact .pure trivial

theorem fitting_callListMethod {op : ListOp} (hop : op ≠ .join) (r : Ref) {items : Array Value} {args : List Value}
    (hitems : Value.AllFit items.toList) (hargs : Value.AllFit args) :
    Fitting Value.Fits (callListMethod op r items args) := by
  refine .heap fun h hh => ?_
  cases op with
  | join => exact absurd rfl hop
  | includes => exact .pure trivial
  | indexOf =>
      dsimp only
      split <;> exact .pure trivial
  | slice =>
      refine .alloc (.list fun v hv => hitems v ?_)
      rw [Array.toList_extract, List.extract] at hv
      exact List.mem_of_mem_drop (List.mem_of_mem_take hv)
  | concat =>
      have hspread : ∀ v : Value, v.Fits → Value.AllFit (ListMethod.spread h v) := by
        intro v hv
        have hsame : Value.AllFit [v] := fun w hw => List.mem_singleton.mp hw ▸ hv
        unfold ListMethod.spread
        split
        · split
          · rename_i hr
            exact (hh _ _ hr).parts
          · exact hsame
        · exact hsame
      refine .alloc (.list fun v hv => ?_)
      rw [Array.toList_append, List.mem_append] at hv
      rcases hv with hv | hv
      · exact hitems v hv
      · obtain ⟨arg, harg, hv⟩ := List.mem_flatMap.mp hv
        exact hspread arg (hargs arg harg) v hv
  | reverse =>
      have hreversed : Value.AllFit items.reverse.toList := fun v hv => hitems v (by simpa using hv)
      exact (Fitting.setHeap (hh.set r (.list hreversed))).bind fun _ _ => .pure trivial
  | push =>
      have hpushed : Value.AllFit (items ++ args.toArray).toList := by
        rw [Array.toList_append]
        exact List.forall_mem_append.mpr ⟨hitems, hargs⟩
      exact (Fitting.setHeap (hh.set r (.list hpushed))).bind fun _ _ => .pure trivial
  | pop =>
      have hpopped : Value.AllFit items.pop.toList :=
        fun v hv => hitems v (List.dropLast_subset _ (by simpa only [Array.toList_pop] using hv))
      refine (Fitting.setHeap (hh.set r (.list hpopped))).bind fun _ _ => .pure ?_
      cases hback : items.back? with
      | none => trivial
      | some v => exact hitems v (Array.mem_toList_iff.mpr (Array.mem_of_back? hback))

namespace Native

theorem fitting_random : Fitting Value.Fits random :=
  fun _ hrun => ⟨⟨hrun.heap, hrun.globals⟩, by rintro _ ⟨⟩; trivial, nofun⟩

theorem fitting_parseJson {source : String} (hsource : TextFits source) : Fitting Value.Fits (parseJson source) := by
  unfold parseJson
  split
  · exact .raise (by decide) _
  · rename_i json hread
    intro run hrun
    obtain ⟨hheap, hv⟩ := Heap.fits_ofJson hrun.heap hsource (Json.textsWithin_of_read hread)
    exact ⟨hrun.withHeap hheap, by rintro _ ⟨⟩; exact hv, nofun⟩

/-- The values of the fields. -/
theorem fitting_ownFields {v : Value} (hv : v.Fits) :
    Fitting (fun fields => Value.AllFit (fields.map Prod.snd)) (ownFields v) := by
  cases v with
  | undefined => exact .raise (by decide) _
  | null => exact .raise (by decide) _
  | text s =>
      refine .pure ?_
      rw [List.map_map]
      refine (List.zipIdx_map_fst 0 _).symm ▸ fun w hw => ?_
      obtain ⟨c, hc, rfl⟩ := List.mem_map.mp hw
      exact TextFits.of_char hv hc
  | object r =>
      refine .heap fun h hh => ?_
      split
      · rename_i hr
        exact .pure (hh r _ hr).parts
      · rename_i hr
        refine .pure ?_
        rw [List.map_map]
        exact (List.zipIdx_map_fst 0 _).symm ▸ (hh r _ hr).parts
      · exact .pure nofun
  | _ => exact .pure nofun

theorem fitting_fieldItems {fields : List (String × Value)} (hfields : Value.AllFit (fields.map Prod.snd)) :
    Fitting Value.AllFit (fieldItems .values fields) := by
  induction fields with
  | nil => exact .pure nofun
  | cons field fields ih =>
      obtain ⟨hv, hrest⟩ := List.forall_mem_cons.mp hfields
      exact (ih hrest).bind fun items hitems => .pure (List.forall_mem_cons.mpr ⟨hv, hitems⟩)

theorem fitting_textOf {self : Value} (hself : self.Fits) (hplain : self.isObject = false) (radix : Value) :
    Fitting Value.Fits (textOf self radix) := by
  cases self with
  | number x =>
      refine .ite (.pure (.spell x)) (.toNumber fun y => ?_)
      exact .ite (.raise (by decide) _) (.pure (.of_length (Number.length_spellInRadix _ x)))
  | object r => cases hplain
  | _ => exact .display fun h => .pure (h.textFits_display hself hplain)

theorem fitting_fixedText (self digits : Value) : Fitting Value.Fits (fixedText self digits) := by
  refine .toNumber fun x => ?_
  refine .ite (.raise (by decide) _) (.toNumber fun y => .pure (.of_length ?_))
  exact Number.length_fixed (Number.toNatUpTo_le _ _) y

end Native

/-- A native whose result is not too long, or that does not build a text without a look at its length. -/
theorem kept_callBuiltin {f : Builtin} {self : Value} {args : List Value} {run : Run} (hrun : run.realm.Fits)
    (hself : self.Fits) (hargs : Value.AllFit args) (hreceiver : ∀ op, f = .text op → ∃ s, self = .text s)
    (hbuilds : f.builds self (argument args 0) = true → Kept Value.Fits ((callBuiltin f self args).outcome run)) :
    Kept Value.Fits ((callBuiltin f self args).outcome run) := by
  cases hbuilt : f.builds self (argument args 0) with
  | true => exact hbuilds hbuilt
  | false =>
      suffices hfits : Fitting Value.Fits (callBuiltin f self args) from hfits run hrun
      have hfirst : (argument args 0).Fits := hargs.getD 0
      unfold callBuiltin
      cases f with
      | math op => exact .toNumber fun _ => .pure trivial
      | mathMax => exact .heap fun _ _ => .pure trivial
      | mathMin => exact .heap fun _ _ => .pure trivial
      | mathPow => exact .toNumber fun _ => .toNumber fun _ => .pure trivial
      | mathRandom => exact Native.fitting_random
      | jsonStringify => cases hbuilt
      | jsonParse => exact .display fun h => Native.fitting_parseJson (h.textFits_display hfirst hbuilt)
      | fields part =>
          cases part with
          | values =>
              refine (Native.fitting_ownFields hfirst).bind fun fields hfields => ?_
              refine (Native.fitting_fieldItems hfields).bind fun items hitems => .alloc (.list ?_)
              simpa only [List.toList_toArray] using hitems
          | keys => cases hbuilt
          | entries => cases hbuilt
      | isArray => exact .heap fun _ _ => .pure trivial
      | toText =>
          cases args with
          | nil => exact .pure (show TextFits "" by decide)
          | cons v args => exact .display fun h => .pure (h.textFits_display hfirst hbuilt)
      | toNumber =>
          cases args with
          | nil => exact .pure trivial
          | cons v args => exact .toNumber fun _ => .pure trivial
      | toBoolean => exact .pure trivial
      | consoleLog => exact .heap fun _ _ => (Fitting.print _).bind fun _ _ => .pure trivial
      | consoleError => exact .heap fun _ _ => (Fitting.print _).bind fun _ _ => .pure trivial
      | parseInt => exact .display fun _ => .toNumber fun _ => .pure trivial
      | parseFloat => exact .display fun _ => .pure trivial
      | isNaN => exact .toNumber fun _ => .pure trivial
      | isFinite => exact .toNumber fun _ => .pure trivial
      | toString => exact Native.fitting_textOf hself hbuilt _
      | toFixed => exact Native.fitting_fixedText self _
      | text op =>
          obtain ⟨s, rfl⟩ := hreceiver op rfl
          have hop : op ≠ .toUpperCase ∧ op ≠ .toLowerCase := by
            constructor
            · rintro rfl
              cases hbuilt
            · rintro rfl
              cases hbuilt
          exact .display fun h => fitting_callTextMethod hop (h.textFits_display hself rfl) args
      | list op =>
          have hop : op ≠ .join := by
            rintro rfl
            cases hbuilt
          dsimp only
          split
          · refine .heap fun h hh => ?_
            split
            · rename_i hr
              exact fitting_callListMethod hop _ (hh _ _ hr).parts hargs
            · exact .raise (by decide) _
          · exact .raise (by decide) _

/-- A guard that is passed has done nothing. -/
theorem eq_of_passed {c : Prop} [Decidable c] {name message : String} {run after : Run} {u : Unit}
    (h : (if c then raise name message else pure () : Eval Unit).outcome run = (.ok u, after)) : after = run := by
  split at h
  · obtain ⟨v, thrown, hthrown, -⟩ := outcome_raise (α := Unit) name message run
    cases hthrown.symm.trans h
  · cases h
    rfl

/-- A call of a native that builds a text without a look at its length gives none that is too long. -/
def CallFits (function : Value) (args : List Value) (run : Run) : Prop :=
  ∀ f self, run.realm.heap.object? function = some (.function f self) →
    f.builds (self.getD .undefined) (argument args 0) = true →
    Kept Value.Fits ((callBuiltin f (self.getD .undefined) args).outcome run)

theorem kept_callValue (speculative : Bool) (depth : Nat) {function : Value} {args : List Value} (shown : String)
    {run : Run} (hrun : run.realm.Fits) (hargs : Value.AllFit args) (hcall : CallFits function args run) :
    Kept Value.Fits ((callValue speculative depth function args shown).outcome run) := by
  unfold callValue
  refine Kept.heap ?_
  split
  · rename_i f self hf
    have hobject := hrun.heap.object hf
    refine (Fitting.guardEffect _ run hrun).bind fun _ after heffect _ hafter => ?_
    refine (Fitting.guardDepth depth after hafter).bind fun _ after' hdepth _ hafter' => ?_
    obtain rfl : after' = run := (eq_of_passed hdepth).trans (eq_of_passed heffect)
    refine kept_callBuiltin hafter' hobject.parts.getD_of_option hargs (fun op hop => ?_) (hcall f self hf)
    obtain ⟨s, rfl⟩ := hobject.receiver op self (hop ▸ rfl)
    exact ⟨s, rfl⟩
  · exact Fitting.raise (by decide) _ run hrun

end ScriptRepl
