import ScriptRepl.Proofs.Assist.Chain
import ScriptRepl.Proofs.Realm.Holding
import ScriptRepl.Proofs.Realm.Listed
import ScriptRepl.Proofs.Realm.Literal
import ScriptRepl.Proofs.Syntax.LastWord
import ScriptRepl.Proofs.Syntax.Stratified
import ScriptRepl.Proofs.Syntax.Tiling

/-! What a completion offers can be typed: behind the source it makes one word of what the source ends with, and that
word is a name of the realm, a keyword, or a property of the value before the dot. -/
namespace ScriptRepl

namespace Host

/-- The handle of a value that has just been evaluated. -/
theorem evaluate_value {host host' : Host} {source : String} {options : EvalOptions} {remote : Remote}
    (hordered : host.Ordered) (h : host.evaluate source options = (.ok (.value remote), host')) :
    ∃ v run, (programOf source options).run.run ⟨host.realm, options.ticks⟩ = (.ok v, run) ∧
      host'.realm = run.realm ∧ host'.value? remote.id = some v := by
  unfold evaluate perform at h
  generalize (programOf source options).run.run ⟨host.realm, options.ticks⟩ = out at h ⊢
  obtain ⟨result, run⟩ := out
  cases result with
  | error e => cases e <;> cases h
  | ok v =>
      cases h
      have hafter : Ordered { host with realm := run.realm } := ⟨hordered.nodup, hordered.lt⟩
      exact ⟨v, run, rfl, rfl, hafter.value?_register v options.group⟩

theorem properties_of_value? {host : Host} {id : Nat} {v : Value} (h : host.value? id = some v) :
    host.properties id = .ok (host.realm.heap.propertyNames v) := by
  unfold properties lookup
  rw [h]
  rfl

end Host

namespace Assist

open Syntax (Token TokenKind Keyword lex)
open Text (IsSlice isName size)

/-! ### Attempts that succeed -/

/-- The attempt succeeds on a host with this result. -/
def Attempt.Gives {α : Type} (x : Attempt α) (down : List Outage) (host : Host) (a : α) (after : Host) : Prop :=
  x.run.run down host = (.ok a, after)

section

variable {α β : Type} {down : List Outage} {host after : Host}

theorem gives_pure {a b : α} (h : (pure a : Attempt α).Gives down host b after) : b = a ∧ after = host := by
  cases h
  exact ⟨rfl, rfl⟩

theorem gives_bind {x : Attempt α} {f : α → Attempt β} {b : β} (h : (x >>= f).Gives down host b after) :
    ∃ a mid, x.Gives down host a mid ∧ (f a).Gives down mid b after := by
  have hrun : (x >>= f).run.run down host = _ := Request.run_bind x.run (ExceptT.bindCont f) down host
  unfold Attempt.Gives at h ⊢
  rw [hrun] at h
  generalize x.run.run down host = out at h ⊢
  obtain ⟨result, mid⟩ := out
  cases result with
  | ok a => exact ⟨a, mid, rfl, h⟩
  | error e => cases h

theorem gives_ask {c : Call} {reply : c.Reply} (h : (ask c).Gives down host reply after) :
    host.answer down c = (reply, after) := by
  cases h
  rfl

end

/-- Giving back the handles does not change what a completion offers. -/
theorem gives_of_complete {down : List Outage} {host : Host} {source : String} {group : Group} {c? : Option Completion}
    (h : ((complete source group).run down host).1 = .ok c?) :
    (completeSource source group).Gives down host c? ((completeSource source group).run.run down host).2 := by
  have hrun : ((complete source group).run down host).1 = ((completeSource source group).run.run down host).1 := by
    unfold complete
    rw [Request.run_bind]
    rfl
  rw [hrun] at h
  exact Prod.ext h rfl

/-! ### Suffixes -/

theorem nodup_eraseDups (names : List String) : names.eraseDups.Nodup := by
  induction hn : names.length using Nat.strong_induction_on generalizing names with
  | _ n ih =>
      cases names with
      | nil => simp
      | cons name names =>
          have hshorter := List.length_filter_le (fun other => !other == name) names
          rw [List.length_cons] at hn
          rw [List.eraseDups_cons, List.nodup_cons]
          refine ⟨?_, ih _ (by omega) _ rfl⟩
          rw [List.mem_eraseDups, List.mem_filter]
          simp

theorem mem_suffixesOf {word c : String} {names : List String} :
    c ∈ suffixesOf word names ↔ c ≠ "" ∧ word ++ c ∈ names := by
  unfold suffixesOf
  rw [List.mem_eraseDups, List.mem_filter, List.mem_filterMap]
  constructor
  · rintro ⟨⟨name, hname, hrest⟩, hne⟩
    split at hrest
    · rename_i hprefix
      cases hrest
      obtain ⟨rest, hrest⟩ := List.isPrefixOf_iff_prefix.mp hprefix
      have hdrop : name.toList.drop word.length = rest := by
        rw [← hrest, ← String.length_toList, List.drop_left]
      have hsplit : word ++ String.ofList rest = name := by
        rw [← String.toList_inj, String.toList_append, String.toList_ofList, hrest]
      rw [hdrop] at hne ⊢
      exact ⟨by simpa using hne, by rwa [hsplit]⟩
    · cases hrest
  · rintro ⟨hne, hname⟩
    refine ⟨⟨word ++ c, hname, ?_⟩, by simpa using hne⟩
    rw [String.toList_append, if_pos (List.isPrefixOf_iff_prefix.mpr (List.prefix_append _ _)), ← String.length_toList,
      List.drop_left, String.ofList_toList]

theorem candidates?_eq_some {suffixes cs : List String} (h : candidates? suffixes = some (.candidates cs)) :
    cs = suffixes ∧ cs ≠ [] := by
  unfold candidates? at h
  split at h
  · cases h
  · rename_i hne
    cases h
    exact ⟨rfl, by simpa using hne⟩

/-! ### The value before a dot -/

/-- The text of the chain that ends with the nearest of the tokens. -/
def ChainText (source : String) (target : List Token) (text : String) : Prop :=
  ∃ first chain earlier start last, target = chain ++ earlier ∧ Chain first chain ∧ Begins first earlier ∧
    chain.getLast? = some start ∧ chain.head? = some last ∧
    IsSlice source.toList start.start last.stop text.toList

theorem chainText_of_chainStart? {source : String} {target : List Token} {start last : Token}
    (htarget : target.reverse.Sublist (lex source).tokens) (hstart : chainStart? target = some start)
    (hlast : target.head? = some last) : ChainText source target (slice source start.start last.stop) := by
  have htiling := Syntax.Lexer.tiling_scan (Text.Cursor.ofString source)
  have hcovers := htiling.covers (Text.Cursor.Reaches.refl _)
  have hordered : target.Pairwise fun t u => u.stop ≤ t.start := by
    rw [← List.pairwise_reverse]
    exact htiling.ordered.sublist htarget
  have hmem : ∀ t ∈ target, t ∈ (lex source).tokens := fun t ht => htarget.mem (List.mem_reverse.mpr ht)
  obtain ⟨first, chain, earlier, rfl, hchain, hbegins, hfirst⟩ := chain_of_chainStart? hstart
  have hhead : chain.head? = some last := by
    cases chain with
    | nil => cases hfirst
    | cons t chain => exact hlast
  have hcoversStart := hcovers start (hmem start (List.mem_append_left _ (List.mem_of_getLast? hfirst)))
  have hcoversLast := hcovers last (hmem last (List.mem_append_left _ (List.mem_of_head? hhead)))
  have hle : start.start ≤ last.stop := by
    have hstartWord := hcoversStart.start_lt_stop
    have hlastWord := hcoversLast.start_lt_stop
    cases chain with
    | nil => cases hfirst
    | cons t chain =>
        cases hhead
        rcases List.mem_cons.mp (List.mem_of_getLast? hfirst) with rfl | hin
        · exact Nat.le_of_lt hstartWord
        · have hbefore := (List.pairwise_cons.mp (List.pairwise_append.mp hordered).1).1 start hin
          omega
  obtain ⟨_, hstartSlice⟩ := hcoversStart.word
  obtain ⟨_, hlastSlice⟩ := hcoversLast.word
  obtain ⟨text, htext⟩ := hstartSlice.between hlastSlice hle
  refine ⟨first, chain, earlier, start, last, rfl, hchain, hbegins, hfirst, hhead, ?_⟩
  rw [slice, String.toList_ofList, htext.splitNear_eq]
  exact htext

/-- What reading a property of the value of a text gives, when the text is evaluated without effects. -/
def peekProperty? (host : Host) (text name : String) : Option Found :=
  match (Host.programOf text { speculative := true }).run.run ⟨host.realm, none⟩ with
  | (.ok v, run) => run.realm.heap.property? v name
  | _ => none

/-- The value of a text, evaluated without effects, has the property. -/
def HasProperty (host : Host) (text name : String) : Prop :=
  (peekProperty? host text name).any Found.isPresent = true

instance (host : Host) (text name : String) : Decidable (HasProperty host text name) :=
  inferInstanceAs (Decidable (_ = true))

example : HasProperty (Host.fresh 1) "[1].concat" "name" ∧ ¬HasProperty (Host.fresh 1) "[1].length" "length" := by
  decide +kernel

variable {down : List Outage} {host after : Host} {source : String} {group : Group}

theorem gives_peekValue {text : String} {remote : Remote}
    (h : (peekValue text group).Gives down host (some remote) after) :
    host.evaluate text { speculative := true, group := some group } = (.ok (.value remote), after) := by
  obtain ⟨reply, mid, hask, hreply⟩ := gives_bind h
  have hanswer := gives_ask hask
  cases reply with
  | ok outcome =>
      cases outcome with
      | value v =>
          obtain ⟨hv, rfl⟩ := gives_pure hreply
          cases hv
          dsimp only [Host.answer] at hanswer
          split at hanswer
          · cases hanswer
          · exact hanswer
      | exception v => cases (gives_pure hreply).1
  | error e =>
      cases e with
      | timeout => cases (gives_pure hreply).1
      | _ => cases hreply

theorem gives_chainValue {target : List Token} {remote : Remote}
    (h : (chainValue source target group).Gives down host (some remote) after) :
    ∃ start last, chainStart? target = some start ∧ target.head? = some last ∧
      host.evaluate (slice source start.start last.stop) { speculative := true, group := some group } =
        (.ok (.value remote), after) := by
  unfold chainValue at h
  split at h
  · rename_i start last _ hstart
    exact ⟨start, last, hstart, rfl, gives_peekValue h⟩
  · cases (gives_pure h).1

theorem mem_of_mem_partition {properties : List (String × Bool)} {name : String}
    (h : name ∈ ((properties.partition (·.2)).1 ++ (properties.partition (·.2)).2).map (·.1)) :
    name ∈ properties.map Prod.fst := by
  rw [List.partition_eq_filter_filter] at h
  obtain ⟨entry, hentry, rfl⟩ := List.mem_map.mp h
  refine List.mem_map_of_mem ?_
  rcases List.mem_append.mp hentry with hentry | hentry
  · exact (List.mem_filter.mp hentry).1
  · exact (List.mem_filter.mp hentry).1

/-- The candidates after a dot. -/
theorem gives_completeMember {target : List Token} {word : String} {cs : List String} (hordered : host.Ordered)
    (htarget : target.reverse.Sublist (lex source).tokens)
    (h : (completeMember source target word group).Gives down host (some (.candidates cs)) after) :
    ∃ text names, ChainText source target text ∧
      (∀ name ∈ names, isName name = true ∧ HasProperty host text name) ∧ cs = suffixesOf word names ∧ cs ≠ [] := by
  obtain ⟨remote?, mid, hvalue, hrest⟩ := gives_bind h
  cases remote? with
  | none => cases (gives_pure hrest).1
  | some remote =>
      obtain ⟨reply, mid', hask, hreply⟩ := gives_bind hrest
      have hanswer := gives_ask hask
      obtain ⟨start, last, hstart, hlast, hevaluate⟩ := gives_chainValue hvalue
      obtain ⟨v, run, hrun, hrealm, hv⟩ := Host.evaluate_value hordered hevaluate
      cases reply with
      | error e => cases hreply
      | ok properties =>
          have hproperties : mid.properties remote.id = .ok properties := congrArg Prod.fst hanswer
          rw [Host.properties_of_value? hv, hrealm] at hproperties
          cases hproperties
          obtain ⟨hcs, hne⟩ := candidates?_eq_some (gives_pure hreply).1.symm
          refine ⟨_, _, chainText_of_chainStart? htarget hstart hlast, ?_, hcs, hne⟩
          intro name hname
          obtain ⟨hlisted, hname⟩ := List.mem_filter.mp hname
          obtain ⟨found, hfound, hpresent⟩ := Heap.property?_of_listed hname (mem_of_mem_partition hlisted)
          have hpeek : (Host.programOf (slice source start.start last.stop) { speculative := true }).run.run
              ⟨host.realm, none⟩ = (.ok v, run) := hrun
          refine ⟨hname, ?_⟩
          unfold HasProperty peekProperty?
          rw [hpeek]
          dsimp only
          rw [hfound]
          exact hpresent

/-- The candidates for a name. -/
theorem gives_completeName {word : String} {cs : List String}
    (h : (completeName word).Gives down host (some (.candidates cs)) after) :
    cs = suffixesOf word (host.globalNames ++ Keyword.all.map Keyword.text) ∧ cs ≠ [] := by
  obtain ⟨names, mid, hask, hreply⟩ := gives_bind h
  have hanswer := gives_ask hask
  cases hanswer
  exact candidates?_eq_some (gives_pure hreply).1.symm

/-- An open call has a hint, never candidates. -/
theorem not_gives_completeCall {ts : List Token} {cs : List String} :
    ¬(completeCall source ts group).Gives down host (some (.candidates cs)) after := by
  intro h
  unfold completeCall at h
  split at h
  · cases (gives_pure h).1
  · obtain ⟨remote?, mid, -, hrest⟩ := gives_bind h
    cases remote? with
    | none => cases (gives_pure hrest).1
    | some remote =>
        obtain ⟨f?, mid', -, hreply⟩ := gives_bind hrest
        cases f? with
        | none => cases (gives_pure hreply).1
        | some f => cases (gives_pure hreply).1

/-! ### The word -/

/-- With the characters behind it the source has the tokens `before` and one word after them, `word`: what it ends with
goes on, or a word is added after its dot. -/
inductive Continues (source more : String) : List Token → String → Prop where
  | grows {before : List Token} {t : Token} {part : String} {mark : Syntax.EndMark}
      (htokens : (lex source).tokens = before ++ [t]) (hkind : t.kind = .name part)
      (hlex : lex (source ++ more) =
        ⟨before ++ [⟨Syntax.Lexer.nameKind (part ++ more), t.start, t.stop + size more.toList, t.newlineBefore⟩],
          .ok mark⟩) :
      Continues source more before (part ++ more)
  | adds {before : List Token} {dot : Token} {mark : Syntax.EndMark} (htokens : (lex source).tokens = before ++ [dot])
      (hkind : dot.kind = .punct .dot)
      (hlex : lex (source ++ more) =
        ⟨before ++ [dot, ⟨Syntax.Lexer.nameKind more, dot.stop, dot.stop + size more.toList, false⟩], .ok mark⟩) :
      Continues source more (before ++ [dot]) more

/-- The tokens without comments, nearest first. -/
def code (ts : List Token) : List Token :=
  ts.reverse.filter fun t => !t.kind.isComment

/-- What a word stands for behind the tokens of a source: a property of the value before a dot, else a name of the
realm or a keyword. -/
inductive Meant (host : Host) (source word : String) : List Token → Prop where
  | property {dot : Token} {target : List Token} {text : String} (hdot : dot.kind = .punct .dot)
      (htext : ChainText source target text) (hproperty : HasProperty host text word) :
      Meant host source word (dot :: target)
  | name {before : List Token} (hplain : ∀ dot t ts, before = dot :: t :: ts → dot.kind ≠ .punct .dot)
      (hname : word ∈ host.globalNames ∨ ∃ k : Keyword, k.text = word) : Meant host source word before

theorem code_sublist (ts : List Token) : (code ts).reverse.Sublist ts := by
  have hfilter := (List.filter_sublist (l := ts.reverse) (p := fun t => !t.kind.isComment)).reverse
  rwa [List.reverse_reverse] at hfilter

theorem isName_keyword (k : Keyword) : isName k.text = true := by
  rcases k with (_ | _ | _) | ((_ | _) | _ | _) | _ <;> decide

/-- Candidates that are no empty texts, each once, and of which each makes a word that has a meaning. -/
def Real (host : Host) (source : String) (cs : List String) : Prop :=
  cs ≠ [] ∧ cs.Nodup ∧ ∀ c ∈ cs, c ≠ "" ∧
    ∃ before word, Continues source c before word ∧ Meant host source word (code before)

theorem real_suffixesOf {word : String} {names : List String} (hne : suffixesOf word names ≠ [])
    (h : ∀ c, c ≠ "" → word ++ c ∈ names →
      ∃ before word', Continues source c before word' ∧ Meant host source word' (code before)) :
    Real host source (suffixesOf word names) := by
  refine ⟨hne, nodup_eraseDups _, fun c hc => ?_⟩
  obtain ⟨hempty, hname⟩ := mem_suffixesOf.mp hc
  exact ⟨hempty, h c hempty hname⟩

section

variable {before : List Token} {last : Token} {mark : Syntax.EndMark} {cs : List String}

theorem continues_grows {part c : String} (htokens : (lex source).tokens = before ++ [last])
    (hok : (lex source).result = .ok mark) (hend : source.toList.getLast?.any Text.isBlank = false)
    (hkind : last.kind = .name part) (hname : isName (part ++ c) = true) :
    Continues source c before (part ++ c) := by
  refine .grows htokens hkind (Syntax.lex_append_of_name htokens hok hend hkind fun d hd => ?_)
  refine Text.isNameChar_of_isName hname d ?_
  rw [String.toList_append]
  exact List.mem_append_right _ hd

theorem real_completeName {part : String} (hnames : ∀ name ∈ host.globalNames, isName name = true)
    (hplain : ∀ dot t ts, code before = dot :: t :: ts → dot.kind ≠ .punct .dot)
    (hgrows : ∀ {c : String}, isName (part ++ c) = true → Continues source c before (part ++ c))
    (h : (completeName part).Gives down host (some (.candidates cs)) after) : Real host source cs := by
  obtain ⟨rfl, hne⟩ := gives_completeName h
  refine real_suffixesOf hne fun c _ hc => ?_
  rcases List.mem_append.mp hc with hglobal | hkeyword
  · exact ⟨before, _, hgrows (hnames _ hglobal), .name hplain (.inl hglobal)⟩
  · obtain ⟨k, -, hk⟩ := List.mem_map.mp hkeyword
    exact ⟨before, _, hgrows (hk ▸ isName_keyword k), .name hplain (.inr ⟨k, hk⟩)⟩

theorem real_completeWord (hordered : host.Ordered) (hnames : ∀ name ∈ host.globalNames, isName name = true)
    (htokens : (lex source).tokens = before ++ [last]) (hok : (lex source).result = .ok mark)
    (hend : source.toList.getLast?.any Text.isBlank = false)
    (h : (completeWord source (last :: code before) group).Gives down host (some (.candidates cs)) after) :
    Real host source cs := by
  have hsub : (code before).reverse.Sublist (lex source).tokens := by
    rw [htokens]
    exact (code_sublist before).trans (List.sublist_append_left _ _)
  unfold completeWord at h
  dsimp only at h
  split at h
  · rename_i t target hkind hcode
    obtain ⟨text, names, htext, hprop, rfl, hne⟩ := gives_completeMember hordered (hcode ▸ hsub) h
    refine real_suffixesOf hne fun c _ hc => ?_
    rw [String.empty_append] at hc
    have hlast : code (before ++ [last]) = last :: t :: target := by
      rw [← hcode]
      simp [code, hkind, TokenKind.isComment]
    refine ⟨before ++ [last], c, ?_, ?_⟩
    · exact .adds htokens hkind (Syntax.lex_append_of_dot htokens hok hend hkind (hprop c hc).1)
    · rw [hlast]
      exact .property hkind htext (hprop c hc).2
  · rename_i part dot t target hkind hcode
    split at h
    · rename_i hdot
      have htarget : (t :: target).reverse.Sublist (lex source).tokens := by
        rw [hcode] at hsub
        exact ((List.sublist_cons_self dot _).reverse).trans hsub
      obtain ⟨text, names, htext, hprop, rfl, hne⟩ := gives_completeMember hordered htarget h
      refine real_suffixesOf hne fun c _ hc => ⟨before, part ++ c, ?_, ?_⟩
      · exact continues_grows htokens hok hend hkind (hprop _ hc).1
      · rw [hcode]
        exact .property hdot htext (hprop _ hc).2
    · rename_i hdot
      split at h
      · cases (gives_pure h).1
      · refine real_completeName hnames ?_ (continues_grows htokens hok hend hkind) h
        rw [hcode]
        rintro _ _ _ ⟨⟩
        exact hdot
  · rename_i part hkind hshort
    split at h
    · cases (gives_pure h).1
    · have hplain : ∀ dot t ts, code before = dot :: t :: ts → dot.kind ≠ .punct .dot :=
        fun dot t ts hcode => (hshort dot t ts hcode).elim
      exact real_completeName hnames hplain (continues_grows htokens hok hend hkind) h
  · cases (gives_pure h).1

end

/-- The handles, the realm and what is out of order are as they may be; comments do not matter. -/
theorem real_completeSource {cs : List String} (hordered : host.Ordered)
    (hnames : ∀ name ∈ host.globalNames, isName name = true)
    (h : (completeSource source group).Gives down host (some (.candidates cs)) after) : Real host source cs := by
  unfold completeSource at h
  dsimp only at h
  split at h
  · cases (gives_pure h).1
  rename_i mark hok
  split at h
  · cases (gives_pure h).1
  rename_i last before htokens
  split at h
  · cases (gives_pure h).1
  rename_i hcomment
  have hsplit : (lex source).tokens = before.reverse ++ [last] := by
    rw [← List.reverse_reverse (lex source).tokens, htokens, List.reverse_cons]
  have hcode : code before.reverse = before.filter fun t => !t.kind.isComment := by
    rw [code, List.reverse_reverse]
  rw [← hcode] at h
  unfold completeTokens at h
  dsimp only at h
  split at h
  · obtain ⟨word?, mid, hword, hrest⟩ := gives_bind h
    obtain ⟨rfl, rfl⟩ := gives_pure hword
    exact (not_gives_completeCall hrest).elim
  · rename_i hend
    obtain ⟨word?, mid, hword, hrest⟩ := gives_bind h
    cases word? with
    | none => exact (not_gives_completeCall hrest).elim
    | some c =>
        obtain ⟨hc, rfl⟩ := gives_pure hrest
        cases hc
        exact real_completeWord hordered hnames hsplit hok (Bool.not_eq_true _ ▸ hend) hword

/-- Every candidate is a text of its own that makes a word behind the source, the word that the source ends with or a
new one after its dot, and leaves the other tokens alone; the word is a property of the value of the chain before the
dot, or else a name of the realm or a keyword. -/
theorem candidates_real {cs : List String} (hordered : host.Ordered)
    (hnames : ∀ name ∈ host.globalNames, isName name = true)
    (h : ((complete source group).run down host).1 = .ok (some (.candidates cs))) :
    cs ≠ [] ∧ cs.Nodup ∧ ∀ c ∈ cs, c ≠ "" ∧
      ∃ before word, Continues source c before word ∧ Meant host source word (code before) := by
  exact real_completeSource hordered hnames (gives_of_complete h)

theorem eq_ok_of_toOption {ε α : Type} {x : Except ε α} {a : α} (h : x.toOption = some a) : x = .ok a := by
  cases x with
  | ok b =>
      cases h
      rfl
  | error e => cases h

theorem candidates_real_member :
    (Host.fresh 1).Ordered ∧ (∀ name ∈ (Host.fresh 1).globalNames, isName name = true) ∧
      ((complete "Math.P" (.completion 0)).run [] (Host.fresh 1)).1 = .ok (some (.candidates ["I"])) ∧
      ∃ before word, Continues "Math.P" "I" before word ∧ Meant (Host.fresh 1) "Math.P" word (code before) := by
  have hordered : (Host.fresh 1).Ordered := ⟨.nil, nofun⟩
  have hnames : ∀ name ∈ (Host.fresh 1).globalNames, isName name = true := by decide +kernel
  have hcandidates : ((complete "Math.P" (.completion 0)).run [] (Host.fresh 1)).1 = .ok (some (.candidates ["I"])) :=
    eq_ok_of_toOption (by decide +kernel)
  exact ⟨hordered, hnames, hcandidates, ((candidates_real hordered hnames hcandidates).2.2 "I" (by simp)).2⟩

section

open Syntax Syntax.Grammar

/-- The tokens of an index behind an object, without their places. -/
def objectIndexKinds : List TokenKind :=
  [.punct .openBrace, .name "a", .punct .colon, .number (Number.ofNat 5), .punct .closeBrace, .punct .openBracket,
    .text "a", .punct .closeBracket]

theorem expression_object_index {ts : List Token} (h : ts.map Token.kind = objectIndexKinds) :
    Expression ts (.index (.object [("a", .number (Number.ofNat 5))]) (.text "a")) := by
  simp only [objectIndexKinds, List.map_eq_cons_iff, List.map_eq_nil_iff] at h
  obtain ⟨opens, _, rfl, hopens, key, _, rfl, hkey, colon, _, rfl, hcolon, five, _, rfl, hfive, closes, _, rfl,
    hcloses, opens', _, rfl, hopens', name, _, rfl, hname, closes', _, rfl, hcloses', rfl⟩ := h
  have hvalue : Assignment (Nested.none.within 127) [five] (.number (Number.ofNat 5)) :=
    (Primary.number hfive).assignment
  have hfield : Field (Nested.none.within 127) [key, colon, five] ("a", .number (Number.ofNat 5)) :=
    .keyed (by rw [hkey]; rfl) hcolon hvalue
  have hobject : Grammar.Chain (Nested.none.within Parser.maxNesting) (opens :: ([key, colon, five] ++ [closes])) _ :=
    .primary (.object hopens (.last hfield hcloses))
  have hindex : Assignment (Nested.none.within 127) [name] (.text "a") := (Primary.text hname).assignment
  exact .conditional (.binary ((Grammar.Chain.index hobject hopens' hindex hcloses').binary (by decide)))

theorem parse_object_index : parseProgram "\x7ba:5\x7d[\"a\"]" =
    .ok [.expr (.index (.object [("a", .number (Number.ofNat 5))]) (.text "a"))] := by
  have hkinds : (significant (lex "\x7ba:5\x7d[\"a\"]").tokens).map Token.kind = objectIndexKinds := by
    decide +kernel
  have hwhole : (lex "\x7ba:5\x7d[\"a\"]").result.toOption.isSome = true := by decide +kernel
  generalize hlex : lex "\x7ba:5\x7d[\"a\"]" = lexed at hkinds hwhole
  obtain ⟨ts, result⟩ := lexed
  cases result with
  | error e => cases hwhole
  | ok mark => exact parseProgram_of_expression ⟨ts, mark, hlex, expression_object_index hkinds⟩

end

/-- An index of an object that has just been written down. -/
theorem builds_object_index (x : Float) (h : Heap) :
    (Evaluation.eval true 0 (.index (.object [("a", .number x)]) (.text "a"))).Builds h fun _ v => v = .number x := by
  have hobject : (Evaluation.eval true 1 (.object [("a", .number x)])).Builds h
      (·.Represents (.record [("a", .number x)])) := by
    have hliteral : (Datum.record [("a", .number x)]).Literal (.object [("a", .number x)]) :=
      .record rfl (by simp) (.cons (.number (.number x)) .nil)
    have hfits : (Datum.record [("a", .number x)]).Fits 1 := by simp [Datum.Fits]
    exact Evaluation.builds_literal hliteral hfits (by decide)
  have hkey : ∀ h, (Evaluation.eval true 1 (.text "a")).Builds h fun _ v => v = .text "a" := by
    intro h
    rw [Evaluation.eval]
    exact Eval.builds_entered (by decide) (Eval.builds_pure fun _ _ => rfl)
  rw [Evaluation.eval]
  refine Eval.builds_entered (by decide) (hobject.bind fun v h₁ _ hv => (hkey h₁).bind ?_)
  rintro _ h₂ hext rfl run hrun hext'
  have hdisplay : (Eval.display (.text "a")).outcome run = (.ok "a", run) := by
    rw [Eval.display, Eval.outcome_bind, Eval.outcome_heap]
    simp only [Heap.display, Heap.displayAt]
    rfl
  have hproperty : run.realm.heap.property? v "a" = some (.stored (.number x)) := by
    cases hv.mono (hext.trans hext') with
    | @record r _ fields hr hkeys hvalues =>
        obtain ⟨entries, hnodup⟩ := fields
        obtain ⟨⟨key, value⟩, rfl, hkey⟩ := List.map_eq_singleton_iff.mp hkeys.symm
        cases hkey
        cases hvalues with
        | cons hvalue _ =>
            cases hvalue
            simp only [Heap.property?, hr, Option.getD_some, objectProperty]
            rfl
  refine ⟨.number x, run, ?_, hrun, .refl _, rfl⟩
  rw [Eval.outcome_bind, hdisplay]
  dsimp only
  rw [getProperty, Eval.outcome_bind, Eval.outcome_heap]
  dsimp only
  rw [hproperty]
  rfl

/-- An index behind the brace of an object is taken for a list: the chain is cut off there, and what is offered are
properties that the value before the dot does not have. -/
theorem complete_object_index :
    (∃ cs, ((complete "\x7ba:5\x7d[\"a\"]." (.completion 0)).run [] (Host.fresh 1)).1 = .ok (some (.candidates cs)) ∧
        "length" ∈ cs) ∧
      HasProperty (Host.fresh 1) "\x7ba:5\x7d[\"a\"]" "toFixed" ∧
      ¬HasProperty (Host.fresh 1) "\x7ba:5\x7d[\"a\"]" "length" := by
  have hcandidates : ((complete "\x7ba:5\x7d[\"a\"]." (.completion 0)).run [] (Host.fresh 1)).1 =
      .ok (some (.candidates ["length", "join", "includes", "indexOf", "slice", "concat", "reverse", "push", "pop",
        "toString"])) :=
    eq_ok_of_toOption (by decide +kernel)
  obtain ⟨_, run, hrun, -, -, rfl⟩ := builds_object_index (Number.ofNat 5) _ _ (Realm.ready_fresh 1) (.refl _)
  have hpeek : ∀ name, peekProperty? (Host.fresh 1) "\x7ba:5\x7d[\"a\"]" name =
      some (.method (Builtin.numberMethods.lookup name)) := by
    intro name
    have hprogram : (Host.programOf "\x7ba:5\x7d[\"a\"]" { speculative := true }).run.run
        ⟨(Host.fresh 1).realm, none⟩ = (.ok (.number (Number.ofNat 5)), run) := by
      change (Host.programOf _ _).outcome ⟨Realm.fresh 1, none⟩ = _
      rw [Host.programOf, parse_object_index]
      dsimp only
      rw [Evaluation.run, Eval.outcome_bind, hrun]
      rfl
    rw [peekProperty?, hprogram]
    rfl
  refine ⟨⟨_, hcandidates, by simp⟩, ?_, ?_⟩
  · rw [HasProperty, hpeek]
    rfl
  · rw [HasProperty, hpeek]
    decide

end Assist

end ScriptRepl
