import ScriptRepl.Syntax.Check

/-! What a parser does with the beginning of a longer input. Either it is done before the end, and what follows does
not matter; or it refuses whatever follows; or it is hungry: it fails at the end, and some tokens behind the end
satisfy it. -/
namespace ScriptRepl.Syntax

/-- The punctuators that close an open construct or lead on to its last part. -/
def Punct.isMark : Punct → Bool
  | .closeParen | .closeBracket | .closeBrace | .colon | .assign => true
  | _ => false

/-- The tokens that complete a source. -/
inductive Filler where
  | word
  | mark (p : Punct) (h : p.isMark = true)

def Filler.kind : Filler → TokenKind
  | word => .name "a"
  | mark p _ => .punct p

/-- The tokens are of these kinds. -/
def Spells (ts : List Token) (fillers : List Filler) : Prop :=
  ts.map (·.kind) = fillers.map Filler.kind

theorem Spells.of_nil {ts : List Token} (h : Spells ts []) : ts = [] :=
  List.map_eq_nil_iff.mp h

theorem Spells.of_cons {ts : List Token} {filler : Filler} {fillers : List Filler} (h : Spells ts (filler :: fillers)) :
    ∃ t rest, ts = t :: rest ∧ t.kind = filler.kind ∧ Spells rest fillers :=
  List.map_eq_cons_iff.mp h

theorem Spells.of_singleton {ts : List Token} {filler : Filler} (h : Spells ts [filler]) :
    ∃ t, ts = [t] ∧ t.kind = filler.kind := by
  obtain ⟨t, rest, rfl, hkind, hrest⟩ := h.of_cons
  cases hrest.of_nil
  exact ⟨t, rfl, hkind⟩

theorem Spells.of_append {ts : List Token} {first second : List Filler} (h : Spells ts (first ++ second)) :
    ∃ a b, ts = a ++ b ∧ Spells a first ∧ Spells b second := by
  unfold Spells at h
  rw [List.map_append] at h
  exact List.map_eq_append_iff.mp h

theorem exists_succ_of_length_le {t : Token} {ts : List Token} {n : Nat} (h : (t :: ts).length ≤ n) :
    ∃ k, n = k + 1 ∧ ts.length ≤ k := by
  rw [List.length_cons] at h
  exact ⟨n - 1, by omega, by omega⟩

/-- By the number of tokens that are left. -/
@[elab_as_elim]
theorem length_induction {motive : List Token → Prop}
    (h : ∀ ts, (∀ rest : List Token, rest.length < ts.length → motive rest) → motive ts) (ts : List Token) :
    motive ts := by
  induction hlength : ts.length using Nat.strongRecOn generalizing ts with
  | ind length ih =>
      refine h ts fun rest hlt => ?_
      exact ih rest.length (by omega) rest rfl

namespace Parser

/-- What may come behind the tokens that a parser reads. -/
inductive Next where
  | anything
  /-- The end or one of the punctuators. -/
  | marks (ps : List Punct)

def Next.Allows : Next → List Token → Prop
  | anything, _ => True
  | marks ps, ts => ∀ t ∈ ts.head?, ∃ p ∈ ps, t.kind = .punct p

theorem Next.allows_nil (next : Next) : next.Allows [] := by
  cases next with
  | anything => trivial
  | marks ps => nofun

theorem Next.allows_spelled {ps : List Punct} {p : Punct} {hmark : p.isMark = true} {fillers : List Filler}
    {cs : List Token} (hp : p ∈ ps) (hcs : Spells cs (.mark p hmark :: fillers)) (more : List Token) :
    (Next.marks ps).Allows (cs ++ more) := by
  obtain ⟨t, rest, rfl, hkind, _⟩ := hcs.of_cons
  intro u hu
  cases hu
  exact ⟨p, hp, hkind⟩

theorem Next.allows_of_subset {ps qs : List Punct} (h : ps ⊆ qs) {ts : List Token} (hts : (Next.marks ps).Allows ts) :
    (Next.marks qs).Allows ts := by
  intro t ht
  obtain ⟨p, hp, hkind⟩ := hts t ht
  exact ⟨p, h hp, hkind⟩

/-- The punctuators that an expression ends before. -/
def stops : List Punct :=
  [.closeParen, .closeBracket, .closeBrace, .colon]

theorem isMark_of_mem_stops {m : Punct} (h : m ∈ stops) : m.isMark = true := by
  revert m
  decide

/-! ### Outcomes

A parser with a bound for its steps is a function of that bound. Any bound will do that is not less than the number of
tokens. -/

section

variable {α β : Type}

structure Done (reads : Nat) (next : Next) (parse : Nat → Parse α) (ts : List Token) (x : α) (rest : List Token) :
    Prop where
  length_le : rest.length ≤ ts.length - reads
  run : ∀ ext fin n, (ts ++ ext).length ≤ n → (rest = [] → next.Allows ext) →
    (parse n).run ⟨ts ++ ext, fin⟩ = .ok (x, ⟨rest ++ ext, fin⟩)

def Refused (parse : Nat → Parse α) (ts : List Token) : Prop :=
  ∀ ext fin n, (ts ++ ext).length ≤ n →
    ∃ e, (parse n).run ⟨ts ++ ext, fin⟩ = .error e ∧ e.cause.mayContinue = false

structure Hungry (next : Next) (parse : Nat → Parse α) (ts : List Token) (x : α) (fillers : List Filler) : Prop where
  starves : ∀ fin n, ts.length ≤ n → ∃ e, (parse n).run ⟨ts, fin⟩ = .error e ∧ e.cause.mayContinue = true
  feeds : ∀ cs more fin n, (ts ++ (cs ++ more)).length ≤ n → Spells cs fillers → next.Allows more →
    (parse n).run ⟨ts ++ (cs ++ more), fin⟩ = .ok (x, ⟨more, fin⟩)

inductive Viable (reads : Nat) (next : Next) (parse : Nat → Parse α) (ts : List Token) : Prop where
  | done (x : α) (rest : List Token) (h : Done reads next parse ts x rest)
  | refused (h : Refused parse ts)
  | hungry (x : α) (fillers : List Filler) (h : Hungry next parse ts x fillers)

/-- What a parser does at the end, behind one that has read all tokens before it: it returns, or it needs tokens that
may come behind those. -/
inductive Follows (before next : Next) (parse : Nat → Parse α) : Prop where
  | returns (x : α) (h : Done 0 next parse [] x []) (hallows : ∀ ts, next.Allows ts → before.Allows ts)
  | needs (x : α) (fillers : List Filler) (h : Hungry next parse [] x fillers)
      (hallows : ∀ cs, Spells cs fillers → ∀ more, before.Allows (cs ++ more))

variable {p : Parse α} {f : α → Parse β} {i i' : Input} {x : α} {e : SyntaxError}

theorem run_bind_ok (h : p.run i = .ok (x, i')) : (p >>= f).run i = (f x).run i' := by
  rw [StateT.run_bind, h]
  rfl

theorem run_bind_error (h : p.run i = .error e) : (p >>= f).run i = .error e := by
  rw [StateT.run_bind, h]
  rfl

variable {reads : Nat} {before next : Next} {parse : Nat → Parse α} {cont : Nat → α → Parse β} {ts rest : List Token}
  {fillers : List Filler}

theorem Refused.bind (h : Refused parse ts) : Refused (fun n => parse n >>= cont n) ts := by
  intro ext fin n hn
  obtain ⟨e, hrun, hfinal⟩ := h ext fin n hn
  exact ⟨e, run_bind_error hrun, hfinal⟩

/-! Of two parsers in turn the second one may have a bound that is less by `k`, if the first one reads so many tokens. -/

variable {k : Nat}

theorem Hungry.bind (h : Hungry before parse ts x fillers) (hk : k ≤ ts.length)
    (hend : Follows before next (fun n => cont n x)) :
    ∃ y more, Hungry next (fun n => parse n >>= cont (n - k)) ts y (fillers ++ more) := by
  have hstarves : ∀ fin n, ts.length ≤ n →
      ∃ e, (parse n >>= cont (n - k)).run ⟨ts, fin⟩ = .error e ∧ e.cause.mayContinue = true := by
    intro fin n hn
    obtain ⟨e, hrun, hends⟩ := h.starves fin n hn
    exact ⟨e, run_bind_error hrun, hends⟩
  cases hend with
  | returns y hdone hallows =>
      refine ⟨y, [], hstarves, ?_⟩
      intro cs more fin n hn hcs hmore
      rw [List.append_nil] at hcs
      rw [run_bind_ok (h.feeds cs more fin n hn hcs (hallows more hmore))]
      refine hdone.run more fin (n - k) ?_ fun _ => hmore
      simp only [List.length_append, List.length_nil] at hn ⊢
      omega
  | needs y fillers' hhungry hallows =>
      refine ⟨y, fillers', hstarves, ?_⟩
      intro cs more fin n hn hcs hmore
      obtain ⟨a, b, rfl, ha, hb⟩ := hcs.of_append
      rw [List.append_assoc] at hn ⊢
      rw [run_bind_ok (h.feeds a (b ++ more) fin n hn ha (hallows b hb more))]
      refine hhungry.feeds b more fin (n - k) ?_ hb hmore
      simp only [List.length_append, List.length_nil] at hn ⊢
      omega

theorem Done.bind_end (h : Done reads before parse ts x []) (hk : k ≤ ts.length)
    (hend : Follows before next (fun n => cont n x)) : Viable reads next (fun n => parse n >>= cont (n - k)) ts := by
  cases hend with
  | returns y hdone hallows =>
      refine .done y [] ⟨Nat.zero_le _, ?_⟩
      intro ext fin n hn hext
      rw [run_bind_ok (h.run ext fin n hn fun _ => hallows ext (hext rfl))]
      refine hdone.run ext fin (n - k) ?_ hext
      simp only [List.length_append, List.length_nil] at hn ⊢
      omega
  | needs y fillers hhungry hallows =>
      refine .hungry y fillers ⟨?_, ?_⟩
      · intro fin n hn
        have hrun := h.run [] fin n (by simpa using hn) fun _ => before.allows_nil
        rw [List.append_nil, List.append_nil] at hrun
        rw [run_bind_ok hrun]
        exact hhungry.starves fin (n - k) (Nat.zero_le _)
      · intro cs more fin n hn hcs hmore
        rw [run_bind_ok (h.run (cs ++ more) fin n hn fun _ => hallows cs hcs more)]
        refine hhungry.feeds cs more fin (n - k) ?_ hcs hmore
        simp only [List.length_append, List.length_nil] at hn ⊢
        omega

/-- A parser that runs on one input as another parser does on a second one, whatever follows. -/
theorem Viable.of_run {reads' : Nat} {parse' : Nat → Parse α} {ts' : List Token} (h : Viable reads next parse ts)
    (hlength : ts.length - reads ≤ ts'.length - reads')
    (hrun : ∀ ext fin n, (ts' ++ ext).length ≤ n →
      ∃ m, (ts ++ ext).length ≤ m ∧ (parse' n).run ⟨ts' ++ ext, fin⟩ = (parse m).run ⟨ts ++ ext, fin⟩) :
    Viable reads' next parse' ts' := by
  cases h with
  | done x rest hdone =>
      refine .done x rest ⟨Nat.le_trans hdone.length_le hlength, ?_⟩
      intro ext fin n hn hext
      obtain ⟨m, hm, heq⟩ := hrun ext fin n hn
      rw [heq]
      exact hdone.run ext fin m hm hext
  | refused hrefused =>
      refine .refused ?_
      intro ext fin n hn
      obtain ⟨m, hm, heq⟩ := hrun ext fin n hn
      rw [heq]
      exact hrefused ext fin m hm
  | hungry x fillers hhungry =>
      refine .hungry x fillers ⟨?_, ?_⟩
      · intro fin n hn
        obtain ⟨m, hm, heq⟩ := hrun [] fin n (by simpa using hn)
        rw [List.append_nil, List.append_nil] at heq
        rw [List.append_nil] at hm
        rw [heq]
        exact hhungry.starves fin m hm
      · intro cs more fin n hn hcs hmore
        obtain ⟨m, hm, heq⟩ := hrun (cs ++ more) fin n hn
        rw [heq]
        exact hhungry.feeds cs more fin m hm hcs hmore

theorem Done.bind_rest (h : Done reads before parse ts x rest) (hne : rest ≠ []) (hk : k ≤ reads)
    (hcont : Viable 0 next (fun n => cont n x) rest) : Viable reads next (fun n => parse n >>= cont (n - k)) ts := by
  have hle := h.length_le
  have hpos : 0 < rest.length := List.length_pos_iff.mpr hne
  refine hcont.of_run hle ?_
  intro ext fin n hn
  refine ⟨n - k, ?_, run_bind_ok (h.run ext fin n hn fun hnil => absurd hnil hne)⟩
  rw [List.length_append] at hn ⊢
  omega

/-- Two parsers in turn: the second one is asked what it does with every rest that the first one leaves, and with none.
-/
theorem Viable.bind_sub (h : Viable reads before parse ts) (hk : k ≤ ts.length) (hreads : k ≤ reads)
    (hcont : ∀ x rest, rest ≠ [] → rest.length ≤ ts.length - reads → Viable 0 next (fun n => cont n x) rest)
    (hend : ∀ x, Follows before next (fun n => cont n x)) :
    Viable reads next (fun n => parse n >>= cont (n - k)) ts := by
  cases h with
  | done x rest hdone =>
      by_cases hnil : rest = []
      · subst hnil
        exact hdone.bind_end hk (hend x)
      · exact hdone.bind_rest hnil hreads (hcont x rest hnil hdone.length_le)
  | refused hrefused => exact .refused hrefused.bind
  | hungry x fillers hhungry =>
      obtain ⟨y, more, hmore⟩ := hhungry.bind hk (hend x)
      exact .hungry y _ hmore

theorem Viable.bind (h : Viable reads before parse ts)
    (hcont : ∀ x rest, rest ≠ [] → rest.length ≤ ts.length - reads → Viable 0 next (fun n => cont n x) rest)
    (hend : ∀ x, Follows before next (fun n => cont n x)) : Viable reads next (fun n => parse n >>= cont n) ts :=
  h.bind_sub (Nat.zero_le _) (Nat.zero_le _) hcont hend

theorem Viable.weaken {reads' : Nat} {next' : Next} (h : Viable reads next parse ts) (hreads : reads' ≤ reads)
    (hnext : ∀ ts, next'.Allows ts → next.Allows ts) : Viable reads' next' parse ts := by
  cases h with
  | done x rest hdone =>
      have hle := hdone.length_le
      exact .done x rest ⟨by omega, fun ext fin n hn hext => hdone.run ext fin n hn fun hnil => hnext ext (hext hnil)⟩
  | refused hrefused => exact .refused hrefused
  | hungry x fillers hhungry =>
      exact .hungry x fillers ⟨hhungry.starves, fun cs more fin n hn hcs hmore =>
        hhungry.feeds cs more fin n hn hcs (hnext more hmore)⟩

theorem Viable.loosen (h : Viable reads next parse ts) : Viable 0 next parse ts :=
  h.weaken (Nat.zero_le reads) fun _ hts => hts

theorem viable_pure (x : α) : Viable 0 next (fun _ => pure x) ts :=
  .done x ts ⟨Nat.le_refl _, fun _ _ _ _ _ => rfl⟩

theorem follows_pure (x : α) (hallows : ∀ ts, next.Allows ts → before.Allows ts) :
    Follows before next (fun _ => pure x) :=
  .returns x ⟨Nat.le_refl _, fun _ _ _ _ _ => rfl⟩ hallows

theorem Viable.map (h : Viable reads next parse ts) (g : α → β) :
    Viable reads next (fun n => parse n >>= fun x => pure (g x)) ts :=
  h.bind (fun x _ _ _ => viable_pure (g x)) fun x => follows_pure (g x) fun _ h => h

/-! ### By the next token -/

variable {t : Token} {parse' : Nat → Parse α}

/-- A parser that passes over the next token. -/
theorem Viable.skip (h : Viable reads next parse' ts)
    (hrun : ∀ n rest fin, (parse (n + 1)).run ⟨t :: rest, fin⟩ = (parse' n).run ⟨rest, fin⟩) :
    Viable 1 next parse (t :: ts) := by
  refine h.of_run (by rw [List.length_cons]; omega) ?_
  intro ext fin n hn
  obtain ⟨k, rfl, hk⟩ := exists_succ_of_length_le hn
  exact ⟨k, hk, hrun k (ts ++ ext) fin⟩

/-- A parser that goes on as another one when it sees the next token. -/
theorem Viable.congr (h : Viable reads next parse' (t :: ts))
    (hrun : ∀ n rest fin, (parse (n + 1)).run ⟨t :: rest, fin⟩ = (parse' (n + 1)).run ⟨t :: rest, fin⟩) :
    Viable reads next parse (t :: ts) := by
  refine h.of_run (Nat.le_refl _) ?_
  intro ext fin n hn
  obtain ⟨k, rfl, _⟩ := exists_succ_of_length_le hn
  exact ⟨k + 1, hn, hrun k (ts ++ ext) fin⟩

/-- A parser that leaves the next token to others. -/
theorem Viable.stop (x : α) (hrun : ∀ n rest fin, (parse (n + 1)).run ⟨t :: rest, fin⟩ = .ok (x, ⟨t :: rest, fin⟩)) :
    Viable 0 next parse (t :: ts) :=
  (viable_pure x).congr hrun

theorem Viable.refuse (cause : SyntaxCause) (hfinal : cause.mayContinue = false)
    (hrun : ∀ n rest fin, ∃ offset, (parse (n + 1)).run ⟨t :: rest, fin⟩ = .error ⟨cause, offset⟩) :
    Viable reads next parse (t :: ts) := by
  refine .refused ?_
  intro ext fin n hn
  obtain ⟨k, rfl, _⟩ := exists_succ_of_length_le hn
  obtain ⟨offset, hrun⟩ := hrun k (ts ++ ext) fin
  exact ⟨_, hrun, hfinal⟩

theorem Viable.unexpected
    (hrun : ∀ n rest fin, (parse (n + 1)).run ⟨t :: rest, fin⟩ = Parser.unexpected.run ⟨t :: rest, fin⟩) :
    Viable reads next parse (t :: ts) :=
  .refuse (.unexpected t.kind) rfl fun n rest fin => ⟨t.start, hrun n rest fin⟩

/-! The number of tokens is a bound. -/

theorem Done.remaining (h : Done reads next parse ts x rest) :
    Done reads next (fun _ => Parser.remaining >>= parse) ts x rest :=
  ⟨h.length_le, fun ext fin _ _ hext => h.run ext fin (ts ++ ext).length (Nat.le_refl _) hext⟩

theorem Viable.remaining (h : Viable reads next parse ts) :
    Viable reads next (fun _ => Parser.remaining >>= parse) ts :=
  h.of_run (Nat.le_refl _) fun ext _ _ _ => ⟨(ts ++ ext).length, Nat.le_refl _, rfl⟩

/-- A greater bound is one as well. -/
theorem Viable.succ (h : Viable reads next parse ts) : Viable reads next (fun n => parse (n + 1)) ts :=
  h.of_run (Nat.le_refl _) fun _ _ n hn => ⟨n + 1, Nat.le_succ_of_le hn, rfl⟩

/-! ### At the end -/

/-- A parser that returns at the end and before some punctuators. -/
theorem done_of_marks {ps : List Punct} (x : α) (hnil : ∀ n fin, (parse n).run ⟨[], fin⟩ = .ok (x, ⟨[], fin⟩))
    (hmark : ∀ (t : Token) n ts fin, (∃ m ∈ ps, t.kind = .punct m) →
      (parse (n + 1)).run ⟨t :: ts, fin⟩ = .ok (x, ⟨t :: ts, fin⟩)) : Done 0 (.marks ps) parse [] x [] := by
  refine ⟨Nat.le_refl _, ?_⟩
  intro ext fin n hn hext
  cases ext with
  | nil => exact hnil n fin
  | cons t ts =>
      obtain ⟨k, rfl, _⟩ := exists_succ_of_length_le hn
      exact hmark t k ts fin (hext rfl t rfl)

/-- A parser that needs one token. -/
theorem hungry_of_filler (x : α) (filler : Filler)
    (hnil : ∀ n fin, ∃ e, (parse n).run ⟨[], fin⟩ = .error e ∧ e.cause.mayContinue = true)
    (hrun : ∀ (t : Token) n more fin, t.kind = filler.kind → more.length ≤ n → next.Allows more →
      (parse (n + 1)).run ⟨t :: more, fin⟩ = .ok (x, ⟨more, fin⟩)) : Hungry next parse [] x [filler] := by
  refine ⟨fun fin n _ => hnil n fin, ?_⟩
  intro cs more fin n hn hcs hmore
  obtain ⟨t, rfl, hkind⟩ := hcs.of_singleton
  obtain ⟨k, rfl, hk⟩ := exists_succ_of_length_le hn
  exact hrun t k more fin hkind hk hmore

/-! ### Marks -/

theorem run_peek (t : Token) (ts : List Token) (fin : Nat) :
    peek.run ⟨t :: ts, fin⟩ = .ok (some t.kind, ⟨t :: ts, fin⟩) :=
  rfl

theorem run_eat_self {m : Punct} (h : t.kind = .punct m) (fin : Nat) :
    (eat m).run ⟨t :: ts, fin⟩ = .ok (true, ⟨ts, fin⟩) := by
  obtain ⟨kind, start, stop, newline⟩ := t
  cases h
  have hpeek : peekPunct.run ⟨⟨.punct m, start, stop, newline⟩ :: ts, fin⟩ =
      .ok (some m, ⟨⟨.punct m, start, stop, newline⟩ :: ts, fin⟩) := rfl
  rw [eat, run_bind_ok hpeek, if_pos rfl]
  rfl

theorem run_peekPunct (t : Token) (ts : List Token) (fin : Nat) :
    ∃ m?, peekPunct.run ⟨t :: ts, fin⟩ = .ok (m?, ⟨t :: ts, fin⟩) ∧ ∀ m, m? = some m ↔ t.kind = .punct m := by
  obtain ⟨kind, start, stop, newline⟩ := t
  cases kind with
  | punct m => exact ⟨some m, rfl, by simp⟩
  | _ => exact ⟨none, rfl, by simp⟩

theorem run_eat_other {m : Punct} (h : t.kind ≠ .punct m) (fin : Nat) :
    (eat m).run ⟨t :: ts, fin⟩ = .ok (false, ⟨t :: ts, fin⟩) := by
  obtain ⟨m?, hpeek, hm⟩ := run_peekPunct t ts fin
  rw [eat, run_bind_ok hpeek, if_neg fun hsome => h ((hm m).mp hsome)]
  rfl

theorem run_eat_nil (m : Punct) (fin : Nat) : (eat m).run ⟨[], fin⟩ = .ok (false, ⟨[], fin⟩) :=
  rfl

theorem run_expect_self {m : Punct} (h : t.kind = .punct m) (fin : Nat) :
    (expect m).run ⟨t :: ts, fin⟩ = .ok ((), ⟨ts, fin⟩) :=
  run_bind_ok (run_eat_self h fin)

theorem run_expect_other {m : Punct} (h : t.kind ≠ .punct m) (fin : Nat) :
    (expect m).run ⟨t :: ts, fin⟩ = Parser.unexpected.run ⟨t :: ts, fin⟩ :=
  run_bind_ok (run_eat_other h fin)

theorem hungry_expect {m : Punct} (hm : m.isMark = true) : Hungry next (fun _ => expect m) [] () [.mark m hm] :=
  hungry_of_filler () (.mark m hm) (fun _ fin => ⟨⟨.endOfInput, fin⟩, rfl, rfl⟩)
    fun _ _ _ fin hkind _ _ => run_expect_self hkind fin

theorem viable_expect {m : Punct} (hm : m.isMark = true) : Viable 1 next (fun _ => expect m) ts := by
  cases ts with
  | nil => exact .hungry () _ (hungry_expect hm)
  | cons t ts =>
      by_cases hkind : t.kind = .punct m
      · exact (viable_pure ()).skip fun _ _ fin => run_expect_self hkind fin
      · exact .unexpected fun _ _ fin => run_expect_other hkind fin

/-- Behind an expression a mark that ends it is needed. -/
theorem follows_expect {m : Punct} (hm : m ∈ stops) {cont : Nat → Unit → Parse β}
    (hend : Follows .anything next (fun n => cont n ())) :
    Follows (.marks stops) next (fun n => expect m >>= cont n) := by
  have hmark : m.isMark = true := isMark_of_mem_stops hm
  have hhungry : Hungry .anything (fun _ => expect m) [] () [.mark m hmark] := hungry_expect hmark
  obtain ⟨y, more, hboth⟩ := hhungry.bind (Nat.zero_le _) hend
  exact .needs y _ hboth fun cs hcs rest => Next.allows_spelled hm hcs rest

/-! ### Beginnings -/

/-- A parser that has to begin with something can begin with a word. -/
def Begins (next : Next) (parse : Nat → Parse α) : Prop :=
  ∃ x more, Hungry next parse [] x (.word :: more)

theorem Begins.viable (h : Begins next parse) : Viable reads next parse [] := by
  obtain ⟨x, more, hhungry⟩ := h
  exact .hungry x _ hhungry

theorem Begins.weaken {next' : Next} (h : Begins next parse) (hnext : ∀ ts, next'.Allows ts → next.Allows ts) :
    Begins next' parse := by
  obtain ⟨x, more, hhungry⟩ := h
  exact ⟨x, more, hhungry.starves, fun cs rest fin n hn hcs hrest =>
    hhungry.feeds cs rest fin n hn hcs (hnext rest hrest)⟩

theorem Begins.follows (h : Begins next parse) : Follows .anything next parse := by
  obtain ⟨x, more, hhungry⟩ := h
  exact .needs x _ hhungry fun _ _ _ => trivial

theorem Begins.bind (h : Begins before parse) (hend : ∀ x, Follows before next (fun n => cont n x)) :
    Begins next (fun n => parse n >>= cont n) := by
  obtain ⟨x, more, hhungry⟩ := h
  obtain ⟨y, more', hboth⟩ := hhungry.bind (Nat.zero_le _) (hend x)
  exact ⟨y, more ++ more', hboth⟩

/-- A parser that goes on as another one at the end and when it sees a word. -/
theorem Begins.congr (h : Begins next parse') (hnil : ∀ n fin, (parse n).run ⟨[], fin⟩ = (parse' n).run ⟨[], fin⟩)
    (hword : ∀ (t : Token) n rest fin, t.kind = Filler.word.kind →
      (parse n).run ⟨t :: rest, fin⟩ = (parse' n).run ⟨t :: rest, fin⟩) : Begins next parse := by
  obtain ⟨x, more, hhungry⟩ := h
  refine ⟨x, more, ?_, ?_⟩
  · intro fin n hn
    rw [hnil]
    exact hhungry.starves fin n hn
  · intro cs rest fin n hn hcs hrest
    have hfeeds := hhungry.feeds cs rest fin n hn hcs hrest
    obtain ⟨t, cs', rfl, hkind, _⟩ := hcs.of_cons
    rw [List.nil_append, List.cons_append] at hfeeds ⊢
    rw [hword t n (cs' ++ rest) fin hkind]
    exact hfeeds

/-! ### Single tokens -/

/-- Reads a token that stands for something. -/
def accept (meaning : TokenKind → Option α) : Parse α := do
  match (← peek).bind meaning with
  | some x =>
    skip
    return x
  | none => Parser.unexpected

theorem begins_accept {meaning : TokenKind → Option α} {x : α} (hword : meaning Filler.word.kind = some x) :
    Begins next (fun _ => accept meaning) := by
  refine ⟨x, [], hungry_of_filler x .word (fun _ fin => ⟨⟨.endOfInput, fin⟩, rfl, rfl⟩) ?_⟩
  intro t n more fin hkind _ _
  rw [accept, run_bind_ok (run_peek t more fin), Option.bind_some, hkind, hword]
  rfl

theorem viable_accept {meaning : TokenKind → Option α} {x : α} (hword : meaning Filler.word.kind = some x) :
    Viable 1 next (fun _ => accept meaning) ts := by
  cases ts with
  | nil => exact (begins_accept hword).viable
  | cons t ts =>
      cases hmeaning : meaning t.kind with
      | none =>
          refine .unexpected fun _ rest fin => ?_
          rw [accept, run_bind_ok (run_peek t rest fin), Option.bind_some, hmeaning]
      | some y =>
          refine (viable_pure y).skip fun _ rest fin => ?_
          rw [accept, run_bind_ok (run_peek t rest fin), Option.bind_some, hmeaning]
          rfl

end

end Parser

end ScriptRepl.Syntax
