import ScriptRepl.Proofs.Syntax.Viability

/-! The parsers of expressions are viable on every input: by induction on the level of nesting, and within a level on
the tokens that are left. -/
namespace ScriptRepl.Syntax.Parser

/-- The parsers of a level that has room, or of the one that has none. -/
structure Level.Sound (l : Level) : Prop where
  assignment : ∀ ts, Viable 1 (.marks stops) (fun _ => l.assignment) ts
  binary : ∀ least ts, Viable 1 (.marks stops) (fun _ => l.binary least) ts
  unary : ∀ ts, Viable 1 (.marks stops) (fun _ => l.unary) ts
  list : ∀ close ∈ stops, ∀ ts, Viable 1 .anything (fun _ => l.list close) ts
  object : ∀ ts, Viable 1 .anything (fun _ => l.object) ts
  template : ∀ t ts, Viable 0 .anything (fun _ => l.template t) ts
  begins : (∀ ts, Refused (fun _ => l.assignment) ts) ∨
    Begins (.marks stops) (fun _ => l.assignment)

theorem refused_nesting (ts : List Token) : Refused (α := α) (fun _ => fail .nesting) ts := by
  intro ext fin n _
  exact ⟨_, rfl, rfl⟩

theorem sound_forbidden : Level.forbidden.Sound where
  assignment ts := .refused (refused_nesting ts)
  binary _ ts := .refused (refused_nesting ts)
  unary ts := .refused (refused_nesting ts)
  list _ _ ts := .refused (refused_nesting ts)
  object ts := .refused (refused_nesting ts)
  template _ ts := .refused (refused_nesting ts)
  begins := .inl refused_nesting

section

variable {deeper : Level} {ts : List Token}

/-! ### Operands -/

theorem viable_enclosed {α β : Type} {reads : Nat} {next : Next} {parse : Nat → Parse α} {close : Punct}
    {cont : Nat → α → Parse β} (h : Viable reads (.marks stops) parse ts) (hclose : close ∈ stops)
    (hcont : ∀ x rest, rest.length < ts.length → Viable 0 next (fun n => cont n x) rest)
    (hend : ∀ x, Follows .anything next (fun n => cont n x)) :
    Viable reads next (fun n => parse n >>= fun x => expect close >>= fun _ => cont n x) ts := by
  have hmark : close.isMark = true := isMark_of_mem_stops hclose
  refine h.bind ?_ fun x => follows_expect hclose (hend x)
  intro x rest hne hle
  have hexpect : Viable 1 .anything (fun _ => expect close) rest := viable_expect hmark
  refine (hexpect.bind ?_ fun _ => hend x).loosen
  intro _ rest' _ hle'
  have hpos : 0 < rest.length := List.length_pos_iff.mpr hne
  exact hcont x rest' (by omega)

theorem begins_primary : Begins .anything (fun _ => primary deeper) := by
  refine ⟨.name "a", [], hungry_of_filler _ .word (fun _ fin => ⟨⟨.endOfInput, fin⟩, rfl, rfl⟩) ?_⟩
  intro t n more fin hkind _ _
  obtain ⟨kind, start, stop, newline⟩ := t
  cases hkind
  rfl

theorem viable_primary (hdeeper : deeper.Sound) : Viable 1 .anything (fun _ => primary deeper) ts := by
  cases ts with
  | nil => exact begins_primary.viable
  | cons t ts =>
      obtain ⟨kind, start, stop, newline⟩ := t
      cases kind with
      | number x => exact (viable_pure (.number x)).skip fun _ _ _ => rfl
      | text s => exact (viable_pure (.text s)).skip fun _ _ _ => rfl
      | template t => exact (hdeeper.template t ts).skip fun _ _ _ => rfl
      | name s => exact (viable_pure (.name s)).skip fun _ _ _ => rfl
      | keyword k =>
          cases k with
          | literal l => exact (viable_pure (.literal l)).skip fun _ _ _ => rfl
          | decl kind => exact .unexpected fun _ _ _ => rfl
          | typeof => exact .unexpected fun _ _ _ => rfl
      | punct p =>
          cases p with
          | openParen =>
              have hinner : Viable 1 .anything
                  (fun _ => do let e ← deeper.assignment; expect .closeParen; return e) ts :=
                viable_enclosed (hdeeper.assignment ts) (by decide) (fun _ _ _ => viable_pure _)
                  fun e => follows_pure e fun _ _ => trivial
              exact hinner.skip fun _ _ _ => rfl
          | openBracket =>
              exact ((hdeeper.list .closeBracket (by decide) ts).map Expr.array).skip fun _ _ _ => rfl
          | openBrace => exact (hdeeper.object ts).skip fun _ _ _ => rfl
          | _ => exact .unexpected fun _ _ _ => rfl
      | comment => exact .unexpected fun _ _ _ => rfl

/-! ### What goes on after an operand -/

theorem eq_of_mem_stops {m : Punct} (h : m ∈ stops) :
    m = .closeParen ∨ m = .closeBracket ∨ m = .closeBrace ∨ m = .colon := by
  simpa [stops] using h

theorem done_chainTail (e : Expr) : Done 0 (.marks stops) (fun n => chainTail deeper n e) [] e [] := by
  refine done_of_marks e (fun n _ => ?_) ?_
  · cases n <;> rfl
  · rintro ⟨kind, start, stop, newline⟩ n ts fin ⟨m, hm, hkind⟩
    cases hkind
    rcases eq_of_mem_stops hm with rfl | rfl | rfl | rfl <;> rfl

theorem follows_chainTail (e : Expr) {before : Next} (hallows : ∀ ts, (Next.marks stops).Allows ts → before.Allows ts) :
    Follows before (.marks stops) (fun n => chainTail deeper n e) :=
  .returns e (done_chainTail e) hallows

theorem run_chainTail_dot {t : Token} (hkind : t.kind = .punct .dot) (n : Nat) (e : Expr) (ts : List Token)
    (fin : Nat) :
    (chainTail deeper (n + 1) e).run ⟨t :: ts, fin⟩ =
      (accept memberName? >>= fun key => chainTail deeper n (.member e key)).run ⟨ts, fin⟩ := by
  obtain ⟨kind, start, stop, newline⟩ := t
  cases hkind
  cases ts with
  | nil => rfl
  | cons t ts =>
      obtain ⟨kind, start, stop, newline⟩ := t
      cases kind <;> rfl

theorem viable_chainTail (hdeeper : deeper.Sound) (ts : List Token) (e : Expr) :
    Viable 0 (.marks stops) (fun n => chainTail deeper n e) ts := by
  induction ts using length_induction generalizing e with
  | h ts ih =>
      cases ts with
      | nil => exact .done e [] (done_chainTail e)
      | cons t ts =>
          obtain ⟨kind, start, stop, newline⟩ := t
          cases kind with
          | punct p =>
              cases p with
              | dot =>
                  have hkey : Viable 1 .anything (fun _ => accept memberName?) ts := viable_accept rfl
                  have hmember : Viable 1 (.marks stops) (fun n => do
                      let key ← accept memberName?; chainTail deeper n (.member e key)) ts := by
                    refine hkey.bind (fun key rest _ hle => ih rest ?_ _)
                      fun key => follows_chainTail _ fun _ _ => trivial
                    rw [List.length_cons]
                    omega
                  exact (hmember.skip fun n rest fin => run_chainTail_dot rfl n e rest fin).loosen
              | openBracket =>
                  have hindex : Viable 1 (.marks stops) (fun n => do
                      let key ← deeper.assignment; expect .closeBracket; chainTail deeper n (.index e key)) ts :=
                    viable_enclosed (hdeeper.assignment ts) (by decide)
                      (fun key rest hlt => ih rest (Nat.lt_succ_of_lt hlt) _)
                      fun key => follows_chainTail _ fun _ _ => trivial
                  exact (hindex.skip fun _ _ _ => rfl).loosen
              | openParen =>
                  have hcall : Viable 1 (.marks stops) (fun n => do
                      let args ← deeper.list .closeParen; chainTail deeper n (.call e args)) ts := by
                    refine (hdeeper.list .closeParen (by decide) ts).bind (fun args rest _ hle => ih rest ?_ _)
                      fun args => follows_chainTail _ fun _ _ => trivial
                    rw [List.length_cons]
                    omega
                  exact (hcall.skip fun _ _ _ => rfl).loosen
              | _ => exact .stop e fun _ _ _ => rfl
          | _ => exact .stop e fun _ _ _ => rfl

/-- An operand with its members, indices and calls. -/
def chain (deeper : Level) (e : Expr) : Parse Expr :=
  remaining >>= fun fuel => chainTail deeper fuel e

theorem follows_chain (e : Expr) : Follows .anything (.marks stops) (fun _ => chain deeper e) :=
  .returns e (done_chainTail e).remaining fun _ _ => trivial

theorem begins_operand (deeper : Level) : Begins (.marks stops) (fun _ => primary deeper >>= chain deeper) :=
  begins_primary.bind follows_chain

theorem viable_operand (hdeeper : deeper.Sound) :
    Viable 1 (.marks stops) (fun _ => primary deeper >>= chain deeper) ts :=
  (viable_primary hdeeper).bind (fun e rest _ _ => (viable_chainTail hdeeper rest e).remaining) follows_chain

theorem run_unary (deeper : Level) (t : Token) (ts : List Token) (fin : Nat) :
    (unary deeper).run ⟨t :: ts, fin⟩ =
      match unaryOf? t.kind with
      | some op => (do return Expr.unary op (← deeper.unary) : Parse Expr).run ⟨ts, fin⟩
      | none => (primary deeper >>= chain deeper).run ⟨t :: ts, fin⟩ := by
  rw [unary, run_bind_ok (run_peek t ts fin), Option.bind_some]
  cases unaryOf? t.kind with
  | some op => rfl
  | none => rfl

theorem begins_unary (deeper : Level) : Begins (.marks stops) (fun _ => unary deeper) := by
  refine (begins_operand deeper).congr (fun _ _ => rfl) fun t n rest fin hkind => ?_
  rw [run_unary, hkind]
  rfl

theorem viable_unary (hdeeper : deeper.Sound) : Viable 1 (.marks stops) (fun _ => unary deeper) ts := by
  cases ts with
  | nil => exact (begins_unary deeper).viable
  | cons t ts =>
      cases hop : unaryOf? t.kind with
      | some op =>
          refine ((hdeeper.unary ts).map (Expr.unary op)).skip fun n rest fin => ?_
          rw [run_unary, hop]
      | none =>
          refine (viable_operand hdeeper).congr fun n rest fin => ?_
          rw [run_unary, hop]

/-! ### Operators -/

theorem done_binaryTail (least : Nat) (left : Expr) :
    Done 0 (.marks stops) (fun n => binaryTail deeper least n left) [] left [] := by
  refine done_of_marks left (fun n _ => ?_) ?_
  · cases n <;> rfl
  · rintro ⟨kind, start, stop, newline⟩ n ts fin ⟨m, hm, hkind⟩
    cases hkind
    rcases eq_of_mem_stops hm with rfl | rfl | rfl | rfl <;> rfl

theorem follows_binaryTail (least : Nat) (left : Expr) {before : Next}
    (hallows : ∀ ts, (Next.marks stops).Allows ts → before.Allows ts) :
    Follows before (.marks stops) (fun n => binaryTail deeper least n left) :=
  .returns left (done_binaryTail least left) hallows

theorem run_binaryTail {p : Punct} (hp : p ≠ .question) (least fuel : Nat) (left : Expr) (start stop : Nat)
    (newline : Bool) (ts : List Token) (fin : Nat) :
    (binaryTail deeper least (fuel + 1) left).run ⟨⟨.punct p, start, stop, newline⟩ :: ts, fin⟩ =
      match Operator.ofPunct? p with
      | none => .ok (left, ⟨⟨.punct p, start, stop, newline⟩ :: ts, fin⟩)
      | some op =>
        if op.power < least then .ok (left, ⟨⟨.punct p, start, stop, newline⟩ :: ts, fin⟩)
        else (do
          let right ← deeper.binary op.rightPower
          binaryTail deeper least fuel (op.build left right) : Parse Expr).run ⟨ts, fin⟩ := by
  have hpeek : peekPunct.run ⟨⟨.punct p, start, stop, newline⟩ :: ts, fin⟩ =
      .ok (some p, ⟨⟨.punct p, start, stop, newline⟩ :: ts, fin⟩) := rfl
  rw [binaryTail, run_bind_ok hpeek]
  split
  · rename_i hnone
    cases hnone
  · rename_i hquestion
    cases hquestion
    exact absurd rfl hp
  · rename_i q _ hq
    cases hq
    cases Operator.ofPunct? p with
    | none => rfl
    | some op =>
        dsimp only
        split
        · rfl
        · rfl

theorem viable_branches (hdeeper : deeper.Sound) (least : Nat) (test : Expr)
    (htail : ∀ (rest : List Token) (left : Expr), rest.length ≤ ts.length →
      Viable 0 (.marks stops) (fun n => binaryTail deeper least n left) rest) :
    Viable 1 (.marks stops) (fun n => do
      let yes ← deeper.assignment
      expect .colon
      let no ← deeper.assignment
      binaryTail deeper least n (.conditional test yes no)) ts := by
  rcases hdeeper.begins with hrefused | hbegins
  · exact .refused (hrefused ts).bind
  · refine viable_enclosed (hdeeper.assignment ts) (by decide) ?_ ?_
    · intro yes rest hlt
      refine ((hdeeper.assignment rest).bind ?_ ?_).loosen
      · intro no rest' _ hle
        exact htail rest' _ (by omega)
      · intro no
        exact follows_binaryTail least _ fun _ h => h
    · intro yes
      exact (hbegins.bind fun no => follows_binaryTail least _ fun _ h => h).follows

theorem viable_binaryTail (hdeeper : deeper.Sound) (least : Nat) (ts : List Token) (left : Expr) :
    Viable 0 (.marks stops) (fun n => binaryTail deeper least n left) ts := by
  induction ts using length_induction generalizing left with
  | h ts ih =>
      cases ts with
      | nil => exact .done left [] (done_binaryTail least left)
      | cons t ts =>
          have htail : ∀ (ts' : List Token) (left : Expr), ts'.length ≤ ts.length →
              Viable 0 (.marks stops) (fun n => binaryTail deeper least n left) ts' :=
            fun ts' left hle => ih ts' (Nat.lt_succ_of_le hle) left
          obtain ⟨kind, start, stop, newline⟩ := t
          cases kind with
          | punct p =>
              by_cases hp : p = .question
              · subst hp
                cases least with
                | zero =>
                    have hbranches := viable_branches hdeeper 0 left htail
                    exact (hbranches.skip fun _ _ _ => rfl).loosen
                | succ least => exact .stop left fun _ _ _ => rfl
              · cases hop : Operator.ofPunct? p with
                | none =>
                    refine .stop left fun n rest fin => ?_
                    rw [run_binaryTail hp, hop]
                | some op =>
                    by_cases hpower : op.power < least
                    · refine .stop left fun n rest fin => ?_
                      rw [run_binaryTail hp, hop]
                      exact if_pos hpower
                    · have hright : Viable 1 (.marks stops) (fun n => do
                          let right ← deeper.binary op.rightPower
                          binaryTail deeper least n (op.build left right)) ts :=
                        (hdeeper.binary op.rightPower ts).bind (fun right rest _ _ => htail rest _ (by omega))
                          fun right => follows_binaryTail least _ fun _ h => h
                      refine (hright.skip fun n rest fin => ?_).loosen
                      rw [run_binaryTail hp, hop]
                      exact if_neg hpower
          | _ => exact .stop left fun _ _ _ => rfl

theorem follows_binaryLoop (least : Nat) (left : Expr) :
    Follows (.marks stops) (.marks stops) (fun _ => remaining >>= fun fuel => binaryTail deeper least fuel left) :=
  .returns left (done_binaryTail least left).remaining fun _ h => h

theorem begins_binary (deeper : Level) (least : Nat) : Begins (.marks stops) (fun _ => binary deeper least) :=
  (begins_unary deeper).bind (follows_binaryLoop least)

theorem viable_binary (hdeeper : deeper.Sound) (least : Nat) :
    Viable 1 (.marks stops) (fun _ => binary deeper least) ts :=
  (viable_unary hdeeper).bind (fun left rest _ _ => (viable_binaryTail hdeeper least rest left).remaining)
    (follows_binaryLoop least)

/-! ### Assignments -/

/-- What an assignment does behind its target. -/
def assignmentTail (deeper : Level) (start : Nat) (target : Expr) : Parse Expr := do
  if ← eat .assign then
    match assignTo? target with
    | none => throw ⟨.invalidTarget, start⟩
    | some assign => return assign (← deeper.assignment)
  else return target

theorem run_assignment (deeper : Level) (i : Input) :
    (assignment deeper).run i = (binary deeper 0 >>= assignmentTail deeper i.offset).run i := by
  rfl

theorem done_assignmentTail (start : Nat) (target : Expr) :
    Done 0 (.marks stops) (fun _ => assignmentTail deeper start target) [] target [] := by
  refine done_of_marks target (fun _ _ => rfl) ?_
  rintro t n ts fin ⟨m, hm, hkind⟩
  have hother : t.kind ≠ .punct .assign := by
    rw [hkind]
    rcases eq_of_mem_stops hm with rfl | rfl | rfl | rfl <;> nofun
  exact run_bind_ok (run_eat_other hother fin)

theorem viable_assignmentTail (hdeeper : deeper.Sound) (start : Nat) (target : Expr) :
    Viable 0 (.marks stops) (fun _ => assignmentTail deeper start target) ts := by
  cases ts with
  | nil => exact .done target [] (done_assignmentTail start target)
  | cons t ts =>
      by_cases hkind : t.kind = .punct .assign
      · cases htarget : assignTo? target with
        | none =>
            refine .refuse .invalidTarget rfl fun _ rest fin => ⟨start, ?_⟩
            rw [assignmentTail, run_bind_ok (run_eat_self hkind fin), if_pos rfl, htarget]
            rfl
        | some assign =>
            refine (((hdeeper.assignment ts).map assign).skip fun _ rest fin => ?_).loosen
            rw [assignmentTail, run_bind_ok (run_eat_self hkind fin), if_pos rfl, htarget]
      · exact .stop target fun _ _ fin => run_bind_ok (run_eat_other hkind fin)

theorem begins_assignment : Begins (.marks stops) (fun _ => assignment deeper) := by
  obtain ⟨target, more, hhungry⟩ := begins_binary deeper 0
  refine ⟨target, more, ?_, ?_⟩
  · intro fin n hn
    obtain ⟨e, hrun, hends⟩ := hhungry.starves fin n hn
    refine ⟨e, ?_, hends⟩
    rw [run_assignment, run_bind_error hrun]
  · intro cs rest fin n hn hcs hrest
    rw [run_assignment, run_bind_ok (hhungry.feeds cs rest fin n hn hcs hrest)]
    exact (done_assignmentTail _ target).run rest fin rest.length (Nat.le_refl _) fun _ => hrest

theorem viable_assignment (hdeeper : deeper.Sound) : Viable 1 (.marks stops) (fun _ => assignment deeper) ts := by
  cases ts with
  | nil => exact begins_assignment.viable
  | cons t ts =>
      have hboth : Viable 1 (.marks stops) (fun _ => binary deeper 0 >>= assignmentTail deeper t.start) (t :: ts) :=
        (viable_binary hdeeper 0).bind (fun target _ _ _ => viable_assignmentTail hdeeper t.start target)
          fun target => .returns target (done_assignmentTail t.start target) fun _ h => h
      exact hboth.congr fun _ rest fin => run_assignment deeper ⟨t :: rest, fin⟩

/-! ### Lists and objects -/

/-- Items between commas up to the closing bracket. -/
def separated (close : Punct) (item : Parse α) : (fuel : Nat) → Parse (List α)
  | 0 => unexpected
  | fuel + 1 => do
    if ← eat close then return []
    else
      let x ← item
      if ← eat .comma then return x :: (← separated close item fuel)
      else
        expect close
        return [x]

theorem listItems_eq_separated (deeper : Level) (close : Punct) (fuel : Nat) :
    listItems deeper close fuel = separated close (assignment deeper) fuel := by
  induction fuel with
  | zero => rfl
  | succ fuel ih => rw [listItems, separated, ih]

theorem objectFields_eq_separated (deeper : Level) (fuel : Nat) :
    objectFields deeper fuel = separated .closeBrace (objectField deeper) fuel := by
  induction fuel with
  | zero => rfl
  | succ fuel ih => rw [objectFields, separated, ih]

/-- What comes behind an item. -/
def separatedTail (close : Punct) (item : Parse α) (fuel : Nat) (x : α) : Parse (List α) := do
  if ← eat .comma then return x :: (← separated close item fuel)
  else
    expect close
    return [x]

theorem follows_separatedTail {close : Punct} (hclose : close ∈ stops) (item : Parse α) (x : α) :
    Follows (.marks [close]) .anything (fun n => separatedTail close item n x) := by
  have hmark : close.isMark = true := isMark_of_mem_stops hclose
  refine .needs [x] [.mark close hmark] ?_ fun cs hcs more =>
    Next.allows_spelled (List.mem_singleton_self close) hcs more
  refine hungry_of_filler [x] _ (fun _ fin => ⟨⟨.endOfInput, fin⟩, rfl, rfl⟩) fun t n more fin hkind _ _ => ?_
  have hother : t.kind ≠ .punct .comma := by
    rw [hkind]
    rintro h
    cases h
    cases hmark
  rw [separatedTail, run_bind_ok (run_eat_other hother fin), if_neg Bool.false_ne_true,
    run_bind_ok (run_expect_self hkind fin)]
  rfl

theorem viable_separatedTail {close : Punct} (hclose : close ∈ stops) (item : Parse α) (x : α)
    (hitems : ∀ rest : List Token, rest.length < ts.length →
      Viable 1 .anything (fun n => separated close item (n + 1)) rest) (hne : ts ≠ []) :
    Viable 0 .anything (fun n => separatedTail close item n x) ts := by
  cases ts with
  | nil => exact absurd rfl hne
  | cons t ts =>
      by_cases hkind : t.kind = .punct .comma
      · refine (((hitems ts (Nat.lt_succ_self _)).map (x :: ·)).skip fun n rest fin => ?_).loosen
        rw [separatedTail, run_bind_ok (run_eat_self hkind fin), if_pos rfl]
      · have hend : Viable 1 .anything (fun _ => expect close >>= fun _ => pure [x]) (t :: ts) :=
          (viable_expect (isMark_of_mem_stops hclose)).map fun _ => [x]
        refine (hend.congr fun n rest fin => ?_).loosen
        rw [separatedTail, run_bind_ok (run_eat_other hkind fin), if_neg Bool.false_ne_true]

theorem run_separated_self {close : Punct} {t : Token} (hkind : t.kind = .punct close) (item : Parse α) (n : Nat)
    (rest : List Token) (fin : Nat) :
    (separated close item (n + 1)).run ⟨t :: rest, fin⟩ = .ok ([], ⟨rest, fin⟩) := by
  rw [separated, run_bind_ok (run_eat_self hkind fin), if_pos rfl]
  rfl

theorem viable_separated {close : Punct} (hclose : close ∈ stops) {item : Parse α}
    (hitem : ∀ ts, Viable 1 (.marks [close]) (fun _ => item) ts) (hbegins : Begins (.marks [close]) (fun _ => item))
    (ts : List Token) : Viable 1 .anything (fun n => separated close item (n + 1)) ts := by
  have hmark : close.isMark = true := isMark_of_mem_stops hclose
  induction ts using length_induction with
  | h ts ih =>
      cases ts with
      | nil =>
          refine .hungry [] _ (hungry_of_filler [] (.mark close hmark) (fun n fin => ?_) ?_)
          · obtain ⟨x, more, hhungry⟩ := hbegins
            obtain ⟨e, hrun, hends⟩ := hhungry.starves fin n (Nat.zero_le n)
            refine ⟨e, ?_, hends⟩
            rw [separated, run_bind_ok (run_eat_nil close fin), if_neg Bool.false_ne_true, run_bind_error hrun]
          · intro t n more fin hkind _ _
            exact run_separated_self hkind item (n + 1) more fin
      | cons t ts =>
          by_cases hkind : t.kind = .punct close
          · exact (viable_pure []).skip fun n rest fin => run_separated_self hkind item (n + 1) rest fin
          · have hitems : Viable 1 .anything (fun n => item >>= separatedTail close item n) (t :: ts) := by
              refine (hitem (t :: ts)).bind ?_ (follows_separatedTail hclose item)
              intro x rest hne hle
              refine viable_separatedTail hclose item x ?_ hne
              intro rest' hlt
              exact ih rest' (by rw [List.length_cons] at hle ⊢; omega)
            refine hitems.congr fun n rest fin => ?_
            rw [separated, run_bind_ok (run_eat_other hkind fin), if_neg Bool.false_ne_true]
            rfl

theorem viable_list (hdeeper : deeper.Sound) {close : Punct} (hclose : close ∈ stops) :
    Viable 1 .anything (fun _ => list deeper close) ts := by
  have hnext : ∀ ts, (Next.marks [close]).Allows ts → (Next.marks stops).Allows ts :=
    fun _ => Next.allows_of_subset (List.cons_subset.mpr ⟨hclose, List.nil_subset _⟩)
  have hitems : Viable 1 .anything (fun n => separated close (assignment deeper) (n + 1)) ts :=
    viable_separated hclose (fun ts => (viable_assignment hdeeper).weaken (Nat.le_refl _) hnext)
      (begins_assignment.weaken hnext) ts
  simp only [← listItems_eq_separated] at hitems
  exact hitems.remaining

/-- What a field does behind a name. -/
def nameFieldTail (deeper : Level) (name : String) : Parse (String × Expr) := do
  if ← eat .colon then return (name, ← assignment deeper) else return (name, .name name)

/-- What a field does behind any other key. -/
def keyedFieldTail (deeper : Level) (key : String) : Parse (String × Expr) := do
  if ← eat .colon then return (key, ← assignment deeper) else unexpected

theorem done_nameFieldTail (name : String) :
    Done 0 (.marks [.closeBrace]) (fun _ => nameFieldTail deeper name) [] (name, .name name) [] := by
  refine done_of_marks _ (fun _ _ => rfl) ?_
  rintro t n ts fin ⟨m, hm, hkind⟩
  have hother : t.kind ≠ .punct .colon := by
    rw [hkind, List.mem_singleton.mp hm]
    nofun
  exact run_bind_ok (run_eat_other hother fin)

theorem viable_value (hdeeper : deeper.Sound) (key : String) :
    Viable 1 (.marks [.closeBrace]) (fun _ => do return (key, ← assignment deeper)) ts :=
  ((viable_assignment hdeeper).map (key, ·)).weaken (Nat.le_refl _) fun _ =>
    Next.allows_of_subset (by decide)

theorem viable_nameFieldTail (hdeeper : deeper.Sound) (name : String) :
    Viable 0 (.marks [.closeBrace]) (fun _ => nameFieldTail deeper name) ts := by
  cases ts with
  | nil => exact .done _ [] (done_nameFieldTail name)
  | cons t ts =>
      by_cases hkind : t.kind = .punct .colon
      · refine ((viable_value hdeeper name).skip fun _ rest fin => ?_).loosen
        rw [nameFieldTail, run_bind_ok (run_eat_self hkind fin), if_pos rfl]
      · exact .stop _ fun _ _ fin => run_bind_ok (run_eat_other hkind fin)

theorem run_keyedFieldTail (deeper : Level) (key : String) (i : Input) :
    (keyedFieldTail deeper key).run i =
      (do expect .colon; return (key, ← assignment deeper) : Parse (String × Expr)).run i := by
  obtain ⟨ts, fin⟩ := i
  cases ts with
  | nil => rfl
  | cons t ts =>
      by_cases hkind : t.kind = .punct .colon
      · rw [keyedFieldTail, run_bind_ok (run_eat_self hkind fin), if_pos rfl, run_bind_ok (run_expect_self hkind fin)]
      · rw [keyedFieldTail, run_bind_ok (run_eat_other hkind fin), run_bind_error (run_expect_other hkind fin)]
        rfl

theorem viable_keyedFieldTail (hdeeper : deeper.Sound) (key : String) :
    Viable 0 (.marks [.closeBrace]) (fun _ => keyedFieldTail deeper key) ts := by
  have hbegins : Begins (.marks [.closeBrace]) (fun _ => do return (key, ← assignment deeper)) :=
    (begins_assignment.bind fun e => follows_pure (key, e) fun _ h => h).weaken fun _ =>
      Next.allows_of_subset (by decide)
  have hexpect : Viable 1 .anything (fun _ => expect .colon) ts := viable_expect rfl
  have hboth : Viable 1 (.marks [.closeBrace]) (fun _ => do expect .colon; return (key, ← assignment deeper)) ts :=
    hexpect.bind (fun _ _ _ _ => (viable_value hdeeper key).loosen) fun _ => hbegins.follows
  exact hboth.of_run (Nat.sub_le _ _) fun ext fin n hn => ⟨n, hn, run_keyedFieldTail deeper key ⟨ts ++ ext, fin⟩⟩

theorem begins_objectField : Begins (.marks [.closeBrace]) (fun _ => objectField deeper) := by
  refine ⟨("a", .name "a"), [], hungry_of_filler _ .word (fun _ fin => ⟨⟨.endOfInput, fin⟩, rfl, rfl⟩) ?_⟩
  intro t n more fin hkind hn hmore
  obtain ⟨kind, start, stop, newline⟩ := t
  cases hkind
  exact (done_nameFieldTail "a").run more fin n hn fun _ => hmore

theorem viable_objectField (hdeeper : deeper.Sound) :
    Viable 1 (.marks [.closeBrace]) (fun _ => objectField deeper) ts := by
  cases ts with
  | nil => exact begins_objectField.viable
  | cons t ts =>
      obtain ⟨kind, start, stop, newline⟩ := t
      cases kind with
      | name s => exact (viable_nameFieldTail hdeeper s).skip fun _ _ _ => rfl
      | keyword k => exact (viable_keyedFieldTail hdeeper k.text).skip fun _ _ _ => rfl
      | text s => exact (viable_keyedFieldTail hdeeper s).skip fun _ _ _ => rfl
      | number x => exact (viable_keyedFieldTail hdeeper (Number.spell x)).skip fun _ _ _ => rfl
      | template t => exact .unexpected fun _ _ _ => rfl
      | punct p => exact .unexpected fun _ _ _ => rfl
      | comment => exact .unexpected fun _ _ _ => rfl

theorem viable_object (hdeeper : deeper.Sound) : Viable 1 .anything (fun _ => object deeper) ts := by
  have hfields : Viable 1 .anything (fun n => separated .closeBrace (objectField deeper) (n + 1)) ts :=
    viable_separated (by decide) (fun _ => viable_objectField hdeeper) begins_objectField ts
  simp only [← objectFields_eq_separated] at hfields
  exact hfields.remaining.map Expr.object

/-! ### Templates -/

theorem mayContinue_holeExpr {hole : Hole} {e : SyntaxError} (h : holeExpr deeper hole = .error e) :
    e.cause.mayContinue = false := by
  unfold holeExpr at h
  split at h
  · cases h
  · cases h
    rfl

theorem mayContinue_templateParts {parts : List (Hole × String)} {e : SyntaxError}
    (h : templateParts deeper parts = .error e) : e.cause.mayContinue = false := by
  induction parts with
  | nil => cases h
  | cons part parts ih =>
      obtain ⟨hole, s⟩ := part
      rw [templateParts] at h
      cases hhole : holeExpr deeper hole with
      | error e' =>
          rw [hhole] at h
          cases h
          exact mayContinue_holeExpr hhole
      | ok x =>
          rw [hhole] at h
          cases hparts : templateParts deeper parts with
          | error e' =>
              rw [hparts] at h
              cases h
              exact ih hparts
          | ok xs =>
              rw [hparts] at h
              cases h

/-- A template is read without a look at what follows it. -/
theorem viable_template (t : Template) : Viable 0 .anything (fun _ => template deeper t) ts := by
  cases hparts : templateParts deeper t.parts with
  | ok parts =>
      refine (viable_pure (Expr.template t.head parts)).of_run (Nat.le_refl _) fun ext fin n hn => ⟨n, hn, ?_⟩
      rw [template, hparts]
      rfl
  | error e =>
      refine .refused fun ext fin n _ => ⟨e, ?_, mayContinue_templateParts hparts⟩
      rw [template, hparts]
      rfl

/-! ### Levels -/

theorem sound_above (hdeeper : deeper.Sound) : (Level.above deeper).Sound where
  assignment _ := viable_assignment hdeeper
  binary least _ := viable_binary hdeeper least
  unary _ := viable_unary hdeeper
  list _ hclose _ := viable_list hdeeper hclose
  object _ := viable_object hdeeper
  template t _ := viable_template t
  begins := .inr begins_assignment

theorem sound_level (room : Nat) : (level room).Sound := by
  induction room with
  | zero => exact sound_forbidden
  | succ room ih => exact sound_above ih

end

end ScriptRepl.Syntax.Parser
