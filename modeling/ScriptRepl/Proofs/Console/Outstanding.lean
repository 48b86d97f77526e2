import ScriptRepl.Proofs.Console.Issuing

/-! Background work comes to an end. A job is answered once or is still outstanding, and an answer asks for less than
what it answers, so that the jobs which are outstanding lead to so many more and no further. -/
namespace ScriptRepl.Console

/-- How often the keys of an input ask for all candidates. -/
def Input.tabs (e : Engine) : Input → Nat
  | .chunk bytes => (e.decoder.feed bytes).1.countP Key.isTab
  | .flush => e.decoder.flush.1.countP Key.isTab
  | _ => 0

/-- What an input that is no answer does to the engine. -/
theorem World.step_proceeds (handler : LineHandler σ) (w : World σ) {input : Input} (h : ∀ a, input ≠ .answer a) :
    ∃ e, w.engine.Proceeds (input.tabs w.engine) e ∧ (w.step handler input).engine = e.takeJobs.2 ∧
      (w.step handler input).issued = w.issued ++ e.jobs := by
  have hdecoded (decoder : Decoder) (ks : List Key) :
      w.engine.Proceeds (ks.countP Key.isTab)
        (({ w.engine with decoder } : Engine).keysThenRefresh handler ks w.state).2.1 := by
    obtain ⟨e₁, hasks, hwork⟩ := ({ w.engine with decoder } : Engine).proceeds_keysThenRefresh handler ks w.state
    exact ⟨e₁, ⟨hasks.generation_le, hasks.scheduled, hasks.jobs⟩, hwork⟩
  cases input with
  | chunk bytes => exact ⟨_, hdecoded _ _, rfl, rfl⟩
  | flush => exact ⟨_, hdecoded _ _, rfl, rfl⟩
  | answer a => exact absurd rfl (h a)
  | historyLoaded lines =>
      have hloaded : w.engine.Asks 0 (w.engine.onEvent (.historyLoaded lines)) :=
        Engine.asks_of_advances .same rfl rfl
      exact ⟨_, hloaded.proceeds, rfl, rfl⟩
  | resize columns =>
      have hresized : w.engine.Asks 0 (w.engine.setColumns columns) := Engine.asks_of_advances .same rfl rfl
      exact ⟨_, (hresized.trans (Engine.asks_paint _)).proceeds, rfl, rfl⟩

/-! ### Answers that come once -/

/-- A world in which each job is answered once, and the jobs that were not answered yet. -/
structure Traffic (σ : Type) where
  world : World σ
  waiting : List Job

namespace Traffic

def start (settings : Settings) (highlighter : String → String) (history : HistoryStore) (columns : Nat)
    (state : σ) : Traffic σ :=
  let world := World.start settings highlighter history columns state
  { world, waiting := world.issued }

/-- The jobs that were issued on the way are outstanding, too. -/
def goOn (t : Traffic σ) (world : World σ) : Traffic σ :=
  { world, waiting := t.waiting ++ world.issued.drop t.world.issued.length }

/-- An answer to a job that is outstanding. Any other one does not come. -/
def deliver (handler : LineHandler σ) (t : Traffic σ) (a : Answer) : Traffic σ :=
  if a.job ∈ t.waiting then
    { t with waiting := t.waiting.erase a.job }.goOn (t.world.step handler (.answer a))
  else t

def step (handler : LineHandler σ) (t : Traffic σ) : Input → Traffic σ
  | .answer a => t.deliver handler a
  | input => t.goOn (t.world.step handler input)

def run (handler : LineHandler σ) (t : Traffic σ) (inputs : List Input) : Traffic σ :=
  inputs.foldl (step handler) t

/-- How many answers it takes at most until nothing is outstanding. -/
def weight (t : Traffic σ) : Nat :=
  Job.weights t.waiting

/-- Answers in turn, each to a job that is outstanding then. -/
inductive Deliveries (handler : LineHandler σ) : Traffic σ → List Answer → Traffic σ → Prop
  | nil (t : Traffic σ) : Deliveries handler t [] t
  | cons {t t' : Traffic σ} {a : Answer} {answers : List Answer} (ha : a.job ∈ t.waiting)
      (hrest : Deliveries handler (t.deliver handler a) answers t') : Deliveries handler t (a :: answers) t'

/-- So many answers, each of which is picked when its turn comes. -/
def delivers (handler : LineHandler σ) (pick : Traffic σ → Answer) (t : Traffic σ) : Nat → Traffic σ
  | 0 => t
  | n + 1 => (t.deliver handler (pick t)).delivers handler pick n

/-- The engine has no jobs that were not taken, and those that it issued go with it. -/
structure Settled (t : Traffic σ) : Prop where
  jobs : t.world.engine.jobs = []
  tallied : t.world.engine.Tallied t.world.issued t.waiting

variable {t t' : Traffic σ} {handler : LineHandler σ}

theorem settled_goOn {w : World σ} {e : Engine} (h : e.Tallied t.world.issued t.waiting)
    (hengine : w.engine = e.takeJobs.2) (hissued : w.issued = t.world.issued ++ e.jobs) : (t.goOn w).Settled := by
  refine ⟨congrArg Engine.jobs hengine, ?_⟩
  rw [goOn, hengine, hissued, List.drop_left]
  exact h.taken

theorem settled_start (settings : Settings) (highlighter : String → String) (history : HistoryStore) (columns : Nat)
    (state : σ) : (start settings highlighter history columns state).Settled := by
  have hnew : (Engine.new settings highlighter history columns).Tallied [] [] :=
    ⟨nofun, nofun, nofun, fun _ => Nat.zero_le 1, fun _ => Nat.zero_le 1⟩
  exact ⟨rfl, (hnew.proceeds (Engine.Asks.refl _).proceeds_refresh).taken⟩

/-- An answer that comes is one that the engine is told. -/
theorem Settled.step_answer (handler : LineHandler σ) (h : t.Settled) {a : Answer} (ha : a.job ∈ t.waiting) :
    (t.world.step handler (.answer a)).engine = (t.world.engine.onEvent a.event).takeJobs.2 ∧
      (t.world.step handler (.answer a)).issued = t.world.issued ++ (t.world.engine.onEvent a.event).jobs := by
  rw [World.step, if_pos (h.tallied.mem_issued _ ha)]
  exact ⟨rfl, rfl⟩

theorem Settled.deliver (h : t.Settled) (a : Answer) : (t.deliver handler a).Settled := by
  unfold Traffic.deliver
  split
  · rename_i ha
    obtain ⟨hengine, hissued⟩ := h.step_answer handler ha
    exact settled_goOn (h.tallied.answered ha (t.world.engine.follows_onEvent a)) hengine hissued
  · exact h

theorem Settled.goOn (h : t.Settled) {input : Input} (hinput : ∀ a, input ≠ .answer a) :
    (t.goOn (t.world.step handler input)).Settled := by
  obtain ⟨e, hproceeds, hengine, hissued⟩ := t.world.step_proceeds handler hinput
  exact settled_goOn (h.tallied.proceeds hproceeds) hengine hissued

theorem Settled.step (h : t.Settled) (input : Input) : (t.step handler input).Settled := by
  cases input with
  | answer a => exact h.deliver a
  | _ => exact h.goOn nofun

theorem Settled.run (h : t.Settled) (inputs : List Input) : (t.run handler inputs).Settled := by
  induction inputs generalizing t with
  | nil => exact h
  | cons input inputs ih => exact ih (h.step input)

/-- All candidates are asked for by the tabulator only, and once for each time that it is pressed. -/
theorem Settled.fulls_step (h : t.Settled) (input : Input) :
    (t.step handler input).world.issued.countP Job.isFull ≤
      t.world.issued.countP Job.isFull + input.tabs t.world.engine := by
  have hnone : t.world.engine.jobs.countP Job.isFull = 0 := by rw [h.jobs, List.countP_nil]
  have hgoOn {input : Input} (hinput : ∀ a, input ≠ .answer a) :
      (t.world.step handler input).issued.countP Job.isFull ≤
        t.world.issued.countP Job.isFull + input.tabs t.world.engine := by
    obtain ⟨e, hproceeds, -, hissued⟩ := t.world.step_proceeds handler hinput
    have hle := hproceeds.countP_isFull
    rw [hissued, List.countP_append]
    omega
  cases input with
  | answer a =>
      change (t.deliver handler a).world.issued.countP Job.isFull ≤ _
      unfold Traffic.deliver
      split
      · rename_i ha
        have hle := (t.world.engine.follows_onEvent a).countP_isFull
        rw [Traffic.goOn, (h.step_answer handler ha).2, List.countP_append]
        omega
      · exact Nat.le_add_right _ _
  | _ => exact hgoOn nofun

/-! ### How it ends -/

theorem Settled.weight_deliver (handler : LineHandler σ) (h : t.Settled) {a : Answer} (ha : a.job ∈ t.waiting) :
    (t.deliver handler a).weight < t.weight := by
  have hless := (t.world.engine.follows_onEvent a).weights_lt
  have hsplit : Job.weights t.waiting = a.job.weight + Job.weights (t.waiting.erase a.job) :=
    ((List.perm_cons_erase ha).map Job.weight).sum_nat
  have hempty : Job.weights t.world.engine.jobs = 0 := by rw [h.jobs, Job.weights, List.map_nil, List.sum_nil]
  have hafter : (t.deliver handler a).waiting = t.waiting.erase a.job ++ (t.world.engine.onEvent a.event).jobs := by
    unfold Traffic.deliver
    rw [if_pos ha, Traffic.goOn, (h.step_answer handler ha).2, List.drop_left]
  rw [weight, weight, hafter, Job.weights_append, hsplit]
  omega

theorem Deliveries.length_le {answers : List Answer} (h : Deliveries handler t answers t') (ht : t.Settled) :
    answers.length + t'.weight ≤ t.weight := by
  induction h with
  | nil => simp
  | cons ha hrest ih =>
      have hless := ht.weight_deliver handler ha
      have hle := ih (ht.deliver _)
      rw [List.length_cons]
      omega

theorem waiting_of_weight_zero (h : t.weight = 0) : t.waiting = [] := by
  cases hwaiting : t.waiting with
  | nil => rfl
  | cons job jobs =>
      rw [weight, hwaiting, Job.weights, List.map_cons, List.sum_cons] at h
      exact absurd (Nat.eq_zero_of_add_eq_zero_right h) (Nat.ne_of_gt job.weight_pos)

/-- Whatever is answered next, and however. -/
theorem Settled.waiting_delivers (h : t.Settled) {pick : Traffic σ → Answer}
    (hpick : ∀ t : Traffic σ, t.waiting ≠ [] → (pick t).job ∈ t.waiting) {n : Nat} (hn : t.weight ≤ n) :
    (t.delivers handler pick n).waiting = [] := by
  induction n generalizing t with
  | zero => exact waiting_of_weight_zero (Nat.le_zero.mp hn)
  | succ n ih =>
      refine ih (h.deliver _) ?_
      by_cases hwaiting : t.waiting = []
      -- an answer to nothing that is outstanding does not come
      · have hstays : t.deliver handler (pick t) = t := by
          unfold Traffic.deliver
          rw [hwaiting]
          exact if_neg List.not_mem_nil
        rw [hstays, weight, hwaiting]
        exact Nat.zero_le n
      · exact Nat.le_of_lt_succ (Nat.lt_of_lt_of_le (h.weight_deliver handler (hpick t hwaiting)) hn)

/-- In every run, whatever is typed, answered and loaded: one completion to be shown and one preview are asked for in a
generation at most, and all candidates only when the tabulator is pressed. When no input comes any more, each answer
leaves less to do, so that after a number of answers that can be told beforehand nothing is outstanding, whichever comes
first and whatever they are. -/
theorem run_ends (handler : LineHandler σ) (settings : Settings) (highlighter : String → String)
    (history : HistoryStore) (columns : Nat) (state : σ) (inputs : List Input) :
    let t := (start settings highlighter history columns state).run handler inputs
    (∀ generation, t.world.issued.countP (Job.isPartly generation) ≤ 1 ∧
        t.world.issued.countP (Job.isPreview generation) ≤ 1) ∧
      (∀ input, (t.step handler input).world.issued.countP Job.isFull ≤
        t.world.issued.countP Job.isFull + input.tabs t.world.engine) ∧
      (∀ answers t', Deliveries handler t answers t' → answers.length + t'.weight ≤ t.weight) ∧
      ∀ pick : Traffic σ → Answer, (∀ t : Traffic σ, t.waiting ≠ [] → (pick t).job ∈ t.waiting) →
        (t.delivers handler pick t.weight).waiting = [] := by
  intro t
  have ht : t.Settled := (settled_start settings highlighter history columns state).run inputs
  refine ⟨fun generation => ?_, ht.fulls_step, fun answers t' h => h.length_le ht,
    fun pick hpick => ht.waiting_delivers hpick (Nat.le_refl _)⟩
  have hpartly := ht.tallied.partly generation
  have hpreview := ht.tallied.preview generation
  rw [ht.jobs, List.append_nil] at hpartly hpreview
  exact ⟨hpartly, Nat.le_trans (Nat.le_add_right _ _) hpreview⟩

end Traffic

end ScriptRepl.Console
