import ScriptRepl.Proofs.Assist.NoTrace
import ScriptRepl.Proofs.Console.Desk

/-! Every handle that is taken at a desk has an owner: the session, for its last result and its last error, the line
in flight or a job in flight. -/
namespace ScriptRepl.Console

/-! ### Groups of lines and of jobs -/

def OfLine (group : Group) : Prop :=
  ∃ k, group = .line k

theorem LineGroup.ofLine {lines : Nat} {group : Group} (h : LineGroup lines group) : OfLine group := by
  obtain ⟨k, _, _, rfl⟩ := h
  exact ⟨k, rfl⟩

/-- The groups of jobs whose numbers were taken in between. -/
def JobGroup (low high : Nat) (group : Group) : Prop :=
  ∃ n, low ≤ n ∧ n < high ∧ (group = .completion n ∨ group = .preview n)

namespace JobGroup

variable {low high : Nat} {group : Group}

theorem mono {high' : Nat} (h : JobGroup low high group) (hle : high ≤ high') : JobGroup low high' group := by
  obtain ⟨n, hlow, hhigh, hgroup⟩ := h
  exact ⟨n, hlow, Nat.lt_of_lt_of_le hhigh hle, hgroup⟩

theorem not_ofLine (h : JobGroup low high group) : ¬ OfLine group := by
  rintro ⟨k, rfl⟩
  obtain ⟨n, _, _, hgroup | hgroup⟩ := h
  · exact Group.line_ne_completion k n hgroup
  · exact Group.line_ne_preview k n hgroup

end JobGroup

theorem Job.jobGroup (job : Job) {low number : Nat} (hlow : low ≤ number) :
    JobGroup low (number + 1) (job.group number) := by
  refine ⟨number, hlow, Nat.lt_succ_self number, ?_⟩
  cases job with
  | complete generation mode source => exact .inl rfl
  | preview generation source width => exact .inr rfl

/-- The next number names a new group. -/
theorem JobGroup.ne_next {low high : Nat} {group : Group} (h : JobGroup low high group) (job : Job) :
    group ≠ job.group high := by
  rintro rfl
  obtain ⟨n, _, hhigh, hgroup⟩ := h
  have hn : n ≠ high := Nat.ne_of_lt hhigh
  cases job with
  | complete generation mode source =>
      obtain hgroup | hgroup := hgroup
      · exact hn (Group.completion_inj hgroup).symm
      · exact Group.completion_ne_preview _ _ hgroup
  | preview generation source width =>
      obtain hgroup | hgroup := hgroup
      · exact Group.completion_ne_preview _ _ hgroup.symm
      · exact hn (Group.preview_inj hgroup).symm

/-! ### Jobs -/

/-- Whether it is cut off or not, the job keeps to its group and leaves nothing in it. -/
structure Errand.Sound (errand : Errand) (held : Holdings) : Prop where
  question : Assist.Keeps errand.group (fun held _ => held errand.group = []) errand.question.request held
  late : ∀ late ∈ errand.late, ∀ held,
    Assist.Keeps errand.group (fun held _ => held errand.group = []) late.request held

theorem Job.keeps_request (job : Job) (ticks : Option Nat) (number : Nat) {held : Holdings}
    (hnone : held (job.group number) = []) :
    Assist.Keeps (job.group number) (fun held _ => held (job.group number) = []) (job.request ticks number) held := by
  cases job with
  | complete generation mode source =>
      exact (Assist.keeps_complete source (.completion number) held).bind fun _ _ hnone => hnone
  | preview generation source width =>
      exact (Assist.keeps_preview source width ticks (.preview number) hnone).bind fun _ _ hnone => hnone

theorem Job.keeps_late (job : Job) (number : Nat) : ∀ late ∈ job.late number, ∀ held,
    Assist.Keeps (job.group number) (fun held _ => held (job.group number) = []) late.request held := by
  cases job with
  | complete generation mode source => nofun
  | preview generation source width =>
      rintro _ ⟨⟩ held
      have hreleased : Function.update held (.preview number) [] (.preview number) = [] := Function.update_self _ _ _
      exact ⟨trivial, rfl, fun _ => hreleased⟩

namespace Errand

variable {held held' : Holdings}

/-- What others hold makes no difference to a job. -/
theorem Sound.congr {errand : Errand} (h : errand.Sound held) (hsame : held errand.group = held' errand.group) :
    errand.Sound held' where
  question := by
    refine Request.Orderly.congr (fun _ hgroup => hgroup) (fun _ _ => trivial) ?_ ?_ h.question
    · intro held held' _ hsame hnone
      rw [← hsame errand.group rfl]
      exact hnone
    · rintro _ rfl
      exact hsame
  late := h.late

theorem Sound.expire {errand : Errand} (h : errand.Sound held) : errand.expire.Sound held := by
  unfold Errand.expire
  split
  · exact h
  · obtain ⟨group, question, late⟩ := errand
    cases late with
    | none => exact h
    | some late => exact ⟨h.late late rfl held, h.late⟩

theorem expire_group (errand : Errand) : errand.expire.group = errand.group := by
  unfold expire
  split <;> rfl

/-- What is left of a job is still sound, and when nothing is left its group is empty. -/
theorem remaining_cases {group : Group} {late : Option (Question Event)} {x : Request Event}
    (hx : Assist.Keeps group (fun held _ => held group = []) x held)
    (hlate : ∀ question ∈ late, ∀ held, Assist.Keeps group (fun held _ => held group = []) question.request held) :
    (remaining group late x = [] ∧ held group = []) ∨
      ∃ errand : Errand, remaining group late x = [errand] ∧ errand.group = group ∧ errand.Sound held := by
  cases x with
  | done event => exact .inl ⟨rfl, hx⟩
  | call c next => exact .inr ⟨_, rfl, rfl, hx, hlate⟩

end Errand

/-! ### The session -/

theorem Keeps.congr {lines : Nat} {one other : Option Kept} {held held' : Holdings} (h : Keeps lines one other held)
    (hsame : ∀ group, OfLine group → held group = held' group) : Keeps lines one other held' where
  own := by
    intro kept hkept
    obtain ⟨hgroup, hheld⟩ := h.own kept hkept
    exact ⟨hgroup, hsame _ hgroup.ofLine ▸ hheld⟩
  apart := h.apart
  only := fun k hk => h.only k (by rwa [hsame _ ⟨k, rfl⟩])

namespace Session

/-- What the session is left with after its next line. -/
def Advanced (s : Session) (held : Holdings) (out : LineOutcome × Session) : Prop :=
  out.2.lines = s.lines + 1 ∧ Keeps out.2.lines out.2.last out.2.lastError held

/-- The request is what is left of the next line of a session. -/
structure Serves (s : Session) (x : Request (LineOutcome × Session)) (held : Holdings) : Prop where
  kept : ∀ kept, kept ∈ s.last ∨ kept ∈ s.lastError → OfLine kept.group
  orderly : x.Orderly (LineGroup (s.lines + 1)) (Live s.last s.lastError) s.Advanced held
  heeds : x.Heeds fun out => out.2.last = s.last ∧ out.2.lastError = s.lastError

theorem serves_onLine {s : Session} {line : String} (hcheck : Syntax.check line ≠ .incomplete) {held : Holdings}
    (h : Keeps s.lines s.last s.lastError held) : s.Serves (s.onLine line) held where
  kept := fun kept hkept => (h.own kept hkept).1.ofLine
  orderly := orderly_onLine hcheck h
  heeds := heeds_onLine s line

theorem Serves.congr {s : Session} {x : Request (LineOutcome × Session)} {held held' : Holdings}
    (h : s.Serves x held) (hsame : ∀ group, OfLine group → held group = held' group) : s.Serves x held' where
  kept := h.kept
  orderly := by
    refine Request.Orderly.congr (fun _ hgroup => hgroup.ofLine) ?_ ?_ hsame h.orderly
    · intro held held' hsame hlive kept hkept
      rw [← hsame _ (h.kept kept hkept)]
      exact hlive kept hkept
    · rintro held held' out hsame ⟨hlines, hkeeps⟩
      exact ⟨hlines, hkeeps.congr hsame⟩
  heeds := h.heeds

theorem Serves.next {s : Session} {c : Call} {next : c.Reply → Request (LineOutcome × Session)} {held : Holdings}
    (h : s.Serves (.call c next) held) (reply : c.Reply) : s.Serves (next reply) (c.after held reply) where
  kept := h.kept
  orderly := h.orderly.2.2 reply
  heeds := (h.heeds reply).2

end Session

/-! ### All of them -/

namespace Desk

/-- The handles that have been taken since. -/
def held (before : Host) (desk : Desk) : Holdings :=
  desk.host.holdings before.nextId

/-- With the one in flight. -/
def lines (desk : Desk) : Nat :=
  match desk.line with
  | none => desk.session.lines
  | some _ => desk.session.lines + 1

theorem lines_of_none {desk : Desk} (h : desk.line = none) : desk.lines = desk.session.lines := by
  simp only [lines, h]

theorem lines_of_some {desk : Desk} {question : Question (LineOutcome × Session)} (h : desk.line = some question) :
    desk.lines = desk.session.lines + 1 := by
  simp only [lines, h]

/-- The jobs in flight have groups of their own, and the handles taken since are in these or in groups of lines. -/
structure Apart (before : Host) (desk : Desk) : Prop where
  since : Host.Since before desk.returned desk.host
  numbers : before.nextGroup ≤ desk.host.nextGroup
  groups : ∀ group ∈ desk.errands.map (·.group), JobGroup before.nextGroup desk.host.nextGroup group
  nodup : (desk.errands.map (·.group)).Nodup
  sound : ∀ errand ∈ desk.errands, errand.Sound (desk.held before)
  owned : ∀ group, desk.held before group ≠ [] → OfLine group ∨ group ∈ desk.errands.map (·.group)

structure Sound (before : Host) (desk : Desk) : Prop extends Apart before desk where
  keeps : desk.line = none → Keeps desk.session.lines desk.session.last desk.session.lastError (desk.held before)
  serves : ∀ question ∈ desk.line, desk.session.Serves question.request (desk.held before)
  returned : ∀ group ∈ desk.returned,
    LineGroup desk.lines group ∨ JobGroup before.nextGroup desk.host.nextGroup group

section

variable {before : Host} {desk : Desk}

theorem Apart.held_answer (h : desk.Apart before) (down : List Outage) (c : Call) :
    (desk.answer down c).held before = c.after (desk.held before) (desk.host.answer down c).1 :=
  Host.holdings_answer h.since.nextId_le down c

theorem Apart.held_answer_of_not_owned (h : desk.Apart before) {owned : Group → Prop} {c : Call}
    (hminds : c.Minds owned (desk.held before)) (down : List Outage) {group : Group} (hgroup : ¬ owned group) :
    (desk.answer down c).held before group = desk.held before group := by
  rw [h.held_answer]
  exact Call.after_of_not_owned hminds _ hgroup

theorem nextGroup_answer (desk : Desk) (down : List Outage) (c : Call) :
    (desk.answer down c).host.nextGroup = desk.host.nextGroup :=
  (Host.answer_cases down desk.host c).1

/-- A call of the line leaves the jobs alone. -/
theorem Apart.answer (h : desk.Apart before) {lines : Nat} {c : Call}
    (hminds : c.Minds (LineGroup lines) (desk.held before)) (down : List Outage) :
    (desk.answer down c).Apart before where
  since := h.since.answer hminds down
  numbers := by
    rw [nextGroup_answer]
    exact h.numbers
  groups := by
    rw [nextGroup_answer]
    exact h.groups
  nodup := h.nodup
  sound := by
    intro errand herrand
    have hother : ¬ LineGroup lines errand.group := fun hline =>
      (h.groups _ (List.mem_map_of_mem herrand)).not_ofLine hline.ofLine
    exact (h.sound errand herrand).congr (h.held_answer_of_not_owned hminds down hother).symm
  owned := by
    intro group hgroup
    by_cases hline : LineGroup lines group
    · exact .inl hline.ofLine
    · rw [h.held_answer_of_not_owned hminds down hline] at hgroup
      exact h.owned group hgroup

theorem Apart.atLine (h : desk.Apart before) (x : Request (LineOutcome × Session)) :
    (desk.atLine x).Apart before := by
  cases x with
  | done out => exact ⟨h.since, h.numbers, h.groups, h.nodup, h.sound, h.owned⟩
  | call c next => exact ⟨h.since, h.numbers, h.groups, h.nodup, h.sound, h.owned⟩

theorem Apart.sound_atLine (h : desk.Apart before) {x : Request (LineOutcome × Session)}
    (hserves : desk.session.Serves x (desk.held before))
    (hreturned : ∀ group ∈ desk.returned,
      LineGroup (desk.session.lines + 1) group ∨ JobGroup before.nextGroup desk.host.nextGroup group) :
    (desk.atLine x).Sound before := by
  have hapart := h.atLine x
  cases x with
  | done out =>
      obtain ⟨hlines, hkeeps⟩ := hserves.orderly
      have hlines : (desk.atLine (.done out)).lines = desk.session.lines + 1 := hlines
      refine ⟨hapart, fun _ => hkeeps, nofun, ?_⟩
      rw [hlines]
      exact hreturned
  | call c next =>
      refine ⟨hapart, nofun, ?_, hreturned⟩
      rintro _ ⟨⟩
      exact hserves

/-- One job is at a request and the others are where they were. -/
theorem Apart.of_remaining {desk' : Desk} {group : Group} {late : Option (Question Event)} {x : Request Event}
    {others : List Errand} (hsince : Host.Since before desk'.returned desk'.host)
    (hnumbers : before.nextGroup ≤ desk'.host.nextGroup)
    (hgroup : JobGroup before.nextGroup desk'.host.nextGroup group)
    (hx : Assist.Keeps group (fun held _ => held group = []) x (desk'.held before))
    (hlate : ∀ question ∈ late, ∀ held, Assist.Keeps group (fun held _ => held group = []) question.request held)
    (hgroups : ∀ group ∈ others.map (·.group), JobGroup before.nextGroup desk'.host.nextGroup group)
    (hnodup : (group :: others.map (·.group)).Nodup) (hsound : ∀ errand ∈ others, errand.Sound (desk'.held before))
    (howned : ∀ other, other ≠ group → desk'.held before other ≠ [] → OfLine other ∨ other ∈ others.map (·.group))
    (herrands : desk'.errands.Perm (Errand.remaining group late x ++ others)) : desk'.Apart before := by
  obtain ⟨hnew, hothers⟩ := List.nodup_cons.mp hnodup
  rcases Errand.remaining_cases hx hlate with ⟨hdone, hnone⟩ | ⟨errand, hwaits, rfl, herrand⟩
  · rw [hdone, List.nil_append] at herrands
    have hnames := herrands.map (·.group)
    refine ⟨hsince, hnumbers, ?_, hnames.nodup_iff.mpr hothers, ?_, ?_⟩
    · exact fun other hother => hgroups other (hnames.mem_iff.mp hother)
    · exact fun errand herrand => hsound errand (herrands.mem_iff.mp herrand)
    · intro other hother
      have hne : other ≠ group := by
        rintro rfl
        exact hother hnone
      exact (howned other hne hother).imp_right hnames.mem_iff.mpr
  · rw [hwaits, List.singleton_append] at herrands
    have hnames := herrands.map (·.group)
    refine ⟨hsince, hnumbers, ?_, hnames.nodup_iff.mpr hnodup, ?_, ?_⟩
    · intro other hother
      rcases List.mem_cons.mp (hnames.mem_iff.mp hother) with rfl | hother
      · exact hgroup
      · exact hgroups other hother
    · intro errand' herrand'
      rcases List.mem_cons.mp (herrands.mem_iff.mp herrand') with rfl | hother
      · exact herrand
      · exact hsound errand' hother
    · intro other hother
      by_cases hmine : other = errand.group
      · exact .inr (hnames.mem_iff.mpr (List.mem_cons.mpr (.inl hmine)))
      · exact (howned other hmine hother).imp_right fun hother => hnames.mem_iff.mpr (List.mem_cons_of_mem _ hother)

/-- The call of one job leaves the others alone. -/
theorem Apart.serve (h : desk.Apart before) {errand : Errand} {others errands : List Errand}
    (hsplit : desk.errands.Perm (errand :: others)) (down : List Outage)
    (herrands : errands.Perm (Errand.remaining errand.group errand.late
      (errand.question.next (desk.host.answer down errand.question.call).1) ++ others)) :
    ({ desk.answer down errand.question.call with errands } : Desk).Apart before := by
  have hmem : errand ∈ desk.errands := hsplit.mem_iff.mpr List.mem_cons_self
  have hothers : ∀ other ∈ others, other ∈ desk.errands := fun _ hother =>
    hsplit.mem_iff.mpr (List.mem_cons_of_mem _ hother)
  have hnodup := (hsplit.map (·.group)).nodup_iff.mp h.nodup
  obtain ⟨_, hminds, hnext⟩ := (h.sound errand hmem).question
  have hnumber := nextGroup_answer desk down errand.question.call
  have hsame : ∀ {group}, group ≠ errand.group →
      (desk.answer down errand.question.call).held before group = desk.held before group :=
    fun hne => h.held_answer_of_not_owned hminds down hne
  refine .of_remaining (x := errand.question.next (desk.host.answer down errand.question.call).1)
    (h.since.answer hminds down) ?_ ?_ ?_ (h.sound errand hmem).late ?_ hnodup ?_ ?_ herrands
  · exact hnumber.symm ▸ h.numbers
  · exact hnumber.symm ▸ h.groups _ (List.mem_map_of_mem hmem)
  · have hheld := h.held_answer down errand.question.call
    exact hheld.symm ▸ hnext _
  · intro group hgroup
    obtain ⟨other, hother, rfl⟩ := List.mem_map.mp hgroup
    exact hnumber.symm ▸ h.groups _ (List.mem_map_of_mem (hothers other hother))
  · intro other hother
    have hne : other.group ≠ errand.group := by
      intro heq
      have hmine : errand.group ∈ others.map (·.group) := List.mem_map.mpr ⟨other, hother, heq⟩
      exact (List.nodup_cons.mp hnodup).1 hmine
    exact (h.sound other (hothers other hother)).congr (hsame hne).symm
  · intro group hne hheld
    have hheld : desk.held before group ≠ [] := hsame hne ▸ hheld
    refine (h.owned group hheld).imp_right fun hgroup => ?_
    exact (List.mem_cons.mp ((hsplit.map (·.group)).mem_iff.mp hgroup)).resolve_left hne

/-- The jobs change and the handles with them, but those of lines do not. -/
theorem Sound.of_apart {desk' : Desk} (h : desk.Sound before) (hapart : desk'.Apart before)
    (hsession : desk'.session = desk.session) (hline : desk'.line = desk.line)
    (hsame : ∀ group, OfLine group → desk.held before group = desk'.held before group)
    (hreturned : ∀ group ∈ desk'.returned,
      LineGroup desk.lines group ∨ JobGroup before.nextGroup desk'.host.nextGroup group) :
    desk'.Sound before where
  toApart := hapart
  keeps := by
    rw [hsession, hline]
    exact fun hnone => (h.keeps hnone).congr hsame
  serves := by
    rw [hsession, hline]
    exact fun question hquestion => (h.serves question hquestion).congr hsame
  returned := by
    have hlines : desk'.lines = desk.lines := by
      unfold lines
      rw [hsession, hline]
    rw [hlines]
    exact hreturned

/-! ### Each move -/

theorem Sound.submit (h : desk.Sound before) (line : String) : (desk.step (.submit line)).Sound before := by
  cases hline : desk.line with
  | some question =>
      rw [step_submit_of_some hline]
      exact h
  | none =>
      rw [step_submit hline]
      by_cases hcheck : Syntax.check line = .incomplete
      · have hwaits : desk.session.onLine line = .done (.needsAnotherLine, desk.session) := if_pos hcheck
        have hsame : desk.atLine (.done (.needsAnotherLine, desk.session)) = desk := by
          rw [atLine, ← hline]
        rw [hwaits, hsame]
        exact h
      · refine h.toApart.sound_atLine (Session.serves_onLine hcheck (h.keeps hline)) fun group hgroup => ?_
        refine (h.returned group hgroup).imp_left fun hgroup => ?_
        rw [lines_of_none hline] at hgroup
        exact hgroup.mono (Nat.le_succ _)

theorem Sound.serveLine (h : desk.Sound before) (down : List Outage) :
    (desk.step (.serveLine down)).Sound before := by
  cases hline : desk.line with
  | none =>
      rw [step_serveLine_of_none hline]
      exact h
  | some question =>
      obtain ⟨c, next⟩ := question
      have hserves := h.serves _ hline
      have hminds : c.Minds (LineGroup (desk.session.lines + 1)) (desk.held before) := hserves.orderly.2.1
      rw [step_serveLine hline]
      refine (h.toApart.answer hminds down).sound_atLine ?_ fun group hgroup => ?_
      · rw [h.held_answer]
        exact hserves.next _
      · rw [nextGroup_answer]
        obtain hold | hnew := List.mem_append.mp hgroup
        · exact lines_of_some hline ▸ h.returned group hold
        · exact .inl (hminds.returned group hnew)

theorem Sound.start (h : desk.Sound before) (job : Job) (ticks : Option Nat) :
    (desk.step (.start job ticks)).Sound before := by
  have hnumber : JobGroup before.nextGroup (desk.host.nextGroup + 1) (job.group desk.host.nextGroup) :=
    job.jobGroup h.numbers
  have hnew : job.group desk.host.nextGroup ∉ desk.errands.map (·.group) :=
    fun hmem => (h.groups _ hmem).ne_next job rfl
  -- The group is new, so nobody holds anything in it.
  have hnone : desk.held before (job.group desk.host.nextGroup) = [] := by
    by_contra hne
    rcases h.owned _ hne with hline | hjob
    · exact hnumber.not_ofLine hline
    · exact hnew hjob
  refine h.of_apart ?_ rfl rfl (fun _ _ => rfl) ?_
  · have hsince : Host.Since before desk.returned desk.host.takeGroup.2 :=
      ⟨⟨h.since.ordered.nodup, h.since.ordered.lt⟩, h.since.nextId_le, h.since.old, h.since.grouped⟩
    exact .of_remaining hsince (Nat.le_succ_of_le h.numbers) hnumber (job.keeps_request ticks _ hnone)
      (job.keeps_late _) (fun group hgroup => (h.groups group hgroup).mono (Nat.le_succ _))
      (List.nodup_cons.mpr ⟨hnew, h.nodup⟩) h.sound (fun group _ hgroup => h.owned group hgroup)
      List.perm_append_comm
  · exact fun group hgroup => (h.returned group hgroup).imp_right fun hgroup => hgroup.mono (Nat.le_succ _)

theorem Sound.serve (h : desk.Sound before) (n : Nat) (down : List Outage) :
    (desk.step (.serve n down)).Sound before := by
  cases hn : desk.errands[n]? with
  | none =>
      rw [step_serve_of_none hn]
      exact h
  | some errand =>
      obtain ⟨hlt, hget⟩ := List.getElem?_eq_some_iff.mp hn
      have hsplit : desk.errands.Perm (errand :: (desk.errands.take n ++ desk.errands.drop (n + 1))) := by
        conv_lhs => rw [← List.take_append_drop n desk.errands, ← List.getElem_cons_drop hlt, hget]
        exact List.perm_middle
      have hmem : errand ∈ desk.errands := List.mem_of_getElem? hn
      have hgroup := h.groups _ (List.mem_map_of_mem hmem)
      have hminds := (h.sound errand hmem).question.2.1
      rw [step_serve hn]
      refine h.of_apart (h.toApart.serve hsplit down ?_) rfl rfl ?_ ?_
      · rw [List.append_assoc]
        exact List.perm_append_comm_assoc _ _ _
      · intro group hline
        refine (h.held_answer_of_not_owned hminds down ?_).symm
        rintro rfl
        exact hgroup.not_ofLine hline
      · intro group hreturned
        have hnumber := nextGroup_answer desk down errand.question.call
        rcases List.mem_append.mp hreturned with hold | hnew
        · exact hnumber.symm ▸ h.returned group hold
        · rw [hminds.returned group hnew]
          exact .inr (hnumber.symm ▸ hgroup)

theorem Sound.expire (h : desk.Sound before) (n : Nat) : (desk.step (.expire n)).Sound before := by
  have hnames : (desk.errands.modify n Errand.expire).map (·.group) = desk.errands.map (·.group) := by
    apply List.ext_getElem (by simp)
    intro i hi hi'
    rw [List.getElem_map, List.getElem_map, List.getElem_modify]
    split
    · exact Errand.expire_group _
    · rfl
  have hsound : ∀ errand ∈ desk.errands.modify n Errand.expire, errand.Sound (desk.held before) := by
    intro errand herrand
    obtain ⟨i, hi, rfl⟩ := List.mem_iff_getElem.mp herrand
    rw [List.getElem_modify]
    split
    · exact (h.sound _ (List.getElem_mem _)).expire
    · exact h.sound _ (List.getElem_mem _)
  refine h.of_apart ⟨h.since, h.numbers, ?_, ?_, hsound, ?_⟩ rfl rfl (fun _ _ => rfl) h.returned
  · exact hnames.symm ▸ h.groups
  · exact hnames.symm ▸ h.nodup
  · exact hnames.symm ▸ h.owned

theorem Sound.step (h : desk.Sound before) (move : Move) : (desk.step move).Sound before := by
  cases move with
  | submit line => exact h.submit line
  | serveLine down => exact h.serveLine down
  | start job ticks => exact h.start job ticks
  | serve n down => exact h.serve n down
  | expire n => exact h.expire n

theorem Sound.run (h : desk.Sound before) (moves : List Move) : (desk.run moves).Sound before := by
  induction moves generalizing desk with
  | nil => exact h
  | cons move moves ih => exact ih (h.step move)

end

theorem sound_fresh {host : Host} (hhost : host.Ordered) (colors : Bool) : (fresh host colors).Sound host := by
  have hnone : ∀ group, host.holdings host.nextId group = [] := by
    intro group
    refine List.map_eq_nil_iff.mpr (List.filter_eq_nil_iff.mpr fun handle hhandle => ?_)
    have hlt := hhost.lt handle hhandle
    simp only [decide_eq_true_iff]
    omega
  refine ⟨⟨hhost.since, Nat.le_refl _, ?_, List.nodup_nil, ?_, ?_⟩, fun _ => ?_, ?_, ?_⟩
  · exact fun _ hgroup => absurd hgroup List.not_mem_nil
  · exact fun _ herrand => absurd herrand List.not_mem_nil
  · exact fun group hgroup => absurd (hnone group) hgroup
  · refine ⟨?_, fun kept hkept => absurd hkept (Option.not_mem_none kept), fun k hk => absurd (hnone _) hk⟩
    rintro kept (hkept | hkept) <;> exact absurd hkept (Option.not_mem_none kept)
  · exact fun question hquestion => absurd hquestion (Option.not_mem_none question)
  · exact fun _ hgroup => absurd hgroup List.not_mem_nil

/-! ### What follows -/

/-- The handles that were there before are as they were, less those in groups that were given back, and the others
are the last result and the last error. -/
structure Settled (before : Host) (desk : Desk) : Prop where
  handles : ∃ new : List Handle,
    desk.host.handles.Perm
      ((before.handles.filter fun handle => ∀ group ∈ desk.returned, handle.group ≠ some group) ++ new) ∧
    (new.map (·.id)).Perm ((desk.session.last.toList ++ desk.session.lastError.toList).map (·.id))
  returned : ∀ group ∈ desk.returned,
    LineGroup desk.session.lines group ∨ JobGroup before.nextGroup desk.host.nextGroup group

/-- What the session keeps stays so until the next line. -/
structure Stays (last lastError : Option Kept) (desk : Desk) : Prop where
  session : desk.session.last = last ∧ desk.session.lastError = lastError
  line : ∀ question ∈ desk.line, question.request.Ends fun out => out.2.last = last ∧ out.2.lastError = lastError

section

variable {before : Host} {desk : Desk} {last lastError : Option Kept}

theorem Sound.not_unknown (h : desk.Sound before) {c : Call} (hwaits : desk.Waits c) (down : List Outage) :
    ¬ c.Unknown (desk.host.answer down c).1 := by
  rcases hwaits with ⟨question, hline, rfl⟩ | ⟨errand, herrand, rfl⟩
  · exact Host.not_unknown_of_minds (h.serves question hline).orderly.2.1 down
  · exact Host.not_unknown_of_minds (h.sound errand herrand).question.2.1 down

theorem Sound.live (h : desk.Sound before) : Live desk.session.last desk.session.lastError (desk.held before) := by
  cases hline : desk.line with
  | none => exact (h.keeps hline).live
  | some question => exact (h.serves question hline).orderly.1

theorem Stays.atLine {x : Request (LineOutcome × Session)}
    (hsession : desk.session.last = last ∧ desk.session.lastError = lastError)
    (hx : x.Ends fun out => out.2.last = last ∧ out.2.lastError = lastError) :
    (desk.atLine x).Stays last lastError := by
  cases x with
  | done out => exact ⟨hx, nofun⟩
  | call c next =>
      refine ⟨hsession, ?_⟩
      rintro _ ⟨⟩
      exact hx

theorem Stays.step (h : desk.Stays last lastError) {move : Move} (hmove : ∀ line, move ≠ .submit line) :
    (desk.step move).Stays last lastError := by
  cases move with
  | submit line => exact absurd rfl (hmove line)
  | serveLine down =>
      cases hline : desk.line with
      | none =>
          rw [step_serveLine_of_none hline]
          exact h
      | some question =>
          obtain ⟨c, next⟩ := question
          rw [step_serveLine hline]
          exact .atLine h.session (h.line _ hline _)
  | start job ticks => exact ⟨h.session, h.line⟩
  | serve n down =>
      cases hn : desk.errands[n]? with
      | none =>
          rw [step_serve_of_none hn]
          exact h
      | some errand =>
          rw [step_serve hn]
          exact ⟨h.session, h.line⟩
  | expire n => exact ⟨h.session, h.line⟩

theorem Stays.run (h : desk.Stays last lastError) {moves : List Move} (hmoves : ∀ line, .submit line ∉ moves) :
    (desk.run moves).Stays last lastError := by
  induction moves generalizing desk with
  | nil => exact h
  | cons move moves ih =>
      refine ih (h.step fun line hmove => ?_) fun line hmem => hmoves line (List.mem_cons_of_mem _ hmem)
      exact hmoves line (hmove ▸ List.mem_cons_self)

/-- After an evaluation that failed. -/
theorem Sound.stays (h : desk.Sound before) {c : Call} {next : c.Reply → Request (LineOutcome × Session)}
    (hline : desk.line = some ⟨c, next⟩) {down : List Outage} (hfailed : c.Failed (desk.host.answer down c).1) :
    (desk.step (.serveLine down)).Stays desk.session.last desk.session.lastError := by
  rw [step_serveLine hline]
  exact .atLine ⟨rfl, rfl⟩ (((h.serves _ hline).heeds _).1 hfailed)

/-- A handle that has been taken since is kept when nobody is at work. -/
theorem Sound.mem_kept_iff (h : desk.Sound before) (hidle : desk.Idle) (id : Nat) :
    (∃ handle ∈ desk.host.handles, before.nextId ≤ handle.id ∧ handle.id = id) ↔
      ∃ kept, (kept ∈ desk.session.last ∨ kept ∈ desk.session.lastError) ∧ kept.id = id := by
  have hkeeps := h.keeps hidle.1
  constructor
  · rintro ⟨handle, hhandle, hle, rfl⟩
    obtain ⟨group, hgroup⟩ := Option.ne_none_iff_exists'.mp (h.since.grouped handle hhandle hle)
    have hheld : handle.id ∈ desk.held before group := Host.mem_holdings.mpr ⟨handle, hhandle, hle, hgroup, rfl⟩
    rcases h.owned group (List.ne_nil_of_mem hheld) with ⟨k, rfl⟩ | hjob
    · obtain ⟨kept, hkept, heq⟩ := hkeeps.only k (List.ne_nil_of_mem hheld)
      rw [← heq, (hkeeps.own kept hkept).2, List.mem_singleton] at hheld
      exact ⟨kept, hkept, hheld.symm⟩
    · rw [hidle.2] at hjob
      nomatch hjob
  · rintro ⟨kept, hkept, rfl⟩
    obtain ⟨handle, hhandle, hle, _, heq⟩ := Host.mem_holdings.mp (hkeeps.live kept hkept)
    exact ⟨handle, hhandle, hle, heq⟩

theorem Sound.nodup_kept (h : desk.Sound before) (hidle : desk.Idle) :
    ((desk.session.last.toList ++ desk.session.lastError.toList).map (·.id)).Nodup := by
  have hkeeps := h.keeps hidle.1
  have hone : ∀ kept? : Option Kept, (kept?.toList.map (·.id)).Nodup := by
    intro kept?
    cases kept? with
    | none => exact List.nodup_nil
    | some kept => exact List.nodup_singleton _
  rw [List.map_append, List.nodup_append]
  refine ⟨hone _, hone _, ?_⟩
  intro id hid id' hid' heq
  obtain ⟨kept, hkept, rfl⟩ := List.mem_map.mp hid
  obtain ⟨kept', hkept', rfl⟩ := List.mem_map.mp hid'
  rw [Option.mem_toList] at hkept hkept'
  have hlive := hkeeps.live kept (.inl hkept)
  have hlive' := hkeeps.live kept' (.inr hkept')
  exact hkeeps.apart kept hkept kept' hkept' (h.since.ordered.group_eq hlive (heq ▸ hlive'))

theorem Sound.settled (h : desk.Sound before) (hidle : desk.Idle) : desk.Settled before := by
  refine ⟨⟨desk.host.handles.filter fun handle => !decide (handle.id < before.nextId), ?_, ?_⟩, ?_⟩
  · rw [← h.since.old]
    exact (List.filter_append_perm _ _).symm
  · refine (List.perm_ext_iff_of_nodup ?_ (h.nodup_kept hidle)).mpr fun id => ?_
    · exact h.since.ordered.nodup.sublist (List.filter_sublist.map _)
    · have hiff := h.mem_kept_iff hidle id
      simpa [and_assoc, or_and_right, exists_or] using hiff
  · exact lines_of_none hidle.1 ▸ h.returned

end

/-! ### Empty lines and completions -/

/-- There is nothing to look up for an empty source. -/
theorem start_empty (desk : Desk) :
    desk.step (.start (.complete 0 .partly "") none) =
      { desk with
        host := desk.host.takeGroup.2
        errands := desk.errands ++ [⟨.completion desk.host.nextGroup, ⟨.release (.completion desk.host.nextGroup),
          fun _ => return .completed 0 .partly none⟩, none⟩] } := by
  unfold step Job.request Assist.complete Assist.completeSource
  dsimp only
  rw [Syntax.lex_empty]
  rfl

/-- Two ways for an empty line to end: it cannot be evaluated, or it can be, though not inspected. -/
theorem exists_submit_empty {desk : Desk} (h : desk.line = none) :
    ∃ next : Except CallError Outcome → Request (LineOutcome × Session), desk.step (.submit "") =
        { desk with line := some ⟨.evaluate "" { group := some (.line (desk.session.lines + 1)) }, next⟩ } ∧
      (∃ text, next (.error Outage.evaluate.error) = .call (.release (.line (desk.session.lines + 1))) fun _ =>
        .done (.output text, { desk.session with lines := desk.session.lines + 1 })) ∧
      ∀ v : Remote, ∃ inspected,
        next (.ok (.value v)) = .call (.inspect v.id { colors := desk.session.colors }) inspected ∧
        (desk.session.last = none → inspected (.error Outage.inspect.error) = .call (.bind "_" v.id) fun _ =>
          .done (.output v.description, { desk.session with
            lines := desk.session.lines + 1
            last := some ⟨v.id, .line (desk.session.lines + 1)⟩ })) := by
  have hcheck : Syntax.check "" ≠ .incomplete := by
    rw [Syntax.check, Syntax.parseProgram_empty]
    nofun
  rw [step_submit h, Session.onLine, if_neg hcheck]
  obtain ⟨host, ⟨colors, lines, last, lastError⟩, line, errands, returned⟩ := desk
  refine ⟨_, rfl, ⟨_, rfl⟩, fun v => ⟨_, rfl, ?_⟩⟩
  rintro ⟨⟩
  rfl

theorem step_serveLine_empty {desk : Desk} {group : Group}
    {next : Except CallError Outcome → Request (LineOutcome × Session)}
    (h : desk.line = some ⟨.evaluate "" { group := some group }, next⟩) :
    desk.step (.serveLine []) = { desk with
      host := (desk.host.register .undefined (some group)).2
      returned := desk.returned ++ [] }.atLine
        (next (.ok (.value (desk.host.register .undefined (some group)).1))) := by
  have heval : desk.host.answer [] (.evaluate "" { group := some group }) =
      (.ok (.value (desk.host.register .undefined (some group)).1),
        (desk.host.register .undefined (some group)).2) := Assist.evaluate_empty desk.host (some group)
  rw [step_serveLine h, answer, heval]
  rfl

/-- A line that is evaluated, though neither inspected nor bound, with a completion in between. -/
def lineAndCompletion : List Move :=
  [.submit "", .serveLine [], .start (.complete 0 .partly "") none, .serveLine [.inspect], .serve 0 [],
    .serveLine [.bind]]

theorem run_lineAndCompletion :
    (fresh (Host.fresh 1) true).run lineAndCompletion =
      { host := ((Host.fresh 1).register .undefined (some (.line 1))).2.takeGroup.2.release (.completion 0)
        session := { lines := 1, last := some ⟨1, .line 1⟩ }
        returned := [.completion 0] } := by
  have hfree : (fresh (Host.fresh 1) true).line = none := rfl
  obtain ⟨next, hsubmit, -, hvalue⟩ := exists_submit_empty hfree
  obtain ⟨inspected, hinspect, hbind⟩ := hvalue ((Host.fresh 1).register .undefined (some (.line 1))).1
  have hevaluated : ((fresh (Host.fresh 1) true).step (.submit "")).step (.serveLine []) =
      { host := ((Host.fresh 1).register .undefined (some (.line 1))).2
        session := {}
        line := some ⟨.inspect 1 { colors := true }, inspected⟩ } := by
    rw [hsubmit]
    refine (step_serveLine_empty rfl).trans ?_
    change atLine _ (next (.ok (.value ((Host.fresh 1).register .undefined (some (.line 1))).1))) = _
    rw [hinspect]
    rfl
  have hinspected : ∀ desk : Desk, desk.line = some ⟨.inspect 1 { colors := true }, inspected⟩ →
      desk.step (.serveLine [.inspect]) =
        ({ desk with returned := desk.returned ++ [] } : Desk).atLine (inspected (.error Outage.inspect.error)) := by
    intro desk hline
    rw [step_serveLine hline]
    rfl
  dsimp only [lineAndCompletion, run, List.foldl]
  rw [hevaluated, start_empty, hinspected _ rfl, hbind rfl]
  rfl

/-- A line that cannot be evaluated gives its group back. -/
theorem exists_unevaluated {desk : Desk} (h : desk.line = none) :
    ∃ next : Except CallError Outcome → Request (LineOutcome × Session), desk.step (.submit "") =
        { desk with line := some ⟨.evaluate "" { group := some (.line (desk.session.lines + 1)) }, next⟩ } ∧
      ((desk.step (.submit "")).step (.serveLine [.evaluate])).step (.serveLine []) =
        { desk with
          host := desk.host.release (.line (desk.session.lines + 1))
          session := { desk.session with lines := desk.session.lines + 1 }
          returned := desk.returned ++ [] ++ [.line (desk.session.lines + 1)] } := by
  obtain ⟨next, hsubmit, ⟨text, herror⟩, -⟩ := exists_submit_empty h
  refine ⟨next, hsubmit, ?_⟩
  have hserve : (desk.step (.submit "")).step (.serveLine [.evaluate]) =
      ({ desk with
        line := some ⟨.evaluate "" { group := some (.line (desk.session.lines + 1)) }, next⟩
        returned := desk.returned ++ [] } : Desk).atLine (next (.error Outage.evaluate.error)) := by
    rw [hsubmit]
    have hline : ({ desk with
        line := some ⟨.evaluate "" { group := some (.line (desk.session.lines + 1)) }, next⟩ } : Desk).line =
          some ⟨.evaluate "" { group := some (.line (desk.session.lines + 1)) }, next⟩ := rfl
    exact step_serveLine hline [.evaluate]
  rw [hserve, herror]
  cases desk
  cases h
  rfl

/-! ### The handles of all of them -/

/-- A session, completions and previews share a host. Whoever is answered next and whichever calls fail, nobody is told
that a handle does not exist, what the session keeps is live and outlives a line that is not evaluated, and in the end
the only new handles are those that the session keeps. -/
theorem handles_have_owners {host : Host} (hhost : host.Ordered) (colors : Bool) (moves : List Move) :
    let desk := (fresh host colors).run moves
    (∀ c, desk.Waits c → ∀ down, ¬ c.Unknown (desk.host.answer down c).1) ∧
    (∀ kept, kept ∈ desk.session.last ∨ kept ∈ desk.session.lastError → (desk.host.value? kept.id).isSome = true) ∧
    (∀ c next down more, desk.line = some ⟨c, next⟩ → c.Failed (desk.host.answer down c).1 →
      (∀ line, .submit line ∉ more) →
      let after := (desk.step (.serveLine down)).run more
      after.session.last = desk.session.last ∧ after.session.lastError = desk.session.lastError) ∧
    (desk.Idle → desk.Settled host) := by
  have h := (sound_fresh hhost colors).run moves
  refine ⟨fun c hwaits down => h.not_unknown hwaits down, ?_, ?_, h.settled⟩
  · intro kept hkept
    exact Host.value?_of_held (h.live kept hkept)
  · intro c next down more hline hfailed hmore
    exact ((h.stays hline hfailed).run hmore).session

/-- After the first line and the completion comes a line that cannot be evaluated. -/
theorem handles_have_owners_interleaved :
    (Host.fresh 1).Ordered ∧
    let desk := (fresh (Host.fresh 1) true).run (lineAndCompletion ++ [.submit ""])
    ∃ c next, desk.line = some ⟨c, next⟩ ∧ c.Failed (desk.host.answer [.evaluate] c).1 ∧
      let after := (desk.step (.serveLine [.evaluate])).run [.serveLine []]
      after.session.last = desk.session.last ∧ after.session.last = some ⟨1, .line 1⟩ ∧
        (after.host.value? 1).isSome = true ∧ after.Idle ∧ after.Settled (Host.fresh 1) := by
  have hordered : (Host.fresh 1).Ordered := ⟨List.nodup_nil, nofun⟩
  obtain ⟨next, hsubmit, hend⟩ := exists_unevaluated (congrArg Desk.line run_lineAndCompletion)
  rw [run_lineAndCompletion] at hsubmit hend
  have hline : ((fresh (Host.fresh 1) true).run (lineAndCompletion ++ [.submit ""])).line =
      some ⟨.evaluate "" { group := some (.line 2) }, next⟩ := by
    rw [run_append, run_lineAndCompletion]
    exact congrArg Desk.line hsubmit
  have hafter : (fresh (Host.fresh 1) true).run
      (lineAndCompletion ++ [.submit "", .serveLine [.evaluate], .serveLine []]) =
        { host := (((Host.fresh 1).register .undefined (some (.line 1))).2.takeGroup.2.release
            (.completion 0)).release (.line 2)
          session := { lines := 2, last := some ⟨1, .line 1⟩ }
          returned := [.completion 0, .line 2] } := by
    rw [run_append, run_lineAndCompletion]
    exact hend
  have hlast := (handles_have_owners hordered true _).2.2.1 (.evaluate "" { group := some (.line 2) }) next [.evaluate]
    [.serveLine []] hline trivial (by simp)
  have hkept := congrArg (fun desk => desk.session.last) hafter
  have hidle : Desk.Idle _ := ⟨congrArg Desk.line hafter, congrArg Desk.errands hafter⟩
  obtain ⟨_, hlive, _, hsettled⟩ := handles_have_owners hordered true
    (lineAndCompletion ++ [.submit "", .serveLine [.evaluate], .serveLine []])
  exact ⟨hordered, .evaluate "" { group := some (.line 2) }, next, hline, trivial, hlast.1, hkept,
    hlive _ (.inl hkept), hidle, hsettled hidle⟩

/-- A completion gives back the handle of someone whose group bears its name. -/
theorem initial_handle_given_back :
    let desk := (fresh Assist.namesake true).run [.start (.complete 0 .partly "") none, .serve 0 []]
    desk.Idle ∧ desk.session.last = none ∧ desk.session.lastError = none ∧
      Assist.namesake.liveHandles = 1 ∧ desk.host.liveHandles = 0 := by
  have hnumber : Assist.namesake.nextGroup = 0 :=
    (Host.perform_cases (Host.fresh 1) none (some (.named "completion-0")) _).1
  dsimp only [run, List.foldl]
  rw [start_empty, fresh, hnumber]
  refine ⟨⟨rfl, rfl⟩, rfl, rfl, ?_, ?_⟩
  · rw [Host.liveHandles, Assist.namesake_handles]
    rfl
  · change (Assist.namesake.handles.filter _).length = 0
    rw [Assist.namesake_handles]
    rfl

end Desk

end ScriptRepl.Console
