import Tio.Job.Once

namespace Tio.Job

open Tio.Core TaskQueue

/-- The closure brings an item of the job to the schedule loop. -/
def Closure.brings (jobId : String) : Closure → Bool
  | .readTasks context _ | .addPendingJob ⟨context, _, _⟩ => context.jobId = jobId
  | _ => false

/-- The jobs that the loop of the checks still has to do with. -/
def WatchPc.names : WatchPc → List String
  | .select => []
  | .count todo => todo
  | .getJob jobId todo | .finish jobId _ todo | .forget jobId todo | .sendRemove jobId todo =>
    jobId :: todo

def WorkerPc.finishes : WorkerPc → Bool
  | .finished => true
  | _ => false

namespace Memory

/-- The tasks that wait in the runner for their submission. -/
def waiting (m : Memory) : List Task := getTasks m.curQ ++ m.parked ++ m.hand

/-- The tasks whose change is still to be reported. -/
def reported (m : Memory) : List Task :=
  (match m.sysOp with
    | .sendSent _ t => [t]
    | _ => []) ++
  (match m.change with
    | .update msg | .send msg => [msg.task]
    | .select => []) ++
  (m.workers.filter fun w => !w.pc.finishes).map Worker.task

end Memory

/-- Nothing of the job is anywhere, besides what will create it. -/
structure Quiet (jobId : String) (m : Memory) : Prop where
  started : m.rollout.started = true
  pending : ∀ v ∈ m.pendingJobs, v.context.jobId ≠ jobId
  closures : ∀ closure ∈ m.closures, closure.brings jobId = false
  runner : ∀ t ∈ m.waiting, t.jobId ≠ jobId
  reports : ∀ t ∈ m.reported, t.jobId ≠ jobId
  checks : jobId ∉ m.pendingCheckJobs
  watch : jobId ∉ m.watch.names

instance (jobId : String) (m : Memory) : Decidable (Quiet jobId m) :=
  decidable_of_iff (m.rollout.started = true ∧ (∀ v ∈ m.pendingJobs, v.context.jobId ≠ jobId) ∧
    (∀ closure ∈ m.closures, closure.brings jobId = false) ∧ (∀ t ∈ m.waiting, t.jobId ≠ jobId) ∧
    (∀ t ∈ m.reported, t.jobId ≠ jobId) ∧ jobId ∉ m.pendingCheckJobs ∧ jobId ∉ m.watch.names)
    ⟨fun h => ⟨h.1, h.2.1, h.2.2.1, h.2.2.2.1, h.2.2.2.2.1, h.2.2.2.2.2.1, h.2.2.2.2.2.2⟩, fun quiet =>
      ⟨quiet.started, quiet.pending, quiet.closures, quiet.runner, quiet.reports, quiet.checks, quiet.watch⟩⟩

/-- The tasks of the job are stored at this step. -/
def Stores (jobId : String) (m : Memory) (reply : Reply) (a : Action) : Prop :=
  ∃ (k : Nat) (ok : Bool) (context : JobContext) (things : List String) (ids : List Int),
    a = .run k ok ∧ m.closures[k]? = some (.submitted (.createJob context things)) ∧
    context.jobId = jobId ∧ reply = .taskIds ids

section

variable {now : Int} {m m' : Memory} {reply : Reply} {a : Action} {jobId : String}

theorem inRunner_iff {good : Task → Prop} : InRunner good m ↔ ∀ t ∈ m.waiting, good t := by
  constructor
  · intro held t member
    rcases List.mem_append.mp member with earlier | inHand
    · rcases List.mem_append.mp earlier with queued | parked
      · exact held.queue t queued
      · obtain ⟨entry, present, within⟩ := mem_parked_iff.mp parked
        exact held.offline entry present t within
    · rw [Memory.hand] at inHand
      split at inHand
      · rename_i c u here
        cases List.mem_singleton.mp inHand
        exact held.hand c t here
      · cases inHand
  · intro every
    refine ⟨fun t queued => every t ?_, fun entry present t within => every t ?_, fun c t here => every t ?_⟩
    · exact List.mem_append_left _ (List.mem_append_left _ queued)
    · exact List.mem_append_left _ (List.mem_append_right _ (mem_parked_iff.mpr ⟨entry, present, within⟩))
    · exact List.mem_append_right _ (by rw [Memory.hand, here]; exact List.mem_singleton_self t)

/-- A step leaves the pool as it is, or adds the task that the loop has in its hand. -/
theorem pool_step (taken : resume now m reply a = some m') :
    m'.submitted = m.submitted ∨ ∃ t ∈ m.hand, m'.submitted = m.submitted ++ [t] := by
  have frame := resume_frame taken
  cases a with
  | sysOp online accepted =>
    simp only [resume, Memory.sysOpNext] at taken
    rw [Memory.submitted, Memory.submitted, Memory.hand]
    split at taken <;> grind
  | recvResult i | work i _ =>
    left
    simp only [resume] at taken
    split at taken <;> cases taken
    rename_i found
    exact submitted_set found rfl
  | _ => exact .inl (by rw [Memory.submitted, Memory.submitted, frame.workers rfl])

theorem mem_reported_iff {t : Task} : t ∈ m.reported ↔ (∃ c, m.sysOp = .sendSent c t) ∨
    (∃ msg, (m.change = .update msg ∨ m.change = .send msg) ∧ msg.task = t) ∨
      ∃ w ∈ m.workers, w.pc.finishes = false ∧ w.task = t := by
  simp only [Memory.reported, List.mem_append, List.mem_map, List.mem_filter, Bool.not_eq_true', or_assoc]
  refine or_congr ?_ (or_congr ?_ (by simp [and_assoc]))
  · cases m.sysOp <;> simp [eq_comm]
  · cases m.change <;> simp [eq_comm]

/-- What is to be reported was to be reported, or the loop had it in its hand. -/
theorem reported_step (taken : resume now m reply a = some m') {t : Task} (member : t ∈ m'.reported) :
    t ∈ m.reported ∨ ∃ c, m.sysOp = .submit c t := by
  have frame := resume_frame taken
  rw [mem_reported_iff] at member ⊢
  cases a with
  | sysOp online accepted =>
    have change := frame.change rfl
    simp only [resume, Memory.sysOpNext] at taken
    split at taken <;> grind
  | sysOpTick | connect _ _ =>
    rw [frame.change rfl, frame.workers rfl] at member
    simp only [resume] at taken
    grind
  | recvSent | recvChange =>
    simp only [resume] at taken
    grind
  | recvResult i | work i _ =>
    simp only [resume] at taken
    split at taken
    · rename_i found
      have worker := List.mem_of_getElem? found
      cases taken
      simp only at member
      grind [List.mem_or_eq_of_mem_set, WorkerPc.finishes]
    · cases taken
  | change ok =>
    simp only [resume, Memory.changeNext] at taken
    grind
  | _ => exact .inl (by rwa [frame.sysOp rfl, frame.change rfl, frame.workers rfl] at member)

theorem brings_closureNext {closure next : Closure} (continues : Memory.closureNext reply closure = some next)
    (brings : next.brings jobId = true) : closure.brings jobId = true ∨
      ∃ context things ids, closure = .submitted (.createJob context things) ∧ context.jobId = jobId ∧
        reply = .taskIds ids := by
  cases Memory.runs_of_closureNext continues with
  | created context things ids replied => exact .inr ⟨context, things, ids, rfl, of_decide_eq_true brings, replied⟩
  | loaded context taskIds rows replied => exact .inl brings
  | _ => cases brings

/-- No closure brings the job that did not, unless its tasks are stored. -/
theorem brings_step (taken : resume now m reply a = some m') (other : ¬Stores jobId m reply a)
    (closures : ∀ closure ∈ m.closures, closure.brings jobId = false) :
    ∀ closure ∈ m'.closures, closure.brings jobId = false := by
  intro closure member
  cases resume_closures taken member with
  | before _ _ old => exact closures closure old
  | sent | deleted | submitted => rfl
  | next i ok old _ here continues =>
    refine eq_false_of_ne_true fun brings => ?_
    rcases brings_closureNext continues brings with before | ⟨context, things, ids, rfl, named, replied⟩
    · rw [closures old (List.mem_of_getElem? here)] at before
      cases before
    · exact other ⟨i, ok, context, things, ids, rfl, here, named, replied⟩

/-- The items of the job were its items, or they are brought. -/
theorem items_step (started : m.rollout.started = true) (taken : resume now m reply a = some m')
    (closures : ∀ closure ∈ m.closures, closure.brings jobId = false) {u : PendingJobItem}
    (member : u ∈ m'.pendingJobs) (here : u.context.jobId = jobId) :
    ∃ v ∈ m.pendingJobs, v.context.jobId = jobId := by
  cases resume_items taken member with
  | kept _ v _ present same => exact ⟨v, present, by rw [← same, here]⟩
  | checked _ _ _ _ v _ found | starts _ _ _ v _ found | ended _ _ _ v _ _ found
  | reloaded _ _ _ v _ _ found => exact ⟨v, List.mem_of_getElem? found, here⟩
  | updated _ v _ present => exact ⟨v, present, here⟩
  | received i item sender =>
    have brought := closures _ (List.mem_of_getElem? sender)
    simp [Closure.brings, here] at brought
  | preloaded _ _ _ _ _ stop =>
    rw [stop] at started
    cases started

/-- The jobs to check change with the reports and with a check that is over. -/
theorem checks_frame (taken : resume now m reply a = some m') :
    m'.pendingCheckJobs = m.pendingCheckJobs ∨ a = .recvChange ∨ a = .recvFinished := by
  cases a with
  | recvChange => exact .inr (.inl rfl)
  | recvFinished => exact .inr (.inr rfl)
  | rollout ok => exact .inl (Memory.rolloutNext_frame taken).2.1.pendingCheckJobs
  | watch ok => exact .inl (by cases Memory.watches_of_watchNext taken <;> rfl)
  | change ok => exact .inl (Memory.changeNext_frame taken).2.1.pendingCheckJobs
  | sysOp online accepted => exact .inl (Memory.sysOpNext_frame taken).2.1.pendingCheckJobs
  | serve i ok => exact .inl (Memory.serve_frame taken).2.2.pendingCheckJobs
  | recvPending i =>
    obtain ⟨item, idle, sender, rfl⟩ := resume_recvPending taken
    exact .inl rfl
  | recvUpdate i =>
    obtain ⟨other, timeout, idle, sender, rfl⟩ := resume_recvUpdate taken
    exact .inl (Memory.updateContext_frame other timeout m).2.1.pendingCheckJobs
  | recvRemove i =>
    obtain ⟨r, operation, other, force, received, idle, sender, removal, removed, rfl⟩ :=
      resume_recvRemove taken
    exact .inl (Memory.receiveRemove_frame removed).2.1.pendingCheckJobs
  | recvEndDelete =>
    obtain ⟨i, l, v, idle, sender, found, rfl⟩ := resume_recvEndDelete taken
    exact .inl (Memory.deleteTask_frame _ m).2.1.pendingCheckJobs
  | recvDelete i =>
    obtain ⟨operation, msg, idle, sender, system, rfl⟩ := resume_recvDelete taken
    exact .inl (Memory.deleteTask_frame msg m).2.1.pendingCheckJobs
  | run i ok =>
    obtain ⟨closure, next, found, continues, rfl⟩ := resume_run taken
    exact .inl rfl
  | connect thingId up =>
    have same := (Memory.connected_frame thingId m).2.1.pendingCheckJobs
    simp only [resume] at taken
    grind
  | _ =>
    simp only [resume] at taken
    grind

/-- The check of a job goes back to the report of one of its tasks. -/
theorem watched_step (taken : resume now m reply a = some m')
    (watched : jobId ∈ m'.pendingCheckJobs ∨ jobId ∈ m'.watch.names) :
    (jobId ∈ m.pendingCheckJobs ∨ jobId ∈ m.watch.names) ∨ ∃ t ∈ m.reported, t.jobId = jobId := by
  have frame := resume_frame taken
  cases a with
  | watch ok =>
    cases Memory.watches_of_watchNext taken <;> simp_all [WatchPc.names]
    all_goals tauto
  | watchTick order =>
    simp only [resume] at taken
    split at taken
    · split at taken
      · rename_i perm
        cases taken
        simp only [WatchPc.names, (List.isPerm_iff.mp perm).mem_iff, or_self] at watched
        exact .inl (.inl watched)
      · cases taken
    · cases taken
  | recvChange =>
    simp only [resume] at taken
    split at taken
    · rename_i msg idle sender
      cases taken
      simp only at watched
      split at watched
      · rw [List.mem_insert_iff] at watched
        rcases watched with (rfl | old) | old
        · exact .inr ⟨msg.task, mem_reported_iff.mpr (.inr (.inl ⟨msg, .inr sender, rfl⟩)), rfl⟩
        · exact .inl (.inl old)
        · exact .inl (.inr old)
      · exact .inl watched
    · cases taken
  | recvFinished =>
    obtain ⟨other, todo, received, idle, sender, removed, rfl⟩ := resume_recvFinished taken
    have same := (Memory.receiveRemove_frame removed).2.1.pendingCheckJobs
    rcases watched with checks | names
    · exact .inl (.inl (same ▸ List.mem_of_mem_erase checks))
    · exact .inl (.inr (by rw [sender]; exact List.mem_cons_of_mem _ names))
  | _ =>
    have checks := (checks_frame taken).resolve_right (by simp)
    rw [checks, frame.watch rfl] at watched
    exact .inl watched

/-- Nothing of the job is in the runner, or underway, or to be checked. -/
structure Silent (jobId : String) (m : Memory) : Prop where
  runner : ∀ t ∈ m.waiting, t.jobId ≠ jobId
  reports : ∀ t ∈ m.reported, t.jobId ≠ jobId
  checks : jobId ∉ m.pendingCheckJobs
  watch : jobId ∉ m.watch.names

/-- The runner gets to know of a job with its tasks. -/
theorem silent_step (indexed : Indexed m.curQ) (silent : Silent jobId m)
    (put : ∀ i l rolloutTasks, m.rollout = .put i l rolloutTasks → ∀ t ∈ rolloutTasks, t.jobId ≠ jobId)
    (taken : resume now m reply a = some m') : Silent jobId m' := by
  have runner := inRunner_iff.mpr silent.runner
  have watched : ¬(jobId ∈ m'.pendingCheckJobs ∨ jobId ∈ m'.watch.names) := by
    intro watched
    rcases watched_step taken watched with (checks | names) | ⟨t, member, named⟩
    · exact silent.checks checks
    · exact silent.watch names
    · exact silent.reports t member named
  refine ⟨inRunner_iff.mp (inRunner_step indexed runner put taken), fun t member => ?_,
    fun checks => watched (.inl checks), fun names => watched (.inr names)⟩
  rcases reported_step taken member with before | ⟨c, hand⟩
  · exact silent.reports t before
  · exact runner.hand c t hand

theorem Quiet.silent (quiet : Quiet jobId m) : Silent jobId m :=
  ⟨quiet.runner, quiet.reports, quiet.checks, quiet.watch⟩

/-- The job stays away until its tasks are stored. -/
theorem quiet_step (indexed : Indexed m.curQ) (home : Held (fun jobId t => t.jobId = jobId) m)
    (quiet : Quiet jobId m) (taken : resume now m reply a = some m') (other : ¬Stores jobId m reply a) :
    Quiet jobId m' := by
  have put : ∀ i l rolloutTasks, m.rollout = .put i l rolloutTasks → ∀ t ∈ rolloutTasks, t.jobId ≠ jobId := by
    intro i l rolloutTasks sender t member
    obtain ⟨v, found, named⟩ := home.put i l rolloutTasks sender
    rw [named t member]
    exact quiet.pending v (List.mem_of_getElem? found)
  have silent := silent_step indexed quiet.silent put taken
  refine ⟨started_of_step quiet.started taken, fun u member here => ?_,
    brings_step taken other quiet.closures, silent.runner, silent.reports, silent.checks, silent.watch⟩
  obtain ⟨v, present, named⟩ := items_step quiet.started taken quiet.closures member here
  exact quiet.pending v present named

end

end Tio.Job
