import Tio.Job.Finish

namespace Tio.Job

open Tio.Core TaskQueue

/-- The context that the call will create tasks for. -/
def Call.context : Call → Option JobContext
  | ⟨_, .submit (.createJob context _)⟩ => some context
  | _ => none

/-- The context that the closure works for. -/
def Closure.context : Closure → Option JobContext
  | .submitted (.createJob context _) | .readTasks context _ => some context
  | .addPendingJob item => some item.context
  | _ => none

/-- Every context with which an item of the job is made fits. -/
structure Making (fits : JobContext → Prop) (jobId : String) (m : Memory) : Prop where
  loading : ∀ jobs, m.rollout = .loadTasks jobs → ∀ j, (jobId, j) ∈ jobs → fits (toContext jobId j)
  preload : ∀ jobs, m.rollout = .preload jobs → ∀ j tasks, (jobId, j, tasks) ∈ jobs → fits (toContext jobId j)
  calls : ∀ call ∈ m.calls, ∀ context ∈ call.context, context.jobId = jobId → fits context
  closures : ∀ closure ∈ m.closures, ∀ context ∈ closure.context, context.jobId = jobId → fits context

/-- Every context that the center works with for the job fits. -/
structure Works (fits : JobContext → Prop) (jobId : String) (m : Memory) : Prop extends Making fits jobId m where
  pending : ∀ v ∈ m.pendingJobs, v.context.jobId = jobId → fits v.context

/-- The runner has a task of the job, or gets one. -/
def Carries (jobId : String) (m : Memory) : Prop :=
  (∃ t ∈ m.waiting, t.jobId = jobId) ∨
    ∃ i l rolloutTasks v, m.rollout = .put i l rolloutTasks ∧ m.pendingJobs[i]? = some v ∧
      v.context.jobId = jobId ∧ rolloutTasks ≠ []

/-- The context of the job is published, and a batch of its tasks goes to the runner. -/
def Publishes (jobId : String) (m m' : Memory) : Prop :=
  ∃ i l v, m.rollout = .publish i l ∧ m.pendingJobs[i]? = some v ∧ v.context.jobId = jobId ∧
    isSysOp v.context.operation = true ∧ Assoc.get jobId m'.contexts = some v.context

section

variable {s s' : State} {a : Action} {jobId : String}

/-- The preload reads the row of the job once. -/
theorem listed_step {listed : JobEntity → Prop} (grounded : Grounded s)
    (loading : ∀ jobs, s.memory.rollout = .loadTasks jobs → ∀ j, (jobId, j) ∈ jobs → listed j)
    (preload : ∀ jobs, s.memory.rollout = .preload jobs → ∀ j tasks, (jobId, j, tasks) ∈ jobs → listed j)
    (row : ∀ j, Assoc.get jobId s.db.jobs = some j → isPending j.status = true → listed j)
    (taken : step s a = some s') :
    (∀ jobs, s'.memory.rollout = .loadTasks jobs → ∀ j, (jobId, j) ∈ jobs → listed j) ∧
    ∀ jobs, s'.memory.rollout = .preload jobs → ∀ j tasks, (jobId, j, tasks) ∈ jobs → listed j := by
  have resumed := step_resume taken
  by_cases started : s.memory.rollout.started = true
  · have after := started_of_step started resumed
    refine ⟨fun jobs here => ?_, fun jobs here => ?_⟩ <;> rw [here] at after <;> cases after
  · rcases still_unstarted (by simpa using started) resumed with ⟨ok, rfl⟩ | ⟨still, -⟩
    · generalize s'.memory = m' at resumed
      cases Memory.rolls_of_rolloutNext resumed with
      | jobsLoaded rows here replied =>
        obtain ⟨op, -, -, exec⟩ := replied_of_ne_failed (s := s) (a := .rollout ok) (by simp [replied])
        rw [replied] at exec
        refine ⟨fun jobs same j present => ?_, fun jobs same => nomatch same⟩
        cases same
        rw [exec_jobs_reply exec] at present
        obtain ⟨member, pending⟩ := List.mem_filter.mp present
        exact row j (Assoc.get_of_mem grounded.jobs member) pending
      | tasksLoaded jobs rows here replied =>
        refine ⟨fun jobs same => (nomatch same), fun jobs' same j tasks present => ?_⟩
        cases same
        obtain ⟨⟨id, first⟩, member, alike⟩ := List.mem_map.mp present
        simp only [Prod.mk.injEq] at alike
        obtain ⟨rfl, rfl, -⟩ := alike
        exact loading jobs here first member
      | terminated other _ rest here | preloaded other _ tasks rest here =>
        refine ⟨fun jobs same => (nomatch same), fun jobs' same j tasks present => ?_⟩
        cases same
        exact preload _ here j tasks (List.mem_cons_of_mem _ present)
      | started here => exact ⟨fun jobs same => (nomatch same), fun jobs same => (nomatch same)⟩
      | _ => simp_all [RolloutPc.started]
    · rw [still]
      exact ⟨loading, preload⟩

/-- The check reads the row of the job before it finishes it. -/
theorem read_step {read : Status → Prop}
    (watch : ∀ told todo, s.memory.watch = .finish jobId told todo → read told)
    (row : ∀ j, Assoc.get jobId s.db.jobs = some j → read j.status) (taken : step s a = some s') :
    ∀ told todo, s'.memory.watch = .finish jobId told todo → read told := by
  intro told todo here
  have frame := step_frame taken
  have resumed := step_resume taken
  cases a with
  | watch ok =>
    generalize s'.memory = m' at resumed here
    cases Memory.watches_of_watchNext resumed with
    | told other rest j stop replied =>
      cases here
      exact row j (stored_of_reply (.getJob ok jobId todo stop) replied)
    | _ => cases here
  | watchTick order =>
    generalize s'.memory = m' at resumed here
    simp only [resume] at resumed
    split at resumed
    · split at resumed <;> cases resumed
      cases here
    · cases resumed
  | recvFinished =>
    obtain ⟨other, rest, received, idle, sender, removed, same⟩ := resume_recvFinished resumed
    rw [same] at here
    cases here
  | _ => exact watch told todo (frame.watch rfl ▸ here)

theorem context_closureNext {reply : Reply} {closure next : Closure}
    (continues : Memory.closureNext reply closure = some next) {context : JobContext}
    (works : context ∈ next.context) : context ∈ closure.context := by
  cases Memory.runs_of_closureNext continues with
  | created | loaded => exact works
  | _ => cases works

section

variable {fits : JobContext → Prop}

theorem Making.mono {weak : JobContext → Prop} {m : Memory} (making : Making fits jobId m)
    (weaker : ∀ context, fits context → weak context) : Making weak jobId m :=
  ⟨fun jobs here j listed => weaker _ (making.loading jobs here j listed),
    fun jobs here j tasks listed => weaker _ (making.preload jobs here j tasks listed),
    fun call member context begins named => weaker context (making.calls call member context begins named),
    fun closure member context begins named => weaker context (making.closures closure member context begins named)⟩

/-- A creation works with the row that it reads back. -/
theorem making_calls (grounded : Grounded s) (making : Making fits jobId s.memory)
    (read : ∀ j, Assoc.get jobId s.db.jobs = some j → s.memory.rollout.started = true →
      s.memory.makers jobId ≠ 0 → fits (toContext jobId j)) (taken : step s a = some s') :
    ∀ call ∈ s'.memory.calls, ∀ context ∈ call.context, context.jobId = jobId → fits context := by
  intro call member context begins named
  obtain ⟨k, here⟩ := List.getElem?_of_mem member
  cases resume_calls (step_resume taken) here with
  | before _ _ _ here => exact making.calls call (List.mem_of_getElem? here) context begins named
  | started r => cases begins
  | updated => cases begins
  | removed => cases begins
  | served _ ok old pc place continues =>
    cases serves_of_serveNext continues with
    | readBack id operation asked scheduling rollout timeout j replied =>
      cases begins
      have named : id = jobId := named
      subst named
      have stored := stored_of_reply (.readBack ok k id operation _ _ _ _ place) replied
      have started : s.memory.rollout.started = true := by
        by_contra waits
        have idle := (grounded.unstarted (by simpa using waits)).calls
        simp [idle] at place
      refine read j stored started fun none => ?_
      have counted := le_tally (Call.makes id) (List.mem_of_getElem? place)
      rw [Call.makes, if_pos rfl] at counted
      rw [Memory.makers] at none
      omega
    | _ => cases begins

theorem making_closures (making : Making fits jobId s.memory) (taken : step s a = some s') :
    ∀ closure ∈ s'.memory.closures, ∀ context ∈ closure.context, context.jobId = jobId → fits context := by
  intro closure member context begins named
  cases resume_closures (step_resume taken) member with
  | before _ _ old => exact making.closures closure old context begins named
  | sent | deleted => cases begins
  | submitted i ok r work here =>
    cases work with
    | createJob context' things =>
      cases begins
      exact making.calls _ (List.mem_of_getElem? here) _ rfl named
    | delete => cases begins
  | next i ok old _ here continues =>
    exact making.closures old (List.mem_of_getElem? here) context (context_closureNext continues begins) named

/-- What makes items of the job goes on to fit, when the rows that it reads do. -/
theorem making_step (grounded : Grounded s) (making : Making fits jobId s.memory)
    (listed : ∀ j, Assoc.get jobId s.db.jobs = some j → isPending j.status = true → fits (toContext jobId j))
    (read : ∀ j, Assoc.get jobId s.db.jobs = some j → s.memory.rollout.started = true →
      s.memory.makers jobId ≠ 0 → fits (toContext jobId j)) (taken : step s a = some s') :
    Making fits jobId s'.memory := by
  obtain ⟨loading, preload⟩ := listed_step grounded making.loading making.preload listed taken
  exact ⟨loading, preload, making_calls grounded making read taken, making_closures making taken⟩

/-- The end of the schedule of the job is handled as a cancellation. -/
structure Cancels (s : State) (a : Action) (v : PendingJobItem) : Prop where
  here : ∃ ok i l, a = .rollout ok ∧ s.memory.rollout = .outOfTime i l ∧ s.memory.pendingJobs[i]? = some v
  late : isJobScheduleBeforeStartTime s.clock v.context = false
  cancels : ∃ config, v.context.scheduling = some config ∧ config.endBehavior ≠ .stopRollout

theorem works_pending (works : Works fits jobId s.memory)
    (starts : ∀ context, fits context → context.status = .waiting → fits { context with status := .inProgress })
    (updated : ∀ context timeout, fits context → fits { context with timeout := timeout })
    (ended : ∀ v, Cancels s a v → v.context.jobId = jobId → fits v.context → fits (v.withStatus .canceled).context)
    (taken : step s a = some s') :
    ∀ v ∈ s'.memory.pendingJobs, v.context.jobId = jobId → fits v.context := by
  intro u member named
  cases resume_items (step_resume taken) member with
  | kept _ v _ present same => exact same ▸ works.pending v present (same ▸ named)
  | checked _ _ _ _ v _ found | reloaded _ _ _ v _ _ found =>
    exact works.pending v (List.mem_of_getElem? found) named
  | updated _ v timeout present => exact updated _ _ (works.pending v present named)
  | starts _ _ _ v _ found _ waits => exact starts _ (works.pending v (List.mem_of_getElem? found) named) waits
  | ended ok i l v config stop found late scheduled cancels =>
    exact ended v ⟨⟨ok, i, l, rfl, stop, found⟩, late, config, scheduled, cancels⟩ named
      (works.pending v (List.mem_of_getElem? found) named)
  | received i item sender => exact works.closures _ (List.mem_of_getElem? sender) _ rfl named
  | preloaded ok _ j tasks rest stop =>
    cases named
    exact works.preload _ stop j tasks List.mem_cons_self

/-- What the center works with for the job goes on to fit, when the rows that it reads
do and when the changes of an item keep it. -/
theorem works_step (grounded : Grounded s) (works : Works fits jobId s.memory)
    (listed : ∀ j, Assoc.get jobId s.db.jobs = some j → isPending j.status = true → fits (toContext jobId j))
    (read : ∀ j, Assoc.get jobId s.db.jobs = some j → s.memory.rollout.started = true →
      s.memory.makers jobId ≠ 0 → fits (toContext jobId j))
    (starts : ∀ context, fits context → context.status = .waiting → fits { context with status := .inProgress })
    (updated : ∀ context timeout, fits context → fits { context with timeout := timeout })
    (ended : ∀ v, Cancels s a v → v.context.jobId = jobId → fits v.context → fits (v.withStatus .canceled).context)
    (taken : step s a = some s') : Works fits jobId s'.memory :=
  ⟨making_step grounded works.toMaking listed read taken, works_pending works starts updated ended taken⟩

theorem works_boot (fits : JobContext → Prop) (jobId : String) (db : Db) (clock : Int) :
    Works fits jobId (boot db clock).memory := by
  refine ⟨⟨?_, ?_, ?_, ?_⟩, ?_⟩ <;> simp [boot]

end

/-- The runner gets tasks with a batch, and the batch is made when the context is
published. -/
theorem carries_step {now : Int} {m m' : Memory} {reply : Reply} (indexed : Indexed m.curQ)
    (home : Held (fun other t => t.jobId = other) m) (taken : resume now m reply a = some m')
    (carries : Carries jobId m') : Carries jobId m ∨ Publishes jobId m m' := by
  rcases carries with ⟨t, member, named⟩ | ⟨i, l, rolloutTasks, v, here, found, named, filled⟩
  · left
    by_contra none
    have apart : InRunner (fun t => t.jobId ≠ jobId) m :=
      inRunner_iff.mpr fun t member named => none (.inl ⟨t, member, named⟩)
    refine inRunner_iff.mp (inRunner_step indexed apart (fun i l rolloutTasks sender t member named => ?_) taken)
      t member named
    obtain ⟨v, found, own⟩ := home.put i l rolloutTasks sender
    exact none (.inr ⟨i, l, rolloutTasks, v, sender, found, (own t member).symm.trans named, List.ne_nil_of_mem member⟩)
  · have published : ∀ {ok : Bool}, a = .rollout ok → Carries jobId m ∨ Publishes jobId m m' := by
      rintro ok rfl
      cases Memory.rolls_of_rolloutNext taken with
      | published k n u stop place =>
        simp only [Memory.goto] at here
        split at here <;> cases here
        rename_i system
        have found : (m.pendingJobs.set i (u.withTasks (u.tasks.drop (rolloutCount now u))))[i]? = some v := found
        rw [getElem?_set_found place] at found
        cases found
        have named : u.context.jobId = jobId := named
        refine .inr ⟨i, l, u, stop, place, named, system, ?_⟩
        simp [Memory.goto, Memory.setItem, Memory.setJobContext, named]
      | ended | checked =>
        simp only [Memory.goto] at here
        split at here <;> cases here
      | _ => cases here
    rcases rollout_still taken with ⟨ok, same⟩ | same | ⟨_, _, stop⟩ | ⟨_, _, _, stop⟩ | ⟨_, _, -, stop⟩
    · exact published same
    · rw [same] at here
      rcases pending_still (by simp [here]) taken with ⟨ok, rfl⟩ | pending
      · exact published rfl
      · exact .inl (.inr ⟨i, l, rolloutTasks, v, here, pending ▸ found, named, filled⟩)
    all_goals
      rw [stop] at here
      cases here

end

end Tio.Job
