import Tio.Job.Contexts
import Tio.Job.Withdrawn

namespace Tio.Job

open Tio.Core

/-- A step of the program, or its end and the next start. -/
inductive Event where
  | act (a : Action)
  | restart

def advance (s : State) : Event → Option State
  | .act a => step s a
  | .restart => some (boot s.db s.clock)

/-- A job that is completed has its tasks, and they are over. -/
def Completed (db : Db) : Prop :=
  ∀ jobId j, Assoc.get jobId db.jobs = some j → j.status = .completed →
    TasksStored jobId j db ∧ AllOver jobId db

/-- A job that can still be completed has its tasks. -/
def OpenStored (db : Db) : Prop :=
  ∀ row ∈ db.jobs, isOpen row.2.status = true → TasksStored row.1 row.2 db

instance (db : Db) : Decidable (OpenStored db) :=
  inferInstanceAs (Decidable (∀ row ∈ db.jobs, isOpen row.2.status = true → TasksStored row.1 row.2 db))

/-- The program ends before the tasks of an open job are stored, or it creates a job
while it has something of an earlier one with the id. -/
def Interrupts (s : State) : Event → Prop
  | .restart => ¬OpenStored s.db
  | .act a => ∃ jobId ∈ created s a, s.memory.tokens jobId ≠ 0 ∨ ¬Quiet jobId s.memory

instance (s : State) : DecidablePred (Interrupts s)
  | .restart => inferInstanceAs (Decidable (¬OpenStored s.db))
  | .act a => inferInstanceAs (Decidable (∃ jobId ∈ created s a,
      s.memory.tokens jobId ≠ 0 ∨ ¬Quiet jobId s.memory))

def Event.deletesTask : Event → Bool
  | .act (.call r) => r.deletesTask
  | _ => false

/-- Nobody takes the job for an open one, and nobody creates it. -/
structure Closed (jobId : String) (m : Memory) : Prop where
  makers : m.rollout.started = true → m.makers jobId = 0
  pending : ∀ v ∈ m.pendingJobs, v.context.jobId = jobId → isOpen v.context.status = false
  loading : ∀ jobs, m.rollout = .loadTasks jobs → ∀ j, (jobId, j) ∈ jobs → isOpen j.status = false
  preload : ∀ jobs, m.rollout = .preload jobs → ∀ j tasks, (jobId, j, tasks) ∈ jobs →
    isOpen j.status = false
  watch : ∀ told todo, m.watch = .finish jobId told todo → isOpen told = false

section

variable {s s' : State} {a : Action} {jobId : String}

theorem closed_boot (jobId : String) (db : Db) (clock : Int) : Closed jobId (boot db clock).memory := by
  refine ⟨?_, ?_, ?_, ?_, ?_⟩ <;> simp [boot, RolloutPc.started]

theorem makers_of_closure {m : Memory} {closure : Closure} (member : closure ∈ m.closures)
    (makes : closure.makes jobId = 1) : m.makers jobId ≠ 0 := by
  have counted := le_tally (Closure.makes jobId) member
  rw [Memory.makers]
  omega

/-- No creation begins for a job that is stored. -/
theorem closed_makers (grounded : Grounded s) (closed : Closed jobId s.memory)
    (other : ¬Creates jobId s a) (taken : step s a = some s') :
    s'.memory.rollout.started = true → s'.memory.makers jobId = 0 := by
  intro started'
  have resumed := step_resume taken
  cases started : s.memory.rollout.started with
  | true =>
    have added := (tokens_step jobId resumed).1
    have none := closed.makers started
    by_contra holds
    have minted : s.memory.minted jobId (access s a).2 a ≠ 0 := by omega
    rcases (minted_cases grounded.jobs minted).2 with creates | ⟨-, here⟩
    · exact other creates
    · rw [here] at started
      cases started
  | false => exact makers_of_start jobId grounded started taken started'

theorem closed_pending (grounded : Grounded s) (closed : Closed jobId s.memory) (taken : step s a = some s') :
    ∀ v ∈ s'.memory.pendingJobs, v.context.jobId = jobId → isOpen v.context.status = false := by
  intro u member here
  cases resume_items (step_resume taken) member with
  | kept _ v _ present same => exact same ▸ closed.pending v present (same ▸ here)
  | checked _ _ _ _ v _ found | reloaded _ _ _ v _ _ found =>
    exact closed.pending v (List.mem_of_getElem? found) here
  | updated _ v _ present => exact closed.pending v present here
  | starts _ _ _ v _ found _ waits =>
    have before := closed.pending v (List.mem_of_getElem? found) here
    rw [waits] at before
    cases before
  | ended => rfl
  | received i item sender =>
    have listed := List.mem_of_getElem? sender
    cases started : s.memory.rollout.started with
    | true => exact absurd (closed.makers started) (makers_of_closure listed (if_pos here))
    | false =>
      rw [(grounded.unstarted started).closures] at listed
      cases listed
  | preloaded _ _ j tasks rest stop =>
    cases here
    exact closed.preload _ stop j tasks List.mem_cons_self

theorem closed_step {j : JobEntity} (grounded : Grounded s) (closed : Closed jobId s.memory)
    (stored : Assoc.get jobId s.db.jobs = some j) (ended : isOpen j.status = false)
    (taken : step s a = some s') : Closed jobId s'.memory := by
  have other : ¬Creates jobId s a := by
    rintro ⟨k, operation, things, scheduling, rollout, timeout, rfl, here, missing⟩
    rw [stored] at missing
    cases missing
  have row : ∀ j', Assoc.get jobId s.db.jobs = some j' → isOpen j'.status = false := by
    intro j' stored'
    rw [stored] at stored'
    cases stored'
    exact ended
  obtain ⟨loading, preload⟩ :=
    listed_step grounded closed.loading closed.preload (fun j' stored' _ => row j' stored') taken
  exact ⟨closed_makers grounded closed other taken, closed_pending grounded closed taken, loading, preload,
    read_step closed.watch row taken⟩

end

/-! The whole of it. A stored job has its tasks, or the program has nothing of it but
its creation, or it takes it for one that ended. -/

inductive Fate (s : State) (jobId : String) (j : JobEntity) : Prop
  | filled (stored : TasksStored jobId j s.db) (settled : j.status = .completed → AllOver jobId s.db)
  | quiet (ongoing : j.status ≠ .completed) (quiet : Quiet jobId s.memory)
  | closed (ended : isOpen j.status = false) (uncompleted : j.status ≠ .completed) (closed : Closed jobId s.memory)

structure Accounted (s : State) : Prop where
  grounded : Grounded s
  undeleted : Undeleted s.memory
  single : ∀ jobId, s.memory.tokens jobId ≤ 1
  brought : Brought s
  filled : Filled (fun jobId => Assoc.get jobId s.db.jobs = none) s.memory
  judged : ∀ jobId ∈ s.memory.watch.judged, AllOver jobId s.db
  preload : ∀ jobs, s.memory.rollout = .preload jobs → ∀ jobId told, (jobId, told, []) ∈ jobs →
    AllOver jobId s.db
  early : ∀ jobId things, Early s.memory jobId things → Quiet jobId s.memory ∧
    ∀ j, Assoc.get jobId s.db.jobs = some j →
      j.status ≠ .completed ∧ ∀ listed, things = some listed → j.things = listed
  fate : ∀ jobId j, Assoc.get jobId s.db.jobs = some j → Fate s jobId j

section

variable {s s' : State} {a : Action} {jobId : String}

/-- A status that ended is followed by another one. -/
theorem finishStatus_ended {told st : Status} (ended : isOpen told = false) (finishes : finishStatus told = some st) :
    isOpen st = false ∧ st ≠ .completed := by
  cases told <;> cases finishes <;> simp_all [isOpen]

/-- Nothing but its cancellation is written of a job of which there is nothing. -/
theorem Quiet.write {now : Int} {m : Memory} {st : Status} (quiet : Quiet jobId m)
    (write : StatusWrite now m a jobId st) : st = .canceled := by
  cases write with
  | start _ i l v here inside found => exact absurd rfl (quiet.pending v (List.mem_of_getElem? found))
  | drained _ i l v st here found => exact absurd rfl (quiet.pending v (List.mem_of_getElem? found))
  | preload _ _ told st rest here =>
    have started := quiet.started
    rw [here] at started
    cases started
  | checked _ _ told st todo here =>
    refine absurd ?_ quiet.watch
    rw [here]
    exact List.mem_cons_self
  | scheduleEnd | canceled => rfl

theorem Closed.write {now : Int} {m : Memory} {st : Status} (closed : Closed jobId m)
    (write : StatusWrite now m a jobId st) : isOpen st = false ∧ st ≠ .completed := by
  cases write with
  | start _ i l v here inside found inTime waits =>
    have ended := closed.pending v (List.mem_of_getElem? found) rfl
    rw [waits] at ended
    cases ended
  | drained _ i l v st here found finishes =>
    exact finishStatus_ended (closed.pending v (List.mem_of_getElem? found) rfl) finishes
  | preload _ _ told st rest here finishes =>
    exact finishStatus_ended (closed.preload _ here told [] List.mem_cons_self) finishes
  | checked _ _ told st todo here finishes => exact finishStatus_ended (closed.watch told todo here) finishes
  | scheduleEnd | canceled => simp [isOpen]

theorem early_of_creating {m : Memory} (creating : Creating jobId m) : ∃ things, Early m jobId things := by
  obtain ⟨k, context, things, here, named⟩ := creating
  exact ⟨_, .submitted k context things here named⟩

theorem Accounted.apart (accounted : Accounted s) : ∀ jobId, Creating jobId s.memory → Quiet jobId s.memory := by
  intro jobId creating
  obtain ⟨things, early⟩ := early_of_creating creating
  exact (accounted.early jobId things early).1

/-- The tasks stay over, when the job is not on its way to its tasks. -/
theorem Accounted.allOver (accounted : Accounted s) (taken : step s a = some s') (settled : AllOver jobId s.db)
    (other : ¬Creating jobId s.memory) : AllOver jobId s'.db :=
  allOver_step accounted.grounded.known.keyed taken settled fun k context things here named =>
    other ⟨k, context, things, here, named⟩

/-- Who completes a job has seen all of its tasks. -/
theorem Accounted.completes (accounted : Accounted s) (taken : step s a = some s') {j : JobEntity}
    (stored : Assoc.get jobId s.db.jobs = some j) (write : StatusWrite s.clock s.memory a jobId .completed) :
    AllOver jobId s'.db := by
  have noisy : ¬Creating jobId s.memory := fun creating =>
    nomatch (accounted.apart jobId creating).write write
  generalize told : Status.completed = st at write
  cases write with
  | start | scheduleEnd | canceled => cases told
  | preload ok _ row st rest here finishes =>
    exact accounted.allOver taken (accounted.preload _ here jobId row List.mem_cons_self) noisy
  | drained ok i l v st here found finishes =>
    subst told
    have opened : isOpen v.context.status = true := by
      cases status : v.context.status <;> rw [status] at finishes <;> first | rfl | cases finishes
    rw [accounted.filled.finish i l v here found opened] at stored
    cases stored
  | checked ok _ row st todo here finishes =>
    refine accounted.allOver taken (accounted.judged jobId ?_) noisy
    rw [here]
    rfl

theorem not_stores_of_creates {reply : Reply} (creates : Creates jobId s a) : ¬Stores jobId s.memory reply a := by
  rintro ⟨k, ok, context, things, ids, rfl, -⟩
  obtain ⟨k', operation, things', scheduling, rollout, timeout, same, -⟩ := creates
  cases same

theorem Accounted.still (accounted : Accounted s) (taken : step s a = some s') (quiet : Quiet jobId s.memory)
    (other : ¬Stores jobId s.memory (access s a).2 a) : Quiet jobId s'.memory :=
  quiet_step accounted.grounded.known.indexed accounted.grounded.home quiet (step_resume taken) other

/-- The row of a job of which there is nothing is not completed. -/
theorem Quiet.uncompleted (quiet : Quiet jobId s.memory) (taken : step s a = some s')
    (ongoing : ∀ j, Assoc.get jobId s.db.jobs = some j → j.status ≠ .completed) {j' : JobEntity}
    (stored' : Assoc.get jobId s'.db.jobs = some j') : j'.status ≠ .completed := by
  cases step_row taken stored' with
  | kept j stored things status => exact status ▸ ongoing j stored
  | created creates waiting => simp [waiting]
  | canceled j stored things canceling => simp [canceling]
  | written j stored things answered write => simp [quiet.write write]

theorem accounted_early (accounted : Accounted s)
    (fresh : ∀ jobId, Creates jobId s a → s.memory.tokens jobId = 0 ∧ Quiet jobId s.memory)
    (taken : step s a = some s') {things : Option (List String)}
    (early' : Early s'.memory jobId things) : Quiet jobId s'.memory ∧
      ∀ j, Assoc.get jobId s'.db.jobs = some j →
        j.status ≠ .completed ∧ ∀ listed, things = some listed → j.things = listed := by
  rcases early_step accounted.grounded taken early' with ⟨before, early, origin⟩ | ⟨creates, unread⟩
  · obtain ⟨quiet, rows⟩ := accounted.early jobId before early
    have other : ¬Stores jobId s.memory (access s a).2 a := fun stores =>
      not_early_of_stores (accounted.single jobId) taken stores early'
    refine ⟨accounted.still taken quiet other, fun j' stored' => ?_⟩
    refine ⟨quiet.uncompleted taken (fun j stored => (rows j stored).1) stored', fun listed same => ?_⟩
    have read : ∀ j, Assoc.get jobId s.db.jobs = some j → j'.things = j.things → j'.things = listed := by
      intro j stored alike
      rw [alike]
      rcases origin with rfl | ⟨row, found, rfl⟩
      · exact (rows j stored).2 listed same
      · rw [stored] at found
        cases found
        exact Option.some.inj same
    cases step_row taken stored' with
    | kept j stored alike status => exact read j stored alike
    | created creates => exact absurd (fresh jobId creates).1 (tokens_of_early early)
    | canceled j stored alike => exact read j stored alike
    | written j stored alike => exact read j stored alike
  · have quiet := (fresh jobId creates).2
    have missing : Assoc.get jobId s.db.jobs = none := by
      obtain ⟨-, -, -, -, -, -, -, -, missing⟩ := creates
      exact missing
    refine ⟨accounted.still taken quiet (not_stores_of_creates creates), fun j' stored' => ⟨?_, ?_⟩⟩
    · refine quiet.uncompleted taken (fun j stored => ?_) stored'
      rw [missing] at stored
      cases stored
    · rintro listed same
      rw [unread] at same
      cases same

/-- The tasks of a job are there when they are stored for its things. -/
theorem tasksStored_of_stores (accounted : Accounted s) (taken : step s a = some s') {j j' : JobEntity}
    (stored : Assoc.get jobId s.db.jobs = some j) (things : j'.things = j.things)
    (stores : Stores jobId s.memory (access s a).2 a) : TasksStored jobId j' s'.db := by
  obtain ⟨k, ok, context, listed, rfl, here, named, -, db, -⟩ := step_of_stores taken stores
  have target := ((accounted.early jobId _ (.submitted k context listed here named)).2 j stored).2 listed rfl
  subst named
  rw [TasksStored, db, thingsOf_created, things, target]
  exact List.sublist_append_right _ _

theorem fate_step (accounted : Accounted s)
    (fresh : ∀ jobId, Creates jobId s a → s.memory.tokens jobId = 0 ∧ Quiet jobId s.memory)
    (taken : step s a = some s') {j' : JobEntity} (stored' : Assoc.get jobId s'.db.jobs = some j') :
    Fate s' jobId j' := by
  have onward : ∀ j, Assoc.get jobId s.db.jobs = some j → j'.things = j.things →
      (j'.status = .completed → j.status = .completed ∨ StatusWrite s.clock s.memory a jobId .completed) →
      (isOpen j.status = false → Closed jobId s.memory →
        isOpen j'.status = false ∧ (j.status ≠ .completed → j'.status ≠ .completed)) →
      Fate s' jobId j' := by
    intro j stored things done shut
    cases accounted.fate jobId j stored with
    | filled tasks settled =>
      refine .filled (tasksStored_step accounted.undeleted taken tasks stored' things) fun completed => ?_
      rcases done completed with before | write
      · refine accounted.allOver taken (settled before) fun creating => ?_
        obtain ⟨listed, early⟩ := early_of_creating creating
        exact ((accounted.early jobId listed early).2 j stored).1 before
      · exact accounted.completes taken stored write
    | quiet ongoing quiet =>
      have rows : ∀ row, Assoc.get jobId s.db.jobs = some row → row.status ≠ .completed := by
        intro row found
        rw [stored] at found
        cases found
        exact ongoing
      have uncompleted := quiet.uncompleted taken rows stored'
      by_cases stores : Stores jobId s.memory (access s a).2 a
      · exact .filled (tasksStored_of_stores accounted taken stored things stores) fun done => absurd done uncompleted
      · exact .quiet uncompleted (accounted.still taken quiet stores)
    | closed ended uncompleted closed =>
      obtain ⟨ended', other⟩ := shut ended closed
      exact .closed ended' (other uncompleted) (closed_step accounted.grounded closed stored ended taken)
  cases step_row taken stored' with
  | kept j stored things status =>
    exact onward j stored things (fun done => .inl (status ▸ done)) fun ended _ => by simp [status, ended]
  | created creates waiting =>
    refine .quiet (by simp [waiting]) (accounted.still taken (fresh jobId creates).2 (not_stores_of_creates creates))
  | canceled j stored things canceling =>
    exact onward j stored things (fun done => by simp [canceling] at done) fun _ _ => by simp [canceling, isOpen]
  | written j stored things answered write =>
    refine onward j stored things (fun done => .inr (done ▸ write)) fun ended closed => ?_
    exact (closed.write write).imp_right fun other _ => other

theorem accounted_step (accounted : Accounted s)
    (fresh : ∀ jobId, Creates jobId s a → s.memory.tokens jobId = 0 ∧ Quiet jobId s.memory)
    (kept : ∀ r, a = .call r → r.deletesTask = false) (taken : step s a = some s') : Accounted s' := by
  have resumed := step_resume taken
  refine ⟨grounded_step accounted.grounded taken, undeleted_step accounted.undeleted resumed kept,
    fun jobId => single_step accounted.grounded (accounted.single jobId) (fun creates => (fresh jobId creates).1) taken,
    brought_step accounted.grounded accounted.undeleted accounted.brought (fun jobId creates => (fresh jobId creates).1) taken,
    ?_, ?_, preload_step accounted.grounded taken accounted.preload,
    fun jobId things early => accounted_early accounted fresh taken early,
    fun jobId j stored => fate_step accounted fresh taken stored⟩
  · refine (filled_step accounted.filled resumed accounted.brought.adding).mono fun v member gone => ?_
    refine gone_step taken gone fun creates => ?_
    have quiet := accounted.still taken (fresh _ creates).2 (not_stores_of_creates creates)
    exact quiet.pending v member rfl
  · intro jobId here
    exact judged_step accounted.grounded.known.keyed taken (accounted.judged jobId)
      (fun creating => (accounted.apart jobId creating).watch) here

theorem accounted_boot {db : Db} (keyed : Keyed db) (distinct : (Assoc.keys db.jobs).Nodup)
    (stored : OpenStored db) (completed : Completed db) (clock : Int) : Accounted (boot db clock) := by
  have grounded := grounded_boot keyed distinct clock
  have idle := grounded.unstarted rfl
  refine ⟨grounded, ?_, fun jobId => ?_, ⟨?_, ?_⟩, ⟨?_, ?_⟩, ?_, ?_, ?_, fun jobId j here => ?_⟩
  · simp [Undeleted, boot]
  · rw [tokens_unstarted idle rfl]
    exact Nat.zero_le 1
  · simp [boot]
  · simp [boot]
  · simp [boot]
  · simp [boot]
  · simp [boot, WatchPc.judged]
  · simp [boot]
  · intro jobId things early
    cases early with
    | stored k _ _ _ _ _ here | read k _ _ _ here | submitted k _ _ here => simp [boot] at here
  · cases opened : isOpen j.status with
    | true =>
      refine .filled (stored (jobId, j) (Assoc.mem_of_get here) opened) fun done => ?_
      rw [done] at opened
      cases opened
    | false =>
      by_cases done : j.status = .completed
      · exact .filled (completed jobId j here done).1 fun _ => (completed jobId j here done).2
      · exact .closed opened done (closed_boot jobId db clock)

theorem completed_of_accounted (accounted : Accounted s) : Completed s.db := by
  intro jobId j stored done
  cases accounted.fate jobId j stored with
  | filled tasks settled => exact ⟨tasks, settled done⟩
  | quiet ongoing => exact absurd done ongoing
  | closed ended uncompleted => exact absurd done uncompleted

theorem accounted_advance {e : Event} (accounted : Accounted s) (safe : ¬Interrupts s e) (kept : e.deletesTask = false)
    (taken : advance s e = some s') : Accounted s' := by
  cases e with
  | restart =>
    cases taken
    exact accounted_boot accounted.grounded.known.keyed accounted.grounded.jobs (not_not.mp safe)
      (completed_of_accounted accounted) s.clock
  | act a =>
    refine accounted_step accounted (fun jobId creates => ?_) ?_ taken
    · have clear : ¬(s.memory.tokens jobId ≠ 0 ∨ ¬Quiet jobId s.memory) := fun left =>
        safe ⟨jobId, created_of_creates creates, left⟩
      rw [not_or, not_not, not_not] at clear
      exact clear
    · rintro r rfl
      exact kept

end

/-- In a run that does not begin again while an open job lacks tasks, and that gives no
job an id of which something is left, a job that is completed has its tasks, and they are
over. -/
theorem completed_of_uninterrupted
    (db : {db : Db // Keyed db ∧ (Assoc.keys db.jobs).Nodup ∧ OpenStored db ∧ Completed db}) (clock : Int)
    (events : List Event)
    (safe : Meets advance (fun s e => ¬Interrupts s e ∧ e.deletesTask = false) (boot db.1 clock) events) :
    Always advance (fun _ _ s' => Completed s'.db) (boot db.1 clock) events := by
  obtain ⟨keyed, distinct, stored, completed⟩ := db.2
  refine Meets.always Accounted ?_ safe (accounted_boot keyed distinct stored completed clock)
  intro s e s' accounted condition taken
  have next := accounted_advance accounted condition.1 condition.2 taken
  exact ⟨completed_of_accounted next, next⟩

theorem emptyDb_settled : Keyed emptyDb ∧ (Assoc.keys emptyDb.jobs).Nodup ∧ OpenStored emptyDb ∧ Completed emptyDb := by
  refine ⟨emptyDb_keyed.1, emptyDb_keyed.2, by decide, ?_⟩
  intro jobId j stored
  cases stored

/-- The job is created, and the call goes as far as its row. -/
def rowRun : List Event := List.flatten [
  List.replicate 3 (.act (.rollout true)),
  [.act (.call (.createJob "a" "$updateShadow/x" ["thing"] none none none)), .act (.serve 0 true)]]

/-- The tasks are stored before the program ends, and they are worked off after it. -/
def storedRun : List Event := rowRun ++ List.flatten [
  [.act (.serve 0 true), .act (.serve 0 true), .act (.run 0 true), .restart],
  List.replicate 4 (.act (.rollout true)), [.act .rolloutTick], List.replicate 4 (.act (.rollout true)),
  [.act .recvPut, .act (.rollout true), .act (.rollout true), .act .sysOpTick, .act (.sysOp none true),
    .act (.sysOp none true), .act .recvSent, .act (.change true), .act .recvChange, .act (.work 0 true),
    .act (.recvResult 0), .act (.change true), .act .recvChange, .act (.watchTick ["a"])],
  List.replicate 3 (.act (.watch true))]

theorem stored_job_completed :
    (execute advance (boot emptyDb 0) storedRun).map (fun s => (Assoc.get "a" s.db.jobs).map JobEntity.status) =
      some (some .completed) ∧
    Always advance (fun _ _ s' => Completed s'.db) (boot emptyDb 0) storedRun :=
  ⟨by decide +kernel, completed_of_uninterrupted ⟨emptyDb, emptyDb_settled⟩ 0 storedRun (by decide +kernel)⟩

/-- The program ends between the row of the job and its tasks. -/
def brokenRun : List Event := rowRun ++ .restart :: List.replicate 2 (.act (.rollout true))

/-- The preload completes a job that has no tasks. -/
theorem interrupted_job_completed :
    ¬∀ (db : {db : Db // Keyed db ∧ (Assoc.keys db.jobs).Nodup ∧ OpenStored db ∧ Completed db}) (clock : Int)
      (events : List Event), (∀ e ∈ events, e.deletesTask = false) →
        Always advance (fun _ _ s' => Completed s'.db) (boot db.1 clock) events := by
  intro every
  have broken := every ⟨emptyDb, emptyDb_settled⟩ 0 (brokenRun ++ [.act (.rollout true)]) (by decide)
  have completed : (execute advance (boot emptyDb 0) brokenRun).any (fun s =>
      (advance s (.act (.rollout true))).any fun s' => (Assoc.get "a" s'.db.jobs).any fun j =>
        j.status = .completed ∧ j.things = ["thing"] ∧ s'.db.thingsOf "a" = []) = true := by
    decide +kernel
  obtain ⟨s, reached, after⟩ := (Option.any_eq_true _ _).mp completed
  obtain ⟨s', taken, after⟩ := (Option.any_eq_true _ _).mp after
  obtain ⟨j, stored, after⟩ := (Option.any_eq_true _ _).mp after
  obtain ⟨done, things, nothing⟩ := of_decide_eq_true after
  have tasks := ((broken.after reached s' taken).1 "a" j stored done).1
  rw [TasksStored, things, nothing] at tasks
  cases tasks

end Tio.Job
