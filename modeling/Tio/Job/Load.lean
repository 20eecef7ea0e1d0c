import Tio.Job.Home
import Tio.Job.Staged

namespace Tio.Job

open Tio.Core TaskQueue

variable (weight : String → Int → Nat)

/-- The tasks that are held for a job. -/
def tasksLoad (jobId : String) (tasks : List Task) : Nat := tally (fun t => weight jobId t.taskId) tasks

def PendingJobItem.load (v : PendingJobItem) : Nat :=
  if isJobToTerminal v.context.status then 0 else tasksLoad weight v.context.jobId v.tasks

def Closure.load : Closure → Nat
  | .readTasks context taskIds => tally (weight context.jobId) taskIds
  | .addPendingJob item => tasksLoad weight item.context.jobId item.tasks
  | _ => 0

def preloadLoad (jobs : List (String × JobEntity × List Task)) : Nat :=
  tally (fun entry => tasksLoad weight entry.1 entry.2.2) jobs

/-- The batch that is on its way to the runner. -/
def batchLoad (v : PendingJobItem) (tasks : List Task) : Nat :=
  if isJobToTerminal v.context.status then 0 else tasksLoad weight v.context.jobId tasks

def RolloutPc.load (pending : List PendingJobItem) : RolloutPc → Nat
  | .preload jobs => preloadLoad weight jobs
  | .put i _ rolloutTasks => (pending[i]?).elim 0 fun v => batchLoad weight v rolloutTasks
  | _ => 0

namespace Memory

/-- The job is over for the runner, and the center has nothing that could change that. -/
def spent (jobId : String) (m : Memory) : Bool :=
  m.barred jobId && m.makers jobId = 0 &&
    m.pendingJobs.all fun v => v.context.jobId ≠ jobId || isJobToTerminal v.context.status

def centerLoad (m : Memory) : Nat :=
  m.rollout.load weight m.pendingJobs + tally (Closure.load weight) m.closures +
    tally (PendingJobItem.load weight) m.pendingJobs

/-- A task that waits in the runner, unless it will be dropped. -/
def waitingLoad (spent : String → Bool) (t : Task) : Nat :=
  if spent t.jobId then 0 else weight t.jobId t.taskId

def runnerLoad (spent : String → Bool) (m : Memory) : Nat :=
  tally (waitingLoad weight spent) (getTasks m.curQ ++ m.parked) +
    tally (fun t => weight t.jobId t.taskId) (m.hand ++ m.submitted)

/-- The tasks that come from the database: those that a preload reads, and the ids of
those that a creation writes. -/
def arriving (m : Memory) (reply : Reply) : Action → Nat
  | .rollout _ =>
    match m.rollout, reply with
    | .loadTasks jobs, .tasks rows => preloadLoad weight (loaded jobs rows)
    | _, _ => 0
  | .run i _ =>
    match m.closures[i]?, reply with
    | some (.submitted (.createJob context _)), .taskIds ids => tally (weight context.jobId) ids
    | _, _ => 0
  | _ => 0

end Memory

section

variable {now : Int} {m m' : Memory} {reply : Reply} {a : Action}

variable {weight}

theorem tasksLoad_sublist {jobId : String} {fewer tasks : List Task} (less : fewer.Sublist tasks) :
    tasksLoad weight jobId fewer ≤ tasksLoad weight jobId tasks := tally_sublist less

variable (weight) in
theorem load_thinned (v : PendingJobItem) :
    PendingJobItem.load weight { v with tasks := ongoingTasks v.tasks } ≤ v.load weight := by
  simp only [PendingJobItem.load]
  split
  · exact Nat.le_refl _
  · exact tasksLoad_sublist List.filter_sublist

variable (weight) in
/-- An item that weighs no more than the one it replaces. -/
theorem load_set {i : Nat} {v : PendingJobItem} (found : m.pendingJobs[i]? = some v)
    (v' : PendingJobItem) (less : v'.load weight ≤ v.load weight) :
    tally (PendingJobItem.load weight) (m.pendingJobs.set i v') ≤
      tally (PendingJobItem.load weight) m.pendingJobs := by
  have moved := tally_set (PendingJobItem.load weight) found v'
  omega

variable (weight) in
theorem load_withTasks {v : PendingJobItem} {tasks : List Task}
    (less : tasksLoad weight v.context.jobId tasks ≤ tasksLoad weight v.context.jobId v.tasks) :
    (v.withTasks tasks).load weight ≤ v.load weight := by
  by_cases ended : isJobToTerminal v.context.status = true
  · simp [PendingJobItem.load, PendingJobItem.withTasks, ended]
  · simpa [PendingJobItem.load, PendingJobItem.withTasks, ended] using less

/-- An item whose job ends weighs nothing, whatever its tasks are. -/
theorem load_of_ended {v : PendingJobItem} (ended : isJobToTerminal v.context.status = true) :
    v.load weight = 0 := by simp [PendingJobItem.load, ended]

variable (weight) in
theorem load_le (v : PendingJobItem) : v.load weight ≤ tasksLoad weight v.context.jobId v.tasks := by
  by_cases ended : isJobToTerminal v.context.status = true
  · simp [load_of_ended ended]
  · simp [PendingJobItem.load, ended]

variable (weight) in
/-- The batch and the tasks that stay weigh together what the item weighed. -/
theorem load_parted (v : PendingJobItem) (count : Nat) :
    batchLoad weight (v.withTasks (v.tasks.drop count)) (v.tasks.take count) +
      (v.withTasks (v.tasks.drop count)).load weight = v.load weight := by
  have parted : tasksLoad weight v.context.jobId v.tasks =
      tasksLoad weight v.context.jobId (v.tasks.take count) + tasksLoad weight v.context.jobId (v.tasks.drop count) := by
    rw [tasksLoad, tasksLoad, tasksLoad, ← tally_append, List.take_append_drop]
  by_cases ended : isJobToTerminal v.context.status = true
  · simp [batchLoad, PendingJobItem.load, PendingJobItem.withTasks, ended]
  · simp [batchLoad, PendingJobItem.load, PendingJobItem.withTasks, ended, parted]

open Memory in
theorem centerLoad_rolls {ok : Bool} (staged : Staged m) (rolls : Rolls now reply m m') :
    m'.centerLoad weight ≤ m.centerLoad weight + m.arriving weight reply (.rollout ok) := by
  have erased : ∀ i, tally (PendingJobItem.load weight) (m.pendingJobs.eraseIdx i) ≤
      tally (PendingJobItem.load weight) m.pendingJobs :=
    fun i => tally_sublist (List.eraseIdx_sublist _ i)
  cases rolls with
  | jobsLoaded jobs here | started here | passed _ _ here | runs _ _ _ here | outside _ _ _ here
  | finished _ _ here | early _ _ _ here | tasksEnded _ _ here | endFailed _ _ _ here
  | endForced _ _ _ here | endKept _ _ _ here | reloadFailed _ _ here | unlimited _ _ _ _ _ here
  | timedOut _ _ _ _ _ _ _ here | remains _ _ _ _ _ _ _ here =>
    simp only [centerLoad, goto, here, RolloutPc.load]
    omega
  | tasksLoaded jobs rows here replied =>
    simp only [centerLoad, goto, here, RolloutPc.load, arriving, replied]
    omega
  | terminated jobId j rest here =>
    simp only [centerLoad, goto, here, RolloutPc.load, preloadLoad, tally_cons]
    omega
  | preloaded jobId j tasks rest here filled =>
    have fresh := load_le weight ⟨toContext jobId j, tasks, []⟩
    simp only [toContext] at fresh
    simp only [centerLoad, here, RolloutPc.load, preloadLoad, tally_cons, tally_append, tally_nil,
      toContext]
    omega
  | starts i l v here inside found inTime waits =>
    have fewer := load_set weight found (v.withStatus .inProgress) (by
      simp [PendingJobItem.load, PendingJobItem.withStatus, waits, isJobToTerminal])
    simp only [centerLoad, goto, setItem, here, RolloutPc.load]
    omega
  | empty i l v here found =>
    have less : tasksLoad weight v.context.jobId [] ≤ tasksLoad weight v.context.jobId v.tasks :=
      Nat.zero_le _
    have fewer := load_set weight found _ (load_withTasks weight less)
    simp only [centerLoad, goto, setItem, here, RolloutPc.load]
    omega
  | filled i l v here found =>
    have fewer := load_set weight found _ (load_withTasks weight (tally_drained_le _ v))
    simp only [centerLoad, goto, setItem, here, RolloutPc.load]
    omega
  | stopped i l v config here found =>
    have less : tasksLoad weight v.context.jobId (ongoingTasks v.tasks) ≤
      tasksLoad weight v.context.jobId v.tasks := tasksLoad_sublist List.filter_sublist
    have fewer := load_set weight found _ (load_withTasks weight less)
    simp only [centerLoad, goto, setItem, here, RolloutPc.load]
    omega
  | ended i l v config here found =>
    have nothing : (v.withStatus .canceled).load weight = 0 := load_of_ended rfl
    have fewer := load_set weight found (v.withStatus .canceled) (by omega)
    simp only [centerLoad, goto, setItem, here, apply_ite (RolloutPc.load weight _)]
    simp only [RolloutPc.load, ite_self]
    omega
  | reloaded i l v rows here found =>
    have canceled : (v.withTasks (toTasks rows)).context.status = .canceled :=
      staged.ending i v (by rw [here]; rfl) found
    have nothing : (v.withTasks (toTasks rows)).load weight = 0 :=
      load_of_ended (by rw [canceled]; rfl)
    have fewer := load_set weight found (v.withTasks (toTasks rows)) (by omega)
    simp only [centerLoad, goto, setItem, here, RolloutPc.load]
    omega
  | checked i l remain v minutes here found =>
    have less : tasksLoad weight v.context.jobId remain ≤ tasksLoad weight v.context.jobId v.tasks :=
      staged.checking i l [] remain v here found fun t => weight v.context.jobId t.taskId
    have fewer := load_set weight found _ (load_withTasks weight less)
    simp only [centerLoad, goto, setItem, here, apply_ite (RolloutPc.load weight _)]
    simp only [RolloutPc.load, ite_self]
    omega
  | published i l v here found =>
    have moved := tally_set (PendingJobItem.load weight) found
      (v.withTasks (v.tasks.drop (rolloutCount now v)))
    have divided := load_parted weight v (rolloutCount now v)
    simp only [centerLoad, goto, setItem, setJobContext, here, apply_ite (RolloutPc.load weight _)]
    simp only [RolloutPc.load, getElem?_set_found found, Option.elim_some]
    split <;> omega
  | rolled i l count v here found =>
    have fewer := load_set weight found
      { v with rolloutStat := v.rolloutStat ++ [(now, count)] } (Nat.le_refl _)
    simp only [centerLoad, goto, setItem, here, RolloutPc.load]
    omega
  | kept i l v here found | cleared i l v here found | rolledOut i l count v here found =>
    have fewer := erased i
    simp only [centerLoad, goto, delItem, removeJobContext, here, RolloutPc.load]
    omega

variable (weight) in
theorem load_submits (pc : CallPc) : tally (Closure.load weight) pc.submits = 0 := by
  cases pc <;> rfl

variable (weight) in
theorem centerLoad_recvPending {i : Nat} (taken : resume now m reply (.recvPending i) = some m') :
    m'.centerLoad weight ≤ m.centerLoad weight := by
  obtain ⟨item, idle, sender, rfl⟩ := resume_recvPending taken
  have moved := tally_set (Closure.load weight) sender .finished
  have same : Closure.load weight (.addPendingJob item) = tasksLoad weight item.context.jobId item.tasks := rfl
  have nothing : Closure.load weight .finished = 0 := rfl
  have less := load_le weight item
  simp only [Memory.centerLoad, Memory.startPass, Memory.goto, Memory.setClosure, idle,
    RolloutPc.load, tally_append, tally_cons, tally_nil]
  omega

variable (weight) in
/-- Another timeout changes no weight. -/
theorem centerLoad_updateContext (other : String) (timeout : Option TimeoutConfig) (idle : m.rollout = .select) :
    (m.updateContext other timeout).startPass.centerLoad weight ≤ m.centerLoad weight := by
  rcases updateContext_cases other timeout m with same | ⟨k, v, timeout', found, named, same⟩
  · rw [same]
    simp only [Memory.centerLoad, Memory.startPass, Memory.goto, idle, RolloutPc.load]
    omega
  · have alike : (v.withTimeout timeout').load weight = v.load weight := rfl
    have fewer := load_set weight found _ (Nat.le_of_eq alike)
    rw [same]
    simp only [Memory.centerLoad, Memory.startPass, Memory.goto, idle, RolloutPc.load]
    omega

variable (weight) in
theorem centerLoad_receiveRemove {other : String} {force : Bool} {received : Memory} (idle : m.rollout = .select)
    (removed : m.receiveRemove other force = some received) :
    received.centerLoad weight ≤ m.centerLoad weight := by
  obtain ⟨rest, forget, swept, rfl⟩ := receiveRemove_cases removed
  have fewer := tally_removePendingJob (load_thinned weight) swept
  simp only [Memory.centerLoad, idle, RolloutPc.load]
  omega

variable (weight) in
theorem centerLoad_run {k : Nat} {ok : Bool} (taken : resume now m reply (.run k ok) = some m')
    (reads : ∀ context taskIds rows, m.closures[k]? = some (.readTasks context taskIds) →
      reply = .tasks rows → tasksLoad weight context.jobId (toTasks rows) ≤ tally (weight context.jobId) taskIds) :
    m'.centerLoad weight ≤ m.centerLoad weight + m.arriving weight reply (.run k ok) := by
  obtain ⟨closure, next, found, continues, rfl⟩ := resume_run taken
  have moved := tally_set (Closure.load weight) found next
  have less : next.load weight ≤ closure.load weight + m.arriving weight reply (.run k ok) := by
    cases Memory.runs_of_closureNext continues with
    | created context things ids replied =>
      simp only [Memory.arriving, found, replied, Closure.load]
      omega
    | loaded context taskIds rows replied =>
      have read := reads context taskIds rows found replied
      simp only [Closure.load]
      omega
    | unstored | unread | ignored => exact Nat.zero_le _
  simp only [Memory.centerLoad, Memory.setClosure]
  omega

variable (weight) in
/-- What the center holds comes from the database, or it held it before. -/
theorem centerLoad_step (staged : Staged m) (taken : resume now m reply a = some m')
    (reads : ∀ (i : Nat) (ok : Bool) (context : JobContext) (taskIds : List Int)
      (rows : List (Int × TaskEntity)), a = .run i ok →
      m.closures[i]? = some (.readTasks context taskIds) → reply = .tasks rows → tasksLoad weight context.jobId (toTasks rows) ≤
        tally (weight context.jobId) taskIds) :
    m'.centerLoad weight ≤ m.centerLoad weight + m.arriving weight reply a := by
  have frame := resume_frame taken
  cases a with
  | rollout ok => exact centerLoad_rolls staged (Memory.rolls_of_rolloutNext taken)
  | rolloutTick =>
    simp only [resume] at taken
    split at taken
    · rename_i idle
      cases taken
      simp only [Memory.centerLoad, Memory.startPass, Memory.goto, idle, RolloutPc.load]
      omega
    · cases taken
  | recvPending i => exact centerLoad_recvPending weight taken
  | recvUpdate i =>
    obtain ⟨other, timeout, idle, sender, rfl⟩ := resume_recvUpdate taken
    exact centerLoad_updateContext weight other timeout idle
  | recvRemove i =>
    obtain ⟨r, operation, other, force, received, idle, sender, removal, removed, rfl⟩ :=
      resume_recvRemove taken
    have less := centerLoad_receiveRemove weight idle removed
    exact less
  | recvFinished =>
    obtain ⟨other, todo, received, idle, sender, removed, rfl⟩ := resume_recvFinished taken
    have less := centerLoad_receiveRemove weight idle removed
    exact less
  | recvPut =>
    obtain ⟨i, l, rolloutTasks, idle, sender, rfl⟩ := resume_recvPut taken
    simp only [Memory.centerLoad, sender, RolloutPc.load]
    omega
  | recvEndDelete =>
    obtain ⟨i, l, v, idle, sender, found, rfl⟩ := resume_recvEndDelete taken
    obtain ⟨rollout, watch, service, -⟩ := Memory.deleteTask_frame (.job v.context.jobId) m
    simp only [Memory.centerLoad, Memory.goto, sender, RolloutPc.load, service.closures, rollout.pendingJobs]
    omega
  | recvDelete i =>
    obtain ⟨operation, msg, idle, sender, system, rfl⟩ := resume_recvDelete taken
    obtain ⟨rollout, watch, service, -⟩ := Memory.deleteTask_frame msg m
    have moved := tally_set (Closure.load weight) sender (.deleted msg)
    have nothing : Closure.load weight (.deleted msg) = 0 := rfl
    simp only [Memory.centerLoad, Memory.setClosure, service.closures, rollout.pendingJobs, rollout.rollout]
    omega
  | serve k ok =>
    obtain ⟨call, pc, found, serves, rfl⟩ := resume_serve taken
    have nothing := load_submits weight call.pc
    simp only [Memory.centerLoad, tally_append]
    omega
  | run k ok => exact centerLoad_run weight taken fun context taskIds rows => reads k ok context taskIds rows rfl
  | _ =>
    simp only [Memory.centerLoad]
    rw [frame.rollout rfl, frame.closures rfl, frame.pendingJobs rfl]
    omega

variable (weight) in
/-- The batch leaves the center when the runner takes it. -/
theorem centerLoad_put {i l : Nat} {rolloutTasks : List Task} {v : PendingJobItem}
    (sender : m.rollout = .put i l rolloutTasks) (found : m.pendingJobs[i]? = some v)
    (taken : resume now m reply .recvPut = some m') :
    m'.centerLoad weight + batchLoad weight v rolloutTasks = m.centerLoad weight := by
  obtain ⟨i', l', rolloutTasks', idle, sender', rfl⟩ := resume_recvPut taken
  rw [sender] at sender'
  cases sender'
  simp only [Memory.centerLoad, sender, RolloutPc.load, found, Option.elim_some]
  omega

variable {spent : String → Bool}

variable (weight spent) in
theorem waitingLoad_le (t : Task) : Memory.waitingLoad weight spent t ≤ weight t.jobId t.taskId := by
  rw [Memory.waitingLoad]
  split
  · exact Nat.zero_le _
  · exact Nat.le_refl _

variable (weight) in
/-- A task that is popped for its action was weighed. -/
theorem runnerLoad_sysOpNext {online : Option Bool} {accepted : Bool}
    (counted : ∀ jobId context, Assoc.get jobId m.contexts = some context →
      isJobToTerminal context.status = false → spent jobId = false)
    (taken : m.sysOpNext online accepted = some m') :
    m'.runnerLoad weight spent ≤ m.runnerLoad weight spent := by
  cases Memory.operates_of_sysOpNext taken with
  | rests c here =>
    simp only [Memory.runnerLoad, Memory.parked, Memory.hand, Memory.submitted, here]
    exact Nat.le_refl _
  | drops c t rest here popped barred =>
    have queue := tally_perm (Memory.waitingLoad weight spent) (pop_perm popped).1
    rw [tally_cons] at queue
    simp only [Memory.runnerLoad, Memory.parked, Memory.hand, Memory.submitted, here, tally_append]
    omega
  | takes c t rest context here popped held going =>
    have queue := tally_perm (Memory.waitingLoad weight spent) (pop_perm popped).1
    have counts : Memory.waitingLoad weight spent t = weight t.jobId t.taskId := by
      rw [Memory.waitingLoad, counted t.jobId context held going]
      rfl
    rw [tally_cons] at queue
    simp only [Memory.runnerLoad, Memory.parked, Memory.hand, Memory.submitted, here, tally_append, tally_cons, tally_nil]
    omega
  | parks c t here offline =>
    have less := waitingLoad_le weight spent t
    have parked := tally_perm (Memory.waitingLoad weight spent)
      (Assoc.flatMap_set_append t.thingId t m.offlineThingTasks)
    rw [tally_cons] at parked
    simp only [Memory.runnerLoad, Memory.parked, Memory.hand, Memory.submitted, here, tally_append, tally_cons, tally_nil]
    omega
  | returns c t here system full =>
    have less := waitingLoad_le weight spent t
    have queue := tally_perm (Memory.waitingLoad weight spent) (push_perm t m.curQ)
    rw [tally_cons] at queue
    simp only [Memory.runnerLoad, Memory.parked, Memory.hand, Memory.submitted, here, tally_append, tally_cons, tally_nil]
    omega
  | submits c t here =>
    have hand : m.hand = [t] := by rw [Memory.hand, here]
    by_cases queued : t.status = .queued <;> by_cases system : isSysOp t.operation = true
    all_goals
      simp only [Memory.runnerLoad, hand, tally_append, tally_cons, tally_nil]
      simp only [Memory.hand, Memory.parked, Memory.submitted, queued, system, if_true, if_false, Bool.false_eq_true,
        List.map_append, List.map_cons, List.map_nil, tally_append, tally_cons, tally_nil]
      omega

variable (weight spent) in
theorem runnerLoad_deleteTask (indexed : Indexed m.curQ) (msg : DeleteTaskMsg) :
    (m.deleteTask msg).runnerLoad weight spent ≤ m.runnerLoad weight spent := by
  obtain ⟨ids, keep, same, -, -⟩ := deleteTask_removes msg m
  obtain ⟨gone, perm, -⟩ := removeIds_perm ids indexed
  have queue := tally_perm (Memory.waitingLoad weight spent) perm
  have parked := tally_perm (Memory.waitingLoad weight spent) (flatMap_filter keep m.offlineThingTasks)
  rw [same]
  simp only [tally_append] at queue parked
  simp only [Memory.runnerLoad, Memory.parked, Memory.hand, Memory.submitted, tally_append]
  omega

variable (weight spent) in
theorem runnerLoad_connected (distinct : (Assoc.keys m.offlineThingTasks).Nodup) (thingId : String) :
    (m.connected thingId).runnerLoad weight spent = m.runnerLoad weight spent := by
  rw [Memory.connected]
  split
  · rename_i tasks found
    have queue := tally_perm (Memory.waitingLoad weight spent) (pushAll_perm tasks m.curQ)
    have parked := tally_perm (Memory.waitingLoad weight spent)
      (Assoc.flatMap_erase distinct found)
    simp only [tally_append] at queue parked
    simp only [Memory.runnerLoad, Memory.parked, Memory.hand, Memory.submitted, tally_append]
    omega
  · rfl

/-- The load of the runner with every event of its loop. -/
theorem runnerLoad_event {e : RunnerEvent} (indexed : Indexed m.curQ)
    (distinct : (Assoc.keys m.offlineThingTasks).Nodup)
    (counted : ∀ contexts online accepted, e = .turn contexts online accepted →
      ∀ jobId context, Assoc.get jobId contexts = some context →
        isJobToTerminal context.status = false → spent jobId = false)
    (taken : runnerStep m e = some m') :
    m'.runnerLoad weight spent ≤
      m.runnerLoad weight spent + tally (Memory.waitingLoad weight spent) e.batch := by
  cases e with
  | put tasks =>
    simp only [runnerStep] at taken
    split at taken
    · cases taken
      have queue := tally_perm (Memory.waitingLoad weight spent) (pushAll_perm tasks m.curQ)
      simp only [tally_append] at queue
      simp only [Memory.runnerLoad, Memory.parked, Memory.hand, Memory.submitted, tally_append,
        RunnerEvent.batch]
      omega
    · cases taken
  | delete msg =>
    have less := runnerLoad_deleteTask weight spent indexed msg
    simp only [runnerStep] at taken
    split at taken
    · cases taken
      exact Nat.le_add_right_of_le less
    · cases taken
  | connect thingId connected =>
    have same := runnerLoad_connected weight spent distinct thingId
    have still : ∀ m : Memory, m.sysOp = .select →
        ({ m with sysOp := .pop 0 } : Memory).runnerLoad weight spent = m.runnerLoad weight spent := by
      intro m idle
      simp [Memory.runnerLoad, Memory.parked, Memory.hand, Memory.submitted, idle]
    simp only [runnerStep] at taken
    split at taken
    · rename_i idle
      cases taken
      cases connected with
      | true =>
        have idle' : (m.connected thingId).sysOp = .select := by
          rw [Memory.connected]
          split <;> exact idle
        exact Nat.le_add_right_of_le (Nat.le_of_eq ((still _ idle').trans same))
      | false => exact Nat.le_add_right_of_le (Nat.le_of_eq (still m idle))
    · cases taken
  | tick =>
    simp only [runnerStep] at taken
    split at taken
    · rename_i idle
      cases taken
      simp [Memory.runnerLoad, Memory.parked, Memory.hand, Memory.submitted, idle]
    · cases taken
  | turn contexts online accepted =>
    have less := runnerLoad_sysOpNext weight (m := { m with contexts := contexts })
      (counted contexts online accepted rfl) taken
    exact Nat.le_add_right_of_le less
  | sent =>
    simp only [runnerStep] at taken
    split at taken
    · rename_i here
      cases taken
      simp [Memory.runnerLoad, Memory.parked, Memory.hand, Memory.submitted, here]
    · cases taken

theorem runnerLoad_congr (same : Memory.SamePlaces m m') :
    m'.runnerLoad weight spent = m.runnerLoad weight spent := by
  simp only [Memory.runnerLoad, Memory.parked, Memory.hand, same.curQ, same.offlineThingTasks,
    same.sysOp, same.submitted]

/-- The batch that a step puts to the runner. -/
def Memory.batch (m : Memory) : Action → List Task
  | .recvPut =>
    match m.rollout with
    | .put _ _ rolloutTasks => rolloutTasks
    | _ => []
  | _ => []

variable (weight spent) in
theorem runnerLoad_step (indexed : Indexed m.curQ) (distinct : (Assoc.keys m.offlineThingTasks).Nodup)
    (counted : ∀ jobId context, Assoc.get jobId m.contexts = some context →
      isJobToTerminal context.status = false → spent jobId = false)
    (taken : resume now m reply a = some m') :
    m'.runnerLoad weight spent ≤
      m.runnerLoad weight spent + tally (Memory.waitingLoad weight spent) (m.batch a) := by
  have moved := resume_event taken
  split at moved
  · rename_i e event
    obtain ⟨own, happened, same⟩ := moved
    have batch : e.batch = m.batch a := by
      cases a with
      | recvPut =>
        obtain ⟨i, l, rolloutTasks, idle, sender, -⟩ := resume_recvPut taken
        simp only [Action.event, sender, Option.some.injEq] at event
        subst event
        simp only [RunnerEvent.batch, Memory.batch, sender]
      | recvEndDelete =>
        simp only [Action.event, Option.map_eq_some_iff] at event
        obtain ⟨v, -, rfl⟩ := event
        rfl
      | recvDelete i =>
        simp only [Action.event] at event
        split at event <;> cases event
        rfl
      | sysOp | sysOpTick | connect | recvSent =>
        cases event
        rfl
      | _ => cases event
    rw [runnerLoad_congr same, ← batch]
    refine runnerLoad_event indexed distinct ?_ happened
    rintro contexts online accepted rfl
    cases a with
    | sysOp =>
      cases event
      exact counted
    | recvPut =>
      simp only [Action.event] at event
      split at event <;> cases event
    | recvEndDelete =>
      simp only [Action.event, Option.map_eq_some_iff] at event
      obtain ⟨v, -, other⟩ := event
      cases other
    | recvDelete i =>
      simp only [Action.event] at event
      split at event <;> cases event
    | _ => cases event
  · exact Nat.le_add_right_of_le (Nat.le_of_eq (runnerLoad_congr moved))

/-- Nothing of a job that is over for good comes to life without a new token. -/
theorem spent_step {jobId : String} (gone : m.spent jobId = true)
    (unminted : m.minted jobId reply a = 0) (taken : resume now m reply a = some m') :
    m'.spent jobId = true := by
  simp only [Memory.spent, Bool.and_eq_true, decide_eq_true_eq, List.all_eq_true, Bool.or_eq_true]
    at gone ⊢
  obtain ⟨⟨barred, none⟩, ended⟩ := gone
  have items : ∀ v ∈ m.pendingJobs, v.context.jobId = jobId → isJobToTerminal v.context.status = true :=
    fun v member named => (ended v member).resolve_left (by simp [named])
  have makers := (tokens_step jobId taken).1
  have no_closure : ∀ {i : Nat} {closure : Closure}, m.closures[i]? = some closure →
      closure.makes jobId = 0 := by
    intro i closure found
    have counted := le_tally (Closure.makes jobId) (List.mem_of_getElem? found)
    rw [Memory.makers] at none
    omega
  refine ⟨⟨barred_of_contextAfter barred (resume_contexts jobId taken) items, by omega⟩, fun v member => ?_⟩
  suffices fine : v.context.jobId = jobId → isJobToTerminal v.context.status = true by
    by_cases named : v.context.jobId = jobId
    · exact .inr (fine named)
    · exact .inl named
  intro named
  cases resume_items taken member with
  | kept _ old _ present same => rw [same] at named ⊢; exact items old present named
  | checked _ _ _ _ old _ found => exact items old (List.mem_of_getElem? found) named
  | starts _ _ _ old _ found _ waits =>
    have going := items old (List.mem_of_getElem? found) named
    rw [waits] at going
    cases going
  | ended => rfl
  | reloaded _ _ _ old _ _ found => exact items old (List.mem_of_getElem? found) named
  | updated _ old _ present => exact items old present named
  | received i _ here =>
    have counted := no_closure here
    simp [Closure.makes, named] at counted
  | preloaded _ other j tasks rest here =>
    have named : other = jobId := named
    rw [Memory.makers, here] at none
    simp only [RolloutPc.makes, tally_cons, named, if_true] at none
    omega

end

/-- Everything that can still be submitted or was submitted. -/
def Memory.load (m : Memory) : Nat := m.centerLoad weight + m.runnerLoad weight fun jobId => m.spent jobId

/-- Something of an earlier job with the id is left. -/
def Lingers (jobId : String) (m : Memory) : Prop :=
  m.tokens jobId ≠ 0 ∨ ∃ t ∈ getTasks m.curQ ++ m.parked, t.jobId = jobId

section

variable {s s' : State} {a : Action}

variable {weight}

theorem tokens_unstarted {m : Memory} (idle : Unstarted m) (here : m.rollout = .loadJobs) (jobId : String) :
    m.tokens jobId = 0 := by
  have nothing : m.pendingJobs = [] := idle.pending (by rw [here]; rfl)
  simp [Memory.tokens, Memory.makers, idle.calls, idle.closures, nothing, here, RolloutPc.makes]

/-- A job has one token at most when it is created without any left. -/
theorem single_step {jobId : String} (grounded : Grounded s) (single : s.memory.tokens jobId ≤ 1)
    (fresh : Creates jobId s a → s.memory.tokens jobId = 0) (taken : step s a = some s') :
    s'.memory.tokens jobId ≤ 1 := by
  have added := (tokens_step jobId (step_resume taken)).2
  by_cases none : s.memory.minted jobId (access s a).2 a = 0
  · omega
  · obtain ⟨once, creates | ⟨⟨ok, rfl⟩, here⟩⟩ := minted_cases grounded.jobs none
    · have before := fresh creates
      omega
    · have before := tokens_unstarted (grounded.unstarted (by rw [here]; rfl)) here jobId
      omega

theorem mem_parked_iff {m : Memory} {t : Task} :
    t ∈ m.parked ↔ ∃ entry ∈ m.offlineThingTasks, t ∈ entry.2 := by
  simp [Memory.parked, List.mem_flatMap]

variable (weight) in
/-- The batch is weighed in the runner as it was in the center. -/
theorem batch_le {i l : Nat} {rolloutTasks : List Task} {v : PendingJobItem} (grounded : Grounded s)
    (staged : Staged s.memory) (single : ∀ jobId taskId, weight jobId taskId ≠ 0 → s.memory.tokens jobId ≤ 1)
    (sender : s.memory.rollout = .put i l rolloutTasks) (found : s.memory.pendingJobs[i]? = some v) :
    tally (Memory.waitingLoad weight fun jobId => s.memory.spent jobId) rolloutTasks ≤
      batchLoad weight v rolloutTasks := by
  obtain ⟨v', found', home⟩ := grounded.home.put i l rolloutTasks sender
  rw [found] at found'
  cases found'
  by_cases ended : isJobToTerminal v.context.status = true
  · -- the batch of a job that ends will be dropped
    refine Nat.le_trans (Nat.le_of_eq (tally_eq_zero_iff.mpr fun t member => ?_)) (Nat.zero_le _)
    by_cases counts : weight t.jobId t.taskId = 0
    · have less := waitingLoad_le weight (fun jobId => s.memory.spent jobId) t
      omega
    · have one := single t.jobId t.taskId counts
      rw [home t member] at one
      have here := le_tally (PendingJobItem.about v.context.jobId) (List.mem_of_getElem? found)
      simp only [PendingJobItem.about, if_true] at here
      have only : ∀ u ∈ s.memory.pendingJobs, u.context.jobId = v.context.jobId → u = v := by
        intro u present named
        obtain ⟨k, place⟩ := List.getElem?_of_mem present
        have same := tally_unique (PendingJobItem.about v.context.jobId)
          (by rw [Memory.tokens] at one; omega) place found (by simp [PendingJobItem.about, named])
          (by simp [PendingJobItem.about])
        rw [same, found] at place
        exact (Option.some.inj place).symm
      have spent : s.memory.spent v.context.jobId = true := by
        simp only [Memory.spent, Bool.and_eq_true, decide_eq_true_eq, List.all_eq_true, Bool.or_eq_true]
        refine ⟨⟨staged.published i l _ v sender found ended, ?_⟩, fun u present => ?_⟩
        · rw [Memory.tokens] at one
          omega
        · by_cases named : u.context.jobId = v.context.jobId
          · exact .inr (only u present named ▸ ended)
          · exact .inl named
      rw [Memory.waitingLoad, home t member, spent]
      rfl
  · have same : batchLoad weight v rolloutTasks =
        tally (fun t => weight v.context.jobId t.taskId) rolloutTasks := by
      simp [batchLoad, tasksLoad, ended]
    rw [same]
    refine tally_mono fun t member => ?_
    rw [← home t member]
    exact waitingLoad_le weight _ t

/-- The rows that a creation reads back are among those it asked for. -/
theorem reads_step {i : Nat} {ok : Bool} {context : JobContext} {taskIds : List Int}
    {rows : List (Int × TaskEntity)} (grounded : Grounded s)
    (here : s.memory.closures[i]? = some (.readTasks context taskIds))
    (replied : (access s (.run i ok)).2 = .tasks rows) :
    tasksLoad weight context.jobId (toTasks rows) ≤ tally (weight context.jobId) taskIds := by
  obtain ⟨op, sent, -, exec⟩ := replied_of_ne_failed (s := s) (a := .run i ok) (by simp [replied])
  rw [replied] at exec
  have asked := request_of_requests sent
  simp only [request, here, bind, Option.bind_some, Memory.closureOp, Option.some.injEq] at asked
  subst asked
  cases exec
  have distinct : ((s.db.tasks.filter fun row => row.1 ∈ taskIds).map Prod.fst).Nodup :=
    grounded.known.keyed.sublist (List.filter_sublist.map Prod.fst)
  have among : (s.db.tasks.filter fun row => row.1 ∈ taskIds).map Prod.fst ⊆ taskIds := by
    intro taskId listed
    obtain ⟨row, selected, rfl⟩ := List.mem_map.mp listed
    exact of_decide_eq_true (List.mem_filter.mp selected).2
  have less := tally_subset (weight context.jobId) distinct among
  rw [tally_map] at less
  rw [tasksLoad, toTasks, tally_map]
  exact less

variable (weight) in
/-- A step submits what was there, and adds what comes from the database. -/
theorem load_step (grounded : Grounded s) (staged : Staged s.memory)
    (single : ∀ jobId taskId, weight jobId taskId ≠ 0 → s.memory.tokens jobId ≤ 1)
    (fresh : ∀ jobId taskId, weight jobId taskId ≠ 0 → Creates jobId s a → ¬Lingers jobId s.memory)
    (taken : step s a = some s') :
    s'.memory.load weight ≤ s.memory.load weight + s.memory.arriving weight (access s a).2 a := by
  have resumed := step_resume taken
  have frame := step_frame taken
  have counted : ∀ jobId context, Assoc.get jobId s.memory.contexts = some context →
      isJobToTerminal context.status = false → s.memory.spent jobId = false := by
    intro jobId context found going
    simp [Memory.spent, Memory.barred, found, going]
  have runner := runnerLoad_step weight (fun jobId => s.memory.spent jobId)
    grounded.known.indexed staged.parked counted resumed
  -- what is over for good stays so for every task that waits in the runner
  have lighter : s'.memory.runnerLoad weight (fun jobId => s'.memory.spent jobId) ≤
      s'.memory.runnerLoad weight fun jobId => s.memory.spent jobId := by
    refine Nat.add_le_add_right (tally_mono fun t member => ?_) _
    by_cases counts : weight t.jobId t.taskId = 0
    · have less := waitingLoad_le weight (fun jobId => s'.memory.spent jobId) t
      omega
    · cases gone : s.memory.spent t.jobId with
      | false =>
        have less := waitingLoad_le weight (fun jobId => s'.memory.spent jobId) t
        simpa [Memory.waitingLoad, gone] using less
      | true =>
        have unminted : s.memory.minted t.jobId (access s a).2 a = 0 := by
          by_contra minted
          obtain ⟨-, creates | ⟨⟨ok, rfl⟩, here⟩⟩ := minted_cases grounded.jobs minted
          · refine fresh _ _ counts creates (.inr ⟨t, ?_, rfl⟩)
            obtain ⟨k, operation, things, scheduling, rollout, timeout, rfl, -⟩ := creates
            rw [Memory.parked, ← frame.curQ rfl, ← frame.offlineThingTasks rfl]
            exact member
          · have idle := grounded.unstarted (by rw [here]; rfl)
            rw [frame.curQ rfl, Memory.parked, frame.offlineThingTasks rfl] at member
            rcases List.mem_append.mp member with queued | parked
            · exact idle.runner.queue t queued
            · obtain ⟨entry, present, within⟩ := List.mem_flatMap.mp parked
              exact idle.runner.offline entry present t within
        have still := spent_step gone unminted resumed
        simp [Memory.waitingLoad, still]
  rw [Memory.load, Memory.load]
  by_cases puts : a = .recvPut
  · subst puts
    obtain ⟨i, l, rolloutTasks, idle, sender, -⟩ := resume_recvPut resumed
    obtain ⟨v, found, -⟩ := grounded.home.put i l rolloutTasks sender
    have center := centerLoad_put weight sender found resumed
    have batch := batch_le weight grounded staged single sender found
    have same : s.memory.batch .recvPut = rolloutTasks := by simp only [Memory.batch, sender]
    rw [same] at runner
    omega
  · have center := centerLoad_step weight staged resumed
      fun i ok context taskIds rows same here replied => reads_step grounded here (same ▸ replied)
    have nothing : s.memory.batch a = [] := by
      cases a <;> first | rfl | exact absurd rfl puts
    rw [nothing, tally_nil] at runner
    omega

end

end Tio.Job
