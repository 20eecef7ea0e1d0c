import Tio.Job.Stored

namespace Tio.Job

open Tio.Core TaskQueue

/-- The job is completed when its tasks are over. -/
def isOpen : Status → Bool
  | .waiting | .inProgress => true
  | _ => false

/-- The job whose tasks the check found to be over. -/
def WatchPc.judged : WatchPc → Option String
  | .getJob jobId _ | .finish jobId _ _ | .forget jobId _ | .sendRemove jobId _ => some jobId
  | _ => none

/-- The item that the loop may have left without tasks. -/
def RolloutPc.emptied : RolloutPc → Option Nat
  | .timeout i _ _ _ | .publish i _ | .put i _ _ | .rolled i _ _ | .clear i _ => some i
  | _ => none

/-- The item is for an open job, and it has no tasks. -/
def PendingJobItem.Hollow (v : PendingJobItem) : Prop :=
  v.tasks = [] ∧ isOpen v.context.status = true

/-- Only jobs that are gone have a hollow item, but for the one that the loop is at. -/
structure Filled (gone : String → Prop) (m : Memory) : Prop where
  items : ∀ k v, m.pendingJobs[k]? = some v → v.Hollow → m.rollout.emptied = some k ∨ gone v.context.jobId
  finish : ∀ i l v, m.rollout = .finish i l → m.pendingJobs[i]? = some v →
    isOpen v.context.status = true → gone v.context.jobId

section

variable {now : Int} {m m' : Memory} {reply : Reply} {a : Action} {gone : String → Prop}

/-- The other items, when the loop is at one. -/
theorem Filled.others (filled : Filled gone m) {i : Nat}
    (at_most : m.rollout.emptied = none ∨ m.rollout.emptied = some i) :
    ∀ k v, k ≠ i → m.pendingJobs[k]? = some v → v.Hollow → gone v.context.jobId := by
  intro k v apart found hollow
  rcases filled.items k v found hollow with here | gone
  · rcases at_most with none | one
    · rw [none] at here
      cases here
    · rw [one] at here
      exact absurd (Option.some.inj here).symm apart
  · exact gone

theorem items_set {i : Nat} {v' : PendingJobItem}
    (others : ∀ k v, k ≠ i → m.pendingJobs[k]? = some v → v.Hollow → gone v.context.jobId)
    (own : m'.rollout.emptied = some i ∨ (v'.Hollow → gone v'.context.jobId)) :
    ∀ k v, (m.pendingJobs.set i v')[k]? = some v → v.Hollow →
      m'.rollout.emptied = some k ∨ gone v.context.jobId := by
  intro k v found hollow
  rw [List.getElem?_set] at found
  split at found
  · rename_i same
    split at found <;> cases found
    exact own.imp (fun here => same ▸ here) fun rest => rest hollow
  · rename_i apart
    exact .inr (others k v (Ne.symm apart) found hollow)

theorem Filled.of_set {i : Nat} {v' : PendingJobItem}
    (others : ∀ k v, k ≠ i → m.pendingJobs[k]? = some v → v.Hollow → gone v.context.jobId)
    (pending : m'.pendingJobs = m.pendingJobs.set i v')
    (own : m'.rollout.emptied = some i ∨ (v'.Hollow → gone v'.context.jobId))
    (finish : ∀ k l, m'.rollout ≠ .finish k l) : Filled gone m' :=
  ⟨pending ▸ items_set others own, fun k l _ here => absurd here (finish k l)⟩

theorem Filled.of_erase {i : Nat}
    (others : ∀ k v, k ≠ i → m.pendingJobs[k]? = some v → v.Hollow → gone v.context.jobId)
    (pending : m'.pendingJobs = m.pendingJobs.eraseIdx i)
    (finish : ∀ k l, m'.rollout ≠ .finish k l) : Filled gone m' := by
  refine ⟨fun k v found hollow => .inr ?_, fun k l v here => absurd here (finish k l)⟩
  rw [pending, List.getElem?_eraseIdx] at found
  split at found
  · exact others k v (by omega) found hollow
  · exact others (k + 1) v (by omega) found hollow

theorem Filled.of_same (filled : Filled gone m) (pending : m'.pendingJobs = m.pendingJobs)
    (stop : ∀ k, m.rollout.emptied = some k → m'.rollout.emptied = some k)
    (finish : ∀ k l, m'.rollout ≠ .finish k l) : Filled gone m' := by
  refine ⟨fun k v found hollow => ?_, fun k l v here => absurd here (finish k l)⟩
  exact (filled.items k v (pending ▸ found) hollow).imp_left (stop k)

/-- An open job whose loop drained nothing had nothing. -/
theorem tasks_of_drained {v : PendingJobItem} (opened : isOpen v.context.status = true)
    (nothing : drained v = []) : v.tasks = [] := by
  have going : isJobToTerminal v.context.status = false := by
    cases status : v.context.status <;> simp_all [isOpen, isJobToTerminal]
  simpa [drained, going] using nothing

open Memory in
theorem filled_rolls (filled : Filled gone m) (rolls : Rolls now reply m m') :
    Filled gone m' := by
  cases rolls with
  | jobsLoaded _ here | tasksLoaded _ _ here | started here | terminated _ _ _ here | passed _ _ here
  | runs _ _ _ here | outside _ _ _ here | early _ _ _ here | tasksEnded _ _ here
  | endFailed _ _ _ here | endForced _ _ _ here | endKept _ _ _ here | reloadFailed _ _ here =>
    exact filled.of_same rfl (by simp [here, RolloutPc.emptied]) (by simp [goto])
  | preloaded jobId j tasks rest here something =>
    refine ⟨fun k v found hollow => ?_, by simp⟩
    rw [List.getElem?_append] at found
    split at found
    · rcases filled.items k v found hollow with other | gone
      · rw [here] at other
        cases other
      · exact .inr gone
    · rw [List.getElem?_singleton] at found
      split at found <;> cases found
      exact absurd hollow.1 something
  | starts i l v here inside found inTime waits =>
    refine .of_set (filled.others (.inl (by rw [here]; rfl))) rfl (.inr fun hollow => ?_) (by simp [goto])
    have before : v.Hollow := ⟨hollow.1, by rw [waits]; rfl⟩
    exact (filled.items i v found before).resolve_left (by simp [here, RolloutPc.emptied])
  | empty i l v here found nothing =>
    have others := filled.others (i := i) (.inl (by rw [here]; rfl))
    have own : isOpen v.context.status = true → gone v.context.jobId := by
      intro opened
      exact (filled.items i v found ⟨tasks_of_drained opened nothing, opened⟩).resolve_left
        (by simp [here, RolloutPc.emptied])
    refine ⟨items_set others (.inr fun hollow => own hollow.2), fun k l' u stop place opened => ?_⟩
    cases stop
    have place : (m.pendingJobs.set i (v.withTasks []))[i]? = some u := place
    rw [getElem?_set_found found] at place
    cases place
    exact own opened
  | filled i l v here found | stopped i l v config here found | reloaded i l v rows here found =>
    exact .of_set (filled.others (.inl (by rw [here]; rfl))) rfl (.inl rfl) (by simp [goto])
  | finished i l here => exact filled.of_same rfl (by simp [here, RolloutPc.emptied]) (by simp [goto])
  | kept i l v here found | cleared i l v here found | rolledOut i l count v here found =>
    exact .of_erase (filled.others (.inr (by rw [here]; rfl))) rfl (by simp [goto])
  | ended i l v config here found =>
    refine .of_set (filled.others (.inl (by rw [here]; rfl))) rfl (.inr fun hollow => ?_) ?_
    · cases hollow.2
    · simp only [goto]
      split <;> simp
  | unlimited i l tasks remain v here found =>
    exact filled.of_same rfl (by simp [here, RolloutPc.emptied, goto]) (by simp [goto])
  | timedOut i l t rest remain v minutes here found | remains i l t rest remain v minutes here found =>
    exact filled.of_same rfl (by simp [here, RolloutPc.emptied, goto]) (by simp [goto])
  | checked i l remain v minutes here found =>
    refine .of_set (filled.others (.inr (by rw [here]; rfl))) rfl (.inl ?_) ?_
    · simp only [goto]
      split <;> rfl
    · simp only [goto]
      split <;> simp
  | published i l v here found =>
    refine .of_set (filled.others (.inr (by rw [here]; rfl))) rfl (.inl ?_) ?_
    · simp only [goto]
      split <;> rfl
    · simp only [goto]
      split <;> simp
  | rolled i l count v here found left =>
    refine .of_set (filled.others (.inr (by rw [here]; rfl))) rfl (.inr fun hollow => ?_) (by simp [goto])
    exact absurd hollow.1 left

/-- An item that comes without tasks is for a job that is gone. -/
theorem filled_step (filled : Filled gone m) (taken : resume now m reply a = some m')
    (adding : ∀ item, .addPendingJob item ∈ m.closures → item.tasks = [] → gone item.context.jobId) :
    Filled gone m' := by
  have frame := resume_frame taken
  have swept : ∀ {other : String} {force : Bool} {received : Memory}, m.rollout = .select →
      m.receiveRemove other force = some received → Filled gone received := by
    intro other force received idle removed
    have still := (Memory.receiveRemove_frame removed).2.2.2
    obtain ⟨rest, forget, left, rfl⟩ := receiveRemove_cases removed
    refine ⟨fun k v found hollow => .inr ?_, by simp [idle]⟩
    have before := (filled_removePendingJob left (List.mem_of_getElem? found)).resolve_right (· hollow.1)
    obtain ⟨i, place⟩ := List.getElem?_of_mem before
    exact (filled.items i v place hollow).resolve_left (by simp [idle, RolloutPc.emptied])
  cases a with
  | rollout ok => exact filled_rolls filled (Memory.rolls_of_rolloutNext taken)
  | rolloutTick =>
    simp only [resume] at taken
    split at taken
    · rename_i idle
      cases taken
      exact filled.of_same rfl (by simp [idle, RolloutPc.emptied]) (by simp [Memory.startPass, Memory.goto])
    · cases taken
  | recvPending i =>
    obtain ⟨item, idle, sender, rfl⟩ := resume_recvPending taken
    refine ⟨fun k v found hollow => .inr ?_, by simp [Memory.startPass, Memory.goto]⟩
    have found : (m.pendingJobs ++ [item])[k]? = some v := found
    rcases List.mem_append.mp (List.mem_of_getElem? found) with old | fresh
    · obtain ⟨i, place⟩ := List.getElem?_of_mem old
      exact (filled.items i v place hollow).resolve_left (by simp [idle, RolloutPc.emptied])
    · cases List.mem_singleton.mp fresh
      exact adding _ (List.mem_of_getElem? sender) hollow.1
  | recvUpdate i =>
    obtain ⟨other, timeout, idle, sender, rfl⟩ := resume_recvUpdate taken
    rcases updateContext_cases other timeout m with same | ⟨k, v, timeout', found, named, same⟩
    · rw [same]
      exact filled.of_same rfl (by simp [idle, RolloutPc.emptied]) (by simp [Memory.startPass, Memory.goto])
    · rw [same]
      refine .of_set (filled.others (.inl (by rw [idle]; rfl))) rfl (.inr fun hollow => ?_)
        (by simp [Memory.startPass, Memory.goto])
      exact (filled.items k v found hollow).resolve_left (by simp [idle, RolloutPc.emptied])
  | recvRemove i =>
    obtain ⟨r, operation, other, force, received, idle, sender, removal, removed, rfl⟩ :=
      resume_recvRemove taken
    have left := swept idle removed
    exact ⟨left.items, left.finish⟩
  | recvFinished =>
    obtain ⟨other, todo, received, idle, sender, removed, rfl⟩ := resume_recvFinished taken
    have left := swept idle removed
    exact ⟨left.items, left.finish⟩
  | recvPut =>
    obtain ⟨i, l, rolloutTasks, idle, sender, rfl⟩ := resume_recvPut taken
    exact filled.of_same rfl (by simp [sender, RolloutPc.emptied]) (by simp)
  | recvEndDelete =>
    obtain ⟨i, l, v, idle, sender, found, rfl⟩ := resume_recvEndDelete taken
    have same := (Memory.deleteTask_frame (.job v.context.jobId) m).1.pendingJobs
    exact filled.of_same same (by simp [sender, RolloutPc.emptied]) (by simp [Memory.goto])
  | _ =>
    refine ⟨fun k v found hollow => ?_, fun i l v here found => ?_⟩
    · rw [frame.rollout rfl]
      exact filled.items k v (frame.pendingJobs rfl ▸ found) hollow
    · exact filled.finish i l v (frame.rollout rfl ▸ here) (frame.pendingJobs rfl ▸ found)

theorem Filled.mono {gone' : String → Prop} (filled : Filled gone m)
    (weaker : ∀ v ∈ m.pendingJobs, gone v.context.jobId → gone' v.context.jobId) : Filled gone' m :=
  ⟨fun k v found hollow => (filled.items k v found hollow).imp_right (weaker v (List.mem_of_getElem? found)),
    fun i l v here found opened =>
      weaker v (List.mem_of_getElem? found) (filled.finish i l v here found opened)⟩

end

section

variable {s s' : State} {a : Action} {jobId : String}

/-- The statuses that are counted are those of all tasks of the job. -/
theorem allOver_of_counted {now : Int} {db : Db} {op : DbOp} {found : List TaskStatus}
    (sent : op = .countTaskStatus jobId) (replied : (op.exec now db).2 = .statuses found)
    (terminal : found.all isTaskTerminal = true) : AllOver jobId db := by
  subst sent
  cases replied
  intro row member here
  refine List.all_eq_true.mp terminal _ ?_
  rw [List.mem_eraseDups]
  exact List.mem_map.mpr ⟨row, List.mem_filter.mpr ⟨member, by simp [here]⟩, rfl⟩

/-- The creation of the job is on its way to its tasks. -/
def Creating (jobId : String) (m : Memory) : Prop :=
  ∃ (k : Nat) (context : JobContext) (things : List String),
    m.closures[k]? = some (.submitted (.createJob context things)) ∧ context.jobId = jobId

theorem names_of_judged {pc : WatchPc} (judged : jobId ∈ pc.judged) : jobId ∈ pc.names := by
  cases pc with
  | select | count => cases judged
  | _ =>
    cases judged
    exact List.mem_cons_self

/-- The tasks of a job that is judged stay over, as long as no tasks are created for it. -/
theorem judged_step (keyed : Keyed s.db) (taken : step s a = some s')
    (judged : jobId ∈ s.memory.watch.judged → AllOver jobId s.db)
    (apart : Creating jobId s.memory → jobId ∉ s.memory.watch.names)
    (here : jobId ∈ s'.memory.watch.judged) : AllOver jobId s'.db := by
  have onward : AllOver jobId s.db → jobId ∈ s.memory.watch.names → AllOver jobId s'.db := by
    intro settled named
    refine allOver_step keyed taken settled fun k context things creating same => ?_
    exact apart ⟨k, context, things, creating, same⟩ named
  have kept : jobId ∈ s.memory.watch.judged → AllOver jobId s'.db :=
    fun before => onward (judged before) (names_of_judged before)
  have frame := step_frame taken
  have resumed := step_resume taken
  cases a with
  | watch ok =>
    generalize s'.memory = m' at resumed here
    cases Memory.watches_of_watchNext resumed with
    | terminal other todo found stop replied all =>
      cases here
      obtain ⟨op, sent, -, exec⟩ := replied_of_ne_failed (s := s) (a := .watch ok) (by simp [replied])
      have asked := request_of_requests sent
      simp only [request, Memory.watchOp, stop, Option.some.injEq] at asked
      rw [replied] at exec
      exact onward (allOver_of_counted asked.symm exec all) (by rw [stop]; exact List.mem_cons_self)
    | told other todo j stop | missing other todo stop | finished other status todo stop
    | forgets other todo stop =>
      cases here
      exact kept (by rw [stop]; rfl)
    | done | skipped | unanswered => cases here
  | watchTick order =>
    generalize s'.memory = m' at resumed here
    simp only [resume] at resumed
    split at resumed
    · split at resumed <;> cases resumed
      cases here
    · cases resumed
  | recvFinished =>
    obtain ⟨other, todo, received, idle, sender, removed, same⟩ := resume_recvFinished resumed
    rw [same] at here
    cases here
  | _ => exact kept (frame.watch rfl ▸ here)

theorem terminal_of_not_pending {status : TaskStatus} (settled : isTaskPending status = false) :
    isTaskTerminal status = true := by
  cases status <;> first | rfl | cases settled

/-- The preload has no task of a job exactly when all of them are over. -/
theorem allOver_of_loaded {db : Db} {now : Int} {jobs : List (String × JobEntity)} {told : JobEntity}
    {rows : List (Int × TaskEntity)} (listed : (jobId, told, []) ∈ Memory.loaded jobs rows)
    (replied : ((DbOp.pendingTasks (jobs.map Prod.fst)).exec now db).2 = .tasks rows) :
    AllOver jobId db := by
  cases replied
  obtain ⟨⟨id, j⟩, member, same⟩ := List.mem_map.mp listed
  simp only [Prod.mk.injEq, toTasks, List.map_eq_nil_iff, List.filter_eq_nil_iff] at same
  obtain ⟨rfl, -, none⟩ := same
  intro row present here
  refine terminal_of_not_pending (eq_false_of_ne_true fun pending => ?_)
  refine none row (List.mem_filter.mpr ⟨present, ?_⟩) (by simp [here])
  rw [pending, here, Bool.and_true]
  exact decide_eq_true (List.mem_map.mpr ⟨_, member, rfl⟩)

/-- Before the start the tasks of a job that the preload gives up are over. -/
theorem preload_step (grounded : Grounded s) (taken : step s a = some s')
    (settled : ∀ jobs, s.memory.rollout = .preload jobs → ∀ jobId told, (jobId, told, []) ∈ jobs →
      AllOver jobId s.db) :
    ∀ jobs, s'.memory.rollout = .preload jobs → ∀ jobId told, (jobId, told, []) ∈ jobs →
      AllOver jobId s'.db := by
  intro jobs here jobId told listed
  have resumed := step_resume taken
  have waits : s.memory.rollout.started = false := by
    by_contra started
    have after := started_of_step (by simpa using started) resumed
    rw [here] at after
    cases after
  have idle := grounded.unstarted waits
  have onward : AllOver jobId s.db → AllOver jobId s'.db := fun before =>
    allOver_step grounded.known.keyed taken before (by simp [idle.closures])
  rcases still_unstarted waits resumed with ⟨ok, rfl⟩ | ⟨still, -⟩
  · generalize s'.memory = m' at resumed here
    cases Memory.rolls_of_rolloutNext resumed with
    | tasksLoaded first rows stop replied =>
      cases here
      obtain ⟨op, sent, -, exec⟩ := replied_of_ne_failed (s := s) (a := .rollout ok) (by simp [replied])
      have asked := request_of_requests sent
      simp only [request, Memory.rolloutOp, stop, Option.some.injEq] at asked
      subst asked
      exact onward (allOver_of_loaded listed (exec.trans replied))
    | terminated other j rest stop | preloaded other j tasks rest stop =>
      cases here
      exact onward (settled _ stop jobId told (List.mem_cons_of_mem _ listed))
    | _ => simp_all [RolloutPc.started, Memory.goto]
  · exact onward (settled jobs (still ▸ here) jobId told listed)

/-- A job that is gone stays so, unless it is created again. -/
theorem gone_step (taken : step s a = some s') (gone : Assoc.get jobId s.db.jobs = none)
    (other : ¬Creates jobId s a) : Assoc.get jobId s'.db.jobs = none := by
  cases stored' : Assoc.get jobId s'.db.jobs with
  | none => rfl
  | some j' =>
    cases step_row taken stored' with
    | kept j stored | canceled j stored | written j stored =>
      rw [gone] at stored
      cases stored
    | created creates => exact absurd creates other

theorem tokens_of_closure {m : Memory} {closure : Closure} (member : closure ∈ m.closures)
    (makes : closure.makes jobId = 1) : m.tokens jobId ≠ 0 := by
  have counted := le_tally (Closure.makes jobId) member
  rw [Memory.tokens, Memory.makers]
  omega

/-- An item comes with the tasks that were stored for it, unless the job is gone. -/
structure Brought (s : State) : Prop where
  adding : ∀ item, .addPendingJob item ∈ s.memory.closures → item.tasks = [] →
    Assoc.get item.context.jobId s.db.jobs = none
  reading : ∀ context taskIds, .readTasks context taskIds ∈ s.memory.closures →
    Assoc.get context.jobId s.db.jobs = none ∨ ∃ row ∈ s.db.tasks, row.1 ∈ taskIds

theorem brought_step (grounded : Grounded s) (undeleted : Undeleted s.memory) (brought : Brought s)
    (fresh : ∀ jobId, Creates jobId s a → s.memory.tokens jobId = 0) (taken : step s a = some s') :
    Brought s' := by
  have still : ∀ {closure : Closure} {jobId : String}, closure ∈ s.memory.closures →
      closure.makes jobId = 1 → Assoc.get jobId s.db.jobs = none → Assoc.get jobId s'.db.jobs = none :=
    fun member makes gone => gone_step taken gone fun creates =>
      tokens_of_closure member makes (fresh _ creates)
  have resumed := step_resume taken
  constructor
  · intro item member nothing
    cases resume_closures resumed member with
    | before _ _ old => exact still old (if_pos rfl) (brought.adding item old nothing)
    | next i ok closure _ here continues =>
      have listed := List.mem_of_getElem? here
      cases Memory.runs_of_closureNext continues with
      | loaded context taskIds rows replied =>
        refine still listed (if_pos rfl) ((brought.reading context taskIds listed).resolve_right ?_)
        rintro ⟨row, present, asked⟩
        obtain ⟨op, sent, -, exec⟩ := replied_of_ne_failed (s := s) (a := .run i ok) (by simp [replied])
        have request := request_of_requests sent
        simp only [Tio.Job.request, here, bind, Option.bind_some, Memory.closureOp, Option.some.injEq]
          at request
        subst request
        have rows_eq := exec.trans replied
        cases rows_eq
        have none : (s.db.tasks.filter fun row => row.1 ∈ taskIds) = [] := List.map_eq_nil_iff.mp nothing
        rw [List.filter_eq_nil_iff] at none
        exact none row present (by simpa using asked)
  · intro context taskIds member
    cases resume_closures resumed member with
    | before _ _ old =>
      rcases brought.reading context taskIds old with gone | ⟨row, present, asked⟩
      · exact .inl (still old (if_pos rfl) gone)
      · cases stored' : Assoc.get context.jobId s'.db.jobs with
        | none => exact .inl rfl
        | some j' =>
          have named := (grounded.reading context taskIds old).2.2 row present asked
          obtain ⟨row', present', same⟩ := rows_stay_step undeleted taken present (named ▸ stored')
          exact .inr ⟨row', present', same ▸ asked⟩
    | next i ok closure _ here continues =>
      obtain ⟨things, rfl, replied⟩ := created_of_reads continues
      obtain ⟨k, ok', context', things', same, here', -, filled, db, replied'⟩ :=
        step_of_stores taken ⟨i, ok, context, things, taskIds, rfl, here, rfl, replied⟩
      cases same
      rw [here] at here'
      cases here'
      rw [replied] at replied'
      cases replied'
      rw [db]
      cases things with
      | nil => exact absurd rfl filled
      | cons thing rest =>
        refine .inr ⟨_, List.mem_append_right _ List.mem_cons_self, ?_⟩
        exact List.mem_map.mpr ⟨_, List.mem_cons_self, rfl⟩

end

/-- The creation of a job before its tasks are stored, with the things as far as they
are read. -/
inductive Early (m : Memory) (jobId : String) : Option (List String) → Prop
  | stored (k : Nat) (operation : String) (things : List String) (scheduling : Option SchedulingConfig)
      (rollout : Option RolloutConfig) (timeout : Option TimeoutConfig)
      (here : m.calls[k]? =
        some ⟨.createJob jobId operation things scheduling rollout timeout, .readBack⟩) : Early m jobId none
  | read (k : Nat) (r : Request) (context : JobContext) (things : List String)
      (here : m.calls[k]? = some ⟨r, .submit (.createJob context things)⟩)
      (named : context.jobId = jobId) : Early m jobId (some things)
  | submitted (k : Nat) (context : JobContext) (things : List String)
      (here : m.closures[k]? = some (.submitted (.createJob context things)))
      (named : context.jobId = jobId) : Early m jobId (some things)

section

variable {s s' : State} {a : Action} {jobId : String} {things : Option (List String)}

/-- The row that a call or the check reads is the stored one. -/
theorem stored_of_reply {j : JobEntity} (asks : Requests s.clock s.memory a (.getJob jobId))
    (replied : (access s a).2 = .job (some j)) : Assoc.get jobId s.db.jobs = some j := by
  obtain ⟨op, sent, -, exec⟩ := replied_of_ne_failed (s := s) (a := a) (by simp [replied])
  have same := (request_of_requests sent).symm.trans (request_of_requests asks)
  cases same
  simpa [DbOp.exec, replied] using exec

theorem early_step (grounded : Grounded s) (taken : step s a = some s') (early : Early s'.memory jobId things) :
    (∃ before, Early s.memory jobId before ∧
      (things = before ∨ ∃ j, Assoc.get jobId s.db.jobs = some j ∧ things = some j.things)) ∨
      Creates jobId s a ∧ things = none := by
  have resumed := step_resume taken
  cases early with
  | stored k operation things scheduling rollout timeout here =>
    generalize after : (⟨.createJob jobId operation things scheduling rollout timeout, .readBack⟩ : Call) = call
      at here
    cases resume_calls resumed here with
    | before _ _ _ here =>
      subst after
      exact .inl ⟨none, .stored k _ _ _ _ _ here, .inl rfl⟩
    | served _ ok old pc place continues =>
      cases serves_of_serveNext continues with
      | created _ _ _ _ _ _ replied =>
        cases after
        have minted : s.memory.minted jobId (access s (.serve k ok)).2 (.serve k ok) ≠ 0 := by
          simp [Memory.minted, place, replied]
        rcases (minted_cases grounded.jobs minted).2 with creates | ⟨⟨ok', other⟩, -⟩
        · exact .inr ⟨creates, rfl⟩
        · cases other
      | _ => cases congrArg Call.pc after
    | _ => cases after
  | read k r context things here named =>
    subst named
    generalize after : (⟨r, .submit (.createJob context things)⟩ : Call) = call at here
    cases resume_calls resumed here with
    | before _ _ _ here =>
      subst after
      exact .inl ⟨some things, .read k r context things here rfl, .inl rfl⟩
    | served _ ok old pc place continues =>
      cases serves_of_serveNext continues with
      | readBack id operation asked scheduling rollout timeout j replied =>
        cases after
        refine .inl ⟨none, .stored k _ _ _ _ _ place, .inr ⟨j, ?_, rfl⟩⟩
        exact stored_of_reply (.readBack ok k id operation _ _ _ _ place) replied
      | _ => cases congrArg Call.pc after
    | _ => cases after
  | submitted k context things here named =>
    subst named
    generalize after : (Closure.submitted (.createJob context things)) = closure at here
    cases resume_closures resumed (List.mem_of_getElem? here) with
    | before _ _ old =>
      subst after
      obtain ⟨i, place⟩ := List.getElem?_of_mem old
      exact .inl ⟨some things, .submitted i context things place rfl, .inl rfl⟩
    | submitted i ok r work place =>
      cases after
      exact .inl ⟨some things, .read i r context things place rfl, .inl rfl⟩
    | next i ok old _ place continues =>
      subst after
      cases Memory.runs_of_closureNext continues
    | _ => cases after

/-- A creation counts among the makers of the job. -/
theorem tokens_of_early {m : Memory} (early : Early m jobId things) : m.tokens jobId ≠ 0 := by
  have counted : 1 ≤ m.makers jobId := by
    cases early with
    | stored k operation things scheduling rollout timeout here =>
      have one := le_tally (Call.makes jobId) (List.mem_of_getElem? here)
      rw [Call.makes, if_pos rfl] at one
      rw [Memory.makers]
      omega
    | read k r context things here named =>
      have one := le_tally (Call.makes jobId) (List.mem_of_getElem? here)
      rw [Call.makes, if_pos named] at one
      rw [Memory.makers]
      omega
    | submitted k context things here named =>
      have one := le_tally (Closure.makes jobId) (List.mem_of_getElem? here)
      rw [Closure.makes, if_pos named] at one
      rw [Memory.makers]
      omega
  rw [Memory.tokens]
  omega

/-- With its one token spent on the tasks a job has no other creation. -/
theorem not_early_of_stores (single : s.memory.tokens jobId ≤ 1) (taken : step s a = some s')
    (stores : Stores jobId s.memory (access s a).2 a) : ¬Early s'.memory jobId things := by
  intro early
  obtain ⟨k, ok, context, made, ids, rfl, here, named, replied⟩ := stores
  have resumed := step_resume taken
  have calls := (step_frame taken).calls rfl
  have one : Closure.makes jobId (.submitted (.createJob context made)) = 1 := if_pos named
  have counted := le_tally (Closure.makes jobId) (List.mem_of_getElem? here)
  rw [Memory.tokens, Memory.makers] at single
  cases early with
  | stored i operation things scheduling rollout timeout place =>
    have more := le_tally (Call.makes jobId) (List.mem_of_getElem? (calls ▸ place))
    rw [Call.makes, if_pos rfl] at more
    omega
  | read i r other things place named' =>
    have more := le_tally (Call.makes jobId) (List.mem_of_getElem? (calls ▸ place))
    rw [Call.makes, if_pos named'] at more
    omega
  | submitted i other things place named' =>
    obtain ⟨closure, next, found, continues, same⟩ := resume_run resumed
    rw [here] at found
    cases found
    rw [same] at place
    have place : (s.memory.closures.set k next)[i]? = some (.submitted (.createJob other things)) := place
    rw [List.getElem?_set] at place
    split at place
    · split at place <;> cases place
      simp only [Memory.closureNext, replied] at continues
      cases continues
    · rename_i apart
      have weighs : 0 < Closure.makes jobId (.submitted (.createJob other things)) := by
        rw [Closure.makes, if_pos named']
        exact Nat.one_pos
      exact apart (tally_unique (Closure.makes jobId) (by omega) here place (by omega) weighs)

end

end Tio.Job
