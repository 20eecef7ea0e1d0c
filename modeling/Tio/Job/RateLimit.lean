import Mathlib.Algebra.Order.Group.Int
import Tio.Core.Window
import Tio.Job.Frame

/-! The limit of the rollout of a job. Each item of the pending list has a log of its
hand-overs to the runner, at the moments at which the runner receives them. The loop
records them later, and it looks at its record before it waits for the runner. -/

namespace Tio.Job

open Tio.Core Tio.Core.Window

/-- The logs of the pending items, in the order of the list. -/
abbrev Journal := List (List (Int × Nat))

/-- The part of an item that the limit depends on. -/
structure Rate where
  rollout : Option RolloutConfig
  stat : List (Int × Nat)

def PendingJobItem.rate (v : PendingJobItem) : Rate := ⟨v.context.rollout, v.rolloutStat⟩

/-- The places from which the items that a removal leaves come. -/
def origins (jobId : String) (force : Bool) (pending : List PendingJobItem) : List Nat :=
  match PendingSlice.sweep jobId force pending.length 0 (.ofList pending) false with
  | some (s, _) => s.slots.take s.len
  | none => []

namespace Memory

def rates (m : Memory) : List Rate := m.pendingJobs.map PendingJobItem.rate

/-- The journal after a step of the loop. An operation that is not one of the system is
handed over at once. -/
def rollJournal (now : Int) (m : Memory) (logs : Journal) : Journal :=
  match m.rollout with
  | .preload ((_, _, tasks) :: _) => if tasks.isEmpty then logs else logs ++ [[]]
  | .clear i _ => logs.eraseIdx i
  | .publish i _ =>
    match m.pendingJobs[i]? with
    | some v =>
      if isSysOp v.context.operation then logs
      else logs.modify i fun log => log ++ [(now, rolloutCount now v)]
    | none => logs
  | .rolled i _ _ =>
    match m.pendingJobs[i]? with
    | some v => if v.tasks.isEmpty then logs.eraseIdx i else logs
    | none => logs
  | _ => logs

def removeJournal (jobId : String) (force : Bool) (m : Memory) (logs : Journal) : Journal :=
  (origins jobId force m.pendingJobs).map fun place => (logs[place]?).getD []

/-- The journal after a step. The log of an item goes with it. -/
def journaled (now : Int) (m : Memory) (logs : Journal) : Action → Journal
  | .rollout _ => m.rollJournal now logs
  | .recvPending _ => logs ++ [[]]
  | .recvRemove i =>
    match (m.calls[i]?).bind fun call => call.request.removal with
    | some (jobId, force) => m.removeJournal jobId force logs
    | none => logs
  | .recvFinished =>
    match m.watch with
    | .sendRemove jobId _ => m.removeJournal jobId true logs
    | _ => logs
  | .recvPut =>
    match m.rollout with
    | .put i _ rolloutTasks => logs.modify i fun log => log ++ [(now, rolloutTasks.length)]
    | _ => logs
  | _ => logs

end Memory

def journalStep (s : State × Journal) (a : Action) : Option (State × Journal) :=
  (step s.1 a).map fun next => (next, s.1.memory.journaled s.1.clock s.2 a)

/-! What holds of an item and its log. -/

/-- Where the loop stands with an item. -/
inductive Phase where
  | idle
  | handing (count : Nat)
  | handed (count : Nat)

def RolloutPc.phase : RolloutPc → Nat → Phase
  | .put i _ rolloutTasks => fun k => if k = i then .handing rolloutTasks.length else .idle
  | .rolled i _ count => fun k => if k = i then .handed count else .idle
  | _ => fun _ => .idle

/-- What is going to be recorded. -/
def Phase.unrecorded (clock : Int) : Phase → List (Int × Nat)
  | .handed count => [(clock, count)]
  | _ => []

@[simp] theorem unrecorded_idle (clock : Int) : Phase.idle.unrecorded clock = [] := rfl

@[simp] theorem unrecorded_handing (clock : Int) (count : Nat) : (Phase.handing count).unrecorded clock = [] := rfl

@[simp] theorem unrecorded_handed (clock : Int) (count : Nat) :
    (Phase.handed count).unrecorded clock = [(clock, count)] := rfl

def minute : Int := 60000

def limitOf (config : Option RolloutConfig) : Option Nat :=
  config.bind fun config => if 0 < config.maxPerMinute then some config.maxPerMinute.toNat else none

structure Metered (clock : Int) (phase : Phase) (rate : Rate) (log : List (Int × Nat)) : Prop where
  limited : ∀ limit, limitOf rate.rollout = some limit → Limited minute limit log
  recorded : Dominated log (rate.stat ++ phase.unrecorded clock)
  room : ∀ count limit, phase = .handing count → limitOf rate.rollout = some limit →
    count = 0 ∨ ∃ looked ≤ clock, after (looked - minute) rate.stat + count ≤ limit

/-- Every pending item has its log. -/
structure Metering (clock : Int) (m : Memory) (logs : Journal) : Prop where
  length : logs.length = m.rates.length
  each : ∀ k rate log, m.rates[k]? = some rate → logs[k]? = some log → Metered clock (m.rollout.phase k) rate log

section

variable {clock later : Int} {phase : Phase} {rate : Rate} {log : List (Int × Nat)}

theorem Metered.elapse (metered : Metered clock phase rate log) (elapsed : clock ≤ later) :
    Metered later phase rate log := by
  refine ⟨metered.limited, ?_, ?_⟩
  · cases phase with
    | handed count =>
      intro a
      refine Nat.le_trans (metered.recorded a) ?_
      rw [unrecorded_handed, unrecorded_handed, since_concat, since_concat]
      refine Nat.add_le_add_left ?_ _
      by_cases before : a ≤ clock
      · rw [if_pos before, if_pos (le_trans before elapsed)]
      · rw [if_neg before]
        exact Nat.zero_le _
    | idle => exact metered.recorded
    | handing count => exact metered.recorded
  · intro count limit here limits
    refine (metered.room count limit here limits).imp_right ?_
    rintro ⟨looked, before, room⟩
    exact ⟨looked, le_trans before elapsed, room⟩

theorem metered_fresh (clock : Int) (rate : Rate) : Metered clock .idle rate [] :=
  ⟨fun limit _ => limited_nil minute limit, dominated_nil _, fun _ _ no => nomatch no⟩

/-- The runner receives what it was handed. -/
theorem Metered.received {count : Nat} (metered : Metered clock (.handing count) rate log) :
    Metered clock (.handed count) rate (log ++ [(clock, count)]) := by
  refine ⟨fun limit limits => ?_, ?_, fun _ _ no => nomatch no⟩
  · have recorded := metered.recorded
    rw [unrecorded_handing, List.append_nil] at recorded
    rcases metered.room count limit rfl limits with rfl | ⟨looked, before, room⟩
    · exact (metered.limited limit limits).concat_zero clock
    · exact (metered.limited limit limits).concat recorded before room
  · have recorded := metered.recorded
    rw [unrecorded_handing, List.append_nil] at recorded
    exact recorded.concat (le_refl clock) count

/-- The loop records what was received. -/
theorem Metered.record {count : Nat} (metered : Metered clock (.handed count) rate log) :
    Metered clock .idle ⟨rate.rollout, rate.stat ++ [(clock, count)]⟩ log := by
  refine ⟨metered.limited, ?_, fun _ _ no => nomatch no⟩
  rw [unrecorded_idle, List.append_nil]
  exact metered.recorded

end

/-- The sum that the loop compares with the limit. -/
theorem curMinuteCount_eq (now : Int) (stat : List (Int × Nat)) :
    (stat.filter fun r => now - 60000 < r.1).foldl (fun count r => count + (r.2 : Int)) 0 =
      (after (now - minute) stat : Int) := by
  have unit : minute = 60000 := rfl
  rw [unit]
  have shifted : ∀ start : Int, (stat.filter fun r => now - 60000 < r.1).foldl (fun count r => count + (r.2 : Int)) start =
      start + (after (now - 60000) stat : Int) := by
    induction stat with
    | nil => simp [after]
    | cons r rest ih =>
      intro start
      rw [List.filter_cons, after, tally_cons]
      by_cases inside : now - 60000 < r.1
      · rw [if_pos (decide_eq_true inside), List.foldl_cons, ih, if_pos inside]
        rw [after]
        omega
      · rw [if_neg (by simpa using inside), ih, if_neg inside, Nat.zero_add]
        rfl
  rw [shifted 0, Int.zero_add]

/-- The count that is computed fits under the limit. -/
theorem rolloutCount_room (now : Int) (v : PendingJobItem) {limit : Nat} (limits : limitOf v.context.rollout = some limit) :
    rolloutCount now v = 0 ∨ after (now - minute) v.rolloutStat + rolloutCount now v ≤ limit := by
  rw [limitOf] at limits
  cases configured : v.context.rollout with
  | none =>
    rw [configured] at limits
    cases limits
  | some config =>
    rw [configured, Option.bind_some] at limits
    split at limits
    · rename_i positive
      cases limits
      rw [rolloutCount, configured]
      dsimp only
      rw [if_pos positive, jobNextRolloutCount, curMinuteCount_eq]
      by_cases full : config.maxPerMinute ≤ (after (now - minute) v.rolloutStat : Int)
      · exact .inl (if_pos full)
      · rw [if_neg full]
        right
        omega
    · cases limits

/-- The loop looks at its record and goes to hand over what it may. -/
theorem Metered.look {clock : Int} {v : PendingJobItem} {log : List (Int × Nat)} (metered : Metered clock .idle v.rate log) :
    Metered clock (.handing (rolloutCount clock v)) v.rate log := by
  refine ⟨metered.limited, metered.recorded, ?_⟩
  rintro count limit ⟨rfl⟩ limits
  exact (rolloutCount_room clock v limits).imp_right fun room => ⟨clock, le_refl clock, room⟩

/-! A removal keeps what the limit depends on. -/

namespace PendingSlice

/-- The slots point to items of the list, which have kept their rates. -/
structure Traced (pending : List PendingJobItem) (s : PendingSlice) : Prop where
  size : s.cells.length = pending.length
  same : s.cells.map PendingJobItem.rate = pending.map PendingJobItem.rate
  inside : ∀ place ∈ s.slots, place < pending.length

theorem traced_ofList (pending : List PendingJobItem) : Traced pending (ofList pending) :=
  ⟨rfl, rfl, fun _ member => List.mem_range.mp member⟩

theorem map_set_same {α β : Type} {f : α → β} {xs : List α} {i : Nat} {old : α} (found : xs[i]? = some old) (new : α)
    (same : f new = f old) : (xs.set i new).map f = xs.map f := by
  rw [List.map_set, same]
  refine List.ext_getElem? fun k => ?_
  by_cases here : i = k
  · subst here
    have inside : i < (xs.map f).length := by simpa using (List.getElem?_eq_some_iff.mp found).1
    rw [List.getElem?_set_self inside, List.getElem?_map, found]
    rfl
  · rw [List.getElem?_set_ne here]

theorem Traced.delete {pending : List PendingJobItem} {index : Nat} {s s' : PendingSlice} (traced : Traced pending s)
    (deleted : s.delPendingAt index = some s') : Traced pending s' := by
  rw [delPendingAt] at deleted
  split at deleted
  · cases deleted
    refine ⟨traced.size, traced.same, fun place member => traced.inside place ?_⟩
    rcases List.mem_append.mp member with front | back
    · rcases List.mem_append.mp front with before | after
      · exact List.mem_of_mem_take before
      · exact List.mem_of_mem_take (List.mem_of_mem_drop after)
    · exact List.mem_of_mem_drop back
  · cases deleted

theorem Traced.visit {pending : List PendingJobItem} {jobId : String} {force forget : Bool} {index : Nat}
    {s s' : PendingSlice} (traced : Traced pending s) (visited : s.visit jobId force index = some (s', forget)) :
    Traced pending s' := by
  simp only [PendingSlice.visit, bind, Option.bind_eq_some_iff] at visited
  obtain ⟨cell, pointer, j, found, visited⟩ := visited
  have thin : Traced pending { s with cells := s.cells.set cell { j with tasks := ongoingTasks j.tasks } } :=
    ⟨(List.length_set).trans traced.size,
      (map_set_same found { j with tasks := ongoingTasks j.tasks } rfl).trans traced.same, traced.inside⟩
  split at visited
  · cases visited
    exact traced
  · split at visited
    · obtain ⟨rest, deleted, visited⟩ := Option.bind_eq_some_iff.mp visited
      cases visited
      exact traced.delete deleted
    · split at visited
      · obtain ⟨rest, deleted, visited⟩ := Option.bind_eq_some_iff.mp visited
        cases visited
        exact thin.delete deleted
      · cases visited
        exact thin

theorem Traced.sweep {pending : List PendingJobItem} {jobId : String} {force forget forget' : Bool} {fuel index : Nat}
    {s s' : PendingSlice} (traced : Traced pending s)
    (swept : PendingSlice.sweep jobId force fuel index s forget = some (s', forget')) : Traced pending s' := by
  induction fuel generalizing index s forget with
  | zero =>
    cases swept
    exact traced
  | succ fuel ih =>
    simp only [PendingSlice.sweep, bind, Option.bind_eq_some_iff] at swept
    obtain ⟨⟨next, more⟩, visited, swept⟩ := swept
    exact ih (traced.visit visited) swept

/-- The items of the list, slot by slot. -/
theorem Traced.toList {pending : List PendingJobItem} {s : PendingSlice} (traced : Traced pending s) :
    s.toList.map (fun v => some v.rate) =
      (s.slots.take s.len).map fun place => (pending.map PendingJobItem.rate)[place]? := by
  rw [PendingSlice.toList]
  have inside : ∀ place ∈ s.slots.take s.len, place < pending.length :=
    fun place member => traced.inside place (List.mem_of_mem_take member)
  generalize s.slots.take s.len = places at inside ⊢
  induction places with
  | nil => rfl
  | cons place rest ih =>
    have near : place < s.cells.length := by
      rw [traced.size]
      exact inside place List.mem_cons_self
    have found : s.cells[place]? = some s.cells[place] := List.getElem?_eq_getElem near
    rw [List.filterMap_cons_some found, List.map_cons, List.map_cons,
      ih fun other member => inside other (List.mem_cons_of_mem place member), ← traced.same, List.getElem?_map, found]
    rfl

end PendingSlice

/-- Where the items come from that a removal leaves. -/
theorem rates_removePendingJob {jobId : String} {force forget : Bool} {pending rest : List PendingJobItem}
    (removed : removePendingJob jobId force pending = some (rest, forget)) :
    rest.map (fun v => some v.rate) =
      (origins jobId force pending).map fun place => (pending.map PendingJobItem.rate)[place]? := by
  obtain ⟨⟨s, more⟩, swept, same⟩ := Option.map_eq_some_iff.mp removed
  cases same
  rw [origins, swept]
  exact ((PendingSlice.traced_ofList pending).sweep swept).toList

/-! The steps. -/

section

variable {clock : Int} {m m' : Memory} {logs : Journal}

/-- A step that leaves the rates, the place of the loop and the journal. -/
theorem Metering.still (metering : Metering clock m logs) (rates : m'.rates = m.rates)
    (phase : m'.rollout.phase = m.rollout.phase) : Metering clock m' logs := by
  refine ⟨by rw [rates]; exact metering.length, fun k rate log found kept => ?_⟩
  rw [phase]
  exact metering.each k rate log (rates ▸ found) kept

theorem Metering.elapse {later : Int} (metering : Metering clock m logs) (elapsed : clock ≤ later) :
    Metering later m logs :=
  ⟨metering.length, fun k rate log found kept => (metering.each k rate log found kept).elapse elapsed⟩

/-- A new item begins with an empty log. -/
theorem Metering.push (metering : Metering clock m logs) (rate : Rate) (rates : m'.rates = m.rates ++ [rate])
    (before : m.rollout.phase = fun _ => .idle) (after : m'.rollout.phase = fun _ => .idle) :
    Metering clock m' (logs ++ [[]]) := by
  have size := metering.length
  refine ⟨by rw [rates]; simp [size], fun k rate' log found kept => ?_⟩
  rw [rates] at found
  rw [after]
  rcases Nat.lt_trichotomy k m.rates.length with inside | rfl | outside
  · rw [List.getElem?_append_left inside] at found
    rw [List.getElem?_append_left (size ▸ inside)] at kept
    have metered := metering.each k rate' log found kept
    rwa [before] at metered
  · rw [← size, List.getElem?_concat_length] at kept
    cases kept
    exact metered_fresh clock rate'
  · rw [List.getElem?_eq_none (by simpa using Nat.succ_le_of_lt outside)] at found
    cases found

/-- An item goes with its log. -/
theorem Metering.erase (metering : Metering clock m logs) {i : Nat} (rates : m'.rates = m.rates.eraseIdx i)
    (before : ∀ k, k ≠ i → m.rollout.phase k = .idle) (after : m'.rollout.phase = fun _ => .idle) :
    Metering clock m' (logs.eraseIdx i) := by
  refine ⟨by rw [rates, List.length_eraseIdx, List.length_eraseIdx, metering.length], fun k rate log found kept => ?_⟩
  rw [rates, List.getElem?_eraseIdx] at found
  rw [List.getElem?_eraseIdx] at kept
  rw [after]
  by_cases near : k < i
  · rw [if_pos near] at found kept
    have metered := metering.each k rate log found kept
    rwa [before k (Nat.ne_of_lt near)] at metered
  · rw [if_neg near] at found kept
    have metered := metering.each (k + 1) rate log found kept
    rwa [before (k + 1) (by omega)] at metered

/-- One item goes on, with another rate and another log perhaps. -/
theorem Metering.advance (metering : Metering clock m logs) {i : Nat} (g : Rate → Rate)
    (f : List (Int × Nat) → List (Int × Nat)) (rates : m'.rates = m.rates.modify i g)
    (others : ∀ k, k ≠ i → m'.rollout.phase k = m.rollout.phase k)
    (here : ∀ rate log, m.rates[i]? = some rate → Metered clock (m.rollout.phase i) rate log →
      Metered clock (m'.rollout.phase i) (g rate) (f log)) : Metering clock m' (logs.modify i f) := by
  refine ⟨by rw [rates, List.length_modify, List.length_modify, metering.length], fun k other log found kept => ?_⟩
  rw [rates] at found
  by_cases same : i = k
  · subst same
    rw [List.getElem?_modify_eq] at found kept
    obtain ⟨rate, stood, rfl⟩ := Option.map_eq_some_iff.mp found
    obtain ⟨old, before, rfl⟩ := Option.map_eq_some_iff.mp kept
    exact here rate old stood (metering.each i rate old stood before)
  · rw [List.getElem?_modify_ne g m.rates same] at found
    rw [List.getElem?_modify_ne f logs same] at kept
    rw [others k (Ne.symm same)]
    exact metering.each k other log found kept

/-- The items that a removal leaves keep their logs. -/
theorem Metering.remove (metering : Metering clock m logs) {jobId : String} {force : Bool}
    (removed : m.receiveRemove jobId force = some m') (before : m.rollout.phase = fun _ => .idle) :
    Metering clock m' (m.removeJournal jobId force logs) := by
  have same := (Memory.receiveRemove_frame removed).2.2.2
  simp only [Memory.receiveRemove, bind, Option.bind_eq_some_iff] at removed
  obtain ⟨⟨rest, forget⟩, swept, removed⟩ := removed
  have pending : m'.pendingJobs = rest := by
    split at removed <;> cases removed <;> rfl
  have places := rates_removePendingJob swept
  refine ⟨?_, fun k rate log found kept => ?_⟩
  · have size := congrArg List.length places
    rw [List.length_map, List.length_map] at size
    rw [Memory.removeJournal, List.length_map, Memory.rates, List.length_map, pending, size]
  · rw [Memory.rates, pending, List.getElem?_map] at found
    obtain ⟨v, here, rfl⟩ := Option.map_eq_some_iff.mp found
    have source := congrArg (fun l : List (Option Rate) => l[k]?) places
    rw [List.getElem?_map, List.getElem?_map, here] at source
    obtain ⟨place, origin, stood⟩ := Option.map_eq_some_iff.mp source.symm
    rw [Memory.removeJournal, List.getElem?_map, origin, Option.map_some] at kept
    have inside : place < logs.length := by
      rw [metering.length]
      exact (List.getElem?_eq_some_iff.mp stood).1
    rw [List.getElem?_eq_getElem inside] at kept
    have metered := metering.each place v.rate log stood ((List.getElem?_eq_getElem inside).trans kept)
    rw [before] at metered
    rwa [same, before]

theorem rates_setItem {i : Nat} {v : PendingJobItem} (found : m.pendingJobs[i]? = some v) (w : PendingJobItem)
    (same : w.rate = v.rate) : (m.setItem i w).rates = m.rates := PendingSlice.map_set_same found w same

theorem rates_getElem? {i : Nat} {v : PendingJobItem} (found : m.pendingJobs[i]? = some v) : m.rates[i]? = some v.rate := by
  rw [Memory.rates, List.getElem?_map, found]
  rfl

theorem rates_modify {i : Nat} {v : PendingJobItem} (found : m.pendingJobs[i]? = some v) (w : PendingJobItem)
    (g : Rate → Rate) (changed : w.rate = g v.rate) : (m.setItem i w).rates = m.rates.modify i g := by
  refine List.ext_getElem? fun k => ?_
  rw [show (m.setItem i w).rates = m.rates.set i w.rate from List.map_set]
  by_cases here : i = k
  · subst here
    rw [List.getElem?_set_self (List.getElem?_eq_some_iff.mp (rates_getElem? found)).1, List.getElem?_modify_eq,
      rates_getElem? found, changed]
    rfl
  · rw [List.getElem?_set_ne here, List.getElem?_modify_ne g m.rates here]

theorem rates_delItem (i : Nat) (m : Memory) : (m.delItem i).rates = m.rates.eraseIdx i := (List.eraseIdx_map ..).symm

/-- The loop hands over what it may, or goes on at once with an operation that is not one of
the system. -/
theorem Metering.published (metering : Metering clock m logs) {i l : Nat} {v : PendingJobItem}
    (here : m.rollout = .publish i l) (found : m.pendingJobs[i]? = some v) :
    Metering clock (((m.setJobContext v.context).setItem i (v.withTasks (v.tasks.drop (rolloutCount clock v)))).goto
      (if isSysOp v.context.operation then .put i l (v.tasks.take (rolloutCount clock v))
        else .rolled i l (rolloutCount clock v))) (m.rollJournal clock logs) := by
  have idle : ∀ k, m.rollout.phase k = .idle := fun k => by rw [here]; rfl
  have rates : (m.setItem i (v.withTasks (v.tasks.drop (rolloutCount clock v)))).rates = m.rates.modify i id := by
    rw [List.modify_id]
    exact rates_setItem found _ rfl
  have looked : ∀ rate log, m.rates[i]? = some rate → Metered clock (m.rollout.phase i) rate log →
      Metered clock (.handing (rolloutCount clock v)) rate log := by
    intro rate log stood metered
    rw [rates_getElem? found] at stood
    cases stood
    rw [idle] at metered
    exact metered.look
  rw [Memory.rollJournal, here]
  dsimp only
  rw [found]
  dsimp only
  by_cases system : isSysOp v.context.operation
  · have size : (v.tasks.take (rolloutCount clock v)).length = rolloutCount clock v := by
      rw [List.length_take]
      exact Nat.min_eq_left (rolloutCount_le clock v)
    have phase : (RolloutPc.put i l (v.tasks.take (rolloutCount clock v))).phase i = .handing (rolloutCount clock v) := by
      rw [← size]
      simp [RolloutPc.phase]
    rw [if_pos system, if_pos system, ← List.modify_id i logs]
    refine metering.advance id id rates (fun k other => ?_) fun rate log stood metered => ?_
    · rw [idle]
      exact if_neg other
    · have next := looked rate log stood metered
      rwa [← phase] at next
  · have phase : (RolloutPc.rolled i l (rolloutCount clock v)).phase i = .handed (rolloutCount clock v) := if_pos rfl
    rw [if_neg system, if_neg system]
    refine metering.advance id _ rates (fun k other => ?_) fun rate log stood metered => ?_
    · rw [idle]
      exact if_neg other
    · have next := (looked rate log stood metered).received
      rwa [← phase] at next

/-- The loop records what it handed over. -/
theorem Metering.recorded (metering : Metering clock m logs) {i l count : Nat} {v : PendingJobItem}
    (here : m.rollout = .rolled i l count) (found : m.pendingJobs[i]? = some v) :
    Metering clock ((m.setItem i { v with rolloutStat := v.rolloutStat ++ [(clock, count)] }).goto
      (.schedule (i + 1) l)) logs := by
  have phase : (RolloutPc.rolled i l count).phase i = .handed count := if_pos rfl
  rw [← List.modify_id i logs]
  refine metering.advance (fun rate => ⟨rate.rollout, rate.stat ++ [(clock, count)]⟩) id ?_ (fun k other => ?_)
    fun rate log stood metered => ?_
  · exact rates_modify found _ _ rfl
  · rw [here]
    exact (if_neg other).symm
  · rw [here, phase] at metered
    exact metered.record

theorem Metering.rolls {reply : Reply} (metering : Metering clock m logs) (rolls : Memory.Rolls clock reply m m') :
    Metering clock m' (m.rollJournal clock logs) := by
  cases rolls with
  | preloaded jobId j tasks rest here filled =>
    rw [show m.rollJournal clock logs = logs ++ [[]] by simp [Memory.rollJournal, here, filled]]
    refine metering.push ⟨(toContext jobId j).rollout, []⟩ ?_ (by rw [here]; rfl) rfl
    simp [Memory.rates, PendingJobItem.rate]
  | kept i l v here | cleared i l v here =>
    rw [show m.rollJournal clock logs = logs.eraseIdx i by rw [Memory.rollJournal, here]]
    exact metering.erase (rates_delItem i m) (fun k _ => by rw [here]; rfl) rfl
  | published i l v here found => exact metering.published here found
  | rolled i l count v here found left =>
    rw [show m.rollJournal clock logs = logs by simp [Memory.rollJournal, here, found, left]]
    exact metering.recorded here found
  | rolledOut i l count v here found nothing =>
    rw [show m.rollJournal clock logs = logs.eraseIdx i by simp [Memory.rollJournal, here, found, nothing]]
    exact metering.erase (rates_delItem i m) (fun k other => by rw [here]; exact if_neg other) rfl
  | starts i l v here _ found =>
    rw [show m.rollJournal clock logs = logs by rw [Memory.rollJournal, here]]
    exact metering.still (rates_setItem found _ rfl) (by rw [here]; rfl)
  | terminated jobId j rest here =>
    rw [show m.rollJournal clock logs = logs by rw [Memory.rollJournal, here]; rfl]
    exact metering.still rfl (by rw [here]; rfl)
  | empty i l v here found nothing | filled i l v here found something | stopped i l v config here found
  | reloaded i l v rows here found =>
    rw [show m.rollJournal clock logs = logs by rw [Memory.rollJournal, here]]
    exact metering.still (rates_setItem found _ rfl) (by rw [here]; rfl)
  | ended i l v config here found | checked i l remain v minutes here found =>
    rw [show m.rollJournal clock logs = logs by rw [Memory.rollJournal, here]]
    refine metering.still (rates_setItem found _ rfl) ?_
    rw [here]
    dsimp only [Memory.goto]
    split <;> rfl
  | jobsLoaded _ here | tasksLoaded _ _ here | started here | passed _ _ here | runs _ _ _ here | outside _ _ _ here
  | finished _ _ here | early _ _ _ here | tasksEnded _ _ here | endFailed _ _ _ here | endForced _ _ _ here
  | endKept _ _ _ here | reloadFailed _ _ here | unlimited _ _ _ _ _ here | timedOut _ _ _ _ _ _ _ here
  | remains _ _ _ _ _ _ _ here =>
    rw [show m.rollJournal clock logs = logs by rw [Memory.rollJournal, here]]
    exact metering.still rfl (by rw [here]; rfl)

/-- A step keeps the limit. -/
theorem metering_resume {a : Action} {reply : Reply} (metering : Metering clock m logs)
    (taken : resume clock m reply a = some m') : Metering clock m' (m.journaled clock logs a) := by
  have frame := resume_frame taken
  cases a with
  | rollout ok => exact metering.rolls (Memory.rolls_of_rolloutNext taken)
  | rolloutTick =>
    simp only [resume] at taken
    split at taken
    · rename_i idle
      cases taken
      exact metering.still rfl (by rw [idle]; rfl)
    · cases taken
  | recvPending i =>
    obtain ⟨item, idle, ready, rfl⟩ := resume_recvPending taken
    refine metering.push item.rate ?_ (by rw [idle]; rfl) rfl
    exact List.map_append
  | recvUpdate i =>
    obtain ⟨jobId, timeout, idle, waits, rfl⟩ := resume_recvUpdate taken
    refine metering.still ?_ (by rw [idle]; rfl)
    rcases updateContext_cases jobId timeout m with same | ⟨k, v, timeout', found, named, same⟩
    · rw [same]
      rfl
    · rw [same]
      exact rates_setItem found (v.withTimeout timeout') rfl
  | recvRemove i =>
    obtain ⟨r, operation, jobId, force, received, idle, waits, removal, removed, rfl⟩ := resume_recvRemove taken
    have journal : m.journaled clock logs (.recvRemove i) = m.removeJournal jobId force logs := by
      rw [Memory.journaled, waits, Option.bind_some, removal]
    rw [journal]
    exact (metering.remove removed (by rw [idle]; rfl)).still rfl rfl
  | recvFinished =>
    obtain ⟨jobId, todo, received, idle, waits, removed, rfl⟩ := resume_recvFinished taken
    have journal : m.journaled clock logs .recvFinished = m.removeJournal jobId true logs := by
      rw [Memory.journaled, waits]
    rw [journal]
    exact (metering.remove removed (by rw [idle]; rfl)).still rfl rfl
  | recvPut =>
    obtain ⟨i, l, rolloutTasks, ready, here, rfl⟩ := resume_recvPut taken
    have journal : m.journaled clock logs .recvPut = logs.modify i fun log => log ++ [(clock, rolloutTasks.length)] := by
      rw [Memory.journaled, here]
    rw [journal]
    refine metering.advance id _ (List.modify_id ..).symm (fun k other => ?_) fun rate log _ metered => ?_
    · rw [here]
      exact (if_neg other).trans (if_neg other).symm
    · have handing : (RolloutPc.put i l rolloutTasks).phase i = .handing rolloutTasks.length := if_pos rfl
      have handed : (RolloutPc.rolled i l rolloutTasks.length).phase i = .handed rolloutTasks.length := if_pos rfl
      rw [here, handing] at metered
      rw [handed]
      exact metered.received
  | recvEndDelete =>
    obtain ⟨i, l, v, ready, here, found, rfl⟩ := resume_recvEndDelete taken
    refine metering.still ?_ (by rw [here]; rfl)
    exact congrArg (List.map PendingJobItem.rate) (Memory.deleteTask_frame (.job v.context.jobId) m).1.pendingJobs
  | _ =>
    exact metering.still (congrArg (List.map PendingJobItem.rate) (frame.pendingJobs rfl))
      (congrArg RolloutPc.phase (frame.rollout rfl))

end

theorem metering_step {s s' : State × Journal} {a : Action} (metering : Metering s.1.clock s.1.memory s.2)
    (taken : journalStep s a = some s') : Metering s'.1.clock s'.1.memory s'.2 := by
  obtain ⟨next, moved, rfl⟩ := Option.map_eq_some_iff.mp taken
  have clock := (step_eq_some_iff.mp moved).2.2
  refine (metering_resume metering (step_resume moved)).elapse ?_
  rw [clock]
  omega

theorem metering_boot (db : Db) (clock : Int) : Metering clock (boot db clock).memory [] :=
  ⟨rfl, fun _ _ _ no => nomatch no⟩

/-- `rolloutCount` as the loop computes it, over the integers. -/
def signedRolloutCount (now : Int) (v : PendingJobItem) : Int :=
  match v.context.rollout with
  | some config =>
    if 0 < config.maxPerMinute then
      let curMinuteCount : Int :=
        (v.rolloutStat.filter fun r => now - 60000 < r.1).foldl (fun count r => count + (r.2 : Int)) 0
      if config.maxPerMinute ≤ curMinuteCount then 0
      else
        let maxCur := config.maxPerMinute - curMinuteCount
        if (v.tasks.length : Int) < maxCur then v.tasks.length else maxCur
    else v.tasks.length
  | none => v.tasks.length

/-- No integer is cut off at zero. -/
theorem signedRolloutCount_eq (now : Int) (v : PendingJobItem) :
    signedRolloutCount now v = (rolloutCount now v : Int) := by
  rw [signedRolloutCount, rolloutCount]
  cases v.context.rollout with
  | none => rfl
  | some config =>
    dsimp only
    rw [jobNextRolloutCount, curMinuteCount_eq]
    split
    · split
      · rfl
      · rename_i below
        have left : 0 < config.maxPerMinute - (after (now - minute) v.rolloutStat : Int) := by omega
        split <;> omega
    · rfl

/-- The items are handed over within their limits, and no slice is out of range. -/
structure RateLimited (s : State × Journal) : Prop where
  length : s.2.length = s.1.memory.pendingJobs.length
  limited : ∀ (k : Nat) (v : PendingJobItem) (log : List (Int × Nat)) (config : RolloutConfig),
    s.1.memory.pendingJobs[k]? = some v → s.2[k]? = some log → v.context.rollout = some config →
    0 < config.maxPerMinute → ∀ a, (within minute a log : Int) ≤ config.maxPerMinute
  range : ∀ v ∈ s.1.memory.pendingJobs, ∀ now,
    0 ≤ signedRolloutCount now v ∧ signedRolloutCount now v ≤ v.tasks.length

theorem rateLimited_of_metering {s : State × Journal} (metering : Metering s.1.clock s.1.memory s.2) :
    RateLimited s := by
  refine ⟨metering.length.trans (List.length_map _), ?_, fun v _ now => ?_⟩
  · intro k v log config found kept configured positive a
    have limits : limitOf v.context.rollout = some config.maxPerMinute.toNat := by
      rw [limitOf, configured]
      exact if_pos positive
    have limited := (metering.each k v.rate log (rates_getElem? found) kept).limited _ limits a
    omega
  · rw [signedRolloutCount_eq]
    have inside := rolloutCount_le now v
    omega

/-- In every run the runner receives no more tasks of an item than its limit within a
minute, however long it waits. -/
theorem rollout_limited {db : Db} {clock : Int} {labels : List Action} {s : State × Journal}
    (ran : execute journalStep (boot db clock, []) labels = some s) : RateLimited s :=
  rateLimited_of_metering (execute_preserves (fun _ _ _ => metering_step) (metering_boot db clock) ran)

/-- Two queued tasks of a job that may hand over one of them in a minute. -/
def pacedTasks : List TaskEntity := toTaskEntities 0 "a" "$updateShadow/x" ["lamp", "door"]

theorem pacedTasks_given : ∀ row ∈ numbered 1 pacedTasks, 0 < row.1 ∧ row.1 < 3 := numbered_given (by decide)

def pacedDb : Db where
  jobs := [("a", toEntity "$updateShadow/x" ["lamp", "door"] none (some ⟨1⟩) none)]
  tasks := numbered 1 pacedTasks
  nextTaskId := 3
  returning := true
  positive := by decide
  given := pacedTasks_given

/-- The runner is late for the first task, and the next pass hands over nothing. -/
def pacedRun : List Action := List.flatten [
  List.replicate 4 (.rollout true), [.rolloutTick], List.replicate 4 (.rollout true),
  [.elapse 500, .recvPut, .elapse 200], List.replicate 2 (.rollout true),
  [.elapse 59000, .rolloutTick], List.replicate 4 (.rollout true), [.recvPut], List.replicate 2 (.rollout true),
  [.elapse 1000, .rolloutTick], List.replicate 4 (.rollout true), [.recvPut]]

theorem second_task_waits :
    (execute journalStep (boot pacedDb 0, []) pacedRun).map Prod.snd = some [[(500, 1), (59700, 0), (60700, 1)]] ∧
    ∃ s, execute journalStep (boot pacedDb 0, []) pacedRun = some s ∧ RateLimited s := by
  have journal : (execute journalStep (boot pacedDb 0, []) pacedRun).map Prod.snd =
      some [[(500, 1), (59700, 0), (60700, 1)]] := by
    decide +kernel
  obtain ⟨s, ran, -⟩ := Option.map_eq_some_iff.mp journal
  exact ⟨journal, s, ran, rollout_limited ran⟩

end Tio.Job
