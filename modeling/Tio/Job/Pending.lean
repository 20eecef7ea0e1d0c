import Tio.Core.Tally
import Tio.Job.Types

/-! The message that takes a job out of the pending list (`center.go`). The loop
ranges over the slice it started with, while every deletion moves the items of the
same array to the left, so the array is modelled with its pointers. -/

namespace Tio.Job

open Tio.Core

/-- The array behind the pending list: its slots point to cells, and the first
`len` of them are the list. -/
structure PendingSlice where
  cells : List PendingJobItem
  slots : List Nat
  len : Nat

namespace PendingSlice

def ofList (pending : List PendingJobItem) : PendingSlice :=
  ⟨pending, List.range pending.length, pending.length⟩

def toList (s : PendingSlice) : List PendingJobItem :=
  (s.slots.take s.len).filterMap fun cell => s.cells[cell]?

/-- A deletion past the end is out of range. The last slot keeps its pointer. -/
def delPendingAt (index : Nat) (s : PendingSlice) : Option PendingSlice :=
  if index < s.len then
    some { s with
      slots := s.slots.take index ++ (s.slots.take s.len).drop (index + 1) ++ s.slots.drop (s.len - 1)
      len := s.len - 1 }
  else none

/-- What the loop does at one index, and whether it removes the context of the job. -/
def visit (jobId : String) (force : Bool) (index : Nat) (s : PendingSlice) :
    Option (PendingSlice × Bool) := do
  let cell ← s.slots[index]?
  let j ← s.cells[cell]?
  if j.context.jobId ≠ jobId then some (s, false)
  else if force then
    let s ← s.delPendingAt index
    some (s, true)
  else
    let s := { s with cells := s.cells.set cell { j with tasks := ongoingTasks j.tasks } }
    if (ongoingTasks j.tasks).isEmpty then
      let s ← s.delPendingAt index
      some (s, j.context.status ≠ .inProgress)
    else some (s, false)

def sweep (jobId : String) (force : Bool) : (fuel index : Nat) → PendingSlice → Bool →
    Option (PendingSlice × Bool)
  | 0, _, s, forget => some (s, forget)
  | fuel + 1, index, s, forget => do
    let (s, more) ← s.visit jobId force index
    sweep jobId force fuel (index + 1) s (forget || more)

/-- Every cell is an item of the list, with some of its tasks. -/
def Covers (pending : List PendingJobItem) (s : PendingSlice) : Prop :=
  ∀ item ∈ s.cells, ∃ old ∈ pending, item.context = old.context ∧ ∀ t ∈ item.tasks, t ∈ old.tasks

theorem delPendingAt_cells {index : Nat} {s s' : PendingSlice}
    (deleted : s.delPendingAt index = some s') : s'.cells = s.cells := by
  rw [delPendingAt] at deleted
  split at deleted <;> cases deleted
  rfl

theorem visit_covers {pending : List PendingJobItem} {jobId : String} {force : Bool} {index : Nat}
    {s s' : PendingSlice} {forget : Bool} (covers : Covers pending s)
    (visited : s.visit jobId force index = some (s', forget)) : Covers pending s' := by
  simp only [visit, bind, Option.bind_eq_some_iff] at visited
  obtain ⟨cell, pointer, j, found, visited⟩ := visited
  have thinned : Covers pending
      { s with cells := s.cells.set cell { j with tasks := ongoingTasks j.tasks } } := by
    intro item member
    rcases List.mem_or_eq_of_mem_set member with old | rfl
    · exact covers item old
    · obtain ⟨old, present, same, fewer⟩ := covers j (List.mem_of_getElem? found)
      exact ⟨old, present, same, fun t within => fewer t (mem_ongoingTasks within)⟩
  split at visited
  · cases visited
    exact covers
  · split at visited
    · obtain ⟨rest, deleted, visited⟩ := Option.bind_eq_some_iff.mp visited
      cases visited
      exact fun item member => covers item (delPendingAt_cells deleted ▸ member)
    · split at visited
      · obtain ⟨rest, deleted, visited⟩ := Option.bind_eq_some_iff.mp visited
        cases visited
        exact fun item member => thinned item (delPendingAt_cells deleted ▸ member)
      · cases visited
        exact thinned

theorem sweep_covers {pending : List PendingJobItem} {jobId : String} {force : Bool} {fuel index : Nat}
    {s s' : PendingSlice} {forget forget' : Bool} (covers : Covers pending s)
    (swept : sweep jobId force fuel index s forget = some (s', forget')) : Covers pending s' := by
  induction fuel generalizing index s forget with
  | zero =>
    cases swept
    exact covers
  | succ fuel ih =>
    simp only [sweep, bind, Option.bind_eq_some_iff] at swept
    obtain ⟨⟨next, more⟩, visited, swept⟩ := swept
    exact ih (visit_covers covers visited) swept

theorem sweep_add (jobId : String) (force : Bool) (first second index : Nat) (s : PendingSlice)
    (forget : Bool) : sweep jobId force (first + second) index s forget =
      (sweep jobId force first index s forget).bind fun (s, forget) =>
        sweep jobId force second (index + first) s forget := by
  induction first generalizing index s forget with
  | zero => simp [sweep]
  | succ first ih =>
    rw [Nat.succ_add, sweep, sweep]
    cases s.visit jobId force index with
    | none => rfl
    | some visited => simp [ih, Nat.add_assoc, Nat.add_comm 1]

theorem sweep_others {jobId : String} {force : Bool} {fuel index : Nat} {s s' : PendingSlice}
    {forget forget' : Bool}
    (others : ∀ i cell item, index ≤ i → i < index + fuel → s.slots[i]? = some cell →
      s.cells[cell]? = some item → item.context.jobId ≠ jobId)
    (swept : sweep jobId force fuel index s forget = some (s', forget')) : s' = s := by
  induction fuel generalizing index forget with
  | zero =>
    cases swept
    rfl
  | succ fuel ih =>
    simp only [sweep, bind, Option.bind_eq_some_iff] at swept
    obtain ⟨⟨next, more⟩, visited, swept⟩ := swept
    simp only [visit, bind, Option.bind_eq_some_iff] at visited
    obtain ⟨cell, pointer, j, found, visited⟩ := visited
    rw [if_pos (others index cell j (Nat.le_refl _) (by omega) pointer found)] at visited
    cases visited
    exact ih (fun i cell item above below => others i cell item (by omega) (by omega)) swept

end PendingSlice

/-- The pending list after the message, and whether the context of the job goes. -/
def removePendingJob (jobId : String) (force : Bool) (pending : List PendingJobItem) :
    Option (List PendingJobItem × Bool) :=
  (PendingSlice.sweep jobId force pending.length 0 (.ofList pending) false).map
    fun (s, forget) => (s.toList, forget)

open PendingSlice in
/-- What stays pending was pending, with no more tasks than before. -/
theorem mem_removePendingJob {jobId : String} {force forget : Bool}
    {pending rest : List PendingJobItem}
    (removed : removePendingJob jobId force pending = some (rest, forget)) {v : PendingJobItem}
    (member : v ∈ rest) :
    ∃ old ∈ pending, v.context = old.context ∧ ∀ t ∈ v.tasks, t ∈ old.tasks := by
  obtain ⟨⟨s, more⟩, swept, same⟩ := Option.map_eq_some_iff.mp removed
  cases same
  obtain ⟨cell, -, found⟩ := List.mem_filterMap.mp member
  have start : Covers pending (ofList pending) :=
    fun item present => ⟨item, present, rfl, fun _ within => within⟩
  exact sweep_covers start swept v (List.mem_of_getElem? found)

namespace PendingSlice

/-- The weight of the list that the slots make. -/
def weigh (weight : PendingJobItem → Nat) (s : PendingSlice) : Nat :=
  tally (fun cell => (s.cells[cell]?).elim 0 weight) (s.slots.take s.len)

theorem tally_toList (weight : PendingJobItem → Nat) (s : PendingSlice) :
    tally weight s.toList = s.weigh weight := by
  rw [toList, weigh]
  induction s.slots.take s.len with
  | nil => rfl
  | cons cell rest ih =>
    rw [tally_cons, ← ih]
    cases found : s.cells[cell]? with
    | none => simp [found]
    | some item => simp [found]

theorem take_delPendingAt {index : Nat} {s s' : PendingSlice} (enough : s.len ≤ s.slots.length)
    (deleted : s.delPendingAt index = some s') :
    s'.slots.take s'.len = (s.slots.take s.len).eraseIdx index ∧ s'.len ≤ s'.slots.length := by
  rw [delPendingAt] at deleted
  split at deleted
  · rename_i inside
    cases deleted
    dsimp only
    constructor
    · rw [List.take_left', List.eraseIdx_eq_take_drop_succ, List.take_take, Nat.min_eq_left (by omega)]
      simp only [List.length_append, List.length_take, List.length_drop]
      omega
    · simp only [List.length_append, List.length_take, List.length_drop]
      omega
  · cases deleted

/-- A visit makes the list lighter or leaves it, when an item gets no heavier as its
tasks that are not ongoing go. -/
theorem weigh_visit {weight : PendingJobItem → Nat}
    (thins : ∀ v : PendingJobItem, weight { v with tasks := ongoingTasks v.tasks } ≤ weight v)
    {jobId : String} {force forget : Bool} {index : Nat} {s s' : PendingSlice}
    (enough : s.len ≤ s.slots.length) (visited : s.visit jobId force index = some (s', forget)) :
    s'.weigh weight ≤ s.weigh weight ∧ s'.len ≤ s'.slots.length := by
  have fewer : ∀ {before after : PendingSlice}, before.len ≤ before.slots.length →
      before.delPendingAt index = some after →
      after.weigh weight ≤ before.weigh weight ∧ after.len ≤ after.slots.length := by
    intro before after enough deleted
    obtain ⟨slots, enough'⟩ := take_delPendingAt enough deleted
    refine ⟨?_, enough'⟩
    rw [weigh, slots, delPendingAt_cells deleted]
    exact tally_sublist (List.eraseIdx_sublist _ _)
  simp only [visit, bind, Option.bind_eq_some_iff] at visited
  obtain ⟨cell, pointer, j, found, visited⟩ := visited
  have thinner : weigh weight
      { s with cells := s.cells.set cell { j with tasks := ongoingTasks j.tasks } } ≤ s.weigh weight := by
    refine tally_mono fun other _ => ?_
    dsimp only
    rw [List.getElem?_set]
    split
    · rename_i here
      subst other
      rw [if_pos (List.getElem?_eq_some_iff.mp found).1, found]
      exact thins j
    · exact Nat.le_refl _
  split at visited
  · cases visited
    exact ⟨Nat.le_refl _, enough⟩
  · split at visited
    · obtain ⟨rest, deleted, visited⟩ := Option.bind_eq_some_iff.mp visited
      cases visited
      exact fewer enough deleted
    · split at visited
      · obtain ⟨rest, deleted, visited⟩ := Option.bind_eq_some_iff.mp visited
        cases visited
        obtain ⟨less, enough'⟩ := @fewer
          { s with cells := s.cells.set cell { j with tasks := ongoingTasks j.tasks } } _ enough deleted
        exact ⟨Nat.le_trans less thinner, enough'⟩
      · cases visited
        exact ⟨thinner, enough⟩

theorem weigh_sweep {weight : PendingJobItem → Nat}
    (thins : ∀ v : PendingJobItem, weight { v with tasks := ongoingTasks v.tasks } ≤ weight v)
    {jobId : String} {force : Bool} {fuel index : Nat} {s s' : PendingSlice} {forget forget' : Bool}
    (enough : s.len ≤ s.slots.length)
    (swept : sweep jobId force fuel index s forget = some (s', forget')) :
    s'.weigh weight ≤ s.weigh weight := by
  induction fuel generalizing index s forget with
  | zero =>
    cases swept
    exact Nat.le_refl _
  | succ fuel ih =>
    simp only [sweep, bind, Option.bind_eq_some_iff] at swept
    obtain ⟨⟨next, more⟩, visited, swept⟩ := swept
    obtain ⟨less, enough'⟩ := weigh_visit thins enough visited
    exact Nat.le_trans (ih enough' swept) less

end PendingSlice

namespace PendingSlice

theorem lookup_range (cells : List PendingJobItem) :
    (List.range cells.length).map (fun cell => cells[cell]?) = cells.map some := by
  refine List.ext_getElem? fun i => ?_
  rw [List.getElem?_map, List.getElem?_map]
  rcases Nat.lt_or_ge i cells.length with inside | outside
  · simp [List.getElem?_range inside, List.getElem?_eq_getElem inside]
  · simp [List.getElem?_eq_none_iff.mpr outside, List.getElem?_eq_none_iff.mpr
      (Nat.le_trans (Nat.le_of_eq List.length_range) outside)]

theorem lookup_some (cells : List PendingJobItem) : (cells.map some).filterMap id = cells := by
  simp [List.filterMap_map]

theorem toList_ofList (pending : List PendingJobItem) : (ofList pending).toList = pending := by
  simp only [toList, ofList]
  rw [List.take_of_length_le (by simp)]
  have found := congrArg (List.filterMap id) (lookup_range pending)
  rwa [List.filterMap_map, lookup_some] at found

/-- The slots after the first deletion. -/
theorem delPendingAt_range {index : Nat} {s s' : PendingSlice} (fresh : s.slots = List.range s.len)
    (deleted : s.delPendingAt index = some s') :
    s'.slots.take s'.len = (List.range s.len).take index ++ (List.range s.len).drop (index + 1) ∧
      ∀ (i cell : Nat), index < i → s'.slots[i]? = some cell → index < cell := by
  rw [delPendingAt] at deleted
  split at deleted
  · rename_i inside
    cases deleted
    simp only [fresh, List.take_of_length_le (Nat.le_of_eq (List.length_range (n := s.len)))]
    constructor
    · rw [List.take_left']
      simp only [List.length_append, List.length_take, List.length_drop, List.length_range]
      omega
    · intro i cell beyond pointer
      grind
  · cases deleted

/-- The list after a deletion, when no slot was moved before. -/
theorem toList_delPendingAt {before rest : List PendingJobItem} {v : PendingJobItem}
    {s s' : PendingSlice} (cells : s.cells = before ++ v :: rest) (len : s.len = s.cells.length)
    (fresh : s.slots = List.range s.len) (deleted : s.delPendingAt before.length = some s') :
    s'.toList = before ++ rest := by
  have pointed : ((List.range s.len).take before.length ++
      (List.range s.len).drop (before.length + 1)).map (fun cell => s.cells[cell]?) =
      (before ++ rest).map some := by
    rw [List.map_append, List.map_take, List.map_drop, len, lookup_range, cells]
    simp [List.drop_append]
  have found := congrArg (List.filterMap id) pointed
  rw [List.filterMap_map, lookup_some] at found
  rw [toList, (delPendingAt_range fresh deleted).1, delPendingAt_cells deleted]
  exact found

/-- With one item of the job the loop does at that item what it does, and nothing else. -/
theorem sweep_single {jobId : String} {force : Bool} {before rest : List PendingJobItem}
    {v : PendingJobItem} (apart : ∀ u ∈ before ++ rest, u.context.jobId ≠ jobId)
    {s : PendingSlice} {forget : Bool}
    (swept : sweep jobId force (before ++ v :: rest).length 0 (ofList (before ++ v :: rest)) false =
      some (s, forget)) :
    ∃ after more, (ofList (before ++ v :: rest)).visit jobId force before.length = some (after, more) ∧
      ((∀ i cell item, before.length < i → after.slots[i]? = some cell →
        after.cells[cell]? = some item → item.context.jobId ≠ jobId) → s = after) := by
  have split : (before ++ v :: rest).length = before.length + (rest.length + 1) := by simp
  rw [split, sweep_add] at swept
  obtain ⟨⟨first, forget'⟩, swept₁, swept₂⟩ := Option.bind_eq_some_iff.mp swept
  have still : first = ofList (before ++ v :: rest) := by
    refine sweep_others (fun i cell item _ below pointer found => ?_) swept₁
    have inside : i < (before ++ v :: rest).length := by omega
    simp only [ofList] at pointer found
    rw [List.getElem?_range inside, Option.some.injEq] at pointer
    subst cell
    rw [List.getElem?_append_left (by omega)] at found
    exact apart item (List.mem_append_left _ (List.mem_of_getElem? found))
  subst first
  simp only [sweep, bind, Nat.zero_add, Option.bind_eq_some_iff] at swept₂
  obtain ⟨⟨after, more⟩, visited, swept₃⟩ := swept₂
  refine ⟨after, more, visited, fun others => ?_⟩
  exact sweep_others (fun i cell item above _ => others i cell item (by omega)) swept₃

end PendingSlice

open PendingSlice in
/-- The message takes out the one item of the job, when it is forced or when no task
of the item is ongoing. -/
theorem removePendingJob_single {jobId : String} {force forget : Bool}
    {before rest left : List PendingJobItem} {v : PendingJobItem}
    (apart : ∀ u ∈ before ++ rest, u.context.jobId ≠ jobId) (here : v.context.jobId = jobId)
    (allowed : force = true ∨ ongoingTasks v.tasks = [])
    (removed : removePendingJob jobId force (before ++ v :: rest) = some (left, forget)) :
    left = before ++ rest := by
  obtain ⟨⟨s, more⟩, swept, same⟩ := Option.map_eq_some_iff.mp removed
  cases same
  obtain ⟨after, more', visited, settled⟩ := sweep_single apart swept
  have pointer : (ofList (before ++ v :: rest)).slots[before.length]? = some before.length :=
    List.getElem?_range (by simp)
  have found : (ofList (before ++ v :: rest)).cells[before.length]? = some v := by simp [ofList]
  simp only [visit, bind, pointer, found, Option.bind_some, here, ne_eq, not_true_eq_false,
    if_false] at visited
  -- in both cases the item is deleted, from cells that agree elsewhere
  obtain ⟨old, v', cells, same, deleted⟩ : ∃ (old : PendingSlice) (v' : PendingJobItem),
      old.cells = before ++ v' :: rest ∧ old.slots = List.range old.len ∧ old.len = old.cells.length ∧
      old.delPendingAt before.length = some after := by
    cases force with
    | true =>
      obtain ⟨after', deleted, same⟩ := Option.bind_eq_some_iff.mp visited
      cases same
      exact ⟨ofList (before ++ v :: rest), v, rfl, rfl, rfl, deleted⟩
    | false =>
      have idle : ongoingTasks v.tasks = [] := allowed.resolve_left (by simp)
      simp only [Bool.false_eq_true, if_false, idle, List.isEmpty_nil, if_true] at visited
      obtain ⟨after', deleted, same⟩ := Option.bind_eq_some_iff.mp visited
      cases same
      refine ⟨_, { v with tasks := [] }, ?_, ?_, ?_, deleted⟩ <;> simp [ofList]
  obtain ⟨len, deleted⟩ := deleted
  rw [settled fun i cell item beyond pointer found => ?_]
  · exact toList_delPendingAt cells len same deleted
  · have later := (delPendingAt_range same deleted).2 i cell beyond pointer
    rw [delPendingAt_cells deleted, cells, List.getElem?_append_right (by omega),
      List.getElem?_cons, if_neg (by omega)] at found
    exact apart item (List.mem_append_right _ (List.mem_of_getElem? found))

open PendingSlice in
theorem tally_removePendingJob {weight : PendingJobItem → Nat}
    (thins : ∀ v : PendingJobItem, weight { v with tasks := ongoingTasks v.tasks } ≤ weight v)
    {jobId : String} {force forget : Bool} {pending rest : List PendingJobItem}
    (removed : removePendingJob jobId force pending = some (rest, forget)) :
    tally weight rest ≤ tally weight pending := by
  obtain ⟨⟨s, more⟩, swept, same⟩ := Option.map_eq_some_iff.mp removed
  cases same
  rw [tally_toList]
  refine Nat.le_trans (weigh_sweep thins (by simp [ofList]) swept) ?_
  exact Nat.le_of_eq (by rw [← tally_toList, toList_ofList])

namespace PendingSlice

/-- The list has every cell once, and no item that the message left without tasks. -/
structure Filled (pending : List PendingJobItem) (s : PendingSlice) : Prop where
  enough : s.len ≤ s.slots.length
  distinct : (s.slots.take s.len).Nodup
  filled : ∀ cell ∈ s.slots.take s.len, ∀ item, s.cells[cell]? = some item →
    item ∈ pending ∨ item.tasks ≠ []

theorem filled_delPendingAt {pending : List PendingJobItem} {index : Nat} {s s' : PendingSlice}
    (deleted : s.delPendingAt index = some s') (enough : s.len ≤ s.slots.length)
    (distinct : (s.slots.take s.len).Nodup)
    (filled : ∀ cell ∈ s.slots.take s.len, s.slots[index]? ≠ some cell → ∀ item,
      s.cells[cell]? = some item → item ∈ pending ∨ item.tasks ≠ []) : Filled pending s' := by
  obtain ⟨slots, enough'⟩ := take_delPendingAt enough deleted
  have inside : index < s.len := by
    by_contra outside
    simp [delPendingAt, outside] at deleted
  refine ⟨enough', slots ▸ distinct.sublist (List.eraseIdx_sublist _ index), fun cell member item found => ?_⟩
  rw [slots] at member
  rw [delPendingAt_cells deleted] at found
  refine filled cell (List.mem_of_mem_eraseIdx member) (fun pointer => ?_) item found
  -- the slot that went was the only one with its cell
  have here : (s.slots.take s.len)[index]? = some cell := by rwa [List.getElem?_take_of_lt inside]
  obtain ⟨bound, same⟩ := List.getElem?_eq_some_iff.mp here
  have erased := (List.erase_getElem bound).mem_iff.mpr member
  rw [same] at erased
  exact distinct.not_mem_erase erased

theorem filled_visit {pending : List PendingJobItem} {jobId : String} {force forget : Bool} {index : Nat}
    {s s' : PendingSlice} (before : Filled pending s)
    (visited : s.visit jobId force index = some (s', forget)) : Filled pending s' := by
  simp only [visit, bind, Option.bind_eq_some_iff] at visited
  obtain ⟨cell, pointer, j, found, visited⟩ := visited
  have thinned : ∀ other item, (s.cells.set cell { j with tasks := ongoingTasks j.tasks })[other]? = some item →
      other ∈ s.slots.take s.len → (other = cell ∧ item.tasks = ongoingTasks j.tasks) ∨
        item ∈ pending ∨ item.tasks ≠ [] := by
    intro other item found' member
    rw [List.getElem?_set] at found'
    split at found'
    · rename_i same
      split at found' <;> cases found'
      exact .inl ⟨same.symm, rfl⟩
    · exact .inr (before.filled other member item found')
  split at visited
  · cases visited
    exact before
  · split at visited
    · obtain ⟨rest, deleted, visited⟩ := Option.bind_eq_some_iff.mp visited
      cases visited
      exact filled_delPendingAt deleted before.enough before.distinct
        fun other member _ => before.filled other member
    · split at visited
      · obtain ⟨rest, deleted, visited⟩ := Option.bind_eq_some_iff.mp visited
        cases visited
        refine filled_delPendingAt deleted before.enough before.distinct fun other member apart item found' => ?_
        rcases thinned other item found' member with ⟨same, -⟩ | fine
        · exact absurd (same ▸ pointer) apart
        · exact fine
      · rename_i something
        cases visited
        refine ⟨before.enough, before.distinct, fun other member item found' => ?_⟩
        rcases thinned other item found' member with ⟨-, tasks⟩ | fine
        · exact .inr (by rw [tasks]; simpa using something)
        · exact fine

theorem filled_sweep {pending : List PendingJobItem} {jobId : String} {force : Bool} {fuel index : Nat}
    {s s' : PendingSlice} {forget forget' : Bool} (before : Filled pending s)
    (swept : sweep jobId force fuel index s forget = some (s', forget')) : Filled pending s' := by
  induction fuel generalizing index s forget with
  | zero =>
    cases swept
    exact before
  | succ fuel ih =>
    simp only [sweep, bind, Option.bind_eq_some_iff] at swept
    obtain ⟨⟨next, more⟩, visited, swept⟩ := swept
    exact ih (filled_visit before visited) swept

end PendingSlice

open PendingSlice in
/-- The message leaves no item behind that it emptied. -/
theorem filled_removePendingJob {jobId : String} {force forget : Bool} {pending rest : List PendingJobItem}
    (removed : removePendingJob jobId force pending = some (rest, forget)) {v : PendingJobItem}
    (member : v ∈ rest) : v ∈ pending ∨ v.tasks ≠ [] := by
  obtain ⟨⟨s, more⟩, swept, same⟩ := Option.map_eq_some_iff.mp removed
  cases same
  obtain ⟨cell, pointer, found⟩ := List.mem_filterMap.mp member
  have start : Filled pending (ofList pending) := by
    refine ⟨by simp [ofList], ?_, fun cell _ item found => .inl (List.mem_of_getElem? found)⟩
    exact List.nodup_range.sublist (List.take_sublist _ _)
  exact (filled_sweep start swept).filled cell pointer v found

end Tio.Job
