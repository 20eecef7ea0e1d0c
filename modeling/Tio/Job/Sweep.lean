import Tio.Job.Pending

namespace Tio.Job

open Tio.Core

section

variable (jobId : String) (force : Bool)

def ofJob (v : PendingJobItem) : Prop := v.context.jobId = jobId

instance : DecidablePred (ofJob jobId) := fun _ => inferInstanceAs (Decidable (_ = _))

/-- The message takes the item out of the list. -/
def Doomed (v : PendingJobItem) : Prop := ofJob jobId v ∧ (force = true ∨ ongoingTasks v.tasks = [])

instance : DecidablePred (Doomed jobId force) := fun _ => inferInstanceAs (Decidable (_ ∧ _))

/-- The item without its tasks that are not ongoing. -/
def thinned (v : PendingJobItem) : PendingJobItem :=
  if ofJob jobId v then { v with tasks := ongoingTasks v.tasks } else v

/-- What the message asks for. -/
def withoutJob (pending : List PendingJobItem) : List PendingJobItem :=
  pending.filterMap fun v => if Doomed jobId force v then none else some (thinned jobId v)

/-- What the loop leaves of the items from an index on; `moved` tells whether it has
deleted an item before. -/
def swept : (moved : Bool) → List PendingJobItem → Option (List PendingJobItem)
  | _, [] => some []
  | moved, [v] =>
    if Doomed jobId force v then if moved then none else some []
    else some [thinned jobId v]
  | moved, v :: w :: rest =>
    if Doomed jobId force v then
      -- the item after a deleted one is not visited, unless it is the last one
      match rest with
      | [] => swept true [w]
      | u :: more => (swept true (u :: more)).map fun left => w :: left
    else (swept moved (w :: rest)).map fun left => thinned jobId v :: left

/-- No item that goes is followed by one that goes or is changed, and no item goes
before a last item that goes. The last item may be changed in any case. -/
structure Sparse (pending : List PendingJobItem) : Prop where
  apart : ∀ front v w back, pending = front ++ v :: w :: back → Doomed jobId force v →
    ¬ Doomed jobId force w ∧ (back = [] ∨ thinned jobId w = w)
  last : ∀ front v middle w, pending = front ++ v :: (middle ++ [w]) → Doomed jobId force v →
    ¬ Doomed jobId force w

end

section

variable {jobId : String} {force : Bool}

theorem withoutJob_cons_of_doomed {v : PendingJobItem} (doomed : Doomed jobId force v) (rest : List PendingJobItem) :
    withoutJob jobId force (v :: rest) = withoutJob jobId force rest := by
  simp [withoutJob, doomed]

theorem withoutJob_cons {v : PendingJobItem} (stays : ¬ Doomed jobId force v) (rest : List PendingJobItem) :
    withoutJob jobId force (v :: rest) = thinned jobId v :: withoutJob jobId force rest := by
  simp [withoutJob, stays]

theorem length_withoutJob_cons_le (v : PendingJobItem) (rest : List PendingJobItem) :
    (withoutJob jobId force (v :: rest)).length ≤ (withoutJob jobId force rest).length + 1 := by
  by_cases doomed : Doomed jobId force v
  · rw [withoutJob_cons_of_doomed doomed]
    exact Nat.le_succ _
  · rw [withoutJob_cons doomed]
    exact Nat.le_refl _

/-- The loop leaves at least as many items as it should. -/
theorem length_withoutJob_le {moved : Bool} {pending left : List PendingJobItem}
    (ran : swept jobId force moved pending = some left) : (withoutJob jobId force pending).length ≤ left.length := by
  fun_induction swept jobId force moved pending generalizing left with
  | case1 moved => exact Nat.zero_le _
  | case2 v doomed => cases ran
  | case3 moved v doomed =>
    rw [withoutJob_cons_of_doomed doomed]
    exact Nat.zero_le _
  | case4 moved v stays =>
    cases ran
    exact length_withoutJob_cons_le v []
  | case5 moved v w doomed ih =>
    rw [withoutJob_cons_of_doomed doomed]
    exact ih ran
  | case6 moved v w doomed u more ih =>
    obtain ⟨rest, later, rfl⟩ := Option.map_eq_some_iff.mp ran
    rw [withoutJob_cons_of_doomed doomed, List.length_cons]
    exact Nat.le_trans (length_withoutJob_cons_le w _) (Nat.succ_le_succ (ih later))
  | case7 moved v w rest stays ih =>
    obtain ⟨left, later, rfl⟩ := Option.map_eq_some_iff.mp ran
    rw [withoutJob_cons stays, List.length_cons, List.length_cons]
    exact Nat.succ_le_succ (ih later)

/-- The last item of the list stays. -/
def LastStays (jobId : String) (force : Bool) (pending : List PendingJobItem) : Prop :=
  ∀ front w, pending = front ++ [w] → ¬ Doomed jobId force w

theorem lastStays_singleton {v : PendingJobItem} : LastStays jobId force [v] ↔ ¬ Doomed jobId force v := by
  constructor
  · intro stays
    exact stays [] v rfl
  · intro stays front w same
    have split : [] ++ [v] = front ++ [w] := same
    obtain ⟨-, here⟩ := List.append_inj' split rfl
    cases here
    exact stays

theorem lastStays_cons {v w : PendingJobItem} {rest : List PendingJobItem} :
    LastStays jobId force (v :: w :: rest) ↔ LastStays jobId force (w :: rest) := by
  constructor
  · intro stays front u same
    exact stays (v :: front) u (by rw [same]; rfl)
  · rintro stays (_ | ⟨head, front⟩) u same
    · cases same
    · obtain ⟨-, same⟩ := List.cons.inj same
      exact stays front u same

theorem sparse_nil : Sparse jobId force [] :=
  ⟨fun front _ _ _ same => by simp at same, fun front _ _ _ same => by simp at same⟩

theorem sparse_cons_iff {v : PendingJobItem} (stays : ¬ Doomed jobId force v) (rest : List PendingJobItem) :
    Sparse jobId force (v :: rest) ↔ Sparse jobId force rest := by
  constructor
  · intro sparse
    constructor
    · intro front u w back same
      exact sparse.apart (v :: front) u w back (by rw [same]; rfl)
    · intro front u middle w same
      exact sparse.last (v :: front) u middle w (by rw [same]; rfl)
  · intro sparse
    constructor
    · rintro (_ | ⟨head, front⟩) u w back same doomed
      · cases same
        exact absurd doomed stays
      · exact sparse.apart front u w back (List.cons.inj same).2 doomed
    · rintro (_ | ⟨head, front⟩) u middle w same doomed
      · cases same
        exact absurd doomed stays
      · exact sparse.last front u middle w (List.cons.inj same).2 doomed

theorem sparse_singleton (v : PendingJobItem) : Sparse jobId force [v] := by
  constructor
  · rintro (_ | ⟨head, front⟩) u w back same
    · simp at same
    · simp at same
  · rintro (_ | ⟨head, front⟩) u middle w same
    · simp at same
    · simp at same

/-- After an item that goes, the next one stays as it is, and so does the last one of
the others. -/
theorem sparse_cons_cons_iff {v w : PendingJobItem} (doomed : Doomed jobId force v) (rest : List PendingJobItem) :
    Sparse jobId force (v :: w :: rest) ↔ ¬ Doomed jobId force w ∧ (rest = [] ∨ thinned jobId w = w) ∧
      Sparse jobId force rest ∧ LastStays jobId force rest := by
  constructor
  · intro sparse
    obtain ⟨stays, same⟩ := sparse.apart [] v w rest rfl doomed
    refine ⟨stays, same, ⟨?_, ?_⟩, ?_⟩
    · intro front u x back split
      exact sparse.apart (v :: w :: front) u x back (by rw [split]; rfl)
    · intro front u middle x split
      exact sparse.last (v :: w :: front) u middle x (by rw [split]; rfl)
    · intro front u split
      exact sparse.last [] v (w :: front) u (by rw [split]; rfl) doomed
  · rintro ⟨stays, same, sparse, last⟩
    constructor
    · rintro (_ | ⟨head, _ | ⟨next, front⟩⟩) u x back split going
      · cases split
        exact ⟨stays, same⟩
      · cases split
        exact absurd going stays
      · exact sparse.apart front u x back (List.cons.inj (List.cons.inj split).2).2 going
    · rintro (_ | ⟨head, _ | ⟨next, front⟩⟩) u middle x split going
      · obtain ⟨-, split⟩ := List.cons.inj split
        cases middle with
        | nil =>
          cases split
          exact stays
        | cons head middle => exact last middle x (List.cons.inj split).2
      · cases split
        exact absurd going stays
      · exact sparse.last front u middle x (List.cons.inj (List.cons.inj split).2).2 going

/-- The loop does what the message asks for exactly on a sparse list. -/
theorem swept_eq_some_iff (moved : Bool) (pending : List PendingJobItem) :
    swept jobId force moved pending = some (withoutJob jobId force pending) ↔
      Sparse jobId force pending ∧ (moved = true → LastStays jobId force pending) := by
  fun_induction swept jobId force moved pending with
  | case1 moved => exact iff_of_true rfl ⟨sparse_nil, fun _ front w same => by simp at same⟩
  | case2 v doomed =>
    refine iff_of_false (by simp) fun both => ?_
    exact lastStays_singleton.mp (both.2 rfl) doomed
  | case3 moved v doomed still =>
    rw [withoutJob_cons_of_doomed doomed]
    exact iff_of_true rfl ⟨sparse_singleton v, fun yes => absurd yes still⟩
  | case4 moved v stays =>
    rw [withoutJob_cons stays]
    exact iff_of_true rfl ⟨sparse_singleton v, fun _ => lastStays_singleton.mpr stays⟩
  | case5 moved v w doomed ih =>
    rw [withoutJob_cons_of_doomed doomed, ih, sparse_cons_cons_iff doomed, lastStays_cons, lastStays_singleton]
    constructor
    · rintro ⟨-, stays⟩
      exact ⟨⟨stays rfl, .inl rfl, sparse_nil, fun front u same => by simp at same⟩, fun _ => stays rfl⟩
    · rintro ⟨⟨stays, -⟩, -⟩
      exact ⟨sparse_singleton w, fun _ => stays⟩
  | case6 moved v w doomed u more ih =>
    rw [withoutJob_cons_of_doomed doomed, sparse_cons_cons_iff doomed, lastStays_cons, lastStays_cons]
    by_cases going : Doomed jobId force w
    · refine iff_of_false (fun same => ?_) fun both => both.1.1 going
      -- the item that was passed by is one too many
      rw [withoutJob_cons_of_doomed going] at same
      obtain ⟨rest, later, same⟩ := Option.map_eq_some_iff.mp same
      have short := length_withoutJob_le later
      rw [← same, List.length_cons] at short
      exact Nat.not_succ_le_self _ short
    · rw [withoutJob_cons going]
      have split : (swept jobId force true (u :: more)).map (fun left => w :: left) =
          some (thinned jobId w :: withoutJob jobId force (u :: more)) ↔ thinned jobId w = w ∧
            swept jobId force true (u :: more) = some (withoutJob jobId force (u :: more)) := by
        rw [Option.map_eq_some_iff]
        constructor
        · rintro ⟨rest, later, same⟩
          obtain ⟨here, rfl⟩ := List.cons.inj same
          exact ⟨here.symm, later⟩
        · rintro ⟨here, later⟩
          exact ⟨_, later, by rw [here]⟩
      rw [split, ih]
      constructor
      · rintro ⟨same, sparse, last⟩
        exact ⟨⟨going, .inr same, sparse, last rfl⟩, fun _ => last rfl⟩
      · rintro ⟨⟨-, same, sparse, last⟩, -⟩
        exact ⟨same.resolve_left (by simp), sparse, fun _ => last⟩
  | case7 moved v w rest stays ih =>
    rw [withoutJob_cons stays, sparse_cons_iff stays, lastStays_cons, ← ih, Option.map_eq_some_iff]
    constructor
    · rintro ⟨left, later, same⟩
      rw [later, (List.cons.inj same).2]
    · intro later
      exact ⟨_, later, rfl⟩

end

theorem thinned_of_job {v : PendingJobItem} {jobId : String} (here : ofJob jobId v) :
    thinned jobId v = { v with tasks := ongoingTasks v.tasks } := if_pos here

theorem thinned_of_other {v : PendingJobItem} {jobId : String} (other : ¬ ofJob jobId v) : thinned jobId v = v :=
  if_neg other

theorem ofJob_thinned {v : PendingJobItem} {jobId : String} : ofJob jobId (thinned jobId v) ↔ ofJob jobId v := by
  rw [thinned]
  split <;> rfl

theorem ongoingTasks_twice (tasks : List Task) : ongoingTasks (ongoingTasks tasks) = ongoingTasks tasks := by
  simp [ongoingTasks]

theorem thinned_twice (jobId : String) (v : PendingJobItem) : thinned jobId (thinned jobId v) = thinned jobId v := by
  by_cases here : ofJob jobId v
  · rw [thinned_of_job (ofJob_thinned.mpr here), thinned_of_job here]
    simp only [ongoingTasks_twice]
  · rw [thinned_of_other here, thinned_of_other here]

theorem doomed_thinned {v : PendingJobItem} {jobId : String} {force : Bool} :
    Doomed jobId force (thinned jobId v) ↔ Doomed jobId force v := by
  rw [Doomed, Doomed, ofJob_thinned]
  refine and_congr_right fun here => ?_
  rw [thinned_of_job here, ongoingTasks_twice]

namespace PendingSlice

/-- The loop has passed the slots of `done` and has those of `todo` before it; behind the
list, as many slots as it has deleted point to the last item. -/
structure Lies (s : PendingSlice) (done todo : List Nat) (deleted final : Nat)
    (front items : List PendingJobItem) : Prop where
  slots : s.slots = done ++ todo ++ List.replicate deleted final
  len : s.len = done.length + todo.length
  distinct : (done ++ todo).Nodup
  passed : done.map (fun cell => s.cells[cell]?) = front.map some
  ahead : todo.map (fun cell => s.cells[cell]?) = items.map some

section

variable {s : PendingSlice} {done todo : List Nat} {deleted final c : Nat}
variable {front items : List PendingJobItem} {v : PendingJobItem} {jobId : String} {force : Bool}

theorem Lies.toList (lies : Lies s done todo deleted final front items) : s.toList = front ++ items := by
  have kept : s.slots.take s.len = done ++ todo := by
    rw [lies.slots, lies.len, List.take_left']
    simp
  have pointed : (done ++ todo).map (fun cell => s.cells[cell]?) = (front ++ items).map some := by
    rw [List.map_append, lies.passed, lies.ahead, List.map_append]
  have found := congrArg (List.filterMap id) pointed
  rw [List.filterMap_map, lookup_some] at found
  rw [PendingSlice.toList, kept]
  exact found

/-- An item that is not visited is passed by. -/
theorem Lies.pass (lies : Lies s done (c :: todo) deleted final front (v :: items)) :
    Lies s (done ++ [c]) todo deleted final (front ++ [v]) items := by
  obtain ⟨here, ahead⟩ := List.cons.inj lies.ahead
  constructor
  · rw [lies.slots]
    simp
  · rw [lies.len]
    simp only [List.length_cons, List.length_append, List.length_nil]
    omega
  · simpa using lies.distinct
  · rw [List.map_append, lies.passed, List.map_append]
    exact congrArg (front.map some ++ ·) (congrArg (· :: []) here)
  · exact ahead

theorem Lies.todo_singleton (lies : Lies s done todo deleted final front [v]) : ∃ c, todo = [c] := by
  have pointed := congrArg List.length lies.ahead
  rw [List.length_map, List.length_map] at pointed
  exact List.length_eq_one_iff.mp pointed

theorem Lies.todo_cons (lies : Lies s done todo deleted final front (v :: items)) :
    ∃ c rest, todo = c :: rest := by
  cases todo with
  | nil => cases lies.ahead
  | cons c rest => exact ⟨c, rest, rfl⟩

theorem Lies.here (lies : Lies s done (c :: todo) deleted final front (v :: items)) :
    s.slots[done.length]? = some c ∧ s.cells[c]? = some v := by
  refine ⟨?_, (List.cons.inj lies.ahead).1⟩
  rw [lies.slots, List.append_assoc, List.getElem?_append_right (Nat.le_refl _)]
  simp

/-- Writing the cell of the slot at the index changes no other item. -/
theorem Lies.set (lies : Lies s done (c :: todo) deleted final front (v :: items)) (w : PendingJobItem) :
    Lies { s with cells := s.cells.set c w } done (c :: todo) deleted final front (w :: items) := by
  obtain ⟨-, later, before⟩ := List.nodup_append.mp lies.distinct
  have others : ∀ cell, cell ≠ c → (s.cells.set c w)[cell]? = s.cells[cell]? :=
    fun cell apart => List.getElem?_set_ne (Ne.symm apart)
  have inside : c < s.cells.length := (List.getElem?_eq_some_iff.mp lies.here.2).1
  refine ⟨lies.slots, lies.len, lies.distinct, ?_, ?_⟩
  · rw [← lies.passed]
    refine List.map_congr_left fun cell member => others cell ?_
    exact before cell member c List.mem_cons_self
  · rw [List.map_cons, List.map_cons, ← (List.cons.inj lies.ahead).2]
    congr 1
    · exact List.getElem?_set_self inside
    · refine List.map_congr_left fun cell member => others cell ?_
      rintro rfl
      exact (List.nodup_cons.mp later).1 member

/-- What a visit of an item of the job does. -/
theorem visit_job {s : PendingSlice} {jobId : String} {force : Bool} {index cell : Nat} {v : PendingJobItem}
    (pointer : s.slots[index]? = some cell) (found : s.cells[cell]? = some v) (here : ofJob jobId v) :
    s.visit jobId force index =
      if force then (s.delPendingAt index).map fun s => (s, true)
      else if (ongoingTasks v.tasks).isEmpty then
        (({ s with cells := s.cells.set cell (thinned jobId v) } : PendingSlice).delPendingAt index).map
          fun s => (s, decide (v.context.status ≠ .inProgress))
      else some ({ s with cells := s.cells.set cell (thinned jobId v) }, false) := by
  have same : ¬ v.context.jobId ≠ jobId := fun other => other here
  rw [thinned_of_job here]
  simp only [visit, bind, pointer, found, Option.bind_some, if_neg same]
  cases force with
  | true => cases s.delPendingAt index <;> rfl
  | false =>
    rw [if_neg Bool.false_ne_true, if_neg Bool.false_ne_true]
    congr 1
    exact (Option.map_eq_bind ..).symm

theorem visit_other {s : PendingSlice} {jobId : String} {force : Bool} {index cell : Nat} {v : PendingJobItem}
    (pointer : s.slots[index]? = some cell) (found : s.cells[cell]? = some v) (other : ¬ ofJob jobId v) :
    s.visit jobId force index = some (s, false) := by
  have differs : v.context.jobId ≠ jobId := other
  simp only [visit, bind, pointer, found, Option.bind_some, if_pos differs]

/-- An item of the job that stays is not removed by force and has ongoing tasks. -/
theorem stays_of_job {v : PendingJobItem} {jobId : String} {force : Bool} (here : ofJob jobId v)
    (stays : ¬ Doomed jobId force v) : force = false ∧ (ongoingTasks v.tasks).isEmpty = false := by
  rw [Doomed, not_and, not_or] at stays
  obtain ⟨calm, busy⟩ := stays here
  exact ⟨by simpa using calm, by simpa using busy⟩

theorem visit_thins {s : PendingSlice} {jobId : String} {force : Bool} {index cell : Nat} {v : PendingJobItem}
    (pointer : s.slots[index]? = some cell) (found : s.cells[cell]? = some v) (here : ofJob jobId v)
    (stays : ¬ Doomed jobId force v) : s.visit jobId force index =
      some ({ s with cells := s.cells.set cell (thinned jobId v) }, false) := by
  obtain ⟨calm, busy⟩ := stays_of_job here stays
  rw [visit_job pointer found here, calm, busy]
  rfl

/-- A visit of an item that stays leaves it without its tasks that are not ongoing. -/
theorem Lies.visit_stays (lies : Lies s done (c :: todo) deleted final front (v :: items))
    (stays : ¬ Doomed jobId force v) {index : Nat} (pointer : s.slots[index]? = some c) :
    ∃ s' forget, s.visit jobId force index = some (s', forget) ∧
      Lies s' done (c :: todo) deleted final front (thinned jobId v :: items) := by
  have found := lies.here.2
  by_cases here : ofJob jobId v
  · exact ⟨_, false, visit_thins pointer found here stays, lies.set (thinned jobId v)⟩
  · rw [thinned_of_other here]
    exact ⟨s, false, visit_other pointer found here, lies⟩

/-- The slots after a deletion of the slot at the index. -/
theorem Lies.delete (lies : Lies s done (c :: todo) deleted final front (v :: items))
    (last : (c :: todo).getLast? = some final) : ∃ s', s.delPendingAt done.length = some s' ∧
      Lies s' done todo (deleted + 1) final front items := by
  have inside : done.length < s.len := by
    rw [lies.len, List.length_cons]
    omega
  refine ⟨_, if_pos inside, ?_⟩
  obtain ⟨initial, split⟩ := List.getLast?_eq_some_iff.mp last
  have fewer : (c :: todo).length = initial.length + 1 := by
    rw [split, List.length_append]
    rfl
  have kept : s.slots.take s.len = done ++ c :: todo := by
    rw [lies.slots, lies.len, List.take_left']
    simp
  have behind : s.slots.drop (s.len - 1) = final :: List.replicate deleted final := by
    rw [lies.slots, lies.len, split, ← List.append_assoc, List.append_assoc _ [final], List.drop_left']
    · rfl
    · rw [List.length_append, List.length_append]
      rfl
  have first : s.slots.take done.length = done := by
    rw [lies.slots, List.append_assoc, List.take_left' rfl]
  have later : (done ++ c :: todo).drop (done.length + 1) = todo := by
    simp [List.drop_append]
  constructor
  · dsimp only
    rw [behind, kept, first, later, List.replicate_succ]
  · dsimp only
    rw [lies.len, List.length_cons]
    omega
  · exact lies.distinct.sublist ((List.sublist_cons_self c todo).append_left done)
  · exact lies.passed
  · exact (List.cons.inj lies.ahead).2

/-- A deletion leaves the cell of the item. -/
theorem Lies.visit_doomed (lies : Lies s done (c :: todo) deleted final front (v :: items))
    (last : (c :: todo).getLast? = some final) (doomed : Doomed jobId force v) :
    ∃ s' forget, s.visit jobId force done.length = some (s', forget) ∧
      Lies s' done todo (deleted + 1) final front items ∧
      ∃ left, s'.cells[c]? = some left ∧ Doomed jobId force left := by
  obtain ⟨pointer, found⟩ := lies.here
  by_cases forced : force = true
  · obtain ⟨s', removed, after⟩ := lies.delete last
    refine ⟨s', true, ?_, after, v, ?_, doomed⟩
    · rw [visit_job pointer found doomed.1, if_pos forced, removed]
      rfl
    · rw [delPendingAt_cells removed]
      exact found
  · obtain ⟨s', removed, after⟩ := (lies.set (thinned jobId v)).delete last
    have idle : ongoingTasks v.tasks = [] := doomed.2.resolve_left forced
    refine ⟨s', decide (v.context.status ≠ .inProgress), ?_, after, thinned jobId v, ?_, doomed_thinned.mpr doomed⟩
    · rw [visit_job pointer found doomed.1, if_neg forced, idle, removed]
      rfl
    · rw [delPendingAt_cells removed]
      exact (lies.set (thinned jobId v)).here.2

/-- There is nothing to delete behind the list. -/
theorem visit_outside {index cell : Nat} (pointer : s.slots[index]? = some cell) (found : s.cells[cell]? = some v)
    (doomed : Doomed jobId force v) (outside : s.len ≤ index) : s.visit jobId force index = none := by
  have past : ¬ index < s.len := Nat.not_lt.mpr outside
  rw [visit_job pointer found doomed.1, delPendingAt, if_neg past, delPendingAt, if_neg past]
  rcases doomed.2 with forced | idle
  · rw [if_pos forced]
    rfl
  · rw [idle]
    exact ite_self _

/-- Behind the list, a slot points to its last item still. -/
theorem Lies.behind (lies : Lies s done [c] deleted c front [v]) {index : Nat} (passed : done.length < index)
    (within : index < done.length + 1 + deleted) : s.slots[index]? = some c := by
  rw [lies.slots, List.getElem?_append_right (by simpa using Nat.succ_le_of_lt passed), List.getElem?_replicate]
  refine if_pos ?_
  simp only [List.length_append, List.length_cons, List.length_nil]
  omega

/-- When that one stays, every further visit leaves it as the first one did. -/
theorem Lies.stale_stays (lies : Lies s done [c] deleted c front [v]) (stays : ¬ Doomed jobId force v)
    (thin : thinned jobId v = v) {index fuel : Nat} (passed : done.length < index)
    (within : index + fuel ≤ done.length + 1 + deleted) (forget : Bool) :
    (sweep jobId force fuel index s forget).map (fun left => left.1.toList) = some (front ++ [v]) := by
  induction fuel generalizing index s forget with
  | zero => exact congrArg some lies.toList
  | succ fuel ih =>
    obtain ⟨s', more, visited, after⟩ := lies.visit_stays stays (lies.behind passed (by omega))
    rw [thin] at after
    rw [sweep, visited]
    exact ih after (Nat.lt_succ_of_lt passed) (by omega) (forget || more)

/-- The loop from an index on. -/
theorem Lies.sweep_eq (lies : Lies s done todo deleted final front items)
    (last : todo.getLast? = some final) (forget : Bool) :
    (sweep jobId force (todo.length + deleted) done.length s forget).map (fun left => left.1.toList) =
      (swept jobId force (decide (0 < deleted)) items).map (front ++ ·) := by
  generalize moved : decide (0 < deleted) = gone
  fun_induction swept jobId force gone items generalizing s done todo deleted front forget with
  | case1 gone =>
    cases todo with
    | nil => cases last
    | cons c todo => cases lies.ahead
  | case2 v doomed =>
    -- the slot behind the list, which an earlier deletion has left, points to this item
    obtain ⟨c, rfl⟩ := lies.todo_singleton
    cases last
    obtain ⟨s', more, visited, after, left, found, still⟩ := lies.visit_doomed rfl doomed
    obtain ⟨fewer, rfl⟩ := Nat.exists_eq_add_one.mpr (of_decide_eq_true moved)
    have pointer : s'.slots[done.length + 1]? = some c := by
      rw [after.slots, List.append_nil, List.getElem?_append_right (Nat.le_succ _), List.getElem?_replicate]
      exact if_pos (by omega)
    have nothing : s'.visit jobId force (done.length + 1) = none := by
      refine visit_outside pointer found still ?_
      rw [after.len]
      exact Nat.le_succ _
    rw [List.length_singleton, Nat.add_comm, sweep, visited]
    simp only [bind, Option.bind_some, sweep, nothing]
    rfl
  | case3 gone v doomed still =>
    obtain ⟨c, rfl⟩ := lies.todo_singleton
    cases last
    obtain ⟨s', more, visited, after, -⟩ := lies.visit_doomed rfl doomed
    have first : deleted = 0 := by simpa [← moved] using still
    subst first
    rw [List.length_singleton, sweep, visited]
    exact congrArg some after.toList
  | case4 gone v stays =>
    obtain ⟨c, rfl⟩ := lies.todo_singleton
    cases last
    obtain ⟨s', more, visited, after⟩ := lies.visit_stays stays lies.here.1
    rw [List.length_singleton, Nat.add_comm, sweep, visited]
    exact after.stale_stays (doomed_thinned.not.mpr stays) (thinned_twice jobId v) (Nat.lt_succ_self _)
      (Nat.le_refl _) (forget || more)
  | case5 gone v w doomed ih =>
    -- the last item is not visited at its own index, only through the slot behind it
    obtain ⟨c, todo, rfl⟩ := lies.todo_cons
    obtain ⟨s', more, visited, after, -⟩ := lies.visit_doomed last doomed
    obtain ⟨c', rfl⟩ := after.todo_singleton
    cases last
    have pointer := after.behind (Nat.lt_succ_self done.length) (by omega)
    have fuel : [c, c'].length + deleted = deleted + 1 + 1 := Nat.add_comm 2 deleted
    rw [fuel, sweep, visited, swept]
    by_cases going : Doomed jobId force w
    · have nothing : s'.visit jobId force (done.length + 1) = none := by
        refine visit_outside pointer after.here.2 going ?_
        rw [after.len]
        exact Nat.le_refl _
      simp only [bind, Option.bind_some, sweep, nothing]
      rw [if_pos going]
      rfl
    · obtain ⟨s'', again, visited, left⟩ := after.visit_stays going pointer
      simp only [bind, Option.bind_some, sweep, visited]
      rw [if_neg going]
      exact left.stale_stays (doomed_thinned.not.mpr going) (thinned_twice jobId w)
        (Nat.lt_succ_of_lt (Nat.lt_succ_self _)) (by omega) _
  | case6 gone v w doomed u more ih =>
    obtain ⟨c, todo, rfl⟩ := lies.todo_cons
    obtain ⟨s', removes, visited, after, -⟩ := lies.visit_doomed last doomed
    obtain ⟨c', todo, rfl⟩ := after.todo_cons
    obtain ⟨c'', todo, rfl⟩ := after.pass.todo_cons
    have fuel : (c :: c' :: c'' :: todo).length + deleted = (c'' :: todo).length + (deleted + 1) + 1 := by
      simp only [List.length_cons]
      omega
    rw [fuel, sweep, visited]
    have later := ih after.pass last (forget || removes) (by simp)
    rw [List.length_append] at later
    refine later.trans ?_
    cases swept jobId force true (u :: more) with
    | none => rfl
    | some left => simp
  | case7 gone v w rest stays ih =>
    obtain ⟨c, todo, rfl⟩ := lies.todo_cons
    obtain ⟨s', more, visited, after⟩ := lies.visit_stays stays lies.here.1
    obtain ⟨c', todo, rfl⟩ := after.pass.todo_cons
    rw [List.length_cons, Nat.add_right_comm, sweep, visited]
    have later := ih after.pass last (forget || more) moved
    rw [List.length_append] at later
    refine later.trans ?_
    cases swept jobId force gone (w :: rest) with
    | none => rfl
    | some left => simp

theorem lies_ofList (pending : List PendingJobItem) (final : Nat) :
    Lies (ofList pending) [] (List.range pending.length) 0 final [] pending := by
  constructor
  · simp [ofList]
  · simp [ofList]
  · exact List.nodup_range
  · rfl
  · exact List.ext_getElem (by simp) fun index inside _ => by simp [ofList]

end

end PendingSlice

open PendingSlice

/-- What the message leaves of the pending list. -/
theorem removePendingJob_eq (jobId : String) (force : Bool) (pending : List PendingJobItem) :
    (removePendingJob jobId force pending).map Prod.fst = swept jobId force false pending := by
  rw [removePendingJob, Option.map_map]
  cases pending with
  | nil => rfl
  | cons v rest =>
    have last : (List.range (v :: rest).length).getLast? = some rest.length := by
      rw [List.length_cons, List.range_succ, List.getLast?_concat]
    have ran : (PendingSlice.sweep jobId force _ _ _ false).map _ = _ :=
      (lies_ofList (v :: rest) rest.length).sweep_eq last false
    rw [List.length_range] at ran
    refine ran.trans ?_
    simp

/-- The message takes every item of the job that it should out of the list, and no other,
exactly when no such item stands behind another one in the array that the loop reads. -/
theorem pendingJob_removed_iff (jobId : String) (force : Bool) (pending : List PendingJobItem) :
    (removePendingJob jobId force pending).map Prod.fst = some (withoutJob jobId force pending) ↔
      Sparse jobId force pending := by
  rw [removePendingJob_eq, swept_eq_some_iff]
  exact and_iff_left (fun no => nomatch no)

/-- A job that has been created again while its first creation is still queued. -/
def createdTwice : List PendingJobItem :=
  let context : JobContext := ⟨"lights", "turnOn", none, none, none, .inProgress⟩
  [⟨context, [⟨"lights", 1, "lamp", "turnOn", .queued, none, 0⟩], []⟩,
    ⟨context, [⟨"lights", 2, "lamp", "turnOn", .queued, none, 0⟩], []⟩]

theorem createdTwice_out_of_range : ¬ ∀ (jobId : String) (force : Bool) (pending : List PendingJobItem),
    (removePendingJob jobId force pending).map Prod.fst = some (withoutJob jobId force pending) := by
  intro removed
  have panics : (removePendingJob "lights" true createdTwice).map Prod.fst = none := by
    decide +kernel
  exact absurd (panics.symm.trans (removed "lights" true createdTwice)) (by simp)

end Tio.Job
