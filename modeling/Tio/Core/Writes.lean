import Tio.Core.Assoc

namespace Tio.Core.Assoc

variable {Key Value : Type*}

/-- No pair of the list is written after this one under its key. -/
def LastOf (pairs : List (Key × Value)) (key : Key) (value : Value) : Prop :=
  ∃ front back, pairs = front ++ (key, value) :: back ∧ ∀ pair ∈ back, pair.1 ≠ key

theorem LastOf.mem {key : Key} {value : Value} {pairs : List (Key × Value)} (last : LastOf pairs key value) :
    (key, value) ∈ pairs := by
  obtain ⟨front, back, rfl, -⟩ := last
  exact List.mem_append_right front List.mem_cons_self

variable [DecidableEq Key]

def writeAll (pairs : List (Key × Value)) (entries : List (Key × Value)) : List (Key × Value) :=
  pairs.foldl (fun entries pair => set pair.1 pair.2 entries) entries

theorem writeAll_append (front back : List (Key × Value)) (entries : List (Key × Value)) :
    writeAll (front ++ back) entries = writeAll back (writeAll front entries) := List.foldl_append

theorem get_writeAll_of_fresh {key : Key} {pairs : List (Key × Value)} (fresh : ∀ pair ∈ pairs, pair.1 ≠ key)
    (entries : List (Key × Value)) : get key (writeAll pairs entries) = get key entries := by
  induction pairs generalizing entries with
  | nil => rfl
  | cons pair rest ih =>
    have later := ih (fun other member => fresh other (List.mem_cons_of_mem pair member)) (set pair.1 pair.2 entries)
    exact later.trans (get_set_other (fresh pair List.mem_cons_self) pair.2 entries)

theorem get_writeAll_of_lastOf {key : Key} {value : Value} {pairs : List (Key × Value)}
    (last : LastOf pairs key value) (entries : List (Key × Value)) :
    get key (writeAll pairs entries) = some value := by
  obtain ⟨front, back, rfl, fresh⟩ := last
  rw [writeAll_append]
  exact (get_writeAll_of_fresh fresh _).trans (get_set_self key value _)

/-- A key that is written has a last pair. -/
theorem exists_lastOf {key : Key} {pairs : List (Key × Value)} (written : ∃ pair ∈ pairs, pair.1 = key) :
    ∃ value, LastOf pairs key value := by
  induction pairs with
  | nil =>
    obtain ⟨pair, no, -⟩ := written
    cases no
  | cons pair rest ih =>
    by_cases again : ∃ other ∈ rest, other.1 = key
    · obtain ⟨value, front, back, split, fresh⟩ := ih again
      exact ⟨value, pair :: front, back, by rw [split]; rfl, fresh⟩
    · obtain ⟨other, member, same⟩ := written
      rcases List.mem_cons.mp member with rfl | later
      · refine ⟨other.2, [], rest, ?_, fun next member same => again ⟨next, member, same⟩⟩
        rw [← same]
        rfl
      · exact absurd ⟨other, later, same⟩ again

theorem get_writeAll_iff {key : Key} {value : Value} {pairs : List (Key × Value)} :
    get key (writeAll pairs []) = some value ↔ LastOf pairs key value := by
  constructor
  · intro found
    by_cases written : ∃ pair ∈ pairs, pair.1 = key
    · obtain ⟨other, last⟩ := exists_lastOf written
      rw [get_writeAll_of_lastOf last] at found
      cases found
      exact last
    · rw [get_writeAll_of_fresh fun pair member same => written ⟨pair, member, same⟩] at found
      cases found
  · intro last
    exact get_writeAll_of_lastOf last []

theorem nodup_keys_writeAll (pairs : List (Key × Value)) {entries : List (Key × Value)}
    (distinct : (keys entries).Nodup) : (keys (writeAll pairs entries)).Nodup := by
  induction pairs generalizing entries with
  | nil => exact distinct
  | cons pair rest ih => exact ih (nodup_keys_set distinct)

/-- The map holds the last pairs of all keys. -/
theorem mem_writeAll_iff {key : Key} {value : Value} {pairs : List (Key × Value)} :
    (key, value) ∈ writeAll pairs [] ↔ LastOf pairs key value := by
  rw [← get_writeAll_iff]
  exact ⟨get_of_mem (nodup_keys_writeAll pairs List.nodup_nil), mem_of_get⟩

end Tio.Core.Assoc
