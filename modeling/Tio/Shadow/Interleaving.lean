import Tio.Core.Optimistic
import Tio.Shadow.Reachable

/-! Set and tag calls whose transactions interleave: each reads the row in one
step and writes it in a later one. Only a call that carries a version has its
write checked against the row that is stored by then. -/

namespace Tio.Shadow

open Tio.Core Tio.Json

def Request.version : Request → Int
  | .desired sr | .reported sr => sr.version
  | .tag t => t.version

/-- What a call has in hand after its read. -/
def prepare (call : Call) (row : Entity) : Except Failure Shadow :=
  match call.request with
  | .desired sr => (prepareState call.times.merge sr true (some row)).map Prepared.next
  | .reported sr => (prepareState call.times.merge sr false (some row)).map Prepared.next
  | .tag t => prepareTag t (some row)

/-- What its write does. -/
def commit (call : Call) (draft : Shadow) (row : Entity) : Except Failure Entity :=
  update call.times.saved call.request.version draft (some row)

theorem map_eq_ok {first : Except ε α} {f : α → β} {result : β} :
    first.map f = .ok result ↔ ∃ value, first = .ok value ∧ f value = result := by
  cases first <;> simp [Except.map]

theorem matchVersion_eq_ok {version : Int} {row : Entity} :
    matchVersion version (toShadow row) = .ok () ↔ Accepted version row := by
  refine ⟨fun matched => ?_, matchVersion_accepted⟩
  by_contra refused
  obtain ⟨detail, conflict⟩ := matchVersion_refused refused
  rw [conflict] at matched
  cases matched

theorem prepareState_version {clock : Clock} {sr : StateReq} {isDesired : Bool} {row : Entity}
    {prepared : Prepared} (done : prepareState clock sr isDesired (some row) = .ok prepared) :
    Accepted sr.version row ∧ prepared.next.version = row.version + 1 := by
  obtain ⟨ss, found, matching⟩ := bind_eq_ok.mp done
  cases found
  obtain ⟨_, matched, merging⟩ := bind_eq_ok.mp matching
  refine ⟨matchVersion_eq_ok.mp matched, ?_⟩
  cases isDesired
  all_goals
    simp only [Bool.false_eq_true, ↓reduceIte] at merging
    obtain ⟨src, -, merging⟩ := bind_eq_ok.mp merging
    obtain ⟨⟨document, metadata, updatedMeta⟩, -, last⟩ := bind_eq_ok.mp merging
    cases last
    rfl

theorem prepare_version {call : Call} {row : Entity} {draft : Shadow}
    (done : prepare call row = .ok draft) :
    Accepted call.request.version row ∧ draft.version = row.version + 1 := by
  rw [prepare] at done
  cases asked : call.request with
  | desired sr | reported sr =>
    rw [asked] at done
    obtain ⟨prepared, made, rfl⟩ := map_eq_ok.mp done
    exact prepareState_version made
  | tag t =>
    rw [asked] at done
    obtain ⟨cur, found, matching⟩ := bind_eq_ok.mp done
    cases found
    obtain ⟨_, matched, last⟩ := bind_eq_ok.mp matching
    cases last
    exact ⟨matchVersion_eq_ok.mp matched, rfl⟩

theorem commit_eq_ok {call : Call} {draft : Shadow} {row en : Entity} :
    commit call draft row = .ok en ↔
      (0 < call.request.version → row.version = call.request.version) ∧
        toEntity call.times.saved draft = en := by
  rw [commit, update]
  split
  · rename_i stale
    refine iff_of_false (by simp) ?_
    rintro ⟨same, -⟩
    exact stale.2 (congrArg some (same stale.1))
  · rename_i fine
    rw [Except.ok.injEq]
    refine (and_iff_right fun positive => ?_).symm
    by_contra different
    exact fine ⟨positive, fun same => different (Option.some.inj same)⟩

private theorem setState_row {times : Times} {sr : StateReq} {isDesired : Bool} {row en : Entity}
    {draft : Shadow}
    (prepared : (prepareState times.merge sr isDesired (some row)).map Prepared.next = .ok draft)
    (committed : update times.saved sr.version draft (some row) = .ok en) :
    (setState times sr isDesired (some row)).1 = some en := by
  obtain ⟨made, done, rfl⟩ := map_eq_ok.mp prepared
  have whole : transact times sr isDesired (some row) = .ok (made, en) :=
    bind_eq_ok.mpr ⟨made, done, bind_eq_ok.mpr ⟨en, committed, rfl⟩⟩
  rw [setState, whole]

/-- A read and a write without anything between them are the call. -/
theorem serve_of_commit {call : Call} {row en : Entity} {draft : Shadow}
    (prepared : prepare call row = .ok draft) (committed : commit call draft row = .ok en) :
    (serve row call).1 = en := by
  rw [prepare] at prepared
  rw [commit] at committed
  cases asked : call.request with
  | desired sr =>
    rw [asked] at prepared committed
    simp only [serve, asked, setState_row prepared committed, Option.getD_some]
  | reported sr =>
    rw [asked] at prepared committed
    have same : (setReported call.times sr (some row)).1 = (setState call.times sr false (some row)).1 := by
      rw [setReported]
      split <;> rename_i answered <;> rw [answered]
    simp only [serve, asked, same, setState_row prepared committed, Option.getD_some]
  | tag t =>
    rw [asked] at prepared committed
    have whole : (prepareTag t (some row) >>= fun next =>
        update call.times.saved t.version next (some row)) = .ok en :=
      bind_eq_ok.mpr ⟨draft, prepared, committed⟩
    simp only [serve, asked, setTag, whole, Option.getD_some]

variable {Client : Type}

/-- The stored row as the calls of the clients read and write it. -/
def cell (calls : Client → Call) : Optimistic.Cell Client Entity Shadow where
  version := Entity.version
  based draft := draft.version - 1
  read client row := (prepare (calls client) row).toOption
  write client draft row := (commit (calls client) draft row).toOption
  read_based client row draft answered := by
    have done : prepare (calls client) row = .ok draft := by
      cases answer : prepare (calls client) row <;> simp_all [Except.toOption]
    have := (prepare_version done).2
    omega
  write_version client draft row next answered := by
    have done : commit (calls client) draft row = .ok next := by
      cases answer : commit (calls client) draft row <;> simp_all [Except.toOption]
    obtain ⟨-, rfl⟩ := commit_eq_ok.mp done
    simp [toEntity]

theorem toOption_eq_some {result : Except ε α} {value : α} :
    result.toOption = some value ↔ result = .ok value := by
  cases result <;> simp [Except.toOption]

/-- The acknowledged calls, one after the other in the order of their writes,
lead to the same documents and tags, and each of them counts in the version. -/
structure Lossless (calls : Client → Call) (start : Entity)
    (world : Optimistic.World Client Entity Shadow) : Prop where
  desired : world.row.desired = (serveAll start (world.acked.map calls)).desired
  reported : world.row.reported = (serveAll start (world.acked.map calls)).reported
  tags : world.row.tags = (serveAll start (world.acked.map calls)).tags
  version : world.row.version = start.version + world.acked.length

/-- A call that writes without a version finds the row at the version it read. -/
def ReadsCurrent (calls : Client → Call) (world : Optimistic.World Client Entity Shadow) :
    Optimistic.Event Client → Prop
  | .read _ => True
  | .write client => ∀ draft, world.phase client = .holding draft →
    (calls client).request.version = 0 → world.row.version + 1 = draft.version

/-- Versions are positive, and a draft of a call with a version is one above it. -/
structure Versioned (calls : Client → Call) (world : Optimistic.World Client Entity Shadow) :
    Prop where
  row : 1 ≤ world.row.version
  draft : ∀ client draft, world.phase client = .holding draft → 2 ≤ draft.version ∧
    ((calls client).request.version ≠ 0 → draft.version = (calls client).request.version + 1)

theorem replay_serveAll {calls : Client → Call} {start finish : Entity} {clients : List Client}
    (replayed : Optimistic.replay (cell calls) start clients = some finish) :
    serveAll start (clients.map calls) = finish := by
  induction clients generalizing start with
  | nil =>
    cases replayed
    rfl
  | cons client rest ih =>
    obtain ⟨next, taken, onward⟩ := Option.bind_eq_some_iff.mp replayed
    obtain ⟨draft, prepared, committed⟩ := Option.bind_eq_some_iff.mp taken
    have same := serve_of_commit (toOption_eq_some.mp prepared) (toOption_eq_some.mp committed)
    rw [← ih onward, ← same]
    rfl

theorem lossless_of_consistent {calls : Client → Call} {start : Entity}
    {world : Optimistic.World Client Entity Shadow}
    (consistent : Optimistic.Consistent (cell calls) start world) : Lossless calls start world := by
  have same := replay_serveAll consistent.replayed
  exact ⟨by rw [same], by rw [same], by rw [same], consistent.counted⟩

/-- Only a write without a version can go through on a row that has moved on. -/
theorem fresh_iff_readsCurrent {calls : Client → Call}
    {world : Optimistic.World Client Entity Shadow} (versioned : Versioned calls world)
    (event : Optimistic.Event Client) :
    Optimistic.Fresh (cell calls) world event ↔ ReadsCurrent calls world event := by
  cases event with
  | read client => exact Iff.rfl
  | write client =>
    constructor
    · intro fresh draft held bare
      have written : commit (calls client) draft world.row =
          .ok (toEntity (calls client).times.saved draft) :=
        commit_eq_ok.mpr ⟨fun positive => absurd bare (Int.ne_of_gt positive), rfl⟩
      have based : draft.version - 1 = world.row.version :=
        fresh draft _ held (toOption_eq_some.mpr written)
      omega
    · intro current draft next held written
      change draft.version - 1 = world.row.version
      obtain ⟨positive, exact_version⟩ := versioned.draft client draft held
      by_cases bare : (calls client).request.version = 0
      · have := current draft held bare
        omega
      · have checked := (commit_eq_ok.mp (toOption_eq_some.mp written)).1
        have above := exact_version bare
        have stored := checked (by omega)
        omega

variable [DecidableEq Client]

theorem versioned_step {calls : Client → Call} {world next : Optimistic.World Client Entity Shadow}
    {event : Optimistic.Event Client} (versioned : Versioned calls world)
    (taken : Optimistic.step (cell calls) world event = some next) : Versioned calls next := by
  obtain ⟨client, draft, -, answered, rfl⟩ | ⟨client, draft, row, -, held, written, rfl⟩ |
    ⟨client, rfl, -⟩ := Optimistic.step_cases _ taken
  · obtain ⟨accepted, version⟩ := prepare_version (toOption_eq_some.mp answered)
    refine ⟨versioned.row, fun other found there => ?_⟩
    rw [Optimistic.World.enter_phase] at there
    split at there
    · rename_i same
      cases there
      subst same
      have := versioned.row
      refine ⟨by omega, fun given => ?_⟩
      rcases accepted with none | same
      · exact absurd none given
      · omega
    · exact versioned.draft other found there
  · obtain ⟨-, rfl⟩ := commit_eq_ok.mp (toOption_eq_some.mp written)
    refine ⟨?_, fun other found there => ?_⟩
    · have := (versioned.draft client draft held).1
      change 1 ≤ draft.version
      omega
    · rw [Optimistic.World.enter_phase] at there
      split at there
      · cases there
      · exact versioned.draft other found there
  · refine ⟨versioned.row, fun other found there => ?_⟩
    rw [Optimistic.World.enter_phase] at there
    split at there
    · cases there
    · exact versioned.draft other found there

/-- No acknowledged call is lost, along every interleaving on a shadow that any
history of calls led to, exactly when every write without a version finds the
row that its call read. -/
theorem lossless_iff_readsCurrent (thingId : String) (now : Int) (history : List Call)
    (calls : Client → Call) (events : List (Optimistic.Event Client)) :
    Always (Optimistic.step (cell calls))
        (fun _ _ next => Lossless calls (serveAll (create thingId now) history) next)
        (Optimistic.initial (serveAll (create thingId now) history)) events ↔
      Meets (Optimistic.step (cell calls)) (ReadsCurrent calls)
        (Optimistic.initial (serveAll (create thingId now) history)) events := by
  have sound := sound_serveAll (sound_create thingId now) history
  generalize serveAll (create thingId now) history = start at sound
  have versioned : Versioned calls (Optimistic.initial start) :=
    ⟨sound.version, by simp [Optimistic.initial]⟩
  have same : Meets (Optimistic.step (cell calls)) (Optimistic.Fresh (cell calls))
      (Optimistic.initial start) events ↔
      Meets (Optimistic.step (cell calls)) (ReadsCurrent calls) (Optimistic.initial start) events :=
    always_iff_meets (Versioned calls)
      (fun _ event _ fine _ => fresh_iff_readsCurrent fine event)
      (fun _ _ _ fine _ taken => versioned_step fine taken) events versioned
  rw [← same]
  constructor
  · intro lossless
    refine (Optimistic.counted_iff_fresh (cell calls) start events).mp ?_
    exact lossless.mono fun _ _ _ here => here.version
  · intro fresh
    refine (Optimistic.consistent_of_fresh (cell calls) start fresh).mono ?_
    exact fun _ _ _ consistent => lossless_of_consistent consistent

/-- Two calls that read before either writes: both are acknowledged, one is gone. -/
theorem blind_write_loses_update : ¬ ∀ (thingId : String) (now : Int) (history : List Call)
    (calls : Bool → Call) (events : List (Optimistic.Event Bool)),
    Always (Optimistic.step (cell calls))
      (fun _ _ next => Lossless calls (serveAll (create thingId now) history) next)
      (Optimistic.initial (serveAll (create thingId now) history)) events := by
  intro always
  have last := ((((always "lamp" 0 [] (fun first =>
    ⟨⟨⟨fun _ => 0, fun _ => 0⟩, 0, 0, 0, 0⟩, .desired
      ⟨some ⟨[(if first then "color" else "power", .num 1)], by cases first <;> decide⟩, none, "", 0⟩⟩)
    [.read true, .read false, .write true, .write false] _ rfl).2 _ rfl).2 _ rfl).2 _ rfl).1
  exact absurd last.version (by decide)

end Tio.Shadow
