/-! Runs of a labelled partial step function. A property of whole runs is a
property of every step taken along the labels; a label that is not enabled
ends the run there. -/

namespace Tio.Core

universe u v

variable {State : Type u} {Label : Type v} {step : State → Label → Option State}

/-- Take the labels one after the other; every one of them must be enabled. -/
def execute (step : State → Label → Option State) : State → List Label → Option State
  | start, [] => some start
  | start, label :: rest => (step start label).bind fun next => execute step next rest

/-- Every step taken along the labels satisfies `good`. -/
def Always (step : State → Label → Option State) (good : State → Label → State → Prop) :
    State → List Label → Prop
  | _, [] => True
  | start, label :: rest =>
    ∀ next, step start label = some next → good start label next ∧ Always step good next rest

/-- Every step taken along the labels starts in a state that meets `condition`. -/
def Meets (step : State → Label → Option State) (condition : State → Label → Prop) :
    State → List Label → Prop :=
  Always step fun start label _ => condition start label

theorem always_cons_of_none {good : State → Label → State → Prop} {start : State} {label : Label}
    {rest : List Label} (stuck : step start label = none) : Always step good start (label :: rest) := by
  intro next taken
  rw [stuck] at taken
  cases taken

theorem always_cons_iff {good : State → Label → State → Prop} {start next : State} {label : Label}
    {rest : List Label} (taken : step start label = some next) :
    Always step good start (label :: rest) ↔ good start label next ∧ Always step good next rest := by
  constructor
  · exact fun every => every next taken
  · intro both other taken'
    rw [taken] at taken'
    cases taken'
    exact both

/-- A property of a run can be checked along it. -/
instance Always.decidable {good : State → Label → State → Prop}
    [∀ start label next, Decidable (good start label next)] :
    ∀ (start : State) (labels : List Label), Decidable (Always step good start labels)
  | _, [] => isTrue trivial
  | start, label :: rest =>
    match taken : step start label with
    | none => isTrue (always_cons_of_none taken)
    | some next =>
      have : Decidable (Always step good next rest) := Always.decidable next rest
      decidable_of_iff _ (always_cons_iff taken).symm

instance {condition : State → Label → Prop} [∀ start label, Decidable (condition start label)]
    (start : State) (labels : List Label) : Decidable (Meets step condition start labels) :=
  inferInstanceAs (Decidable (Always step (fun start label _ => condition start label) start labels))

@[simp] theorem execute_nil (start : State) : execute step start [] = some start := rfl

theorem execute_cons_eq_some {start finish : State} {label : Label} {rest : List Label} :
    execute step start (label :: rest) = some finish ↔
      ∃ next, step start label = some next ∧ execute step next rest = some finish := by
  simp [execute, Option.bind_eq_some_iff]

theorem Always.mono {weak strong : State → Label → State → Prop}
    (weaker : ∀ start label next, strong start label next → weak start label next)
    {start : State} {labels : List Label} (every : Always step strong start labels) :
    Always step weak start labels := by
  induction labels generalizing start with
  | nil => trivial
  | cons label rest ih =>
    intro next taken
    obtain ⟨here, later⟩ := every next taken
    exact ⟨weaker _ _ _ here, ih later⟩

/-- Every run meets the condition that asks nothing. -/
theorem meets_true (start : State) (labels : List Label) :
    Meets step (fun _ _ => True) start labels := by
  induction labels generalizing start with
  | nil => trivial
  | cons label rest ih => exact fun next _ => ⟨trivial, ih next⟩

/-- A condition on the labels alone is met along them. -/
theorem meets_of_labels {condition : State → Label → Prop} {labels : List Label}
    (fine : ∀ label ∈ labels, ∀ start, condition start label) (start : State) :
    Meets step condition start labels := by
  induction labels generalizing start with
  | nil => trivial
  | cons label rest ih =>
    intro next _
    refine ⟨fine label List.mem_cons_self start, ih (fun other member => ?_) next⟩
    exact fine other (List.mem_cons_of_mem _ member)

theorem Always.and {first second : State → Label → State → Prop} {start : State} {labels : List Label}
    (one : Always step first start labels) (other : Always step second start labels) :
    Always step (fun start label next => first start label next ∧ second start label next) start labels := by
  induction labels generalizing start with
  | nil => trivial
  | cons label rest ih =>
    intro next taken
    obtain ⟨here, later⟩ := one next taken
    obtain ⟨here', later'⟩ := other next taken
    exact ⟨⟨here, here'⟩, ih later later'⟩

theorem Always.append {good : State → Label → State → Prop} {start : State} {first second : List Label}
    (before : Always step good start first)
    (later : ∀ middle, execute step start first = some middle → Always step good middle second) :
    Always step good start (first ++ second) := by
  induction first generalizing start with
  | nil => exact later start rfl
  | cons label rest ih =>
    intro next taken
    obtain ⟨here, onward⟩ := before next taken
    refine ⟨here, ih onward fun middle reached => later middle ?_⟩
    exact execute_cons_eq_some.mpr ⟨next, taken, reached⟩

/-- Along an executed prefix the property also holds of what follows it. -/
theorem Always.after {good : State → Label → State → Prop} {start middle : State}
    {first second : List Label} (every : Always step good start (first ++ second))
    (reached : execute step start first = some middle) : Always step good middle second := by
  induction first generalizing start with
  | nil =>
    simp only [execute_nil, Option.some.injEq] at reached
    subst reached
    exact every
  | cons label rest ih =>
    obtain ⟨next, taken, onward⟩ := execute_cons_eq_some.mp reached
    exact ih (every next taken).2 onward

/-- What every step keeps, whatever the label, holds at the end of a run. -/
theorem execute_preserves {invariant : State → Prop}
    (keeps : ∀ start label next, invariant start → step start label = some next → invariant next)
    {start finish : State} {labels : List Label} (initial : invariant start)
    (reached : execute step start labels = some finish) : invariant finish := by
  induction labels generalizing start with
  | nil =>
    simp only [execute_nil, Option.some.injEq] at reached
    exact reached ▸ initial
  | cons label rest ih =>
    obtain ⟨next, taken, onward⟩ := execute_cons_eq_some.mp reached
    exact ih (keeps _ _ _ initial taken) onward

/-- Every step is good when the steps that meet the condition are good and keep
the invariant the argument rests on. -/
theorem Meets.always {condition : State → Label → Prop} (invariant : State → Prop)
    {good : State → Label → State → Prop}
    (sound : ∀ start label next, invariant start → condition start label →
      step start label = some next → good start label next ∧ invariant next)
    {start : State} {labels : List Label} (meets : Meets step condition start labels)
    (initial : invariant start) : Always step good start labels := by
  induction labels generalizing start with
  | nil => trivial
  | cons label rest ih =>
    intro next taken
    obtain ⟨here, later⟩ := meets next taken
    obtain ⟨fine, kept⟩ := sound _ _ _ initial here taken
    exact ⟨fine, ih later kept⟩

/-- What the steps that meet the condition keep holds after an executed prefix. -/
theorem Meets.reached {condition : State → Label → Prop} {invariant : State → Prop}
    (keeps : ∀ start label next, invariant start → condition start label → step start label = some next →
      invariant next)
    {start middle : State} {first second : List Label} (meets : Meets step condition start (first ++ second))
    (reached : execute step start first = some middle) (initial : invariant start) : invariant middle := by
  induction first generalizing start with
  | nil =>
    simp only [execute_nil, Option.some.injEq] at reached
    exact reached ▸ initial
  | cons label rest ih =>
    obtain ⟨next, taken, onward⟩ := execute_cons_eq_some.mp reached
    obtain ⟨here, later⟩ := meets next taken
    exact ih later onward (keeps _ _ _ initial here taken)

/-- The condition is exact when, under the invariant, a step is good precisely
if it meets the condition. -/
theorem always_iff_meets {condition : State → Label → Prop} (invariant : State → Prop)
    {good : State → Label → State → Prop}
    (exact_step : ∀ start label next, invariant start → step start label = some next →
      (good start label next ↔ condition start label))
    (keeps : ∀ start label next, invariant start → condition start label →
      step start label = some next → invariant next)
    {start : State} (labels : List Label) (initial : invariant start) :
    Always step good start labels ↔ Meets step condition start labels := by
  induction labels generalizing start with
  | nil => exact Iff.rfl
  | cons label rest ih =>
    constructor
    · intro every next taken
      obtain ⟨here, later⟩ := every next taken
      have met := (exact_step _ _ _ initial taken).mp here
      exact ⟨met, (ih (keeps _ _ _ initial met taken)).mp later⟩
    · intro meets next taken
      obtain ⟨here, later⟩ := meets next taken
      have fine := (exact_step _ _ _ initial taken).mpr here
      exact ⟨fine, (ih (keeps _ _ _ initial here taken)).mpr later⟩

end Tio.Core
