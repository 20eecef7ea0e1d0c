import Mathlib.Data.List.Basic

namespace Tio.Topic

abbrev Level := List Char

def single : Level := ['+']

def multi : Level := ['#']

/-- The levels of a text; there is always one. -/
def levels (text : List Char) : List Level := text.splitOn '/'

def join (path : List Level) : List Char := ['/'].intercalate path

def matchLevels : List Level → List Level → Bool
  | [], topic => topic.isEmpty
  | level :: rest, topic =>
    if level = multi ∧ rest = [] then true
    else match topic with
      | [] => false
      | first :: later => (level = single || level = first) && matchLevels rest later

def isWildcard (level : Level) : Bool := level = single || level = multi

def isDollar : Level → Bool
  | '$' :: _ => true
  | _ => false

/-- Whether a filter without a share name selects a topic. -/
def delivers (filter topic : List Level) : Bool :=
  !(filter.head?.any isWildcard && topic.head?.any isDollar) && matchLevels filter topic

/-- A shared filter delivers what the filter behind its share name selects. -/
def unshared : List Level → List Level
  | share :: group :: rest => if share = "$share".toList then rest else share :: group :: rest
  | filter => filter

def matchesFilter (filter topic : String) : Bool :=
  delivers (unshared (levels filter.toList)) (levels topic.toList)

/-- Whether the filter selects a topic with a level of the given kind right below
the path and at least one more level after it. -/
def reachesBelow (other : Level → Bool) : List Level → List Level → Bool
  | [], level :: rest => if rest = [] then level = multi else level = single || other level
  | head :: path, level :: rest =>
    (level = multi && rest.isEmpty) || ((level = single || level = head) && reachesBelow other path rest)
  | _, [] => false

theorem levels_ne_nil (text : List Char) : levels text ≠ [] := List.splitOn_ne_nil _ _

theorem not_mem_levels {text : List Char} : ∀ level ∈ levels text, '/' ∉ level := by
  induction text with
  | nil => simp [levels]
  | cons head rest ih =>
    rw [levels, List.splitOn_cons_eq_if_modifyHead]
    split
    · rintro level (_ | ⟨_, member⟩)
      · simp
      · exact ih level member
    · rename_i apart
      rw [levels] at ih
      cases split : rest.splitOn '/' with
      | nil => simp
      | cons first later =>
        rw [split] at ih
        rintro level (_ | ⟨_, member⟩)
        · have plain := ih first List.mem_cons_self
          simp only [List.mem_cons, not_or]
          exact ⟨fun same => apart (beq_iff_eq.mpr same.symm), plain⟩
        · exact ih level (List.mem_cons_of_mem _ member)

theorem levels_join {path : List Level} (plain : ∀ level ∈ path, '/' ∉ level) (some : path ≠ []) :
    levels (join path) = path :=
  List.splitOn_intercalate '/' plain some

theorem join_levels (text : List Char) : join (levels text) = text := List.intercalate_splitOn '/'

theorem join_cons {level : Level} {rest : List Level} (more : rest ≠ []) :
    join (level :: rest) = level ++ '/' :: join rest := by
  rw [join, List.intercalate_cons_of_ne_nil more]
  simp [join]

theorem join_append {front back : List Level} (some : front ≠ []) (more : back ≠ []) :
    join (front ++ back) = join front ++ '/' :: join back := by
  induction front with
  | nil => exact absurd rfl some
  | cons level rest ih =>
    cases rest with
    | nil =>
      rw [List.singleton_append, join_cons more]
      simp [join]
    | cons next later =>
      have whole : join (level :: next :: later) = level ++ '/' :: join (next :: later) :=
        join_cons (by simp)
      rw [List.cons_append, join_cons (by simp), ih (by simp), whole]
      simp

/-- A text begins with a path and a slash when its levels begin with the path. -/
theorem prefix_iff_levels {path : List Level} (plain : ∀ level ∈ path, '/' ∉ level)
    (some : path ≠ []) (text : List Char) :
    join path ++ ['/'] <+: text ↔ ∃ rest, rest ≠ [] ∧ levels text = path ++ rest := by
  constructor
  · rintro ⟨tail, rfl⟩
    refine ⟨levels tail, levels_ne_nil tail, ?_⟩
    rw [List.append_assoc, List.singleton_append, levels, List.splitOn_append_cons_self]
    exact congrArg (· ++ levels tail) (levels_join plain some)
  · rintro ⟨rest, more, same⟩
    refine ⟨join rest, ?_⟩
    rw [← join_levels text, same, join_append some more]
    simp

/-- A topic that the filter selects, level by level. -/
def fill : List Level → List Level
  | [] => []
  | level :: rest =>
    if level = multi ∧ rest = [] then [['a']]
    else (if level = single then ['a'] else level) :: fill rest

theorem fill_ne_nil {filter : List Level} (some : filter ≠ []) : fill filter ≠ [] := by
  cases filter with
  | nil => exact absurd rfl some
  | cons level rest =>
    rw [fill]
    split <;> simp

theorem mem_fill {filter : List Level} {level : Level} (member : level ∈ fill filter) :
    level = ['a'] ∨ level ∈ filter := by
  induction filter with
  | nil => simp [fill] at member
  | cons head rest ih =>
    rw [fill] at member
    split at member
    · exact .inl (List.mem_singleton.mp member)
    · rcases List.mem_cons.mp member with rfl | later
      · split
        · exact .inl rfl
        · exact .inr List.mem_cons_self
      · exact (ih later).imp_right (List.mem_cons_of_mem _)

theorem matchLevels_multi (topic : List Level) : matchLevels [multi] topic = true := by
  cases topic <;> simp [matchLevels]

theorem matchLevels_cons {level : Level} {rest : List Level} (more : ¬ (level = multi ∧ rest = []))
    (first : Level) (later : List Level) : matchLevels (level :: rest) (first :: later) =
      ((level = single || level = first) && matchLevels rest later) := by
  rw [matchLevels, if_neg more]

theorem matchLevels_fill (filter : List Level) : matchLevels filter (fill filter) = true := by
  induction filter with
  | nil => rfl
  | cons level rest ih =>
    by_cases last : level = multi ∧ rest = []
    · rw [last.1, last.2]
      exact matchLevels_multi _
    · rw [fill, if_neg last, matchLevels_cons last, ih]
      by_cases one : level = single <;> simp [one]

/-- The levels that a filter needs below the path can be chosen from its own. -/
def Chosen (sample : Level) (filter : List Level) (level : Level) : Prop :=
  level = sample ∨ level = ['a'] ∨ level ∈ filter

theorem reachesBelow_of_matches {other : Level → Bool} {path filter rest : List Level}
    {level : Level} (fine : other level = true) (some : rest ≠ [])
    (matched : matchLevels filter (path ++ level :: rest) = true) :
    reachesBelow other path filter = true := by
  induction path generalizing filter with
  | nil =>
    cases filter with
    | nil => simp [matchLevels] at matched
    | cons first later =>
      by_cases last : first = multi ∧ later = []
      · simp [reachesBelow, last.1, last.2]
      · rw [List.nil_append, matchLevels_cons last, Bool.and_eq_true, Bool.or_eq_true,
          decide_eq_true_eq, decide_eq_true_eq] at matched
        obtain ⟨here, onward⟩ := matched
        cases later with
        | nil => cases rest <;> simp [matchLevels] at onward some
        | cons next later =>
          simp only [reachesBelow, List.cons_ne_nil, ↓reduceIte, Bool.or_eq_true, decide_eq_true_eq]
          exact here.imp_right fun same => by rw [same]; exact fine
  | cons head path ih =>
    cases filter with
    | nil => simp [matchLevels] at matched
    | cons first later =>
      by_cases last : first = multi ∧ later = []
      · simp [reachesBelow, last.1, last.2]
      · rw [List.cons_append, matchLevels_cons last, Bool.and_eq_true] at matched
        rw [reachesBelow, matched.1, ih matched.2]
        simp

theorem matches_of_reachesBelow {other : Level → Bool} {sample : Level}
    (inhabited : other sample = true) {path filter : List Level}
    (reached : reachesBelow other path filter = true) :
    ∃ level rest, other level = true ∧ rest ≠ [] ∧
      (∀ chosen ∈ level :: rest, Chosen sample filter chosen) ∧
      matchLevels filter (path ++ level :: rest) = true := by
  induction path generalizing filter with
  | nil =>
    cases filter with
    | nil => simp [reachesBelow] at reached
    | cons first later =>
      by_cases short : later = []
      · subst short
        simp only [reachesBelow, ↓reduceIte, decide_eq_true_eq] at reached
        subst reached
        exact ⟨sample, [['a']], inhabited, by simp, by simp [Chosen], matchLevels_multi _⟩
      · have longer : ¬ (first = multi ∧ later = []) := fun last => short last.2
        have chosen : ∀ level ∈ fill later, Chosen sample (first :: later) level := fun level member =>
          .inr ((mem_fill member).imp_right (List.mem_cons_of_mem _))
        simp only [reachesBelow, short, ↓reduceIte, Bool.or_eq_true, decide_eq_true_eq] at reached
        rcases reached with one | fine
        · refine ⟨sample, fill later, inhabited, fill_ne_nil short,
            List.forall_mem_cons.mpr ⟨.inl rfl, chosen⟩, ?_⟩
          rw [List.nil_append, matchLevels_cons longer, matchLevels_fill, one]
          simp
        · refine ⟨first, fill later, fine, fill_ne_nil short,
            List.forall_mem_cons.mpr ⟨.inr (.inr List.mem_cons_self), chosen⟩, ?_⟩
          rw [List.nil_append, matchLevels_cons longer, matchLevels_fill]
          simp
  | cons head path ih =>
    cases filter with
    | nil => simp [reachesBelow] at reached
    | cons first later =>
      by_cases last : first = multi ∧ later = []
      · obtain ⟨rfl, rfl⟩ := last
        exact ⟨sample, [['a']], inhabited, by simp, by simp [Chosen], matchLevels_multi _⟩
      · have short : (first = multi && later.isEmpty) = false := by
          simpa [List.isEmpty_iff] using last
        simp only [reachesBelow, short, Bool.false_or, Bool.and_eq_true] at reached
        obtain ⟨level, rest, fine, some, chosen, matched⟩ := ih reached.2
        refine ⟨level, rest, fine, some, fun other member => ?_, ?_⟩
        · exact (chosen other member).imp_right (Or.imp_right (List.mem_cons_of_mem _))
        · rw [List.cons_append, matchLevels_cons last, reached.1, matched]
          rfl

end Tio.Topic
