import Tio.Topic.Filter

/-! Which topics a thing may use (`TopicAcl` of `thing/service.go`). The check
reads the text of a subscription; delivery reads its wildcards. -/

namespace Tio.Thing

open Tio.Topic

structure UserPassword where
  name : String
  password : String

def topicThingsPrefix : String := "$iothub/things/"

def topicUserThingsPrefix : String := "$iothub/user/things/"

def hasPrefix (text start : String) : Bool := start.toList.isPrefixOf text.toList

/-- Whether a thing publishes or subscribes only shows in the log. -/
def topicAcl (superUsers : List UserPassword) (thingId topic : String) (_write : Bool) : Bool :=
  if superUsers.any fun u => u.name == thingId then true
  else
    let thingTopicPrefix := topicThingsPrefix ++ thingId ++ "/"
    let userThingTopicPrefix := topicUserThingsPrefix ++ thingId ++ "/"
    if hasPrefix topic thingTopicPrefix || hasPrefix topic userThingTopicPrefix then true
    else if hasPrefix topic topicThingsPrefix || hasPrefix topic topicUserThingsPrefix then false
    else true

def isIdChar (c : Char) : Bool := c.isAlphanum || c == '_' || c == '-'

/-- The expression `^[0-9a-zA-Z_-]+$`. -/
def idValid (id : String) : Bool := !id.toList.isEmpty && id.toList.all isIdChar

/-- The topic lies in the namespace of the thing. -/
def InNamespace (id topic : String) : Prop :=
  hasPrefix topic (topicThingsPrefix ++ id ++ "/") = true ∨
    hasPrefix topic (topicUserThingsPrefix ++ id ++ "/") = true

/-- The check lets the thing, which is no super user, subscribe to the filter. -/
structure Admitted (superUsers : List UserPassword) (thingId filter : String) : Prop where
  id : idValid thingId = true
  plain : ∀ u ∈ superUsers, u.name ≠ thingId
  allowed : topicAcl superUsers thingId filter false = true

/-- Nothing that an admitted subscription delivers lies with another thing. -/
def Confined (superUsers : List UserPassword) (thingId filter : String) : Prop :=
  Admitted superUsers thingId filter → ∀ topic other, matchesFilter filter topic = true →
    idValid other = true → other ≠ thingId → ¬ InNamespace other topic

/-- The levels above the thing id in the two namespaces. -/
def namespaces : List (List Level) :=
  [["$iothub".toList, "things".toList], ["$iothub".toList, "user".toList, "things".toList]]

def isOther (thingId : String) (level : Level) : Bool :=
  !level.isEmpty && level.all isIdChar && level ≠ thingId.toList

/-- Without its share name the filter begins with no wildcard, and it has a
wildcard or another thing's id at the level of the id, or a final wildcard at or
above that level. -/
def reachesOthers (thingId filter : String) : Bool :=
  !(unshared (levels filter.toList)).head?.any isWildcard &&
    namespaces.any fun path => reachesBelow (isOther thingId) path (unshared (levels filter.toList))

theorem slash_not_idChar : isIdChar '/' = false := by decide

theorem plain_of_idChars {level : Level} (fine : level.all isIdChar = true) : '/' ∉ level := by
  intro member
  have := List.all_eq_true.mp fine '/' member
  rw [slash_not_idChar] at this
  cases this

theorem isOther_iff {thingId other : String} :
    isOther thingId other.toList = true ↔ idValid other = true ∧ other ≠ thingId := by
  simp [isOther, idValid, String.toList_inj]

theorem plain_namespaces : ∀ path ∈ namespaces, ∀ level ∈ path, '/' ∉ level := by decide

theorem inNamespace_iff {id : String} (valid : idValid id = true) (topic : String) :
    InNamespace id topic ↔ ∃ path ∈ namespaces, ∃ rest, rest ≠ [] ∧
      levels topic.toList = path ++ id.toList :: rest := by
  have plain : '/' ∉ id.toList := by
    rw [idValid, Bool.and_eq_true] at valid
    exact plain_of_idChars valid.2
  have each : ∀ path ∈ namespaces, (join (path ++ [id.toList]) ++ ['/'] <+: topic.toList ↔
      ∃ rest, rest ≠ [] ∧ levels topic.toList = path ++ id.toList :: rest) := by
    intro path member
    rw [prefix_iff_levels _ (by simp)]
    · simp
    · intro level inside
      rcases List.mem_append.mp inside with above | here
      · exact plain_namespaces path member level above
      · rw [List.mem_singleton.mp here]
        exact plain
  have things : hasPrefix topic (topicThingsPrefix ++ id ++ "/") = true ↔
      join (["$iothub".toList, "things".toList] ++ [id.toList]) ++ ['/'] <+: topic.toList := by
    rw [hasPrefix, List.isPrefixOf_iff_prefix]
    simp [topicThingsPrefix, join]
  have userThings : hasPrefix topic (topicUserThingsPrefix ++ id ++ "/") = true ↔
      join (["$iothub".toList, "user".toList, "things".toList] ++ [id.toList]) ++ ['/'] <+:
        topic.toList := by
    rw [hasPrefix, List.isPrefixOf_iff_prefix]
    simp [topicUserThingsPrefix, join]
  rw [InNamespace, things, userThings, each _ (by simp [namespaces]), each _ (by simp [namespaces])]
  simp [namespaces]

/-- There is always another thing id. -/
theorem exists_isOther (thingId : String) : ∃ sample, isOther thingId sample = true := by
  by_cases same : thingId = "a"
  · subst same
    exact ⟨['b'], by decide⟩
  · refine ⟨"a".toList, isOther_iff.mpr ⟨by decide, fun clash => same clash.symm⟩⟩

theorem namespaces_head {path : List Level} (member : path ∈ namespaces) :
    ∃ rest, path = "$iothub".toList :: rest := by
  simp only [namespaces, List.mem_cons, List.not_mem_nil, or_false] at member
  rcases member with rfl | rfl <;> exact ⟨_, rfl⟩

/-- A filter that begins with no wildcard is held to its levels alone. -/
theorem delivers_iothub {filter path rest : List Level} (member : path ∈ namespaces) :
    delivers filter (path ++ rest) = true ↔
      filter.head?.any isWildcard = false ∧ matchLevels filter (path ++ rest) = true := by
  obtain ⟨below, rfl⟩ := namespaces_head member
  simp [delivers, isDollar]

theorem unshared_plain {filter : List Level} (plain : ∀ level ∈ filter, '/' ∉ level) :
    ∀ level ∈ unshared filter, '/' ∉ level := by
  rcases filter with _ | ⟨share, _ | ⟨group, rest⟩⟩
  · exact plain
  · exact plain
  · rw [unshared]
    split
    · exact fun level member => plain level (List.mem_cons_of_mem _ (List.mem_cons_of_mem _ member))
    · exact plain

private theorem reaches_of_delivery {thingId filter topic other : String}
    (matched : matchesFilter filter topic = true) (valid : idValid other = true)
    (different : other ≠ thingId) (inside : InNamespace other topic) :
    reachesOthers thingId filter = true := by
  obtain ⟨path, member, rest, some, split⟩ := (inNamespace_iff valid topic).mp inside
  rw [matchesFilter, split, delivers_iothub member] at matched
  have below := reachesBelow_of_matches (isOther_iff.mpr ⟨valid, different⟩) some matched.2
  rw [reachesOthers, matched.1]
  exact List.any_eq_true.mpr ⟨path, member, below⟩

private theorem delivery_of_reaches {thingId filter : String}
    (reached : reachesOthers thingId filter = true) :
    ∃ topic other, matchesFilter filter topic = true ∧ idValid other = true ∧ other ≠ thingId ∧
      InNamespace other topic := by
  obtain ⟨sample, inhabited⟩ := exists_isOther thingId
  rw [reachesOthers, Bool.and_eq_true, Bool.not_eq_true'] at reached
  obtain ⟨path, member, below⟩ := List.any_eq_true.mp reached.2
  obtain ⟨level, rest, fine, some, chosen, matched⟩ := matches_of_reachesBelow inhabited below
  have identified : isOther thingId (String.ofList level).toList = true := by
    rw [String.toList_ofList]
    exact fine
  have plain : ∀ other ∈ path ++ level :: rest, '/' ∉ other := by
    intro other inside
    rcases List.mem_append.mp inside with above | later
    · exact plain_namespaces path member other above
    · rcases chosen other later with rfl | rfl | old
      · simp only [isOther, Bool.and_eq_true] at inhabited
        exact plain_of_idChars inhabited.1.2
      · decide
      · exact unshared_plain not_mem_levels other old
  have whole : levels (String.ofList (join (path ++ level :: rest))).toList = path ++ level :: rest := by
    rw [String.toList_ofList]
    exact levels_join plain (by simp)
  obtain ⟨valid, different⟩ := isOther_iff.mp identified
  refine ⟨String.ofList (join (path ++ level :: rest)), String.ofList level, ?_, valid, different, ?_⟩
  · rw [matchesFilter, whole, delivers_iothub member]
    exact ⟨reached.1, matched⟩
  · rw [inNamespace_iff valid]
    exact ⟨path, member, rest, some, by rw [whole, String.toList_ofList]⟩

/-- An admitted subscription is confined exactly when its filter reaches no
other thing. -/
theorem confined_iff (superUsers : List UserPassword) (thingId filter : String) :
    Confined superUsers thingId filter ↔
      (Admitted superUsers thingId filter → reachesOthers thingId filter = false) := by
  constructor
  · intro confined admitted
    by_contra reached
    obtain ⟨topic, other, matched, valid, different, inside⟩ :=
      delivery_of_reaches (by simpa using reached)
    exact confined admitted topic other matched valid different inside
  · intro apart admitted topic other matched valid different inside
    have reached := reaches_of_delivery matched valid different inside
    rw [apart admitted] at reached
    cases reached

/-- One wildcard in place of a level gets past the check. -/
theorem wildcard_subscription_not_confined :
    ¬ ∀ (superUsers : List UserPassword) (thingId filter : String),
      Confined superUsers thingId filter := by
  intro every
  refine every [] "lamp" "$iothub/+/door/#" ⟨by decide, by simp, by decide⟩
    "$iothub/things/door/shadows/name/default/update" "door" (by decide) (by decide) (by decide) ?_
  exact .inl (by decide)

end Tio.Thing
