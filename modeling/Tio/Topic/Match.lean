import Tio.Topic.Filter

/-! The two matchers of topics in the program: that of the broker for tests
(`connector/mqtt/mock/route.go`) and that of the page, which hands a received message to
the subscriptions that selected it (`web/src/utils/subs.js`). -/

namespace Tio.Topic

/-- `match` over the levels of a route and of a topic. -/
def matchRoute : List Level → List Level → Bool
  | [], topic => topic.isEmpty
  | level :: _, [] => level = multi
  | level :: rest, first :: later =>
    if level = multi then true
    else if level = single ∨ level = first then matchRoute rest later
    else false

def sharePrefix : List Char := "$share".toList

/-- The slice panics when there is no second level. -/
def routeSplit (route : List Char) : Option (List Level) :=
  if sharePrefix.isPrefixOf route then
    match levels route with
    | _ :: _ :: rest => some rest
    | _ => none
  else some (levels route)

def matchTopic (subTopic topic : List Char) : Option Bool :=
  if subTopic = topic then some true
  else (routeSplit subTopic).map fun route => matchRoute route (levels topic)

/-- The loop of `matchTopicMethod`; a level behind the end of the topic is undefined. -/
def matchFrom (length topicLength : Nat) : List Level → List Level → Bool
  | [], _ => length == topicLength
  | left :: rest, topic =>
    if left = multi then length - 1 ≤ topicLength
    else if topic.head? ≠ some left ∧ left ≠ single then false
    else matchFrom length topicLength rest topic.tail

def matchLoop (filterArray topicArray : List Level) : Bool :=
  matchFrom filterArray.length topicArray.length filterArray topicArray

/-- `filter.includes("$share")` -/
def includesShare : List Char → Bool
  | [] => false
  | c :: rest => sharePrefix.isPrefixOf (c :: rest) || includesShare rest

def matchTopicMethod (filter topic : List Char) : Bool :=
  let _filter := if includesShare filter then join ((levels filter).drop 2) else filter
  matchLoop (levels _filter) (levels topic)

/-- The wildcard for all that is left stands in last place only. -/
def MultiLast (filter : List Level) : Prop := multi ∉ filter.dropLast

instance : DecidablePred MultiLast := fun filter => inferInstanceAs (Decidable (multi ∉ filter.dropLast))

/-- The test matcher is that of the standard on the filters that the standard allows. -/
theorem matchRoute_eq_matchLevels {filter : List Level} (last : MultiLast filter) (topic : List Level) :
    matchRoute filter topic = matchLevels filter topic := by
  induction filter generalizing topic with
  | nil => rfl
  | cons level rest ih =>
    by_cases final : rest = []
    · subst final
      by_cases all : level = multi
      · rw [all, matchLevels_multi]
        cases topic <;> simp [matchRoute]
      · cases topic with
        | nil => simp [matchRoute, matchLevels, all]
        | cons first later =>
          rw [matchLevels_cons (by simp [all])]
          by_cases fits : level = single ∨ level = first
          · rw [matchRoute, if_neg all, if_pos fits, ih (by simp [MultiLast])]
            rcases fits with rfl | rfl <;> simp
          · rw [matchRoute, if_neg all, if_neg fits]
            simp [not_or.mp fits]
    · rw [MultiLast, List.dropLast_cons_of_ne_nil final, List.mem_cons, not_or] at last
      have other : level ≠ multi := fun same => last.1 same.symm
      cases topic with
      | nil => simp [matchRoute, matchLevels, other]
      | cons first later =>
        rw [matchLevels_cons (by simp [other])]
        by_cases fits : level = single ∨ level = first
        · rw [matchRoute, if_neg other, if_pos fits, ih last.2]
          rcases fits with rfl | rfl <;> simp
        · rw [matchRoute, if_neg other, if_neg fits]
          simp [not_or.mp fits]

/-- Behind the end of the topic nothing matches. -/
theorem matchFrom_short {length topicLength : Nat} {rest : List Level}
    (short : topicLength + rest.length < length) : matchFrom length topicLength rest [] = false := by
  induction rest with
  | nil =>
    rw [matchFrom, beq_eq_false_iff_ne]
    simp only [List.length_nil] at short
    omega
  | cons left rest ih =>
    simp only [List.length_cons] at short
    rw [matchFrom]
    split
    · rw [decide_eq_false_iff_not]
      omega
    · split
      · rfl
      · exact ih (by omega)

/-- The page asks in addition that the topic lacks at most one level of the filter. -/
theorem matchFrom_eq (front : Nat) (rest topic : List Level) :
    matchFrom (front + rest.length) (front + topic.length) rest topic =
      (matchRoute rest topic && decide (rest.length ≤ topic.length + 1)) := by
  induction rest generalizing front topic with
  | nil => cases topic <;> simp [matchFrom, matchRoute]
  | cons left rest ih =>
    rw [matchFrom]
    by_cases all : left = multi
    · subst all
      rw [if_pos rfl]
      cases topic with
      | nil =>
        simp only [matchRoute, decide_true, Bool.true_and, decide_eq_decide, List.length_cons, List.length_nil]
        omega
      | cons first later =>
        simp only [matchRoute, ↓reduceIte, Bool.true_and, decide_eq_decide, List.length_cons]
        omega
    · rw [if_neg all]
      cases topic with
      | nil =>
        rw [matchRoute, decide_eq_false all, Bool.false_and]
        split
        · rfl
        · exact matchFrom_short (by simp)
      | cons first later =>
        rw [matchRoute, if_neg all]
        by_cases fits : left = single ∨ left = first
        · have goes : ¬ ((first :: later).head? ≠ some left ∧ left ≠ single) := by
            rintro ⟨apart, other⟩
            exact fits.elim other fun same => apart (by rw [same]; rfl)
          rw [if_neg goes, if_pos fits, List.tail_cons, List.length_cons, List.length_cons]
          have shifted := ih (front + 1) later
          rw [show front + (rest.length + 1) = front + 1 + rest.length by omega,
            show front + (later.length + 1) = front + 1 + later.length by omega, shifted]
          congr 1
          simp
        · have stops : (first :: later).head? ≠ some left ∧ left ≠ single :=
            ⟨fun same => fits (.inr (Option.some.inj same).symm), fun same => fits (.inl same)⟩
          rw [if_pos stops, if_neg fits, Bool.false_and]

theorem matchLoop_eq (filter topic : List Level) :
    matchLoop filter topic = (matchRoute filter topic && decide (filter.length ≤ topic.length + 1)) := by
  have whole := matchFrom_eq 0 filter topic
  rwa [Nat.zero_add, Nat.zero_add] at whole

/-- A filter is never too long for a topic that it matches when its wildcard is last. -/
theorem length_le_of_matchRoute {filter topic : List Level} (last : MultiLast filter)
    (matched : matchRoute filter topic = true) : filter.length ≤ topic.length + 1 := by
  induction filter generalizing topic with
  | nil => simp
  | cons level rest ih =>
    cases topic with
    | nil =>
      rw [matchRoute, decide_eq_true_eq] at matched
      rw [MultiLast, matched] at last
      cases rest with
      | nil => simp
      | cons next later => simp at last
    | cons first later =>
      rw [matchRoute] at matched
      cases rest with
      | nil => simp
      | cons next more =>
        rw [MultiLast, List.dropLast_cons_of_ne_nil (by simp), List.mem_cons, not_or] at last
        rw [if_neg fun same => last.1 same.symm] at matched
        split at matched
        · have shorter := ih last.2 matched
          simp only [List.length_cons] at shorter ⊢
          omega
        · cases matched

theorem matchRoute_self (filter : List Level) : matchRoute filter filter = true := by
  induction filter with
  | nil => rfl
  | cons level rest ih =>
    rw [matchRoute]
    split
    · rfl
    · rw [if_pos (.inr rfl), ih]

theorem includesShare_of_begins {text : List Char} (begins : sharePrefix.isPrefixOf text = true) :
    includesShare text = true := by
  cases text with
  | nil => cases begins
  | cons c rest => rw [includesShare, begins, Bool.true_or]

theorem begins_of_levels_cons {text : List Char} {level : Level} {rest : List Level}
    (split : levels text = level :: rest) : level <+: text := by
  rw [← join_levels text, split]
  cases rest with
  | nil => simp [join]
  | cons next later =>
    rw [join_cons (by simp)]
    exact List.prefix_append _ _

/-- The filter names no share, or begins with the name of one and goes on behind it. -/
inductive Named : (filter : List Char) → (behind : List Level) → Prop
  | whole {filter : List Char} (plain : includesShare filter = false) : Named filter (levels filter)
  | shared {group rest : List Char} (level : '/' ∉ group) :
      Named (sharePrefix ++ '/' :: (group ++ '/' :: rest)) (levels rest)

theorem levels_shared {group rest : List Char} (level : '/' ∉ group) :
    levels (sharePrefix ++ '/' :: (group ++ '/' :: rest)) = sharePrefix :: group :: levels rest := by
  have one : ∀ text : List Char, '/' ∉ text → levels text = [text] := fun text plain => by
    have split : levels (join [text]) = [text] := levels_join (by simpa using plain) (by simp)
    rwa [show join [text] = text by simp [join]] at split
  rw [levels, List.splitOn_append_cons_self, List.splitOn_append_cons_self]
  change levels sharePrefix ++ (levels group ++ levels rest) = _
  rw [one group level, one sharePrefix (by decide)]
  rfl

theorem Named.unshared_eq {filter : List Char} {behind : List Level} (named : Named filter behind) :
    unshared (levels filter) = behind := by
  cases named with
  | whole plain =>
    cases parts : levels filter with
    | nil => rfl
    | cons share more =>
      have other : share ≠ sharePrefix := by
        rintro rfl
        rw [includesShare_of_begins (List.isPrefixOf_iff_prefix.mpr (begins_of_levels_cons parts))] at plain
        cases plain
      cases more with
      | nil => rfl
      | cons group rest =>
        rw [unshared]
        exact if_neg other
  | shared level =>
    rw [levels_shared level, unshared]
    exact if_pos rfl

theorem Named.matchTopic_eq {filter topic : List Char} {behind : List Level} (named : Named filter behind) :
    matchTopic filter topic = some (decide (filter = topic) || matchRoute behind (levels topic)) := by
  rw [matchTopic]
  split
  · rename_i same
    rw [decide_eq_true same, Bool.true_or]
  · rename_i other
    rw [decide_eq_false other, Bool.false_or]
    cases named with
    | whole plain =>
      have bare : sharePrefix.isPrefixOf filter = false := by
        by_contra begins
        rw [includesShare_of_begins (Bool.not_eq_false _ ▸ begins)] at plain
        cases plain
      rw [routeSplit, bare]
      rfl
    | shared level =>
      rw [routeSplit, if_pos (List.isPrefixOf_iff_prefix.mpr (List.prefix_append _ _)), levels_shared level]
      rfl

theorem Named.matchTopicMethod_eq {filter topic : List Char} {behind : List Level} (named : Named filter behind) :
    matchTopicMethod filter topic =
      (matchRoute behind (levels topic) && decide (behind.length ≤ (levels topic).length + 1)) := by
  rw [← matchLoop_eq, matchTopicMethod]
  cases named with
  | whole plain => rw [plain]; rfl
  | shared level =>
    rw [includesShare_of_begins (List.isPrefixOf_iff_prefix.mpr (List.prefix_append _ _)), levels_shared level]
    exact congrArg (matchLoop · (levels topic)) (congrArg levels (join_levels _))

theorem Named.matchTopicMethod_multiLast {filter topic : List Char} {behind : List Level}
    (named : Named filter behind) (last : MultiLast behind) :
    matchTopicMethod filter topic = matchRoute behind (levels topic) := by
  rw [named.matchTopicMethod_eq]
  cases matched : matchRoute behind (levels topic) with
  | false => rfl
  | true => simp [length_le_of_matchRoute last matched]

/-- The filter begins with a wildcard, and the topic with a dollar sign. -/
def Hides (filter topic : List Level) : Prop :=
  filter.head?.any isWildcard = true ∧ topic.head?.any isDollar = true

instance (filter topic : List Level) : Decidable (Hides filter topic) := inferInstanceAs (Decidable (_ ∧ _))

theorem matchLevels_eq_delivers_iff {filter topic : List Level} :
    matchLevels filter topic = delivers filter topic ↔ ¬ (Hides filter topic ∧ matchLevels filter topic = true) := by
  rw [delivers, Hides]
  cases filter.head?.any isWildcard <;> cases topic.head?.any isDollar <;> cases matchLevels filter topic <;> simp

/-- For a filter that names no share, or is shared as the standard has it, the two agree
exactly when the page's further condition holds, that a topic the filter matches lacks at
most one level of it, and the topic is not the text of a shared filter, which the broker
takes without a look at its levels. Where the wildcard for all that is left stands last,
the first of these always holds, and what the page selects is what the standard selects,
but for the topics of the broker itself, which a wildcard in front does not hide. -/
theorem matchers_agree {filter topic : List Char} {behind : List Level} (named : Named filter behind) :
    (matchTopic filter topic = some (matchTopicMethod filter topic) ↔
      (matchRoute behind (levels topic) = true → behind.length ≤ (levels topic).length + 1) ∧
      (filter = topic → matchRoute behind (levels topic) = true)) ∧
    (MultiLast behind →
      (behind = levels filter ∨ filter ≠ topic → matchTopic filter topic = some (matchTopicMethod filter topic)) ∧
      (matchTopicMethod filter topic = delivers (unshared (levels filter)) (levels topic) ↔
        ¬ (Hides behind (levels topic) ∧ matchLevels behind (levels topic) = true))) := by
  refine ⟨?_, fun last => ⟨fun apart => ?_, ?_⟩⟩
  · rw [named.matchTopic_eq, named.matchTopicMethod_eq, Option.some.injEq]
    cases matchRoute behind (levels topic) <;> simp
  · rw [named.matchTopic_eq, named.matchTopicMethod_multiLast last]
    by_cases same : filter = topic
    · obtain rfl : behind = levels filter := apart.resolve_right fun other => other same
      rw [← same, matchRoute_self, Bool.or_true]
    · rw [decide_eq_false same, Bool.false_or]
  · rw [named.matchTopicMethod_multiLast last, named.unshared_eq, matchRoute_eq_matchLevels last]
    exact matchLevels_eq_delivers_iff

/-- A shared subscription to everything below a thing, and one to everything at all. -/
theorem shared_below_agrees :
    matchTopic "$share/g/things/#".toList "things/lamp/state".toList =
      some (matchTopicMethod "$share/g/things/#".toList "things/lamp/state".toList) ∧
    matchTopicMethod "$share/g/#".toList "$SYS/x".toList ≠
      delivers (unshared (levels "$share/g/#".toList)) (levels "$SYS/x".toList) := by
  have alone : '/' ∉ ['g'] := by decide
  have below : Named "$share/g/things/#".toList (levels "things/#".toList) := .shared alone
  have all : Named "$share/g/#".toList (levels "#".toList) := .shared alone
  refine ⟨((matchers_agree below).2 (by decide)).1 (.inr (by decide)), fun same => ?_⟩
  exact ((matchers_agree all).2 (by decide)).2.mp same ⟨by decide, by decide⟩

/-- With the wildcard in the middle the broker matches more than the page. -/
example : matchTopic "a/#/b/c".toList "a".toList = some true ∧
    matchTopicMethod "a/#/b/c".toList "a".toList = false := by decide

/-- The text of a shared filter is a topic that only the broker matches. -/
example : matchTopic "$share/g/a".toList "$share/g/a".toList = some true ∧
    matchTopicMethod "$share/g/a".toList "$share/g/a".toList = false := by decide

end Tio.Topic
