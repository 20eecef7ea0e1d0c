import Tio.Thing.Acl

/-! To which thing the server attributes a message (`GetThingIdFromTopic` of
`shadow/topic.go`), and the topics that it builds for a thing. -/

namespace Tio.Thing

open Tio.Topic

/-- Replace `old` from left to right; the first `skip` characters belong to the place
that was replaced last. -/
def replaceFrom (old new : List Char) : Nat → List Char → List Char
  | _, [] => []
  | skip + 1, _ :: rest => replaceFrom old new skip rest
  | 0, c :: rest =>
    if old.isPrefixOf (c :: rest) then new ++ replaceFrom old new (old.length - 1) rest
    else c :: replaceFrom old new 0 rest

/-- `strings.Replace` without a limit. -/
def replaceAll (s old new : String) : String :=
  String.ofList (replaceFrom old.toList new.toList 0 s.toList)

theorem toList_replaceAll (s old new : String) :
    (replaceAll s old new).toList = replaceFrom old.toList new.toList 0 s.toList := String.toList_ofList

def topicPrefixTmpl : String := topicThingsPrefix ++ "{thingId}/shadows/name/default"

def topicGetAccepted : String := "/get/accepted"
def topicUpdate : String := "/update"
def topicUpdateRejected : String := "/update/rejected"
def topicUpdateDelta : String := "/update/delta"
def topicUpdateDocuments : String := "/update/documents"

def topicThingPrefixOf (thingId : String) : String := replaceAll topicPrefixTmpl "{thingId}" thingId

def topicUpdateOf (thingId : String) : String := topicThingPrefixOf thingId ++ topicUpdate
def topicGetAcceptedOf (thingId : String) : String := topicThingPrefixOf thingId ++ topicGetAccepted
def topicUpdateRejectedOf (thingId : String) : String := topicThingPrefixOf thingId ++ topicUpdateRejected
def topicStateUpdatedOf (thingId : String) : String := topicThingPrefixOf thingId ++ topicUpdateDocuments
def topicDeltaStateOf (thingId : String) : String := topicThingPrefixOf thingId ++ topicUpdateDelta

def topicMethodPrefixTmpl : String := topicThingsPrefix ++ "{thingId}/methods/{methodName}"

def topicMethodReq : String := "/req"
def topicMethodResp : String := "/resp"

def topicMethodPrefix (thingId methodName : String) : String :=
  replaceAll (replaceAll topicMethodPrefixTmpl "{thingId}" thingId) "{methodName}" methodName

def topicMethodRequest (thingId methodName : String) : String :=
  topicMethodPrefix thingId methodName ++ topicMethodReq

def topicMethodResponse (thingId methodName : String) : String :=
  topicMethodPrefix thingId methodName ++ topicMethodResp

def getThingIdFromTopic (topic : String) : Except String String :=
  let arr := levels topic.toList
  if things : hasPrefix topic topicThingsPrefix = true ∧ arr.length ≥ 3 then
    .ok (String.ofList arr[2])
  else if userThings : hasPrefix topic topicUserThingsPrefix = true ∧ arr.length ≥ 4 then
    .ok (String.ofList arr[3])
  else .error ("topic name is invalid " ++ topic)

section

variable {old new plain : List Char}

/-- Nothing is replaced where the first character of `old` does not occur. -/
theorem replaceFrom_plain {first : Char} {later : List Char} (opens : old = first :: later)
    (free : first ∉ plain) (rest : List Char) :
    replaceFrom old new 0 (plain ++ rest) = plain ++ replaceFrom old new 0 rest := by
  induction plain with
  | nil => rfl
  | cons c plain ih =>
    obtain ⟨other, free⟩ := not_or.mp (fun inside => free (List.mem_cons.mpr inside))
    have apart : old.isPrefixOf (c :: (plain ++ rest)) = false := by
      simp [opens, List.isPrefixOf, other]
    rw [List.cons_append, replaceFrom, apart, if_neg Bool.false_ne_true, ih free, List.cons_append]

theorem topicThingPrefixOf_eq (thingId : String) :
    topicThingPrefixOf thingId = topicThingsPrefix ++ thingId ++ "/shadows/name/default" := by
  have opens : "{thingId}".toList = '{' :: "{thingId}".toList.tail := by decide
  have named : replaceFrom "{thingId}".toList thingId.toList 0 "{thingId}/shadows/name/default".toList =
      thingId.toList ++ "/shadows/name/default".toList := rfl
  apply String.toList_inj.mp
  rw [topicThingPrefixOf, toList_replaceAll, topicPrefixTmpl, String.toList_append,
    replaceFrom_plain opens (by decide), named]
  simp

/-- The name of the method stands behind the id, whatever it is. -/
theorem topicMethodPrefix_eq {thingId : String} (plain : '{' ∉ thingId.toList) (methodName : String) :
    topicMethodPrefix thingId methodName =
      topicThingsPrefix ++ thingId ++ "/methods/" ++ methodName := by
  have opens : "{thingId}".toList = '{' :: "{thingId}".toList.tail := by decide
  have opens' : "{methodName}".toList = '{' :: "{methodName}".toList.tail := by decide
  have named : replaceFrom "{thingId}".toList thingId.toList 0 "{thingId}/methods/{methodName}".toList =
      thingId.toList ++ "/methods/{methodName}".toList := rfl
  have called : replaceFrom "{methodName}".toList methodName.toList 0 "{methodName}".toList =
      methodName.toList ++ [] := rfl
  have parts : "/methods/{methodName}".toList = "/methods/".toList ++ "{methodName}".toList := by decide
  apply String.toList_inj.mp
  rw [topicMethodPrefix, toList_replaceAll, toList_replaceAll, topicMethodPrefixTmpl,
    String.toList_append, replaceFrom_plain opens (by decide), named,
    replaceFrom_plain opens' (by decide), replaceFrom_plain opens' plain, parts,
    replaceFrom_plain opens' (by decide), called]
  simp

end

section

variable {id topic : String}

theorem braceless_of_idValid (valid : idValid id = true) : '{' ∉ id.toList := by
  intro member
  rw [idValid, Bool.and_eq_true] at valid
  have fine := List.all_eq_true.mp valid.2 '{' member
  cases (by decide : isIdChar '{' = false).symm.trans fine

theorem hasPrefix_things_iff (topic : String) :
    hasPrefix topic topicThingsPrefix = true ↔
      ∃ rest, rest ≠ [] ∧ levels topic.toList = ["$iothub".toList, "things".toList] ++ rest := by
  have path : topicThingsPrefix.toList = join ["$iothub".toList, "things".toList] ++ ['/'] := by decide
  rw [hasPrefix, List.isPrefixOf_iff_prefix, path]
  exact prefix_iff_levels (plain_namespaces _ (by simp [namespaces])) (by simp) _

theorem hasPrefix_userThings_iff (topic : String) :
    hasPrefix topic topicUserThingsPrefix = true ↔
      ∃ rest, rest ≠ [] ∧
        levels topic.toList = ["$iothub".toList, "user".toList, "things".toList] ++ rest := by
  have path : topicUserThingsPrefix.toList =
      join ["$iothub".toList, "user".toList, "things".toList] ++ ['/'] := by decide
  rw [hasPrefix, List.isPrefixOf_iff_prefix, path]
  exact prefix_iff_levels (plain_namespaces _ (by simp [namespaces])) (by simp) _

/-- A message in the namespace of a thing is attributed to it. -/
theorem attributed_of_inNamespace (valid : idValid id = true) (inside : InNamespace id topic) :
    getThingIdFromTopic topic = .ok id := by
  obtain ⟨path, member, rest, some, split⟩ := (inNamespace_iff valid topic).mp inside
  simp only [namespaces, List.mem_cons, List.not_mem_nil, or_false] at member
  rcases member with rfl | rfl
  · have things : hasPrefix topic topicThingsPrefix = true ∧ (levels topic.toList).length ≥ 3 := by
      refine ⟨(hasPrefix_things_iff topic).mpr ⟨_, by simp, split⟩, by simp [split]⟩
    rw [getThingIdFromTopic, dif_pos things, List.getElem_of_eq split]
    exact congrArg Except.ok String.ofList_toList
  · have other : ¬(hasPrefix topic topicThingsPrefix = true ∧ (levels topic.toList).length ≥ 3) := by
      intro things
      obtain ⟨rest', -, split'⟩ := (hasPrefix_things_iff topic).mp things.1
      rw [split] at split'
      simp at split'
    have userThings : hasPrefix topic topicUserThingsPrefix = true ∧ (levels topic.toList).length ≥ 4 := by
      refine ⟨(hasPrefix_userThings_iff topic).mpr ⟨_, by simp, split⟩, by simp [split]⟩
    rw [getThingIdFromTopic, dif_neg other, dif_pos userThings, List.getElem_of_eq split]
    exact congrArg Except.ok String.ofList_toList

/-- What lies in neither namespace is attributed to nobody. -/
theorem unattributed {id : String} (things : hasPrefix topic topicThingsPrefix = false)
    (userThings : hasPrefix topic topicUserThingsPrefix = false) : getThingIdFromTopic topic ≠ .ok id := by
  simp [getThingIdFromTopic, things, userThings]

/-- What a thing may publish is in its own namespace, or in none. -/
theorem topicAcl_cases {superUsers : List UserPassword} (plain : ∀ u ∈ superUsers, u.name ≠ id)
    {write : Bool} (allowed : topicAcl superUsers id topic write = true) :
    InNamespace id topic ∨
      hasPrefix topic topicThingsPrefix = false ∧ hasPrefix topic topicUserThingsPrefix = false := by
  have ordinary : superUsers.any (fun u => u.name == id) = false := by simpa using plain
  simp only [topicAcl, ordinary, Bool.false_eq_true, if_false] at allowed
  split at allowed
  · rename_i own
    left
    simpa [InNamespace] using own
  · split at allowed
    · cases allowed
    · rename_i none
      right
      simpa using none

theorem inNamespace_of_eq (rest : String) (built : topic = topicThingsPrefix ++ id ++ ("/" ++ rest)) :
    InNamespace id topic := by
  left
  rw [hasPrefix, List.isPrefixOf_iff_prefix, built]
  exact ⟨rest.toList, by simp⟩

theorem attributed_shadow (valid : idValid id = true) (suffix : String) :
    getThingIdFromTopic (topicThingPrefixOf id ++ suffix) = .ok id := by
  apply attributed_of_inNamespace valid
  apply inNamespace_of_eq ("shadows/name/default" ++ suffix)
  apply String.toList_inj.mp
  simp [topicThingPrefixOf_eq]

theorem attributed_method (valid : idValid id = true) (methodName suffix : String) :
    getThingIdFromTopic (topicMethodPrefix id methodName ++ suffix) = .ok id := by
  apply attributed_of_inNamespace valid
  apply inNamespace_of_eq ("methods/" ++ methodName ++ suffix)
  apply String.toList_inj.mp
  simp [topicMethodPrefix_eq (braceless_of_idValid valid)]

end

/-- What a thing may publish is attributed to it or to nobody, and the topics that
are built for a thing are attributed to it. -/
theorem publisher_authentic (superUsers : List UserPassword) (t topic : String) (valid : idValid t = true)
    (plain : ∀ u ∈ superUsers, u.name ≠ t) :
    (topicAcl superUsers t topic true = true → ∀ id, getThingIdFromTopic topic = .ok id → id = t) ∧
    ∀ id methodName, idValid id = true →
      getThingIdFromTopic (topicUpdateOf id) = .ok id ∧
      getThingIdFromTopic (topicGetAcceptedOf id) = .ok id ∧
      getThingIdFromTopic (topicUpdateRejectedOf id) = .ok id ∧
      getThingIdFromTopic (topicStateUpdatedOf id) = .ok id ∧
      getThingIdFromTopic (topicDeltaStateOf id) = .ok id ∧
      getThingIdFromTopic (topicMethodRequest id methodName) = .ok id ∧
      getThingIdFromTopic (topicMethodResponse id methodName) = .ok id := by
  constructor
  · intro allowed id attributed
    rcases topicAcl_cases plain allowed with own | ⟨things, userThings⟩
    · rw [attributed_of_inNamespace valid own] at attributed
      cases attributed
      rfl
    · exact absurd attributed (unattributed things userThings)
  · intro id methodName valid
    have shadow := attributed_shadow valid
    have method := attributed_method valid methodName
    exact ⟨shadow topicUpdate, shadow topicGetAccepted, shadow topicUpdateRejected,
      shadow topicUpdateDocuments, shadow topicUpdateDelta, method topicMethodReq, method topicMethodResp⟩

theorem lamp_authentic :
    (topicAcl [] "lamp" "$iothub/user/things/lamp/log" true = true →
      ∀ id, getThingIdFromTopic "$iothub/user/things/lamp/log" = .ok id → id = "lamp") ∧
    getThingIdFromTopic (topicMethodRequest "lamp" "{thingId}/on") = .ok "lamp" := by
  have authentic := publisher_authentic [] "lamp" "$iothub/user/things/lamp/log" (by decide) (by simp)
  exact ⟨authentic.1, (authentic.2 "lamp" "{thingId}/on" (by decide)).2.2.2.2.2.1⟩

end Tio.Thing
