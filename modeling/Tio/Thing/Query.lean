import Mathlib.Algebra.Group.Int.Defs
import Mathlib.Algebra.Group.Nat.Defs
import Mathlib.Data.List.Sort
import Tio.Core.Paging

/-! The pages of things (`thingRepo.Query` of `thing/thing_repo.go`): the rows are
filtered, sorted and cut by one query, and counted by another. -/

namespace Tio.ThingRepo

open Tio.Core

/-- A row of the table `thing`; the times are nanoseconds. -/
structure Entity where
  id : String
  enabled : Bool
  authType : String
  authValue : String
  updatedAt : Int
  createdAt : Int
deriving DecidableEq, Repr

structure Thing where
  id : String
  enabled : Bool
  authType : String
  authValue : String
  updatedAt : Int
  createdAt : Int
deriving DecidableEq, Repr

/-- The rows in the order in which the database reads them; the id is the primary key,
and the number of rows is an `int64`. -/
structure Table where
  rows : List Entity
  primaryKey : (rows.map Entity.id).Nodup
  counted : rows.length < 2 ^ 63

structure PageQuery where
  enabled : Option Bool
  withAuthValue : Bool
  withStatus : Bool
  pageIndex : Int
  pageSize : Int
deriving DecidableEq, Repr

structure PageData where
  total : Nat
  content : List Thing
deriving DecidableEq, Repr

/-- `(q.PageIndex - 1) * q.PageSize` in 64 bits. -/
def PageQuery.offset (pq : PageQuery) : Int := ((pq.pageIndex - 1) * pq.pageSize).bmod (2 ^ 64)

def PageQuery.limit (pq : PageQuery) : Int := pq.pageSize

def toThing (en : Entity) : Thing :=
  { id := en.id, enabled := en.enabled, authType := en.authType, authValue := en.authValue
    updatedAt := en.updatedAt, createdAt := en.createdAt }

/-- The `WHERE` of the query, which is there only when `enabled` is asked for. -/
def PageQuery.selects (pq : PageQuery) (row : Entity) : Bool :=
  match pq.enabled with
  | none => true
  | some value => row.enabled == value

/-- `Order("created_at ASC")`; rows of one time stay in the order of the table. -/
def byCreatedAt (rows : List Entity) : List Entity :=
  rows.insertionSort fun first second => first.createdAt ≤ second.createdAt

/-- The clauses that gorm builds: no `OFFSET` unless it is positive, and no `LIMIT` when
it is negative. -/
def window (offset limit : Int) (rows : List Entity) : List Entity :=
  let rest := if 0 < offset then rows.drop offset.toNat else rows
  if 0 ≤ limit then rest.take limit.toNat else rest

/-- A thing as it is answered: without its secret unless the query asks for it. -/
def PageQuery.shown (pq : PageQuery) (row : Entity) : Thing :=
  if pq.withAuthValue then toThing row else { toThing row with authValue := "" }

def query (table : Table) (pq : PageQuery) : PageData :=
  -- the count is a query of its own, before the filter is known
  let total := table.rows.length
  if total = 0 then { total := 0, content := [] }
  else
    let found := window pq.offset pq.limit (byCreatedAt (table.rows.filter pq.selects))
    { total := total, content := found.map pq.shown }

/-- What the query asks for, without pages. -/
def matching (table : Table) (pq : PageQuery) : List Thing :=
  (byCreatedAt (table.rows.filter pq.selects)).map pq.shown

def PageQuery.atPage (pq : PageQuery) (index : Nat) : PageQuery := { pq with pageIndex := index }

/-- The contents of the pages 1 to `last`. -/
def contents (table : Table) (pq : PageQuery) : Nat → List Thing
  | 0 => []
  | last + 1 => contents table pq last ++ (query table (pq.atPage (last + 1))).content

/-- A client that asks for one page after the other until it has as many things as the
page says there are. -/
def browse (table : Table) (pq : PageQuery) : Nat → Nat → List Thing → Option (List Thing)
  | 0, _, _ => none
  | fuel + 1, index, had =>
    let page := query table (pq.atPage index)
    let items := had ++ page.content
    if page.total ≤ items.length then some items else browse table pq fuel (index + 1) items

/-- The pages 1 to `last` are right: each says how many things match, no thing is on
them twice, no other is on them, and enough of them hold every matching thing. -/
structure Paged (table : Table) (pq : PageQuery) (last : Nat) : Prop where
  total : ∀ index, 1 ≤ index → index ≤ last →
    (query table (pq.atPage index)).total = (matching table pq).length
  once : (contents table pq last).Nodup
  within : contents table pq last ⊆ matching table pq
  complete : (matching table pq).length ≤ last * pq.pageSize.toNat →
    matching table pq ⊆ contents table pq last

/-- The client stops, with exactly the matching things. -/
def Browsed (table : Table) (pq : PageQuery) : Prop :=
  ∃ fuel items, browse table pq fuel 1 [] = some items ∧ items.Perm (matching table pq)

section

variable {table : Table} {pq : PageQuery}

theorem length_matching (table : Table) (pq : PageQuery) :
    (matching table pq).length = (table.rows.filter pq.selects).length := by
  rw [matching, List.length_map, byCreatedAt, List.length_insertionSort]

theorem length_matching_le (table : Table) (pq : PageQuery) :
    (matching table pq).length ≤ table.rows.length := by
  rw [length_matching]
  exact List.length_filter_le _ _

/-- No thing matches twice: the id is the primary key. -/
theorem matching_nodup (table : Table) (pq : PageQuery) : (matching table pq).Nodup := by
  have ids : Thing.id ∘ pq.shown = Entity.id := by
    funext row
    cases secret : pq.withAuthValue <;> simp [PageQuery.shown, secret, toThing]
  have perm : (byCreatedAt (table.rows.filter pq.selects)).Perm (table.rows.filter pq.selects) :=
    List.perm_insertionSort _ _
  apply List.Nodup.of_map Thing.id
  rw [matching, List.map_map, ids]
  exact (perm.map _).nodup_iff.mpr (table.primaryKey.sublist (List.filter_sublist.map _))

/-- As many things match as there are only when all of them do. -/
theorem length_matching_eq_iff (table : Table) (pq : PageQuery) :
    (matching table pq).length = table.rows.length ↔ ∀ row ∈ table.rows, pq.selects row = true := by
  rw [length_matching]
  exact List.length_filter_eq_length_iff

/-- The filter is not in the count. -/
theorem query_total (table : Table) (pq : PageQuery) : (query table pq).total = table.rows.length := by
  by_cases none : table.rows.length = 0
  · simp only [query, if_pos none]
    exact none.symm
  · simp only [query, if_neg none]

theorem query_content (table : Table) (pq : PageQuery) :
    (query table pq).content =
      (window pq.offset pq.limit (byCreatedAt (table.rows.filter pq.selects))).map pq.shown := by
  by_cases none : table.rows.length = 0
  · have empty : table.rows = [] := List.length_eq_zero_iff.mp none
    simp [query, empty, byCreatedAt, window]
  · simp only [query, if_neg none]

theorem window_eq_page (index size : Nat) (rows : List Entity) :
    window ((index * size : Nat) : Int) size rows = page size index rows := by
  unfold window page
  by_cases first : index * size = 0
  · simp [first]
  · have behind : (0 : Int) < ((index * size : Nat) : Int) := by omega
    simp only [if_pos behind, Int.toNat_natCast, if_pos (Int.natCast_nonneg size)]

theorem offset_atPage (positive : 1 ≤ pq.pageSize) (index : Nat) :
    (pq.atPage (index + 1)).offset = ((index * pq.pageSize.toNat : Nat) : Int).bmod (2 ^ 64) := by
  have size : (pq.pageSize.toNat : Int) = pq.pageSize := Int.toNat_of_nonneg (by omega)
  have before : ((index + 1 : Nat) : Int) - 1 = index := by omega
  rw [Int.natCast_mul, size, ← before]
  rfl

theorem limit_atPage (positive : 1 ≤ pq.pageSize) (index : Nat) :
    (pq.atPage index).limit = (pq.pageSize.toNat : Int) :=
  (Int.toNat_of_nonneg (Int.le_trans Int.one_nonneg positive)).symm

/-- Where the offset is not negative in 64 bits, a page is a page of what matches. -/
theorem content_atPage {index : Nat} (positive : 1 ≤ pq.pageSize)
    (small : index * pq.pageSize.toNat < 2 ^ 63) :
    (query table (pq.atPage (index + 1))).content =
      page pq.pageSize.toNat index (matching table pq) := by
  have offset : (pq.atPage (index + 1)).offset = ((index * pq.pageSize.toNat : Nat) : Int) := by
    rw [offset_atPage positive]
    apply Int.bmod_eq_of_le <;> omega
  rw [query_content, offset, limit_atPage positive, window_eq_page, matching, page_map]
  rfl

/-- Where the offset wraps around, the first page comes again. -/
theorem content_wrapped {index : Nat} (positive : 1 ≤ pq.pageSize)
    (large : 2 ^ 63 ≤ index * pq.pageSize.toNat) (next : index * pq.pageSize.toNat < 2 ^ 64) :
    (query table (pq.atPage (index + 1))).content = (matching table pq).take pq.pageSize.toNat := by
  have offset : (pq.atPage (index + 1)).offset ≤ 0 := by
    rw [offset_atPage positive, Int.bmod_def]
    omega
  rw [query_content, limit_atPage positive, window, if_neg (Int.not_lt.mpr offset),
    if_pos (Int.natCast_nonneg _), Int.toNat_natCast, matching, ← List.map_take]
  rfl

theorem contents_eq_pages (positive : 1 ≤ pq.pageSize) {last : Nat}
    (small : (last - 1) * pq.pageSize.toNat < 2 ^ 63) :
    contents table pq last = pages pq.pageSize.toNat (matching table pq) last := by
  induction last with
  | zero => rfl
  | succ last ih =>
    have before : (last - 1) * pq.pageSize.toNat < 2 ^ 63 :=
      Nat.lt_of_le_of_lt (Nat.mul_le_mul_right _ (by omega)) small
    have small' : last * pq.pageSize.toNat < 2 ^ 63 := small
    rw [contents, pages, ih before, content_atPage positive small']

/-- Pages behind the wrapped offset make the client's list longer than what matches. -/
theorem contents_long (positive : 1 ≤ pq.pageSize) (int : pq.pageSize < 2 ^ 63)
    (some : matching table pq ≠ []) {last : Nat}
    (large : 2 ^ 63 ≤ (last - 1) * pq.pageSize.toNat) :
    (matching table pq).length < (contents table pq last).length := by
  induction last with
  | zero =>
    rw [Nat.zero_sub, Nat.zero_mul] at large
    omega
  | succ last ih =>
    rw [contents, List.length_append]
    by_cases already : 2 ^ 63 ≤ (last - 1) * pq.pageSize.toNat
    · exact Nat.lt_add_right _ (ih already)
    · have large' : 2 ^ 63 ≤ last * pq.pageSize.toNat := large
      have step : last * pq.pageSize.toNat ≤ (last - 1) * pq.pageSize.toNat + pq.pageSize.toNat := by
        rw [← Nat.succ_mul]
        exact Nat.mul_le_mul_right _ (by omega)
      have fewer : (matching table pq).length ≤ last * pq.pageSize.toNat := by
        have most := length_matching_le table pq
        have counted := table.counted
        omega
      have again : 0 < ((matching table pq).take pq.pageSize.toNat).length := by
        have more := List.length_pos_iff.mpr some
        rw [List.length_take]
        omega
      rw [contents_eq_pages positive (Nat.lt_of_not_le already), pages_of_le fewer,
        content_wrapped positive large' (by omega)]
      omega

theorem matching_eq_nil_iff (all : ∀ row ∈ table.rows, pq.selects row = true) :
    matching table pq = [] ↔ table.rows = [] := by
  rw [← List.length_eq_zero_iff, (length_matching_eq_iff table pq).mpr all, List.length_eq_zero_iff]

theorem contents_nil (empty : table.rows = []) (last : Nat) : contents table pq last = [] := by
  induction last with
  | zero => rfl
  | succ last ih =>
    rw [contents, ih, query_content, empty]
    simp [byCreatedAt, window]

/-- The pages are right exactly when the filter drops nothing and no offset among them
wraps around. -/
theorem paged_iff (positive : 1 ≤ pq.pageSize) (int : pq.pageSize < 2 ^ 63) {last : Nat}
    (first : 1 ≤ last) :
    Paged table pq last ↔ (∀ row ∈ table.rows, pq.selects row = true) ∧
      (table.rows = [] ∨ (last - 1) * pq.pageSize.toNat < 2 ^ 63) := by
  constructor
  · intro paged
    have total := paged.total 1 (Nat.le_refl 1) first
    rw [query_total] at total
    have all := (length_matching_eq_iff table pq).mp total.symm
    refine ⟨all, or_iff_not_imp_left.mpr fun some => ?_⟩
    by_contra large
    have long := contents_long positive int (mt (matching_eq_nil_iff all).mp some) (Nat.le_of_not_lt large)
    have few := (List.subperm_of_subset paged.once paged.within).length_le
    omega
  · intro ⟨all, fits⟩
    have same := (length_matching_eq_iff table pq).mpr all
    have total : ∀ index, 1 ≤ index → index ≤ last →
        (query table (pq.atPage index)).total = (matching table pq).length := by
      intro index _ _
      rw [query_total, same]
    cases fits with
    | inl empty =>
      have none := (matching_eq_nil_iff all).mpr empty
      have nothing : contents table pq last = [] := contents_nil empty last
      constructor
      · exact total
      · rw [nothing]
        exact List.nodup_nil
      · rw [nothing]
        exact List.nil_subset _
      · intro _
        rw [none]
        exact List.nil_subset _
    | inr small =>
      have every : contents table pq last = pages _ (matching table pq) last :=
        contents_eq_pages positive small
      constructor
      · exact total
      · rw [every]
        exact (matching_nodup table pq).sublist (pages_sublist _ _ _)
      · rw [every]
        exact (pages_sublist _ _ _).subset
      · intro enough
        rw [every, pages_of_le enough]
        exact fun _ member => member

/-- A client that has the first pages goes on until it has them all. -/
theorem browse_eq (positive : 1 ≤ pq.pageSize) (all : ∀ row ∈ table.rows, pq.selects row = true)
    (fuel : Nat) {had : Nat} (more : had * pq.pageSize.toNat ≤ table.rows.length)
    (enough : table.rows.length < had + fuel) :
    browse table pq fuel (had + 1) (pages pq.pageSize.toNat (matching table pq) had) =
      some (matching table pq) := by
  have size : 1 ≤ pq.pageSize.toNat := by omega
  have same := (length_matching_eq_iff table pq).mpr all
  induction fuel generalizing had with
  | zero =>
    have reach := Nat.le_mul_of_pos_right had size
    omega
  | succ fuel ih =>
    have small : had * pq.pageSize.toNat < 2 ^ 63 := Nat.lt_of_le_of_lt more table.counted
    have items : pages pq.pageSize.toNat (matching table pq) had ++
        (query table (pq.atPage (had + 1))).content =
          pages pq.pageSize.toNat (matching table pq) (had + 1) := by
      rw [content_atPage positive small]
      rfl
    simp only [browse, items, query_total]
    by_cases fits : table.rows.length ≤ (had + 1) * pq.pageSize.toNat
    · have whole := pages_of_le (Nat.le_trans (Nat.le_of_eq same) fits)
      rw [whole, same, if_pos (Nat.le_refl _)]
    · have longer := Nat.le_of_not_le fits
      have length := length_pages_of_le (Nat.le_trans longer (Nat.le_of_eq same.symm))
      rw [length, if_neg fits]
      exact ih longer (by omega)

theorem browse_total {fuel index : Nat} {had items : List Thing}
    (stopped : browse table pq fuel index had = some items) : table.rows.length ≤ items.length := by
  induction fuel generalizing index had with
  | zero => cases stopped
  | succ fuel ih =>
    simp only [browse, query_total] at stopped
    split at stopped
    · next enough =>
      cases stopped
      exact enough
    · exact ih stopped

theorem browsed_iff (positive : 1 ≤ pq.pageSize) :
    Browsed table pq ↔ ∀ row ∈ table.rows, pq.selects row = true := by
  constructor
  · intro ⟨fuel, items, stopped, perm⟩
    have least := browse_total stopped
    have most := length_matching_le table pq
    rw [perm.length_eq] at least
    exact (length_matching_eq_iff table pq).mp (Nat.le_antisymm most least)
  · intro all
    refine ⟨table.rows.length + 1, matching table pq, ?_, .refl _⟩
    have start : 0 * pq.pageSize.toNat ≤ table.rows.length := by omega
    exact browse_eq positive all _ start (by omega)

end

/-- The pages of things are right exactly when every thing of the table matches the
filter, which the count leaves out, and the offset of the last page fits into 64 bits;
a client that pages until it has them all stops with what matches exactly when every
thing matches. -/
theorem query_paged (table : Table) (pq : PageQuery) (positive : 1 ≤ pq.pageSize)
    (int : pq.pageSize < 2 ^ 63) :
    (∀ last, 1 ≤ last → (Paged table pq last ↔ (∀ row ∈ table.rows, pq.selects row = true) ∧
      (table.rows = [] ∨ (last - 1) * pq.pageSize.toNat < 2 ^ 63))) ∧
    (Browsed table pq ↔ ∀ row ∈ table.rows, pq.selects row = true) :=
  ⟨fun _ first => paged_iff positive int first, browsed_iff positive⟩

/-- One thing that is enabled, and one that is not. -/
def oneDisabled : Table :=
  { rows :=
      [{ id := "pump", enabled := true, authType := "password", authValue := "p", updatedAt := 1, createdAt := 1 },
       { id := "valve", enabled := false, authType := "password", authValue := "v", updatedAt := 2, createdAt := 2 }]
    primaryKey := by decide
    counted := by decide }

def enabledOnly : PageQuery :=
  { enabled := some true, withAuthValue := false, withStatus := false, pageIndex := 1, pageSize := 1 }

def everyThing : PageQuery := { enabledOnly with enabled := none }

/-- Without a filter the pages 1 and 2 are right, and the client stops. -/
theorem query_paged_unfiltered : Paged oneDisabled everyThing 2 ∧ Browsed oneDisabled everyThing := by
  have all : ∀ row ∈ oneDisabled.rows, everyThing.selects row = true := fun _ _ => rfl
  obtain ⟨paged, browsed⟩ := query_paged oneDisabled everyThing (by decide) (by decide)
  exact ⟨(paged 2 (by decide)).mpr ⟨all, .inr (by decide)⟩, browsed.mpr all⟩

/-- With the filter the first page says two where one thing matches, and the client does
not stop with it. -/
theorem query_counts_unfiltered :
    ¬ ∀ (table : Table) (pq : PageQuery), 1 ≤ pq.pageSize → pq.pageSize < 2 ^ 63 →
      Paged table pq 1 ∧ Browsed table pq := by
  intro every
  have claimed := (every oneDisabled enabledOnly (by decide) (by decide)).1
  have total := claimed.total 1 (by decide) (by decide)
  cases (by decide : (query oneDisabled (enabledOnly.atPage 1)).total ≠
    (matching oneDisabled enabledOnly).length) total

end Tio.ThingRepo
