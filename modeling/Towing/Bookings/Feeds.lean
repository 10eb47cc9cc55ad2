import Towing.Process.Keyset

namespace Towing.Bookings

open Process

inductive JobStatus where
  | searching
  | assigned
  | en_route
  | arrived
  | in_progress
  | completed
  | paid
  | cancelled
  | no_drivers_found
  | disputed
  | refunded
  deriving DecidableEq, Repr

/-- A row of `bookings`, as far as the feeds read it: `createdAt` is in microseconds. -/
structure BookingRow where
  id : ℕ
  createdAt : ℤ
  userId : ℕ
  fleetId : Option ℕ
  status : JobStatus
  deriving DecidableEq, Repr

/-- A table has one row for each id. -/
structure BookingTable where
  rows : List BookingRow
  ids : (rows.map BookingRow.id).Nodup

/-- `createdAt` is a `Date`, in milliseconds. -/
structure JobsCursor where
  createdAt : ℤ
  id : ℕ
  deriving DecidableEq, Repr

/-- A `timestamptz` as the driver hands it out: a `Date` has no microseconds. -/
def toDate (micros : ℤ) : ℤ := micros / 1000

/-- `created_at desc, id desc`. -/
def Newer (a b : BookingRow) : Prop := b.createdAt < a.createdAt ∨ (b.createdAt = a.createdAt ∧ b.id < a.id)

/-- `(created_at, id) < (cursor.createdAt, cursor.id)`. -/
def Below (cursor : JobsCursor) (r : BookingRow) : Prop :=
  r.createdAt < cursor.createdAt * 1000 ∨ (r.createdAt = cursor.createdAt * 1000 ∧ r.id < cursor.id)

instance (cursor : JobsCursor) : DecidablePred (Below cursor) := fun r ↦
  inferInstanceAs (Decidable (r.createdAt < cursor.createdAt * 1000 ∨
    (r.createdAt = cursor.createdAt * 1000 ∧ r.id < cursor.id)))

/-- The sort of the feeds. -/
def NotOlder (a b : BookingRow) : Prop := b.createdAt < a.createdAt ∨ (b.createdAt = a.createdAt ∧ b.id ≤ a.id)

instance : DecidableRel NotOlder := fun a b ↦
  inferInstanceAs (Decidable (b.createdAt < a.createdAt ∨ (b.createdAt = a.createdAt ∧ b.id ≤ a.id)))

def cursorOf (last : BookingRow) : JobsCursor := ⟨toDate last.createdAt, last.id⟩

/-- `select … where … order by … limit n`. -/
def select (table : BookingTable) (condition : BookingRow → Bool) (n : ℕ) : List BookingRow :=
  ((table.rows.filter condition).insertionSort NotOlder).take n

/-! ### The two feeds -/

def afterCursor (cursor : Option JobsCursor) (r : BookingRow) : Bool :=
  match cursor with
  | none => true
  | some cursor => Below cursor r

/-- `BookingsRepo.list`; a cursor is what its text stands for. -/
def list (table : BookingTable) (userId limit : ℕ) (cursor : Option JobsCursor) : List BookingRow × Option JobsCursor :=
  let rows := select table (fun r ↦ r.userId = userId && afterCursor cursor r) (limit + 1)
  let page := rows.take limit
  (page, if rows.length > limit then page.getLast?.map cursorOf else none)

def DAY_MS : ℤ := 86400000

/-- `fromMs` and `toMs` are the midnights of the two dates. -/
structure JobsQuery where
  status : Option JobStatus
  fromMs : Option ℤ
  toMs : Option ℤ

def matchesQuery (fleetId : ℕ) (filters : JobsQuery) (r : BookingRow) : Bool :=
  r.fleetId = some fleetId && filters.status.all (fun status ↦ r.status = status) &&
    filters.fromMs.all (fun first ↦ first * 1000 ≤ r.createdAt) &&
    filters.toMs.all (fun last ↦ r.createdAt < (last + DAY_MS) * 1000)

def feedPage (table : BookingTable) (fleetId : ℕ) (filters : JobsQuery) (cursor : Option JobsCursor) (limit : ℕ) :
    List BookingRow :=
  select table (fun r ↦ matchesQuery fleetId filters r && afterCursor cursor r) limit

/-- `JobsService.list`. -/
def listJobs (table : BookingTable) (fleetId : ℕ) (filters : JobsQuery) (limit : ℕ) (cursor : Option JobsCursor) :
    List BookingRow × Option JobsCursor :=
  let rows := feedPage table fleetId filters cursor (limit + 1)
  let pageRows := rows.take limit
  (pageRows, if rows.length > limit then pageRows.getLast?.map cursorOf else none)

/-! ### The order of the feeds -/

theorem toDate_le (micros : ℤ) : toDate micros * 1000 ≤ micros := by
  rw [toDate]
  omega

def feedOrder : Keyset.Order BookingRow JobsCursor where
  before := Newer
  below := Below
  cursorOf := cursorOf
  trans := by
    unfold Newer
    omega
  irrefl := by
    intro a h
    unfold Newer at h
    omega
  after := by
    intro a b h
    have hle := toDate_le a.createdAt
    have h : b.createdAt < toDate a.createdAt * 1000 ∨ (b.createdAt = toDate a.createdAt * 1000 ∧ b.id < a.id) := h
    unfold Newer
    omega
  closed := by
    intro c a b
    unfold Below Newer
    omega
  decidable := fun _ ↦ inferInstance

/-- All the rows that match, in the order of the feeds. -/
def ordered (table : BookingTable) (condition : BookingRow → Bool) : List BookingRow :=
  (table.rows.filter condition).insertionSort NotOlder

theorem notOlder_total (a b : BookingRow) : NotOlder a b ∨ NotOlder b a := by
  unfold NotOlder
  omega

theorem notOlder_trans (a b c : BookingRow) (h : NotOlder a b) (h' : NotOlder b c) : NotOlder a c := by
  unfold NotOlder at *
  omega

instance : Std.Total NotOlder := ⟨notOlder_total⟩

instance : IsTrans BookingRow NotOlder := ⟨notOlder_trans⟩

theorem perm_ordered (table : BookingTable) (condition : BookingRow → Bool) :
    (ordered table condition).Perm (table.rows.filter condition) :=
  List.perm_insertionSort _ _

/-- With ids that differ, the sort leaves no choice. -/
theorem ordered_newer (table : BookingTable) (condition : BookingRow → Bool) :
    (ordered table condition).Pairwise Newer := by
  have hsorted : (ordered table condition).Pairwise NotOlder := List.pairwise_insertionSort NotOlder _
  have hnodup : ((ordered table condition).map BookingRow.id).Nodup := by
    rw [((perm_ordered table condition).map BookingRow.id).nodup_iff]
    exact table.ids.sublist (List.filter_sublist.map BookingRow.id)
  rw [List.Nodup, List.pairwise_map] at hnodup
  refine (hsorted.and hnodup).imp ?_
  rintro a b ⟨hle, hne⟩
  unfold NotOlder at hle
  unfold Newer
  omega

theorem eq_ordered {table : BookingTable} {condition : BookingRow → Bool} {items : List BookingRow}
    (hperm : items.Perm (table.rows.filter condition)) (hnewer : items.Pairwise Newer) :
    items = ordered table condition := by
  refine List.Perm.eq_of_pairwise ?_ hnewer (ordered_newer table condition)
    (hperm.trans (perm_ordered table condition).symm)
  intro a b _ _ h h'
  unfold Newer at h h'
  omega

/-- What a query with a cursor selects is what comes after the cursor in the order of the feed. -/
theorem select_rest (table : BookingTable) (condition : BookingRow → Bool) (cursor : Option JobsCursor) (n : ℕ) :
    select table (fun r ↦ condition r && afterCursor cursor r) n =
      (Keyset.rest feedOrder (ordered table condition) cursor).take n := by
  rw [select]
  congr 1
  cases cursor with
  | none =>
    simp only [afterCursor, Bool.and_true]
    rfl
  | some c =>
    symm
    refine @eq_ordered table (fun r ↦ condition r && afterCursor (some c) r) _ ?_ ?_
    · have hfilter : table.rows.filter (fun r ↦ condition r && afterCursor (some c) r) =
          (table.rows.filter condition).filter fun r ↦ Below c r := by
        rw [List.filter_filter]
        apply List.filter_congr
        intro r _
        exact Bool.and_comm _ _
      rw [hfilter]
      exact (perm_ordered table condition).filter _
    · exact (ordered_newer table condition).filter _

theorem list_page (table : BookingTable) (userId limit : ℕ) :
    list table userId limit = Keyset.page feedOrder (ordered table fun r ↦ r.userId = userId) limit := by
  funext cursor
  simp only [list, Keyset.page, select_rest]
  rfl

theorem listJobs_page (table : BookingTable) (fleetId : ℕ) (filters : JobsQuery) (limit : ℕ) :
    listJobs table fleetId filters limit =
      Keyset.page feedOrder (ordered table (matchesQuery fleetId filters)) limit := by
  funext cursor
  simp only [listJobs, feedPage, Keyset.page, select_rest]
  rfl

/-! ### Following the cursors -/

abbrev PageSize := {limit : ℕ // 0 < limit}

/-- Each row of the table that matches, exactly once and newest first. -/
def OnceInOrder (table : BookingTable) (condition : BookingRow → Bool) (items : List BookingRow) : Prop :=
  items.Perm (table.rows.filter condition) ∧ items.Pairwise Newer

/-- The row after each full page lies before the page's last row even where that one's time is cut to the
millisecond. -/
def CursorTells (limit : ℕ) (rows : List BookingRow) : Prop :=
  ∀ k last next, rows[k * limit + (limit - 1)]? = some last → rows[(k + 1) * limit]? = some next →
    next.createdAt < toDate last.createdAt * 1000 ∨
      (next.createdAt = toDate last.createdAt * 1000 ∧ next.id < last.id)

theorem once_iff {table : BookingTable} {condition : BookingRow → Bool} {items : List BookingRow} :
    OnceInOrder table condition items ↔ items = ordered table condition := by
  constructor
  · rintro ⟨hperm, hnewer⟩
    exact eq_ordered hperm hnewer
  · rintro rfl
    exact ⟨perm_ordered table condition, ordered_newer table condition⟩

theorem walk_once (table : BookingTable) (condition : BookingRow → Bool) (limit : PageSize) :
    ∃ items, (∀ visited, Keyset.Walk (Keyset.page feedOrder (ordered table condition) limit) none visited ↔
        visited = items) ∧
      (OnceInOrder table condition items ↔ CursorTells limit (ordered table condition)) := by
  have hsorted : (ordered table condition).Pairwise feedOrder.before := ordered_newer table condition
  obtain ⟨items, hwalk, -, hiff⟩ := Keyset.walk_iff hsorted limit.2 _ none le_rfl
  refine ⟨items, fun visited ↦ ⟨fun h ↦ h.unique hwalk, fun h ↦ h ▸ hwalk⟩, ?_⟩
  rw [once_iff]
  exact hiff

theorem feeds_visit_once_iff (table : BookingTable) (limit : PageSize) :
    (∀ userId, ∃ items, (∀ visited, Keyset.Walk (list table userId limit) none visited ↔ visited = items) ∧
      (OnceInOrder table (fun r ↦ r.userId = userId) items ↔
        CursorTells limit (ordered table fun r ↦ r.userId = userId))) ∧
    ∀ fleetId filters, ∃ items,
      (∀ visited, Keyset.Walk (listJobs table fleetId filters limit) none visited ↔ visited = items) ∧
      (OnceInOrder table (matchesQuery fleetId filters) items ↔
        CursorTells limit (ordered table (matchesQuery fleetId filters))) := by
  refine ⟨fun userId ↦ ?_, fun fleetId filters ↦ ?_⟩
  · rw [list_page]
    exact walk_once table _ limit
  · rw [listJobs_page]
    exact walk_once table _ limit

/-- Two bookings of one customer within a millisecond. -/
def sameMillisecond : BookingTable where
  rows := [⟨1, 1000500, 7, none, .searching⟩, ⟨2, 1000200, 7, none, .cancelled⟩]
  ids := by decide

theorem booking_skipped : ¬∃ items, Keyset.Walk (list sameMillisecond 7 1) none items ∧
    OnceInOrder sameMillisecond (fun r ↦ r.userId = 7) items := by
  rintro ⟨items, hwalk, hperm, -⟩
  have hfirst : list sameMillisecond 7 1 none =
      ([⟨1, 1000500, 7, none, .searching⟩], some ⟨1000, 1⟩) := by decide +kernel
  have hlast : list sameMillisecond 7 1 (some ⟨1000, 1⟩) = ([], none) := by decide +kernel
  have hvisited := Keyset.Walk.next (congrArg Prod.snd hfirst) (.last (congrArg Prod.snd hlast))
  have hlength := hperm.length_eq
  rw [hwalk.unique hvisited, hfirst, hlast] at hlength
  revert hlength
  decide

end Towing.Bookings
