import Towing.Money.EarningsProjector

namespace Towing.Money

open Towing.Db Towing.Process

/-- For a fleet booking that earned on the day the window opens on, nothing of that day is
inside the window. -/
def CutOff (db : EarningsDb) (since : ℤ) : Prop :=
  ∃ t ∈ db.transactions, ∃ bookingId, t.refId = some bookingId ∧ (db.grain t).isSome ∧
    istDay t.createdAt = istDay since ∧ 0 < db.totalOf bookingId ∧
    ∀ t' ∈ db.transactions, t'.type ∈ earningTypes → t'.refId = some bookingId →
      istDay t'.createdAt = istDay since → t'.createdAt < since

/-- The gross a cell shows, zero for a cell that is not there. -/
def EarningsDaily.grossAt (earnings : EarningsDaily) (key : EarningsGrainKey) : ℕ :=
  (earnings.get? key).elim 0 (·.gross)

def EarningsDb.grossOf (db : EarningsDb) (since : Option ℤ) (key : EarningsGrainKey) : ℕ :=
  ((bookingsOf (db.earned since key)).map db.totalOf).sum

variable {db : EarningsDb} {earnings : EarningsDaily} {key : EarningsGrainKey} {since : ℤ}

theorem istDay_mono {a b : ℤ} (h : a ≤ b) : istDay a ≤ istDay b := by
  unfold istDay
  omega

/-! What is summed. -/

theorem sum_map_eq_iff {α : Type} [DecidableEq α] {l l' : List α} (hl : l.Nodup) (hl' : l'.Nodup)
    (hsub : l' ⊆ l) (f : α → ℕ) :
    (l.map f).sum = (l'.map f).sum ↔ ∀ a ∈ l, a ∉ l' → f a = 0 := by
  have hsub' : l'.toFinset ⊆ l.toFinset := by
    intro a ha
    rw [List.mem_toFinset] at ha ⊢
    exact hsub ha
  rw [← List.sum_toFinset f hl, ← List.sum_toFinset f hl', ← Finset.sum_sdiff hsub', add_eq_right,
    Finset.sum_eq_zero_iff]
  constructor
  · intro h a ha ha'
    exact h a (by simpa using ⟨ha, ha'⟩)
  · intro h a ha
    simp only [Finset.mem_sdiff, List.mem_toFinset] at ha
    exact h a ha.1 ha.2

theorem grain_eq {t : EarningsRow} (h : db.grain t = some key) :
    t.type ∈ earningTypes ∧ istDay t.createdAt = key.day := by
  unfold EarningsDb.grain at h
  split_ifs at h with htype
  simp only [Option.bind_eq_some_iff, Option.map_eq_some_iff] at h
  obtain ⟨_, _, _, _, _, _, rfl⟩ := h
  exact ⟨htype, rfl⟩

/-- The grain is decided by the booking and the day. -/
theorem grain_congr {t t' : EarningsRow} (htype : t.type ∈ earningTypes)
    (htype' : t'.type ∈ earningTypes) (href : t'.refId = t.refId)
    (hday : istDay t'.createdAt = istDay t.createdAt) : db.grain t' = db.grain t := by
  rw [EarningsDb.grain, EarningsDb.grain, if_pos htype, if_pos htype', href, hday]

theorem mem_bookingsOf {since : Option ℤ} {bookingId : ℕ} :
    bookingId ∈ bookingsOf (db.earned since key) ↔
      ∃ t ∈ db.transactions, since.all (· ≤ t.createdAt) ∧ db.grain t = some key ∧
        t.refId = some bookingId := by
  simp only [bookingsOf, OrderedMap.mem_firsts, List.mem_filterMap, EarningsDb.earned, List.mem_filter,
    Bool.and_eq_true, decide_eq_true_eq]
  constructor
  · rintro ⟨t, ⟨ht, hsince, hgrain⟩, href⟩
    exact ⟨t, ht, hsince, hgrain, href⟩
  · rintro ⟨t, ht, hsince, hgrain, href⟩
    exact ⟨t, ⟨ht, hsince, hgrain⟩, href⟩

theorem bookingsOf_subset :
    bookingsOf (db.earned (some since) key) ⊆ bookingsOf (db.earned none key) := by
  intro bookingId h
  rw [mem_bookingsOf] at h ⊢
  obtain ⟨t, ht, -, hgrain, href⟩ := h
  exact ⟨t, ht, rfl, hgrain, href⟩

theorem grossOf_eq_iff :
    db.grossOf none key = db.grossOf (some since) key ↔
      ∀ bookingId ∈ bookingsOf (db.earned none key),
        bookingId ∉ bookingsOf (db.earned (some since) key) → db.totalOf bookingId = 0 :=
  sum_map_eq_iff (OrderedMap.nodup_firsts _) (OrderedMap.nodup_firsts _) bookingsOf_subset _

/-- A day that begins inside the window is read whole. -/
theorem earned_of_later (h : istDay since < key.day) : db.earned (some since) key = db.earned none key := by
  apply List.filter_congr
  intro t _
  by_cases hgrain : db.grain t = some key
  · have hday := (grain_eq hgrain).2
    have hlate : since ≤ t.createdAt := by
      by_contra hlt
      have := istDay_mono (not_le.mp hlt).le
      omega
    simp [hgrain, hlate]
  · simp [hgrain]

/-- Where no booking is cut off, the two sums agree on the whole window. -/
theorem grossOf_of_not_cutOff (h : ¬CutOff db since) (hday : istDay since ≤ key.day) :
    db.grossOf none key = db.grossOf (some since) key := by
  rcases hday.lt_or_eq with hlt | heq
  · rw [EarningsDb.grossOf, EarningsDb.grossOf, earned_of_later hlt]
  · rw [grossOf_eq_iff]
    intro bookingId hin hout
    by_contra hne
    rw [mem_bookingsOf] at hin hout
    obtain ⟨t, ht, -, hgrain, href⟩ := hin
    obtain ⟨htype, htday⟩ := grain_eq hgrain
    apply h
    refine ⟨t, ht, bookingId, href, by simp [hgrain], htday.trans heq.symm, Nat.pos_of_ne_zero hne, ?_⟩
    intro t' ht' htype' href' hday'
    by_contra hlate
    apply hout
    refine ⟨t', ht', by simpa using hlate, ?_, href'⟩
    rw [← hgrain]
    exact grain_congr htype htype' (href'.trans href.symm) (hday'.trans (heq.trans htday.symm))

/-- A booking that is cut off is missing from the sum of its cell. -/
theorem exists_of_cutOff (h : CutOff db since) :
    ∃ key : EarningsGrainKey, key.day = istDay since ∧ db.grossOf none key ≠ db.grossOf (some since) key := by
  obtain ⟨t, ht, bookingId, href, hsome, hday, htotal, hall⟩ := h
  obtain ⟨key, hgrain⟩ := Option.isSome_iff_exists.mp hsome
  have hkey := (grain_eq hgrain).2
  refine ⟨key, hkey.symm.trans hday, ?_⟩
  intro heq
  rw [grossOf_eq_iff] at heq
  refine htotal.ne' (heq bookingId ?_ ?_)
  · rw [mem_bookingsOf]
    exact ⟨t, ht, rfl, hgrain, href⟩
  · rw [mem_bookingsOf]
    rintro ⟨t', ht', hsince, hgrain', href'⟩
    obtain ⟨htype', hday'⟩ := grain_eq hgrain'
    have hlt := hall t' ht' htype' href' (hday'.trans (hkey.symm.trans hday))
    simp only [Option.all_some, decide_eq_true_eq] at hsince
    omega

/-! What is written. -/

theorem get?_projectCell (key k : EarningsGrainKey) :
    (projectCell db earnings key).2.get? k = if k = key then recomputed db key else earnings.get? k := by
  unfold projectCell
  split
  · next cell hcell => rw [OrderedMap.get?_set, hcell]
  · next hnone => rw [OrderedMap.get?_erase, hnone]

theorem projectCells_concat (keys : List EarningsGrainKey) (key : EarningsGrainKey) :
    (projectCells db earnings (keys ++ [key])).2 =
      (projectCell db (projectCells db earnings keys).2 key).2 := by
  rw [projectCells, List.foldl_concat]
  rfl

theorem get?_projectCells (keys : List EarningsGrainKey) (k : EarningsGrainKey) :
    (projectCells db earnings keys).2.get? k = if k ∈ keys then recomputed db k else earnings.get? k := by
  induction keys using List.reverseRecOn with
  | nil => rfl
  | append_singleton keys key ih =>
    rw [projectCells_concat, get?_projectCell, ih]
    by_cases hk : k = key
    · simp [hk]
    · simp [hk]

theorem gross_recomputed (key : EarningsGrainKey) :
    (recomputed db key).elim 0 (·.gross) = db.grossOf none key := by
  unfold recomputed EarningsDb.grossOf
  by_cases h : bookingsOf (db.earned none key) = []
  · simp [h]
  · simp [h]

theorem grossAt_projectCell :
    (projectCell db earnings key).2.grossAt key = db.grossOf none key := by
  rw [EarningsDaily.grossAt, get?_projectCell, if_pos rfl, gross_recomputed]

/-! What is reported. -/

theorem mem_truth {key : EarningsGrainKey}
    (h : key ∉ OrderedMap.firsts ((db.transactions.filter fun t ↦ since ≤ t.createdAt).filterMap db.grain)) :
    db.grossOf (some since) key = 0 := by
  have hnone : db.earned (some since) key = [] := by
    rw [EarningsDb.earned, List.filter_eq_nil_iff]
    intro t ht hboth
    simp only [Option.all_some, Bool.and_eq_true, decide_eq_true_eq] at hboth
    apply h
    rw [OrderedMap.mem_firsts, List.mem_filterMap]
    exact ⟨t, List.mem_filter.mpr ⟨ht, by simpa using hboth.1⟩, hboth.2⟩
  rw [EarningsDb.grossOf, hnone]
  rfl

theorem reported_iff (sinceDays : Option ℤ) (now : ℤ) (key : EarningsGrainKey) :
    key ∈ (projectionDrift db earnings sinceDays now).map (·.key) ↔
      istDay (daysBefore now (sinceDays.getD 7)) ≤ key.day ∧
        earnings.grossAt key ≠ db.grossOf (some (daysBefore now (sinceDays.getD 7))) key := by
  unfold projectionDrift
  simp only [List.mem_map, List.mem_filterMap]
  constructor
  · rintro ⟨drift, ⟨k, _, hk⟩, rfl⟩
    split_ifs at hk with hcond
    obtain rfl := Option.some_inj.mp hk
    exact ⟨hcond.2, hcond.1⟩
  · rintro ⟨hday, hne⟩
    refine ⟨⟨key, earnings.grossAt key, db.grossOf (some (daysBefore now (sinceDays.getD 7))) key⟩,
      ⟨key, ?_, if_pos ⟨hne, hday⟩⟩, rfl⟩
    -- a key of neither side would show zero on both
    by_contra hkeys
    simp only [List.mem_append, List.mem_filter, decide_eq_true_eq, not_or, not_and_not_right] at hkeys
    have hcell : earnings.grossAt key = 0 := by
      have hnone : earnings.get? key = none := by
        rw [← Option.not_isSome_iff_eq_none, OrderedMap.get?_isSome_iff]
        exact fun hin ↦ hkeys.1 (hkeys.2 hin)
      rw [EarningsDaily.grossAt, hnone]
      rfl
    exact hne (hcell.trans (mem_truth hkeys.1).symm)

theorem drift_eq_nil_iff (sinceDays : Option ℤ) (now : ℤ) :
    projectionDrift db earnings sinceDays now = [] ↔
      ∀ key : EarningsGrainKey, istDay (daysBefore now (sinceDays.getD 7)) ≤ key.day →
        earnings.grossAt key = db.grossOf (some (daysBefore now (sinceDays.getD 7))) key := by
  rw [← List.map_eq_nil_iff (f := (·.key)), List.eq_nil_iff_forall_not_mem]
  simp only [reported_iff, not_and, not_not]

/-! What the rebuild leaves. -/

theorem since_eq (sinceDays : Option ℤ) (now : ℤ) :
    (RebuildOptions.since { sinceDays, now }) = none ∨
      RebuildOptions.since { sinceDays, now } = some (daysBefore now (sinceDays.getD 7)) := by
  cases sinceDays with
  | none => exact .inl rfl
  | some days =>
    by_cases h : days = 0
    · exact .inl (by simp [RebuildOptions.since, h])
    · exact .inr (by simp [RebuildOptions.since, h])

/-- Where the rebuild finds no activity, none of the window is there. -/
theorem grossOf_of_quiet (sinceDays : Option ℤ) (now : ℤ)
    (h : key ∉ grainKeysSince db { sinceDays, now }) :
    db.grossOf (some (daysBefore now (sinceDays.getD 7))) key = 0 := by
  apply mem_truth
  intro hin
  apply h
  rw [OrderedMap.mem_firsts, List.mem_filterMap] at hin
  obtain ⟨t, ht, hgrain⟩ := hin
  rw [List.mem_filter, decide_eq_true_eq] at ht
  rw [grainKeysSince, OrderedMap.mem_firsts, List.mem_filter, List.mem_filterMap]
  refine ⟨⟨t, List.mem_filter.mpr ⟨ht.1, ?_⟩, hgrain⟩, rfl⟩
  rcases since_eq sinceDays now with hsince | hsince
  · rw [hsince]
    rfl
  · rw [hsince]
    simpa using ht.2

/-- A cell of the window is recomputed, or it is not there and nothing of the window is. -/
theorem rebuilt (sinceDays : Option ℤ) (now : ℤ)
    (hday : istDay (daysBefore now (sinceDays.getD 7)) ≤ key.day) :
    (rebuildEarnings db earnings { sinceDays, now }).2.grossAt key = db.grossOf none key ∨
      (rebuildEarnings db earnings { sinceDays, now }).2.grossAt key = 0 ∧
        db.grossOf (some (daysBefore now (sinceDays.getD 7))) key = 0 := by
  rw [EarningsDaily.grossAt, rebuildEarnings, get?_projectCells]
  by_cases hlive : key ∈ grainKeysSince db { sinceDays, now }
  · left
    rw [get?_projectCells, if_pos hlive, ite_self, gross_recomputed]
  · by_cases hthere : key ∈ OrderedMap.keys (projectCells db earnings (grainKeysSince db { sinceDays, now })).2
    · left
      rw [if_pos, gross_recomputed]
      simp only [List.mem_filter, decide_eq_true_eq, Bool.and_eq_true]
      refine ⟨⟨hthere, rfl, ?_⟩, hlive⟩
      rcases since_eq sinceDays now with hsince | hsince
      · rw [hsince]
        rfl
      · rw [hsince]
        simpa using hday
    · right
      refine ⟨?_, grossOf_of_quiet sinceDays now hlive⟩
      rw [← OrderedMap.get?_isSome_iff, Option.not_isSome_iff_eq_none] at hthere
      rw [if_neg, hthere]
      · rfl
      · simp only [List.mem_filter, not_and]
        intro hkey
        rw [← OrderedMap.get?_isSome_iff, hthere] at hkey
        exact absurd hkey.1 (by simp)

/-- The audit reports exactly the cells of its window whose gross `projectCell` would change,
and none after a rebuild, as long as it does not cut a day of earnings in two. -/
theorem drift_audit_iff (db : EarningsDb) (sinceDays : Option ℤ) (now : ℤ) :
    (∀ earnings : EarningsDaily,
      (∀ key : EarningsGrainKey, istDay (daysBefore now (sinceDays.getD 7)) ≤ key.day →
        (key ∈ (projectionDrift db earnings sinceDays now).map (·.key) ↔
          earnings.grossAt key ≠ (projectCell db earnings key).2.grossAt key)) ∧
      projectionDrift db (rebuildEarnings db earnings { sinceDays, now }).2 sinceDays now = []) ↔
    ¬CutOff db (daysBefore now (sinceDays.getD 7)) := by
  constructor
  · intro h hcut
    obtain ⟨key, hday, hne⟩ := exists_of_cutOff hcut
    -- the cell as `projectCell` leaves it is reported all the same
    have hsame := (h (projectCell db [] key).2).1 key hday.ge
    rw [reported_iff, grossAt_projectCell, grossAt_projectCell] at hsame
    exact hsame.mp ⟨hday.ge, hne⟩ rfl
  · intro hcut earnings
    constructor
    · intro key hday
      rw [reported_iff, grossAt_projectCell, grossOf_of_not_cutOff hcut hday]
      exact and_iff_right hday
    · rw [drift_eq_nil_iff]
      intro key hday
      rcases rebuilt sinceDays now hday with hcell | ⟨hcell, hnone⟩
      · rw [hcell]
        exact grossOf_of_not_cutOff hcut hday
      · rw [hcell, hnone]

/-- Two trips of one driver on the day the window opens on, one of them two hours into it. -/
def splitDay : EarningsDb where
  transactions :=
    [⟨.driverShareCredit, 56000, some 1, 0⟩, ⟨.fleetShareCredit, 24000, some 1, 0⟩,
      ⟨.driverShareCredit, 56000, some 2, 7_200_000_000⟩, ⟨.fleetShareCredit, 24000, some 2, 7_200_000_000⟩]
  bookings := fun id ↦ if id = 1 ∨ id = 2 then some ⟨some 1, some 1, 100000, 20000⟩ else none

/-- Seven days and an hour after the first trip. -/
theorem rebuilt_drifts :
    projectionDrift splitDay
        (rebuildEarnings splitDay [] { sinceDays := some 7, now := 608_400_000 }).2 (some 7) 608_400_000 =
      [⟨⟨1, 0, 1⟩, 200000, 100000⟩] := by
  decide

end Towing.Money
