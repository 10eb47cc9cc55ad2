import Towing.Earnings.Queue
import Towing.Money.DriftAudit
import Towing.Process.Paths
import Towing.Process.Permits

namespace Towing.Earnings

open Towing.Db Towing.Money Towing.Process

/-- What the cell is made of has grown: a trip earned its first legs, or its commission was
written. -/
def Changes (e : Event Step World) (key : EarningsGrainKey) : Prop :=
  match e.label with
  | .post bookingId legs =>
    e.before.posted bookingId = false ∧
      ∃ t ∈ e.before.newRows bookingId legs, e.before.db.grain t = some key
  | .markPaid bookingId commission =>
    e.before.paid bookingId = false ∧ 0 < commission ∧
      bookingId ∈ bookingsOf (e.before.db.earned none key)
  | _ => False

variable {db db' : EarningsDb} {key : EarningsGrainKey} {w : World} {e : Event Step World}

/-! What a cell adds up to: its jobs and its commission, which only ever grow. -/

def weightOf (db : EarningsDb) (key : EarningsGrainKey) : ℕ :=
  ((bookingsOf (db.earned none key)).map fun b ↦ 1 + db.commissionOf b).sum

def weigh (cell : Option EarningsCell) : ℕ := cell.elim 0 fun cell ↦ cell.jobs + cell.commission

theorem weigh_recomputed : weigh (recomputed db key) = weightOf db key := by
  unfold weigh recomputed weightOf
  rw [List.sum_map_add]
  by_cases h : bookingsOf (db.earned none key) = []
  · simp [h]
  · simp [h]

theorem weightOf_eq : weightOf db key =
    ∑ b ∈ (bookingsOf (db.earned none key)).toFinset, (1 + db.commissionOf b) :=
  (List.sum_toFinset _ (OrderedMap.nodup_firsts _)).symm

theorem weightOf_le (hsub : bookingsOf (db.earned none key) ⊆ bookingsOf (db'.earned none key))
    (hle : ∀ b ∈ bookingsOf (db.earned none key), db.commissionOf b ≤ db'.commissionOf b) :
    weightOf db key ≤ weightOf db' key := by
  rw [weightOf_eq, weightOf_eq]
  refine (Finset.sum_le_sum fun b hb ↦ ?_).trans (Finset.sum_le_sum_of_subset ?_)
  · exact Nat.add_le_add_left (hle b (List.mem_toFinset.mp hb)) 1
  · intro b hb
    rw [List.mem_toFinset] at hb ⊢
    exact hsub hb

theorem weightOf_lt {b : ℕ} (hsub : bookingsOf (db.earned none key) ⊆ bookingsOf (db'.earned none key))
    (hb : b ∈ bookingsOf (db'.earned none key))
    (hle : ∀ b ∈ bookingsOf (db.earned none key), db.commissionOf b ≤ db'.commissionOf b)
    (hmore : b ∉ bookingsOf (db.earned none key) ∨ db.commissionOf b < db'.commissionOf b) :
    weightOf db key < weightOf db' key := by
  rw [weightOf_eq, weightOf_eq]
  have hsub' : (bookingsOf (db.earned none key)).toFinset ⊆ (bookingsOf (db'.earned none key)).toFinset := by
    intro b hb
    rw [List.mem_toFinset] at hb ⊢
    exact hsub hb
  have hterms : ∀ b ∈ (bookingsOf (db.earned none key)).toFinset, 1 + db.commissionOf b ≤ 1 + db'.commissionOf b :=
    fun b hb ↦ Nat.add_le_add_left (hle b (List.mem_toFinset.mp hb)) 1
  by_cases hold : b ∈ bookingsOf (db.earned none key)
  · refine (Finset.sum_lt_sum hterms ⟨b, List.mem_toFinset.mpr hold, ?_⟩).trans_le (Finset.sum_le_sum_of_subset hsub')
    exact Nat.add_lt_add_left (hmore.resolve_left fun hnot ↦ hnot hold) 1
  · refine (Finset.sum_le_sum hterms).trans_lt ?_
    refine Finset.sum_lt_sum_of_subset hsub' (List.mem_toFinset.mpr hb) (by simpa using hold) ?_ fun _ _ _ ↦ Nat.zero_le _
    exact Nat.add_pos_left Nat.one_pos _

theorem recomputed_isSome : (recomputed db key).isSome ↔ ∃ t ∈ db.transactions, db.grain t = some key := by
  have hids : bookingsOf (db.earned none key) ≠ [] ↔ ∃ t ∈ db.transactions, db.grain t = some key := by
    rw [Ne, List.eq_nil_iff_forall_not_mem, not_forall_not]
    simp only [mem_bookingsOf]
    constructor
    · rintro ⟨_, t, ht, -, hgrain, -⟩
      exact ⟨t, ht, hgrain⟩
    · rintro ⟨t, ht, hgrain⟩
      obtain ⟨b, href⟩ : ∃ b, t.refId = some b := by
        cases href : t.refId with
        | some b => exact ⟨b, rfl⟩
        | none => simp [EarningsDb.grain, href] at hgrain
      exact ⟨b, t, ht, rfl, hgrain, href⟩
  rw [← hids]
  unfold recomputed
  by_cases h : bookingsOf (db.earned none key) = []
  · simp [h]
  · simp [h]

theorem recomputed_congr (hearned : db'.earned none key = db.earned none key)
    (htotal : ∀ b ∈ bookingsOf (db.earned none key), db'.totalOf b = db.totalOf b)
    (hcommission : ∀ b ∈ bookingsOf (db.earned none key), db'.commissionOf b = db.commissionOf b) :
    recomputed db' key = recomputed db key := by
  have hgross := List.map_congr_left htotal
  have hcosts := List.map_congr_left hcommission
  simp only [recomputed, hearned, hgross, hcosts]

/-! What each step does to the sources of a cell. -/

theorem db_post (bookingId : ℕ) (legs : List SettlementLeg) (hfresh : w.posted bookingId = false) :
    (w.run (.post bookingId legs)).db = posting w.db (w.newRows bookingId legs) := by
  simp only [World.run, hfresh, Bool.false_eq_true, if_false]

theorem db_markPaid (bookingId commission : ℕ) (hpaid : w.paid bookingId = false) :
    (w.run (.markPaid bookingId commission)).db = pricing w.db bookingId commission := by
  simp only [World.run, hpaid, Bool.false_eq_true, if_false]

theorem earned_posting (rows : List EarningsRow) :
    (posting db rows).earned none key =
      db.earned none key ++ rows.filter fun t ↦ db.grain t = some key := by
  simp only [EarningsDb.earned, Option.all_none, Bool.true_and]
  exact List.filter_append ..

theorem bookings_pricing (bookingId commission b : ℕ) : (pricing db bookingId commission).bookings b =
    if b = bookingId then (db.bookings b).map fun r ↦ { r with commissionAmount := commission }
    else db.bookings b := by
  unfold pricing
  split_ifs with hb
  · subst hb
    exact Function.update_self ..
  · exact Function.update_of_ne hb ..

theorem grain_pricing (bookingId commission : ℕ) (t : EarningsRow) :
    (pricing db bookingId commission).grain t = db.grain t := by
  unfold EarningsDb.grain
  cases t.refId with
  | none => rfl
  | some b =>
    rw [Option.bind_some, Option.bind_some, bookings_pricing]
    split_ifs
    · cases db.bookings b <;> rfl
    · rfl
    · rfl

theorem earned_pricing (bookingId commission : ℕ) :
    (pricing db bookingId commission).earned none key = db.earned none key := by
  apply List.filter_congr
  intro t _
  rw [grain_pricing]

theorem totalOf_pricing (bookingId commission b : ℕ) :
    (pricing db bookingId commission).totalOf b = db.totalOf b := by
  rw [EarningsDb.totalOf, EarningsDb.totalOf, bookings_pricing]
  split_ifs
  · cases db.bookings b <;> rfl
  · rfl

theorem commissionOf_pricing (bookingId commission b : ℕ) :
    (pricing db bookingId commission).commissionOf b =
      if b = bookingId then (db.bookings b).elim 0 fun _ ↦ commission else db.commissionOf b := by
  rw [EarningsDb.commissionOf, EarningsDb.commissionOf, bookings_pricing]
  split_ifs
  · cases db.bookings b <;> rfl
  · rfl

/-- The columns that are written once. -/
def Unpriced (w : World) : Prop := ∀ b, w.paid b = false → w.db.commissionOf b = 0

/-- The steps that write what the projection reads. -/
def Step.feeds : Step → Bool
  | .post _ _ | .markPaid _ _ => true
  | _ => false

theorem sources_of_still {l : Step} (h : l.feeds = false) : (w.run l).db = w.db ∧ (w.run l).paid = w.paid := by
  cases l with
  | post b legs => cases h
  | markPaid b c => cases h
  | enqueue job | take job | finish job =>
    simp only [World.run]
    split_ifs <;> exact ⟨rfl, rfl⟩
  | stall job =>
    simp only [World.run]
    split <;> exact ⟨rfl, rfl⟩
  | trim job =>
    simp only [World.run]
    split
    · split_ifs <;> exact ⟨rfl, rfl⟩
    · exact ⟨rfl, rfl⟩
  | look | upsert key | deleteCell key | tick microseconds | queue up => exact ⟨rfl, rfl⟩

theorem unpriced_run (h : Unpriced w) (l : Step) : Unpriced (w.run l) := by
  cases l with
  | post b legs =>
    simp only [World.run]
    split_ifs <;> exact h
  | markPaid bookingId commission =>
    simp only [World.run]
    split_ifs with hpaid
    · exact h
    · intro b hb
      by_cases hbb : b = bookingId
      · subst hbb
        exact absurd (hb.symm.trans (Function.update_self ..)) Bool.false_ne_true
      · refine (commissionOf_pricing ..).trans ((if_neg hbb).trans (h b ?_))
        exact (Function.update_of_ne hbb ..).symm.trans hb
  | _ =>
    intro b hb
    rw [(sources_of_still rfl).2] at hb
    rw [(sources_of_still rfl).1]
    exact h b hb

/-- A step that does not change the cell's sources leaves what would be computed of them. -/
theorem recomputed_kept (hcommit : e.after = e.before.run e.label) (h : Unpriced e.before) (hno : ¬Changes e key) :
    recomputed e.after.db key = recomputed e.before.db key := by
  rw [hcommit]
  unfold Changes at hno
  cases hl : e.label with
  | post bookingId legs =>
    rw [hl] at hno
    by_cases hposted : e.before.posted bookingId = true
    · rw [World.run, if_pos hposted]
    · rw [Bool.not_eq_true] at hposted
      rw [db_post bookingId legs hposted]
      refine recomputed_congr ?_ (fun b _ ↦ rfl) fun b _ ↦ rfl
      have hnone : (e.before.newRows bookingId legs).filter (fun t ↦ e.before.db.grain t = some key) = [] := by
        rw [List.filter_eq_nil_iff]
        intro t ht hgrain
        exact hno ⟨hposted, t, ht, by simpa using hgrain⟩
      rw [earned_posting, hnone, List.append_nil]
  | markPaid bookingId commission =>
    rw [hl] at hno
    by_cases hpaid : e.before.paid bookingId = true
    · rw [World.run, if_pos hpaid]
    · rw [Bool.not_eq_true] at hpaid
      rw [db_markPaid bookingId commission hpaid]
      refine recomputed_congr (earned_pricing _ _) (fun b _ ↦ totalOf_pricing _ _ b) fun b hb ↦ ?_
      rw [commissionOf_pricing]
      split_ifs with hbb
      · subst hbb
        have hzero : commission = 0 := by
          by_contra hne
          exact hno ⟨hpaid, Nat.pos_of_ne_zero hne, hb⟩
        rw [h b hpaid, hzero]
        cases e.before.db.bookings b <;> rfl
      · rfl
  | _ => rw [(sources_of_still rfl).1]

theorem mem_bookingsOf_append {xs ys : List EarningsRow} {b : ℕ} :
    b ∈ bookingsOf (xs ++ ys) ↔ b ∈ bookingsOf xs ∨ b ∈ bookingsOf ys := by
  simp only [bookingsOf, OrderedMap.mem_firsts, List.filterMap_append, List.mem_append]

theorem posted_of_mem {b : ℕ} (h : b ∈ bookingsOf (w.db.earned none key)) : w.posted b = true := by
  rw [mem_bookingsOf] at h
  obtain ⟨t, ht, -, -, href⟩ := h
  exact List.any_eq_true.mpr ⟨t, ht, by simpa using href⟩

theorem weightOf_run (h : Unpriced w) (l : Step) : weightOf w.db key ≤ weightOf (w.run l).db key := by
  cases l with
  | post bookingId legs =>
    by_cases hposted : w.posted bookingId = true
    · rw [World.run, if_pos hposted]
    · rw [Bool.not_eq_true] at hposted
      rw [db_post bookingId legs hposted]
      refine weightOf_le (fun b hb ↦ ?_) fun b _ ↦ le_refl _
      rw [earned_posting, mem_bookingsOf_append]
      exact .inl hb
  | markPaid bookingId commission =>
    by_cases hpaid : w.paid bookingId = true
    · rw [World.run, if_pos hpaid]
    · rw [Bool.not_eq_true] at hpaid
      rw [db_markPaid bookingId commission hpaid]
      refine weightOf_le (by rw [earned_pricing]; exact List.Subset.refl _) fun b _ ↦ ?_
      rw [commissionOf_pricing]
      split_ifs with hbb
      · subst hbb
        rw [h b hpaid]
        exact Nat.zero_le _
      · exact le_refl _
  | _ => rw [(sources_of_still rfl).1]

/-- A step that changes the cell's sources makes it heavier. -/
theorem weightOf_changes (hcommit : e.after = e.before.run e.label) (h : Unpriced e.before) (hchange : Changes e key) :
    weightOf e.before.db key < weightOf e.after.db key := by
  rw [hcommit]
  unfold Changes at hchange
  cases hl : e.label with
  | post bookingId legs =>
    rw [hl] at hchange
    obtain ⟨hposted, t, ht, hgrain⟩ := hchange
    rw [db_post bookingId legs hposted]
    have hold : bookingId ∉ bookingsOf (e.before.db.earned none key) := by
      intro hmem
      rw [posted_of_mem hmem] at hposted
      cases hposted
    refine weightOf_lt (b := bookingId) (fun b hb ↦ ?_) ?_ (fun b _ ↦ le_refl _) (.inl hold)
    · rw [earned_posting, mem_bookingsOf_append]
      exact .inl hb
    · rw [earned_posting, mem_bookingsOf_append]
      right
      rw [bookingsOf, OrderedMap.mem_firsts, List.mem_filterMap]
      refine ⟨t, List.mem_filter.mpr ⟨ht, by simpa using hgrain⟩, ?_⟩
      obtain ⟨leg, -, rfl⟩ := List.mem_map.mp ht
      rfl
  | markPaid bookingId commission =>
    rw [hl] at hchange
    obtain ⟨hpaid, hpos, hmem⟩ := hchange
    rw [db_markPaid bookingId commission hpaid]
    have hstored : (e.before.db.bookings bookingId).isSome := by
      rw [mem_bookingsOf] at hmem
      obtain ⟨t, -, -, hgrain, href⟩ := hmem
      cases hrow : e.before.db.bookings bookingId with
      | some row => rfl
      | none => simp [EarningsDb.grain, href, hrow] at hgrain
    refine weightOf_lt (b := bookingId) ?_ ?_ (fun b _ ↦ ?_) (.inr ?_)
    · rw [earned_pricing]
      exact List.Subset.refl _
    · rw [earned_pricing]
      exact hmem
    · rw [commissionOf_pricing]
      split_ifs with hbb
      · subst hbb
        rw [h b hpaid]
        exact Nat.zero_le _
      · exact le_refl _
    · obtain ⟨row, hrow⟩ := Option.isSome_iff_exists.mp hstored
      rw [commissionOf_pricing, if_pos rfl, h bookingId hpaid, hrow]
      exact hpos
  | _ =>
    rw [hl] at hchange
    exact hchange.elim

/-! What each step does to the cell. -/

theorem get?_upsert : (w.run (.upsert key)).earnings.get? key =
    (recomputed w.db key).elim (w.earnings.get? key) some := by
  rw [World.run]
  cases recomputed w.db key with
  | none => rfl
  | some cell => exact (OrderedMap.get?_set ..).trans (if_pos rfl)

theorem get?_kept {l : Step} (hupsert : l ≠ .upsert key) (hdelete : l ≠ .deleteCell key) :
    (w.run l).earnings.get? key = w.earnings.get? key := by
  cases l with
  | upsert k =>
    have hne : key ≠ k := fun h ↦ hupsert (h ▸ rfl)
    rw [World.run]
    cases recomputed w.db k with
    | none => rfl
    | some cell => exact (OrderedMap.get?_set ..).trans (if_neg hne)
  | deleteCell k =>
    have hne : key ≠ k := fun h ↦ hdelete (h ▸ rfl)
    exact (OrderedMap.get?_erase ..).trans (if_neg hne)
  | stall job =>
    simp only [World.run]
    split <;> rfl
  | trim job =>
    simp only [World.run]
    split
    · split_ifs <;> rfl
    · rfl
  | post b legs | markPaid b c | enqueue job | take job | finish job =>
    simp only [World.run]
    split_ifs <;> rfl
  | look | tick microseconds | queue up => rfl

theorem get?_deleteCell : (w.run (.deleteCell key)).earnings.get? key = none :=
  (OrderedMap.get?_erase ..).trans (if_pos rfl)

/-- Legs are never taken back, and stay of their cell. -/
theorem transaction_stays (l : Step) {t : EarningsRow} (ht : t ∈ w.db.transactions) (hgrain : w.db.grain t = some key) :
    t ∈ (w.run l).db.transactions ∧ (w.run l).db.grain t = some key := by
  cases l with
  | post bookingId legs =>
    by_cases hposted : w.posted bookingId = true
    · rw [World.run, if_pos hposted]
      exact ⟨ht, hgrain⟩
    · rw [Bool.not_eq_true] at hposted
      rw [db_post bookingId legs hposted]
      exact ⟨List.mem_append_left _ ht, hgrain⟩
  | markPaid bookingId commission =>
    by_cases hpaid : w.paid bookingId = true
    · rw [World.run, if_pos hpaid]
      exact ⟨ht, hgrain⟩
    · rw [Bool.not_eq_true] at hpaid
      rw [db_markPaid bookingId commission hpaid]
      exact ⟨ht, (grain_pricing ..).trans hgrain⟩
  | _ =>
    rw [(sources_of_still rfl).1]
    exact ⟨ht, hgrain⟩

theorem recomputed_stays (l : Step) (h : (recomputed w.db key).isSome) : (recomputed (w.run l).db key).isSome := by
  rw [recomputed_isSome] at h ⊢
  obtain ⟨t, ht, hgrain⟩ := h
  exact ⟨t, transaction_stays l ht hgrain⟩

/-! Why a job is there, and why a cell is written. -/

/-- The key was found where one of the bookings earned, or by the audit. -/
def Found (past : List (Event Step World)) (key : EarningsGrainKey) : Prop :=
  ∃ f ∈ past, (∃ b, key ∈ f.before.grainKeysForBooking b) ∨
    ∃ days now, key ∈ (projectionDrift f.before.db f.before.earnings days now).map (·.key)

theorem Found.mono {past past' : List (Event Step World)} (h : Found past key) (hsub : past ⊆ past') :
    Found past' key := by
  obtain ⟨f, hf, hfound⟩ := h
  exact ⟨f, hsub hf, hfound⟩

/-- A worker takes the job. -/
def Takes (job : ProjectJob) (e : Event Step World) : Prop :=
  e.label = .take job ∧ e.before.jobs.get? job = some .waiting

/-- The jobs of a trip's cells have all been handed to the queue, or it was down for one of them. -/
def Queued (bookingId : ℕ) (later : List (Event Step World)) : Prop :=
  (∃ g ∈ later, ∀ key ∈ g.before.grainKeysForBooking bookingId, ∃ f ∈ later, f.label = .enqueue ⟨key, false⟩) ∨
    ∃ f ∈ later, ∃ job, f.label = .enqueue job ∧ f.before.queueUp = false

/-- What a request has seen before a step of its own. -/
def Justified (past : List (Event Step World)) : Step → Prop
  | .enqueue job => Found past job.key
  | .markPaid bookingId _ => ∀ pre e later legs, past = pre ++ e :: later → e.label = .post bookingId legs →
    e.before.posted bookingId = false → Queued bookingId later
  | .upsert key => ∃ f ∈ past, ∃ job : ProjectJob, job.key = key ∧ Takes job f
  | .deleteCell key => ∃ f ∈ past, f.label = .upsert key ∧ recomputed f.before.db key = none
  | .finish job token => ∃ g later, past = g :: later ∧ Takes job g ∧ g.before.tokens = token ∧
    ∃ f ∈ later, f.label = .upsert job.key
  | _ => True

/-- The keys' jobs are handed to the queue one by one, until it is down. -/
def Handed (keys : List EarningsGrainKey) (heal : Bool) (later : List (Event Step World)) : Prop :=
  (∀ f ∈ later, ∃ job, f.label = .enqueue job) ∧ ((∀ key ∈ keys, ∃ f ∈ later, f.label = .enqueue ⟨key, heal⟩) ∨
    ∃ f ∈ later, ∃ job, f.label = .enqueue job ∧ f.before.queueUp = false)

theorem Handed.cons {keys : List EarningsGrainKey} {heal : Bool} {later : List (Event Step World)}
    (h : Handed keys heal later) (hl : e.label = .enqueue ⟨key, heal⟩) : Handed (key :: keys) heal (e :: later) := by
  refine ⟨List.forall_mem_cons.mpr ⟨⟨_, hl⟩, h.1⟩, h.2.imp (fun hall ↦ ?_) fun ⟨f, hf, hdown⟩ ↦ ⟨f, .tail _ hf, hdown⟩⟩
  refine List.forall_mem_cons.mpr ⟨⟨e, List.mem_cons_self, hl⟩, fun key' hkey' ↦ ?_⟩
  obtain ⟨f, hf, hl'⟩ := hall key' hkey'
  exact ⟨f, .tail _ hf, hl'⟩

theorem justified_enqueueAll {keys : List EarningsGrainKey} {heal : Bool} {past : List (Event Step World)}
    (h : ∀ key ∈ keys, Found past key) : (enqueueAll (keys.map fun key ↦ ⟨key, heal⟩)).Heeds Justified
      (fun _ past' ↦ ∃ later, past' = past ++ later ∧ Handed keys heal later) past := by
  induction keys generalizing past with
  | nil => exact ⟨[], (List.append_nil past).symm, by simp [Handed]⟩
  | cons key keys ih =>
    refine ⟨h key List.mem_cons_self, fun s ↦ ?_⟩
    dsimp only
    split_ifs with hup
    · refine (ih fun key' hkey' ↦ (h key' (List.mem_cons_of_mem key hkey')).mono (List.subset_append_left ..)).mono
        (fun _ _ h ↦ h) ?_
      rintro _ _ ⟨later, rfl, hhanded⟩
      exact ⟨_ :: later, List.append_assoc .., hhanded.cons rfl⟩
    · refine ⟨[_], rfl, by simp, .inr ⟨_, List.mem_cons_self, _, rfl, by simpa using hup⟩⟩

/-- Nothing is posted. -/
def Postless (later : List (Event Step World)) : Prop := ∀ f ∈ later, ∀ b legs, f.label ≠ .post b legs

theorem justified_enqueueProjection (bookingId : ℕ) (past : List (Event Step World)) :
    (enqueueProjection bookingId).Heeds Justified
      (fun _ past' ↦ ∃ later, past' = past ++ later ∧ Postless later ∧ Queued bookingId later) past := by
  refine Proc.Heeds.handle (Q := fun _ past' ↦ ∃ later, past' = past ++ later ∧ Postless later ∧
    Queued bookingId later) ⟨trivial, fun s ↦ ?_⟩ (fun _ _ h ↦ h) fun _ _ h ↦ h
  have hfound : ∀ key ∈ s.grainKeysForBooking bookingId, Found (past ++ [⟨.look, s, s.run .look⟩]) key :=
    fun key hkey ↦ ⟨_, List.mem_append_right _ (List.mem_singleton_self _), .inl ⟨bookingId, hkey⟩⟩
  refine (justified_enqueueAll hfound).mono (fun _ _ h ↦ h) ?_
  rintro _ _ ⟨later, rfl, honly, hhanded⟩
  refine ⟨⟨.look, s, s.run .look⟩ :: later, List.append_assoc .., List.forall_mem_cons.mpr ⟨by simp, ?_⟩, ?_⟩
  · intro f hf b legs hl
    obtain ⟨job, hl'⟩ := honly f hf
    cases hl.symm.trans hl'
  · refine hhanded.imp (fun hall ↦ ⟨_, List.mem_cons_self, fun key hkey ↦ ?_⟩) fun ⟨f, hf, hdown⟩ ↦ ⟨f, .tail _ hf, hdown⟩
    obtain ⟨f, hf, hl⟩ := hall key hkey
    exact ⟨f, .tail _ hf, hl⟩

/-- The settlement comes to its transition when what it has posted, if anything, is queued. -/
theorem justified_transition {bookingId commission : ℕ} {r p : Event Step World} {later : List (Event Step World)}
    (hr : r.label = .look) (hlater : Postless later)
    (hqueued : p.before.posted bookingId = false → Queued bookingId later) :
    Justified (r :: p :: later) (.markPaid bookingId commission) := by
  intro pre e rest legs heq hl hfresh
  rcases List.cons_eq_append_iff.mp heq with ⟨rfl, hcons⟩ | ⟨pre, rfl, hrest⟩
  · obtain ⟨rfl, -⟩ := List.cons.inj hcons
    cases hr.symm.trans hl
  · rcases List.cons_eq_append_iff.mp hrest with ⟨rfl, hcons⟩ | ⟨pre, rfl, hrest⟩
    · obtain ⟨rfl, rfl⟩ := List.cons.inj hcons
      exact hqueued hfresh
    · exact absurd hl (hlater e (by rw [(List.cons.inj hrest).2]; simp) bookingId legs)

theorem projects_justified {trips : ℕ → Option CompletedTrip} {p : Request Unit} (h : Projects trips p) :
    p.Heeds Justified (fun _ _ ↦ True) [] := by
  cases h with
  | settle bookingId =>
    unfold settle
    cases trips bookingId with
    | none => trivial
    | some trip =>
      refine ⟨trivial, fun s ↦ ?_⟩
      dsimp only [Proc.bind]
      split_ifs
      · trivial
      · cases trip.settlement with
        | error message => trivial
        | ok settlement =>
          refine ⟨trivial, fun s' ↦ ?_⟩
          dsimp only [Proc.bind]
          refine Proc.Heeds.bind (Q := fun _ past ↦ ∃ later, past = [⟨.look, s, s.run .look⟩,
              ⟨.post bookingId settlement.legs, s', s'.run (.post bookingId settlement.legs)⟩] ++ later ∧
              Postless later ∧ (s'.posted bookingId = false → Queued bookingId later))
            (Proc.Heeds.when (fun _ ↦ ?_) fun hreplayed ↦ ?_) ?_ fun _ _ _ ↦ trivial
          · refine (justified_enqueueProjection bookingId _).mono (fun _ _ h ↦ h) ?_
            rintro _ _ ⟨later, heq, hlater, hqueued⟩
            exact ⟨later, heq, hlater, fun _ ↦ hqueued⟩
          · exact ⟨[], (List.append_nil _).symm, by simp [Postless], fun hfresh ↦ absurd hfresh hreplayed⟩
          · rintro _ _ ⟨later, rfl, hlater, hqueued⟩
            exact ⟨justified_transition rfl hlater hqueued, fun _ ↦ trivial⟩
  | work job =>
    refine ⟨trivial, fun s ↦ ?_⟩
    dsimp only [Proc.bind]
    split_ifs with hwaits
    · refine ⟨⟨_, List.mem_append_right _ (List.mem_singleton_self _), job, rfl, rfl, hwaits⟩, fun s' ↦ ?_⟩
      dsimp only [Proc.bind]
      refine Proc.Heeds.bind (Q := fun _ past ↦ ∃ later, past = [⟨.take job, s, s.run (.take job)⟩,
          ⟨.upsert job.key, s', s'.run (.upsert job.key)⟩] ++ later)
        (Proc.Heeds.when (fun hmade ↦ ⟨?_, fun _ ↦ ⟨[_], rfl⟩⟩) fun _ ↦ ⟨[], (List.append_nil _).symm⟩) ?_
        fun _ _ _ ↦ trivial
      · exact ⟨_, List.mem_append_right _ (List.mem_singleton_self _), rfl,
          Option.isNone_iff_eq_none.mp (by simpa using hmade)⟩
      · rintro _ _ ⟨later, rfl⟩
        exact ⟨⟨_, _, rfl, ⟨rfl, hwaits⟩, rfl, _, List.mem_cons_self, rfl⟩, fun _ ↦ trivial⟩
    · trivial
  | reconcile days =>
    refine ⟨trivial, fun s ↦ ?_⟩
    have hkeys : (enqueueAll (((projectionDrift s.db s.earnings days (s.now / 1000)).map (·.key)).map
        fun key ↦ ⟨key, true⟩)).Heeds Justified (fun _ _ ↦ True) [⟨.look, s, Store.commit Step.look s⟩] :=
      (justified_enqueueAll fun key hkey ↦ ⟨_, List.mem_singleton_self _, .inr ⟨_, _, hkey⟩⟩).mono
        (fun _ _ h ↦ h) fun _ _ _ ↦ trivial
    rw [List.map_map] at hkeys
    exact hkeys
  | stall job | trim job | tick microseconds | queue up => exact ⟨trivial, fun _ ↦ trivial⟩

/-- Every job is for a cell that something was earned for, and so is every cell. -/
structure Grounded (w : World) : Prop where
  jobs : ∀ job, (w.jobs.get? job).isSome → (recomputed w.db job.key).isSome
  cells : ∀ key, (w.earnings.get? key).isSome → (recomputed w.db key).isSome

theorem jobs_run {l : Step} {job : ProjectJob} (h : ((w.run l).jobs.get? job).isSome) :
    (w.jobs.get? job).isSome ∨ l = .enqueue job := by
  have hset {j : ProjectJob} {state : JobState} (h : ((w.jobs.set j state).get? job).isSome)
      (hj : (w.jobs.get? j).isSome) : (w.jobs.get? job).isSome := by
    rw [OrderedMap.get?_set] at h
    split_ifs at h with hjob
    · rwa [hjob]
    · exact h
  cases l with
  | enqueue j =>
    simp only [World.run] at h
    split_ifs at h
    · rw [OrderedMap.get?_set] at h
      split_ifs at h with hjob
      · exact .inr (hjob ▸ rfl)
      · exact .inl h
    · exact .inl h
  | take j | finish j =>
    simp only [World.run] at h
    split_ifs at h with hj
    · exact .inl (hset h (by rw [hj]; rfl))
    · exact .inl h
  | stall j =>
    simp only [World.run] at h
    split at h
    · rename_i hj
      exact .inl (hset h (by rw [hj]; rfl))
    · exact .inl h
  | trim j =>
    simp only [World.run] at h
    split at h
    · split_ifs at h
      · rw [OrderedMap.get?_erase] at h
        split_ifs at h
        · cases h
        · exact .inl h
      · exact .inl h
    · exact .inl h
  | post b legs | markPaid b c =>
    simp only [World.run] at h
    split_ifs at h <;> exact .inl h
  | look | upsert key | deleteCell key | tick microseconds | queue up => exact .inl h

theorem grounded_run (h : Grounded w) {l : Step}
    (hl : ∀ job, l = .enqueue job → (recomputed w.db job.key).isSome) : Grounded (w.run l) := by
  constructor
  · intro job hjob
    apply recomputed_stays
    rcases jobs_run hjob with hjob | rfl
    · exact h.jobs job hjob
    · exact hl job rfl
  · intro key hcell
    apply recomputed_stays
    by_cases hupsert : l = .upsert key
    · subst hupsert
      rw [get?_upsert] at hcell
      cases hnew : recomputed w.db key with
      | some cell => rfl
      | none =>
        rw [hnew] at hcell
        rw [← hnew]
        exact h.cells key hcell
    · by_cases hdelete : l = .deleteCell key
      · subst hdelete
        rw [get?_deleteCell] at hcell
        cases hcell
      · rw [get?_kept hupsert hdelete] at hcell
        exact h.cells key hcell

/-! What becomes of a job. -/

theorem waits_run {l : Step} {job : ProjectJob} (h : (w.run l).jobs.get? job = some .waiting) :
    w.jobs.get? job = some .waiting ∨ (l = .enqueue job ∧ w.queueUp = true ∧ w.jobs.get? job = none) ∨
      l = .stall job ∧ ∃ token, w.jobs.get? job = some (.active token) := by
  have hset {j : ProjectJob} {state : JobState} (h : (w.jobs.set j state).get? job = some .waiting) :
      w.jobs.get? job = some .waiting ∨ job = j ∧ state = .waiting := by
    rw [OrderedMap.get?_set] at h
    split_ifs at h with hj
    · exact .inr ⟨hj, Option.some.inj h⟩
    · exact .inl h
  cases l with
  | enqueue j =>
    simp only [World.run] at h
    split_ifs at h with hnew
    · rcases hset h with h | ⟨rfl, -⟩
      · exact .inl h
      · exact .inr (.inl ⟨rfl, hnew⟩)
    · exact .inl h
  | take j | finish j =>
    simp only [World.run] at h
    split_ifs at h
    · rcases hset h with h | ⟨-, hstate⟩
      · exact .inl h
      · cases hstate
    · exact .inl h
  | stall j =>
    simp only [World.run] at h
    split at h
    · rename_i token hj
      rcases hset h with h | ⟨rfl, -⟩
      · exact .inl h
      · exact .inr (.inr ⟨rfl, token, hj⟩)
    · exact .inl h
  | trim j =>
    simp only [World.run] at h
    split at h
    · split_ifs at h
      · rw [OrderedMap.get?_erase] at h
        split_ifs at h
        exact .inl h
      · exact .inl h
    · exact .inl h
  | post b legs | markPaid b c =>
    simp only [World.run] at h
    split_ifs at h <;> exact .inl h
  | look | upsert key | deleteCell key | tick microseconds | queue up => exact .inl h

theorem waits_enqueue {job : ProjectJob} (hup : w.queueUp = true)
    (h : w.jobs.get? job = none ∨ w.jobs.get? job = some .waiting) :
    (w.run (.enqueue job)).jobs.get? job = some .waiting := by
  rcases h with hnew | hwaits
  · rw [World.run, if_pos ⟨hup, hnew⟩]
    exact (OrderedMap.get?_set ..).trans (if_pos rfl)
  · rw [World.run, if_neg (by simp [hwaits])]
    exact hwaits

theorem waits_stall {job : ProjectJob} {token : ℕ} (h : w.jobs.get? job = some (.active token)) :
    (w.run (.stall job)).jobs.get? job = some .waiting := by
  simp only [World.run, h]
  exact (OrderedMap.get?_set ..).trans (if_pos rfl)

/-- The job waits, or is worked on with a token given out since. -/
def Owed (job : ProjectJob) (since : ℕ) (w : World) : Prop :=
  since ≤ w.tokens ∧ (w.jobs.get? job = some .waiting ∨
    ∃ token, since ≤ token ∧ token < w.tokens ∧ w.jobs.get? job = some (.active token))

theorem not_owed_of_quiet {job : ProjectJob} {since : ℕ} (h : w.Quiet) : ¬Owed job since w := by
  rintro ⟨-, hwaits | ⟨token, -, -, hactive⟩⟩
  · exact Bool.false_ne_true (h _ (OrderedMap.mem_of_get? hwaits))
  · exact Bool.false_ne_true (h _ (OrderedMap.mem_of_get? hactive))

/-- A job that is owed stays so until it is finished with its token. -/
theorem owed_run {job : ProjectJob} {since : ℕ} (h : Owed job since w) {l : Step}
    (hl : ∀ token, since ≤ token → l ≠ .finish job token) : Owed job since (w.run l) := by
  obtain ⟨hsince, hjob⟩ := h
  have hset {j : ProjectJob} {state : JobState} (hj : job ≠ j) : (w.jobs.set j state).get? job = w.jobs.get? job := by
    rw [OrderedMap.get?_set, if_neg hj]
  cases l with
  | enqueue j =>
    simp only [World.run]
    split_ifs with hnew
    · have hj : job ≠ j := by
        rintro rfl
        rw [hnew.2] at hjob
        simp at hjob
      exact ⟨hsince, by simpa only [hset hj] using hjob⟩
    · exact ⟨hsince, hjob⟩
  | take j =>
    simp only [World.run]
    split_ifs with hwaits
    · by_cases hj : job = j
      · subst hj
        refine ⟨hsince.trans (Nat.le_succ _), .inr ⟨w.tokens, hsince, Nat.lt_succ_self _, ?_⟩⟩
        exact (OrderedMap.get?_set ..).trans (if_pos rfl)
      · refine ⟨hsince.trans (Nat.le_succ _), ?_⟩
        simp only [hset hj]
        rcases hjob with hwaits | ⟨token, hle, hlt, hactive⟩
        · exact .inl hwaits
        · exact .inr ⟨token, hle, hlt.trans (Nat.lt_succ_self _), hactive⟩
    · exact ⟨hsince, hjob⟩
  | finish j token =>
    simp only [World.run]
    split_ifs with hactive
    · have hj : job ≠ j := by
        rintro rfl
        rcases hjob with hwaits | ⟨token', hle, -, hactive'⟩
        · rw [hwaits] at hactive
          cases hactive
        · cases hactive'.symm.trans hactive
          exact hl token hle rfl
      exact ⟨hsince, by simpa only [hset hj] using hjob⟩
    · exact ⟨hsince, hjob⟩
  | stall j =>
    simp only [World.run]
    split
    · by_cases hj : job = j
      · subst hj
        exact ⟨hsince, .inl ((OrderedMap.get?_set ..).trans (if_pos rfl))⟩
      · exact ⟨hsince, by simpa only [hset hj] using hjob⟩
    · exact ⟨hsince, hjob⟩
  | trim j =>
    simp only [World.run]
    split
    · rename_i finishedAt hdone
      split_ifs
      · have hj : job ≠ j := by
          rintro rfl
          rw [hdone] at hjob
          simp at hjob
        exact ⟨hsince, by simpa only [OrderedMap.get?_erase, if_neg hj] using hjob⟩
      · exact ⟨hsince, hjob⟩
    · exact ⟨hsince, hjob⟩
  | post b legs | markPaid b c =>
    simp only [World.run]
    split_ifs <;> exact ⟨hsince, hjob⟩
  | look | upsert key | deleteCell key | tick microseconds | queue up => exact ⟨hsince, hjob⟩

theorem tokens_run (w : World) (l : Step) : w.tokens ≤ (w.run l).tokens := by
  cases l with
  | post b legs | markPaid b c | enqueue j | finish j =>
    simp only [World.run]
    split_ifs <;> exact le_refl _
  | take j =>
    simp only [World.run]
    split_ifs
    · exact Nat.le_succ _
    · exact le_refl _
  | stall j =>
    simp only [World.run]
    split <;> exact le_refl _
  | trim j =>
    simp only [World.run]
    split
    · split_ifs <;> exact le_refl _
    · exact le_refl _
  | look | upsert key | deleteCell key | tick microseconds | queue up => exact le_refl _

/-- What something was earned for still is in the later of two states. -/
def Outlives (s t : World) : Prop := ∀ key, (recomputed s.db key).isSome → (recomputed t.db key).isSome

section Run

variable {trips : ℕ → Option CompletedTrip} {start : ℤ} {cs : List (Call Step World String)}
  {es : List (ℕ × Event Step World)} (hrun : Calls (Projects trips) (.blank trips start) cs w es)
include hrun

theorem run_at {i n : ℕ} {e : Event Step World} (he : Makes es i n e) : e.after = e.before.run e.label :=
  hrun.commit_at he

theorem justified_at {i n : ℕ} {e : Event Step World} (he : Makes es i n e) :
    Justified (own n (es.take i)) e.label :=
  hrun.heeds_own (fun _ hp ↦ projects_justified hp) he

theorem earned_later {i j m n : ℕ} {e f : Event Step World} (hij : i ≤ j) (he : Makes es i m e) (hf : Makes es j n f)
    (h : (recomputed e.before.db key).isSome) : (recomputed f.before.db key).isSome := by
  have hkeep (l : Step) (s : World) : Outlives s (Store.commit l s) := fun _ hs ↦ recomputed_stays l hs
  have hlater : Outlives e.before f.before :=
    hrun.rel_later (fun _ _ h ↦ h) (fun _ _ _ h h' key hs ↦ h' key (h key hs)) hkeep hij he hf
  exact hlater key h

theorem earned_of_found {i n : ℕ} {e : Event Step World} (he : Makes es i n e)
    (hall : ∀ j < i, ∀ m f, Makes es j m f → Grounded f.before) (h : Found (own n (es.take i)) key) :
    (recomputed e.before.db key).isSome := by
  obtain ⟨f, hf, hfound⟩ := h
  obtain ⟨j, hj, hf⟩ := makes_of_own hf
  refine earned_later hrun hj.le hf he ?_
  rcases hfound with ⟨b, hb⟩ | ⟨days, now, hdrift⟩
  · rw [World.grainKeysForBooking, OrderedMap.mem_firsts, List.mem_filterMap] at hb
    obtain ⟨t, ht, hgrain⟩ := hb
    exact recomputed_isSome.mpr ⟨t, (List.mem_filter.mp ht).1, hgrain⟩
  · rw [reported_iff] at hdrift
    by_cases hcell : (f.before.earnings.get? key).isSome
    · exact (hall j hj n f hf).cells key hcell
    -- with no cell, the ledger has something to show
    rw [Option.not_isSome_iff_eq_none] at hcell
    rw [EarningsDaily.grossAt, hcell] at hdrift
    by_contra hnone
    apply hdrift.2
    have hrows : ∀ b, b ∉ bookingsOf (f.before.db.earned (some (daysBefore now (days.getD 7))) key) := by
      intro b hb
      obtain ⟨t, ht, -, hgrain, -⟩ := mem_bookingsOf.mp hb
      exact hnone (recomputed_isSome.mpr ⟨t, ht, hgrain⟩)
    rw [EarningsDb.grossOf, List.eq_nil_iff_forall_not_mem.mpr hrows]
    rfl

theorem grounded_at (i : ℕ) : ∀ n e, Makes es i n e → Grounded e.before := by
  induction i using Nat.strong_induction_on with
  | _ i ih =>
    intro n e he
    cases i with
    | zero =>
      rw [hrun.chained.first he.event]
      exact ⟨fun _ h ↦ absurd h (by simp [World.blank, OrderedMap.get?]),
        fun _ h ↦ absurd h (by simp [World.blank, OrderedMap.get?])⟩
    | succ i =>
      obtain ⟨g, hg⟩ := getElem?_earlier (Nat.le_succ i) he.event
      obtain ⟨m, hg⟩ := makes_of_event hg
      rw [hrun.chained.next hg.event he.event, hrun.commit_at hg]
      refine grounded_run (ih i (Nat.lt_succ_self i) m g hg) fun job hjob ↦ ?_
      have hjust := justified_at hrun hg
      rw [hjob] at hjust
      exact earned_of_found hrun hg (fun j hj ↦ ih j (Nat.lt_succ_of_lt hj)) hjust

/-- A cell that something was earned for is never deleted. -/
theorem never_deleted {i n : ℕ} {e : Event Step World} (he : Makes es i n e) : e.label ≠ .deleteCell key := by
  intro hl
  have hjust := justified_at hrun he
  rw [hl] at hjust
  obtain ⟨f, hf, hupsert, hnone⟩ := hjust
  obtain ⟨j, hj, hf⟩ := makes_of_own hf
  have hjust := justified_at hrun hf
  rw [hupsert] at hjust
  obtain ⟨g, hg, job, rfl, -, hjob⟩ := hjust
  obtain ⟨k, hk, hg⟩ := makes_of_own hg
  have hsome := earned_later hrun hk.le hg hf ((grounded_at hrun k n g hg).jobs job (by rw [hjob]; rfl))
  rw [hnone] at hsome
  cases hsome

theorem unpriced_all : Unpriced w ∧ ∀ j m f, Makes es j m f → Unpriced f.before ∧ Unpriced f.after := by
  refine hrun.kept (fun b _ ↦ ?_) fun j m f hf h ↦ ?_
  · cases htrip : trips b <;> simp [EarningsDb.commissionOf, World.blank, htrip]
  · rw [run_at hrun hf]
    exact unpriced_run h _

/-- A cell never weighs more than what it is computed of. -/
theorem light_all (key : EarningsGrainKey) : weigh (w.earnings.get? key) ≤ weightOf w.db key ∧
    ∀ j m f, Makes es j m f → weigh (f.before.earnings.get? key) ≤ weightOf f.before.db key ∧
      weigh (f.after.earnings.get? key) ≤ weightOf f.after.db key := by
  refine hrun.kept (I := fun w ↦ weigh (w.earnings.get? key) ≤ weightOf w.db key) (Nat.zero_le _) fun j m f hf h ↦ ?_
  have hgrows : weightOf f.before.db key ≤ weightOf (f.before.run f.label).db key :=
    weightOf_run ((unpriced_all hrun).2 j m f hf).1 f.label
  rw [run_at hrun hf]
  by_cases hupsert : f.label = .upsert key
  · rw [hupsert] at hgrows ⊢
    rw [get?_upsert]
    cases hnew : recomputed f.before.db key with
    | none => exact h.trans hgrows
    | some cell =>
      rw [Option.elim_some, ← hnew, weigh_recomputed]
      exact hgrows
  · rw [get?_kept hupsert (never_deleted hrun hf)]
    exact h.trans hgrows

end Run

/-- Every change of the cell's sources is followed by a job that computes it anew. -/
def Followed (es : List (Event Step World)) (key : EarningsGrainKey) : Prop :=
  ∀ pre e post, es = pre ++ e :: post → Changes e key → ∃ f ∈ post, f.label = .upsert key

/-- The last step computes the cell, or it does not concern it. -/
theorem Followed.concat {past : List (Event Step World)} (h : Followed (past ++ [e]) key) :
    e.label = .upsert key ∨ ¬Changes e key ∧ Followed past key := by
  by_cases hl : e.label = .upsert key
  · exact .inl hl
  · right
    constructor
    · intro hchange
      obtain ⟨f, hf, -⟩ := h past e [] rfl hchange
      cases hf
    · intro pre x post heq hchange
      obtain ⟨f, hf, hupsert⟩ := h pre x (post ++ [e]) (by simp [heq]) hchange
      rcases List.mem_append.mp hf with hf | hf
      · exact ⟨f, hf, hupsert⟩
      · rw [List.mem_singleton.mp hf] at hupsert
        exact absurd hupsert hl

/-- The step that changed the sources left the cell as it was. -/
theorem get?_changes (hcommit : e.after = e.before.run e.label) (hchange : Changes e key) :
    e.after.earnings.get? key = e.before.earnings.get? key := by
  rw [hcommit]
  apply get?_kept
  · intro hl
    rw [Changes, hl] at hchange
    exact hchange
  · intro hl
    rw [Changes, hl] at hchange
    exact hchange

/-- A cell is the absolute recomputation, all columns of it, just where every change of its sources is
followed by a job that computes it. -/
theorem converged_iff_followed {trips : ℕ → Option CompletedTrip} {start : ℤ} {cs : List (Call Step World String)}
    {es : List (ℕ × Event Step World)} (hrun : Calls (Projects trips) (.blank trips start) cs w es) :
    w.earnings.get? key = recomputed w.db key ↔ Followed (es.map (·.2)) key := by
  refine ⟨fun hright pre e post heq hchange ↦ ?_, fun hfollowed ↦ ?_⟩
  · -- without a later job the cell weighs less than its sources from then on
    by_contra hnone
    have hget : (es.map (·.2))[pre.length]? = some e := by
      rw [heq, List.getElem?_append_right (le_refl _), Nat.sub_self, List.getElem?_cons_zero]
    obtain ⟨n, he⟩ := makes_of_event hget
    have hcommit := run_at hrun he
    have hunpriced := (unpriced_all hrun).2
    have hlate : ∀ j m f, pre.length < j → Makes es j m f → f.label ≠ .upsert key := by
      intro j m f hj hf hl
      have hpost : f ∈ post := by
        have hget := hf.event
        rw [heq, List.getElem?_append_right hj.le] at hget
        obtain ⟨k, hk⟩ := Nat.exists_eq_succ_of_ne_zero (Nat.sub_ne_zero_of_lt hj)
        rw [hk, List.getElem?_cons_succ] at hget
        exact List.mem_of_getElem? hget
      exact hnone ⟨f, hpost, hl⟩
    have hlight := (hrun.kept_after (I := fun w ↦ weigh (w.earnings.get? key) < weightOf w.db key) he ?_ ?_).1
    · rw [hright, weigh_recomputed] at hlight
      exact lt_irrefl _ hlight
    · rw [get?_changes hcommit hchange]
      exact (((light_all hrun key).2 _ n e he).1).trans_lt (weightOf_changes hcommit (hunpriced _ n e he).1 hchange)
    · intro j m f hj hf h
      rw [run_at hrun hf, get?_kept (hlate j m f hj hf) (never_deleted hrun hf)]
      exact h.trans_le (weightOf_run (hunpriced j m f hf).1 _)
  · refine hrun.chained.history
      (J := fun past w ↦ Followed past key → w.earnings.get? key = recomputed w.db key) ?_ ?_ hfollowed
    · intro _
      have hnone : ¬(recomputed (World.blank trips start).db key).isSome := by
        rw [recomputed_isSome]
        rintro ⟨t, ht, -⟩
        cases ht
      exact (Option.not_isSome_iff_eq_none.mp hnone).symm
    · intro past e he hbefore hpast
      obtain ⟨x, hx, rfl⟩ := List.mem_map.mp he
      obtain ⟨i, hi⟩ := List.getElem?_of_mem hx
      have hmakes : Makes es i x.1 x.2 := hi
      have hcommit := run_at hrun hmakes
      rcases hpast.concat with hl | ⟨hno, hpast⟩
      · have hstays : recomputed x.2.after.db key = recomputed x.2.before.db key := by
          rw [hcommit, hl, (sources_of_still rfl).1]
        rw [hstays, hcommit, hl, get?_upsert]
        cases hnew : recomputed x.2.before.db key with
        | some cell => rfl
        | none =>
          have hcell := (grounded_at hrun i x.1 x.2 hmakes).cells key
          rw [hnew] at hcell
          exact Option.not_isSome_iff_eq_none.mp fun hsome ↦ Bool.false_ne_true (hcell hsome)
      · rw [recomputed_kept hcommit ((unpriced_all hrun).2 i x.1 x.2 hmakes).1 hno, ← hbefore hpast, hcommit]
        by_cases hl : x.2.label = .upsert key
        · rw [hl, get?_upsert, hbefore hpast]
          cases recomputed x.2.before.db key <;> rfl
        · exact get?_kept hl (never_deleted hrun hmakes)

/-- A job of the cell stands for a change of its sources: it waits when the change is made, is put
in the queue after it or handed back after it; or the worker that took it before computes after it. Of
a post the settlement's own job does, where the settlement comes to its transition and its jobs find the
queue up and their ids free, or waiting. -/
inductive Awaited (es : List (ℕ × Event Step World)) (key : EarningsGrainKey) (i n : ℕ) (e : Event Step World) : Prop
  | waiting {job : ProjectJob} : job.key = key → e.after.jobs.get? job = some .waiting → Awaited es key i n e
  | enqueued {job : ProjectJob} {j m : ℕ} {f : Event Step World} : job.key = key → i < j → Makes es j m f →
      f.label = .enqueue job → f.before.queueUp = true → f.before.jobs.get? job = none → Awaited es key i n e
  | handedBack {job : ProjectJob} {j m token : ℕ} {f : Event Step World} : job.key = key → i < j → Makes es j m f →
      f.label = .stall job → f.before.jobs.get? job = some (.active token) → Awaited es key i n e
  | underway {job : ProjectJob} {k j m : ℕ} {g f : Event Step World} : job.key = key → k < i → Makes es k m g →
      Takes job g → i < j → Makes es j m f → f.label = .upsert key → Awaited es key i n e
  | posted {bookingId commission j : ℕ} {legs : List SettlementLeg} {f : Event Step World} :
      e.label = .post bookingId legs → i < j → Makes es j n f → f.label = .markPaid bookingId commission →
      (∀ k g job, i < k → Makes es k n g → g.label = .enqueue job → g.before.queueUp = true ∧
        (g.before.jobs.get? job = none ∨ g.before.jobs.get? job = some .waiting)) → Awaited es key i n e

section Run

variable {trips : ℕ → Option CompletedTrip} {start : ℤ} {cs : List (Call Step World String)}
  {es : List (ℕ × Event Step World)} {i j n : ℕ} (hrun : Calls (Projects trips) (.blank trips start) cs w es)
include hrun

/-- Once all jobs have run, one that waited has been computed since. -/
theorem computed_since (hquiet : w.Quiet) {job : ProjectJob} (he : Makes es i n e)
    (hwaits : e.after.jobs.get? job = some .waiting) : ∃ j m f, i < j ∧ Makes es j m f ∧ f.label = .upsert job.key := by
  by_contra hnone
  refine not_owed_of_quiet hquiet (hrun.kept_after (I := Owed job e.after.tokens) he ⟨le_refl _, .inl hwaits⟩ ?_).1
  intro j m f hij hf howed
  rw [run_at hrun hf]
  refine owed_run howed fun token hsince hl ↦ hnone ?_
  -- who finishes it has taken it since, and computed after that
  have hjust := justified_at hrun hf
  rw [hl] at hjust
  obtain ⟨g, later, hown, htakes, rfl, u, hu, hupsert⟩ := hjust
  obtain ⟨mid, rest, rfl⟩ := List.append_of_mem hu
  obtain ⟨k, k', hkk', -, hg, hu⟩ := makes_of_own_split (show own m (es.take j) = [] ++ _ from hown)
  have hik : i < k := by
    by_contra hle
    have hgrown : g.after.tokens ≤ e.after.tokens := by
      rcases Nat.lt_or_eq_of_le (Nat.le_of_not_lt hle) with hlt | rfl
      · have hlater := hrun.chained.rel_after (R := fun s t : World ↦ s.tokens ≤ t.tokens) (fun _ ↦ le_refl _)
          (fun _ _ _ ↦ le_trans) (fun x hx ↦ ?_) hlt hg.event he.event
        · refine hlater.trans ?_
          rw [run_at hrun he]
          exact tokens_run _ _
        · obtain ⟨y, hy, rfl⟩ := List.mem_map.mp hx
          rw [hrun.committed y hy]
          exact tokens_run _ _
      · obtain ⟨-, rfl⟩ := hg.unique he
        exact le_refl _
    rw [run_at hrun hg, htakes.1] at hgrown
    simp only [World.run, if_pos htakes.2] at hgrown
    omega
  exact ⟨k', m, u, hik.trans hkk', hu, hupsert⟩

/-- The keys of a trip are found ever after its legs were posted. -/
theorem keys_found (he : Makes es i n e) {bookingId : ℕ} {legs : List SettlementLeg}
    (hl : e.label = .post bookingId legs) (hchange : Changes e key) {g : Event Step World} {m : ℕ} (hij : i < j)
    (hg : Makes es j m g) : key ∈ g.before.grainKeysForBooking bookingId := by
  rw [Changes, hl] at hchange
  obtain ⟨hfresh, t, ht, hgrain⟩ := hchange
  have hfound : ∃ t ∈ g.before.db.transactions, t.refId = some bookingId ∧ g.before.db.grain t = some key := by
    refine (hrun.kept_after (I := fun s ↦ ∃ t ∈ s.db.transactions, t.refId = some bookingId ∧
      s.db.grain t = some key) he ⟨t, ?_, ?_, ?_⟩ fun k o f _ hf ⟨t, ht, href, hgrain⟩ ↦ ?_).2 j m g hij hg
    · rw [run_at hrun he, hl, db_post _ _ hfresh]
      exact List.mem_append_right _ ht
    · obtain ⟨leg, -, rfl⟩ := List.mem_map.mp ht
      rfl
    · rw [run_at hrun he, hl, db_post _ _ hfresh]
      exact hgrain
    · rw [run_at hrun hf]
      obtain ⟨ht, hgrain⟩ := transaction_stays f.label ht hgrain
      exact ⟨t, ht, href, hgrain⟩
  obtain ⟨t, ht, href, hgrain⟩ := hfound
  rw [World.grainKeysForBooking, OrderedMap.mem_firsts, List.mem_filterMap]
  exact ⟨t, List.mem_filter.mpr ⟨ht, by simpa using href⟩, hgrain⟩

/-- A settlement that comes to its transition has handed its cells' jobs to the queue. -/
theorem enqueued_since (he : Makes es i n e) {bookingId commission : ℕ} {legs : List SettlementLeg}
    (hl : e.label = .post bookingId legs) (hchange : Changes e key) {f : Event Step World} (hij : i < j)
    (hf : Makes es j n f) (hl' : f.label = .markPaid bookingId commission)
    (hup : ∀ k g job, i < k → Makes es k n g → g.label = .enqueue job → g.before.queueUp = true) :
    ∃ k g, i < k ∧ Makes es k n g ∧ g.label = .enqueue ⟨key, false⟩ := by
  have hfresh : e.before.posted bookingId = false := by
    rw [Changes, hl] at hchange
    exact hchange.1
  have hlate {g : Event Step World} (hg : g ∈ own n ((es.take j).drop (i + 1))) : ∃ k, i < k ∧ Makes es k n g := by
    obtain ⟨k, hik, hg⟩ := makes_of_own_drop hg
    exact ⟨k, hik, hg.of_take.2⟩
  have hjust := justified_at hrun hf
  rw [hl'] at hjust
  rcases hjust _ _ _ legs (Makes.take hij he).own_split hl hfresh with ⟨g, hg, hall⟩ | ⟨g, hg, job, hjob, hdown⟩
  · obtain ⟨k, hik, hg⟩ := hlate hg
    obtain ⟨q, hq, hjob⟩ := hall key (keys_found hrun he hl hchange hik hg)
    obtain ⟨k, hik, hq⟩ := hlate hq
    exact ⟨k, q, hik, hq, hjob⟩
  · obtain ⟨k, hik, hg⟩ := hlate hg
    rw [hup k g job hik hg hjob] at hdown
    cases hdown

/-- What is awaited is computed, once all jobs have run. -/
theorem followed_of_awaited (hquiet : w.Quiet) (he : Makes es i n e) (hchange : Changes e key)
    (h : Awaited es key i n e) : ∃ j m f, i < j ∧ Makes es j m f ∧ f.label = .upsert key := by
  cases h with
  | waiting hkey hwaits => exact hkey ▸ computed_since hrun hquiet he hwaits
  | enqueued hkey hij hf hl hup hnew =>
    obtain ⟨j, m, u, hju, hu, hupsert⟩ := computed_since hrun hquiet hf (by
      rw [run_at hrun hf, hl]
      exact waits_enqueue hup (.inl hnew))
    exact ⟨j, m, u, hij.trans hju, hu, hkey ▸ hupsert⟩
  | handedBack hkey hij hf hl hactive =>
    obtain ⟨j, m, u, hju, hu, hupsert⟩ := computed_since hrun hquiet hf (by
      rw [run_at hrun hf, hl]
      exact waits_stall hactive)
    exact ⟨j, m, u, hij.trans hju, hu, hkey ▸ hupsert⟩
  | underway _ _ _ _ hij hf hupsert => exact ⟨_, _, _, hij, hf, hupsert⟩
  | posted hl hij hf hl' hfree =>
    obtain ⟨k, g, hik, hg, hjob⟩ := enqueued_since hrun he hl hchange hij hf hl'
      fun k g job hik hg hjob ↦ (hfree k g job hik hg hjob).1
    obtain ⟨hup, hfree⟩ := hfree k g _ hik hg hjob
    obtain ⟨j, m, u, hju, hu, hupsert⟩ := computed_since hrun hquiet hg (by
      rw [run_at hrun hg, hjob]
      exact waits_enqueue hup hfree)
    exact ⟨j, m, u, hik.trans hju, hu, hupsert⟩

/-- What computes a cell after a change has been awaited. -/
theorem awaited_of_followed (he : Makes es i n e) (hchange : Changes e key) {m : ℕ} {f : Event Step World} (hij : i < j)
    (hf : Makes es j m f) (hl : f.label = .upsert key) : Awaited es key i n e := by
  have hjust := justified_at hrun hf
  rw [hl] at hjust
  obtain ⟨g, hg, job, hkey, htakes⟩ := hjust
  obtain ⟨k, hkj, hg⟩ := makes_of_own hg
  rcases Nat.lt_trichotomy k i with hlt | rfl | hgt
  · exact .underway hkey hlt hg htakes hij hf hl
  · obtain ⟨-, rfl⟩ := hg.unique he
    rw [Changes, htakes.1] at hchange
    exact hchange.elim
  · by_contra hnone
    -- nobody makes it wait after the change
    refine (hrun.kept_after (I := fun s ↦ s.jobs.get? job ≠ some .waiting) he (fun hwaits ↦ hnone (.waiting hkey hwaits))
      ?_).2 k m g hgt hg htakes.2
    intro o q x ho hx hbefore hwaits
    rw [run_at hrun hx] at hwaits
    rcases waits_run hwaits with hwaits | ⟨hl', hup, hnew⟩ | ⟨hl', token, hactive⟩
    · exact hbefore hwaits
    · exact hnone (.enqueued hkey ho hx hl' hup hnew)
    · exact hnone (.handedBack hkey ho hx hl' hactive)

end Run

/-- Once all the jobs there are have run, the projection is the absolute recomputation, all columns of
it, just where a job of the cell stands for each post and each commission of its trips. -/
theorem projection_converges_iff {trips : ℕ → Option CompletedTrip} {start : ℤ} {cs : List (Call Step World String)}
    {es : List (ℕ × Event Step World)} (hrun : Calls (Projects trips) (.blank trips start) cs w es)
    (hquiet : w.Quiet) : (∀ key, w.earnings.get? key = recomputed w.db key) ↔
      ∀ key i n e, Makes es i n e → Changes e key → Awaited es key i n e := by
  refine forall_congr' fun key ↦ (converged_iff_followed hrun).trans ⟨fun h i n e he hchange ↦ ?_, fun h ↦ ?_⟩
  · have hsplit : es.map (·.2) = (es.take i).map (·.2) ++ e :: (es.drop (i + 1)).map (·.2) := by
      conv_lhs => rw [he.split]
      rw [List.map_append, List.map_cons]
    obtain ⟨f, hf, hl⟩ := h _ e _ hsplit hchange
    obtain ⟨j, m, hij, hf⟩ := makes_of_later hf
    exact awaited_of_followed hrun he hchange hij hf hl
  · intro pre e post heq hchange
    have hget : (es.map (·.2))[pre.length]? = some e := by
      rw [heq, List.getElem?_append_right (le_refl _), Nat.sub_self, List.getElem?_cons_zero]
    obtain ⟨n, he⟩ := makes_of_event hget
    obtain ⟨j, m, f, hij, hf, hl⟩ := followed_of_awaited hrun hquiet he hchange (h _ n e he hchange)
    refine ⟨f, ?_, hl⟩
    have hlate := hf.event
    rw [heq, List.getElem?_append_right hij.le] at hlate
    obtain ⟨k, hk⟩ := Nat.exists_eq_succ_of_ne_zero (Nat.sub_ne_zero_of_lt hij)
    rw [hk, List.getElem?_cons_succ] at hlate
    exact List.mem_of_getElem? hlate


/-! ### Two orders of one settlement and its job -/

/-- A trip of ₹1,000 at 20%, four fifths of the pool the driver's. -/
def sampleTrips (id : ℕ) : Option CompletedTrip :=
  if id = 1 then some ⟨some 1, 1, 100000, 0, .A, some 2000, 8000⟩ else none

def sampleKey : EarningsGrainKey := ⟨1, 0, 1⟩

def sampleAsked : List (Request Unit) := [settle sampleTrips 1, work ⟨sampleKey, false⟩]

theorem sampleAsked_projects : ∀ p ∈ sampleAsked, Projects sampleTrips p := by
  simp only [sampleAsked, List.forall_mem_cons, List.not_mem_nil, false_imp_iff, implies_true, and_true]
  exact ⟨.settle 1, .work _⟩

def projectionRun (turns : List ℕ) : List (Call Step World String) × World × List (ℕ × Event Step World) :=
  takeTurns turns (sampleAsked.map fun p ↦ ⟨p, p⟩) (.blank sampleTrips 0)

theorem projectionRun_calls (turns : List ℕ) : Calls (Projects sampleTrips) (.blank sampleTrips 0)
    (projectionRun turns).1 (projectionRun turns).2.1 (projectionRun turns).2.2 := by
  simpa [projectionRun] using (Calls.start.askAll sampleAsked_projects).takeTurns turns

/-- The settlement commits its five steps before the worker takes the job. -/
theorem projection_converges_iff_sample :
    (projectionRun [0, 0, 0, 0, 0, 1, 1, 1]).2.1.earnings.get? sampleKey = some ⟨1, 100000, 20000, 80000, 64000, 16000⟩ ∧
      ((∀ key, (projectionRun [0, 0, 0, 0, 0, 1, 1, 1]).2.1.earnings.get? key =
          recomputed (projectionRun [0, 0, 0, 0, 0, 1, 1, 1]).2.1.db key) ↔
        ∀ key i n e, Makes (projectionRun [0, 0, 0, 0, 0, 1, 1, 1]).2.2 i n e → Changes e key →
          Awaited (projectionRun [0, 0, 0, 0, 0, 1, 1, 1]).2.2 key i n e) :=
  ⟨by decide +kernel, projection_converges_iff (projectionRun_calls _) (by decide +kernel)⟩

/-- The worker takes the job before the transition writes the commission: the settlement is over,
the only job has run, and the cell shows no commission. -/
theorem commission_left_out :
    Calls (Projects sampleTrips) (.blank sampleTrips 0) (projectionRun [0, 0, 0, 0, 1, 1, 1, 0]).1
        (projectionRun [0, 0, 0, 0, 1, 1, 1, 0]).2.1 (projectionRun [0, 0, 0, 0, 1, 1, 1, 0]).2.2 ∧
      (projectionRun [0, 0, 0, 0, 1, 1, 1, 0]).2.1.paid 1 = true ∧
      (projectionRun [0, 0, 0, 0, 1, 1, 1, 0]).2.1.jobs = [(⟨sampleKey, false⟩, .completed 0)] ∧
      (projectionRun [0, 0, 0, 0, 1, 1, 1, 0]).2.1.earnings.get? sampleKey =
        some ⟨1, 100000, 0, 80000, 64000, 16000⟩ ∧
      recomputed (projectionRun [0, 0, 0, 0, 1, 1, 1, 0]).2.1.db sampleKey =
        some ⟨1, 100000, 20000, 80000, 64000, 16000⟩ :=
  ⟨projectionRun_calls _, by decide +kernel, by decide +kernel, by decide +kernel, by decide +kernel⟩

end Towing.Earnings
