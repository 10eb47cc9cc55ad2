import Towing.Notifications.DispatchSteps

namespace Towing.Notifications

open Towing.Process NotificationDispatcherService

variable {π δ : Type} {env : Env π δ} {w : World π δ} {d : ℕ}

/-! ### How often a delivery is claimed -/

/-- A delivery may be claimed while it waits, and one that is not there yet may be inserted. -/
def World.openings (w : World π δ) (d : ℕ) : ℕ := if (w.deliveries[d]?).all (·.waits) then 1 else 0

theorem openings_le_one (w : World π δ) (d : ℕ) : w.openings d ≤ 1 := by
  unfold World.openings
  split_ifs <;> simp

theorem openings_modify_ne (w : World π δ) {i : ℕ} (hi : i ≠ d) (f : Delivery → Delivery) :
    ({ w with deliveries := w.deliveries.modify i f } : World π δ).openings d = w.openings d := by
  have hsame : (w.deliveries.modify i f)[d]? = w.deliveries[d]? := by simp [hi]
  simp [World.openings, hsame]

theorem openings_modify_self (w : World π δ) {f : Delivery → Delivery} (hf : ∀ row, (f row).waits = false) :
    ({ w with deliveries := w.deliveries.modify d f } : World π δ).openings d ≤ w.openings d := by
  cases hrow : w.deliveries[d]? with
  | none => simp [World.openings, hrow]
  | some row => simp [World.openings, hrow, hf row]

theorem waits_claimed (row : Delivery) : row.claimed.waits = false := by
  unfold Delivery.claimed
  split_ifs with h
  · rfl
  · simpa using h

/-- A claim takes the opening, and only a failure or a bounce makes one again. -/
theorem openings_run {e : Commit π δ} (he : e.after = e.before.run e.label) :
    (if Claims d e then 1 else 0) + e.after.openings d ≤
      e.before.openings d + (if e.label.fails d then 1 else 0) + (if e.label.bounces d then 1 else 0) := by
  obtain ⟨l, s, t⟩ := e
  obtain rfl : t = s.run l := he
  cases l with
  | claim i =>
    by_cases hi : i = d
    · subst hi
      have hafter : (s.run (.claim i)).openings i ≤ s.openings i := openings_modify_self s waits_claimed
      cases hclaim : s.claimable i with
      | none => simpa [Claims, Step.fails, Step.bounces, hclaim] using hafter
      | some row =>
        obtain ⟨hrow, hwaits⟩ := claimable_eq_some hclaim
        have hbefore : s.openings i = 1 := by simp [World.openings, hrow, hwaits]
        have hclosed : (s.run (.claim i)).openings i = 0 := by
          show (World.openings { s with deliveries := s.deliveries.modify i Delivery.claimed } i) = 0
          simp [World.openings, hrow, waits_claimed]
        simp [Claims, Step.fails, Step.bounces, hclaim, hbefore, hclosed]
    · have hafter : (s.run (.claim i)).openings d = s.openings d := openings_modify_ne s hi _
      simp [Claims, Step.fails, Step.bounces, hi, hafter]
  | sent i vendor vendorRef =>
    by_cases hi : i = d
    · subst hi
      have hafter : (s.run (.sent i vendor vendorRef)).openings i ≤ s.openings i :=
        openings_modify_self s fun _ ↦ rfl
      simpa [Claims, Step.fails, Step.bounces] using hafter
    · have hafter : (s.run (.sent i vendor vendorRef)).openings d = s.openings d := openings_modify_ne s hi _
      simp [Claims, Step.fails, Step.bounces, hafter]
  | fail i vendor lastError =>
    by_cases hi : i = d
    · have hafter := openings_le_one (s.run (.fail i vendor lastError)) d
      simp only [Claims, Step.fails, Step.bounces, hi, decide_true, if_true] at hafter ⊢
      simp only [Bool.false_eq_true, if_false]
      omega
    · have hafter : (s.run (.fail i vendor lastError)).openings d = s.openings d := openings_modify_ne s hi _
      simp [Claims, Step.fails, Step.bounces, hi, hafter]
  | bounce i lastError =>
    by_cases hi : i = d
    · have hafter := openings_le_one (s.run (.bounce i lastError)) d
      simp only [Claims, Step.fails, Step.bounces, hi, decide_true, if_true] at hafter ⊢
      simp only [Bool.false_eq_true, if_false]
      omega
    · have hafter : (s.run (.bounce i lastError)).openings d = s.openings d := openings_modify_ne s hi _
      simp [Claims, Step.fails, Step.bounces, hi, hafter]
  | insert rows =>
    have hafter : (s.run (.insert rows)).openings d ≤ s.openings d := by
      cases hrow : s.deliveries[d]? with
      | none => exact (openings_le_one _ _).trans (by simp [World.openings, hrow])
      | some row =>
        obtain ⟨added, hadded, -⟩ := foldl_insertDelivery rows s.deliveries
        have hsame : (s.run (.insert rows)).deliveries[d]? = some row := by
          show (rows.foldl insertDelivery s.deliveries)[d]? = some row
          rw [hadded]
          exact getElem?_appended hrow
        simp [World.openings, hrow, hsame]
    simpa [Claims, Step.fails, Step.bounces] using hafter
  | record event payload dedupeKey inbox now =>
    have hafter : (s.run (.record event payload dedupeKey inbox now)).openings d = s.openings d := by
      rw [World.run]
      split_ifs <;> rfl
    simp [Claims, Step.fails, Step.bounces, hafter]
  | _ =>
    change _ + s.openings d ≤ _
    simp [Claims, Step.fails, Step.bounces]

/-! ### What is there stays there -/

structure World.Precedes (s t : World π δ) : Prop where
  deliveries : ∀ (d : ℕ) (row : Delivery), s.deliveries[d]? = some row →
    ∃ row', t.deliveries[d]? = some row' ∧ row.Becomes row'
  events : ∀ (i : ℕ) (ev : EventRow π), s.events[i]? = some ev → ∃ ev', t.events[i]? = some ev' ∧ ev.Becomes ev'
  jobs : s.jobs ⊆ t.jobs

theorem World.Precedes.refl (s : World π δ) : s.Precedes s :=
  ⟨fun _ row h ↦ ⟨row, h, .refl row⟩, fun _ ev h ↦ ⟨ev, h, .refl ev⟩, List.Subset.refl _⟩

theorem World.Precedes.trans (s t u : World π δ) (hst : s.Precedes t) (htu : t.Precedes u) : s.Precedes u where
  deliveries d row hrow := by
    obtain ⟨row', hrow', hbecomes⟩ := hst.deliveries d row hrow
    obtain ⟨row'', hrow'', hbecomes'⟩ := htu.deliveries d row' hrow'
    exact ⟨row'', hrow'', hbecomes.trans hbecomes'⟩
  events i ev hev := by
    obtain ⟨ev', hev', hbecomes⟩ := hst.events i ev hev
    obtain ⟨ev'', hev'', hbecomes'⟩ := htu.events i ev' hev'
    exact ⟨ev'', hev'', hbecomes.trans hbecomes'⟩
  jobs := List.Subset.trans hst.jobs htu.jobs

theorem precedes_run (l : Step π δ) (s : World π δ) : s.Precedes (s.run l) where
  deliveries _ _ h := delivery_kept h l
  events _ _ h := event_kept h l
  jobs := by
    cases l with
    | enqueue job => exact List.subset_append_left _ _
    | record =>
      rw [World.run]
      split_ifs
      · exact List.Subset.refl _
      · exact List.Subset.refl _
    | _ => exact List.Subset.refl _

/-- The steps that write a status whatever it was. -/
def Step.writes (d : ℕ) : Step π δ → Bool
  | .sent i _ _ | .fail i _ _ | .bounce i _ => i = d
  | _ => false

theorem skipped_kept {row : Delivery} (h : w.deliveries[d]? = some row) (hskipped : row.status = .skipped)
    {l : Step π δ} (hl : l.writes d = false) : (w.run l).deliveries[d]? = some row := by
  have hmodify {i : ℕ} {f : Delivery → Delivery} (hf : i = d → f row = row) :
      (w.deliveries.modify i f)[d]? = some row := by
    rw [List.getElem?_modify, h]
    by_cases hi : i = d
    · simp [hi, hf hi]
    · simp [hi]
  cases l with
  | claim i =>
    apply hmodify
    intro _
    simp [Delivery.claimed, Delivery.waits, hskipped]
  | sent i | fail i | bounce i => exact hmodify fun hi ↦ by simp [Step.writes, hi] at hl
  | insert rows =>
    obtain ⟨added, hadded, -⟩ := foldl_insertDelivery rows w.deliveries
    show (rows.foldl insertDelivery w.deliveries)[d]? = some row
    rw [hadded]
    exact getElem?_appended h
  | record =>
    rw [World.run]
    split_ifs
    · exact h
    · exact h
  | _ => exact h

/-- The rows are indexed, a row with a reason stays skipped, a device is named on push only, and the jobs
are of rows that are there. -/
structure World.Sound (w : World π δ) : Prop where
  indexed : w.Indexed
  skipped : ∀ (d : ℕ) (row : Delivery), w.deliveries[d]? = some row → row.skipReason.isSome = true →
    row.status = .skipped
  single : ∀ (d : ℕ) (row : Delivery), w.deliveries[d]? = some row → row.channel ≠ .push → row.deviceId = none
  deliver : ∀ channel d, Job.deliver channel d ∈ w.jobs → ∃ row, w.deliveries[d]? = some row ∧ row.channel = channel
  receipts : ∀ deliveryIds d, Job.receipts deliveryIds ∈ w.jobs → d ∈ deliveryIds →
    ∃ row, w.deliveries[d]? = some row ∧ row.channel = .push ∧ row.skipReason = none

/-- Nothing has been notified yet. -/
structure World.Fresh (w : World π δ) : Prop where
  devices : w.devices.Pairwise fun d d' ↦ d.shares d' = false
  events : w.events = []
  deliveries : w.deliveries = []
  jobs : w.jobs = []

theorem World.Fresh.sound (h : w.Fresh) : w.Sound := by
  obtain ⟨hdevices, hevents, hdeliveries, hjobs⟩ := h
  refine ⟨⟨hdevices, by simp [hevents], by simp [hdeliveries]⟩, ?_, ?_, ?_, ?_⟩
  · simp [hdeliveries]
  · simp [hdeliveries]
  · simp [hjobs]
  · simp [hjobs]

/-! ### What is promised of a run -/

/-- A send that its vendor took. -/
def Accepted (e : Commit π δ) (params : ChannelSendParams) : Prop :=
  ∃ vendor vendorRef, e.label = .send params (.ok (.ok vendor vendorRef))

/-- One notice to one person by one channel: of one event, or of two that have one dedupe key. -/
def World.SameNotice (w : World π δ) (params params' : ChannelSendParams) : Prop :=
  ∃ row row' ev ev', w.deliveries[params.deliveryId]? = some row ∧ w.deliveries[params'.deliveryId]? = some row' ∧
    w.events[row.eventId]? = some ev ∧ w.events[row'.eventId]? = some ev' ∧ row.recipientKey = row'.recipientKey ∧
    params.channel = params'.channel ∧ (row.eventId = row'.eventId ∨ ev.Repeats ev')

/-- The device was its recipient's when it was read, and the only one that held the token. -/
def Live (past : List (Commit π δ)) (row : Delivery) (address : Text) : Prop :=
  ∃ f ∈ past, ∃ id device, row.deviceId = some id ∧ f.before.devices[id]? = some device ∧
    device.key = row.recipientKey ∧ device.revoked = false ∧ device.pushToken = some address ∧
    ∀ (k : ℕ) (device' : Device), f.before.devices[k]? = some device' → device'.revoked = false →
      device'.pushToken = some address → k = id

/-- The switch that answers for a category: a fleet's own three, and one of a person. -/
def Governs (subjectType : RecipientSubjectType) (category : NotificationCategory) (key : PrefKey) : Prop :=
  if subjectType = .fleet then
    (category, key) ∈ [(.compliance, .compliance), (.money, .payouts), (.job, PrefKey.jobs)]
  else category = .promotions ∧ key = .promotions

/-- The recipient has switched the category off, and the trigger is not one that always sends. -/
def OptedOut (recipient : Recipient) (trigger : RegisteredTrigger π δ) : Prop :=
  trigger.alwaysOn = false ∧ ∃ key, Governs recipient.key.1 trigger.category key ∧
    recipient.prefs.lookup key = some false

/-- The request that inserted the delivery had found its recipient, not opted out, with notifications on. -/
def Wanted (env : Env π δ) (es : List (ℕ × Commit π δ)) (i d : ℕ) (row : Delivery) (payload : π)
    (trigger : RegisteredTrigger π δ) : Prop :=
  env.NOTIFY_ENABLED = true ∧ ∃ j o f rows first recipient, j < i ∧ Makes es j o f ∧ f.label = .insert rows ∧
    first ∈ rows ∧ f.before.deliveries[d]? = none ∧ f.after.deliveries[d]? = some first ∧ first.skipReason = none ∧
    Found (own o (es.take j)) trigger payload recipient ∧ recipient.key = row.recipientKey ∧ ¬OptedOut recipient trigger

/-- A delivery is taken once, and again only after a receipt that reported an error, so that off push nobody
is told the same thing twice; and what is sent is in the trigger's words, to who the trigger finds, where they
are then reached, and was wanted. -/
structure ToldOnce (env : Env π δ) (w : World π δ) (es : List (ℕ × Commit π δ)) : Prop where
  accepted : ∀ d, es.countP (fun x ↦ x.2.label.accepts d) ≤ 1 + es.countP (fun x ↦ x.2.label.bounces d)
  once : ∀ i j m n e f params params', Makes es i m e → Makes es j n f → Accepted e params → Accepted f params' →
    params.channel ≠ .push → w.SameNotice params params' → i = j
  addressed : ∀ i n e params result, Makes es i n e → e.label = .send params result → ∃ row ev trigger recipient,
    Claimed (own n (es.take i)) params.deliveryId row ∧ row.channel = params.channel ∧
      Addressed env (own n (es.take i)) row params ev trigger recipient ∧
      (params.channel = .push → Live (own n (es.take i)) row params.address) ∧
      Wanted env es i params.deliveryId row ev.payload trigger

theorem pairwise_at {α : Type} {R : α → α → Prop} {xs : List α} (h : xs.Pairwise R) {i j : ℕ} {x y : α} (hij : i < j)
    (hx : xs[i]? = some x) (hy : xs[j]? = some y) : R x y := by
  obtain ⟨hi, rfl⟩ := List.getElem?_eq_some_iff.mp hx
  obtain ⟨hj, rfl⟩ := List.getElem?_eq_some_iff.mp hy
  exact List.pairwise_iff_getElem.mp h i j hi hj hij

theorem place_unique {α : Type} {R : α → α → Prop} {xs : List α} (h : xs.Pairwise R) {i j : ℕ} {x y : α}
    (hx : xs[i]? = some x) (hy : xs[j]? = some y) (hxy : ¬R x y) (hyx : ¬R y x) : i = j := by
  rcases Nat.lt_trichotomy i j with hlt | heq | hgt
  · exact (hxy (pairwise_at h hlt hx hy)).elim
  · exact heq
  · exact (hyx (pairwise_at h hgt hy hx)).elim

theorem not_optedOut {recipient : Recipient} {trigger : RegisteredTrigger π δ}
    (h : PreferenceService.suppresses recipient trigger = false) : ¬OptedOut recipient trigger := by
  rintro ⟨halwaysOn, key, hgoverns, hprefs⟩
  unfold PreferenceService.suppresses Governs at *
  by_cases hfleet : recipient.key.1 = .fleet
  · simp only [hfleet, if_true, halwaysOn, Bool.false_eq_true, if_false] at h hgoverns
    generalize trigger.category = category at h hgoverns
    simp only [List.mem_cons, List.not_mem_nil, or_false, Prod.mk.injEq] at hgoverns
    rcases hgoverns with ⟨rfl, rfl⟩ | ⟨rfl, rfl⟩ | ⟨rfl, rfl⟩
    all_goals simp [PreferenceService.FLEET_PREF_KEY, hprefs] at h
  · simp only [hfleet, if_false, halwaysOn, Bool.false_eq_true] at h hgoverns
    obtain ⟨hcategory, rfl⟩ := hgoverns
    simp [hcategory, PreferenceService.SUBJECT_PREF_KEY, hprefs] at h

/-- A send that is taken is not a failure. -/
theorem fails_of_accepts {l : Step π δ} (h : l.accepts d = true) : l.fails d = false := by
  cases l with
  | send => rfl
  | _ => cases h

section Run

variable {w₀ : World π δ} {cs : List (Call (Step π δ) (World π δ) String)} {es : List (ℕ × Commit π δ)} {i n : ℕ}
  {e : Commit π δ} (hrun : Calls (Asks env) w₀ cs w es)
include hrun

theorem justified_at (he : Makes es i n e) : Justified env (own n (es.take i)) e.label :=
  hrun.heeds_own (fun _ hp ↦ asks_heeds hp) he

theorem precedes_own {f : Commit π δ} (he : Makes es i n e) (hf : f ∈ own n (es.take i)) : f.before.Precedes e.before :=
  hrun.rel_own World.Precedes.refl World.Precedes.trans precedes_run he hf

theorem precedes_end (he : Makes es i n e) : e.before.Precedes w :=
  hrun.rel_end World.Precedes.refl World.Precedes.trans precedes_run he

theorem claimed_now (he : Makes es i n e) {row : Delivery} (h : Claimed (own n (es.take i)) d row) :
    row.waits = true ∧ ∃ row', e.before.deliveries[d]? = some row' ∧ row.Becomes row' := by
  obtain ⟨f, hf, -, hclaim⟩ := h
  obtain ⟨hrow, hwaits⟩ := claimable_eq_some hclaim
  exact ⟨hwaits, (precedes_own hrun he hf).deliveries d row hrow⟩

theorem worked_now (he : Makes es i n e) {job : Job} (h : Worked (own n (es.take i)) job) : job ∈ e.before.jobs := by
  obtain ⟨f, hf, hjob⟩ := h
  exact (precedes_own hrun he hf).jobs hjob

omit hrun in
/-- A delivery that has been claimed was never skipped. -/
theorem skipReason_of_claimed {row row' : Delivery} (h : w.Sound) (hwaits : row.waits = true)
    (hrow' : w.deliveries[d]? = some row') (hbecomes : row.Becomes row') : row'.skipReason = none := by
  cases hreason : row'.skipReason with
  | none => rfl
  | some reason =>
    have hskipped := hbecomes.skipped (h.skipped d row' hrow' (by simp [hreason]))
    simp [Delivery.waits, hskipped] at hwaits

/-- Only a row that is not skipped is written. -/
theorem written_unskipped (he : Makes es i n e) (h : e.before.Sound) (hl : e.label.writes d = true) :
    ∃ row, e.before.deliveries[d]? = some row ∧ row.skipReason = none := by
  have hjustified := justified_at hrun he
  have hof {d : ℕ} {row : Delivery} (hclaimed : Claimed (own n (es.take i)) d row) :
      ∃ row, e.before.deliveries[d]? = some row ∧ row.skipReason = none := by
    obtain ⟨hwaits, row', hrow', hbecomes⟩ := claimed_now hrun he hclaimed
    exact ⟨row', hrow', skipReason_of_claimed h hwaits hrow' hbecomes⟩
  generalize e.label = l at hl hjustified
  cases l with
  | sent k =>
    obtain rfl : k = d := by simpa [Step.writes] using hl
    exact hof hjustified.choose_spec
  | fail k =>
    obtain rfl : k = d := by simpa [Step.writes] using hl
    exact hof hjustified.2.choose_spec
  | bounce k =>
    obtain rfl : k = d := by simpa [Step.writes] using hl
    obtain ⟨deliveryIds, hworked, hd⟩ := hjustified
    obtain ⟨row, hrow, -, hreason⟩ := h.receipts deliveryIds k (worked_now hrun he hworked) hd
    exact ⟨row, hrow, hreason⟩
  | _ => cases hl

theorem sound_step (he : Makes es i n e) (h : e.before.Sound) : e.after.Sound := by
  have hafter : e.after = e.before.run e.label := hrun.commit_at he
  have hjustified := justified_at hrun he
  have hnew {d : ℕ} {row : Delivery} (hrow : e.after.deliveries[d]? = some row)
      (hnone : e.before.deliveries[d]? = none) :
      ∃ trigger recipient now, row ∈ deliveryRowsFor env row.eventId now trigger recipient := by
    rw [hafter] at hrow
    obtain ⟨rows, hl, hmem⟩ := delivery_new hrow hnone
    rw [hl] at hjustified
    obtain ⟨ev, trigger, recipient, now, -, -, -, hrows⟩ := hjustified row hmem
    exact ⟨trigger, recipient, now, hrows⟩
  have hold {d : ℕ} {row row₀ : Delivery} (hrow : e.after.deliveries[d]? = some row)
      (hrow₀ : e.before.deliveries[d]? = some row₀) : row₀.Becomes row := by
    obtain ⟨row', hrow', hbecomes⟩ := delivery_kept hrow₀ e.label
    rw [← hafter] at hrow'
    exact Option.some.inj (hrow'.symm.trans hrow) ▸ hbecomes
  have hlater {d : ℕ} {row : Delivery} (hrow : e.before.deliveries[d]? = some row) :
      ∃ row', e.after.deliveries[d]? = some row' ∧ row.Becomes row' := hafter ▸ delivery_kept hrow e.label
  refine ⟨hafter ▸ indexed_run h.indexed e.label, fun d row hrow hreason ↦ ?_, fun d row hrow hchannel ↦ ?_,
    fun channel d hjob ↦ ?_, fun deliveryIds d hjob hd ↦ ?_⟩
  · cases hrow₀ : e.before.deliveries[d]? with
    | none =>
      obtain ⟨trigger, recipient, now, hrows⟩ := hnew hrow hrow₀
      exact (mem_deliveryRowsFor hrows).2.2.2.1 hreason
    | some row₀ =>
      have hreason₀ : row₀.skipReason.isSome = true := (hold hrow hrow₀).skipReason ▸ hreason
      have hskipped := h.skipped d row₀ hrow₀ hreason₀
      by_cases hwrites : e.label.writes d = true
      · obtain ⟨row₁, hrow₁, hnone⟩ := written_unskipped hrun he h hwrites
        obtain rfl := Option.some.inj (hrow₀.symm.trans hrow₁)
        simp [hnone] at hreason₀
      · have hsame := skipped_kept hrow₀ hskipped (l := e.label) (by simpa using hwrites)
        rw [← hafter] at hsame
        obtain rfl := Option.some.inj (hsame.symm.trans hrow)
        exact hskipped
  · cases hrow₀ : e.before.deliveries[d]? with
    | none =>
      obtain ⟨trigger, recipient, now, hrows⟩ := hnew hrow hrow₀
      exact (mem_deliveryRowsFor hrows).2.2.1 hchannel
    | some row₀ =>
      have hbecomes := hold hrow hrow₀
      rw [hbecomes.deviceId]
      exact h.single d row₀ hrow₀ (hbecomes.channel ▸ hchannel)
  · have hpresent : ∃ row, e.before.deliveries[d]? = some row ∧ row.channel = channel := by
      rcases job_new (hafter ▸ hjob) with hjob | hl
      · exact h.deliver channel d hjob
      · rw [hl] at hjustified
        obtain ⟨f, hf, row, hrow, hchannel⟩ := hjustified
        obtain ⟨row', hrow', hbecomes⟩ := (precedes_own hrun he hf).deliveries d row hrow
        exact ⟨row', hrow', hbecomes.channel.trans hchannel⟩
    obtain ⟨row, hrow, hchannel⟩ := hpresent
    obtain ⟨row', hrow', hbecomes⟩ := hlater hrow
    exact ⟨row', hrow', hbecomes.channel.trans hchannel⟩
  · have hpresent : ∃ row, e.before.deliveries[d]? = some row ∧ row.channel = .push ∧ row.skipReason = none := by
      rcases job_new (hafter ▸ hjob) with hjob | hl
      · exact h.receipts deliveryIds d hjob hd
      · rw [hl] at hjustified
        obtain ⟨d', rfl, hworked, row, hclaimed⟩ := hjustified
        obtain rfl := List.mem_singleton.mp hd
        obtain ⟨row', hrow', hpush⟩ := h.deliver .push d (worked_now hrun he hworked)
        obtain ⟨hwaits, row'', hrow'', hbecomes⟩ := claimed_now hrun he hclaimed
        obtain rfl := Option.some.inj (hrow'.symm.trans hrow'')
        exact ⟨row', hrow', hpush, skipReason_of_claimed h hwaits hrow' hbecomes⟩
    obtain ⟨row, hrow, hpush, hreason⟩ := hpresent
    obtain ⟨row', hrow', hbecomes⟩ := hlater hrow
    exact ⟨row', hrow', hbecomes.channel.trans hpush, hbecomes.skipReason.trans hreason⟩

theorem sound_throughout (h₀ : w₀.Fresh) : w.Sound ∧ ∀ i n e, Makes es i n e → e.before.Sound := by
  obtain ⟨hlast, hall⟩ := hrun.kept h₀.sound fun _ _ _ he h ↦ sound_step hrun he h
  exact ⟨hlast, fun i n e he ↦ (hall i n e he).1⟩

theorem claims_le (d : ℕ) : (es.map (·.2)).countP (Claims d) ≤
    1 + (es.map (·.2)).countP (·.label.fails d) + (es.map (·.2)).countP (·.label.bounces d) := by
  have hJ := hrun.chained.history (J := fun es t ↦ es.countP (Claims d) + t.openings d ≤
    1 + es.countP (·.label.fails d) + es.countP (·.label.bounces d)) (by simpa using openings_le_one w₀ d)
    fun pre e he hpre ↦ by
      obtain ⟨x, hx, rfl⟩ := List.mem_map.mp he
      have hstep := openings_run (d := d) (hrun.committed x hx)
      simp only [List.countP_append, List.countP_singleton] at hpre ⊢
      omega
  exact (Nat.le_add_right _ _).trans hJ

/-- A delivery is taken by its vendor once, and once more for every receipt that reported an error. -/
theorem accepts_le (d : ℕ) : (es.map (·.2)).countP (·.label.accepts d) ≤
    1 + (es.map (·.2)).countP (·.label.bounces d) := by
  have hsettles : ∀ l : Step π δ, (l.accepts d || l.fails d) = true → l.settles = true := by
    intro l hl
    cases l with
    | send params result =>
      cases result with
      | error e => cases hl
      | ok result =>
        cases result with
        | ok => rfl
        | failed => cases hl
    | fail => rfl
    | _ => cases hl
  have hclaims : (es.map (·.2)).countP (fun e ↦ e.label.accepts d || e.label.fails d) ≤
      (es.map (·.2)).countP (Claims d) := by
    apply countP_le_permits
    intro i n e he hends
    have hjustified := justified_at hrun he
    have hof (hcalm : Calm (own n (es.take i))) {row : Delivery} (hclaimed : Claimed (own n (es.take i)) d row) :
        (∃ f ∈ own n (es.take i), Claims d f = true) ∧
          ∀ f ∈ own n (es.take i), (f.label.accepts d || f.label.fails d) = false := by
      obtain ⟨f, hf, hl, hclaim⟩ := hclaimed
      refine ⟨⟨f, hf, by simp [Claims, hl, hclaim]⟩, fun g hg ↦ ?_⟩
      by_contra hne
      have hends := hsettles g.label (Bool.eq_true_of_not_eq_false hne)
      rw [hcalm g hg] at hends
      cases hends
    generalize e.label = l at hends hjustified
    cases l with
    | send params result =>
      obtain ⟨hcalm, -, row, hclaimed, -⟩ := hjustified
      have hd : params.deliveryId = d := by
        cases result with
        | error e => cases hends
        | ok result =>
          cases result with
          | ok => simpa [Step.accepts, Step.fails] using hends
          | failed => cases hends
      exact hof hcalm (hd ▸ hclaimed)
    | fail k =>
      obtain rfl : k = d := by simpa [Step.accepts, Step.fails] using hends
      obtain ⟨hcalm, row, hclaimed⟩ := hjustified
      exact hof hcalm hclaimed
    | _ => cases hends
  rw [countP_or fun e _ haccepts ↦ fails_of_accepts haccepts] at hclaims
  have hle := claims_le hrun d
  omega

omit hrun in
theorem live_of_found {past : List (Commit π δ)} {row : Delivery} {params : ChannelSendParams} {ev : EventRow π}
    {trigger : RegisteredTrigger π δ} {recipient : Recipient} (h : Addressed env past row params ev trigger recipient)
    (hpush : params.channel = .push) (hindexed : ∀ f ∈ past, f.before.Indexed) : Live past row params.address := by
  have haddress := h.address
  rw [hpush] at haddress
  obtain ⟨⟨id, token⟩, hfind, rfl⟩ := Option.map_eq_some_iff.mp haddress
  obtain ⟨f, hf, htokens⟩ := h.found.2
  have hmem := List.mem_of_find?_eq_some hfind
  have hid : some id = row.deviceId := by simpa using List.find?_some hfind
  rw [htokens] at hmem
  obtain ⟨⟨device, id'⟩, hdevice, hsome⟩ := List.mem_filterMap.mp hmem
  dsimp only at hsome
  split_ifs at hsome with hlive
  simp only [Bool.and_eq_true, decide_eq_true_eq, Bool.not_eq_true'] at hlive
  obtain ⟨token', htoken, hpair⟩ := Option.map_eq_some_iff.mp hsome
  obtain ⟨rfl, rfl⟩ := Prod.mk.inj hpair
  have hat := List.mk_mem_zipIdx_iff_getElem?.mp hdevice
  have htoken := (Option.filter_eq_some_iff.mp htoken).1
  refine ⟨f, hf, id', device, hid.symm, hat, hlive.1.trans h.key, hlive.2, htoken, fun k device' hk hrevoked hsame ↦ ?_⟩
  have hshares : device.shares device' = true ∧ device'.shares device = true := by
    simp [Device.shares, hlive.2, htoken, hrevoked, hsame]
  exact place_unique (hindexed f hf).devices hk hat (by simp [hshares.2]) (by simp [hshares.1])

theorem wanted_at (h₀ : w₀.Fresh) (he : Makes es i n e) {row : Delivery} (hclaimed : Claimed (own n (es.take i)) d row)
    {ev : EventRow π} (hev : ReadEvent (own n (es.take i)) row.eventId ev) {trigger : RegisteredTrigger π δ}
    (htrigger : env.trigger ev.event = some trigger) : Wanted env es i d row ev.payload trigger := by
  obtain ⟨hwaits, now, hnow, hbecomes⟩ := claimed_now hrun he hclaimed
  have hreason := skipReason_of_claimed ((sound_throughout hrun h₀).2 i n e he) hwaits hnow hbecomes
  obtain ⟨j, f, hji, hf, hbefore, ⟨first, hfirst⟩, -⟩ := hrun.chained.origin
    (R := fun s ↦ ∃ row, s.deliveries[d]? = some row) (by simp [h₀.deliveries]) he.event ⟨now, hnow⟩
  obtain ⟨o, hf⟩ := makes_of_event hf
  have hlater : f.after.Precedes e.before :=
    hrun.rel_after World.Precedes.refl World.Precedes.trans precedes_run hji hf he
  obtain ⟨now', hnow', hbecomes'⟩ := hlater.deliveries d first hfirst
  have hafter := hfirst
  obtain rfl := Option.some.inj (hnow.symm.trans hnow')
  have hnone : f.before.deliveries[d]? = none := by
    by_contra hsome
    exact hbefore (Option.ne_none_iff_exists'.mp hsome)
  rw [hrun.commit_at hf] at hfirst
  obtain ⟨rows, hl, hmem⟩ := delivery_new hfirst hnone
  have hjustified := justified_at hrun hf
  rw [hl] at hjustified
  obtain ⟨ev', trigger', recipient, at', hread, htrigger', hfound, hrows⟩ := hjustified first hmem
  obtain ⟨-, hkey, -, -, hwanted⟩ := mem_deliveryRowsFor hrows
  obtain ⟨hsuppresses, henabled⟩ := hwanted (hbecomes'.skipReason ▸ hreason)
  have heventId : first.eventId = row.eventId := hbecomes'.eventId.symm.trans hbecomes.eventId
  have hsame : ev'.event = ev.event ∧ ev'.payload = ev.payload := by
    obtain ⟨g, hg, hgev⟩ := hev
    obtain ⟨g', hg', hgev'⟩ := hread
    obtain ⟨ev₁, hev₁, hb₁⟩ := (precedes_own hrun he hg).events _ ev hgev
    obtain ⟨ev₂, hev₂, hb₂⟩ := ((precedes_own hrun hf hg').trans _ _ _ ((precedes_run f.label f.before).trans _ _ _
      (hrun.commit_at hf ▸ hlater))).events _ ev' hgev'
    rw [heventId] at hev₂
    obtain rfl := Option.some.inj (hev₁.symm.trans hev₂)
    exact ⟨hb₂.event.symm.trans hb₁.event, hb₂.payload.symm.trans hb₁.payload⟩
  rw [hsame.1, htrigger] at htrigger'
  obtain rfl := Option.some.inj htrigger'
  exact ⟨henabled, j, o, f, rows, first, recipient, hji, hf, hl, hmem, hnone, hafter, hbecomes'.skipReason ▸ hreason,
    hsame.2 ▸ hfound, hkey.symm.trans (hbecomes'.recipientKey.symm.trans hbecomes.recipientKey), not_optedOut hsuppresses⟩

/-- Off push there is one row for a notice, and no receipt is read. -/
theorem once_off_push (h₀ : w₀.Fresh) {j m : ℕ} {f : Commit π δ} {params params' : ChannelSendParams}
    (he : Makes es i n e) (hf : Makes es j m f) (hparams : Accepted e params) (hparams' : Accepted f params')
    (hchannel : params.channel ≠ .push) (hsame : w.SameNotice params params') : i = j := by
  have hsound := (sound_throughout hrun h₀).1
  have hrow {i n : ℕ} {e : Commit π δ} {params : ChannelSendParams} (he : Makes es i n e) (hp : Accepted e params)
      {row : Delivery} (hrow : w.deliveries[params.deliveryId]? = some row) : row.channel = params.channel := by
    have hjustified := justified_at hrun he
    obtain ⟨vendor, vendorRef, hl⟩ := hp
    rw [hl] at hjustified
    obtain ⟨row', hrow', heq⟩ := hsound.deliver _ _ ((precedes_end hrun he).jobs (worked_now hrun he hjustified.2.1))
    obtain rfl := Option.some.inj (hrow.symm.trans hrow')
    exact heq
  obtain ⟨row, row', ev, ev', hat, hat', hev, hev', hkey, hway, hevents⟩ := hsame
  have hc := hrow he hparams hat
  have hc' := hrow hf hparams' hat'
  have heventId : row.eventId = row'.eventId := by
    rcases hevents with heq | hrepeats
    · exact heq
    · obtain ⟨hsome, hevent, hdedupe⟩ := hrepeats
      exact place_unique hsound.indexed.events hev hev' (not_not.mpr ⟨hsome, hevent, hdedupe⟩)
        (not_not.mpr ⟨hdedupe ▸ hsome, hevent.symm, hdedupe.symm⟩)
  have hdevice : row.deviceId = row'.deviceId := by
    rw [hsound.single _ row hat (hc ▸ hchannel), hsound.single _ row' hat' (by rw [hc', ← hway]; exact hchannel)]
  have hid : params.deliveryId = params'.deliveryId := by
    have hclashes : row.clashes row' = true ∧ row'.clashes row = true := by
      simp [Delivery.clashes, heventId, hkey, hc, hc', hway, hdevice]
    exact place_unique hsound.indexed.deliveries hat hat' (by simp [hclashes.1]) (by simp [hclashes.2])
  have hnone : (es.map (·.2)).countP (·.label.bounces params.deliveryId) = 0 := by
    refine List.countP_eq_zero.mpr fun g hg hbounces ↦ ?_
    obtain ⟨k, hk⟩ := List.getElem?_of_mem hg
    obtain ⟨o, hg⟩ := makes_of_event hk
    have hjustified := justified_at hrun hg
    generalize g.label = l at hbounces hjustified
    cases l with
    | bounce d =>
      obtain rfl : d = params.deliveryId := by simpa [Step.bounces] using hbounces
      obtain ⟨deliveryIds, hworked, hd⟩ := hjustified
      obtain ⟨r, hr, hpush, -⟩ :=
        hsound.receipts deliveryIds _ ((precedes_end hrun hg).jobs (worked_now hrun hg hworked)) hd
      obtain rfl := Option.some.inj (hat.symm.trans hr)
      exact hchannel (hc.symm.trans hpush)
    | _ => cases hbounces
  have hle := accepts_le hrun params.deliveryId
  rw [hnone] at hle
  obtain ⟨vendor, vendorRef, hl⟩ := hparams
  obtain ⟨vendor', vendorRef', hl'⟩ := hparams'
  exact Makes.unique_of_countP hle he hf (by simp [hl, Step.accepts]) (by simp [hl', Step.accepts, hid])

end Run

theorem told_once {w₀ : World π δ} {cs : List (Call (Step π δ) (World π δ) String)} {es : List (ℕ × Commit π δ)}
    (h₀ : w₀.Fresh) (hrun : Calls (Asks env) w₀ cs w es) : ToldOnce env w es := by
  refine ⟨fun d ↦ ?_, fun i j m n e f params params' he hf ↦ once_off_push hrun h₀ he hf,
    fun i n e params result he hl ↦ ?_⟩
  · have hle := accepts_le hrun d
    rw [List.countP_map, List.countP_map] at hle
    exact hle
  · have hjustified := justified_at hrun he
    rw [hl] at hjustified
    obtain ⟨-, hworked, row, hclaimed, ev, trigger, recipient, haddressed⟩ := hjustified
    have hsound := (sound_throughout hrun h₀).2
    obtain ⟨row', hrow', hchannel⟩ := (hsound i n e he).deliver _ _ (worked_now hrun he hworked)
    obtain ⟨-, row'', hrow'', hbecomes⟩ := claimed_now hrun he hclaimed
    obtain rfl := Option.some.inj (hrow'.symm.trans hrow'')
    refine ⟨row, ev, trigger, recipient, hclaimed, hbecomes.channel.symm.trans hchannel, haddressed, fun hpush ↦ ?_, ?_⟩
    · refine live_of_found haddressed hpush fun f hf ↦ ?_
      obtain ⟨j, -, hf⟩ := makes_of_own hf
      exact (hsound j n f hf).indexed
    · exact wanted_at hrun h₀ he hclaimed haddressed.event haddressed.registered

/-! ### Two producers with one key, and a job that is delivered twice -/

def sampleEnv : Env ℕ Unit where
  trigger event := if event = ['p'] then some {
      channels := [.sms, .push], category := .money, alwaysOn := false, dedupeKey := some fun _ ↦ ['k'],
      resolve := fun userId _ ↦ [⟨(.user, userId), some ['9'], none, []⟩], rendered := fun _ _ ↦ ['h', 'i'] }
    else none
  NOTIFY_ENABLED := true
  NOTIFY_STRANDED_MINUTES := 5

def sampleAnswer (_ : ChannelSendParams) : Except Text ChannelResult := .ok (.ok .msg91 none)

def sampleAsked : List (Request ℕ Unit Unit) :=
  [(NotificationService.emit sampleEnv ['p'] 7 0).ignore, (NotificationService.emit sampleEnv ['p'] 7 0).ignore,
    working (.fanout 0) (fanout sampleEnv 0 1), working (.deliver .sms 0) (deliver sampleEnv sampleAnswer .sms 0),
    working (.deliver .sms 0) (deliver sampleEnv sampleAnswer .sms 0)]

theorem sampleAsked_asks : ∀ p ∈ sampleAsked, Asks sampleEnv p := by
  simp only [sampleAsked, List.forall_mem_cons, List.not_mem_nil, false_imp_iff, implies_true, and_true]
  exact ⟨.emit _ _ _, .emit _ _ _, .fanout _ _, .deliver _ _ _, .deliver _ _ _⟩

def World.quiet : World ℕ Unit := ⟨(), [], [], [], [], []⟩

def toldRun (asked : List (Request ℕ Unit Unit)) (turns : List ℕ) :
    List (Call (Step ℕ Unit) (World ℕ Unit) String) × World ℕ Unit × List (ℕ × Commit ℕ Unit) :=
  takeTurns turns (asked.map fun p ↦ ⟨p, p⟩) .quiet

theorem toldRun_calls {asked : List (Request ℕ Unit Unit)} (hasked : ∀ p ∈ asked, Asks sampleEnv p) (turns : List ℕ) :
    Calls (Asks sampleEnv) .quiet (toldRun asked turns).1 (toldRun asked turns).2.1 (toldRun asked turns).2.2 := by
  simpa [toldRun] using (Calls.start.askAll hasked).takeTurns turns

def sampleTurns : List ℕ :=
  (List.replicate 4 [0, 1]).flatten ++ List.replicate 8 2 ++ (List.replicate 8 [3, 4]).flatten

/-- One event, and one message for it. -/
theorem told_once_sample :
    (toldRun sampleAsked sampleTurns).2.1.events.length = 1 ∧
      (toldRun sampleAsked sampleTurns).2.2.countP (fun x ↦ x.2.label.accepts 0) = 1 ∧
      ToldOnce sampleEnv (toldRun sampleAsked sampleTurns).2.1 (toldRun sampleAsked sampleTurns).2.2 :=
  ⟨by decide, by decide, told_once ⟨by simp [World.quiet], rfl, rfl, rfl⟩ (toldRun_calls sampleAsked_asks _)⟩

end Towing.Notifications
