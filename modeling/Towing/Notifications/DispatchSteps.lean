import Towing.Notifications.Dispatcher
import Towing.Process.Permits

namespace Towing.Notifications

open Towing.Process NotificationService NotificationDispatcherService DeviceRegistryService

variable {π δ : Type}

abbrev Commit (π δ : Type) := Event (Step π δ) (World π δ)

/-- A send that the vendor took. -/
def Step.accepts (deliveryId : ℕ) : Step π δ → Bool
  | .send params (.ok (.ok _ _)) => params.deliveryId = deliveryId
  | _ => false

def Step.fails (deliveryId : ℕ) : Step π δ → Bool
  | .fail d _ _ => d = deliveryId
  | _ => false

/-- A receipt that reports an error. -/
def Step.bounces (deliveryId : ℕ) : Step π δ → Bool
  | .bounce d _ => d = deliveryId
  | _ => false

/-- What a claim ends with. -/
def Step.settles : Step π δ → Bool
  | .send _ (.ok (.ok _ _)) | .fail _ _ _ => true
  | _ => false

def Claims (deliveryId : ℕ) (e : Commit π δ) : Bool :=
  match e.label with
  | .claim d => d = deliveryId && (e.before.claimable d).isSome
  | _ => false

/-! ### What a step leaves of the tables -/

variable {w : World π δ} {d : ℕ}

theorem claimable_eq_some {row : Delivery} (h : w.claimable d = some row) :
    w.deliveries[d]? = some row ∧ row.waits = true :=
  Option.filter_eq_some_iff.mp h

/-- The columns that no step writes, and that a row is never skipped later. -/
structure Delivery.Becomes (row row' : Delivery) : Prop where
  eventId : row'.eventId = row.eventId
  recipientKey : row'.recipientKey = row.recipientKey
  channel : row'.channel = row.channel
  deviceId : row'.deviceId = row.deviceId
  skipReason : row'.skipReason = row.skipReason
  skipped : row'.status = .skipped → row.status = .skipped

theorem Delivery.Becomes.refl (row : Delivery) : row.Becomes row := ⟨rfl, rfl, rfl, rfl, rfl, id⟩

theorem Delivery.Becomes.trans {row row' row'' : Delivery} (h : row.Becomes row') (h' : row'.Becomes row'') :
    row.Becomes row'' :=
  ⟨h'.eventId.trans h.eventId, h'.recipientKey.trans h.recipientKey, h'.channel.trans h.channel,
    h'.deviceId.trans h.deviceId, h'.skipReason.trans h.skipReason, fun hs ↦ h.skipped (h'.skipped hs)⟩

structure EventRow.Becomes (ev ev' : EventRow π) : Prop where
  event : ev'.event = ev.event
  payload : ev'.payload = ev.payload
  dedupeKey : ev'.dedupeKey = ev.dedupeKey

theorem EventRow.Becomes.refl (ev : EventRow π) : ev.Becomes ev := ⟨rfl, rfl, rfl⟩

theorem EventRow.Becomes.trans {ev ev' ev'' : EventRow π} (h : ev.Becomes ev') (h' : ev'.Becomes ev'') :
    ev.Becomes ev'' :=
  ⟨h'.event.trans h.event, h'.payload.trans h.payload, h'.dedupeKey.trans h.dedupeKey⟩

/-- The rows that are not there yet are appended. -/
theorem foldl_insertDelivery (new rows : List Delivery) :
    ∃ added, new.foldl insertDelivery rows = rows ++ added ∧ ∀ row ∈ added, row ∈ new := by
  induction new generalizing rows with
  | nil => exact ⟨[], (List.append_nil rows).symm, by simp⟩
  | cons x new ih =>
    obtain ⟨added, hadded, hmem⟩ := ih (insertDelivery rows x)
    have hlater : ∀ row ∈ added, row ∈ x :: new := fun row hrow ↦ List.mem_cons_of_mem x (hmem row hrow)
    rw [List.foldl_cons, hadded]
    unfold insertDelivery
    split_ifs
    · exact ⟨added, rfl, hlater⟩
    · exact ⟨x :: added, List.append_assoc .., List.forall_mem_cons.mpr ⟨List.mem_cons_self, hlater⟩⟩

theorem getElem?_appended {α : Type} {xs ys : List α} {i : ℕ} {x : α} (hx : xs[i]? = some x) :
    (xs ++ ys)[i]? = some x :=
  (List.getElem?_append_left (List.getElem?_eq_some_iff.mp hx).1).trans hx

theorem getElem?_modified {α : Type} {xs : List α} {i j : ℕ} {x : α} {f : α → α} {R : α → α → Prop}
    (hx : xs[i]? = some x) (hrefl : R x x) (hf : R x (f x)) : ∃ y, (xs.modify j f)[i]? = some y ∧ R x y := by
  rw [List.getElem?_modify, hx]
  by_cases hji : j = i
  · exact ⟨f x, by simp [hji], hf⟩
  · exact ⟨x, by simp [hji], hrefl⟩

theorem delivery_kept {row : Delivery} (h : w.deliveries[d]? = some row) (l : Step π δ) :
    ∃ row', (w.run l).deliveries[d]? = some row' ∧ row.Becomes row' := by
  cases l with
  | insert rows =>
    obtain ⟨added, hadded, -⟩ := foldl_insertDelivery rows w.deliveries
    refine ⟨row, ?_, .refl row⟩
    show (rows.foldl insertDelivery w.deliveries)[d]? = some row
    rw [hadded]
    exact getElem?_appended h
  | sent | fail | bounce => exact getElem?_modified h (.refl row) ⟨rfl, rfl, rfl, rfl, rfl, fun hs ↦ by cases hs⟩
  | claim =>
    refine getElem?_modified h (.refl row) ?_
    unfold Delivery.claimed
    split_ifs
    · exact ⟨rfl, rfl, rfl, rfl, rfl, fun hs ↦ by cases hs⟩
    · exact .refl row
  | record =>
    refine ⟨row, ?_, .refl row⟩
    rw [World.run]
    split_ifs
    · exact h
    · exact h
  | _ => exact ⟨row, h, .refl row⟩

theorem event_kept {eventId : ℕ} {ev : EventRow π} (h : w.events[eventId]? = some ev) (l : Step π δ) :
    ∃ ev', (w.run l).events[eventId]? = some ev' ∧ ev.Becomes ev' := by
  cases l with
  | stamp => exact getElem?_modified h (.refl ev) ⟨rfl, rfl, rfl⟩
  | record =>
    refine ⟨ev, ?_, .refl ev⟩
    rw [World.run]
    split_ifs
    · exact h
    · exact getElem?_appended h
  | _ => exact ⟨ev, h, .refl ev⟩

theorem job_new {job : Job} {l : Step π δ} (h : job ∈ (w.run l).jobs) : job ∈ w.jobs ∨ l = .enqueue job := by
  cases l with
  | enqueue job' =>
    rcases List.mem_append.mp h with h | h
    · exact .inl h
    · exact .inr (List.mem_singleton.mp h ▸ rfl)
  | record =>
    rw [World.run] at h
    split_ifs at h
    · exact .inl h
    · exact .inl h
  | _ => exact .inl h

/-- A row that was not there has been inserted by this step. -/
theorem delivery_new {row : Delivery} {l : Step π δ} (h : (w.run l).deliveries[d]? = some row)
    (hnew : w.deliveries[d]? = none) : ∃ rows, l = .insert rows ∧ row ∈ rows := by
  have hmodify (i : ℕ) (f : Delivery → Delivery) (h : (w.deliveries.modify i f)[d]? = some row) : False := by
    rw [List.getElem?_modify, hnew] at h
    cases h
  have hsame (h : w.deliveries[d]? = some row) : False := by
    rw [hnew] at h
    cases h
  cases l with
  | insert rows =>
    refine ⟨rows, rfl, ?_⟩
    obtain ⟨added, hadded, hmem⟩ := foldl_insertDelivery rows w.deliveries
    replace h : (rows.foldl insertDelivery w.deliveries)[d]? = some row := h
    rw [hadded, List.getElem?_append_right (List.getElem?_eq_none_iff.mp hnew)] at h
    exact hmem row (List.mem_of_getElem? h)
  | claim i => exact (hmodify i _ h).elim
  | sent i => exact (hmodify i _ h).elim
  | fail i => exact (hmodify i _ h).elim
  | bounce i => exact (hmodify i _ h).elim
  | record =>
    rw [World.run] at h
    split_ifs at h
    · exact (hsame h).elim
    · exact (hsame h).elim
  | _ => exact (hsame h).elim

/-! ### The unique indexes -/

/-- What `uq_notification_events_dedupe` forbids. -/
def EventRow.Repeats (ev ev' : EventRow π) : Prop :=
  ev.dedupeKey.isSome = true ∧ ev.event = ev'.event ∧ ev.dedupeKey = ev'.dedupeKey

structure World.Indexed (w : World π δ) : Prop where
  devices : w.devices.Pairwise fun d d' ↦ d.shares d' = false
  events : w.events.Pairwise fun ev ev' ↦ ¬ev.Repeats ev'
  deliveries : w.deliveries.Pairwise fun row row' ↦ row.clashes row' = false

theorem pairwise_modify {α : Type} {R : α → α → Prop} {xs : List α} {f : α → α} (h : xs.Pairwise R) (i : ℕ)
    (hf : ∀ x y, R x y → R (f x) y ∧ R x (f y)) : (xs.modify i f).Pairwise R := by
  induction xs generalizing i with
  | nil =>
    rw [List.modify_nil]
    exact h
  | cons x xs ih =>
    obtain ⟨hx, hxs⟩ := List.pairwise_cons.mp h
    cases i with
    | zero => exact List.pairwise_cons.mpr ⟨fun y hy ↦ (hf x y (hx y hy)).1, hxs⟩
    | succ i =>
      rw [List.modify_succ_cons]
      refine List.pairwise_cons.mpr ⟨fun y hy ↦ ?_, ih hxs i⟩
      obtain ⟨j, hj⟩ := List.getElem?_of_mem hy
      rw [List.getElem?_modify, Option.map_eq_map, Option.map_eq_some_iff] at hj
      obtain ⟨z, hz, rfl⟩ := hj
      have hxz := hx z (List.mem_of_getElem? hz)
      split_ifs
      · exact (hf x z hxz).2
      · exact hxz

theorem pairwise_snoc {α : Type} {R : α → α → Prop} {xs : List α} {x : α} (h : xs.Pairwise R)
    (hx : ∀ y ∈ xs, R y x) : (xs ++ [x]).Pairwise R :=
  List.pairwise_append.mpr ⟨h, List.pairwise_singleton R x, fun y hy _ hz ↦ List.mem_singleton.mp hz ▸ hx y hy⟩

theorem insertDelivery_pairwise {rows : List Delivery} (h : rows.Pairwise fun row row' ↦ row.clashes row' = false)
    (row : Delivery) : (insertDelivery rows row).Pairwise fun row row' ↦ row.clashes row' = false := by
  unfold insertDelivery
  split_ifs with hany
  · exact h
  · apply pairwise_snoc h
    intro y hy
    by_contra hclash
    exact hany (List.any_eq_true.mpr ⟨y, hy, by simpa using hclash⟩)

theorem revoke_shares (d d' : Device) : d.revoke.shares d' = false ∧ d'.shares d.revoke = false := by
  simp [Device.revoke, Device.shares]

theorem indexed_run (h : w.Indexed) (l : Step π δ) : (w.run l).Indexed := by
  have hdeliveries (i : ℕ) {f : Delivery → Delivery} (hf : ∀ row : Delivery, row.Becomes (f row)) :
      ({ w with deliveries := w.deliveries.modify i f } : World π δ).Indexed := by
    refine ⟨h.devices, h.events, pairwise_modify h.deliveries i fun row row' hrow ↦ ?_⟩
    constructor
    · simpa [Delivery.clashes, (hf row).eventId, (hf row).recipientKey, (hf row).channel, (hf row).deviceId] using hrow
    · simpa [Delivery.clashes, (hf row').eventId, (hf row').recipientKey, (hf row').channel, (hf row').deviceId]
        using hrow
  cases l with
  | look | send | enqueue | move => exact ⟨h.devices, h.events, h.deliveries⟩
  | record event payload dedupeKey inbox now =>
    rw [World.run]
    split_ifs with hcollapses
    · exact h
    · refine ⟨h.devices, pairwise_snoc h.events ?_, h.deliveries⟩
      rintro ev hev ⟨hsome, hevent, hkey⟩
      apply hcollapses
      simp only [World.collapses, Bool.and_eq_true]
      refine ⟨by rwa [hkey] at hsome, List.any_eq_true.mpr ⟨ev, hev, ?_⟩⟩
      simp [hevent, hkey]
  | insert rows =>
    refine ⟨h.devices, h.events, ?_⟩
    show (rows.foldl insertDelivery w.deliveries).Pairwise _
    have hrows := h.deliveries
    generalize w.deliveries = old at hrows
    induction rows generalizing old with
    | nil => exact hrows
    | cons row rows ih => exact ih _ (insertDelivery_pairwise hrows row)
  | stamp eventId now => exact ⟨h.devices, pairwise_modify h.events eventId fun _ _ hev ↦ ⟨hev, hev⟩, h.deliveries⟩
  | claim i =>
    apply hdeliveries
    intro row
    unfold Delivery.claimed
    split_ifs
    · exact ⟨rfl, rfl, rfl, rfl, rfl, fun hs ↦ by cases hs⟩
    · exact .refl row
  | sent i | fail i | bounce i => exact hdeliveries i fun row ↦ ⟨rfl, rfl, rfl, rfl, rfl, fun hs ↦ by cases hs⟩
  | revokeDevice i =>
    refine ⟨pairwise_modify h.devices i fun d d' _ ↦ ?_, h.events, h.deliveries⟩
    exact ⟨(revoke_shares d d').1, (revoke_shares d' d).2⟩
  | upsert device =>
    refine ⟨?_, h.events, h.deliveries⟩
    show ((Device.upserted w.devices device).getD w.devices).Pairwise _
    cases hu : Device.upserted w.devices device with
    | none => exact h.devices
    | some rows =>
      obtain ⟨hpairwise, hrows⟩ := ite_eq_iff.mp hu |>.resolve_right fun hno ↦ by simp at hno
      cases hrows
      exact hpairwise
  | unregister subjectType subjectId installationId =>
    refine ⟨h.devices.map _ fun d d' hshares ↦ ?_, h.events, h.deliveries⟩
    split_ifs
    · exact (revoke_shares d _).1
    · exact (revoke_shares d d').1
    · exact (revoke_shares d' d).2
    · exact hshares

/-! ### What a request has read before a step -/

variable {env : Env π δ} {past : List (Commit π δ)}

/-- The recipient as it was resolved, its contact at one moment and its devices at another. -/
def Found (past : List (Commit π δ)) (trigger : RegisteredTrigger π δ) (payload : π) (recipient : Recipient) : Prop :=
  (∃ e ∈ past, recipient.toContact ∈ trigger.resolve payload e.before.directory) ∧
    ∃ e ∈ past, recipient.pushTokens = e.before.pushTokensFor recipient.key

def ReadEvent (past : List (Commit π δ)) (eventId : ℕ) (ev : EventRow π) : Prop :=
  ∃ e ∈ past, e.before.events[eventId]? = some ev

def Claimed (past : List (Commit π δ)) (d : ℕ) (row : Delivery) : Prop :=
  ∃ e ∈ past, e.label = .claim d ∧ e.before.claimable d = some row

def Worked (past : List (Commit π δ)) (job : Job) : Prop := ∃ e ∈ past, job ∈ e.before.jobs

def Calm (past : List (Commit π δ)) : Prop := ∀ e ∈ past, e.label.settles = false

def Enqueued (past : List (Commit π δ)) : Job → Prop
  | .fanout _ => True
  | .deliver channel d => ∃ e ∈ past, ∃ row, e.before.deliveries[d]? = some row ∧ row.channel = channel
  | .receipts deliveryIds => ∃ d, deliveryIds = [d] ∧ Worked past (.deliver .push d) ∧ ∃ row, Claimed past d row

/-- The event of a claimed delivery, its trigger and its recipient, as a send has read them. -/
structure Addressed (env : Env π δ) (past : List (Commit π δ)) (row : Delivery) (params : ChannelSendParams)
    (ev : EventRow π) (trigger : RegisteredTrigger π δ) (recipient : Recipient) : Prop where
  event : ReadEvent past row.eventId ev
  registered : env.trigger ev.event = some trigger
  found : Found past trigger ev.payload recipient
  key : recipient.key = row.recipientKey
  address : rawDestination params.channel row.deviceId recipient = some params.address
  body : params.body = trigger.rendered ev.payload recipient

def Justified (env : Env π δ) (past : List (Commit π δ)) : Step π δ → Prop
  | .enqueue job => Enqueued past job
  | .insert rows => ∀ row ∈ rows, ∃ ev trigger recipient now, ReadEvent past row.eventId ev ∧
      env.trigger ev.event = some trigger ∧ Found past trigger ev.payload recipient ∧
      row ∈ deliveryRowsFor env row.eventId now trigger recipient
  | .send params _ => Calm past ∧ Worked past (.deliver params.channel params.deliveryId) ∧
      ∃ row, Claimed past params.deliveryId row ∧
        ∃ ev trigger recipient, Addressed env past row params ev trigger recipient
  | .sent d _ _ => ∃ row, Claimed past d row
  | .fail d _ _ => Calm past ∧ ∃ row, Claimed past d row
  | .bounce d _ => ∃ deliveryIds, Worked past (.receipts deliveryIds) ∧ d ∈ deliveryIds
  | _ => True

theorem Calm.snoc (h : Calm past) {e : Commit π δ} (he : e.label.settles = false) : Calm (past ++ [e]) :=
  forall_mem_concat h he

theorem subset_snoc (past : List (Commit π δ)) (e : Commit π δ) : past ⊆ past ++ [e] := List.subset_append_left _ _

theorem Found.mono {past past' : List (Commit π δ)} {trigger : RegisteredTrigger π δ} {payload : π}
    {recipient : Recipient} (h : Found past trigger payload recipient) (hsub : past ⊆ past') :
    Found past' trigger payload recipient := by
  obtain ⟨⟨e, he, hcontact⟩, ⟨f, hf, htokens⟩⟩ := h
  exact ⟨⟨e, hsub he, hcontact⟩, ⟨f, hsub hf, htokens⟩⟩

theorem ReadEvent.mono {past past' : List (Commit π δ)} {eventId : ℕ} {ev : EventRow π} (h : ReadEvent past eventId ev)
    (hsub : past ⊆ past') : ReadEvent past' eventId ev := by
  obtain ⟨e, he, hev⟩ := h
  exact ⟨e, hsub he, hev⟩

theorem Claimed.mono {past past' : List (Commit π δ)} {row : Delivery} (h : Claimed past d row) (hsub : past ⊆ past') :
    Claimed past' d row := by
  obtain ⟨e, he, hclaim⟩ := h
  exact ⟨e, hsub he, hclaim⟩

theorem Worked.mono {past past' : List (Commit π δ)} {job : Job} (h : Worked past job) (hsub : past ⊆ past') :
    Worked past' job := by
  obtain ⟨e, he, hjob⟩ := h
  exact ⟨e, hsub he, hjob⟩

theorem heeds_tokensFor (contacts : List Contact) (h : Calm past) :
    (tokensFor contacts).Heeds (Justified env) (fun r past' ↦ past ⊆ past' ∧ Calm past' ∧
      ∀ recipients, r = .ok recipients → ∀ recipient ∈ recipients, recipient.toContact ∈ contacts ∧
        ∃ e ∈ past', recipient.pushTokens = e.before.pushTokensFor recipient.key) past := by
  induction contacts generalizing past with
  | nil => exact ⟨List.Subset.refl _, h, by rintro _ ⟨⟩ _ ⟨⟩⟩
  | cons contact contacts ih =>
    refine ⟨trivial, fun s ↦ ?_⟩
    apply (ih (h.snoc rfl)).bind
    · rintro recipients past' ⟨hsub, hcalm, hrecipients⟩
      refine ⟨List.Subset.trans (subset_snoc past _) hsub, hcalm, ?_⟩
      rintro _ ⟨⟩ recipient hrecipient
      rcases List.mem_cons.mp hrecipient with rfl | hrecipient
      · exact ⟨List.mem_cons_self, _, hsub List.mem_concat_self, rfl⟩
      · obtain ⟨hcontact, htokens⟩ := hrecipients recipients rfl recipient hrecipient
        exact ⟨List.mem_cons_of_mem _ hcontact, htokens⟩
    · rintro e past' ⟨hsub, hcalm, -⟩
      exact ⟨List.Subset.trans (subset_snoc past _) hsub, hcalm, fun _ hok ↦ by cases hok⟩

/-- Only reads, and what they find. -/
theorem heeds_asResolve (trigger : RegisteredTrigger π δ) (payload : π) (h : Calm past) :
    (asResolve trigger payload).Heeds (Justified env) (fun r past' ↦ past ⊆ past' ∧ Calm past' ∧
      ∀ recipients, r = .ok recipients → ∀ recipient ∈ recipients, Found past' trigger payload recipient) past := by
  refine ⟨trivial, fun s ↦ ?_⟩
  apply (heeds_tokensFor (trigger.resolve payload s.directory) (h.snoc rfl)).mono (fun _ _ hl ↦ hl)
  rintro r past' ⟨hsub, hcalm, hrecipients⟩
  refine ⟨List.Subset.trans (subset_snoc past _) hsub, hcalm, fun recipients hr recipient hrecipient ↦ ?_⟩
  obtain ⟨hcontact, htokens⟩ := hrecipients recipients hr recipient hrecipient
  exact ⟨⟨_, hsub List.mem_concat_self, hcontact⟩, htokens⟩

theorem heeds_enqueueAll {jobs : List Job} {Q : Except String Unit → List (Commit π δ) → Prop}
    (hjobs : ∀ job ∈ jobs, ∀ past', past ⊆ past' → Enqueued past' job)
    (hQ : ∀ past', past ⊆ past' → Q (.ok ()) past') : (enqueueAll jobs).Heeds (Justified env) Q past := by
  suffices H : ∀ past', past ⊆ past' → (enqueueAll jobs).Heeds (Justified env) Q past' from H past (List.Subset.refl _)
  induction jobs with
  | nil => exact hQ
  | cons job jobs ih =>
    intro past' hsub
    refine ⟨hjobs job List.mem_cons_self past' hsub, fun s ↦ ?_⟩
    apply ih fun job' hjob' ↦ hjobs job' (List.mem_cons_of_mem _ hjob')
    exact List.Subset.trans hsub (subset_snoc past' _)

theorem mem_deliveryRowsFor {eventId now : ℕ} {trigger : RegisteredTrigger π δ} {recipient : Recipient} {row : Delivery}
    (h : row ∈ deliveryRowsFor env eventId now trigger recipient) : row.eventId = eventId ∧
      row.recipientKey = recipient.key ∧ (row.channel ≠ .push → row.deviceId = none) ∧
      (row.skipReason.isSome = true → row.status = .skipped) ∧ (row.skipReason = none →
        PreferenceService.suppresses recipient trigger = false ∧ env.NOTIFY_ENABLED = true) := by
  obtain ⟨channel, -, hrow⟩ := List.mem_flatMap.mp h
  dsimp only at hrow
  split_ifs at hrow with hsuppressed henabled hpush hnone hno
  case neg =>
    obtain ⟨device, -, rfl⟩ := List.mem_map.mp hrow
    simp_all
  all_goals
    obtain rfl := List.mem_singleton.mp hrow
    simp_all

theorem mem_queued {w : World π δ} {p : Delivery → Bool} {x : ℕ × NotificationChannel} (h : x ∈ w.queued p) :
    ∃ row, w.deliveries[x.1]? = some row ∧ row.channel = x.2 := by
  obtain ⟨⟨row, id⟩, hmem, hx⟩ := List.mem_filterMap.mp h
  dsimp only at hx
  split_ifs at hx
  cases hx
  exact ⟨row, List.mk_mem_zipIdx_iff_getElem?.mp hmem, rfl⟩

theorem enqueued_deliver {s : World π δ} {rows : List (ℕ × NotificationChannel)} {p : Delivery → Bool}
    (hrows : ∀ x ∈ rows, x ∈ s.queued p) {e : Commit π δ} (he : e ∈ past) (hs : e.before = s) :
    ∀ job ∈ deliverJobs rows, ∀ past', past ⊆ past' → Enqueued past' job := by
  intro job hjob past' hsub
  obtain ⟨x, hx, rfl⟩ := List.mem_map.mp hjob
  exact ⟨e, hsub he, hs ▸ mem_queued (hrows x hx)⟩

theorem heeds_revokeDevice {Q : Except String Unit → List (Commit π δ) → Prop} (error : Option Text)
    (deviceId : Option ℕ) (hQ : ∀ past', past ⊆ past' → Q (.ok ()) past') : (revokeDevice error deviceId).Heeds (Justified env) Q past := by
  cases deviceId with
  | none => exact hQ past (List.Subset.refl _)
  | some deviceId =>
    apply Proc.Heeds.when
    · exact fun _ ↦ ⟨trivial, fun _ ↦ hQ _ (subset_snoc past _)⟩
    · exact fun _ ↦ hQ past (List.Subset.refl _)

theorem heeds_emit (event : Text) (payload : π) (now : ℕ) :
    (emit env event payload now).ignore.Heeds (Justified env) (fun _ _ ↦ True) [] := by
  unfold emit
  cases env.trigger event with
  | none => trivial
  | some trigger =>
    dsimp only
    split_ifs
    · trivial
    · have hcalm : Calm ([] : List (Commit π δ)) := fun e he ↦ by cases he
      show Proc.Heeds _ _ _ (Proc.bind (Proc.bind _ _) _)
      rw [Proc.bind_assoc]
      apply (heeds_asResolve trigger payload hcalm).bind
      · intro recipients past _
        refine ⟨trivial, fun s ↦ ?_⟩
        dsimp only [Proc.bind_eq, Proc.bind_ok]
        split_ifs
        · trivial
        · exact ⟨trivial, fun _ ↦ trivial⟩
      · exact fun _ _ _ ↦ trivial

theorem heeds_fanout (eventId now : ℕ) (h : Calm past) :
    (fanout env eventId now).Heeds (Justified env) (fun _ _ ↦ True) past := by
  refine ⟨trivial, fun s ↦ ?_⟩
  dsimp only [Proc.bind_eq, Proc.bind_ok]
  cases hread : ((s.events[eventId]?).filter (·.fannedOutAt.isNone)).bind
      fun ev ↦ (env.trigger ev.event).map (ev, ·) with
  | none => trivial
  | some found =>
    obtain ⟨ev, trigger⟩ := found
    obtain ⟨ev', hev, hmap⟩ := Option.bind_eq_some_iff.mp hread
    obtain ⟨trigger', htrigger, hpair⟩ := Option.map_eq_some_iff.mp hmap
    cases hpair
    have hrow : ReadEvent (past ++ [⟨.look, s, s⟩]) eventId ev :=
      ⟨_, List.mem_concat_self, (Option.filter_eq_some_iff.mp hev).1⟩
    apply (heeds_asResolve trigger ev.payload (h.snoc rfl)).bind
    · rintro recipients past' ⟨hsub, -, hfound⟩
      apply Proc.Heeds.bind (Q := fun _ past'' ↦ past' ⊆ past'')
      · apply Proc.Heeds.when
        · refine fun _ ↦ ⟨fun row hmem ↦ ?_, fun _ ↦ subset_snoc past' _⟩
          obtain ⟨recipient, hrecipient, hrows⟩ := List.mem_flatMap.mp hmem
          obtain rfl : row.eventId = eventId := (mem_deliveryRowsFor hrows).1
          exact ⟨ev, trigger, recipient, now, hrow.mono hsub, htrigger, hfound recipients rfl recipient hrecipient,
            hrows⟩
        · exact fun _ ↦ List.Subset.refl _
      · intro _ past'' _
        refine ⟨trivial, fun s' ↦ ?_⟩
        dsimp only [Proc.bind_eq, Proc.bind_ok]
        apply Proc.Heeds.bind (Q := fun _ _ ↦ True)
        · apply heeds_enqueueAll
          · exact enqueued_deliver (fun x hx ↦ hx) List.mem_concat_self rfl
          · exact fun _ _ ↦ trivial
        · exact fun _ _ _ ↦ ⟨trivial, fun _ ↦ trivial⟩
        · exact fun _ _ _ ↦ trivial
      · exact fun _ _ _ ↦ trivial
    · exact fun _ _ _ ↦ trivial

theorem heeds_markFailed {row : Delivery} (reason : Text) (hcalm : Calm past) (hclaimed : Claimed past d row) :
    (markFailed d reason).Heeds (Justified env) (fun _ _ ↦ True) past :=
  ⟨⟨hcalm, row, hclaimed⟩, fun _ ↦ trivial⟩

/-- What the vendor answers is written of the delivery that has been claimed. -/
theorem heeds_send (answer : ChannelSendParams → Except Text ChannelResult) {row : Delivery}
    {params : ChannelSendParams} (hcalm : Calm past) (hclaimed : Claimed past params.deliveryId row)
    (hworked : Worked past (.deliver params.channel params.deliveryId))
    (haddressed : ∃ ev trigger recipient, Addressed env past row params ev trigger recipient) :
    (send answer row params).Heeds (Justified env) (fun _ _ ↦ True) past := by
  refine ⟨⟨hcalm, hworked, row, hclaimed, haddressed⟩, fun s ↦ ?_⟩
  dsimp only [Proc.bind_eq, Proc.bind_ok]
  have hsub := subset_snoc past ⟨.send params (answer params), s, s⟩
  generalize hresult : answer params = result
  rw [hresult] at hsub
  cases result with
  | error e => trivial
  | ok result =>
    cases result with
    | ok vendor vendorRef =>
      refine ⟨⟨row, hclaimed.mono hsub⟩, fun s' ↦ ?_⟩
      apply Proc.Heeds.when
      · rintro ⟨hpush, -⟩
        refine ⟨⟨params.deliveryId, rfl, ?_, row, ?_⟩, fun _ ↦ trivial⟩
        · rw [hpush] at hworked
          exact (hworked.mono hsub).mono (subset_snoc _ _)
        · exact (hclaimed.mono hsub).mono (subset_snoc _ _)
      · exact fun _ ↦ trivial
    | failed vendor retryable code message =>
      refine ⟨⟨hcalm.snoc rfl, row, hclaimed.mono hsub⟩, fun s' ↦ ?_⟩
      dsimp only [Proc.bind_eq, Proc.bind_ok]
      apply Proc.Heeds.bind (Q := fun _ _ ↦ True)
      · exact heeds_revokeDevice _ _ fun _ _ ↦ trivial
      · intro _ _ _
        apply Proc.Heeds.when
        · exact fun _ ↦ trivial
        · exact fun _ ↦ trivial
      · exact fun _ _ _ ↦ trivial

theorem heeds_deliver (answer : ChannelSendParams → Except Text ChannelResult) (channel : NotificationChannel) (d : ℕ)
    (h : Calm past) (hworked : Worked past (.deliver channel d)) :
    (deliver env answer channel d).Heeds (Justified env) (fun _ _ ↦ True) past := by
  refine ⟨trivial, fun s ↦ ?_⟩
  dsimp only [Proc.bind_eq, Proc.bind_ok]
  cases hclaim : s.claimable d with
  | none => trivial
  | some row =>
    refine ⟨trivial, fun s₁ ↦ ?_⟩
    dsimp only [Proc.bind_eq, Proc.bind_ok]
    have hcalm : Calm (past ++ [⟨.claim d, s, s.run (.claim d)⟩] ++ [⟨.look, s₁, s₁⟩]) := (h.snoc rfl).snoc rfl
    have hsub : past ⊆ past ++ [⟨.claim d, s, s.run (.claim d)⟩] ++ [⟨.look, s₁, s₁⟩] :=
      List.Subset.trans (subset_snoc _ _) (subset_snoc _ _)
    have hclaimed : Claimed (past ++ [⟨.claim d, s, s.run (.claim d)⟩] ++ [⟨.look, s₁, s₁⟩]) d row :=
      ⟨_, List.mem_append_left _ List.mem_concat_self, rfl, hclaim⟩
    cases hread : (s₁.events[row.eventId]?).bind fun ev ↦ (env.trigger ev.event).map (ev, ·) with
    | none => exact heeds_markFailed _ hcalm hclaimed
    | some found =>
      obtain ⟨ev, trigger⟩ := found
      obtain ⟨ev', hev, hmap⟩ := Option.bind_eq_some_iff.mp hread
      obtain ⟨trigger', htrigger, hpair⟩ := Option.map_eq_some_iff.mp hmap
      cases hpair
      have hrow : ReadEvent (past ++ [⟨.claim d, s, s.run (.claim d)⟩] ++ [⟨.look, s₁, s₁⟩]) row.eventId ev :=
        ⟨_, List.mem_concat_self, hev⟩
      apply (heeds_asResolve trigger ev.payload hcalm).bind
      · rintro recipients past' ⟨hsub', hcalm', hfound⟩
        cases hrecipient : recipients.find? (·.key = row.recipientKey) with
        | none => exact heeds_markFailed _ hcalm' (hclaimed.mono hsub')
        | some recipient =>
          dsimp only
          cases haddress : rawDestination channel row.deviceId recipient with
          | none => exact heeds_markFailed _ hcalm' (hclaimed.mono hsub')
          | some address =>
            refine ⟨trivial, fun s₂ ↦ ?_⟩
            have hsub₂ := subset_snoc past' (⟨.look, s₂, s₂⟩ : Commit π δ)
            apply heeds_send
            · exact hcalm'.snoc rfl
            · exact (hclaimed.mono hsub').mono hsub₂
            · exact ((hworked.mono hsub).mono hsub').mono hsub₂
            · have hmem := List.mem_of_find?_eq_some hrecipient
              have hkey : recipient.key = row.recipientKey := by simpa using List.find?_some hrecipient
              exact ⟨ev, trigger, recipient, (hrow.mono hsub').mono hsub₂, htrigger,
                (hfound recipients rfl recipient hmem).mono hsub₂, hkey, haddress, rfl⟩
      · exact fun _ _ _ ↦ trivial

theorem heeds_bounceAll {rows : List (Text × ℕ × Option ℕ)} {deliveryIds : List ℕ}
    (hrows : ∀ x ∈ rows, x.2.1 ∈ deliveryIds) (receipts : List (Text × Receipt))
    (hworked : Worked past (.receipts deliveryIds)) :
    (bounceAll rows receipts).Heeds (Justified env) (fun _ _ ↦ True) past := by
  induction receipts generalizing past with
  | nil => trivial
  | cons x receipts ih =>
    obtain ⟨ticket, receipt⟩ := x
    unfold bounceAll
    cases hfind : (rows.reverse.find? (·.1 = ticket)).filter fun _ ↦ receipt.failed with
    | none => exact ih hworked
    | some found =>
      obtain ⟨t, d, deviceId⟩ := found
      have hmem := List.mem_of_find?_eq_some (Option.filter_eq_some_iff.mp hfind).1
      refine ⟨⟨deliveryIds, hworked, hrows _ (List.mem_reverse.mp hmem)⟩, fun s ↦ ?_⟩
      dsimp only [Proc.bind_eq, Proc.bind_ok]
      apply Proc.Heeds.bind (Q := fun _ past' ↦ Worked past' (.receipts deliveryIds))
      · apply heeds_revokeDevice
        exact fun _ hsub ↦ (hworked.mono (subset_snoc past _)).mono hsub
      · exact fun _ _ hworked' ↦ ih hworked'
      · exact fun _ _ _ ↦ trivial

theorem heeds_reconcileReceipts (answer : List Text → List (Text × Receipt)) {deliveryIds : List ℕ}
    (hworked : Worked past (.receipts deliveryIds)) :
    (reconcileReceipts answer deliveryIds).Heeds (Justified env) (fun _ _ ↦ True) past := by
  refine ⟨trivial, fun s ↦ ?_⟩
  dsimp only [Proc.bind_eq, Proc.bind_ok]
  split_ifs
  · trivial
  · refine heeds_bounceAll (fun x hx ↦ ?_) _ (hworked.mono (subset_snoc past _))
    obtain ⟨⟨row, id⟩, -, hrow⟩ := List.mem_filterMap.mp hx
    dsimp only at hrow
    split_ifs at hrow with hid
    obtain ⟨ticket, -, rfl⟩ := Option.map_eq_some_iff.mp hrow
    exact hid

theorem heeds_sweep (now : ℕ) : (sweep env now).Heeds (Justified env) (fun _ _ ↦ True) [] := by
  refine ⟨trivial, fun s ↦ ?_⟩
  dsimp only [Proc.bind_eq, Proc.bind_ok]
  apply Proc.Heeds.bind (Q := fun _ _ ↦ True)
  · apply heeds_enqueueAll
    · intro job hjob past' _
      obtain ⟨id, -, rfl⟩ := List.mem_map.mp hjob
      trivial
    · exact fun _ _ ↦ trivial
  · intro _ past' _
    refine ⟨trivial, fun s' ↦ ?_⟩
    apply heeds_enqueueAll
    · exact enqueued_deliver (fun x hx ↦ List.mem_of_mem_take hx) List.mem_concat_self rfl
    · exact fun _ _ ↦ trivial
  · exact fun _ _ _ ↦ trivial

theorem heeds_working {job : Job} {p : Request π δ Unit}
    (hp : ∀ past : List (Commit π δ), Calm past → Worked past job → p.Heeds (Justified env) (fun _ _ ↦ True) past) :
    (working job p).Heeds (Justified env) (fun _ _ ↦ True) [] := by
  refine ⟨trivial, fun s ↦ ?_⟩
  apply Proc.Heeds.when
  · intro hjob
    apply hp
    · exact fun e he ↦ List.mem_singleton.mp he ▸ rfl
    · exact ⟨_, List.mem_singleton_self _, List.contains_iff_mem.mp hjob⟩
  · exact fun _ ↦ trivial

theorem asks_heeds {p : Request π δ Unit} (h : Asks env p) : p.Heeds (Justified env) (fun _ _ ↦ True) [] := by
  cases h with
  | emit event payload now => exact heeds_emit event payload now
  | fanout eventId now => exact heeds_working fun _ hcalm _ ↦ heeds_fanout eventId now hcalm
  | deliver answer channel d => exact heeds_working fun _ hcalm hworked ↦ heeds_deliver answer channel d hcalm hworked
  | receipts answer deliveryIds => exact heeds_working fun _ _ hworked ↦ heeds_reconcileReceipts answer hworked
  | sweep now => exact heeds_sweep now
  | register device =>
    refine ⟨trivial, fun s ↦ ?_⟩
    apply Proc.Heeds.when
    · exact fun _ ↦ ⟨trivial, fun _ ↦ trivial⟩
    · exact fun _ ↦ trivial
  | unregister | revokeAll | move => exact ⟨trivial, fun _ ↦ trivial⟩

end Towing.Notifications
