import Towing.Sos.Justified
import Towing.Common.Handlers

namespace Towing.Sos

open Towing.Process Towing.Common

/-- The status changes of an alert that a run commits. -/
def history (id : ℕ) (es : List (ℕ × Event Step World)) : List SosStatus :=
  es.filterMap fun x ↦ x.2.before.change id x.2.after

/-- An alert had the status at a moment of the request, no later than its commit `k`. -/
def Stood (es : List (ℕ × Event Step World)) (k n id : ℕ) (status : SosStatus) : Prop :=
  ∃ j f, j ≤ k ∧ Makes es j n f ∧ (f.before.status id = some status ∨ f.after.status id = some status)

/-- What the claim is about, of a run that leaves the tables in `w`. -/
structure OneTruth (es : List (ℕ × Event Step World)) (w : World) : Prop where
  oneOpen : w.OneOpen
  /-- The messages are one an alert, each to its snapshot. -/
  messagedOnce : (w.messages.map (·.1)).Nodup
  messagedWhole : ∀ m ∈ w.messages, m.2 = w.snapshotOf m.1
  /-- Who has raised an alert has had its contacts messaged, unless the message was not taken. -/
  messaged : ∀ k n e id createdAt, Makes es k n e → e.label = .respond (.ok (.created id .triggered createdAt false)) →
    (∃ m ∈ w.messages, m.1 = id) ∨ ∃ j f contacts, Makes es j n f ∧ f.label = .emitTriggered id contacts false
  reports : ∀ k n e response status, Makes es k n e → e.label = .respond (.ok response) →
    response.status = some status → Stood es k n response.alertId status
  refuses : ∀ k n e refusal claim, Makes es k n e → e.label = .respond (.error refusal) → refusal.claim = some claim →
    ∃ j f id status, j < k ∧ Makes es j n f ∧ f.label = .selectAlert id ∧ f.before.status id = some status ∧
      claim status = true
  told : ∀ id, w.told id = history id es
  uncancelled : ∀ i n e id, Makes es i n e → e.before.status id = some .acknowledged →
    e.after.status id ≠ some .cancelled

/-- A cancellation is in time, and a resolution that has lost its update does not find the
alert open when it reads it again. -/
structure InTurn (es : List (ℕ × Event Step World)) : Prop where
  cancel : ∀ i n e, Makes es i n e → e.label.InTime e.before
  resolve : ∀ i j n e f id adminId now resolution expected status, i < j → Makes es i n e → Makes es j n f →
    e.label = .resolve id adminId now resolution expected → e.before.status id ≠ some expected →
    f.label = .selectAlert id → f.before.status id = some status → status.isOpen = false

/-- No alert has been raised yet. -/
structure World.Fresh (w : World) : Prop where
  alerts : w.alerts = []
  timeline : w.timeline = []
  messages : w.messages = []

variable {w w' : World} {cs : List (Call Step World Refusal)} {es : List (ℕ × Event Step World)} {i j k n : ℕ}
  {e f : Event Step World}

theorem justified_of_makes (h : Calls Works w cs w' es) (he : Makes es i n e) :
    Justified (own n (es.take i)) e.label := h.heeds_own (fun _ hp ↦ justified_works hp) he

theorem sound_of_makes (h : Calls Works w cs w' es) (he : Makes es i n e) : e.label.Sound := by
  have hjustified := justified_of_makes h he
  generalize e.label = l at hjustified
  cases hjustified with
  | @aside l haside =>
    cases l with
    | insertEvent event => cases haside
    | resolve id adminId now resolution expected => cases haside
    | _ => trivial
  | insertEvent htells => exact htells
  | emitTriggered _ _ _ => trivial
  | resolve hopen => exact hopen
  | respond _ => trivial

theorem run_of_makes (h : Calls Works w cs w' es) (he : Makes es i n e) : e.after = e.before.run e.label :=
  h.commit_at he

/-- An alert goes forward only. -/
theorem later_of_le (h : Calls Works w cs w' es) (hij : i ≤ j) {m : ℕ} (he : Makes es i n e) (hf : Makes es j m f)
    {id : ℕ} {s : SosStatus} (hs : e.before.status id = some s) : ∃ t, f.before.status id = some t ∧ Later s t := by
  refine h.chained.rel_later (R := fun v v' ↦ ∀ id s, v.status id = some s → ∃ t, v'.status id = some t ∧ Later s t)
    (fun v id s hs ↦ ⟨s, hs, .stays s⟩) (fun u v x huv hvx id s hs ↦ ?_) (fun g hg id s hs ↦ ?_) hij he.event
      hf.event id s hs
  · obtain ⟨t, ht, hst⟩ := huv id s hs
    obtain ⟨t', ht', htt⟩ := hvx id t ht
    exact ⟨t', ht', hst.trans htt⟩
  · obtain ⟨l, hl⟩ := List.getElem?_of_mem hg
    obtain ⟨o, hg⟩ := makes_of_event hl
    rw [run_of_makes h hg]
    exact status_later (sound_of_makes h hg) hs

theorem told_history (h : Calls Works w cs w' es) (hturn : InTurn es) (hfresh : w.Fresh) (id : ℕ) :
    w'.told id = history id es := by
  have hgathered := h.chained.gathered (f := fun v ↦ v.told id) (g := fun e ↦ e.before.change id e.after) fun e he ↦ by
    obtain ⟨l, hl⟩ := List.getElem?_of_mem he
    obtain ⟨o, hg⟩ := makes_of_event hl
    rw [run_of_makes h hg]
    exact told_run (sound_of_makes h hg) (hturn.cancel l o e hg) id
  have hnone : w.told id = [] := by simp [World.told, hfresh.timeline]
  rw [hnone, List.nil_append, List.filterMap_map] at hgathered
  exact hgathered

theorem one_open (h : Calls Works w cs w' es) (hfresh : w.Fresh) : w'.OneOpen := by
  refine (h.kept (I := World.OneOpen) (fun i j a b ha ↦ ?_) fun j m f hf hI ↦ ?_).1
  · rw [hfresh.alerts] at ha
    cases ha
  · rw [run_of_makes h hf]
    exact oneOpen_run (sound_of_makes h hf) hI

/-- The snapshot of an alert stays as it was taken. -/
theorem snapshot_stays (h : Calls Works w cs w' es) {input : Incident} (he : Makes es i n e)
    (hl : e.label = .insertAlert input) (hnone : e.before.openAlert input.requester = none) (hij : i < j) {m : ℕ}
    (hf : Makes es j m f) : e.before.alerts.length < f.before.alerts.length ∧
      f.before.snapshotOf e.before.alerts.length = e.after.snapshotOf e.before.alerts.length := by
  have hafter : e.after = e.before.insertAlert input := by
    rw [run_of_makes h he, hl]
    simp [World.run, hnone]
  refine (h.kept_after (I := fun v ↦ e.before.alerts.length < v.alerts.length ∧
    v.snapshotOf e.before.alerts.length = e.after.snapshotOf e.before.alerts.length) he ⟨?_, rfl⟩
      fun j m f hij hf hI ↦ ?_).2 j m f hij hf
  · simp [hafter, World.insertAlert]
  · rw [run_of_makes h hf]
    obtain ⟨hlt, hsame⟩ := snapshotOf_run (l := f.label) hI.1
    exact ⟨hlt, hsame.trans hI.2⟩

/-- What is to be sent is the snapshot of an alert that is there. -/
theorem emits_snapshot (h : Calls Works w cs w' es) {id : ℕ} {contacts : List (ℕ × String)} {taken : Notified}
    (he : Makes es i n e) (hl : e.label = .emitTriggered id contacts taken) :
    id < e.before.alerts.length ∧ contacts = e.before.snapshotOf id := by
  have hjustified := justified_of_makes h he
  rw [hl] at hjustified
  cases hjustified with
  | aside haside => cases haside
  | emitTriggered hg hlabel hnone =>
    obtain ⟨j, hji, hg⟩ := makes_of_own hg
    obtain ⟨hlt, hsame⟩ := snapshot_stays h hg hlabel hnone hji he
    exact ⟨hlt, hsame.symm⟩

theorem messaged_whole (h : Calls Works w cs w' es) (hfresh : w.Fresh) :
    ∀ m ∈ w'.messages, m.2 = w'.snapshotOf m.1 := by
  have hkept := (h.kept (I := fun v ↦ ∀ m ∈ v.messages, m.1 < v.alerts.length ∧ m.2 = v.snapshotOf m.1)
    (by simp [hfresh.messages]) fun j m f hf hI ↦ ?_).1
  · exact fun m hm ↦ (hkept m hm).2
  · intro x hx
    rw [run_of_makes h hf] at hx ⊢
    have hold (x : ℕ × List (ℕ × String)) (hx : x.1 < f.before.alerts.length ∧ x.2 = f.before.snapshotOf x.1) :
        x.1 < (f.before.run f.label).alerts.length ∧ x.2 = (f.before.run f.label).snapshotOf x.1 := by
      obtain ⟨hlt, hsame⟩ := snapshotOf_run (l := f.label) hx.1
      exact ⟨hlt, hx.2.trans hsame.symm⟩
    rcases messages_run f.label f.before with hsame | ⟨id, contacts, hl, -, hmessages⟩
    · rw [hsame] at hx
      exact hold x (hI x hx)
    · rw [hmessages] at hx
      rcases List.mem_append.mp hx with hx | hx
      · exact hold x (hI x hx)
      · cases List.mem_singleton.mp hx
        exact hold _ (emits_snapshot h hf hl)

theorem messaged_once (h : Calls Works w cs w' es) (hfresh : w.Fresh) : (w'.messages.map (·.1)).Nodup := by
  refine (h.kept (I := fun v ↦ (v.messages.map (·.1)).Nodup) (by simp [hfresh.messages]) fun j m f hf hI ↦ ?_).1
  rw [run_of_makes h hf]
  rcases messages_run f.label f.before with hsame | ⟨id, contacts, -, hnew, hmessages⟩
  · rwa [hsame]
  · rw [hmessages, List.map_append, List.nodup_append]
    refine ⟨hI, List.pairwise_singleton _ _, fun a ha b hb hab ↦ ?_⟩
    obtain ⟨x, hx, rfl⟩ := List.mem_map.mp ha
    obtain rfl : b = id := by simpa using hb
    exact hnew x hx hab

theorem answers_of_respond (h : Calls Works w cs w' es) {answer : Except Refusal Response} (he : Makes es k n e)
    (hl : e.label = .respond answer) : Answers (own n (es.take k)) answer := by
  have hjustified := justified_of_makes h he
  rw [hl] at hjustified
  cases hjustified with
  | aside haside => cases haside
  | respond hanswers => exact hanswers

theorem messaged (h : Calls Works w cs w' es) {id createdAt : ℕ} (he : Makes es k n e)
    (hl : e.label = .respond (.ok (.created id .triggered createdAt false))) :
    (∃ m ∈ w'.messages, m.1 = id) ∨ ∃ j f contacts, Makes es j n f ∧ f.label = .emitTriggered id contacts false := by
  have hanswers := answers_of_respond h he hl
  generalize hresponse : Response.created id .triggered createdAt false = response at hanswers
  cases hanswers with
  | @raised input taken g f hg hf hlabel hnone hlabel' =>
    cases hresponse
    obtain ⟨j, -, hf⟩ := makes_of_own hf
    cases taken with
    | false => exact .inr ⟨j, f, _, hf, hlabel'⟩
    | true =>
      refine .inl (h.kept_after (I := fun v ↦ ∃ m ∈ v.messages, m.1 = g.before.alerts.length) hf ?_
        fun j m f hij hf hI ↦ ?_).1
      · rw [run_of_makes h hf, hlabel']
        simp only [World.run, Bool.true_and]
        split_ifs with hany
        · exact ⟨_, List.mem_append_right _ (List.mem_singleton_self _), rfl⟩
        · obtain ⟨m, hm, heq⟩ : ∃ m ∈ f.before.messages, m.1 = g.before.alerts.length := by simpa using hany
          exact ⟨m, hm, heq⟩
      · obtain ⟨x, hx, hxid⟩ := hI
        rw [run_of_makes h hf]
        rcases messages_run f.label f.before with hsame | ⟨_, _, -, -, hmessages⟩
        · exact ⟨x, hsame ▸ hx, hxid⟩
        · exact ⟨x, hmessages ▸ List.mem_append_left _ hx, hxid⟩
  | repeated _ _ _ => simp at hresponse
  | read _ _ _ => cases hresponse
  | undone _ _ _ => cases hresponse
  | cancelled _ _ => cases hresponse
  | acknowledged _ _ _ => cases hresponse
  | resolved _ _ _ => cases hresponse
  | annotated _ => cases hresponse

theorem reports_stored (h : Calls Works w cs w' es) (hturn : InTurn es) {response : Response} {status : SosStatus}
    (he : Makes es k n e) (hl : e.label = .respond (.ok response)) (hstatus : response.status = some status) :
    Stood es k n response.alertId status := by
  have hanswers := answers_of_respond h he hl
  cases hanswers with
  | raised hg _ hlabel hnone _ =>
    obtain rfl := Option.some.inj hstatus
    obtain ⟨j, hjk, hg⟩ := makes_of_own hg
    refine ⟨j, _, by omega, hg, .inr ?_⟩
    rw [run_of_makes h hg, hlabel]
    simp [World.run, hnone, World.status_insertAlert, Response.alertId]
  | repeated hg hlabel hopen =>
    obtain rfl := Option.some.inj hstatus
    obtain ⟨j, hjk, hg⟩ := makes_of_own hg
    exact ⟨j, _, by omega, hg, .inl (status_of_alert (World.openAlert_some hopen).1)⟩
  | read hg hlabel hfound =>
    obtain rfl := Option.some.inj hstatus
    obtain ⟨j, hjk, hg⟩ := makes_of_own hg
    exact ⟨j, _, by omega, hg, .inl hfound⟩
  | undone hg hlabel hfound =>
    obtain rfl := Option.some.inj hstatus
    obtain ⟨j, hjk, hg⟩ := makes_of_own hg
    exact ⟨j, _, by omega, hg, .inl hfound⟩
  | cancelled hg hlabel =>
    obtain rfl := Option.some.inj hstatus
    obtain ⟨j, hjk, hg⟩ := makes_of_own hg
    have htime := hturn.cancel j n _ hg
    rw [hlabel] at htime
    have htime : World.status _ _ = some SosStatus.triggered := htime
    refine ⟨j, _, by omega, hg, .inr ?_⟩
    rw [run_of_makes h hg, hlabel]
    simp only [World.run, if_pos htime, World.status_insertEvent]
    exact World.status_here htime fun _ ↦ rfl
  | acknowledged hg hlabel hwon =>
    obtain rfl := Option.some.inj hstatus
    obtain ⟨j, hjk, hg⟩ := makes_of_own hg
    refine ⟨j, _, by omega, hg, .inr ?_⟩
    rw [run_of_makes h hg, hlabel]
    simp only [World.run, if_pos hwon, World.status_insertEvent]
    exact World.status_here hwon fun _ ↦ rfl
  | resolved hg hlabel hwon =>
    obtain rfl := Option.some.inj hstatus
    obtain ⟨j, hjk, hg⟩ := makes_of_own hg
    refine ⟨j, _, by omega, hg, .inr ?_⟩
    rw [run_of_makes h hg, hlabel]
    simp only [World.run, if_pos hwon, World.status_insertEvent]
    exact World.status_here hwon fun _ ↦ rfl
  | annotated id => cases hstatus

theorem refuses_stored (h : Calls Works w cs w' es) (hturn : InTurn es) {refusal : Refusal} {claim : SosStatus → Bool}
    (he : Makes es k n e) (hl : e.label = .respond (.error refusal)) (hclaim : refusal.claim = some claim) :
    ∃ j f id status, j < k ∧ Makes es j n f ∧ f.label = .selectAlert id ∧ f.before.status id = some status ∧
      claim status = true := by
  obtain ⟨φ, hφ⟩ := makes_of_own_at es n k
  have hanswers := answers_of_respond h he hl
  cases hanswers with
  | refused hg hlabel hfound hall =>
    obtain ⟨j, hjk, hg⟩ := makes_of_own hg
    exact ⟨j, _, _, _, hjk, hg, hlabel, hfound, hall claim hclaim⟩
  | silent hnone => cases hnone.symm.trans hclaim
  | @outrun id adminId now status i j l q e' f hij hjl hq he' hf hql hqs hel hes hfl hfs hne =>
    obtain ⟨-, hq⟩ := hφ i q hq
    obtain ⟨-, he'⟩ := hφ j e' he'
    obtain ⟨hlk, hf⟩ := hφ l f hf
    obtain ⟨s, hs, -⟩ := later_of_le h (φ.le_iff_le.mpr hij.le) hq he' hqs
    obtain ⟨t, ht, hst⟩ := later_of_le h (φ.le_iff_le.mpr hjl.le) he' hf hs
    obtain rfl := Option.some.inj (ht.symm.trans hfs)
    cases hclaim
    refine ⟨φ l, f, id, t, hlk, hf, hfl, hfs, ?_⟩
    cases hst with
    | stays =>
      cases s with
      | triggered => exact absurd hs hes
      | acknowledged => exact absurd rfl hne
      | resolved => rfl
      | cancelled => rfl
    | leaves ht' => exact absurd hs hes
    | resolves => rfl
  | @overtaken id adminId now resolution expected status j l e' f hjl he' hf hel hes hfl hfs hne =>
    obtain ⟨-, he'⟩ := hφ j e' he'
    obtain ⟨hlk, hf⟩ := hφ l f hf
    have hclosed := hturn.resolve _ _ n e' f id adminId now resolution expected status (φ.lt_iff_lt.mpr hjl) he' hf hel
      hes hfl hfs
    cases hclaim
    refine ⟨φ l, f, id, status, hlk, hf, hfl, hfs, ?_⟩
    cases status with
    | triggered => cases hclosed
    | acknowledged => cases hclosed
    | resolved => exact absurd rfl hne
    | cancelled => rfl

theorem uncancelled (h : Calls Works w cs w' es) (he : Makes es i n e) {id : ℕ}
    (hs : e.before.status id = some .acknowledged) : e.after.status id ≠ some .cancelled := by
  obtain ⟨t, ht, hlater⟩ := status_later (sound_of_makes h he) hs
  rw [run_of_makes h he, ht]
  cases hlater <;> simp

theorem one_truth_of_works (h : Calls Works w cs w' es) (hfresh : w.Fresh) (hturn : InTurn es) : OneTruth es w' where
  oneOpen := one_open h hfresh
  messagedOnce := messaged_once h hfresh
  messagedWhole := messaged_whole h hfresh
  messaged _ _ _ _ _ he hl := messaged h he hl
  reports _ _ _ _ _ he hl hstatus := reports_stored h hturn he hl hstatus
  refuses _ _ _ _ _ he hl hclaim := refuses_stored h hturn he hl hclaim
  told id := told_history h hturn hfresh id
  uncancelled _ _ _ _ he hs := uncancelled h he hs

variable {η : Type} [DecidableEq η] {shaKey : String → String} {shaBody : Json × Json → η}

/-- The endpoints behind the interceptor. -/
abbrev Handled (next : Request (ℕ × Response)) : Prop := ∃ p, Endpoint p ∧ next = handled p

/-- An answer that leaves the server is the one a handler has given: the request's own, or
where it is replayed under its key that of the request it repeats. -/
def Delivered (es : List (ℕ × Event (InterceptStep Step Refusal η Response) (Interception η Response World))) : Prop :=
  ∀ k n f req reply answer, Makes es k n f → f.label = .respond req reply → reply.answer = some answer →
    ∃ j m e, Makes (worked es) j m e ∧ e.label = .respond (answer.map (·.2)) ∧
      ∀ result, reply = .handled result → m = n

theorem one_truth {w w' : Interception η Response World}
    {cs : List (Call (InterceptStep Step Refusal η Response) (Interception η Response World) Refusal)}
    {es : List (ℕ × Event (InterceptStep Step Refusal η Response) (Interception η Response World))}
    (h : Calls (Handles shaKey shaBody Handled Beside) w cs w' es) (hempty : ∀ key, w.records key = none)
    (hfresh : w.inner.Fresh) (hturn : InTurn (worked es)) : OneTruth (worked es) w'.inner ∧ Delivered es := by
  constructor
  · obtain ⟨cs', hworks⟩ : ∃ cs', Calls Works w.inner cs' w'.inner (worked es) := calls_worked h
      (fun next ⟨p, hp, heq⟩ ↦ heq ▸ .endpoint hp) (fun p hp ↦ .beside hp) .idle
    exact one_truth_of_works hworks hfresh hturn
  · intro k n f req reply answer hf hl hanswer
    obtain ⟨i, m, -, hown, e, he, hlabel⟩ := delivered h hempty
      (Q := fun r past ↦ ∃ e ∈ past, e.label = .respond (r.map (·.2)))
      (fun next ⟨p, hp, heq⟩ ↦ heq ▸ (justified_handled hp).mono (fun _ _ _ ↦ trivial) fun _ _ h ↦ h) hf hl hanswer
    obtain ⟨j, hj⟩ := makes_worked he
    exact ⟨j, m, e, hj, hlabel, hown⟩

/-- Updates that find what they expect. -/
def Step.finds (w : World) : Step → Bool
  | .cancel id _ _ _ => w.status id = some .triggered
  | .resolve id _ _ _ expected => w.status id = some expected
  | _ => true

theorem inTurn_of_finds {es : List (ℕ × Event Step World)} (h : ∀ x ∈ es, x.2.label.finds x.2.before = true) :
    InTurn es where
  cancel i n e he := by
    have hfinds := h _ (List.mem_of_getElem? he)
    dsimp only at hfinds
    cases hl : e.label with
    | cancel id subjectId now age =>
      have htriggered : e.before.status id = some .triggered := by simpa [hl, Step.finds] using hfinds
      exact htriggered
    | _ => trivial
  resolve i j n e f id adminId now resolution expected status hij he hf hl hlost := by
    have hfinds := h _ (List.mem_of_getElem? he)
    simp [hl, Step.finds, hlost] at hfinds

def sampleRequester : SosRequester := ⟨.user, 1⟩

def sampleWorld : World where
  now := 0
  subjects subject := if subject = sampleRequester then some ⟨some "Asha", none, none, none⟩ else none
  bookings := []
  contacts _ := [⟨"Ravi", "98450", some "brother"⟩]
  standaloneEnabled := true
  alerts := []
  snapshots := []
  timeline := []
  messages := []

def sampleHttp (clientKey : Option String) : HttpRequest :=
  ⟨some ⟨none, "asha"⟩, .POST, "/v1/sos", .object [], .parsed .null, clientKey⟩

def sampleCalls (ps : List (Option String × Request Response)) :
    List (Call (InterceptStep Step Refusal Bool Response) (Interception Bool Response World) Refusal) :=
  ps.map fun p ↦
    let call := IdempotencyInterceptor.intercept (fun key ↦ key) (fun _ ↦ true) (sampleHttp p.1) (handled p.2)
    ⟨call, call⟩

def sampleRun (ps : List (Option String × Request Response)) (turns : List ℕ) :
    List (Call (InterceptStep Step Refusal Bool Response) (Interception Bool Response World) Refusal) ×
      Interception Bool Response World ×
        List (ℕ × Event (InterceptStep Step Refusal Bool Response) (Interception Bool Response World)) :=
  takeTurns turns (sampleCalls ps) ⟨0, 0, fun _ ↦ none, sampleWorld⟩

theorem sampleRun_calls (ps : List (Option String × Request Response)) (hps : ∀ p ∈ ps, Endpoint p.2) (turns : List ℕ) :
    Calls (Handles (fun key ↦ key) (fun _ ↦ true) Handled Beside) ⟨0, 0, fun _ ↦ none, sampleWorld⟩
      (sampleRun ps turns).1 (sampleRun ps turns).2.1 (sampleRun ps turns).2.2 := by
  have hall : ∀ p ∈ ps.map fun p ↦ (IdempotencyInterceptor.intercept (fun key ↦ key) (fun _ ↦ true) (sampleHttp p.1)
      (handled p.2) : InterceptRequest Step World Refusal Bool Response Unit),
      Handles (fun key ↦ key) (fun _ ↦ true) Handled Beside p := by
    intro p hp
    obtain ⟨q, hq, rfl⟩ := List.mem_map.mp hp
    refine .intercept _ ?_ ⟨q.2, hps q hq, rfl⟩
    change ':' ∉ "asha".toList
    decide +kernel
  have hstart : Calls (Handles (fun key ↦ key) (fun _ ↦ true) Handled Beside)
      (⟨0, 0, fun _ ↦ none, sampleWorld⟩ : Interception Bool Response World) [] _ [] := .start
  simpa [sampleRun, sampleCalls, Function.comp_def] using (hstart.askAll hall).takeTurns turns

def sampleFix : Fix := ⟨12, 77, none⟩

def sampleRaise : Request Response := SosService.raise sampleRequester ⟨none, sampleFix⟩ true

/-- A tap that is sent twice under its key, an acknowledgement, a second tap, a
cancellation that is too late, and the resolution. -/
theorem one_truth_sample :
    let ps : List (Option String × Request Response) :=
      [(some "tap", sampleRaise), (some "tap", sampleRaise), (none, SosService.acknowledge 7 0),
        (some "again", sampleRaise), (none, SosService.cancel 30 sampleRequester 0), (none, SosService.resolve 8 0 "Safe.")]
    let run := sampleRun ps ([0, 1, 2, 3, 4, 5].flatMap fun n ↦ List.replicate 20 n)
    OneTruth (worked run.2.2) run.2.1.inner ∧ Delivered run.2.2 := by
  refine one_truth (sampleRun_calls _ ?_ _) (fun _ ↦ rfl) ⟨rfl, rfl, rfl⟩ (inTurn_of_finds (List.all_eq_true.mp ?_))
  · simp only [List.forall_mem_cons]
    exact ⟨.raise _ _ _, .raise _ _ _, .acknowledge _ _, .raise _ _ _, .cancel _ _ _, .resolve _ _ _, by simp⟩
  · decide +kernel

/-- The subject takes the tap back while an operator acknowledges the alert. -/
theorem cancelled_acknowledged : ∃ cs w es,
    Calls (Handles (fun key ↦ key) (fun _ ↦ true) Handled Beside) (⟨0, 0, fun _ ↦ none, sampleWorld⟩ : Interception Bool
      Response World) cs w es ∧ sampleWorld.Fresh ∧ ¬(OneTruth (worked es) w.inner ∧ Delivered es) := by
  refine ⟨_, _, _, sampleRun_calls [(none, sampleRaise), (none, SosService.cancel 30 sampleRequester 0),
    (none, SosService.acknowledge 7 0)] ?_ (List.replicate 10 0 ++ 1 :: List.replicate 6 2 ++ List.replicate 5 1),
    ⟨rfl, rfl, rfl⟩, fun h ↦ ?_⟩
  · simp only [List.forall_mem_cons]
    exact ⟨.raise _ _ _, .cancel _ _ _, .acknowledge _ _, by simp⟩
  · exact absurd (h.1.told 0) (by decide +kernel)

end Towing.Sos
