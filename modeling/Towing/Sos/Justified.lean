import Towing.Sos.Incidents

namespace Towing.Sos

open Towing.Process

/-- What a refusal says of the status of its alert. -/
def Refusal.claim : Refusal → Option (SosStatus → Bool)
  | .notCancellable => some fun s ↦ s ≠ .triggered
  | .alreadyClosed => some fun s ↦ !s.isOpen
  | .wasCancelled => some fun s ↦ s = .cancelled
  | _ => none

/-- The steps that nothing has to justify. -/
def Step.isAside : Step → Bool
  | .insertEvent _ | .emitTriggered _ _ _ | .resolve _ _ _ _ _ | .respond _ => false
  | _ => true

/-- What a request has done that answers so; the order is that of the places. -/
inductive Answers (past : List (Event Step World)) : Except Refusal Response → Prop
  | raised {input : Incident} {taken : Notified} {e f : Event Step World} : e ∈ past → f ∈ past →
      e.label = .insertAlert input → e.before.openAlert input.requester = none →
      f.label = .emitTriggered e.before.alerts.length (e.after.snapshotOf e.before.alerts.length) taken →
      Answers past (.ok (.created e.before.alerts.length .triggered e.before.now false))
  | repeated {subject : SosRequester} {id : ℕ} {alert : Alert} {e : Event Step World} : e ∈ past →
      e.label = .selectOpen subject → e.before.openAlert subject = some (id, alert) →
      Answers past (.ok (.created id alert.status alert.createdAt true))
  | read {id instant : ℕ} {status : SosStatus} {e : Event Step World} : e ∈ past → e.label = .selectAlert id →
      e.before.status id = some status → Answers past (.ok (.action id status instant))
  | undone {id instant : ℕ} {e : Event Step World} : e ∈ past → e.label = .selectAlert id →
      e.before.status id = some .cancelled → Answers past (.ok (.cancelled id .cancelled instant))
  | cancelled {id subjectId now : ℕ} {ageSeconds : ℤ} {e : Event Step World} : e ∈ past →
      e.label = .cancel id subjectId now ageSeconds → Answers past (.ok (.cancelled id .cancelled now))
  | acknowledged {id adminId now : ℕ} {e : Event Step World} : e ∈ past → e.label = .acknowledge id adminId now →
      e.before.status id = some .triggered → Answers past (.ok (.action id .acknowledged now))
  | resolved {id adminId now : ℕ} {resolution : String} {expected : SosStatus} {e : Event Step World} : e ∈ past →
      e.label = .resolve id adminId now resolution expected → e.before.status id = some expected →
      Answers past (.ok (.action id .resolved now))
  | annotated (id : ℕ) : Answers past (.ok (.annotated id))
  | refused {refusal : Refusal} {id : ℕ} {status : SosStatus} {e : Event Step World} : e ∈ past →
      e.label = .selectAlert id → e.before.status id = some status →
      (∀ claim, refusal.claim = some claim → claim status = true) → Answers past (.error refusal)
  | silent {refusal : Refusal} : refusal.claim = none → Answers past (.error refusal)
  | outrun {id adminId now : ℕ} {status : SosStatus} {i j k : ℕ} {q e f : Event Step World} :
      i < j → j < k → past[i]? = some q → past[j]? = some e → past[k]? = some f → q.label = .selectAlert id →
      q.before.status id = some .triggered → e.label = .acknowledge id adminId now →
      e.before.status id ≠ some .triggered → f.label = .selectAlert id → f.before.status id = some status →
      status ≠ .acknowledged → Answers past (.error .alreadyClosed)
  | overtaken {id adminId now : ℕ} {resolution : String} {expected status : SosStatus} {j k : ℕ} {e f : Event Step World} :
      j < k → past[j]? = some e → past[k]? = some f → e.label = .resolve id adminId now resolution expected →
      e.before.status id ≠ some expected → f.label = .selectAlert id → f.before.status id = some status →
      status ≠ .resolved → Answers past (.error .wasCancelled)

/-- What a request has done before each of its steps. -/
inductive Justified (past : List (Event Step World)) : Step → Prop
  | aside {l : Step} : l.isAside = true → Justified past l
  | insertEvent {event : AlertEvent} : event.kind.tells = none → Justified past (.insertEvent event)
  | emitTriggered {input : Incident} {taken : Notified} {e : Event Step World} : e ∈ past →
      e.label = .insertAlert input → e.before.openAlert input.requester = none →
      Justified past (.emitTriggered e.before.alerts.length (e.after.snapshotOf e.before.alerts.length) taken)
  | resolve {id adminId now : ℕ} {resolution : String} {expected : SosStatus} : expected.isOpen = true →
      Justified past (.resolve id adminId now resolution expected)
  | respond {answer : Except Refusal Response} : Answers past answer → Justified past (.respond answer)

variable {past : List (Event Step World)} {α : Type}

theorem getElem?_snoc {i : ℕ} {e f : Event Step World} (h : past[i]? = some e) : (past ++ [f])[i]? = some e := by
  rw [List.getElem?_append_left (List.getElem?_eq_some_iff.mp h).1]
  exact h

/-- An answer stays one while the request goes on. -/
theorem Answers.concat {answer : Except Refusal Response} (h : Answers past answer) (x : Event Step World) :
    Answers (past ++ [x]) answer := by
  cases h with
  | raised he hf hl hnone hl' => exact .raised (List.mem_append_left _ he) (List.mem_append_left _ hf) hl hnone hl'
  | repeated he hl hopen => exact .repeated (List.mem_append_left _ he) hl hopen
  | read he hl hstatus => exact .read (List.mem_append_left _ he) hl hstatus
  | undone he hl hstatus => exact .undone (List.mem_append_left _ he) hl hstatus
  | cancelled he hl => exact .cancelled (List.mem_append_left _ he) hl
  | acknowledged he hl hstatus => exact .acknowledged (List.mem_append_left _ he) hl hstatus
  | resolved he hl hstatus => exact .resolved (List.mem_append_left _ he) hl hstatus
  | annotated id => exact .annotated id
  | refused he hl hstatus hclaim => exact .refused (List.mem_append_left _ he) hl hstatus hclaim
  | silent hclaim => exact .silent hclaim
  | outrun hij hjk hq he hf hql hqs hel hes hfl hfs hstatus =>
    exact .outrun hij hjk (getElem?_snoc hq) (getElem?_snoc he) (getElem?_snoc hf) hql hqs hel hes hfl hfs hstatus
  | overtaken hjk he hf hel hes hfl hfs hstatus =>
    exact .overtaken hjk (getElem?_snoc he) (getElem?_snoc hf) hel hes hfl hfs hstatus

/-- What a part of a request that ends in an error answers with says nothing of an alert. -/
def Quiet (r : Except Refusal α) : Prop := ∀ e, r = .error e → e.claim = none

theorem quiet_ok (a : α) : Quiet (.ok a : Except Refusal α) := fun _ h ↦ (by cases h)

theorem quiet_error {e : Refusal} (h : e.claim = none) : Quiet (.error e : Except Refusal α) := by
  intro e' heq
  cases heq
  exact h

theorem answers_of_quiet {e : Refusal} (h : Quiet (.error e : Except Refusal α)) : Answers past (.error e) :=
  .silent (h e rfl)

theorem quiet_requireSubject (requester : SosRequester) :
    (SosService.requireSubject requester).Heeds Justified (fun r _ ↦ Quiet r) past := by
  refine ⟨.aside rfl, fun s ↦ ?_⟩
  simp only [Proc.bind_ok]
  cases s.subjects requester with
  | none => exact quiet_error rfl
  | some subject => exact quiet_ok subject

theorem quiet_resolveBooking (requester : SosRequester) (bookingId : Option ℕ) :
    (SosService.resolveBooking requester bookingId).Heeds Justified (fun r _ ↦ Quiet r) past := by
  cases bookingId with
  | none => exact ⟨.aside rfl, fun s ↦ quiet_ok _⟩
  | some bookingId =>
    refine ⟨.aside rfl, fun s ↦ ?_⟩
    simp only [Proc.bind_ok]
    cases s.bookings.find? fun b ↦ b.id = bookingId && SosRepo.owns requester b with
    | none => exact quiet_error rfl
    | some booking => exact quiet_ok _

theorem answers_replay {subject : SosRequester} {id : ℕ} {alert : Alert} {e : Event Step World} (input : Incident)
    (he : e ∈ past) (hl : e.label = .selectOpen subject) (hopen : e.before.openAlert subject = some (id, alert)) :
    (SosService.replay id alert.status alert.createdAt input).Heeds Justified (fun r past ↦ Answers past r) past := by
  refine ⟨.insertEvent rfl, fun s ↦ ⟨.aside rfl, fun s' ↦ ?_⟩⟩
  exact .repeated (List.mem_append_left _ (List.mem_append_left _ he)) hl hopen

theorem answers_raceReplay (input : Incident) :
    (SosService.raceReplay input .uniqueViolation).Heeds Justified (fun r past ↦ Answers past r) past := by
  refine ⟨.aside rfl, fun s ↦ ?_⟩
  simp only [Proc.bind_ok]
  cases hopen : s.openAlert input.requester with
  | none => exact .silent rfl
  | some raced => exact answers_replay input List.mem_concat_self rfl hopen

theorem answers_createIncident (input : Incident) (taken : Notified) :
    (SosService.createIncident input taken).Heeds Justified (fun r past ↦ Answers past r) past := by
  refine ⟨.aside rfl, fun s ↦ ?_⟩
  simp only [Proc.bind_ok]
  cases hopen : s.openAlert input.requester with
  | some existing => exact answers_replay input List.mem_concat_self rfl hopen
  | none =>
    refine Proc.Heeds.handle (Q := fun r past ↦ (∀ e, r = .error e → e = .uniqueViolation) ∧
      ∀ a, r = .ok a → Answers past (.ok a)) ⟨.aside rfl, fun s' ↦ ?_⟩ (fun a past h ↦ h.2 a rfl) fun e past h ↦ ?_
    · cases hnone : s'.openAlert input.requester with
      | some raced =>
        simp only [hnone, Option.isSome_some, if_true, Proc.bind_error]
        exact ⟨fun e heq ↦ (Except.error.inj heq).symm, fun a heq ↦ (by cases heq)⟩
      | none =>
        simp only [hnone, Option.isSome_none, Bool.false_eq_true, if_false, Proc.bind_ok]
        have hafter : Store.commit (Step.insertAlert input) s' = s'.insertAlert input := by
          simp [Store.commit, World.run, hnone]
        rw [hafter]
        refine ⟨.aside rfl, fun s₁ ↦ ⟨.emitTriggered (e := ⟨.insertAlert input, s', s'.insertAlert input⟩) ?_ rfl hnone,
          fun s₂ ↦ ?_⟩⟩
        · simp
        · have hanswer {past : List (Event Step World)}
              (he : (⟨.insertAlert input, s', s'.insertAlert input⟩ : Event Step World) ∈ past)
              (hf : (⟨.emitTriggered s'.alerts.length ((s'.insertAlert input).snapshotOf s'.alerts.length) taken, s₂,
                Store.commit (Step.emitTriggered s'.alerts.length
                  ((s'.insertAlert input).snapshotOf s'.alerts.length) taken) s₂⟩ : Event Step World) ∈ past) :
              Answers past (.ok (.created s'.alerts.length .triggered s'.now false)) := .raised he hf rfl hnone rfl
          cases taken with
          | false => exact ⟨fun e heq ↦ (by cases heq), fun a heq ↦ Except.ok.inj heq ▸ hanswer (by simp) (by simp)⟩
          | true =>
            refine ⟨.aside rfl, fun s₃ ↦ ⟨fun e heq ↦ (by cases heq), fun a heq ↦ ?_⟩⟩
            exact Except.ok.inj heq ▸ hanswer (by simp) (by simp)
    · obtain rfl := h.1 e rfl
      exact answers_raceReplay input

theorem answers_raise (requester : SosRequester) (body : SosCreateRequest) (taken : Notified) :
    (SosService.raise requester body taken).Heeds Justified (fun r past ↦ Answers past r) past := by
  refine (quiet_requireSubject requester).bind (fun _ past _ ↦ ?_) fun e past h ↦ answers_of_quiet h
  refine (quiet_resolveBooking requester body.bookingId).bind (fun bookingId past _ ↦ ?_)
    fun e past h ↦ answers_of_quiet h
  refine Proc.Heeds.bind (Q := fun r _ ↦ Quiet r) ?_ (fun _ past _ ↦ answers_createIncident _ taken)
    fun e past h ↦ answers_of_quiet h
  refine Proc.Heeds.when (fun _ ↦ ⟨.aside rfl, fun s ↦ ?_⟩) fun _ ↦ quiet_ok _
  exact Proc.Heeds.when (fun _ ↦ quiet_error rfl) fun _ ↦ quiet_ok _

theorem answers_raiseByOps (adminId : ℕ) (body : AdminSosCreateBody) (taken : Notified) :
    (SosService.raiseByOps adminId body taken).Heeds Justified (fun r past ↦ Answers past r) past := by
  refine ⟨.aside rfl, fun s ↦ ?_⟩
  simp only [Proc.bind_ok]
  cases s.subjects body.subject with
  | none => exact .silent rfl
  | some subject =>
    dsimp only
    split
    · refine (quiet_resolveBooking body.subject body.bookingId).bind (fun bookingId past _ ↦ ?_)
        fun e past h ↦ answers_of_quiet h
      refine (answers_createIncident _ taken).bind (fun result past h ↦ ?_) fun e past h ↦ h
      exact ⟨.aside rfl, fun s' ↦ h.concat _⟩
    · exact .silent rfl

/-- What the first read of an alert finds. -/
theorem status_of_alert {w : World} {id : ℕ} {alert : Alert} (h : w.alerts[id]? = some alert) :
    w.status id = some alert.status := by simp [World.status, h]

theorem answers_cancel (graceSeconds : ℕ) (requester : SosRequester) (alertId : ℕ) :
    (SosService.cancel graceSeconds requester alertId).Heeds Justified (fun r past ↦ Answers past r) past := by
  refine ⟨.aside rfl, fun s ↦ ?_⟩
  simp only [Proc.bind_ok]
  cases halert : s.alerts[alertId]? with
  | none => exact .silent rfl
  | some alert =>
    have hstatus := status_of_alert halert
    dsimp only
    split_ifs with howner hcancelled htriggered
    · exact .silent rfl
    · exact .undone List.mem_concat_self rfl (hcancelled ▸ hstatus)
    · refine .refused List.mem_concat_self rfl hstatus fun claim hclaim ↦ ?_
      cases hclaim
      simpa using htriggered
    · refine ⟨.aside rfl, fun s₁ ↦ ?_⟩
      simp only [Proc.bind_ok]
      split_ifs
      · exact .silent rfl
      · exact ⟨.aside rfl, fun s₂ ↦ ⟨.aside rfl, fun s₃ ↦ .cancelled List.mem_concat_self rfl⟩⟩

theorem answers_acknowledge (adminId id : ℕ) :
    (SosService.acknowledge adminId id).Heeds Justified (fun r past ↦ Answers past r) [] := by
  refine ⟨.aside rfl, fun s ↦ ?_⟩
  simp only [Proc.bind_ok]
  cases halert : s.alerts[id]? with
  | none => exact .silent rfl
  | some alert =>
    have hstatus := status_of_alert halert
    dsimp only
    split_ifs with hack htriggered
    · exact .read List.mem_concat_self rfl (hack ▸ hstatus)
    · refine .refused List.mem_concat_self rfl hstatus fun claim hclaim ↦ ?_
      cases hclaim
      cases hs : alert.status <;> simp_all [SosStatus.isOpen]
    · have hfirst : s.status id = some .triggered := by
        rw [hstatus]
        simpa using htriggered
      refine ⟨.aside rfl, fun s₁ ↦ ⟨.aside rfl, fun s₂ ↦ ?_⟩⟩
      simp only [Proc.bind_ok, decide_eq_true_eq]
      split_ifs with hwon
      · exact ⟨.aside rfl, fun s₃ ↦ .acknowledged (List.mem_append_left _ List.mem_concat_self) rfl hwon⟩
      · refine ⟨.aside rfl, fun s₃ ↦ ?_⟩
        simp only [Proc.bind_ok]
        cases hraced : s₃.alerts[id]? with
        | none => exact .silent rfl
        | some raced =>
          have hstatus' := status_of_alert hraced
          dsimp only
          split_ifs with hack'
          · exact .read List.mem_concat_self rfl (hack' ▸ hstatus')
          · refine .outrun (i := 0) (j := 2) (k := 3) (by omega) (by omega) rfl rfl rfl rfl hfirst rfl hwon rfl
              hstatus' hack'

theorem answers_note (adminId id : ℕ) (text : String) :
    (SosService.note adminId id text).Heeds Justified (fun r past ↦ Answers past r) past := by
  refine ⟨.aside rfl, fun s ↦ ?_⟩
  simp only [Proc.bind_ok]
  cases halert : s.alerts[id]? with
  | none => exact .silent rfl
  | some alert =>
    have hstatus := status_of_alert halert
    dsimp only
    split_ifs with hcancelled
    · refine .refused List.mem_concat_self rfl hstatus fun claim hclaim ↦ ?_
      cases hclaim
      simpa using hcancelled
    · refine ⟨.aside rfl, fun s₁ ↦ ⟨.insertEvent rfl, fun s₂ ↦ ⟨.aside rfl, fun s₃ ↦ ?_⟩⟩⟩
      exact .read (e := ⟨.selectAlert id, s, Store.commit (Step.selectAlert id) s⟩) (by simp) rfl hstatus

theorem answers_contact (adminId id : ℕ) (contactId : Option ℕ) :
    (SosService.contact adminId id contactId).Heeds Justified (fun r past ↦ Answers past r) past := by
  refine ⟨.aside rfl, fun s ↦ ?_⟩
  simp only [Proc.bind_ok]
  cases halert : s.alerts[id]? with
  | none => exact .silent rfl
  | some alert =>
    dsimp only
    split_ifs with hcancelled
    · refine .refused List.mem_concat_self rfl (status_of_alert halert) fun claim hclaim ↦ ?_
      cases hclaim
      simpa using hcancelled
    · refine ⟨.aside rfl, fun s₁ ↦ ?_⟩
      simp only [Proc.bind_ok]
      split_ifs
      · exact .silent rfl
      · exact ⟨.insertEvent rfl, fun s₂ ↦ ⟨.aside rfl, fun s₃ ↦ .annotated id⟩⟩

theorem answers_broadcast (adminId id drivers : ℕ) :
    (SosService.broadcast adminId id drivers).Heeds Justified (fun r past ↦ Answers past r) past := by
  refine ⟨.aside rfl, fun s ↦ ?_⟩
  simp only [Proc.bind_ok]
  cases halert : s.alerts[id]? with
  | none => exact .silent rfl
  | some alert =>
    dsimp only
    split_ifs with hcancelled
    · refine .refused List.mem_concat_self rfl (status_of_alert halert) fun claim hclaim ↦ ?_
      cases hclaim
      simpa using hcancelled
    · exact ⟨.insertEvent rfl, fun s₂ ↦ ⟨.aside rfl, fun s₃ ↦ .annotated id⟩⟩

theorem answers_resolve (adminId id : ℕ) (resolution : String) :
    (SosService.resolve adminId id resolution).Heeds Justified (fun r past ↦ Answers past r) [] := by
  refine ⟨.aside rfl, fun s ↦ ?_⟩
  simp only [Proc.bind_ok]
  cases halert : s.alerts[id]? with
  | none => exact .silent rfl
  | some alert =>
    have hstatus := status_of_alert halert
    dsimp only
    split_ifs with hresolved hcancelled
    · exact .read List.mem_concat_self rfl (hresolved ▸ hstatus)
    · refine .refused List.mem_concat_self rfl hstatus fun claim hclaim ↦ ?_
      cases hclaim
      simpa using hcancelled
    · have hopen : alert.status.isOpen = true := by
        cases hs : alert.status <;> simp_all [SosStatus.isOpen]
      refine ⟨.aside rfl, fun s₁ ↦ ⟨.resolve hopen, fun s₂ ↦ ?_⟩⟩
      simp only [Proc.bind_ok, decide_eq_true_eq]
      split_ifs with hwon
      · exact ⟨.aside rfl, fun s₃ ↦ .resolved (List.mem_append_left _ List.mem_concat_self) rfl hwon⟩
      · refine ⟨.aside rfl, fun s₃ ↦ ?_⟩
        simp only [Proc.bind_ok]
        cases hraced : s₃.alerts[id]? with
        | none => exact .silent rfl
        | some raced =>
          have hstatus' := status_of_alert hraced
          dsimp only
          split_ifs with hresolved'
          · exact .read List.mem_concat_self rfl (hresolved' ▸ hstatus')
          · exact .overtaken (j := 2) (k := 3) (by omega) rfl rfl rfl hwon rfl hstatus' hresolved'

theorem answers_endpoint {p : Request Response} (h : Endpoint p) :
    p.Heeds Justified (fun r past ↦ Answers past r) [] := by
  cases h with
  | raise requester body taken => exact answers_raise requester body taken
  | raiseByOps adminId body taken => exact answers_raiseByOps adminId body taken
  | cancel graceSeconds requester alertId => exact answers_cancel graceSeconds requester alertId
  | acknowledge adminId id => exact answers_acknowledge adminId id
  | note adminId id text => exact answers_note adminId id text
  | contact adminId id contactId => exact answers_contact adminId id contactId
  | broadcast adminId id drivers => exact answers_broadcast adminId id drivers
  | resolve adminId id resolution => exact answers_resolve adminId id resolution

/-- A handler ends by answering. -/
theorem justified_handled {p : Request Response} (h : Endpoint p) :
    (handled p).Heeds Justified (fun r past ↦ ∃ e ∈ past, e.label = .respond (r.map (·.2))) [] := by
  refine (answers_endpoint h).follow fun answer past hanswer ↦ ⟨.respond hanswer, fun s ↦ ?_⟩
  refine ⟨_, List.mem_concat_self, ?_⟩
  cases answer <;> rfl

theorem justified_works {p : Request Unit} (h : Works p) : p.Heeds Justified (fun _ _ ↦ True) [] := by
  cases h with
  | endpoint h => exact (justified_handled h).bind (fun _ _ _ ↦ trivial) fun _ _ _ ↦ trivial
  | beside h => cases h <;> exact ⟨.aside rfl, fun _ ↦ trivial⟩
  | idle => trivial

end Towing.Sos
