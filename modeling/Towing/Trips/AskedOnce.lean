import Towing.Trips.Attempts

namespace Towing.Trips

open Towing.Process Towing.Money

/-- Every offer comes after a look that found the driver without an attempt. -/
def Chosen (past : List (Event Step World)) (l : Step) : Prop :=
  ∀ b d, l.asks b d → ∃ r ∈ past, r.label = .read ∧ r.before.asked b d = false

/-- The step offers nothing but the booking, and only to these drivers. -/
def Step.AsksOnly (b : ℕ) (ds : List ℕ) (l : Step) : Prop := ∀ c d, l.asks c d → c = b ∧ d ∈ ds

variable {env : Env} {b d : ℕ} {ds : List ℕ} {past : List (Event Step World)} {α : Type}

theorem asks_kind {l : Step} (h : l.asks b d = true) : l.kind = some .offer := by
  cases l with
  | insertAttempt a =>
    simp only [Step.asks, World.isOffered, Bool.and_eq_true, decide_eq_true_eq] at h
    simp [Step.kind, h.2]
  | _ => cases h

theorem asks_avoids {p : Request α} (h : Avoids .offer p) : p.Only (Step.AsksOnly b ds) :=
  h.mono fun _ hl _ _ hasks ↦ absurd (asks_kind hasks) hl

theorem chosen_avoids {p : Request α} (h : Avoids .offer p) (past : List (Event Step World)) :
    p.Heeds Chosen (fun _ _ ↦ True) past :=
  Proc.Heeds.of_only (R := fun _ ↦ True) h (fun _ _ _ hl _ _ hasks ↦ absurd (asks_kind hasks) hl)
    (fun _ _ _ ↦ trivial) trivial

/-- The drivers that a look has found without an attempt may be asked. -/
theorem chosen_among {p : Request α} (h : p.Only (Step.AsksOnly b ds))
    (hds : ∀ d ∈ ds, ∃ r ∈ past, r.label = .read ∧ r.before.asked b d = false) :
    p.Heeds Chosen (fun _ _ ↦ True) past := by
  refine (Proc.Heeds.of_only
    (R := fun past ↦ ∀ d ∈ ds, ∃ r ∈ past, r.label = .read ∧ r.before.asked b d = false) h
    ?_ ?_ hds).mono (fun _ _ h ↦ h) fun _ _ _ ↦ trivial
  · intro past l hpast hl c d hasks
    obtain ⟨rfl, hd⟩ := hl c d hasks
    exact hpast d hd
  · intro past e hpast d hd
    obtain ⟨r, hr, hlook⟩ := hpast d hd
    exact ⟨r, List.mem_append_left _ hr, hlook⟩

theorem select_chosen (ranked : List ℕ) : (DispatchService.select b ranked).Heeds Chosen
    (fun r past ↦ ∀ ds, r = .ok ds → ∀ d ∈ ds, ∃ r ∈ past, r.label = .read ∧ r.before.asked b d = false)
    past := by
  refine ⟨fun c d hasks ↦ (by cases hasks), fun s ds hok d hd ↦ ?_⟩
  cases hok
  refine ⟨⟨.read, s, Store.commit Step.read s⟩, List.mem_append_right _ (List.mem_singleton_self _),
    rfl, ?_⟩
  simpa [World.asked] using (List.mem_filter.mp hd).2

theorem offer_asks (hd : d ∈ ds) (wave timeoutSeconds : ℕ) :
    (OfferService.offer b d wave timeoutSeconds).Only (Step.AsksOnly b ds) := by
  refine Proc.Only.bind ⟨fun c d' hasks ↦ (by cases hasks), fun _ ↦ trivial⟩ fun taken ↦ ?_
  split_ifs
  · trivial
  · refine Proc.Only.bind ⟨fun c d' hasks ↦ ?_, fun _ ↦ trivial⟩ fun _ ↦ ?_
    · simp only [Step.asks, World.isOffered, Bool.and_eq_true, decide_eq_true_eq] at hasks
      obtain ⟨⟨rfl, rfl⟩, -⟩ := hasks
      exact ⟨rfl, hd⟩
    · exact (asks_avoids (avoids_enqueue (by simp [Step.kind]))).bind fun _ ↦ trivial

theorem offerEach_asks (wave timeoutSeconds : ℕ) {asked : List ℕ} (h : asked ⊆ ds) :
    (DispatchService.offerEach b wave timeoutSeconds asked).Only (Step.AsksOnly b ds) := by
  induction asked with
  | nil => trivial
  | cons d asked ih =>
    refine (offer_asks (h List.mem_cons_self) _ _).bind fun offered ↦ ?_
    exact (ih fun _ hd ↦ h (List.mem_cons_of_mem _ hd)).bind fun _ ↦ trivial

theorem advance_chosen (wave deadlineAt : ℕ) (config : DispatchConfig) (r : Row) (ranked : List ℕ) :
    (DispatchService.advance b wave deadlineAt config r ranked).Heeds Chosen (fun _ _ ↦ True) past := by
  refine (select_chosen ranked).bind (fun ds past hds ↦ ?_) fun _ _ _ ↦ trivial
  refine chosen_among ?_ (hds ds rfl)
  refine Proc.Only.bind (asks_avoids (avoids_attempt (by simp [Step.kind]))) fun _ ↦ ?_
  refine (offerEach_asks _ _ fun d hd ↦ List.mem_of_mem_take hd).bind fun offered ↦ ?_
  exact asks_avoids (avoids_enqueue (by simp [Step.kind]))

theorem runWaveLocked_chosen (ranked : List ℕ) :
    (DispatchService.runWaveLocked env b ranked).Heeds Chosen (fun _ _ ↦ True) past := by
  refine (chosen_avoids (avoids_read _) _).bind (fun found past _ ↦ ?_) fun _ _ _ ↦ trivial
  cases found with
  | none => trivial
  | some r =>
    dsimp only
    split
    · trivial
    refine (chosen_avoids (avoids_read _) _).bind (fun now past _ ↦ ?_) fun _ _ _ ↦ trivial
    split
    · exact chosen_avoids (avoids_enqueue (by simp [Step.kind])) _
    refine (chosen_avoids (avoids_read _) _).bind (fun paused past _ ↦ ?_) fun _ _ _ ↦ trivial
    split
    · exact chosen_avoids ((avoids_revokeAll (by simp) (by simp)).bind fun _ ↦
        avoids_reschedule (by simp) _ _) _
    split
    · exact chosen_avoids (avoids_transition rfl) _
    · exact advance_chosen _ _ _ r ranked

theorem runWave_chosen (ranked : List ℕ) :
    (DispatchService.runWave env b ranked).Heeds Chosen (fun _ _ ↦ True) past := by
  have hrelease (past : List (Event Step World)) :
      (Proc.write (.releaseSearchLock b) : Request Unit).Heeds Chosen (fun _ _ ↦ True) past :=
    chosen_avoids (avoids_attempt (by simp [Step.kind])) past
  refine (chosen_avoids (avoids_attempt (by simp [Step.kind])) _).bind (fun taken past _ ↦ ?_) fun _ _ _ ↦ trivial
  refine Proc.Heeds.when (fun _ ↦ ?_) fun _ ↦ trivial
  refine Proc.Heeds.bind (Q := fun _ _ ↦ True) ?_ (fun _ past _ ↦ hrelease past) fun _ _ _ ↦ trivial
  refine (runWaveLocked_chosen ranked).handle (fun _ _ _ ↦ trivial) fun e past _ ↦ ?_
  exact (hrelease past).bind (fun _ _ _ ↦ trivial) fun _ _ _ ↦ trivial

theorem adminOfferToDriver_chosen (d : ℕ) (ranked : List ℕ) :
    (DispatchService.adminOfferToDriver env b d ranked).Heeds Chosen (fun _ _ ↦ True) past := by
  refine (chosen_avoids (avoids_read _) _).bind (fun found past _ ↦ ?_) fun _ _ _ ↦ trivial
  cases found with
  | none => trivial
  | some r =>
    dsimp only
    split_ifs
    · trivial
    refine (select_chosen ranked).bind (fun ds past hds ↦ ?_) fun _ _ _ ↦ trivial
    split_ifs with hd
    swap
    · trivial
    refine chosen_among ?_ (hds ds rfl)
    refine (offer_asks (List.mem_of_mem_take hd) _ _).bind fun offered ↦ ?_
    split_ifs
    · exact (asks_avoids (avoids_enqueue (by simp [Step.kind]))).bind fun _ ↦ trivial
    · trivial

theorem process_chosen (ranked : List ℕ) (payload : Payload) :
    (DispatchService.process env ranked payload).Heeds Chosen (fun _ _ ↦ True) past := by
  cases payload with
  | search b => exact runWave_chosen ranked
  | offerTimeout b d wave => exact chosen_avoids (avoids_resolve (by simp) (by simp) d _) _
  | revoke b reason holder => exact chosen_avoids (avoids_revokeAll (by simp) (by simp)) _
  | applySuspension d => trivial

theorem runJob_chosen (id : JobId) (ranked : List ℕ) (retryMs : Option ℕ) :
    (DispatchService.runJob env id ranked retryMs).Heeds Chosen (fun _ _ ↦ True) past := by
  have hend (state : ℕ → JobState) : Avoids .offer
      ((read (·.now)).bind fun now ↦ Proc.write (.endJob id (state now)) : Request Unit) :=
    (avoids_read _).bind fun _ ↦ avoids_attempt (by simp [Step.kind])
  refine (chosen_avoids (avoids_attempt (by simp [Step.kind])) _).bind (fun found past _ ↦ ?_)
    fun _ _ _ ↦ trivial
  cases found with
  | none => trivial
  | some payload =>
    refine Proc.Heeds.handle (Q := fun _ _ ↦ True) ?_ (fun _ _ _ ↦ trivial) fun e past _ ↦
      chosen_avoids (hend _) past
    exact (process_chosen ranked payload).bind (fun _ past _ ↦ chosen_avoids (hend _) past)
      fun _ _ _ ↦ trivial

theorem reassign_chosen (mode : AdminBookingsService.ReassignMode) (driverFault : Bool) :
    (AdminBookingsService.reassign env b mode driverFault).Heeds Chosen (fun _ _ ↦ True) past := by
  refine (chosen_avoids (avoids_check _) _).bind (fun r past _ ↦ ?_) fun _ _ _ ↦ trivial
  dsimp only
  split
  · trivial
  refine (chosen_avoids (Proc.Only.when (avoids_throw _)) _).bind (fun _ past _ ↦ ?_)
    fun _ _ _ ↦ trivial
  refine (chosen_avoids (avoids_revokeAll (by simp) (by simp)) _).bind (fun _ past _ ↦ ?_)
    fun _ _ _ ↦ trivial
  refine (chosen_avoids (avoids_transition rfl) _).bind (fun _ past _ ↦ ?_) fun _ _ _ ↦ trivial
  refine (chosen_avoids (avoids_recordOutcome _ (by split_ifs <;> simp)) _).bind (fun _ past _ ↦ ?_)
    fun _ _ _ ↦ trivial
  cases mode with
  | resumeSearch => exact chosen_avoids (avoids_redispatch (by simp) _) _
  | offerToDriver d ranked =>
    refine (adminOfferToDriver_chosen d ranked).bind (fun outcome past _ ↦ ?_) fun _ _ _ ↦ trivial
    cases outcome with
    | none => trivial
    | some exclusion => trivial

theorem operates_chosen {p : Request Unit} (h : Operates env p) :
    p.Heeds Chosen (fun _ _ ↦ True) [] := by
  rcases operates_avoids .offer h with hp | hp
  · exact chosen_avoids hp []
  · cases hp with
    | runJob id ranked retryMs => exact runJob_chosen id ranked retryMs
    | reassign b mode driverFault => exact reassign_chosen mode driverFault
    | unable b d reason hk => simp at hk
    | accept b d hk => simp at hk
    | resolve b d outcome hk => simp at hk
    | revokeDrivers b ds hk => simp at hk

variable {s₀ w : World} {cs : List (Call Step World Failure)} {es : List (ℕ × Event Step World)}

/-- How often a row of the pair is created as `offered`. -/
def timesAsked (b d : ℕ) (es : List (ℕ × Event Step World)) : ℕ := es.countP (·.2.label.asks b d)

/-- An answer that finds an open offer of the pair. -/
def Answers (b d : ℕ) (e : Event Step World) : Prop :=
  ((∃ outcome, e.label = .resolveOffer b d outcome) ∨ ∃ suspended, e.label = .accept b d suspended) ∧
    e.before.attempts.any (World.isOffered b d) = true

/-- Nobody has asked the driver between the look that found them without an attempt
and the offer. -/
def StillUnasked (b d n : ℕ) (pre : List (ℕ × Event Step World)) : Prop :=
  ∃ (pre' : List (ℕ × Event Step World)) (r : Event Step World) (between : List (ℕ × Event Step World)),
    pre = pre' ++ (n, r) :: between ∧ r.label = .read ∧
    r.before.asked b d = false ∧ ∀ x ∈ between, x.2.label.asks b d = false

theorem asked_after {s t : World} {es : List (Event Step World)} (h : Chained s es t)
    (hrun : ∀ e ∈ es, e.after = e.before.run e.label) {e : Event Step World} (he : e ∈ es)
    (hasks : e.label.asks b d = true) : t.asked b d = true := by
  obtain ⟨pre, post, rfl⟩ := List.append_of_mem he
  obtain ⟨u, -, -, hpost⟩ := h.of_append
  have hhere : e.after.asked b d = true := by
    rw [hrun e (by simp)]
    exact World.asked_of_asks hasks
  refine (hpost.invariant (I := fun w ↦ w.asked b d = true) hhere fun e' he' h ↦ ?_).1
  rw [hrun e' (by simp [he'])]
  exact World.asked_run _ h

/-- There are no more open offers of a pair than rows created as `offered`. -/
theorem openOffers_le (h : Chained s₀ (es.map (·.2)) w)
    (hrun : ∀ e ∈ es, e.2.after = e.2.before.run e.2.label) (h₀ : s₀.attempts = []) :
    w.openOffers b d ≤ timesAsked b d es := by
  have hmap : timesAsked b d es = (es.map (·.2)).countP (·.label.asks b d) := by
    rw [List.countP_map]
    rfl
  rw [hmap]
  refine h.history (J := fun past w ↦ w.openOffers b d ≤ past.countP (·.label.asks b d))
    (by simp [World.openOffers, h₀]) fun past e he ih ↦ ?_
  obtain ⟨x, hx, rfl⟩ := List.mem_map.mp he
  have hstep := World.openOffers_run (w := x.2.before) (b := b) (d := d) x.2.label
  rw [hrun x hx, List.countP_append, List.countP_singleton]
  omega

/-- Each driver is asked at most once about a booking, and every answer finds one row,
exactly if nobody asks them between the look at the attempts and the offer. -/
theorem asked_once_iff (h : Calls (Operates env) s₀ cs w es) (h₀ : s₀.attempts = []) :
    ((∀ b d, timesAsked b d es ≤ 1) ∧
        ∀ e ∈ es, ∀ b d, Answers b d e.2 → e.2.before.openOffers b d = 1) ↔
      ∀ pre n e post, es = pre ++ (n, e) :: post → ∀ b d, e.label.asks b d = true →
        StillUnasked b d n pre := by
  have hrun : ∀ e ∈ es, e.2.after = e.2.before.run e.2.label := h.committed
  constructor
  · rintro ⟨honce, -⟩ pre n e post heq b d hasks
    obtain ⟨c, -, hchosen⟩ := (h.heeds fun p hp ↦ operates_chosen hp).1 pre n e post heq
    obtain ⟨r, hr, hread, hunasked⟩ := hchosen b d hasks
    obtain ⟨pre', between, rfl⟩ := of_mem_own hr
    refine ⟨pre', r, between, rfl, hread, hunasked, fun x hx ↦ ?_⟩
    by_contra hx'
    have hpos : 0 < timesAsked b d between :=
      List.countP_pos_iff.mpr ⟨x, hx, by simpa using hx'⟩
    have hcount := honce b d
    simp only [timesAsked, heq, List.countP_append, List.countP_cons, hasks] at hcount hpos
    simp at hcount
    omega
  · intro hstill
    have honce (b d : ℕ) : timesAsked b d es ≤ 1 := by
      refine countP_le_one fun pre x post heq hasks y hy ↦ ?_
      obtain ⟨pre', r, between, rfl, hread, hunasked, hbetween⟩ := hstill pre x.1 x.2 post heq b d hasks
      rcases List.mem_append.mp hy with hy | hy
      · -- An earlier offer would have been there for the look to find.
        by_contra hy'
        have hchain : Chained s₀ (pre'.map (·.2)) r.before :=
          h.upto (n := x.1) (e := r) (heq.trans (List.append_assoc _ _ _))
        have hasked := asked_after hchain (fun e he ↦ ?_) (List.mem_map_of_mem hy)
          (Bool.of_not_eq_false hy')
        · simp [hunasked] at hasked
        · obtain ⟨z, hz, rfl⟩ := List.mem_map.mp he
          exact hrun z (by simp [heq, hz])
      · rcases List.mem_cons.mp hy with rfl | hy
        · simp [hread, Step.asks]
        · exact hbetween y hy
    refine ⟨honce, fun e he b d hanswers ↦ ?_⟩
    obtain ⟨pre, post, heq⟩ := List.append_of_mem he
    have hopen := openOffers_le (b := b) (d := d) (h.upto heq)
      (fun x hx ↦ hrun x (by simp [heq, hx])) h₀
    have hcount := honce b d
    rw [heq, timesAsked, List.countP_append] at hcount
    have hpos : 0 < e.2.before.openOffers b d := by
      obtain ⟨a, ha, hoffered⟩ := List.any_eq_true.mp hanswers.2
      exact List.countP_pos_iff.mpr ⟨a, ha, hoffered⟩
    simp only [timesAsked] at hopen
    omega

/-- An operator gives the booking to driver 8, whom a wave asks too. -/
def sampleExclusive : List (Request Unit) :=
  sampleAssigned ++
    [money (Proc.write (.tick 20000)),
      AdminBookingsService.reassign sampleEnv 0 (.offerToDriver 8 [8]) false,
      DispatchService.runJob sampleEnv (.wave 0 1) [8] none, OfferService.reject 0 8]

theorem sampleExclusive_operates : ∀ p ∈ sampleExclusive, Operates sampleEnv p := by
  intro p hp
  rcases List.mem_append.mp hp with hp | hp
  · exact sampleAssigned_operates hp
  · simp only [List.mem_cons, List.not_mem_nil, or_false] at hp
    rcases hp with rfl | rfl | rfl | rfl
    · exact .pays (.outside _ rfl)
    · exact .reassign 0 _ false
    · exact .runJob (.wave 0 1) [8] none
    · exact .reject 0 8

/-- The operator's request stops between its selection and its offer, until the
driver has declined the wave's. -/
def staleTurns : List ℕ :=
  [0, 1, 2, 3, 4].flatMap (List.replicate 20) ++ List.replicate 8 5 ++
    [6, 7, 5].flatMap (List.replicate 20)

theorem asked_twice : ¬∀ (env : Env) (s₀ w : World) (cs : List (Call Step World Failure))
    (es : List (ℕ × Event Step World)), Calls (Operates env) s₀ cs w es → s₀.attempts = [] →
      ∀ b d, timesAsked b d es ≤ 1 := by
  intro h
  have honce := h sampleEnv _ _ _ _ (tripsRun_calls sampleExclusive_operates staleTurns) rfl 0 8
  have htwice : timesAsked 0 8 (tripsRun sampleExclusive staleTurns).2.2 = 2 := by decide +kernel
  omega

/-- The first of them one after the other, up to the accept. -/
def calmTurns : List ℕ := [0, 1, 2, 3].flatMap (List.replicate 20)

theorem asked_once_iff_sample :
    (((∀ b d, timesAsked b d (tripsRun sampleExclusive calmTurns).2.2 ≤ 1) ∧
        ∀ e ∈ (tripsRun sampleExclusive calmTurns).2.2, ∀ b d, Answers b d e.2 →
          e.2.before.openOffers b d = 1) ↔
      ∀ pre n e post, (tripsRun sampleExclusive calmTurns).2.2 = pre ++ (n, e) :: post →
        ∀ b d, e.label.asks b d = true → StillUnasked b d n pre) ∧
    timesAsked 0 7 (tripsRun sampleExclusive calmTurns).2.2 = 1 :=
  ⟨asked_once_iff (tripsRun_calls sampleExclusive_operates calmTurns) rfl, by decide +kernel⟩

end Towing.Trips
