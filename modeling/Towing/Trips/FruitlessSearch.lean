import Towing.Trips.Cancelling

namespace Towing.Trips

open Towing.Process Towing.Money

variable {env : Env} {g : ℕ → Prop} {w w₀ : World} {es : List (Event Step World)} {b : ℕ} {l : Step} {r : Row}

/-- A booking that nobody has accepted: it is searched for, given up or cancelled. -/
def Fruitless (r : Row) : Prop :=
  ((r.booking.status = .searching ∨ r.booking.status = .noDriversFound) ∧
    r.booking.driverId = none ∧ rowError r = none) ∨ r.booking.status = .cancelled

/-- What of a row its checks look at. -/
theorem rowError_congr {r r' : Row} (hb : Money.World.bookingError r'.booking = Money.World.bookingError r.booking)
    (htax : r'.booking.taxAmount = r.booking.taxAmount)
    (hfee : r'.trip.cancellationFee = r.trip.cancellationFee)
    (hcomp : r'.trip.driverCompensation = r.trip.driverCompensation)
    (hby : r'.trip.cancelledBy = r.trip.cancelledBy) : rowError r' = rowError r := by
  simp only [rowError, hb, htax, hfee, hcomp, hby]

theorem Fruitless.moved {m : Move} (h : Fruitless r) (hm : Sanctioned env g m)
    (hl : m.target ∈ legalTransitions r.booking.status) : Fruitless (World.movedRow m r) := by
  rcases h with ⟨hs, hd, he⟩ | hs
  · have hto : m.target = .searching ∨ m.target = .noDriversFound ∨ m.target = .cancelled ∨
        m.target = .assigned := by
      rcases hs with hs | hs <;> rw [hs] at hl <;> simp [legalTransitions] at hl <;> tauto
    cases hm with
    | customerCancel | adminCancel | suspension => exact .inr rfl
    | retrySearch | overrideSearching => exact .inl ⟨.inl rfl, hd, he⟩
    | unable | reassign => exact .inl ⟨.inl rfl, rfl, he⟩
    | giveUp => exact .inl ⟨.inr rfl, hd, he⟩
    | _ => simp at hto
  · rw [hs] at hl
    simp [legalTransitions] at hl

theorem Fruitless.step {o : Option Row} (h : ∀ r, w.core b = some r → Fruitless r)
    (hshift : World.Shift env g w b l o) (hnone : w.accepted b l = none) :
    ∀ r, o = some r → Fruitless r := by
  have hrow {r : Row} (hr : w.row b = some r) : Fruitless r := h r.core (World.core_some hr)
  have hlegal {r : Row} {s : BookingStatus} (hr : w.row b = some r)
      (hl : s ∈ legalTransitions r.booking.status) (hs : s = .paid ∨ s = .disputed) : False := by
    rcases hrow hr with ⟨hst, -⟩ | hst
    · rcases hst with hst | hst <;> rw [hst] at hl <;> rcases hs with rfl | rfl <;>
        simp [legalTransitions] at hl
    · rw [hst] at hl
      simp [legalTransitions] at hl
  intro r' ho
  cases hshift with
  | same => exact h r' ho
  | create p discount couponId hnew he =>
    cases ho
    refine .inl ⟨.inl ?_, ?_, he⟩
    · unfold World.pricedRow
      dsimp only
      split_ifs <;> rfl
    · unfold World.pricedRow
      dsimp only
      split_ifs <;> rfl
  | reprice hl hr hs =>
    rcases hrow hr with ⟨hst, -⟩ | hst
    · rcases hst with hst | hst <;> rw [hst] at hs <;> cases hs
    · rw [hst] at hs
      cases hs
  | paid hr hl hg => exact (hlegal hr hl (.inl rfl)).elim
  | dispute hr hl => exact (hlegal hr hl (.inr rfl)).elim
  | accept hr ho hs hterms =>
    rw [hterms] at hnone
    cases hnone
  | move hm hb hr he hl =>
    cases ho
    exact (hrow hr).moved hm hl

/-- Until somebody accepts, a booking stays with nobody on it. -/
theorem fruitless_runs {ps : List (Request Unit)} (h₀ : ∀ b, w₀.row b = none)
    (h : Runs (Operates env) w₀ ps w es) (hnone : accepts b es = []) (hr : w.row b = some r) :
    Fruitless r := by
  have hissued := (Runs.only (fun p hp ↦ operates_only hp) h).1
  have hrun := h.committed
  have hinv := h.chained.invariant (I := fun w ↦ ∀ r, w.core b = some r → Fruitless r)
    (by simp [World.core, h₀ b]) fun e he hbefore ↦ ?_
  · exact hinv.1 r.core (World.core_some hr)
  · have haccept : e.before.accepted b e.label = none := by
      by_contra hne
      obtain ⟨t, ht⟩ := Option.ne_none_iff_exists'.mp hne
      have : t ∈ accepts b es := List.mem_filterMap.mpr ⟨e, he, ht⟩
      rw [hnone] at this
      cases this
    have hshift := World.shift_run (w := e.before) (b := b) (hissued e he)
    have hafter : e.after = e.before.run e.label := hrun e he
    rw [← hafter] at hshift
    exact Fruitless.step hbefore hshift haccept

/-! Cancelling one. -/

theorem policy_unassigned (config : CancellationConfig) (now : ℕ)
    (hs : r.booking.status = .searching ∨ r.booking.status = .noDriversFound) :
    ((cancellationPolicy r.booking.status r.booking.createdAt r.booking.baseFare now config
        false).tier = .free ↔
      r.booking.status = .searching ∨ now ≤ r.booking.createdAt + config.freeWindowMs) ∧
    ((cancellationPolicy r.booking.status r.booking.createdAt r.booking.baseFare now config
        false).tier = .free →
      (cancellationPolicy r.booking.status r.booking.createdAt r.booking.baseFare now config
        false).feePaise = 0) ∧
    (cancellationPolicy r.booking.status r.booking.createdAt r.booking.baseFare now config
      false).driverCompensationPaise = 0 := by
  unfold cancellationPolicy
  rcases hs with hs | hs
  · simp [hs]
  · simp only [hs, driverCommitted]
    by_cases hfree : now ≤ r.booking.createdAt + config.freeWindowMs
    · have : ((now : ℤ) - r.booking.createdAt ≤ config.freeWindowMs) := by omega
      simp [this, hfree]
    · have : ¬((now : ℤ) - r.booking.createdAt ≤ config.freeWindowMs) := by omega
      simp only [this, hfree]
      by_cases hpart : (now : ℤ) - r.booking.createdAt ≤ config.partialWindowMs <;> simp [hpart]

/-- A cancellation for nothing goes through, whatever it carries. -/
theorem cancel_free (body : BookingsService.BookingCancel) (hr : w.row b = some r)
    (hstand : r.booking.status = .searching ∨ r.booking.status = .noDriversFound)
    (hd : r.booking.driverId = none) (he : rowError r = none)
    (hfree : (cancellationPolicy r.booking.status r.booking.createdAt r.booking.baseFare w.now
      env.charges false).tier = .free) :
    ∃ w', (BookingsService.cancel env r.booking.userId b body).exec w = (.ok ⟨.free, 0, 0⟩, w') ∧
      w'.status b = some .cancelled := by
  obtain ⟨-, hfee, hcomp⟩ := policy_unassigned env.charges w.now hstand
  have hfee := hfee hfree
  let i : CancellationInputs := .of r.booking none w.now
  have hout : i.outcome env.charges = cancellationPolicy r.booking.status r.booking.createdAt
      r.booking.baseFare w.now env.charges false := by
    simp [i, CancellationInputs.outcome, CancellationInputs.of, hd]
  let m : Move := ⟨b, .cancelled, .cancellation "customer" body.reason 0 0,
    decide (CancellationTier.free = .free), .customerCancel i⟩
  have hlegal : .cancelled ∈ legalTransitions r.booking.status := by
    rcases hstand with hs | hs <;> rw [hs] <;> decide
  have hmove : w.moveError m = none :=
    moveError_cancelled rfl hr hlegal he (rowError_cancellation he rfl le_rfl le_rfl) rfl
  obtain ⟨r', -, -, hrow⟩ := World.move_row hmove
  obtain ⟨w', hafter, hmoney⟩ := afterCancel_alone (b := b) 0
    ("Cancellation compensation (" ++ tierLabel .free ++ ")") (w.move m)
  refine ⟨w', ?_, ?_⟩
  · rw [BookingsService.cancel, Proc.bind_eq, cancellationFor_next hr]
    change ((Proc.when ((i.outcome env.charges).tier ≠ .free) _).bind _).exec w = _
    rw [hout, hfree, hfee, hcomp, Proc.when_neg (by simp), Proc.bind_ok, Proc.bind_eq,
      transition_next hmove, Proc.bind_eq]
    have hdriver : i.driverId = none := hd
    rw [hdriver, Proc.exec_next hafter]
    rfl
  · have hstatus : (w.move m).status b = some .cancelled := by
      rw [World.core_status, World.core_some hrow]
      rfl
    simpa [World.status, hmoney] using hstatus

/-- A booking nobody has accepted can be cancelled for nothing exactly while it is
searched for, or within the free window of its creation. -/
theorem fruitless_free_iff {ps : List (Request Unit)} (h₀ : ∀ b, w₀.row b = none)
    (h : Runs (Operates env) w₀ ps w es) (hnone : accepts b es = []) (hr : w.row b = some r)
    (hstands : r.booking.status ≠ .cancelled) (body : BookingsService.BookingCancel) :
    (∃ w', (BookingsService.cancel env r.booking.userId b body).exec w = (.ok ⟨.free, 0, 0⟩, w') ∧
        w'.status b = some .cancelled) ↔
      r.booking.status = .searching ∨ w.now ≤ r.booking.createdAt + env.charges.freeWindowMs := by
  obtain ⟨hs, hd, he⟩ : (r.booking.status = .searching ∨ r.booking.status = .noDriversFound) ∧
      r.booking.driverId = none ∧ rowError r = none := by
    rcases fruitless_runs h₀ h hnone hr with hf | hf
    · exact hf
    · exact absurd hf hstands
  rw [← (policy_unassigned env.charges w.now hs).1]
  constructor
  · intro hfree
    obtain ⟨w', hexec, -⟩ := hfree
    rw [BookingsService.cancel, Proc.bind_eq, cancellationFor_next hr] at hexec
    obtain ⟨-, w₁, -, hexec⟩ := Proc.exec_bind_ok.mp hexec
    obtain ⟨-, w₂, -, hexec⟩ := Proc.exec_bind_ok.mp hexec
    obtain ⟨-, w₃, -, hexec⟩ := Proc.exec_bind_ok.mp hexec
    have hanswer := Except.ok.inj (congrArg Prod.fst hexec)
    have htier := congrArg BookingsService.BookingCancelResponse.tier hanswer
    simpa [CancellationInputs.outcome, CancellationInputs.of, hd] using htier
  · exact cancel_free body hr hs hd he

/-- A search that nobody answers, given up after its three minutes. -/
def sampleGivenUp : List (Request Unit) :=
  [BookingsService.create 0 sampleBooking, DispatchService.runJob sampleEnv (.dispatch 0) [] none,
    money (Proc.write (.tick 200000)), DispatchService.runJob sampleEnv (.wave 0 1) [] none]

theorem sampleGivenUp_runs : Runs (Operates sampleEnv) World.blank [] (runAll sampleGivenUp World.blank).1
    (runAll sampleGivenUp World.blank).2 := by
  refine (Uncut.runAll (fun p hp ↦ ?_) .start).serial.runs
  simp only [sampleGivenUp, List.mem_cons, List.not_mem_nil, or_false] at hp
  rcases hp with rfl | rfl | rfl | rfl
  · exact .create 0 sampleBooking
  · exact .runJob (.dispatch 0) [] none
  · exact .pays (.outside _ rfl)
  · exact .runJob (.wave 0 1) [] none

theorem sampleGivenUp_row : ∃ r, (runAll sampleGivenUp World.blank).1.row 0 = some r ∧
    r.booking.userId = 1 ∧ r.booking.status = .noDriversFound := by
  have h : ((runAll sampleGivenUp World.blank).1.row 0).map
      (fun r ↦ (r.booking.userId, r.booking.status)) = some (1, .noDriversFound) := by
    decide +kernel
  obtain ⟨r, hr, hpair⟩ := Option.map_eq_some_iff.mp h
  exact ⟨r, hr, congrArg Prod.fst hpair, congrArg Prod.snd hpair⟩

theorem sampleGivenUp_accepts : accepts 0 (runAll sampleGivenUp World.blank).2 = [] := by
  decide +kernel

theorem fruitless_free_iff_sample : ∃ r, (runAll sampleGivenUp World.blank).1.row 0 = some r ∧
    ((∃ w', (BookingsService.cancel sampleEnv r.booking.userId 0 ⟨none, none⟩).exec
        (runAll sampleGivenUp World.blank).1 = (.ok ⟨.free, 0, 0⟩, w') ∧
        w'.status 0 = some .cancelled) ↔
      r.booking.status = .searching ∨ (runAll sampleGivenUp World.blank).1.now ≤
        r.booking.createdAt + sampleEnv.charges.freeWindowMs) := by
  obtain ⟨r, hr, -, hs⟩ := sampleGivenUp_row
  have hstands : r.booking.status ≠ .cancelled := by
    rw [hs]
    decide
  exact ⟨r, hr, fruitless_free_iff (fun b ↦ rfl) sampleGivenUp_runs sampleGivenUp_accepts hr hstands
    ⟨none, none⟩⟩

/-- Nobody came, and the customer has to pay for it. -/
theorem fruitless_search_charged : ¬∀ (env : Env) (w₀ w : World) (ps : List (Request Unit))
    (es : List (Event Step World)) (b : ℕ) (r : Row), (∀ b, w₀.row b = none) →
      Runs (Operates env) w₀ ps w es → accepts b es = [] → w.row b = some r →
      r.booking.status ≠ .cancelled →
      ∃ w', (BookingsService.cancel env r.booking.userId b ⟨none, none⟩).exec w =
        (.ok ⟨.free, 0, 0⟩, w') ∧ w'.status b = some .cancelled := by
  intro h
  obtain ⟨r, hr, huser, hs⟩ := sampleGivenUp_row
  obtain ⟨w', hfree, -⟩ := h sampleEnv World.blank _ [] _ 0 r (fun b ↦ rfl) sampleGivenUp_runs
    sampleGivenUp_accepts hr (by rw [hs]; decide)
  have hcharged : ((BookingsService.cancel sampleEnv 1 0 ⟨none, none⟩).exec
      (runAll sampleGivenUp World.blank).1).1.isOk = false := by
    decide +kernel
  rw [huser] at hfree
  rw [hfree] at hcharged
  cases hcharged

end Towing.Trips
