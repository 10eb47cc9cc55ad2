import Towing.Process.Permits
import Towing.Trips.OfferWindows

namespace Towing.Trips

open Towing.Process Towing.Money

variable {env : Env} {b d : ℕ} {α : Type} {past : List (Event OfferingStep Offering)}

/-- Whether the step is part of making an offer. -/
def OfferingStep.offers : OfferingStep → Bool
  | .trips l => l.kind = some .offer
  | .recordOffer _ _ => true
  | _ => false

/-- The take of the driver's lock that an offer begins with, and its look at the clock. -/
structure Begins (d expiresAt : ℕ) (t c : Event OfferingStep Offering) : Prop where
  clock : c.label = .clock
  takes : ∃ timeoutSeconds, t.label = .trips (.takeOfferLock d
      (timeoutSeconds * 1000 + OfferService.offerLockGraceMs)) ∧
    expiresAt = c.before.now + timeoutSeconds * 1000
  free : t.before.trips.lockFree (t.before.trips.offerLocks d) = true

/-- How an offer is made: the lock first, then the clock, then the row, and the lock is
given back only when the row could not be written. -/
def MadeInOrder (past : List (Event OfferingStep Offering)) (l : OfferingStep) : Prop :=
  (∀ d ttl, l = .trips (.takeOfferLock d ttl) → past = []) ∧
  (∀ a x, l = .recordOffer a x → a.outcome = .offered ∧ ∃ t c, past = [t, c] ∧ Begins a.driverId x t c) ∧
  (∀ d, l = .trips (.releaseOfferLock d) →
    ∀ r ∈ past, ∀ a x, r.label = .recordOffer a x → r.before.insertFails = true) ∧
  ∀ a, l = .trips (.insertAttempt a) → a.outcome ≠ .offered

theorem inOrder_of_others {l : OfferingStep} (hl : l.offers = false)
    (hpast : ∀ r ∈ past, r.label.offers = false) : MadeInOrder past l := by
  refine ⟨fun d ttl h ↦ ?_, fun a x h ↦ ?_, fun d h r hr a x hlabel ↦ ?_, fun a h ha ↦ ?_⟩
  · subst h
    cases hl
  · subst h
    cases hl
  · have := hpast r hr
    rw [hlabel] at this
    cases this
  · subst h
    simp [OfferingStep.offers, Step.kind, ha] at hl

theorem heeds_others {p : OfferingRequest α} (h : p.Only fun l ↦ l.offers = false)
    (hpast : ∀ r ∈ past, r.label.offers = false) :
    p.Heeds MadeInOrder (fun _ past ↦ ∀ r ∈ past, r.label.offers = false) past :=
  Proc.Heeds.of_labels (P := fun l ↦ OfferingStep.offers l = false) h
    (fun _ _ hpast hl ↦ inOrder_of_others hl hpast) hpast

theorem only_beside {q : Request α} (h : Avoids .offer q) :
    (besideOffers q).Only fun l ↦ l.offers = false :=
  Proc.Only.lift (h.mono fun l hl ↦ by simpa [OfferingStep.offers] using hl)

theorem only_recompute : (Offering.recomputeAcceptanceRate d).Only fun l ↦ l.offers = false := by
  refine Proc.Only.bind ⟨rfl, fun _ ↦ trivial⟩ fun since ↦ ?_
  refine Proc.Only.bind ⟨rfl, fun _ ↦ trivial⟩ fun counts ↦ Proc.Only.when ⟨rfl, fun _ ↦ trivial⟩

theorem only_resolve (outcome : AttemptOutcome) :
    (Offering.resolve b d outcome).Only fun l ↦ l.offers = false := by
  have hresolve : Avoids .offer (OfferService.resolveOffer b d outcome) := avoids_attempt (by simp [Step.kind])
  refine (only_beside hresolve).bind fun moved ↦ Proc.Only.when ?_
  exact Proc.Only.bind ⟨rfl, fun _ ↦ trivial⟩ fun _ ↦ only_recompute

theorem avoids_resume (driverFault : Bool) :
    Avoids .offer (AdminBookingsService.reassign env b .resumeSearch driverFault) := by
  refine (avoids_check _).bind fun r ↦ ?_
  dsimp only
  split
  · trivial
  · refine (Proc.Only.when (avoids_throw _)).bind fun _ ↦ ?_
    refine (avoids_revokeAll (by simp) (by simp)).bind fun _ ↦ ?_
    refine (avoids_transition rfl).bind fun _ ↦ ?_
    refine (avoids_recordOutcome _ (by split_ifs <;> simp)).bind fun _ ↦ ?_
    exact avoids_redispatch (by simp) _

/-- Only an offer makes offers. -/
theorem only_offers {p : OfferingRequest Unit} (h : Offers env p) :
    (p.Only fun l ↦ l.offers = false) ∨ ∃ b d wave timeoutSeconds,
      p = (Offering.offer b d wave timeoutSeconds).ignore := by
  cases h with
  | offer b d wave timeoutSeconds => exact .inr ⟨b, d, wave, timeoutSeconds, rfl⟩
  | expire b d => exact .inl (only_resolve _)
  | reject b d => exact .inl (only_resolve _)
  | accept b d =>
    exact .inl ((only_beside (avoids_accept (by simp) (by simp) (by simp) d)).bind fun _ ↦ only_recompute)
  | revokeDrivers b ds => exact .inl (only_beside (avoids_revokeDrivers (by simp) (by simp) ds))
  | revokeAll b => exact .inl (only_beside (avoids_revokeAll (by simp) (by simp)))
  | giveUp b => exact .inl (only_beside (avoids_transition rfl))
  | reassign b driverFault => exact .inl (only_beside (avoids_resume driverFault))
  | operates h hq ha ho => exact .inl (only_beside ho)
  | setInsertFails fails => exact .inl ⟨rfl, fun _ ↦ trivial⟩

theorem offer_inOrder (b d wave timeoutSeconds : ℕ) :
    (Offering.offer b d wave timeoutSeconds).ignore.Heeds MadeInOrder (fun _ _ ↦ True) [] := by
  rw [Proc.ignore, Offering.offer]
  refine ⟨⟨fun d ttl h ↦ rfl, (by simp), (by simp), (by simp)⟩, fun s ↦ ?_⟩
  simp only [Proc.bind_ok]
  cases hfree : s.trips.lockFree (s.trips.offerLocks d) with
  | false => trivial
  | true =>
    refine ⟨⟨(by simp), (by simp), (by simp), (by simp)⟩, fun c ↦ ?_⟩
    simp only [Proc.bind_ok]
    refine ⟨⟨(by simp), fun a x h ↦ ?_, (by simp), (by simp)⟩, fun r ↦ ?_⟩
    · cases h
      exact ⟨rfl, _, _, rfl, rfl, ⟨timeoutSeconds, rfl, rfl⟩, hfree⟩
    · cases hfails : r.insertFails with
      | true =>
        -- The row was refused: the lock is given back, and the offer ends.
        simp only [hfails, if_true]
        refine ⟨⟨(by simp), (by simp), fun d' h x hx a expiresAt hlabel ↦ ?_, (by simp)⟩, fun _ ↦ trivial⟩
        simp only [List.nil_append, List.cons_append, List.mem_cons, List.not_mem_nil, or_false] at hx
        rcases hx with rfl | rfl | rfl
        · cases hlabel
        · cases hlabel
        · exact hfails
      | false =>
        simp only [hfails, Bool.false_eq_true, if_false]
        refine ⟨⟨(by simp), (by simp), (by simp), (by simp)⟩, fun t ↦ ?_⟩
        cases hup : t.trips.queueUp <;> simp only [hup] <;> trivial

theorem offers_inOrder {p : OfferingRequest Unit} (h : Offers env p) :
    p.Heeds MadeInOrder (fun _ _ ↦ True) [] := by
  rcases only_offers h with hothers | ⟨b, d, wave, timeoutSeconds, rfl⟩
  · exact (heeds_others hothers (by simp)).mono (fun _ _ h ↦ h) fun _ _ _ ↦ trivial
  · exact offer_inOrder b d wave timeoutSeconds

/-! What the steps make of a lock, and of a row of the attempts. -/

theorem World.offerLocks_run {w : World} {l : Step}
    (htake : ∀ ttl, l = .takeOfferLock d ttl → w.lockFree (w.offerLocks d) = false)
    (hrelease : l ≠ .releaseOfferLock d) : (w.run l).offerLocks d = w.offerLocks d := by
  have hmove {w : World} (m : Move) : (w.move m).offerLocks d = w.offerLocks d := by
    unfold World.move
    split <;> rfl
  cases l with
  | create c p =>
    cases hp : w.place c p with
    | error e => simp [run, hp, Except.toOption]
    | ok w' =>
      obtain ⟨-, -, discount, couponId, money, -, -, -, rfl⟩ := place_ok hp
      simp only [run, hp, Except.toOption, Option.getD_some]
      rfl
  | move m => exact hmove m
  | accept c d' suspended =>
    cases hp : w.acceptOffer c d' suspended with
    | error e => simp [run, hp, Except.toOption]
    | ok w' =>
      obtain ⟨driver, -, -, -, rfl⟩ := acceptOffer_ok hp
      simp only [run, hp, Except.toOption, Option.getD_some]
      exact hmove _
  | openDispute c openedFrom =>
    simp only [run]
    split_ifs
    · rfl
    · exact hmove _
  | takeOfferLock d' ttl =>
    simp only [run]
    split_ifs with hfree
    · have hne : d ≠ d' := by
        rintro rfl
        rw [htake ttl rfl] at hfree
        cases hfree
      exact Function.update_of_ne hne _ _
    · rfl
  | releaseOfferLock d' =>
    have hne : d ≠ d' := fun h ↦ hrelease (h ▸ rfl)
    exact Function.update_of_ne hne _ _
  | takeSearchLock | enqueue =>
    simp only [run]
    split_ifs <;> rfl
  | _ => rfl

/-- A row of the attempts keeps its pair, and an answer once it has one. -/
def Settles (w w' : World) : Prop :=
  ∀ (i : ℕ) (a : Attempt), w.attempts[i]? = some a → ∃ a' : Attempt, w'.attempts[i]? = some a' ∧
    a'.bookingId = a.bookingId ∧ a'.driverId = a.driverId ∧ (a.outcome ≠ .offered → a'.outcome ≠ .offered)

theorem settles_run (w : World) (l : Step) : Settles w (w.run l) := by
  intro i a ha
  refine ⟨{ a with outcome := l.outcome w a }, ?_, rfl, rfl, fun hne hoffered ↦ ?_⟩
  · rw [World.attempts_run, List.getElem?_append_left, List.getElem?_map, ha]
    · rfl
    · rw [List.length_map]
      exact (List.getElem?_eq_some_iff.mp ha).1
  · have hopen : World.isOffered a.bookingId a.driverId { a with outcome := l.outcome w a } = true := by
      simpa [World.isOffered] using hoffered
    have := World.isOffered_outcome hopen
    simp [World.isOffered, hne] at this

theorem Settles.refl (w : World) : Settles w w := fun _ a h ↦ ⟨a, h, rfl, rfl, id⟩

theorem Settles.trans {w₁ w₂ w₃ : World} (h : Settles w₁ w₂) (h' : Settles w₂ w₃) : Settles w₁ w₃ := by
  intro i a ha
  obtain ⟨a', ha', hb, hd, ho⟩ := h i a ha
  obtain ⟨a'', ha'', hb', hd', ho'⟩ := h' i a' ha'
  exact ⟨a'', ha'', hb'.trans hb, hd'.trans hd, fun hne ↦ ho' (ho hne)⟩

theorem Offering.settles_run (w : Offering) (l : OfferingStep) : Settles w.trips (w.run l).trips := by
  cases l with
  | trips l => exact Trips.settles_run w.trips l
  | recordOffer a expiresAt =>
    simp only [Offering.run]
    split_ifs
    · exact .refl _
    · exact Trips.settles_run w.trips (.insertAttempt a)
  | _ => exact .refl _

theorem Offering.le_now_run (w : Offering) (l : OfferingStep) : w.now ≤ (w.run l).now := by
  cases l with
  | trips l => exact World.le_now_run w.trips l
  | recordOffer a expiresAt =>
    simp only [Offering.run]
    split_ifs <;> exact le_rfl
  | _ => exact le_rfl

/-- An answer to the pair's offer that goes through. -/
def Answered (b d : ℕ) (e : Event OfferingStep Offering) : Prop :=
  (∃ outcome, outcome ≠ .offered ∧ e.label = .trips (.resolveOffer b d outcome)) ∨
  (∃ d', d' ≠ d ∧ e.label = .trips (.revokeOutstanding b d')) ∨
  ∃ suspended, e.label = .trips (.accept b d suspended) ∧ (e.before.trips.acceptOffer b d suspended).isOk = true

/-- It leaves no offer of the pair open. -/
theorem closed_of_answered {w : Offering} {l : OfferingStep} (h : Answered b d ⟨l, w, w.run l⟩)
    {i : ℕ} {a : Attempt} (ha : w.trips.attempts[i]? = some a) (hb : a.bookingId = b) (hd : a.driverId = d) :
    ∃ a' : Attempt, (w.run l).trips.attempts[i]? = some a' ∧ a'.outcome ≠ .offered := by
  have hstep (l : Step) (hl : l.outcome w.trips a ≠ .offered) :
      ∃ a' : Attempt, ((w.run (.trips l)).trips.attempts)[i]? = some a' ∧ a'.outcome ≠ .offered := by
    refine ⟨{ a with outcome := l.outcome w.trips a }, ?_, hl⟩
    change (w.trips.run l).attempts[i]? = _
    rw [World.attempts_run, List.getElem?_append_left, List.getElem?_map, ha]
    · rfl
    · rw [List.length_map]
      exact (List.getElem?_eq_some_iff.mp ha).1
  subst hb hd
  rcases h with ⟨outcome, hne, hl⟩ | ⟨d', hne, hl⟩ | ⟨suspended, hl, hok⟩
  · dsimp only at hl
    subst hl
    refine hstep _ ?_
    simp only [Step.outcome, World.isOffered]
    split_ifs with ho
    · exact hne
    · simpa using ho
  · dsimp only at hl
    subst hl
    refine hstep _ ?_
    simp only [Step.outcome]
    split_ifs with ho
    · simp
    · simpa [Ne.symm hne] using ho
  · dsimp only at hl hok
    subst hl
    refine hstep _ ?_
    simp only [Step.outcome, hok, Bool.and_true, World.isOffered]
    split_ifs with ho
    · simp
    · simpa using ho

/-! Over the runs. -/

variable {s₀ w : Offering} {cs : List (Call OfferingStep Offering Failure)}
  {es : List (ℕ × Event OfferingStep Offering)} {i j k m n : ℕ} {e f t : Event OfferingStep Offering}

/-- The driver's lock is taken, until then. -/
def LocksUntil (d expiresAt : ℕ) (e : Event OfferingStep Offering) : Prop :=
  ∃ ttl, e.label = .trips (.takeOfferLock d ttl) ∧ expiresAt = e.before.now + ttl ∧
    e.before.trips.lockFree (e.before.trips.offerLocks d) = true

def Frees (d : ℕ) (e : Event OfferingStep Offering) : Prop := e.label = .trips (.releaseOfferLock d)

/-- Nobody takes or frees the driver's lock between the two commits. -/
def Untouched (es : List (ℕ × Event OfferingStep Offering)) (d i j : ℕ) : Prop :=
  ∀ k n e, i < k → k < j → Makes es k n e → (∀ expiresAt, ¬LocksUntil d expiresAt e) ∧ ¬Frees d e

/-- The offer of the driver that request `m` makes has been answered by request `n`
before commit `j`. -/
def AnsweredBy (es : List (ℕ × Event OfferingStep Offering)) (d m n j : ℕ) : Prop :=
  ∃ i k e f a expiresAt, i < k ∧ k < j ∧ Makes es i m e ∧ e.label = .recordOffer a expiresAt ∧
    a.driverId = d ∧ Makes es k n f ∧ Answered a.bookingId d f

/-- A lock in force is freed only by the offer that has taken it, or by who has answered
that offer, and an offer looks at the clock within the grace it locks its driver for. -/
structure OwnLocks (es : List (ℕ × Event OfferingStep Offering)) : Prop where
  frees : ∀ j n e d, Makes es j n e → Frees d e →
    ∀ i m t expiresAt, i < j → Makes es i m t → LocksUntil d expiresAt t → Untouched es d i j →
      e.before.now < expiresAt → m = n ∨ AnsweredBy es d m n j
  prompt : ∀ i j n t c d expiresAt, i < j → Makes es i n t → Makes es j n c → LocksUntil d expiresAt t →
    c.label = .clock → c.before.now ≤ t.before.now + OfferService.offerLockGraceMs

/-- The offer in the row may be answered at the instant. -/
def OnOffer (w : Offering) (d i x : ℕ) : Prop :=
  ∃ a offeredAt expiresAt, w.trips.attempts[i]? = some a ∧ a.driverId = d ∧ a.outcome = .offered ∧
    w.windows i = some (offeredAt, expiresAt) ∧ offeredAt ≤ x ∧ x < expiresAt

theorem Offers.run_of_makes (h : Calls (Offers env) s₀ cs w es) (he : Makes es i n e) :
    e.after = e.before.run e.label := h.commit_at he

theorem Offers.clock_later (h : Calls (Offers env) s₀ cs w es) (hij : i ≤ j) (he : Makes es i m e)
    (hf : Makes es j n f) : e.before.now ≤ f.before.now :=
  h.rel_later (R := fun s t ↦ s.now ≤ t.now) (fun _ ↦ le_rfl) (fun _ _ _ ↦ le_trans)
    (fun _ _ ↦ Offering.le_now_run _ _) hij he hf

theorem Offers.settles_later (h : Calls (Offers env) s₀ cs w es) (hij : i ≤ j) (he : Makes es i m e)
    (hf : Makes es j n f) : Settles e.before.trips f.before.trips :=
  h.rel_later (R := fun s t ↦ Settles s.trips t.trips) (fun _ ↦ .refl _)
    (fun s t _ (h : Settles s.trips t.trips) h' ↦ h.trans h') (fun _ _ ↦ Offering.settles_run _ _) hij he hf

/-- Request `m` has locked the driver at `i` until `expiry`, and made its offer at `j`. -/
structure Made (es : List (ℕ × Event OfferingStep Offering)) (d expiry m i j : ℕ) (a : Attempt)
    (t f : Event OfferingStep Offering) : Prop where
  takes : Makes es i m t
  records : Makes es j m f
  order : i < j
  label : ∃ expiresAt, f.label = .recordOffer a expiresAt
  stored : f.before.insertFails = false
  driver : a.driverId = d
  locks : LocksUntil d expiry t

theorem windows_brought {l : OfferingStep} {kept : ℕ × ℕ} (hnot : w.windows i ≠ some kept)
    (h : (w.run l).windows i = some kept) : ∃ a, l = .recordOffer a kept.2 ∧ w.insertFails = false ∧
      i = w.trips.attempts.length ∧ kept.1 = w.now := by
  cases l with
  | recordOffer a expiresAt =>
    simp only [Offering.run] at h
    split_ifs at h with hfails
    · exact absurd h hnot
    · dsimp only at h
      by_cases hi : i = w.trips.attempts.length
      · subst hi
        rw [Function.update_self] at h
        obtain rfl := Option.some.inj h
        exact ⟨a, rfl, by simpa using hfails, rfl, rfl⟩
      · rw [Function.update_of_ne hi] at h
        exact absurd h hnot
  | _ => exact absurd h hnot

/-- The commit after an event finds what it has left. -/
theorem before_next (h : Calls (Offers env) s₀ cs w es) (hjk : j < k) (hf : Makes es j m f)
    (he : Makes es k n e) : ∃ n' g, Makes es (j + 1) n' g ∧ g.before = f.before.run f.label := by
  obtain ⟨g, hg⟩ := getElem?_earlier (Nat.succ_le_of_lt hjk) he.event
  obtain ⟨n', hg'⟩ := makes_of_event hg
  exact ⟨n', g, hg', (h.chained.next hf.event hg).trans (Offers.run_of_makes h hf)⟩

/-- The row an offer has written is there for good. -/
theorem row_of_records (h : Calls (Offers env) s₀ cs w es) {a : Attempt} {x : ℕ} (hf : Makes es j m f)
    (hlabel : f.label = .recordOffer a x) (hstored : f.before.insertFails = false) (hjk : j < k)
    (he : Makes es k n e) :
    ∃ b : Attempt, e.before.trips.attempts[f.before.trips.attempts.length]? = some b ∧
      b.bookingId = a.bookingId ∧ b.driverId = a.driverId := by
  obtain ⟨n', g, hg, hbefore⟩ := before_next h hjk hf he
  have hrow : g.before.trips.attempts[f.before.trips.attempts.length]? = some a := by
    rw [hbefore, hlabel]
    simp [Offering.run, hstored, World.run]
  obtain ⟨b, hb, hbooking, hdriver, -⟩ := Offers.settles_later h (Nat.succ_le_of_lt hjk) hg he _ a hrow
  exact ⟨b, hb, hbooking, hdriver⟩

/-- Every open offer has been made, by a request that had locked the driver at least
until the offer's window ends. -/
theorem made_of_open (h : Calls (Offers env) s₀ cs w es) (hs : ∀ i, s₀.windows i = none)
    (hown : OwnLocks es) (he : Makes es k n e) {row x : ℕ} (hopen : OnOffer e.before d row x) :
    ∃ expiry m i j a t f, Made es d expiry m i j a t f ∧ j < k ∧ row = f.before.trips.attempts.length ∧
      f.before.now ≤ x ∧ x < expiry := by
  obtain ⟨b, offeredAt, expiresAt, hb, hd, hoffered, hwindow, hfrom, huntil⟩ := hopen
  obtain ⟨j, f, hj, hf, hnot, hafter, -⟩ := h.chained.origin
    (R := fun w ↦ w.windows row = some (offeredAt, expiresAt)) (by simp [hs]) he.event hwindow
  obtain ⟨m, hf⟩ := makes_of_event hf
  rw [Offers.run_of_makes h hf] at hafter
  obtain ⟨a, hlabel, hstored, hrow, hnow⟩ := windows_brought hnot hafter
  obtain ⟨c, -, -, horder, -⟩ := h.heeds_at (fun p hp ↦ offers_inOrder hp) hf
  obtain ⟨-, t, g, hpast, hbegins⟩ := horder a _ hlabel
  obtain ⟨timeoutSeconds, htake, hexpires⟩ := hbegins.takes
  have htmem : t ∈ own m (es.take j) := by simp [hpast]
  have hgmem : g ∈ own m (es.take j) := by simp [hpast]
  obtain ⟨i, hi, ht⟩ := makes_of_own htmem
  obtain ⟨i', -, hg⟩ := makes_of_own hgmem
  have hdriver : a.driverId = d := by
    obtain ⟨b', hb', -, hdriver⟩ := row_of_records h hf hlabel hstored hj he
    rw [← hrow] at hb'
    obtain rfl := Option.some.inj (hb.symm.trans hb')
    exact hdriver.symm.trans hd
  have hlocks : LocksUntil d (t.before.now + (timeoutSeconds * 1000 + OfferService.offerLockGraceMs)) t :=
    ⟨_, hdriver ▸ htake, rfl, hdriver ▸ hbegins.free⟩
  have hii' : i < i' := by
    rcases Nat.lt_trichotomy i i' with hlt | rfl | hgt
    · exact hlt
    · obtain ⟨-, rfl⟩ := ht.unique hg
      exact absurd (htake.symm.trans hbegins.clock) (by simp)
    · obtain ⟨c, -, hfirst, -⟩ := h.heeds_at (fun p hp ↦ offers_inOrder hp) ht
      have hnone := hfirst _ _ htake
      have hmem : g ∈ own m (es.take i) := mem_own_of_makes hgt hg
      simp [hnone] at hmem
  have hclock := hown.prompt i i' m t g d _ hii' ht hg hlocks hbegins.clock
  refine ⟨_, m, i, j, a, t, f, ⟨ht, hf, hi, ⟨_, hlabel⟩, hstored, hdriver, hlocks⟩, hj, hrow, ?_, ?_⟩
  · exact hnow ▸ hfrom
  · dsimp only at hexpires
    omega

theorem untouched_run {l : OfferingStep} {w : Offering} (h : ∀ expiresAt, ¬LocksUntil d expiresAt ⟨l, w, w.run l⟩)
    (hf : ¬Frees d ⟨l, w, w.run l⟩) : (w.run l).trips.offerLocks d = w.trips.offerLocks d := by
  cases l with
  | trips l =>
    refine World.offerLocks_run (fun ttl hl ↦ ?_) fun hl ↦ hf (by rw [hl]; rfl)
    subst hl
    by_contra hfree
    exact h _ ⟨ttl, rfl, rfl, by simpa using hfree⟩
  | recordOffer a expiresAt =>
    simp only [Offering.run]
    split_ifs <;> rfl
  | _ => rfl

/-- Who has made an offer does not free its driver, before or after. -/
theorem not_frees_of_made (h : Calls (Offers env) s₀ cs w es) {expiry : ℕ} {a : Attempt}
    (hmade : Made es d expiry m i j a t f) (he : Makes es k m e) : ¬Frees d e := by
  intro hfrees
  obtain ⟨expiresAt, hlabel⟩ := hmade.label
  obtain ⟨c, -, -, horder, -⟩ := h.heeds_at (fun p hp ↦ offers_inOrder hp) hmade.records
  obtain ⟨-, t', g, hpast, hbegins⟩ := horder a _ hlabel
  rcases Nat.lt_trichotomy k j with hlt | rfl | hgt
  · have hmem := mem_own_of_makes hlt he
    rw [hpast] at hmem
    obtain ⟨timeoutSeconds, htake, -⟩ := hbegins.takes
    simp only [List.mem_cons, List.not_mem_nil, or_false] at hmem
    rcases hmem with rfl | rfl
    · exact absurd (htake.symm.trans hfrees) (by simp)
    · exact absurd (hbegins.clock.symm.trans hfrees) (by simp)
  · obtain ⟨-, rfl⟩ := he.unique hmade.records
    exact absurd (hlabel.symm.trans hfrees) (by simp)
  · obtain ⟨c, -, -, -, hrefused, -⟩ := h.heeds_at (fun p hp ↦ offers_inOrder hp) he
    have := hrefused d hfrees f (mem_own_of_makes hgt hmade.records) a expiresAt hlabel
    rw [hmade.stored] at this
    cases this

/-- A request makes one offer at most. -/
theorem records_once (h : Calls (Offers env) s₀ cs w es) {a a' : Attempt} {x x' : ℕ} (he : Makes es i m e)
    (hf : Makes es j m f) (hle : e.label = .recordOffer a x) (hlf : f.label = .recordOffer a' x') : i = j := by
  have hnot {i j : ℕ} {e f : Event OfferingStep Offering} {a a' : Attempt} {x x' : ℕ} (hij : i < j)
      (he : Makes es i m e) (hf : Makes es j m f) (hle : e.label = .recordOffer a x)
      (hlf : f.label = .recordOffer a' x') : False := by
    obtain ⟨c, -, -, horder, -⟩ := h.heeds_at (fun p hp ↦ offers_inOrder hp) hf
    obtain ⟨-, t, g, hpast, hbegins⟩ := horder a' _ hlf
    obtain ⟨timeoutSeconds, htake, -⟩ := hbegins.takes
    have hmem := mem_own_of_makes hij he
    rw [hpast] at hmem
    simp only [List.mem_cons, List.not_mem_nil, or_false] at hmem
    rcases hmem with rfl | rfl
    · exact absurd (htake.symm.trans hle) (by simp)
    · exact absurd (hbegins.clock.symm.trans hle) (by simp)
  rcases Nat.lt_trichotomy i j with hlt | heq | hgt
  · exact (hnot hlt he hf hle hlf).elim
  · exact heq
  · exact (hnot hgt hf he hlf hle).elim

/-- What has been answered is not open any more. -/
theorem closed_of_answeredBy (h : Calls (Offers env) s₀ cs w es) {expiry : ℕ} {a : Attempt}
    (hmade : Made es d expiry m i j a t f) (hanswered : AnsweredBy es d m n k) {k' n' : ℕ}
    {g : Event OfferingStep Offering} (hk : k ≤ k') (hg : Makes es k' n' g) :
    ∃ b : Attempt, g.before.trips.attempts[f.before.trips.attempts.length]? = some b ∧ b.outcome ≠ .offered := by
  obtain ⟨i', j', e, g', a', x', hij, hjk, he, hle, -, hg', hanswer⟩ := hanswered
  obtain ⟨x, hlabel⟩ := hmade.label
  obtain rfl := records_once h he hmade.records hle hlabel
  obtain ⟨-, rfl⟩ := he.unique hmade.records
  obtain ⟨rfl, rfl⟩ := OfferingStep.recordOffer.inj (hle.symm.trans hlabel)
  obtain ⟨b, hb, hbooking, hdriver⟩ := row_of_records h he hle hmade.stored hij hg'
  have hrun := Offers.run_of_makes h hg'
  obtain ⟨n'', g'', hg'', hbefore⟩ := before_next h (show j' < k' by omega) hg' hg
  have hclosed : ∃ b' : Attempt, g''.before.trips.attempts[e.before.trips.attempts.length]? = some b' ∧
      b'.outcome ≠ .offered := by
    rw [hbefore]
    have heta : g' = ⟨g'.label, g'.before, g'.before.run g'.label⟩ := by rw [← hrun]
    exact closed_of_answered (heta ▸ hanswer) hb hbooking (hdriver.trans hmade.driver)
  obtain ⟨b', hb', houtcome⟩ := hclosed
  obtain ⟨b'', hb'', -, -, hkeep⟩ := Offers.settles_later h (show j' + 1 ≤ k' by omega) hg'' hg _ b' hb'
  exact ⟨b'', hb'', hkeep houtcome⟩

/-- Nobody but who has made or answered an open offer could free its driver in time. -/
theorem not_frees_of_open (h : Calls (Offers env) s₀ cs w es) (hown : OwnLocks es) {expiry : ℕ}
    {a : Attempt} (hmade : Made es d expiry m i j a t f) (he : Makes es k n e) {b : Attempt}
    (hb : e.before.trips.attempts[f.before.trips.attempts.length]? = some b) (hopen : b.outcome = .offered)
    {l n' : ℕ} {g : Event OfferingStep Offering} (hil : i < l) (hlk : l ≤ k) (hg : Makes es l n' g)
    (hnow : g.before.now < expiry) (huntouched : Untouched es d i l) : ¬Frees d g := by
  intro hfrees
  rcases hown.frees l n' g d hg hfrees i m t expiry hil hmade.takes hmade.locks huntouched hnow with
    rfl | hanswered
  · exact not_frees_of_made h hmade hg hfrees
  · obtain ⟨b', hb', hclosed⟩ := closed_of_answeredBy h hmade hanswered hlk he
    obtain rfl := Option.some.inj (hb.symm.trans hb')
    exact hclosed hopen

/-- While an open offer's window lasts, its driver's lock is the one it has taken. -/
theorem held (h : Calls (Offers env) s₀ cs w es) (hown : OwnLocks es) {expiry : ℕ} {a : Attempt}
    (hmade : Made es d expiry m i j a t f) (he : Makes es k n e) {b : Attempt}
    (hb : e.before.trips.attempts[f.before.trips.attempts.length]? = some b) (hopen : b.outcome = .offered)
    {l : ℕ} (hil : i < l) : ∀ n' g, l ≤ k → Makes es l n' g → g.before.now < expiry →
      g.before.trips.offerLocks d = some expiry ∧ Untouched es d i l := by
  have hnext {l n' : ℕ} {g : Event OfferingStep Offering} (hg : Makes es (l + 1) n' g) :
      ∃ n'' g', Makes es l n'' g' ∧ g.before = g'.before.run g'.label := by
    obtain ⟨g', hg'⟩ := getElem?_earlier (Nat.le_succ l) hg.event
    obtain ⟨n'', hg''⟩ := makes_of_event hg'
    exact ⟨n'', g', hg'', (h.chained.next hg' hg.event).trans (Offers.run_of_makes h hg'')⟩
  induction l, Nat.succ_le_of_lt hil using Nat.le_induction with
  | base =>
    intro n' g hlk hg hnow
    refine ⟨?_, fun k n e hik hki he ↦ absurd hki (by omega)⟩
    obtain ⟨n'', g', hg', hbefore⟩ := hnext hg
    obtain ⟨-, rfl⟩ := hmade.takes.unique hg'
    obtain ⟨ttl, hlabel, rfl, hfree⟩ := hmade.locks
    rw [hbefore, hlabel]
    simp [Offering.run, World.run, hfree, Offering.now]
  | succ l hl ih =>
    intro n' g hlk hg hnow
    obtain ⟨n'', g', hg', hbefore⟩ := hnext hg
    have hclock := Offers.clock_later h (Nat.le_succ l) hg' hg
    obtain ⟨hlock, huntouched⟩ := ih (by omega) n'' g' (by omega) hg' (by omega)
    have htakes (expiresAt : ℕ) : ¬LocksUntil d expiresAt g' := by
      rintro ⟨ttl, -, -, hfree⟩
      simp only [World.lockFree, hlock, Option.all_some, decide_eq_true_eq] at hfree
      have : g'.before.now = g'.before.trips.now := rfl
      omega
    have hfrees : ¬Frees d g' :=
      not_frees_of_open h hown hmade he hb hopen (by omega) (by omega) hg' (by omega) huntouched
    have hrun := Offers.run_of_makes h hg'
    refine ⟨?_, fun k n e hik hkl he ↦ ?_⟩
    · rw [hbefore, untouched_run (fun expiresAt hlocks ↦ htakes expiresAt hlocks) hfrees]
      exact hlock
    · rcases Nat.lt_or_ge k l with hlt | hge
      · exact huntouched k n e hik hlt he
      · obtain rfl : k = l := by omega
        obtain ⟨-, rfl⟩ := he.unique hg'
        exact ⟨htakes, hfrees⟩

theorem offered_of_open {row x : ℕ} (h : OnOffer w d row x) :
    ∃ b : Attempt, w.trips.attempts[row]? = some b ∧ b.outcome = .offered := by
  obtain ⟨b, -, -, hb, -, hoffered, -⟩ := h
  exact ⟨b, hb, hoffered⟩

/-- Two offers of a driver cannot both be answered at one instant. -/
theorem open_unique (h : Calls (Offers env) s₀ cs w es) (hs : ∀ i, s₀.windows i = none)
    (hown : OwnLocks es) (he : Makes es k n e) {row row' x : ℕ} (hopen : OnOffer e.before d row x)
    (hopen' : OnOffer e.before d row' x) : row = row' := by
  obtain ⟨expiry, m, i, j, a, t, f, hmade, hjk, hrow, hfrom, huntil⟩ := made_of_open h hs hown he hopen
  obtain ⟨expiry', m', i', j', a', t', f', hmade', hjk', hrow', hfrom', huntil'⟩ :=
    made_of_open h hs hown he hopen'
  -- The later of the two takes would have found the lock of the earlier.
  have hlater {expiry expiry' m m' i i' j j' row : ℕ} {a a' : Attempt} {t t' f f' : Event OfferingStep Offering}
      (hmade : Made es d expiry m i j a t f) (hmade' : Made es d expiry' m' i' j' a' t' f')
      (hopen : OnOffer e.before d row x) (hrow : row = f.before.trips.attempts.length) (hjk' : j' < k)
      (hfrom' : f'.before.now ≤ x) (huntil : x < expiry) (hii' : i < i') : False := by
    obtain ⟨b, hb, hoffered⟩ := offered_of_open hopen
    rw [hrow] at hb
    have hclock := Offers.clock_later h (le_of_lt hmade'.order) hmade'.takes hmade'.records
    have horder := hmade'.order
    obtain ⟨hlock, -⟩ := held h hown hmade he hb hoffered hii' m' t' (by omega) hmade'.takes (by omega)
    obtain ⟨ttl, -, -, hfree⟩ := hmade'.locks
    simp only [World.lockFree, hlock, Option.all_some, decide_eq_true_eq] at hfree
    have : t'.before.now = t'.before.trips.now := rfl
    omega
  rcases Nat.lt_trichotomy i i' with hlt | rfl | hgt
  · exact (hlater hmade hmade' hopen hrow hjk' hfrom' huntil hlt).elim
  · obtain ⟨rfl, -⟩ := hmade.takes.unique hmade'.takes
    obtain ⟨y, hy⟩ := hmade.label
    obtain ⟨y', hy'⟩ := hmade'.label
    obtain rfl := records_once h hmade.records hmade'.records hy hy'
    obtain ⟨-, rfl⟩ := hmade.records.unique hmade'.records
    rw [hrow, hrow']
  · exact (hlater hmade' hmade hopen' hrow' hjk hfrom huntil' hgt).elim

theorem not_frees (h : Calls (Offers env) s₀ cs w es) (hs : ∀ i, s₀.windows i = none)
    (hown : OwnLocks es) (he : Makes es k n e) {row : ℕ} (hopen : OnOffer e.before d row e.before.now) :
    ¬Frees d e := by
  obtain ⟨expiry, m, i, j, a, t, f, hmade, hjk, hrow, -, huntil⟩ := made_of_open h hs hown he hopen
  obtain ⟨b, hb, hoffered⟩ := offered_of_open hopen
  rw [hrow] at hb
  have horder := hmade.order
  obtain ⟨-, huntouched⟩ := held h hown hmade he hb hoffered (show i < k by omega) n e le_rfl he huntil
  exact not_frees_of_open h hown hmade he hb hoffered (by omega) le_rfl he huntil huntouched

/-- A look that changes nothing, after a run. -/
def look (w : Offering) : Event OfferingStep Offering := ⟨.trips (.setQueueUp w.trips.queueUp), w, w⟩

theorem calls_look (h : Calls (Offers env) s₀ cs w es) :
    ∃ cs', Calls (Offers env) s₀ cs' w (es ++ [(cs.length, look w)]) := by
  have hreq : Offers env (besideOffers (Proc.write (.setQueueUp w.trips.queueUp))) :=
    .operates (.ambient _ rfl) (avoids_attempt (by simp [Step.kind])) (avoids_attempt (by simp [Step.kind]))
      (avoids_attempt (by simp [Step.kind]))
  have hask := h.ask hreq
  exact ⟨_, hask.commit (n := cs.length) (l := .trips (.setQueueUp w.trips.queueUp))
    (by rw [List.getElem?_append_right le_rfl, Nat.sub_self]; rfl)⟩

theorem makes_look {c : ℕ} (he : Makes (es ++ [(c, look w)]) i n e) :
    Makes es i n e ∨ i = es.length ∧ e = look w := by
  unfold Makes at he
  rcases Nat.lt_or_ge i es.length with hlt | hge
  · rw [List.getElem?_append_left hlt] at he
    exact .inl he
  · rw [List.getElem?_append_right hge, List.getElem?_singleton] at he
    split_ifs at he with hi
    obtain ⟨-, rfl⟩ := Prod.mk.inj (Option.some.inj he)
    exact .inr ⟨by omega, rfl⟩

theorem makes_of_look {c : ℕ} (he : Makes es i n e) : Makes (es ++ [(c, look w)]) i n e := by
  unfold Makes at he ⊢
  rwa [List.getElem?_append_left (List.getElem?_eq_some_iff.mp he).1]

theorem OwnLocks.look (h : OwnLocks es) (w : Offering) (c : ℕ) : OwnLocks (es ++ [(c, look w)]) where
  frees j n e d he hfrees i m t expiresAt hij ht hlocks huntouched hnow := by
    rcases makes_look he with he | ⟨-, rfl⟩
    · rcases makes_look ht with ht | ⟨-, rfl⟩
      · have hold : Untouched es d i j := fun k n e hik hkj he ↦ huntouched k n e hik hkj (makes_of_look he)
        refine (h.frees j n e d he hfrees i m t expiresAt hij ht hlocks hold hnow).imp_right ?_
        rintro ⟨i', k', e', f', a, x, hik, hkj, he', hlabel, hd, hf', hanswered⟩
        exact ⟨i', k', e', f', a, x, hik, hkj, makes_of_look he', hlabel, hd, makes_of_look hf', hanswered⟩
      · obtain ⟨ttl, hlabel, -⟩ := hlocks
        cases hlabel
    · cases hfrees
  prompt i j n t c d expiresAt hij ht hc hlocks hclock := by
    rcases makes_look ht with ht | ⟨-, rfl⟩
    · rcases makes_look hc with hc | ⟨-, rfl⟩
      · exact h.prompt i j n t c d expiresAt hij ht hc hlocks hclock
      · cases hclock
    · obtain ⟨ttl, hlabel, -⟩ := hlocks
      cases hlabel

/-- Where no lock in force is freed but by who has taken it or answered its offer, and
every offer looks at the clock in time, no driver has two offers to answer at one
instant, and no release finds its driver with one. -/
theorem one_live_offer (h : Calls (Offers env) s₀ cs w es) (hs : ∀ i, s₀.windows i = none)
    (hown : OwnLocks es) :
    (∀ d row row' x, OnOffer w d row x → OnOffer w d row' x → row = row') ∧
    ∀ k n e d, Makes es k n e → Frees d e → ∀ row, ¬OnOffer e.before d row e.before.now := by
  refine ⟨fun d row row' x hopen hopen' ↦ ?_, fun k n e d he hfrees row hopen ↦ ?_⟩
  · obtain ⟨cs', hlook⟩ := calls_look h
    have hlast : Makes (es ++ [(cs.length, look w)]) es.length cs.length (look w) := by
      unfold Makes
      simp
    exact open_unique hlook hs (hown.look w cs.length) hlast hopen hopen'
  · exact not_frees h hs hown he hopen hfrees

/-! A late expiry. -/

def Offering.blank : Offering := ⟨World.blank, fun _ ↦ none, fun _ ↦ none, false⟩

def elapse (ms : ℕ) : OfferingRequest Unit := besideOffers (money (Proc.write (.tick ms)))

theorem offers_elapse (ms : ℕ) : Offers sampleEnv (elapse ms) :=
  .operates (.pays (.outside _ rfl)) (avoids_money _) (avoids_money _) (avoids_money _)

/-- The first offer expires once its lock has lapsed and the second has taken it. -/
def sampleOffers : List (OfferingRequest Unit) :=
  [(Offering.offer 0 7 1 20).ignore, elapse 26000, (Offering.offer 1 7 1 20).ignore,
    Offering.expire 0 7, (Offering.offer 2 7 1 20).ignore]

theorem sampleOffers_offers : ∀ p ∈ sampleOffers, Offers sampleEnv p := by
  simp only [sampleOffers, List.forall_mem_cons, List.not_mem_nil, false_imp_iff, forall_true_iff, and_true]
  exact ⟨.offer _ _ _ _, offers_elapse _, .offer _ _ _ _, .expire _ _, .offer _ _ _ _⟩

def offersRun (ps : List (OfferingRequest Unit)) (turns : List ℕ) :=
  takeTurns turns (ps.map fun p ↦ ⟨p, p⟩) Offering.blank

theorem offersRun_calls {ps : List (OfferingRequest Unit)} (h : ∀ p ∈ ps, Offers sampleEnv p)
    (turns : List ℕ) : Calls (Offers sampleEnv) Offering.blank (offersRun ps turns).1
      (offersRun ps turns).2.1 (offersRun ps turns).2.2 := by
  have hstart : Calls (Offers sampleEnv) Offering.blank [] Offering.blank [] := .start
  exact (hstart.askAll h).takeTurns turns

def oneByOne (n : ℕ) : List ℕ := (List.range n).flatMap (List.replicate 20)

theorem two_live_offers : ¬∀ (env : Env) (s₀ w : Offering) (cs : List (Call OfferingStep Offering Failure))
    (es : List (ℕ × Event OfferingStep Offering)), Calls (Offers env) s₀ cs w es →
      (∀ i, s₀.windows i = none) →
        (∀ d row row' x, OnOffer w d row x → OnOffer w d row' x → row = row') ∧
        ∀ k n e d, Makes es k n e → Frees d e → ∀ row, ¬OnOffer e.before d row e.before.now := by
  intro h
  obtain ⟨hunique, -⟩ := h sampleEnv _ _ _ _ (offersRun_calls sampleOffers_offers (oneByOne 5)) fun _ ↦ rfl
  have hrows : ∀ row ∈ [1, 2], ((offersRun sampleOffers (oneByOne 5)).2.1.trips.attempts[row]?).any
      (fun a ↦ a.driverId = 7 && a.outcome = .offered) = true ∧
      (offersRun sampleOffers (oneByOne 5)).2.1.windows row = some (26000, 46000) := by
    decide +kernel
  have hopen (row : ℕ) (hrow : row ∈ [1, 2]) : OnOffer (offersRun sampleOffers (oneByOne 5)).2.1 7 row 26000 := by
    obtain ⟨hattempt, hwindow⟩ := hrows row hrow
    obtain ⟨a, ha, hoffered⟩ := (Option.any_eq_true _ _).mp hattempt
    simp only [Bool.and_eq_true, decide_eq_true_eq] at hoffered
    exact ⟨a, 26000, 46000, ha, hoffered.1, hoffered.2, hwindow, le_rfl, by omega⟩
  exact absurd (hunique 7 1 2 26000 (hopen 1 (by simp)) (hopen 2 (by simp))) (by decide)

/-- An offer that its driver declines, and the next one. -/
def sampleDeclined : List (OfferingRequest Unit) :=
  [(Offering.offer 0 7 1 20).ignore, Offering.reject 0 7, (Offering.offer 1 7 1 20).ignore]

theorem sampleDeclined_offers : ∀ p ∈ sampleDeclined, Offers sampleEnv p := by
  simp only [sampleDeclined, List.forall_mem_cons, List.not_mem_nil, false_imp_iff, forall_true_iff, and_true]
  exact ⟨.offer _ _ _ _, .reject _ _, .offer _ _ _ _⟩

/-- Where a step may stand in a run that is like the sample. -/
def placedRight (j n : ℕ) (e : Event OfferingStep Offering) : Bool :=
  e.before.now = 0 && match e.label with
  | .trips (.releaseOfferLock d) => j = 5 && n = 1 && d = 7
  | .trips (.takeOfferLock d _) => d = 7 && (j = 0 && n = 0 || 5 < j)
  | _ => true

def offersTo (b d : ℕ) (e : Event OfferingStep Offering) : Bool :=
  match e.label with
  | .recordOffer a _ => a.bookingId = b && a.driverId = d
  | _ => false

def declines (b d : ℕ) (e : Event OfferingStep Offering) : Bool :=
  match e.label with
  | .trips (.resolveOffer b' d' outcome) => b' = b && d' = d && outcome = .rejected
  | _ => false

theorem ownLocks_of_placed {es : List (ℕ × Event OfferingStep Offering)}
    (hplaced : ∀ j n e, Makes es j n e → placedRight j n e = true)
    (hoffer : ∃ e, Makes es 2 0 e ∧ offersTo 0 7 e = true)
    (hdecline : ∃ e, Makes es 4 1 e ∧ declines 0 7 e = true) : OwnLocks es where
  frees j n e d he hfrees i m t expiresAt hij ht hlocks _ _ := by
    have hj := hplaced j n e he
    unfold Frees at hfrees
    simp only [placedRight, hfrees, Bool.and_eq_true, decide_eq_true_eq] at hj
    obtain ⟨-, ⟨rfl, rfl⟩, rfl⟩ := hj
    obtain ⟨ttl, htake, -⟩ := hlocks
    have hi := hplaced i m t ht
    simp only [placedRight, htake, Bool.and_eq_true, Bool.or_eq_true, decide_eq_true_eq] at hi
    obtain ⟨-, -, ⟨rfl, rfl⟩ | hlate⟩ := hi
    · right
      obtain ⟨f, hf, hoffers⟩ := hoffer
      obtain ⟨g, hg, hdeclines⟩ := hdecline
      unfold offersTo at hoffers
      split at hoffers
      · rename_i a x hlabel
        simp only [Bool.and_eq_true, decide_eq_true_eq] at hoffers
        refine ⟨2, 4, f, g, a, x, by omega, by omega, hf, hlabel, hoffers.2, hg, .inl ⟨.rejected, by simp, ?_⟩⟩
        unfold declines at hdeclines
        split at hdeclines
        · rename_i b' d' outcome hlabel'
          simp only [Bool.and_eq_true, decide_eq_true_eq] at hdeclines
          rw [hlabel', hoffers.1, hdeclines.1.1, hdeclines.1.2, hdeclines.2]
        · cases hdeclines
      · cases hoffers
    · omega
  prompt i j n t c d expiresAt hij ht hc hlocks hclock := by
    have hj := hplaced j n c hc
    simp only [placedRight, Bool.and_eq_true, decide_eq_true_eq] at hj
    omega

theorem one_live_offer_sample :
    ((∀ d row row' x, OnOffer (offersRun sampleDeclined (oneByOne 3)).2.1 d row x →
        OnOffer (offersRun sampleDeclined (oneByOne 3)).2.1 d row' x → row = row') ∧
      ∀ k n e d, Makes (offersRun sampleDeclined (oneByOne 3)).2.2 k n e → Frees d e →
        ∀ row, ¬OnOffer e.before d row e.before.now) ∧
    (offersRun sampleDeclined (oneByOne 3)).2.1.windows 1 = some (0, 20000) := by
  refine ⟨one_live_offer (offersRun_calls sampleDeclined_offers (oneByOne 3)) (fun _ ↦ rfl)
    (ownLocks_of_placed (fun j n e he ↦ ?_) ?_ ?_), by decide +kernel⟩
  · have hall : (offersRun sampleDeclined (oneByOne 3)).2.2.zipIdx.all
        (fun x ↦ placedRight x.2 x.1.1 x.1.2) = true := by decide +kernel
    have hmem : ((n, e), j) ∈ (offersRun sampleDeclined (oneByOne 3)).2.2.zipIdx :=
      List.mk_mem_zipIdx_iff_getElem?.mpr he
    exact List.all_eq_true.mp hall _ hmem
  · have hany : ((offersRun sampleDeclined (oneByOne 3)).2.2[2]?).any
        (fun x ↦ x.1 = 0 && offersTo 0 7 x.2) = true := by decide +kernel
    obtain ⟨⟨n, e⟩, he, hx⟩ := (Option.any_eq_true _ _).mp hany
    simp only [Bool.and_eq_true, decide_eq_true_eq] at hx
    obtain ⟨rfl, hx⟩ := hx
    exact ⟨e, he, hx⟩
  · have hany : ((offersRun sampleDeclined (oneByOne 3)).2.2[4]?).any
        (fun x ↦ x.1 = 1 && declines 0 7 x.2) = true := by decide +kernel
    obtain ⟨⟨n, e⟩, he, hx⟩ := (Option.any_eq_true _ _).mp hany
    simp only [Bool.and_eq_true, decide_eq_true_eq] at hx
    obtain ⟨rfl, hx⟩ := hx
    exact ⟨e, he, hx⟩

end Towing.Trips
