import Towing.Referrals.ReferralsService

namespace Towing.Referrals

open Towing.Process ReferralsService

/-- The code of the referee has been accepted. -/
def Enrols (u : ℕ) (e : Event Step World) : Prop :=
  (∃ referrer code, e.label = .insert referrer u code) ∧ e.before.redemptions u = none

def FindsPending (u : ℕ) (r : Redemption) (e : Event Step World) : Prop :=
  e.label = .find u ∧ e.before.pending u = some r

/-- A reward step that found the redemption waiting has counted one paid trip. -/
def CountsOne (u : ℕ) (e : Event Step World) : Prop := e.label = .count u ∧ e.before.paidTrips u = 1

def ReadsReferrer (a : ℕ) (e : Event Step World) : Prop :=
  e.label = .rates ∧ e.before.rewards.referrerRewardPaise = a

/-- What a request has done before each of its steps. -/
def Justified (past : List (Event Step World)) : Step → Prop
  | .post ⟨.referee u, ownerId, _⟩ => ownerId = u ∧ (∃ e ∈ past, Enrols u e) ∧ ∀ e ∈ past, ∀ c, e.label ≠ .post c
  | .post ⟨.referrer u, ownerId, a⟩ => 0 < a ∧ (∃ r, ownerId = r.referrerUserId ∧ ∃ e ∈ past, FindsPending u r e) ∧
    (∃ e ∈ past, ReadsReferrer a e) ∧ ∀ e ∈ past, ∀ u b a, e.label ≠ .reward u b a
  | .note u a => ∃ e ∈ past, e.label = .post ⟨.referee u, u, a⟩
  | .reward u _ a => (∃ r, ∃ e ∈ past, FindsPending u r e) ∧ (∃ e ∈ past, CountsOne u e) ∧
    (∃ e ∈ past, ReadsReferrer a e) ∧ (0 < a → ∃ e ∈ past, ∃ o, e.label = .post ⟨.referrer u, o, a⟩) ∧
    ∀ e ∈ past, ∀ o a', e.label = .post ⟨.referrer u, o, a'⟩ → a' = a
  | _ => True

/-- What a request that has ended has done. -/
structure Ended (past : List (Event Step World)) : Prop where
  welcomed : ∀ u, (∃ e ∈ past, Enrols u e) →
    (∃ e ∈ past, ∃ a, 0 < a ∧ e.label = .note u a) ∨
      ∃ e ∈ past, e.label = .rates ∧ e.before.rewards.refereeRewardPaise = 0
  rewarded : ∀ u, (∃ e ∈ past, CountsOne u e) → ∃ e ∈ past, ∃ b a, e.label = .reward u b a

variable {past : List (Event Step World)}

/-- Only those of whom `A` says so have been enrolled, and only of those of `B` one trip counted. -/
def Touches (A B : ℕ → Prop) (past : List (Event Step World)) : Prop :=
  ∀ e ∈ past, (∀ u, Enrols u e → A u) ∧ ∀ u, CountsOne u e → B u

variable {A B : ℕ → Prop}

theorem Touches.concat {e : Event Step World} (h : Touches A B past)
    (hinsert : ∀ referrer u code, e.label ≠ .insert referrer u code) (hcount : ∀ u, e.label ≠ .count u) :
    Touches A B (past ++ [e]) := by
  refine forall_mem_concat h ⟨?_, fun u h ↦ absurd h.1 (hcount u)⟩
  rintro u ⟨⟨referrer, code, hl⟩, -⟩
  exact absurd hl (hinsert referrer u code)

theorem Touches.ended (h : Touches A B past)
    (hwelcomed : ∀ u, A u → (∃ e ∈ past, ∃ a, 0 < a ∧ e.label = .note u a) ∨
      ∃ e ∈ past, e.label = .rates ∧ e.before.rewards.refereeRewardPaise = 0)
    (hrewarded : ∀ u, B u → ∃ e ∈ past, ∃ b a, e.label = .reward u b a) : Ended past := by
  constructor
  · rintro u ⟨e, he, henrols⟩
    exact hwelcomed u ((h e he).1 u henrols)
  · rintro u ⟨e, he, hone⟩
    exact hrewarded u ((h e he).2 u hone)

/-- Nobody has been enrolled, and no trips counted. -/
abbrev Idle (past : List (Event Step World)) : Prop := Touches (fun _ ↦ False) (fun _ ↦ False) past

theorem idle_nil : Idle [] := by simp [Touches]

theorem Touches.idle_ended (h : Idle past) : Ended past := h.ended (by simp) (by simp)

theorem heeds_write {l : Step} (hl : Justified [] l) (hinsert : ∀ referrer u code, l ≠ .insert referrer u code)
    (hcount : ∀ u, l ≠ .count u) : (Proc.write l : Request Unit).Heeds Justified (fun _ ↦ Ended) [] :=
  ⟨hl, fun _ ↦ (idle_nil.concat hinsert hcount).idle_ended⟩

theorem heeds_welcome {u : ℕ} {e : Event Step World} (henrols : Enrols u e) (hpast : ∀ f ∈ past, f.label = .look) :
    (welcome u).Heeds Justified (fun _ ↦ Ended) (past ++ [e]) := by
  obtain ⟨⟨referrer, code, hl⟩, hnone⟩ := henrols
  have hnotPost : ∀ f ∈ past ++ [e], ∀ c, f.label ≠ .post c := by
    refine forall_mem_concat (fun f hf c h ↦ ?_) fun c h ↦ ?_
    · exact absurd ((hpast f hf).symm.trans h) (by simp)
    · exact absurd (hl.symm.trans h) (by simp)
  have honly : Touches (· = u) (fun _ ↦ False) (past ++ [e]) := by
    refine forall_mem_concat (fun f hf ↦ ⟨fun u' h ↦ ?_, fun u' h ↦ ?_⟩) ⟨fun u' h ↦ ?_, fun u' h ↦ ?_⟩
    · simp [Enrols, hpast f hf] at h
    · simp [CountsOne, hpast f hf] at h
    · simp only [Enrols, hl, Step.insert.injEq] at h
      exact h.1.choose_spec.choose_spec.2.1.symm
    · simp [CountsOne, hl] at h
  refine ⟨trivial, fun s ↦ ?_⟩
  have honly := honly.concat (e := ⟨.rates, s, s.run .rates⟩) (by simp) (by simp)
  simp only [Proc.bind_ok]
  unfold Proc.when
  split_ifs with hpositive
  · refine ⟨⟨rfl, ⟨e, by simp, ⟨referrer, code, hl⟩, hnone⟩, ?_⟩, fun s₁ ↦ ?_⟩
    · exact forall_mem_concat hnotPost (by simp)
    · refine ⟨⟨_, List.mem_concat_self, rfl⟩, fun s₂ ↦ ?_⟩
      refine Touches.ended ((honly.concat (by simp) (by simp)).concat (by simp) (by simp)) ?_ (by simp)
      rintro u' rfl
      exact .inl ⟨_, List.mem_concat_self, _, hpositive, rfl⟩
  · refine honly.ended ?_ (by simp)
    rintro u' rfl
    exact .inr ⟨_, List.mem_concat_self, rfl, Nat.eq_zero_of_not_pos hpositive⟩

theorem heeds_apply (userId : ℕ) (code : String) :
    (ReferralsService.apply userId code).Heeds Justified (fun _ ↦ Ended) [] := by
  have hlook {past : List (Event Step World)} (hpast : ∀ e ∈ past, e.label = .look) : Idle past := by
    refine fun e he ↦ ⟨fun u h ↦ ?_, fun u h ↦ ?_⟩
    · simp [Enrols, hpast e he] at h
    · simp [CountsOne, hpast e he] at h
  refine ⟨trivial, fun s ↦ ?_⟩
  simp only [Proc.bind_ok]
  cases s.ownerOf code with
  | none => exact (hlook (by simp)).idle_ended
  | some owner =>
    dsimp only
    split_ifs with hself
    · exact (hlook (by simp)).idle_ended
    refine ⟨trivial, fun s₁ ↦ ?_⟩
    simp only [Proc.bind_ok]
    split_ifs with hexisting
    · exact (hlook (by simp)).idle_ended
    refine ⟨trivial, fun s₂ ↦ ?_⟩
    simp only [Proc.bind_ok]
    split_ifs with hbooked
    · exact (hlook (by simp)).idle_ended
    refine ⟨trivial, fun s₃ ↦ ?_⟩
    simp only [Proc.bind_ok]
    split_ifs with hinserted
    · exact heeds_welcome ⟨⟨owner, code, rfl⟩, Option.isNone_iff_eq_none.mp hinserted⟩ (by simp)
    · refine Touches.idle_ended (forall_mem_concat (hlook (by simp)) ⟨?_, ?_⟩)
      · rintro u ⟨⟨referrer, code', hl⟩, hnone⟩
        cases hl
        exact hinserted (Option.isNone_iff_eq_none.mpr hnone)
      · rintro u ⟨hl, -⟩
        cases hl

/-- Neither a leg has been posted nor a reward recorded. -/
def Unpaid (past : List (Event Step World)) : Prop :=
  ∀ e ∈ past, (∀ c, e.label ≠ .post c) ∧ ∀ u b a, e.label ≠ .reward u b a

theorem heeds_rewarding {u : ℕ} {r : Redemption} {e f : Event Step World} (bookingId : ℕ)
    (hf : f ∈ past) (hfinds : FindsPending u r f) (he : e ∈ past) (hone : CountsOne u e)
    (honly : Touches (fun _ ↦ False) (· = u) past) (hunpaid : Unpaid past) :
    (rewarding u bookingId r).Heeds Justified (fun _ ↦ Ended) past := by
  have hended {past : List (Event Step World)} {a : ℕ} (s : World)
      (h : Touches (fun _ ↦ False) (· = u) past) :
      Ended (past ++ [⟨.reward u bookingId a, s, s.run (.reward u bookingId a)⟩]) := by
    refine Touches.ended (h.concat (by simp) (by simp)) (by simp) ?_
    rintro u' rfl
    exact ⟨_, List.mem_concat_self, bookingId, a, rfl⟩
  refine ⟨trivial, fun s ↦ ?_⟩
  have honly := honly.concat (e := ⟨.rates, s, s.run .rates⟩) (by simp) (by simp)
  have hunpaid : Unpaid (past ++ [⟨.rates, s, s.run .rates⟩]) := forall_mem_concat hunpaid (by simp)
  have hf := List.mem_append_left [⟨.rates, s, s.run .rates⟩] hf
  have he := List.mem_append_left [⟨.rates, s, s.run .rates⟩] he
  have hreads : ∃ g ∈ past ++ [⟨.rates, s, s.run .rates⟩], ReadsReferrer s.rewards.referrerRewardPaise g :=
    ⟨_, List.mem_concat_self, rfl, rfl⟩
  simp only [Proc.bind_ok]
  unfold Proc.when
  split_ifs with hpositive
  · refine ⟨⟨hpositive, ⟨r, rfl, f, hf, hfinds⟩, hreads, fun g hg ↦ (hunpaid g hg).2⟩, fun s₁ ↦ ⟨?_, fun s₂ ↦ ?_⟩⟩
    · obtain ⟨g, hg, hreads⟩ := hreads
      refine ⟨⟨r, f, List.mem_append_left _ hf, hfinds⟩, ⟨e, List.mem_append_left _ he, hone⟩,
        ⟨g, List.mem_append_left _ hg, hreads⟩, fun _ ↦ ⟨_, List.mem_concat_self, _, rfl⟩, ?_⟩
      refine forall_mem_concat (fun q hq o a' hl ↦ absurd hl ((hunpaid q hq).1 _)) fun o a' hl ↦ ?_
      simp only [Step.post.injEq, Credit.mk.injEq] at hl
      exact hl.2.2.symm
    · exact hended s₂ (honly.concat (by simp) (by simp))
  · refine ⟨⟨⟨r, f, hf, hfinds⟩, ⟨e, he, hone⟩, hreads, fun h ↦ absurd h hpositive, ?_⟩, fun s₁ ↦ hended s₁ honly⟩
    exact fun q hq o a' hl ↦ absurd hl ((hunpaid q hq).1 _)

theorem heeds_rewardForBooking (bookingId : ℕ) (hpast : Idle past) (hunpaid : Unpaid past) :
    (rewardForBooking bookingId).Heeds Justified (fun _ ↦ Ended) past := by
  refine ⟨trivial, fun s ↦ ?_⟩
  have hpast := hpast.concat (e := ⟨.look, s, s.run .look⟩) (by simp) (by simp)
  have hunpaid : Unpaid (past ++ [⟨.look, s, s.run .look⟩]) := forall_mem_concat hunpaid (by simp)
  simp only [Proc.bind_ok]
  cases s.bookings[bookingId]? with
  | none => exact hpast.idle_ended
  | some booking =>
    refine ⟨trivial, fun s₁ ↦ ?_⟩
    have hpast := hpast.concat (e := ⟨.find booking.userId, s₁, s₁.run (.find booking.userId)⟩) (by simp) (by simp)
    have hunpaid := forall_mem_concat (x := ⟨.find booking.userId, s₁, s₁.run (.find booking.userId)⟩) hunpaid (by simp)
    simp only [Proc.bind_ok]
    cases hpending : s₁.pending booking.userId with
    | none => exact hpast.idle_ended
    | some redemption =>
      refine ⟨trivial, fun s₂ ↦ ?_⟩
      simp only [Proc.bind_ok]
      split_ifs with hcount
      · refine Touches.idle_ended (forall_mem_concat hpast ⟨?_, ?_⟩)
        · rintro u ⟨⟨referrer, code, hl⟩, -⟩
          cases hl
        · rintro u ⟨hl, hone⟩
          cases hl
          exact hcount hone
      · refine heeds_rewarding bookingId (List.mem_append_left _ List.mem_concat_self) ⟨rfl, hpending⟩
          List.mem_concat_self ⟨rfl, not_not.mp hcount⟩ (forall_mem_concat ?_ ⟨?_, ?_⟩) (forall_mem_concat hunpaid (by simp))
        · exact fun e he ↦ ⟨(hpast e he).1, fun u h ↦ ((hpast e he).2 u h).elim⟩
        · rintro u ⟨⟨referrer, code, hl⟩, -⟩
          cases hl
        · rintro u ⟨hl, -⟩
          exact (Step.count.inj hl).symm

theorem refers_heeds {p : Request Unit} (h : Refers p) : p.Heeds Justified (fun _ ↦ Ended) [] := by
  cases h with
  | mint userId code => exact heeds_write trivial (by simp) (by simp)
  | book userId => exact heeds_write trivial (by simp) (by simp)
  | configure appConfig => exact heeds_write trivial (by simp) (by simp)
  | apply userId code => exact heeds_apply userId code
  | settle bookingId =>
    exact ⟨trivial, fun s ↦ heeds_rewardForBooking bookingId (idle_nil.concat (by simp) (by simp)) (by simp [Unpaid])⟩
  | rewardForBooking bookingId => exact heeds_rewardForBooking bookingId idle_nil (by simp [Unpaid])

/-! What a step does to the tables. -/

variable {w : World} {u : ℕ} {key : CreditKey}

theorem pending_eq_some {r : Redemption} : w.pending u = some r ↔ w.redemptions u = some r ∧ r.status = .pending := by
  rw [World.pending, Option.filter_eq_some_iff, decide_eq_true_iff]

theorem redemptions_setRedemption (r : Redemption) (u' : ℕ) :
    (w.setRedemption u' r).redemptions u = if u = u' then some r else w.redemptions u := by
  unfold World.setRedemption
  dsimp only
  rw [Function.update_apply]

theorem redemptions_run (w : World) (l : Step) (u : ℕ) : (w.run l).redemptions u = w.redemptions u ∨
    (∃ referrerUserId code, l = .insert referrerUserId u code ∧ w.redemptions u = none ∧
      (w.run l).redemptions u = some { referrerUserId, code }) ∨
    (∃ r a, l = .note u a ∧ w.redemptions u = some r ∧
      (w.run l).redemptions u = some { r with refereeRewardPaise := some a }) ∨
    ∃ r b a, l = .reward u b a ∧ w.pending u = some r ∧ (w.run l).redemptions u = some { r with
      status := .rewarded, rewardedBookingId := some b, referrerRewardPaise := some a } := by
  cases l with
  | look | rates | find | count | book | pay | configure => exact .inl rfl
  | mint userId code | post credit =>
    left
    dsimp only [World.run]
    split_ifs <;> rfl
  | insert referrer u' code =>
    dsimp only [World.run]
    cases h : w.redemptions u' with
    | some r => exact .inl rfl
    | none =>
      by_cases hu : u = u'
      · subst hu
        exact .inr (.inl ⟨referrer, code, rfl, h, by rw [redemptions_setRedemption, if_pos rfl]⟩)
      · exact .inl (by rw [redemptions_setRedemption, if_neg hu])
  | note u' a =>
    dsimp only [World.run]
    cases h : w.redemptions u' with
    | none => exact .inl rfl
    | some r =>
      by_cases hu : u = u'
      · subst hu
        exact .inr (.inr (.inl ⟨r, a, rfl, h, by rw [redemptions_setRedemption, if_pos rfl]⟩))
      · exact .inl (by rw [redemptions_setRedemption, if_neg hu])
  | reward u' b a =>
    dsimp only [World.run]
    cases h : w.pending u' with
    | none => exact .inl rfl
    | some r =>
      by_cases hu : u = u'
      · subst hu
        exact .inr (.inr (.inr ⟨r, b, a, rfl, h, by rw [redemptions_setRedemption, if_pos rfl]⟩))
      · exact .inl (by rw [redemptions_setRedemption, if_neg hu])

theorem credits_run (w : World) (l : Step) : (w.run l).credits = w.credits ∨
    ∃ c, l = .post c ∧ w.creditOf c.key = none ∧ (w.run l).credits = w.credits ++ [c] := by
  cases l with
  | look | rates | find | count | book | pay | configure => exact .inl rfl
  | mint userId code =>
    left
    dsimp only [World.run]
    split_ifs <;> rfl
  | insert _ u' _ | note u' _ =>
    left
    dsimp only [World.run]
    cases w.redemptions u' <;> rfl
  | reward u' _ _ =>
    left
    dsimp only [World.run]
    cases w.pending u' <;> rfl
  | post c =>
    dsimp only [World.run]
    split_ifs with hany
    · exact .inl rfl
    · refine .inr ⟨c, rfl, ?_, rfl⟩
      rw [World.creditOf, Option.map_eq_none_iff, List.find?_eq_none]
      simpa using hany

theorem creditOf_append {l : Step} {c : Credit} (h : (w.run l).credits = w.credits ++ [c]) :
    (w.run l).creditOf key = (w.creditOf key).or (if c.key = key then some c.amountPaise else none) := by
  rw [World.creditOf, World.creditOf, h, List.find?_append, Option.map_or]
  by_cases hkey : c.key = key <;> simp [hkey]

theorem creditOf_run (w : World) (l : Step) (key : CreditKey) : (w.run l).creditOf key = w.creditOf key ∨
    ∃ c, l = .post c ∧ c.key = key ∧ w.creditOf key = none ∧ (w.run l).creditOf key = some c.amountPaise := by
  rcases credits_run w l with h | ⟨c, rfl, hnone, h⟩
  · exact .inl (by rw [World.creditOf, World.creditOf, h])
  · rw [creditOf_append h]
    by_cases hkey : c.key = key
    · subst hkey
      exact .inr ⟨c, rfl, rfl, hnone, by rw [hnone, if_pos rfl]; rfl⟩
    · exact .inl (by rw [if_neg hkey, Option.or_none])

theorem creditOf_kept {a : ℕ} (h : w.creditOf key = some a) (l : Step) : (w.run l).creditOf key = some a := by
  rcases creditOf_run w l key with hsame | ⟨c, -, -, hnone, -⟩
  · exact hsame.trans h
  · rw [h] at hnone
    cases hnone

theorem creditOf_post (w : World) (c : Credit) (h : w.creditOf c.key = none) :
    (w.run (.post c)).creditOf c.key = some c.amountPaise := by
  have hnew : ¬w.credits.any (·.key = c.key) := by
    rw [World.creditOf, Option.map_eq_none_iff, List.find?_eq_none] at h
    simpa using h
  have hadds : (w.run (.post c)).credits = w.credits ++ [c] := by
    rw [World.run, if_neg hnew]
  rw [creditOf_append hadds, h, if_pos rfl, Option.none_or]

/-- A redemption is never taken away, nor given to another referrer, nor is a reward changed. -/
theorem redemption_kept {r : Redemption} (h : w.redemptions u = some r) (l : Step) :
    ∃ r', (w.run l).redemptions u = some r' ∧ r'.referrerUserId = r.referrerUserId ∧
      (r.refereeRewardPaise.isSome → r'.refereeRewardPaise.isSome) ∧
      (r.status = .rewarded → r'.status = .rewarded ∧ r'.referrerRewardPaise = r.referrerRewardPaise) := by
  rcases redemptions_run w l u with hsame | ⟨referrer, code, -, hnone, -⟩ | ⟨r', a, -, hr', hset⟩ |
    ⟨r', b, a, -, hr', hset⟩
  · exact ⟨r, hsame.trans h, rfl, id, fun hs ↦ ⟨hs, rfl⟩⟩
  · rw [h] at hnone
    cases hnone
  · obtain rfl := Option.some.inj (h.symm.trans hr')
    exact ⟨_, hset, rfl, fun _ ↦ rfl, fun hs ↦ ⟨hs, rfl⟩⟩
  · obtain ⟨hr', hpending⟩ := pending_eq_some.mp hr'
    obtain rfl := Option.some.inj (h.symm.trans hr')
    refine ⟨_, hset, rfl, id, fun hs ↦ ?_⟩
    rw [hpending] at hs
    cases hs

/-- The request reads the amounts. -/
def Reads (es : List (ℕ × Event Step World)) (n : ℕ) (rewards : Rewards) : Prop :=
  ∃ i e, Makes es i n e ∧ e.label = .rates ∧ e.before.rewards = rewards

/-- The request posts the leg of the referrer, which nobody has before it. -/
def PaysFirst (es : List (ℕ × Event Step World)) (u n : ℕ) : Prop :=
  ∃ i e o a, Makes es i n e ∧ e.label = .post ⟨.referrer u, o, a⟩ ∧ e.before.creditOf (.referrer u) = none

/-- The request records the redemption, which is waiting, as rewarded. -/
def Records (es : List (ℕ × Event Step World)) (u n : ℕ) : Prop :=
  ∃ i e b a, Makes es i n e ∧ e.label = .reward u b a ∧ e.before.pending u ≠ none

/-- What the referrer's reward is asked to be spared: where one attempt pays it and another records it,
a change of the amount between the reads of the two. -/
def Agreed (es : List (ℕ × Event Step World)) : Prop :=
  ∀ u m n x y, PaysFirst es u m → Records es u n → m ≠ n → Reads es m x → Reads es n y →
    x.referrerRewardPaise = y.referrerRewardPaise

def Over (cs : List (Call Step World String)) (n : ℕ) : Prop := ∃ c r, cs[n]? = some c ∧ c.rest = .done r

/-- What the run is asked to spare the referrals: besides changed amounts, the end of a request that
has enrolled a referee, and a reward step that comes too late to count the first paid trip alone. -/
structure Undisturbed (cs : List (Call Step World String)) (w : World) (es : List (ℕ × Event Step World)) : Prop where
  agreed : Agreed es
  welcomed : ∀ u, (w.redemptions u).isSome → ∃ n e, (n, e) ∈ es ∧ Enrols u e ∧ Over cs n
  counted : ∀ u, (w.redemptions u).isSome → 0 < w.paidTrips u → ∃ n e, (n, e) ∈ es ∧ CountsOne u e ∧ Over cs n

def World.Owns (w : World) (c : Credit) : Prop :=
  match c.key with
  | .referee u => c.ownerId = u
  | .referrer u => ∃ r, w.redemptions u = some r ∧ c.ownerId = r.referrerUserId

/-- Every reward is paid once, to whom it is due, and is what its redemption records. -/
structure RewardsMatch (w : World) (es : List (ℕ × Event Step World)) : Prop where
  once : (w.credits.map (·.key)).Nodup
  owned : ∀ c ∈ w.credits, w.Owns c
  referee : ∀ u r a, w.redemptions u = some r → r.refereeRewardPaise = some a → w.creditOf (.referee u) = some a
  referrer : ∀ u r, w.redemptions u = some r → r.status = .rewarded → ∃ a, r.referrerRewardPaise = some a ∧
    w.creditOf (.referrer u) = if 0 < a then some a else none
  welcomed : ∀ u r, w.redemptions u = some r →
    r.refereeRewardPaise.isSome ∨ ∃ n e x, (n, e) ∈ es ∧ Enrols u e ∧ Reads es n x ∧ x.refereeRewardPaise = 0
  rewarded : ∀ u r, w.redemptions u = some r → 0 < w.paidTrips u → r.status = .rewarded

section Run

variable {config : Option AppConfig} {cs : List (Call Step World String)} {es : List (ℕ × Event Step World)}
  {i j m n : ℕ} {e f : Event Step World} (hrun : Calls Refers (.blank config) cs w es)
include hrun

theorem event_run (he : Makes es i n e) : e.after = e.before.run e.label := hrun.commit_at he

/-- What a step has been preceded by in its own request. -/
theorem justified_at (he : Makes es i n e) : Justified (own n (es.take i)) e.label :=
  hrun.heeds_own (fun _ hp ↦ (refers_heeds hp).mono (fun _ _ h ↦ h) fun _ _ _ ↦ trivial) he

theorem redemption_later {r : Redemption} (he : Makes es i n e) (h : e.after.redemptions u = some r) :
    (∃ r', w.redemptions u = some r' ∧ r'.referrerUserId = r.referrerUserId) ∧ ∀ j m f, i < j → Makes es j m f →
      ∃ r', f.before.redemptions u = some r' ∧ r'.referrerUserId = r.referrerUserId := by
  refine hrun.kept_after (I := fun t ↦ ∃ r', t.redemptions u = some r' ∧ r'.referrerUserId = r.referrerUserId) he
    ⟨r, h, rfl⟩ fun j m f _ hf hbefore ↦ ?_
  obtain ⟨r', hr', hreferrer⟩ := hbefore
  obtain ⟨r'', hr'', hreferrer', -⟩ := redemption_kept hr' f.label
  exact ⟨r'', event_run hrun hf ▸ hr'', hreferrer'.trans hreferrer⟩

/-- A referee is enrolled once. -/
theorem enrols_unique (he : Makes es i n e) (hf : Makes es j m f) (henrols : Enrols u e) (henrols' : Enrols u f) :
    i = j := by
  have hlate {i j m n : ℕ} {e f : Event Step World} (he : Makes es i n e) (hf : Makes es j m f) (henrols : Enrols u e)
      (henrols' : Enrols u f) : ¬i < j := by
    intro hij
    obtain ⟨⟨referrer, code, hl⟩, hnone⟩ := henrols
    have hset : e.after.redemptions u = some { referrerUserId := referrer, code } := by
      rw [event_run hrun he, hl]
      dsimp only [World.run]
      rw [hnone]
      dsimp only
      rw [redemptions_setRedemption, if_pos rfl]
    obtain ⟨r', hr', -⟩ := (redemption_later hrun he hset).2 j m f hij hf
    rw [henrols'.2] at hr'
    cases hr'
  rcases Nat.lt_trichotomy i j with hlt | heq | hlt
  · exact absurd hlt (hlate he hf henrols henrols')
  · exact heq
  · exact absurd hlt (hlate hf he henrols' henrols)

theorem credit_later {a : ℕ} (he : Makes es i n e) (h : e.after.creditOf key = some a) :
    w.creditOf key = some a ∧ ∀ j m f, i < j → Makes es j m f → f.before.creditOf key = some a :=
  hrun.kept_after (I := fun t ↦ t.creditOf key = some a) he h fun _ _ f _ hf hbefore ↦
    event_run hrun hf ▸ creditOf_kept hbefore f.label

/-- A credit that is there has been posted, by who found none. -/
theorem posted_before {a : ℕ} (hf : Makes es j m f) (h : f.before.creditOf key = some a) :
    ∃ i n e o, i < j ∧ Makes es i n e ∧ e.label = .post ⟨key, o, a⟩ ∧ e.before.creditOf key = none := by
  obtain ⟨i, e, hij, he, hnot, hafter, -⟩ := hrun.chained.origin (R := fun t ↦ t.creditOf key = some a)
    (by simp [World.creditOf, World.blank]) hf.event h
  obtain ⟨n, he⟩ := makes_of_event he
  rw [event_run hrun he] at hafter
  rcases creditOf_run e.before e.label key with hsame | ⟨⟨key, o, a'⟩, hl, rfl, hnone, hset⟩
  · exact absurd (hsame.symm.trans hafter) hnot
  · obtain rfl := Option.some.inj (hset.symm.trans hafter)
    exact ⟨i, n, e, o, hij, he, hl, hnone⟩

/-- The referee's credit is posted once, by the request that enrolled them. -/
theorem note_credit {a : ℕ} (he : Makes es i n e) (hl : e.label = .note u a) :
    e.before.creditOf (.referee u) = some a := by
  have hjust := justified_at hrun he
  rw [hl] at hjust
  obtain ⟨f, hf, hpost⟩ := hjust
  obtain ⟨j, hji, hf⟩ := makes_of_own hf
  have hpostJust := justified_at hrun hf
  rw [hpost] at hpostJust
  obtain ⟨-, ⟨g, hg, henrols⟩, hfirst⟩ := hpostJust
  obtain ⟨k, hkj, hg⟩ := makes_of_own hg
  have hnone : f.before.creditOf (.referee u) = none := by
    by_contra hposted
    obtain ⟨a', hposted⟩ := Option.ne_none_iff_exists'.mp hposted
    obtain ⟨k', o, g', ownerId, hk'j, hg', hl', -⟩ := posted_before hrun hf hposted
    have hother := justified_at hrun hg'
    rw [hl'] at hother
    obtain ⟨-, ⟨h, hh, henrols'⟩, -⟩ := hother
    obtain ⟨k'', hk''k', hh⟩ := makes_of_own hh
    obtain rfl := enrols_unique hrun hg hh henrols henrols'
    obtain ⟨rfl, rfl⟩ := hg.unique hh
    exact hfirst g' (mem_own_of_makes hk'j hg') _ hl'
  have hset : f.after.creditOf (.referee u) = some a := by
    rw [event_run hrun hf, hpost]
    exact creditOf_post f.before ⟨.referee u, u, a⟩ hnone
  exact (credit_later hrun hf hset).2 i n e hji he

theorem credits_nodup : (w.credits.map (·.key)).Nodup := by
  refine (hrun.kept (I := fun t ↦ (t.credits.map (·.key)).Nodup) List.nodup_nil fun j m f hf hnodup ↦ ?_).1
  rw [event_run hrun hf]
  rcases credits_run f.before f.label with hsame | ⟨c, -, hnone, hadds⟩
  · rwa [hsame]
  · rw [hadds, List.map_append, List.map_singleton, List.nodup_append]
    refine ⟨hnodup, List.nodup_singleton _, ?_⟩
    rw [World.creditOf, Option.map_eq_none_iff, List.find?_eq_none] at hnone
    simp only [List.mem_map, List.mem_singleton]
    rintro _ ⟨c', hc', rfl⟩ _ rfl heq
    exact hnone c' hc' (decide_eq_true heq)

theorem credits_owned : ∀ c ∈ w.credits, w.Owns c := by
  refine (hrun.kept (I := fun t ↦ ∀ c ∈ t.credits, t.Owns c) (by simp [World.blank]) fun j m f hf howned ↦ ?_).1
  have hkept {c : Credit} (hc : f.before.Owns c) : f.after.Owns c := by
    unfold World.Owns at hc ⊢
    cases hkey : c.key with
    | referee u =>
      rw [hkey] at hc
      exact hc
    | referrer u =>
      rw [hkey] at hc
      obtain ⟨r, hr, howner⟩ := hc
      obtain ⟨r', hr', hreferrer, -⟩ := redemption_kept hr f.label
      exact ⟨r', event_run hrun hf ▸ hr', howner.trans hreferrer.symm⟩
  rcases credits_run f.before f.label with hsame | ⟨c, hl, -, hadds⟩
  · rw [event_run hrun hf] at hkept ⊢
    rw [hsame]
    exact fun c hc ↦ hkept (howned c hc)
  · rw [event_run hrun hf] at hkept ⊢
    rw [hadds]
    refine forall_mem_concat (fun c hc ↦ hkept (howned c hc)) (hkept ?_)
    have hjust := justified_at hrun hf
    rw [hl] at hjust
    obtain ⟨⟨u⟩ | ⟨u⟩, ownerId, a⟩ := c
    · exact hjust.1
    · obtain ⟨-, ⟨r, rfl, g, hg, -, hpending⟩, -⟩ := hjust
      obtain ⟨k, hkj, hg⟩ := makes_of_own hg
      have hr := (pending_eq_some.mp hpending).1
      obtain ⟨r', hr', hreferrer, -⟩ := redemption_kept hr g.label
      rw [← event_run hrun hg] at hr'
      obtain ⟨r'', hr'', hreferrer'⟩ := (redemption_later hrun hg hr').2 j m f hkj hf
      exact ⟨r'', hr'', (hreferrer'.trans hreferrer).symm⟩

theorem referee_recorded : ∀ u r a, w.redemptions u = some r → r.refereeRewardPaise = some a →
    w.creditOf (.referee u) = some a := by
  refine (hrun.kept (I := fun t ↦ ∀ u r a, t.redemptions u = some r → r.refereeRewardPaise = some a →
    t.creditOf (.referee u) = some a) (by simp [World.blank]) fun j m f hf hrecorded u r a hr ha ↦ ?_).1
  rw [event_run hrun hf] at hr ⊢
  apply creditOf_kept
  rcases redemptions_run f.before f.label u with hsame | ⟨referrer, code, -, -, hset⟩ | ⟨r', a', hl, -, hset⟩ |
    ⟨r', b, a', -, hr', hset⟩
  · exact hrecorded u r a (hsame.symm.trans hr) ha
  · obtain rfl := Option.some.inj (hset.symm.trans hr)
    cases ha
  · obtain rfl := Option.some.inj (hset.symm.trans hr)
    cases ha
    exact note_credit hrun hf hl
  · obtain rfl := Option.some.inj (hset.symm.trans hr)
    exact hrecorded u r' a (pending_eq_some.mp hr').1 ha

/-- A reward that stands has been recorded, by who found the redemption waiting. -/
theorem recorded_before {r : Redemption} {a : ℕ} (hf : Makes es j m f) (hr : f.before.redemptions u = some r)
    (hstatus : r.status = .rewarded) (ha : r.referrerRewardPaise = some a) :
    ∃ i n e b, i < j ∧ Makes es i n e ∧ e.label = .reward u b a ∧ e.before.pending u ≠ none := by
  obtain ⟨i, e, hij, he, hnot, ⟨r', hr', hstatus', ha'⟩, -⟩ := hrun.chained.origin
    (R := fun t ↦ ∃ r, t.redemptions u = some r ∧ r.status = .rewarded ∧ r.referrerRewardPaise = some a)
    (by simp [World.blank]) hf.event ⟨r, hr, hstatus, ha⟩
  obtain ⟨n, he⟩ := makes_of_event he
  rw [event_run hrun he] at hr'
  rcases redemptions_run e.before e.label u with hsame | ⟨referrer, code, -, -, hset⟩ | ⟨old, a', hl, hold, hset⟩ |
    ⟨old, b, a', hl, hold, hset⟩
  · exact absurd ⟨r', hsame.symm.trans hr', hstatus', ha'⟩ hnot
  · obtain rfl := Option.some.inj (hset.symm.trans hr')
    cases hstatus'
  · obtain rfl := Option.some.inj (hset.symm.trans hr')
    exact absurd ⟨old, hold, hstatus', ha'⟩ hnot
  · obtain rfl := Option.some.inj (hset.symm.trans hr')
    cases ha'
    exact ⟨i, n, e, b, hij, he, hl, by simp [hold]⟩

omit hrun in
theorem reads_of_own {a : ℕ} (h : ∃ e ∈ own n (es.take i), ReadsReferrer a e) :
    ∃ x, Reads es n x ∧ x.referrerRewardPaise = a := by
  obtain ⟨e, he, hl, ha⟩ := h
  obtain ⟨k, -, he⟩ := makes_of_own he
  exact ⟨_, ⟨k, e, he, hl, rfl⟩, ha⟩

/-- The leg that is posted first and the reward that is recorded are of one amount, whoever does them. -/
theorem amounts_agree (hagreed : Agreed es) {o a a' b : ℕ} (he : Makes es i n e)
    (hpost : e.label = .post ⟨.referrer u, o, a⟩) (hnone : e.before.creditOf (.referrer u) = none)
    (hf : Makes es j m f) (hreward : f.label = .reward u b a') (hpending : f.before.pending u ≠ none) : a = a' := by
  have hposts := justified_at hrun he
  have hrecords := justified_at hrun hf
  rw [hpost] at hposts
  rw [hreward] at hrecords
  by_cases hnm : n = m
  · subst hnm
    rcases Nat.lt_trichotomy i j with hlt | rfl | hgt
    · exact hrecords.2.2.2.2 e (mem_own_of_makes hlt he) o a hpost
    · obtain ⟨-, rfl⟩ := he.unique hf
      cases hpost.symm.trans hreward
    · exact absurd hreward (hposts.2.2.2 f (mem_own_of_makes hgt hf) u b a')
  · obtain ⟨x, hx, rfl⟩ := reads_of_own hposts.2.2.1
    obtain ⟨y, hy, rfl⟩ := reads_of_own hrecords.2.2.1
    exact hagreed u n m x y ⟨i, e, o, _, he, hpost, hnone⟩ ⟨j, f, b, _, hf, hreward, hpending⟩ hnm hx hy

/-- When a reward is recorded, its leg is there, by the attempt itself or an earlier one. -/
theorem credit_recorded (hagreed : Agreed es) {a b : ℕ} (hf : Makes es j m f) (hl : f.label = .reward u b a)
    (hpending : f.before.pending u ≠ none) : f.before.creditOf (.referrer u) = if 0 < a then some a else none := by
  have hjust := justified_at hrun hf
  rw [hl] at hjust
  obtain ⟨-, -, -, hposts, -⟩ := hjust
  cases hcredit : f.before.creditOf (.referrer u) with
  | some x =>
    obtain ⟨i, n, e, o, -, he, hpost, hnone⟩ := posted_before hrun hf hcredit
    have hpositive := justified_at hrun he
    rw [hpost] at hpositive
    obtain rfl := amounts_agree hrun hagreed he hpost hnone hf hl hpending
    rw [if_pos hpositive.1]
  | none =>
    refine (if_neg fun hpositive ↦ ?_).symm
    obtain ⟨e, he, o, hpost⟩ := hposts hpositive
    obtain ⟨i, hij, he⟩ := makes_of_own he
    have hset : ∃ x, e.after.creditOf (.referrer u) = some x := by
      rw [event_run hrun he, hpost]
      cases hbefore : e.before.creditOf (.referrer u) with
      | none => exact ⟨_, creditOf_post e.before ⟨.referrer u, o, a⟩ hbefore⟩
      | some x => exact ⟨x, creditOf_kept hbefore _⟩
    obtain ⟨x, hset⟩ := hset
    rw [(credit_later hrun he hset).2 j m f hij hf] at hcredit
    cases hcredit

theorem referrer_recorded (hagreed : Agreed es) : ∀ u r, w.redemptions u = some r → r.status = .rewarded →
    ∃ a, r.referrerRewardPaise = some a ∧ w.creditOf (.referrer u) = if 0 < a then some a else none := by
  refine (hrun.kept (I := fun t ↦ ∀ u r, t.redemptions u = some r → r.status = .rewarded →
    ∃ a, r.referrerRewardPaise = some a ∧ t.creditOf (.referrer u) = if 0 < a then some a else none)
    (by simp [World.blank]) fun j m f hf hrecorded u r hr hstatus ↦ ?_).1
  -- A reward that stands is not paid anew.
  have hkept {r' : Redemption} (hr' : f.before.redemptions u = some r') (hstatus : r'.status = .rewarded)
      (hsame : r.referrerRewardPaise = r'.referrerRewardPaise) : ∃ a, r.referrerRewardPaise = some a ∧
        f.after.creditOf (.referrer u) = if 0 < a then some a else none := by
    obtain ⟨a, ha, hcredit⟩ := hrecorded u r' hr' hstatus
    refine ⟨a, hsame.trans ha, ?_⟩
    rw [event_run hrun hf]
    rcases creditOf_run f.before f.label (.referrer u) with hcredit' | ⟨⟨key, o, a'⟩, hl, rfl, hnone, -⟩
    · exact hcredit'.trans hcredit
    · obtain ⟨i, n, e, b, -, he, hreward, hpending⟩ := recorded_before hrun hf hr' hstatus ha
      have hpositive := justified_at hrun hf
      rw [hl] at hpositive
      obtain rfl := amounts_agree hrun hagreed hf hl hnone he hreward hpending
      rw [if_pos hpositive.1, hnone] at hcredit
      cases hcredit
  rw [event_run hrun hf] at hr
  rcases redemptions_run f.before f.label u with hsame | ⟨referrer, code, -, -, hset⟩ | ⟨r', a', hl, hr', hset⟩ |
    ⟨r', b, a', hl, hr', hset⟩
  · exact hkept (hsame.symm.trans hr) hstatus rfl
  · obtain rfl := Option.some.inj (hset.symm.trans hr)
    cases hstatus
  · obtain rfl := Option.some.inj (hset.symm.trans hr)
    exact hkept hr' hstatus rfl
  · obtain rfl := Option.some.inj (hset.symm.trans hr)
    refine ⟨a', rfl, ?_⟩
    rw [event_run hrun hf, hl]
    rcases creditOf_run f.before (.reward u b a') (.referrer u) with hsame | ⟨c, hl', -⟩
    · exact hsame.trans (credit_recorded hrun hagreed hf hl (by simp [hr']))
    · cases hl'

omit hrun in
theorem mem_own {e : Event Step World} (he : (n, e) ∈ es) : e ∈ own n es :=
  List.mem_map.mpr ⟨(n, e), List.mem_filter.mpr ⟨he, by simp⟩, rfl⟩

omit hrun in
theorem makes_of_mem_own {e : Event Step World} (he : e ∈ own n es) : ∃ i, Makes es i n e := by
  obtain ⟨x, hx, rfl⟩ := List.mem_map.mp he
  obtain ⟨hmem, hn⟩ := List.mem_filter.mp hx
  obtain ⟨i, hi⟩ := List.getElem?_of_mem hmem
  obtain rfl : x.1 = n := by simpa using hn
  exact ⟨i, hi⟩

theorem ended_of_over (hover : Over cs n) : Ended (own n es) := by
  obtain ⟨c, r, hc, hrest⟩ := hover
  have hheeds := hrun.rest_heeds (Q := fun _ _ ↦ Ended) (fun p hp ↦ refers_heeds hp) n c hc
  rw [hrest] at hheeds
  exact hheeds

/-- A redemption that was there at one step of a request is there at the next. -/
theorem redemption_since {r : Redemption} (he : e ∈ own n (es.take i)) (hr : e.after.redemptions u = some r)
    (hf : Makes es i n f) : ∃ r', f.before.redemptions u = some r' := by
  obtain ⟨k, hki, he⟩ := makes_of_own he
  obtain ⟨r', hr', -⟩ := (redemption_later hrun he hr).2 i n f hki hf
  exact ⟨r', hr'⟩

theorem enrols_after (he : Makes es i n e) (henrols : Enrols u e) : ∃ r, e.after.redemptions u = some r := by
  obtain ⟨⟨referrer, code, hl⟩, hnone⟩ := henrols
  refine ⟨{ referrerUserId := referrer, code }, ?_⟩
  rw [event_run hrun he, hl]
  dsimp only [World.run]
  rw [hnone]
  dsimp only
  rw [redemptions_setRedemption, if_pos rfl]

theorem welcomed_of_over (he : (n, e) ∈ es) (henrols : Enrols u e) (hover : Over cs n) :
    (∃ r, w.redemptions u = some r ∧ r.refereeRewardPaise.isSome) ∨
      ∃ n e x, (n, e) ∈ es ∧ Enrols u e ∧ Reads es n x ∧ x.refereeRewardPaise = 0 := by
  rcases (ended_of_over hrun hover).welcomed u ⟨e, mem_own he, henrols⟩ with ⟨f, hf, a, -, hl⟩ | ⟨f, hf, hl, hzero⟩
  · left
    obtain ⟨i, hf⟩ := makes_of_mem_own hf
    have hjust := justified_at hrun hf
    rw [hl] at hjust
    obtain ⟨g, hg, hpost⟩ := hjust
    obtain ⟨j, hji, hg⟩ := makes_of_own hg
    have hpostJust := justified_at hrun hg
    rw [hpost] at hpostJust
    obtain ⟨-, ⟨x, hx, henrols'⟩, -⟩ := hpostJust
    obtain ⟨k, hkj, hx⟩ := makes_of_own hx
    obtain ⟨r, hr⟩ := enrols_after hrun hx henrols'
    obtain ⟨r', hr'⟩ := redemption_since hrun (mem_own_of_makes (hkj.trans hji) hx) hr hf
    refine (hrun.kept_after (I := fun t ↦ ∃ r, t.redemptions u = some r ∧ r.refereeRewardPaise.isSome) hf ?_ ?_).1
    · rw [event_run hrun hf, hl]
      dsimp only [World.run]
      rw [hr']
      dsimp only
      rw [redemptions_setRedemption, if_pos rfl]
      exact ⟨_, rfl, rfl⟩
    · rintro j m g - hg ⟨r, hr, hsome⟩
      obtain ⟨r', hr', -, hkept, -⟩ := redemption_kept hr g.label
      exact ⟨r', event_run hrun hg ▸ hr', hkept hsome⟩
  · right
    obtain ⟨i, hf⟩ := makes_of_mem_own hf
    exact ⟨n, e, _, he, henrols, ⟨i, f, hf, hl, rfl⟩, hzero⟩

theorem rewarded_of_over (he : (n, e) ∈ es) (hone : CountsOne u e) (hover : Over cs n) :
    ∃ r, w.redemptions u = some r ∧ r.status = .rewarded := by
  obtain ⟨f, hf, b, a, hl⟩ := (ended_of_over hrun hover).rewarded u ⟨e, mem_own he, hone⟩
  obtain ⟨i, hf⟩ := makes_of_mem_own hf
  have hjust := justified_at hrun hf
  rw [hl] at hjust
  obtain ⟨⟨r, g, hg, -, hpending⟩, -⟩ := hjust
  obtain ⟨r', hr', -⟩ := redemption_kept (pending_eq_some.mp hpending).1 g.label
  obtain ⟨k, hki, hg'⟩ := makes_of_own hg
  obtain ⟨r'', hr''⟩ := redemption_since hrun hg (event_run hrun hg' ▸ hr') hf
  refine (hrun.kept_after (I := fun t ↦ ∃ r, t.redemptions u = some r ∧ r.status = .rewarded) hf ?_ ?_).1
  · rw [event_run hrun hf, hl]
    dsimp only [World.run]
    cases hwaits : f.before.pending u with
    | none =>
      refine ⟨r'', hr'', ?_⟩
      by_contra hstatus
      have hpending' : r''.status = .pending := by
        cases hs : r''.status with
        | pending => rfl
        | rewarded => exact absurd hs hstatus
      rw [pending_eq_some.mpr ⟨hr'', hpending'⟩] at hwaits
      cases hwaits
    | some r =>
      dsimp only
      rw [redemptions_setRedemption, if_pos rfl]
      exact ⟨_, rfl, rfl⟩
  · rintro j m g - hg ⟨r, hr, hstatus⟩
    obtain ⟨r', hr', -, -, hkept⟩ := redemption_kept hr g.label
    exact ⟨r', event_run hrun hg ▸ hr', (hkept hstatus).1⟩

end Run

theorem rewards_match {config : Option AppConfig} {cs : List (Call Step World String)}
    {es : List (ℕ × Event Step World)} (hrun : Calls Refers (.blank config) cs w es) (h : Undisturbed cs w es) :
    RewardsMatch w es where
  once := credits_nodup hrun
  owned := credits_owned hrun
  referee := referee_recorded hrun
  referrer := referrer_recorded hrun h.agreed
  welcomed u r hr := by
    obtain ⟨n, e, he, henrols, hover⟩ := h.welcomed u (by rw [hr]; rfl)
    refine (welcomed_of_over hrun he henrols hover).imp ?_ id
    rintro ⟨r', hr', hsome⟩
    obtain rfl := Option.some.inj (hr.symm.trans hr')
    exact hsome
  rewarded u r hr hpaid := by
    obtain ⟨n, e, he, hone, hover⟩ := h.counted u (by rw [hr]; rfl) hpaid
    obtain ⟨r', hr', hstatus⟩ := rewarded_of_over hrun he hone hover
    obtain rfl := Option.some.inj (hr.symm.trans hr')
    exact hstatus

/-! ### A first trip rewarded, and one counted too late -/

/-- A friend's code is used, and two trips are booked and paid for. -/
def sampleAsked : List (Request Unit) :=
  [Proc.write (.mint 1 "MITOW2345"), ReferralsService.apply 2 "MITOW2345", Proc.write (.book 2), Proc.write (.book 2),
    settle 0, settle 1]

theorem sampleAsked_refers : ∀ p ∈ sampleAsked, Refers p := by
  simp only [sampleAsked, List.forall_mem_cons, List.not_mem_nil, false_imp_iff, implies_true, and_true]
  exact ⟨.mint _ _, .apply _ _, .book _, .book _, .settle _, .settle _⟩

def referralRun (turns : List ℕ) : List (Call Step World String) × World × List (ℕ × Event Step World) :=
  takeTurns turns (sampleAsked.map fun p ↦ ⟨p, p⟩) (.blank none)

theorem referralRun_calls (turns : List ℕ) : Calls Refers (.blank none) (referralRun turns).1 (referralRun turns).2.1
    (referralRun turns).2.2 := by
  simpa [referralRun] using (Calls.start.askAll sampleAsked_refers).takeTurns turns

def promptTurns : List ℕ := [0, 1, 1, 1, 1, 1, 1, 1, 2, 3, 4, 4, 4, 4, 4, 4, 4, 5, 5, 5]

def lateTurns : List ℕ := [0, 1, 1, 1, 1, 1, 1, 1, 2, 3, 4, 5, 4, 4, 4, 5, 5, 5]

theorem redemptions_prompt {u : ℕ} (hu : u ≠ 2) : (referralRun promptTurns).2.1.redemptions u = none := by
  refine (Function.update_of_ne hu _ _).trans ?_
  refine (Function.update_of_ne hu _ _).trans ?_
  exact Function.update_of_ne hu _ _

/-- The step is one of a referrer's reward. -/
def Step.rewards : Step → Bool
  | .post ⟨.referrer _, _, _⟩ | .reward _ _ _ => true
  | _ => false

theorem promptTurns_agreed : Agreed (referralRun promptTurns).2.2 := by
  have hone : ∀ x ∈ (referralRun promptTurns).2.2, x.2.label.rewards = true → x.1 = 4 := by decide
  rintro u m n x y ⟨i, e, o, a, he, hl, -⟩ ⟨j, f, b, a', hf, hl', -⟩ hne - -
  have hm := hone (m, e) (List.mem_of_getElem? he) (by rw [hl]; rfl)
  have hn := hone (n, f) (List.mem_of_getElem? hf) (by rw [hl']; rfl)
  exact absurd (hm.trans hn.symm) hne

theorem promptTurns_undisturbed : Undisturbed (referralRun promptTurns).1 (referralRun promptTurns).2.1
    (referralRun promptTurns).2.2 := by
  have hreferee {u : ℕ} (hu : ((referralRun promptTurns).2.1.redemptions u).isSome) : u = 2 := by
    by_contra hne
    rw [redemptions_prompt hne] at hu
    cases hu
  constructor
  · exact promptTurns_agreed
  · intro u hu
    obtain rfl := hreferee hu
    exact ⟨1, _, List.mem_of_getElem? (i := 4) rfl, ⟨⟨1, "MITOW2345", rfl⟩, rfl⟩, _, _, rfl, rfl⟩
  · intro u hu _
    obtain rfl := hreferee hu
    exact ⟨4, _, List.mem_of_getElem? (i := 13) rfl, ⟨rfl, by decide⟩, _, _, rfl, rfl⟩

theorem rewards_match_sample : RewardsMatch (referralRun promptTurns).2.1 (referralRun promptTurns).2.2 :=
  rewards_match (referralRun_calls promptTurns) promptTurns_undisturbed

/-- Both trips are paid for before either reward step counts: every request has come to its end,
and the referrer is never rewarded. -/
theorem reward_lost :
    Calls Refers (.blank none) (referralRun lateTurns).1 (referralRun lateTurns).2.1 (referralRun lateTurns).2.2 ∧
      (∀ n < 6, Over (referralRun lateTurns).1 n) ∧ (referralRun lateTurns).2.1.paidTrips 2 = 2 ∧
      ¬RewardsMatch (referralRun lateTurns).2.1 (referralRun lateTurns).2.2 := by
  refine ⟨referralRun_calls lateTurns, fun n hn ↦ ?_, by decide, fun h ↦ ?_⟩
  · rcases n with _ | _ | _ | _ | _ | _ | n
    all_goals first | exact ⟨_, _, rfl, rfl⟩ | omega
  · have hrewarded := h.rewarded 2 _ rfl (by decide)
    revert hrewarded
    decide

end Towing.Referrals
