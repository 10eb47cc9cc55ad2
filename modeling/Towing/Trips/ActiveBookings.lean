import Towing.Trips.FruitlessSearch

namespace Towing.Trips

open Towing.Process Towing.Money

namespace World

variable {env : Env} {g : ℕ → Prop} {w : World} {b c : ℕ} {l : Step} {m : Move} {r : Row} {o : Option Row}

/-- What Postgres keeps of the bookings under way: they are in the table, pass their
checks, and are alone in the index on their customers. -/
structure Constrained (w : World) : Prop where
  placed : ∀ b r, w.core b = some r → b ∈ w.placed
  valid : ∀ b r, w.core b = some r → activeForUser r.booking.status = true → rowError r = none
  alone : ∀ b c r t, w.core b = some r → w.core c = some t → activeForUser r.booking.status = true →
    activeForUser t.booking.status = true → r.booking.userId = t.booking.userId → b = c

/-- The customer of the row has no other booking under way. -/
def AloneAt (w : World) (b : ℕ) (r : Row) : Prop :=
  ∀ c ∈ w.placed, c ≠ b → ∀ t, w.row c = some t → activeForUser t.booking.status = true →
    t.booking.userId ≠ r.booking.userId

theorem alone_of_clash (h : w.clash b r = none) (hr : activeForUser r.booking.status = true) :
    w.AloneAt b r := by
  intro c hc hne t ht hactive huser
  unfold clash at h
  rw [if_pos] at h
  · cases h
  rw [hr, Bool.true_and]
  refine List.any_eq_true.mpr ⟨c, hc, ?_⟩
  simp [hne, ht, hactive, huser]

theorem rowError_core (r : Row) : rowError r.core = rowError r := rowError_congr rfl rfl rfl rfl rfl

/-- A step that brings a booking under way, or writes the row of one. -/
structure Enters (w : World) (b : ℕ) (r : Row) (l : Step) : Prop where
  valid : rowError r = none
  alone : w.AloneAt b r
  others : ∀ c, c ≠ b → (w.run l).core c = w.core c

theorem enters_moved (he : w.moveError m = none) (hr : w.row m.bookingId = some r)
    (hactive : activeForUser (movedRow m r).booking.status = true) :
    w.Enters m.bookingId (movedRow m r).core (.move m) where
  valid := by
    rw [rowError_core]
    exact rowError_of_store (store_of_moveError he hr)
  alone := alone_of_clash (clash_of_store (store_of_moveError he hr)) hactive
  others c hc := core_of_row (move_row_ne hc)

theorem enters_accept {d : ℕ} {suspended : Option ℕ} {w' : World} (h : w.acceptOffer b d suspended = .ok w') :
    ∃ r, (w.run (.accept b d suspended)).core b = some r ∧ w.Enters b r (.accept b d suspended) := by
  obtain ⟨driver, -, -, he, rfl⟩ := acceptOffer_ok h
  obtain ⟨r, hr, -, hrow⟩ := move_row (w := w.resolveOffer b d .accepted) he
  have hrun : w.run (.accept b d suspended) = (w.resolveOffer b d .accepted).move (w.assignMove b d driver) := by
    simp only [run, h, Except.toOption, Option.getD_some]
  have hstore := store_of_moveError he hr
  refine ⟨(movedRow (w.assignMove b d driver) r).core, ?_, ?_, ?_, fun c hc ↦ ?_⟩
  · rw [hrun]
    exact core_some hrow
  · rw [rowError_core]
    exact rowError_of_store hstore
  · exact alone_of_clash (clash_of_store hstore) rfl
  · rw [hrun]
    exact core_of_row (move_row_ne (w := w.resolveOffer b d .accepted) (m := w.assignMove b d driver) hc)

theorem pricedRow_status (r : Row) (total discount : ℤ) (couponId : Option ℕ) :
    (pricedRow r total discount couponId).booking.status = r.booking.status ∧
      (pricedRow r total discount couponId).booking.userId = r.booking.userId := by
  unfold pricedRow
  dsimp only
  split_ifs <;> exact ⟨rfl, rfl⟩

/-- A row under way has been there, or the step has brought it under every check. -/
theorem active_run (hl : Issued env g l) (ho : (w.run l).core b = some r)
    (hactive : activeForUser r.booking.status = true) : w.core b = some r ∨ w.Enters b r l := by
  have hshift := shift_run (w := w) (b := b) hl
  rw [ho] at hshift
  generalize hor : some r = o at hshift
  cases hshift with
  | same => exact .inl rfl
  | create p discount couponId hnew he =>
    cases hor
    cases hp : w.place b p with
    | error e =>
      simp only [run, hp, Except.toOption, Option.getD_none] at ho
      exact .inl ho
    | ok w' =>
      obtain ⟨-, hinsert, -⟩ := place_ok hp
      have hclash := alone_of_clash (clash_of_store hinsert) rfl
      refine .inr ⟨(rowError_core _).trans he, ?_, fun c hc ↦ ?_⟩
      · intro c hc hne t ht hact huser
        refine hclash c hc hne t ht hact (huser.trans ?_)
        exact (pricedRow_status _ _ _ _).2
      · simp only [run, hp, Except.toOption, Option.getD_some]
        exact core_of_row (place_row_ne hp hc)
  | reprice hl hr hs =>
    cases hor
    simp [Row.core, Money.reprice, hs, activeForUser] at hactive
  | paid => cases hor; cases hactive
  | move hm hb hr he hl =>
    cases hor
    subst hb
    exact .inr (enters_moved he hr hactive)
  | @accept d suspended driver r₀ hr hoffer hs hterms =>
    cases hor
    cases hp : w.acceptOffer b d suspended with
    | error e =>
      simp only [run, hp, Except.toOption, Option.getD_none] at ho
      exact .inl ho
    | ok w' =>
      obtain ⟨r, hcore, henters⟩ := enters_accept hp
      obtain rfl := Option.some.inj (ho.symm.trans hcore)
      exact .inr henters
  | dispute => cases hor; cases hactive

theorem mem_placed_run {a : ℕ} (h : a ∈ w.placed) (l : Step) : a ∈ (w.run l).placed := by
  have hmove (m : Move) {w : World} (h : a ∈ w.placed) : a ∈ (w.move m).placed := by
    unfold move
    split <;> exact h
  cases l with
  | create c p =>
    cases hp : w.place c p with
    | error e => simpa [run, hp, Except.toOption] using h
    | ok w' =>
      obtain ⟨-, -, discount, couponId, money, -, -, -, rfl⟩ := place_ok hp
      simp only [run, hp, Except.toOption, Option.getD_some]
      exact List.mem_append_left _ h
  | move m => exact hmove m h
  | accept c d suspended =>
    cases hp : w.acceptOffer c d suspended with
    | error e => simpa [run, hp, Except.toOption] using h
    | ok w' =>
      obtain ⟨driver, -, -, -, rfl⟩ := acceptOffer_ok hp
      simp only [run, hp, Except.toOption, Option.getD_some]
      exact hmove _ h
  | openDispute c openedFrom =>
    simp only [run]
    split_ifs
    · exact h
    · exact hmove _ h
  | takeSearchLock | takeOfferLock | enqueue =>
    simp only [run]
    split_ifs <;> exact h
  | _ => exact h

/-- Whatever is in the table has been created there. -/
theorem placed_run (hl : Issued env g l) (h : ∀ b r, w.core b = some r → b ∈ w.placed) :
    ∀ b r, (w.run l).core b = some r → b ∈ (w.run l).placed := by
  intro b r ho
  have hold {r : Row} (hr : w.row b = some r) : b ∈ (w.run l).placed :=
    mem_placed_run (h b r.core (core_some hr)) l
  have hshift := shift_run (w := w) (b := b) hl
  rw [ho] at hshift
  generalize hor : some r = o at hshift
  cases hshift with
  | same => exact mem_placed_run (h b r hor.symm) l
  | create p discount couponId hnew he =>
    cases hp : w.place b p with
    | error e =>
      simp only [run, hp, Except.toOption, Option.getD_none] at ho ⊢
      exact h b r ho
    | ok w' =>
      obtain ⟨-, -, discount, couponId, money, -, -, -, rfl⟩ := place_ok hp
      simp only [run, hp, Except.toOption, Option.getD_some]
      exact List.mem_append_right _ (List.mem_singleton_self b)
  | reprice hl hr => exact hold hr
  | paid hr => exact hold hr
  | move hm hb hr => exact hold hr
  | accept hr => exact hold hr
  | dispute hr => exact hold hr

theorem Constrained.run (h : w.Constrained) (hl : Issued env g l) : (w.run l).Constrained where
  placed := placed_run hl h.placed
  valid b r hr hactive := by
    rcases active_run hl hr hactive with hold | henters
    · exact h.valid b r hold hactive
    · exact henters.valid
  alone b c r t hr ht hra hta huser := by
    -- Whichever of the two the step has brought, it has found the other there.
    have hfound {b c : ℕ} {r t : Row} (henters : w.Enters b r l) (ht : w.core c = some t)
        (hta : activeForUser t.booking.status = true) (huser : r.booking.userId = t.booking.userId) :
        b = c := by
      by_contra hne
      obtain ⟨t', hrow, rfl⟩ := Option.map_eq_some_iff.mp ht
      exact henters.alone c (h.placed c _ ht) (Ne.symm hne) t' hrow hta huser.symm
    rcases active_run hl hr hra with hr' | henters
    · rcases active_run hl ht hta with ht' | henters
      · exact h.alone b c r t hr' ht' hra hta huser
      · exact (hfound henters hr' hra huser.symm).symm
    · by_cases hbc : c = b
      · exact hbc.symm
      · exact hfound henters (henters.others c hbc ▸ ht) hta huser

theorem Constrained.runs {s₀ : World} {ps : List (Request Unit)} {es : List (Event Step World)}
    (h₀ : s₀.Constrained) (h : Runs (Operates env) s₀ ps w es) : w.Constrained := by
  refine (h.chained.invariant (I := World.Constrained) h₀ fun e he hk ↦ ?_).1
  have hafter : e.after = e.before.run e.label := h.committed e he
  rw [hafter]
  exact hk.run ((Runs.only (fun p hp ↦ operates_only hp) h).1 e he)

theorem constrained_blank : World.blank.Constrained where
  placed b r h := by cases h
  valid b r h := by cases h
  alone b c r t h := by cases h

/-- A booking whose driver has not begun the trip can be taken off them. -/
theorem unassign_ok (h : w.Constrained) (hr : w.row b = some r) {reason : Option String} {cause : Cause}
    (hl : .searching ∈ legalTransitions r.booking.status)
    (hactive : activeForUser r.booking.status = true) :
    w.moveError ⟨b, .searching, .unassign reason, false, cause⟩ = none := by
  have hbook : w.money.bookings b = some r.booking := by
    cases hb : w.money.bookings b with
    | none => simp [row, hb] at hr
    | some x =>
      simp only [row, hb, Option.map_some, Option.some.injEq] at hr
      rw [← hr]
  have hvalid : rowError r = none := by
    rw [← rowError_core]
    exact h.valid b r.core (core_some hr) hactive
  have hdisputed : r.booking.status ≠ .disputed := by
    intro hs
    rw [hs] at hactive
    cases hactive
  have htransition : w.money.transitionError b .searching {} = none := by
    simp [Money.World.transitionError, hbook, isLegal, hl, hdisputed]
    exact bookingError_of_row hvalid
  have hmoved : rowError (movedRow ⟨b, .searching, .unassign reason, false, cause⟩ r) = none :=
    (rowError_congr rfl rfl rfl rfl rfl).trans hvalid
  have hclash : w.clash b (movedRow ⟨b, .searching, .unassign reason, false, cause⟩ r) = none := by
    unfold clash
    rw [if_neg, if_neg]
    · simp [movedRow, Patch.apply, activeForDriver]
    · rw [Bool.and_eq_true, not_and]
      intro _ hany
      obtain ⟨c, -, hc⟩ := List.any_eq_true.mp hany
      simp only [Bool.and_eq_true, decide_eq_true_eq] at hc
      obtain ⟨t, ht, htc⟩ := (Option.any_eq_true _ _).mp hc.2
      simp only [Bool.and_eq_true, decide_eq_true_eq] at htc
      exact hc.1 (h.alone c b t.core r.core (core_some ht) (core_some hr) htc.1 hactive htc.2)
  simp [moveError, htransition, hr, storeError, hmoved, hclash]

end World

end Towing.Trips
