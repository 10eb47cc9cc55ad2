import Towing.Quotes.QuotesService

namespace Towing.Quotes

open Towing.Money Towing.Process QuotesService

/-- What the run is asked to spare the quote: an admin's write on a quote that has left their
hands since they read it, a new price between the customer's reading and their claim, a call
that fails after the booking was committed, and a tax on top of the quoted total. -/
def Fair (e : Event Step World) : Prop :=
  match e.label with
  | .price .. | .reject _ | .expire => e.before.row.status = .requested ∨ e.before.row.status = .quoted
  | .claim read => e.before.row.status = .quoted →
      read.totalPaise = e.before.row.totalPaise ∧ read.commissionPct = e.before.row.commissionPct
  | .create read taxPct creation => creation = .created ∧ taxOf (read.totalPaise.getD 0) taxPct = 0
  | _ => True

instance : DecidablePred Fair := fun e ↦
  match e with
  | ⟨.price _ _ _, _, _⟩ | ⟨.reject _, _, _⟩ | ⟨.expire, _, _⟩ => inferInstanceAs (Decidable (_ ∨ _))
  | ⟨.claim _, _, _⟩ => inferInstanceAs (Decidable (_ → _))
  | ⟨.create _ _ _, _, _⟩ => inferInstanceAs (Decidable (_ ∧ _))
  | ⟨.look, _, _⟩ | ⟨.lapse, _, _⟩ | ⟨.link _, _, _⟩ | ⟨.putBack, _, _⟩ | ⟨.configure _ _, _, _⟩ | ⟨.tick _, _, _⟩ =>
    .isTrue trivial

/-- The booking is worth what the row says. -/
def QuoteRow.Matches (row : QuoteRow) (booking : ManualBooking) : Prop :=
  booking.totalPaise = (row.totalPaise.getD 0 : ℕ) ∧ booking.taxPaise = 0 ∧
    booking.commissionPct = row.commissionPct.getD 0

/-- A request that has not won the quote, and steps on it only once it has. -/
def Quiet : Request Unit → Prop
  | .done _ => True
  | .step l next => ∀ s : World,
      match l with
      | .create .. | .link _ | .putBack => False
      | .claim read => if s.row.status = .quoted then ∃ creation, next s = booking read creation else Quiet (next s)
      | _ => Quiet (next s)

theorem quiet_requireStatus {p : Request Unit} (h : Quiet p) : Quiet (requireStatus.bind fun _ ↦ p) := by
  intro s
  show Quiet (Proc.bind (.done (if _ then _ else _)) _)
  split_ifs
  · exact h
  · trivial

theorem handles_quiet {p : Request Unit} (h : Handles p) : Quiet p := by
  cases h with
  | accept creation =>
    intro s
    show Quiet (if _ then _ else _)
    split_ifs with hquoted
    · trivial
    · intro s'
      show Quiet (if _ then _ else _)
      split_ifs
      · exact fun _ ↦ trivial
      · intro s''
        show if s''.row.status = .quoted then _ else _
        split_ifs with hclaimed
        · exact ⟨creation, if_pos (decide_eq_true hclaimed)⟩
        · show Quiet (if decide (s''.row.status = .quoted) = true then _ else _)
          rw [if_neg (by simpa using hclaimed)]
          trivial
  | quotePrice totalPaise validHours => exact quiet_requireStatus fun _ _ _ ↦ trivial
  | reject reason => exact quiet_requireStatus fun _ ↦ trivial
  | expire => exact quiet_requireStatus fun _ ↦ trivial
  | configure taxPct commissionPctC => exact fun _ ↦ trivial
  | tick ms => exact fun _ ↦ trivial

/-- The call has won the quote and has not booked yet. -/
inductive Booking (row : QuoteRow) : Request Unit → Prop
  | booking (read : QuoteRow) (creation : Creation) (htotal : read.totalPaise = row.totalPaise)
      (hpct : read.commissionPct = row.commissionPct) : Booking row (booking read creation)
  | inserting (read : QuoteRow) (taxPct : Pct) (creation : Creation) (htotal : read.totalPaise = row.totalPaise)
      (hpct : read.commissionPct = row.commissionPct) : Booking row (inserting read taxPct creation)

theorem Booking.ne_done {row : QuoteRow} {p : Request Unit} {r : Except String Unit} (h : Booking row p) :
    p ≠ .done r := by
  cases h with
  | booking | inserting =>
    intro hp
    cases hp

/-- Every request but the `n`-th has yet to win the quote, if it ever will. -/
def QuietBut (n : ℕ) (cs : List (Call Step World String)) : Prop :=
  ∀ m c, m ≠ n → cs[m]? = some c → Quiet c.rest

/-- How far the quote has come: nobody has it, a call is about to book, has booked or has been
refused, or the booking is linked. -/
inductive Stage (cs : List (Call Step World String)) (w : World) : Prop
  | vacant (hstatus : w.row.status ≠ .accepted) (hbookings : w.bookings = [])
      (hquiet : ∀ c ∈ cs, Quiet c.rest)
  | claimed (n : ℕ) (c : Call Step World String) (hstatus : w.row.status = .accepted) (hbookings : w.bookings = [])
      (hc : cs[n]? = some c) (hrest : Booking w.row c.rest) (hquiet : QuietBut n cs)
  | refused (n : ℕ) (c : Call Step World String) (message : String) (hstatus : w.row.status = .accepted)
      (hbookings : w.bookings = []) (hc : cs[n]? = some c) (hrest : c.rest = undoing message) (hquiet : QuietBut n cs)
  | booked (n : ℕ) (c : Call Step World String) (b : ManualBooking) (hstatus : w.row.status = .accepted)
      (hbookings : w.bookings = [b]) (hmatches : w.row.Matches b) (hc : cs[n]? = some c)
      (hrest : c.rest = linking 0) (hquiet : QuietBut n cs)
  | linked (b : ManualBooking) (hstatus : w.row.status = .accepted) (hbookings : w.bookings = [b])
      (hmatches : w.row.Matches b) (hlinked : w.row.bookingId = some 0) (hquiet : ∀ c ∈ cs, Quiet c.rest)

variable {w : World} {cs : List (Call Step World String)} {n : ℕ} {p : Request Unit} {l : Step}
  {next : World → Request Unit}

theorem QuietBut.set (h : QuietBut n cs) (c : Call Step World String) : QuietBut n (cs.set n c) := by
  intro m c' hm hc'
  rw [List.getElem?_set_ne (Ne.symm hm)] at hc'
  exact h m c' hm hc'

theorem quietBut_of_quiet (h : ∀ c ∈ cs, Quiet c.rest) (n : ℕ) : QuietBut n cs :=
  fun _ c _ hc ↦ h c (List.mem_of_getElem? hc)

theorem QuietBut.all {c : Call Step World String} (h : QuietBut n cs) (hc : Quiet c.rest) :
    ∀ c' ∈ cs.set n c, Quiet c'.rest := by
  intro c' hc'
  obtain ⟨m, hm⟩ := List.getElem?_of_mem hc'
  by_cases hmn : m = n
  · subst hmn
    rw [List.getElem?_set] at hm
    simp only [if_true] at hm
    split_ifs at hm
    obtain rfl := Option.some.inj hm
    exact hc
  · exact h.set c m c' hmn hm

/-- What a call that has not won the quote does to it: nothing, or it wins. -/
theorem quiet_step (hquiet : Quiet (.step l next)) (hfair : Fair ⟨l, w, w.run l⟩) :
    (w.run l).bookings = w.bookings ∧
      (w.row.status = .accepted → (w.run l).row = w.row ∧ Quiet (next w)) ∧
      (w.row.status ≠ .accepted →
        (w.run l).row.status ≠ .accepted ∧ Quiet (next w) ∨
        (w.run l).row.status = .accepted ∧ Booking (w.run l).row (next w)) := by
  have hnext := hquiet w
  cases l with
  | look => exact ⟨rfl, fun _ ↦ ⟨rfl, hnext⟩, fun h ↦ .inl ⟨h, hnext⟩⟩
  | configure taxPct commissionPctC => exact ⟨rfl, fun _ ↦ ⟨rfl, hnext⟩, fun h ↦ .inl ⟨h, hnext⟩⟩
  | tick ms => exact ⟨rfl, fun _ ↦ ⟨rfl, hnext⟩, fun h ↦ .inl ⟨h, hnext⟩⟩
  | create read taxPct creation => exact hnext.elim
  | link bookingId => exact hnext.elim
  | putBack => exact hnext.elim
  | lapse =>
    rw [World.run]
    split_ifs with hquoted
    · refine ⟨rfl, fun h ↦ ?_, fun _ ↦ .inl ⟨?_, hnext⟩⟩
      · rw [hquoted] at h
        cases h
      · exact fun h ↦ by cases h
    · exact ⟨rfl, fun _ ↦ ⟨rfl, hnext⟩, fun h ↦ .inl ⟨h, hnext⟩⟩
  | claim read =>
    rw [World.run]
    dsimp only at hnext
    split_ifs with hquoted
    · rw [if_pos hquoted] at hnext
      obtain ⟨creation, hnext⟩ := hnext
      obtain ⟨htotal, hpct⟩ := hfair hquoted
      refine ⟨rfl, fun h ↦ ?_, fun _ ↦ .inr ⟨rfl, ?_⟩⟩
      · rw [hquoted] at h
        cases h
      · rw [hnext]
        exact .booking read creation htotal hpct
    · rw [if_neg hquoted] at hnext
      exact ⟨rfl, fun _ ↦ ⟨rfl, hnext⟩, fun h ↦ .inl ⟨h, hnext⟩⟩
  | price totalPaise commissionPct validUntil | reject reason | expire =>
    refine ⟨rfl, fun h ↦ ?_, fun _ ↦ .inl ⟨?_, hnext⟩⟩
    · have hstatus : w.row.status = .requested ∨ w.row.status = .quoted := hfair
      rw [h] at hstatus
      rcases hstatus with hs | hs <;> cases hs
    · exact fun h ↦ by cases h

theorem Stage.ask (h : Stage cs w) (hp : Handles p) : Stage (cs ++ [⟨p, p⟩]) w := by
  have hquiet := handles_quiet hp
  have hall (hcs : ∀ c ∈ cs, Quiet c.rest) : ∀ c ∈ cs ++ [⟨p, p⟩], Quiet c.rest :=
    List.forall_mem_append.mpr ⟨hcs, List.forall_mem_singleton.mpr hquiet⟩
  have hbut {n : ℕ} {c : Call Step World String} (hc : cs[n]? = some c) (h : QuietBut n cs) :
      (cs ++ [⟨p, p⟩])[n]? = some c ∧ QuietBut n (cs ++ [⟨p, p⟩]) := by
    have hlt := (List.getElem?_eq_some_iff.mp hc).1
    refine ⟨by rwa [List.getElem?_append_left hlt], fun m c' hm hc' ↦ ?_⟩
    rcases Nat.lt_or_ge m cs.length with hm' | hm'
    · rw [List.getElem?_append_left hm'] at hc'
      exact h m c' hm hc'
    · rw [List.getElem?_append_right hm', List.getElem?_singleton] at hc'
      split_ifs at hc'
      obtain rfl := Option.some.inj hc'
      exact hquiet
  cases h with
  | vacant hstatus hbookings hquiet => exact .vacant hstatus hbookings (hall hquiet)
  | claimed n c hstatus hbookings hc hrest hquiet =>
    obtain ⟨hc, hquiet⟩ := hbut hc hquiet
    exact .claimed n c hstatus hbookings hc hrest hquiet
  | refused n c message hstatus hbookings hc hrest hquiet =>
    obtain ⟨hc, hquiet⟩ := hbut hc hquiet
    exact .refused n c message hstatus hbookings hc hrest hquiet
  | booked n c b hstatus hbookings hmatches hc hrest hquiet =>
    obtain ⟨hc, hquiet⟩ := hbut hc hquiet
    exact .booked n c b hstatus hbookings hmatches hc hrest hquiet
  | linked b hstatus hbookings hmatches hlinked hquiet =>
    exact .linked b hstatus hbookings hmatches hlinked (hall hquiet)

theorem QuietBut.set_other {k : ℕ} {c : Call Step World String} (h : QuietBut n cs) (hc : Quiet c.rest) :
    QuietBut n (cs.set k c) := by
  intro m c' hm hc'
  by_cases hmk : k = m
  · subst hmk
    rw [List.getElem?_set] at hc'
    simp only [if_true] at hc'
    split_ifs at hc'
    obtain rfl := Option.some.inj hc'
    exact hc
  · rw [List.getElem?_set_ne hmk] at hc'
    exact h m c' hm hc'

section Commit

variable {k : ℕ} (hk : cs[k]? = some ⟨p, .step l next⟩) (hfair : Fair ⟨l, w, w.run l⟩)
include hk hfair

omit hk in
/-- A step of a call that has not won a quote which another has. -/
theorem Stage.commit_other (k : ℕ) (p : Request Unit) (hstatus : w.row.status = .accepted)
    (hquiet : Quiet (.step l next)) :
    (w.run l).bookings = w.bookings ∧ (w.run l).row = w.row ∧ Quiet (next w) ∧
      ∀ cs n c, k ≠ n → cs[n]? = some c → QuietBut n cs →
        (cs.set k ⟨p, next w⟩)[n]? = some c ∧ QuietBut n (cs.set k ⟨p, next w⟩) := by
  obtain ⟨hbookings, hkept, -⟩ := quiet_step hquiet hfair
  obtain ⟨hrow, hnext⟩ := hkept hstatus
  refine ⟨hbookings, hrow, hnext, fun cs n c hn hc hbut ↦ ⟨?_, hbut.set_other hnext⟩⟩
  rw [List.getElem?_set_ne hn]
  exact hc

theorem Stage.commit_claimed (hstatus : w.row.status = .accepted) (hbookings : w.bookings = [])
    (hrest : Booking w.row (.step l next)) (hquiet : QuietBut k cs) :
    Stage (cs.set k ⟨p, next w⟩) (w.run l) := by
  have hset : (cs.set k ⟨p, next w⟩)[k]? = some ⟨p, next w⟩ :=
    List.getElem?_set_self (List.getElem?_eq_some_iff.mp hk).1
  generalize hq : Proc.step l next = q at hrest
  cases hrest with
  | booking read creation htotal hpct =>
    obtain ⟨rfl, rfl⟩ := Proc.step.inj hq
    cases creation with
    | refused message => exact .refused k _ message hstatus hbookings hset rfl (hquiet.set _)
    | created =>
      exact .claimed k _ hstatus hbookings hset (.inserting read w.taxPct .created htotal hpct) (hquiet.set _)
    | lost message =>
      exact .claimed k _ hstatus hbookings hset (.inserting read w.taxPct (.lost message) htotal hpct) (hquiet.set _)
  | inserting read taxPct creation htotal hpct =>
    obtain ⟨rfl, rfl⟩ := Proc.step.inj hq
    obtain ⟨rfl, htax⟩ := hfair
    refine .booked k _ (read.booking taxPct) hstatus ?_ ⟨?_, htax, ?_⟩ hset ?_ (hquiet.set _)
    · rw [World.run, hbookings]
      rfl
    · rw [QuoteRow.booking, htax, add_zero, htotal]
      rfl
    · rw [QuoteRow.booking, hpct]
      rfl
    · show linking w.bookings.length = linking 0
      rw [hbookings]
      rfl

theorem Stage.commit (h : Stage cs w) : Stage (cs.set k ⟨p, next w⟩) (w.run l) := by
  have hset : (cs.set k ⟨p, next w⟩)[k]? = some ⟨p, next w⟩ :=
    List.getElem?_set_self (List.getElem?_eq_some_iff.mp hk).1
  have hmem := List.mem_of_getElem? hk
  cases h with
  | vacant hstatus hbookings hquiet =>
    obtain ⟨hsame, -, hopen⟩ := quiet_step (hquiet _ hmem) hfair
    rcases hopen hstatus with ⟨hstatus, hnext⟩ | ⟨hstatus, hnext⟩
    · exact .vacant hstatus (hsame.trans hbookings) ((quietBut_of_quiet hquiet k).all hnext)
    · exact .claimed k _ hstatus (hsame.trans hbookings) hset hnext ((quietBut_of_quiet hquiet k).set _)
  | claimed n c hstatus hbookings hc hrest hquiet =>
    by_cases hkn : k = n
    · subst hkn
      obtain rfl := Option.some.inj (hk.symm.trans hc)
      exact Stage.commit_claimed hk hfair hstatus hbookings hrest hquiet
    · obtain ⟨hsame, hrow, -, hothers⟩ := Stage.commit_other hfair k p hstatus (hquiet k _ hkn hk)
      obtain ⟨hc, hquiet⟩ := hothers cs n c hkn hc hquiet
      exact .claimed n c (hrow ▸ hstatus) (hsame.trans hbookings) hc (hrow ▸ hrest) hquiet
  | refused n c message hstatus hbookings hc hrest hquiet =>
    by_cases hkn : k = n
    · subst hkn
      obtain rfl := Option.some.inj (hk.symm.trans hc)
      obtain ⟨rfl, rfl⟩ := Proc.step.inj hrest
      exact .vacant (fun h ↦ by cases h) hbookings (hquiet.all trivial)
    · obtain ⟨hsame, hrow, -, hothers⟩ := Stage.commit_other hfair k p hstatus (hquiet k _ hkn hk)
      obtain ⟨hc, hquiet⟩ := hothers cs n c hkn hc hquiet
      exact .refused n c message (hrow ▸ hstatus) (hsame.trans hbookings) hc hrest hquiet
  | booked n c b hstatus hbookings hmatches hc hrest hquiet =>
    by_cases hkn : k = n
    · subst hkn
      obtain rfl := Option.some.inj (hk.symm.trans hc)
      obtain ⟨rfl, rfl⟩ := Proc.step.inj hrest
      exact .linked b hstatus hbookings hmatches rfl (hquiet.all trivial)
    · obtain ⟨hsame, hrow, -, hothers⟩ := Stage.commit_other hfair k p hstatus (hquiet k _ hkn hk)
      obtain ⟨hc, hquiet⟩ := hothers cs n c hkn hc hquiet
      exact .booked n c b (hrow ▸ hstatus) (hsame.trans hbookings) (hrow ▸ hmatches) hc hrest hquiet
  | linked b hstatus hbookings hmatches hlinked hquiet =>
    obtain ⟨hsame, hrow, hnext, -⟩ := Stage.commit_other hfair k p hstatus (hquiet _ hmem)
    exact .linked b (hrow ▸ hstatus) (hsame.trans hbookings) (hrow ▸ hmatches) (hrow ▸ hlinked)
      ((quietBut_of_quiet hquiet k).all hnext)

end Commit

/-- What a manual quote promises: one booking at most, worth what the row says, on a quote that
stays accepted and, once the call that booked has come to rest, is linked to it; and no quote that
is left accepted without one. -/
structure OneBooking (cs : List (Call Step World String)) (w : World) : Prop where
  once : w.bookings.length ≤ 1
  priced : ∀ b ∈ w.bookings, w.row.Matches b
  kept : w.bookings ≠ [] → w.row.status = .accepted
  linked : (∀ c ∈ cs, ∃ r, c.rest = .done r) → (w.bookings ≠ [] ↔ w.row.status = .accepted) ∧
    (w.bookings ≠ [] → w.row.bookingId = some 0)

theorem Stage.oneBooking (h : Stage cs w) : OneBooking cs w := by
  have hbusy {n : ℕ} {c : Call Step World String} (hc : cs[n]? = some c)
      (hstep : ∀ r, c.rest ≠ .done r) (hrest : ∀ c ∈ cs, ∃ r, c.rest = .done r) : False := by
    obtain ⟨r, hr⟩ := hrest c (List.mem_of_getElem? hc)
    exact hstep r hr
  cases h with
  | vacant hstatus hbookings =>
    exact ⟨by simp [hbookings], by simp [hbookings], fun h ↦ absurd hbookings h,
      fun _ ↦ ⟨iff_of_false (fun h ↦ h hbookings) hstatus, fun h ↦ absurd hbookings h⟩⟩
  | claimed n c hstatus hbookings hc hrest =>
    refine ⟨by simp [hbookings], by simp [hbookings], fun h ↦ absurd hbookings h, fun hall ↦ ?_⟩
    exact (hbusy hc (fun _ ↦ hrest.ne_done) hall).elim
  | refused n c message hstatus hbookings hc hrest =>
    refine ⟨by simp [hbookings], by simp [hbookings], fun h ↦ absurd hbookings h, fun hall ↦ ?_⟩
    exact (hbusy hc (fun r hr ↦ by rw [hrest] at hr; cases hr) hall).elim
  | booked n c b hstatus hbookings hmatches hc hrest =>
    refine ⟨by simp [hbookings], by simpa [hbookings] using hmatches, fun _ ↦ hstatus, fun hall ↦ ?_⟩
    exact (hbusy hc (fun r hr ↦ by rw [hrest] at hr; cases hr) hall).elim
  | linked b hstatus hbookings hmatches hlinked =>
    refine ⟨by simp [hbookings], by simpa [hbookings] using hmatches, fun _ ↦ hstatus, fun _ ↦ ⟨?_, fun _ ↦ hlinked⟩⟩
    exact iff_of_true (by simp [hbookings]) hstatus

theorem one_booking {taxPct commissionPctC : Pct} {now : ℤ} {es : List (ℕ × Event Step World)}
    (hrun : Calls Handles (.requested taxPct commissionPctC now) cs w es) (hfair : ∀ e ∈ es, Fair e.2) :
    OneBooking cs w := by
  apply Stage.oneBooking
  induction hrun with
  | start => exact .vacant (fun h ↦ by cases h) rfl (by simp)
  | ask _ hp ih => exact (ih hfair).ask hp
  | commit _ hn ih =>
    exact (ih fun e he ↦ hfair e (List.mem_append_left _ he)).commit hn 
      (hfair _ (List.mem_append_right _ (List.mem_singleton_self _)))

/-! ### A quote accepted once, and one accepted twice -/

def quoteRun (asked : List (Request Unit)) (turns : List ℕ) :
    List (Call Step World String) × World × List (ℕ × Event Step World) :=
  takeTurns turns (asked.map fun p ↦ ⟨p, p⟩) (.requested 0 1500 0)

theorem quoteRun_calls {asked : List (Request Unit)} (hasked : ∀ p ∈ asked, Handles p) (turns : List ℕ) :
    Calls Handles (.requested 0 1500 0) (quoteRun asked turns).1 (quoteRun asked turns).2.1
      (quoteRun asked turns).2.2 := by
  simpa [quoteRun] using (Calls.start.askAll hasked).takeTurns turns

/-- A price of ₹10,000, lowered to ₹9,000 while the customer taps accept on two devices. -/
def sampleAsked : List (Request Unit) :=
  [quotePrice 1_000_000 24, accept .created, quotePrice 900_000 24, accept .created]

theorem sampleAsked_handled : ∀ p ∈ sampleAsked, Handles p := by
  simp only [sampleAsked, List.forall_mem_cons, List.not_mem_nil, false_imp_iff, implies_true, and_true]
  exact ⟨.quotePrice _ _, .accept _, .quotePrice _ _, .accept _⟩

/-- The price is lowered before the first tap, and the second tap comes too late. -/
def calmTurns : List ℕ := [0, 0, 0, 0, 2, 2, 2, 2, 1, 1, 1, 3, 3, 1, 1, 1, 3]

theorem one_booking_sample :
    (quoteRun sampleAsked calmTurns).2.1.bookings = [⟨900_000, 0, 1500⟩] ∧
      OneBooking (quoteRun sampleAsked calmTurns).1 (quoteRun sampleAsked calmTurns).2.1 :=
  ⟨by decide +kernel, one_booking (quoteRun_calls sampleAsked_handled calmTurns) (by decide +kernel)⟩

/-- The lower price is written after the first tap has booked, on a row that was open when it was
read, and opens the quote again for the second tap. -/
def lateTurns : List ℕ := [0, 0, 0, 0, 2, 2, 2, 1, 1, 1, 1, 1, 1, 2, 3, 3, 3, 3, 3, 3]

theorem two_bookings :
    Calls Handles (.requested 0 1500 0) (quoteRun sampleAsked lateTurns).1 (quoteRun sampleAsked lateTurns).2.1
        (quoteRun sampleAsked lateTurns).2.2 ∧
      ¬OneBooking (quoteRun sampleAsked lateTurns).1 (quoteRun sampleAsked lateTurns).2.1 :=
  ⟨quoteRun_calls sampleAsked_handled _, fun h ↦ absurd h.once (by decide +kernel)⟩

end Towing.Quotes
