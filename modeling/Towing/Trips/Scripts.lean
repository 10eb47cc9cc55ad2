import Towing.Trips.StatusHistory

namespace Towing.Trips

open Towing.Process Towing.Money Towing.Db
open BookingStateMachineService (tracked write wasSettled checkSettled)

def Recorded.Sound (T : Recorded) : Prop := ∀ b, (T.sheet b).Sound

def Recorded.Settled (T : Recorded) (b : ℕ) : Prop := T.captured b ∧ T.credited b

namespace Script

/-- The bookings that the script may move or create. -/
def called : Script → Set ℕ
  | .finish _ => ∅
  | .transition params next => insert params.bookingId {b | ∃ r, b ∈ (next r).called}
  | .create b _ _ _ next => insert b {c | ∃ r, c ∈ (next r).called}
  | .columns _ _ next => next.called
  | .read next => {b | ∃ T, b ∈ (next T).called}

/-- No booking is moved twice. -/
def Once : Script → Prop
  | .finish _ => True
  | .transition params next => ∀ r, params.bookingId ∉ (next r).called ∧ (next r).Once
  | .create b _ _ _ next => ∀ r, b ∉ (next r).called ∧ (next r).Once
  | .columns _ _ next => next.Once
  | .read next => ∀ T, (next T).Once

end Script

/-- What a transaction that began at `n` has made of the sheet `x`: the lines `new`,
none on a booking it may not call, and at most one if it calls none twice. -/
structure Sheet.Extends (n : ℕ) (callable again once settled : Prop) (x y : Sheet)
    (new : List HistoryLine) : Prop where
  sound : y.Sound
  lines : y.lines = x.lines ++ new
  began : ∀ l ∈ new, l.createdAt = n
  called : ¬callable → new = []
  once : once → new.length ≤ 1 ∧ (again → new = [])
  resolved : x.status = some .disputed → new.head?.map (·.status) = some .paid → settled

namespace Sheet

variable {n : ℕ} {callable again again' once settled settled' : Prop} {x y : Sheet} {r : Row}
  {new : List HistoryLine}

theorem Extends.refl (h : x.Sound) : x.Extends n callable again once settled x [] :=
  ⟨h, (List.append_nil _).symm, by simp, fun _ ↦ rfl, fun _ ↦ ⟨by simp, fun _ ↦ rfl⟩,
    fun _ h ↦ (by cases h)⟩

theorem Extends.mono (h : x.Extends n callable again once settled y new)
    (hagain : once → again' → again) (hsettled : x.status = some .disputed → settled → settled') :
    x.Extends n callable again' once settled' y new :=
  { h with
    once := fun ho ↦ ⟨(h.once ho).1, fun ha ↦ (h.once ho).2 (hagain ho ha)⟩
    resolved := fun hd hp ↦ hsettled hd (h.resolved hd hp) }

/-- The sheet once the state machine has moved the booking. -/
def moved (y : Sheet) (r' : Row) (line : HistoryLine) (events : List AnalyticsEvent) : Sheet :=
  ⟨some r', y.lines ++ [line], y.events ++ events⟩

theorem Sound.moved (h : y.Sound) {r' : Row} {line : HistoryLine} {events : List AnalyticsEvent}
    (hr : y.row = some r) (hlegal : isLegal r.booking.status line.status)
    (hstatus : r'.booking.status = line.status)
    (htrack : events.map (·.name) = (tracked r.booking.status line.status).toList) :
    (y.moved r' line events).Sound := by
  have hs : y.status = some r.booking.status := by rw [status, hr, Option.map_some]
  have hpath : LegalPath y.statuses (some r.booking.status) := hs ▸ h.path
  have hlines : (y.moved r' line events).statuses = y.statuses ++ [line.status] := by
    simp [statuses, Sheet.moved]
  refine ⟨?_, ?_⟩
  · rw [hlines, show (y.moved r' line events).status = some line.status from congrArg some hstatus]
    exact hpath.concat hlegal
  · rw [hlines, trackedAlong_concat hpath.last, ← htrack, ← h.recorded]
    simp [Sheet.moved]

theorem Extends.moved (h : x.Extends n callable again once settled y new) (hx : x.Sound)
    (r' : Row) (line : HistoryLine) {events : List AnalyticsEvent}
    (hr : y.row = some r) (hlegal : isLegal r.booking.status line.status)
    (hstatus : r'.booking.status = line.status)
    (htrack : events.map (·.name) = (tracked r.booking.status line.status).toList)
    (hn : line.createdAt = n) (hcall : callable) (honce : once → again ∧ ¬again')
    (hpaid : r.booking.status = .disputed → line.status = .paid →
      x.status = some .disputed → settled) :
    x.Extends n callable again' once settled (y.moved r' line events) (new ++ [line]) where
  sound := h.sound.moved hr hlegal hstatus htrack
  lines := by rw [Sheet.moved, h.lines, List.append_assoc]
  began l hl := by
    rcases List.mem_append.mp hl with hl | hl
    · exact h.began l hl
    · cases List.mem_singleton.mp hl
      exact hn
  called hc := absurd hcall hc
  once ho := by
    obtain ⟨ha, ha'⟩ := honce ho
    rw [(h.once ho).2 ha]
    exact ⟨by simp, fun hagain ↦ absurd hagain ha'⟩
  resolved hd hp := by
    cases new with
    | cons l new => exact h.resolved hd (by simpa using hp)
    | nil =>
      -- the first line of the transaction: the booking still stands where it stood
      have hstands : some r.booking.status = x.status := by
        rw [← hx.path.last, statuses, ← List.append_nil x.lines, ← h.lines, ← statuses,
          h.sound.path.last, status, hr, Option.map_some]
      rw [hd] at hstands
      exact hpaid (Option.some.inj hstands) (by simpa using hp) hd

end Sheet

/-- What holds of a script between two of its calls: it began at `n`, may have moved
what is in `C`, and can still move what is in `D`. -/
def Between (n : ℕ) (C D : Set ℕ) (once : Prop) (H : Set MachineResource) (T U : Recorded) : Prop :=
  .money ∉ H ∧ ∀ b, ∃ new,
    (T.sheet b).Extends n (b ∈ C) (b ∈ D) once (T.Settled b) (U.sheet b) new

/-- What holds of it within a call on `b`, whose sheet is `x` and which it sees as `y`. -/
structure Within (n : ℕ) (C D : Set ℕ) (once : Prop) (b : ℕ) (x y : Sheet) (paid : Prop)
    (H : Set MachineResource) (T U : Recorded) : Prop where
  money : .money ∉ H
  held : .booking b ∈ H
  before : T.sheet b = x
  sees : U.sheet b = y
  settled : paid → x.status = some .disputed → T.Settled b
  others : ∀ c ≠ b, ∃ new,
    (T.sheet c).Extends n (c ∈ C) (c ∈ D) once (T.Settled c) (U.sheet c) new

variable {n b : ℕ} {C D D' : Set ℕ} {once paid : Prop} {H : Set MachineResource}
  {T U T' U' : Recorded} {x y : Sheet}

theorem View.extends (hv : machineParts.View Recorded.Sound H T U T' U')
    (h : ∃ new, (T.sheet b).Extends n (b ∈ C) (b ∈ D) once (T.Settled b) (U.sheet b) new) :
    ∃ new, (T'.sheet b).Extends n (b ∈ C) (b ∈ D) once (T'.Settled b) (U'.sheet b) new := by
  by_cases hb : .booking b ∈ H
  · obtain ⟨new, h⟩ := h
    obtain ⟨hsame, hkept⟩ := hv.committed _ hb
    rw [show T'.sheet b = T.sheet b from hsame, show U'.sheet b = U.sheet b from hv.own _ hb]
    refine ⟨new, h.mono (fun _ ↦ id) fun hd hs ↦ ?_⟩
    exact ⟨(hkept hd).1 hs.1, (hkept hd).2 hs.2⟩
  · rw [show U'.sheet b = T'.sheet b from hv.outside _ hb]
    exact ⟨[], .refl (hv.inv b)⟩

theorem Between.view (h : Between n C D once H T U)
    (hv : machineParts.View Recorded.Sound H T U T' U') : Between n C D once H T' U' :=
  ⟨h.1, fun b ↦ View.extends hv (h.2 b)⟩

theorem Between.mono (h : Between n C D once H T U) (hD : once → D' ⊆ D) :
    Between n C D' once H T U := by
  refine ⟨h.1, fun b ↦ ?_⟩
  obtain ⟨new, h⟩ := h.2 b
  exact ⟨new, h.mono (fun ho hb ↦ hD ho hb) fun _ ↦ id⟩

theorem Within.view (h : Within n C D once b x y paid H T U)
    (hv : machineParts.View Recorded.Sound H T U T' U') :
    Within n C D once b x y paid H T' U' where
  money := h.money
  held := h.held
  before := (hv.committed _ h.held).1.trans h.before
  sees := (hv.own _ h.held).trans h.sees
  settled hp hd := by
    obtain ⟨hc, hl⟩ := h.settled hp hd
    have hkept := (hv.committed _ h.held).2 (by rw [Recorded.status_eq, h.before]; exact hd)
    exact ⟨hkept.1 hc, hkept.2 hl⟩
  others c hc := View.extends hv (h.others c hc)

/-- A statement of the call. -/
theorem Within.step (h : Within n C D once b x y paid H T U) {l : MachineStatement}
    (hl : l.need ⊆ {.booking b}) :
    Within n C D once b x (l.sheetAfter b y) paid (H ∪ machineParts.need l) T (Store.commit l U) where
  money hm := by
    rcases hm with hm | hm
    · exact h.money hm
    · cases hl hm
  held := .inl h.held
  before := h.before
  sees := by rw [sheet_commit, h.sees]
  settled := h.settled
  others c hc := by
    have hsheet : (Store.commit l U).sheet c = U.sheet c :=
      (sheet_commit l U c).trans (sheetAfter_of_not_need fun hm ↦ (by
        cases hl hm
        exact hc rfl))
    rw [hsheet]
    exact h.others c hc

theorem Within.between (h : Within n C D once b x y paid H T U)
    {new : List HistoryLine} (hb : x.Extends n (b ∈ C) (b ∈ D') once paid y new)
    (hD : once → D' ⊆ D) :
    Between n C D' once H T U := by
  refine ⟨h.money, fun c ↦ ?_⟩
  by_cases hc : c = b
  · subst hc
    rw [h.before, h.sees]
    exact ⟨new, hb.mono (fun _ ↦ id) fun hd hp ↦ h.settled hp hd⟩
  · obtain ⟨new, h⟩ := h.others c hc
    exact ⟨new, h.mono (fun ho hb ↦ hD ho hb) fun _ ↦ id⟩

theorem Between.done {α : Type} (h : Between n C D once H T U) (r : Except Failure α) :
    machineParts.Safe Recorded.Sound (fun _ ↦ Between n C D once) (.done r) H T U :=
  fun _ _ hv ↦ h.view hv

theorem sheetAfter_moved {p : TransitionParams} {r : Row} (hr : x.row = some r)  :
    MachineStatement.sheetAfter p.bookingId
      (MachineStatement.sheetAfter p.bookingId x
        (.updateBooking p.bookingId r.booking.status p.target p.patch))
      (.insertHistory ⟨p.bookingId, p.target, p.actor, p.actorId, p.note, n⟩) =
    x.moved ((p.patch r).withStatus p.target)
      ⟨p.bookingId, p.target, p.actor, p.actorId, p.note, n⟩ [] := by
  simp [MachineStatement.sheetAfter, MachineStatement.rowAfter, hr, Sheet.moved]

theorem sheetAfter_tracked {r : Row} {line : HistoryLine} (name : AnalyticsEventName)
    (source : BookingStatus) :
    MachineStatement.sheetAfter b (x.moved r line []) (.trackEvent ⟨name, b, source⟩) =
      x.moved r line [⟨name, b, source⟩] := by
  simp [MachineStatement.sheetAfter, MachineStatement.rowAfter, Sheet.moved]

/-- The statements that move the booking, whose row the transaction holds and sees as `r`. -/
theorem write_safe {p : TransitionParams} {r : Row} {a : TransitionResult}
    (h : Between n C D once H T U) (hb : .booking p.bookingId ∈ H) (hT : T.Sound)
    (hr : U.row p.bookingId = some r) (hlegal : isLegal r.booking.status p.target)
    (hpaid : r.booking.status = .disputed → p.target = .paid →
      T.status p.bookingId = some .disputed → T.Settled p.bookingId)
    (hcall : p.bookingId ∈ C) (hD : once → p.bookingId ∈ D ∧ D' ⊆ D ∧ p.bookingId ∉ D') :
    machineParts.Safe Recorded.Sound (fun _ ↦ Between n C D' once)
      ((write n p r.booking.status).bind fun _ ↦ .done (.ok a)) H T U := by
  obtain ⟨new, hnew⟩ := h.2 p.bookingId
  have h₀ : Within n C D once p.bookingId (T.sheet p.bookingId) (U.sheet p.bookingId)
      (T.Settled p.bookingId) H T U := ⟨h.1, hb, rfl, rfl, fun h _ ↦ h, fun c _ ↦ h.2 c⟩
  intro T₁ U₁ hv₁
  have h₁ := (h₀.view hv₁).step
    (l := .updateBooking p.bookingId r.booking.status p.target p.patch) subset_rfl
  have hstands : U₁.status p.bookingId = some r.booking.status := by
    rw [Recorded.status_eq, (h₀.view hv₁).sees, ← Recorded.status_eq, Recorded.status, hr]
    rfl
  dsimp only [write, Proc.query, Proc.attempt, Proc.bind, Proc.bind_eq]
  rw [decide_eq_true hstands]
  intro T₂ U₂ hv₂
  have h₂ := (h₁.view hv₂).step
    (l := .insertHistory ⟨p.bookingId, p.target, p.actor, p.actorId, p.note, n⟩) subset_rfl
  have hrow : (U.sheet p.bookingId).row = some r := hr
  rw [sheetAfter_moved hrow] at h₂
  have hmoved (events : List AnalyticsEvent)
      (htrack : events.map (·.name) = (tracked r.booking.status p.target).toList) :=
    hnew.moved (hT p.bookingId) ((p.patch r).withStatus p.target)
      ⟨p.bookingId, p.target, p.actor, p.actorId, p.note, n⟩ hrow hlegal rfl htrack rfl hcall
      (fun ho ↦ ⟨(hD ho).1, (hD ho).2.2⟩) hpaid
  cases htrack : tracked r.booking.status p.target with
  | none =>
    exact (h₂.between (hmoved [] (by rw [htrack]; rfl)) fun ho ↦ (hD ho).2.1).done (.ok a)
  | some name =>
    intro T₃ U₃ hv₃
    have h₃ := (h₂.view hv₃).step (l := .trackEvent ⟨name, p.bookingId, r.booking.status⟩) subset_rfl
    rw [sheetAfter_tracked] at h₃
    exact (h₃.between (hmoved _ (by rw [htrack]; rfl)) fun ho ↦ (hD ho).2.1).done (.ok a)

theorem status_of_sheet (h : T.sheet b = U.sheet b) : T.status b = U.status b := by
  rw [Recorded.status_eq, h, ← Recorded.status_eq]

theorem captured_of_money (h : T.part .money = U.part .money) : T.captured b = U.captured b := by
  unfold Recorded.captured Money.World.capturedFor
  rw [show T.world.money.payments = U.world.money.payments from congrArg Prod.fst h]

theorem credited_of_money (h : T.part .money = U.part .money) : T.credited b = U.credited b := by
  unfold Recorded.credited
  rw [show T.world.money.ledger = U.world.money.ledger from congrArg Prod.snd h]

theorem captured_of_sees (hs : machineParts.Sees Recorded.Sound H T U) (hm : .money ∉ H) :
    U.captured b = T.captured b := captured_of_money (hs.outside .money hm)

theorem credited_of_sees (hs : machineParts.Sees Recorded.Sound H T U) (hm : .money ∉ H) :
    U.credited b = T.credited b := credited_of_money (hs.outside .money hm)

/-- Between the locked read of `b` and its update. -/
structure Reading (n : ℕ) (C D : Set ℕ) (once : Prop) (b : ℕ) (r : Row) (H : Set MachineResource)
    (T U : Recorded) : Prop where
  between : Between n C D once H T U
  held : .booking b ∈ H
  row : U.row b = some r

theorem Reading.view {r : Row} (h : Reading n C D once b r H T U)
    (hv : machineParts.View Recorded.Sound H T U T' U') : Reading n C D once b r H T' U' where
  between := h.between.view hv
  held := h.held
  row := (congrArg Sheet.row (hv.own _ h.held)).trans h.row

theorem Reading.select {r : Row} (h : Reading n C D once b r H T U) :
    Reading n C D once b r (H ∪ ∅) T U := by
  rwa [Set.union_empty]

/-- The check passes only on a booking that is settled, and stays so while disputed. -/
theorem checkSettled_safe {r : Row} (target : BookingStatus) (h : Reading n C D once b r H T U) :
    machineParts.Safe Recorded.Sound
      (fun a K T' U' ↦ Reading n C D once b r K T' U' ∧ (a = .ok () →
        r.booking.status = .disputed → target = .paid →
        T'.status b = some .disputed → T'.Settled b))
      (checkSettled b r.booking.status target) H T U := by
  unfold checkSettled
  by_cases hpaid : r.booking.status = .disputed ∧ target = .paid
  · rw [Proc.when_pos hpaid]
    intro T₁ U₁ hv₁
    have h₁ := h.view hv₁
    cases hc : U₁.captured b with
    | false =>
      dsimp only
      rw [hc]
      exact fun T' U' hv ↦ ⟨h₁.select.view hv, fun ha ↦ (by cases ha)⟩
    | true =>
      dsimp only
      rw [hc]
      intro T₂ U₂ hv₂
      have h₂ := h₁.select.view hv₂
      cases hl : U₂.credited b with
      | false =>
        dsimp only
        rw [hl]
        exact fun T' U' hv ↦ ⟨h₂.select.view hv, fun ha ↦ (by cases ha)⟩
      | true =>
        dsimp only
        rw [hl]
        intro T₃ U₃ hv₃
        refine ⟨h₂.select.view hv₃, fun _ _ _ hd₃ ↦ ?_⟩
        obtain ⟨hsame₂, hkept₂⟩ := hv₂.committed _ h₁.select.held
        obtain ⟨hsame₃, hkept₃⟩ := hv₃.committed _ h₂.select.held
        have hd₂ : T₂.status b = some .disputed := (status_of_sheet hsame₃).symm.trans hd₃
        have hd₁ : T₁.status b = some .disputed := (status_of_sheet hsame₂).symm.trans hd₂
        have hc₁ : T₁.captured b := by rwa [← captured_of_sees hv₁.toSees h₁.between.1]
        have hl₂ : T₂.credited b := by rwa [← credited_of_sees hv₂.toSees h₁.select.between.1]
        exact ⟨(hkept₃ hd₂).1 ((hkept₂ hd₁).1 hc₁), (hkept₃ hd₂).2 hl₂⟩
  · rw [Proc.when_neg hpaid]
    exact fun T' U' hv ↦ ⟨h.view hv, fun _ hs ht ↦ absurd ⟨hs, ht⟩ hpaid⟩

theorem transition_safe {p : TransitionParams} (D' : Set ℕ) (h : Between n C D once H T U)
    (hcall : p.bookingId ∈ C) (hD : once → p.bookingId ∈ D ∧ D' ⊆ D ∧ p.bookingId ∉ D') :
    machineParts.Safe Recorded.Sound (fun _ ↦ Between n C D' once)
      (BookingStateMachineService.transition n p) H T U := by
  have hmono {K : Set MachineResource} {T U : Recorded} (h : Between n C D once K T U) :
      Between n C D' once K T U := h.mono fun ho ↦ (hD ho).2.1
  intro T₁ U₁ hv₁
  have h₁ := h.view hv₁
  have hmoney : .money ∉ H ∪ machineParts.need (.selectForUpdate p.bookingId) := by
    rintro (hm | hm)
    · exact h.1 hm
    · cases hm
  cases hr : U₁.row p.bookingId with
  | none =>
    dsimp only
    rw [hr]
    exact (hmono ⟨hmoney, h₁.2⟩).done _
  | some r =>
    dsimp only
    rw [hr]
    have hread : Reading n C D once p.bookingId r _ T₁ U₁ := ⟨⟨hmoney, h₁.2⟩, .inr rfl, hr⟩
    by_cases hlegal : isLegal r.booking.status p.target
    · simp only [Proc.bind_ok, Proc.bind_eq, Proc.pure_eq, if_pos hlegal]
      have hsees : machineParts.Sees Recorded.Sound
          (H ∪ machineParts.need (.selectForUpdate p.bookingId)) T₁ U₁ :=
        hv₁.toSees.step (l := .selectForUpdate p.bookingId)
      refine (checkSettled_safe p.target hread).bind hsees (fun _ K T₂ U₂ hs₂ hq ↦ ?_)
        fun e K T₂ U₂ hq ↦ (hmono hq.1.between).done _
      obtain ⟨h₂, hpaid⟩ := hq
      exact write_safe h₂.between h₂.held hs₂.inv h₂.row hlegal (hpaid rfl) hcall hD
    · simp only [Proc.bind_ok, Proc.throw_eq, if_neg hlegal]
      exact (hmono hread.between).done _

/-- The first statement of a call, which locks the booking. -/
theorem Between.enter (h : Between n C D once H T U) {l : MachineStatement}
    (hl : l.need = {.booking b}) :
    Within n C D once b (T.sheet b) (l.sheetAfter b (U.sheet b)) (T.Settled b)
      (H ∪ machineParts.need l) T (Store.commit l U) where
  money hm := by
    rcases hm with hm | hm
    · exact h.1 hm
    · rw [show machineParts.need l = {.booking b} from hl] at hm
      cases hm
  held := .inr (by rw [show machineParts.need l = {.booking b} from hl]; rfl)
  before := rfl
  sees := sheet_commit l U b
  settled hs _ := hs
  others c hc := by
    have hsheet : (Store.commit l U).sheet c = U.sheet c :=
      (sheet_commit l U c).trans (sheetAfter_of_not_need fun hm ↦ (by
        rw [hl] at hm
        cases hm
        exact hc rfl))
    rw [hsheet]
    exact h.2 c

theorem Sheet.Sound.absent (h : x.Sound) (hrow : x.row = none) : x = ⟨none, [], []⟩ := by
  obtain ⟨row, lines, events⟩ := x
  cases hrow
  have hlines : lines = [] := by
    have := h.path.last
    simpa [Sheet.statuses, Sheet.status] using this
  subst hlines
  have := h.recorded
  simpa [Sheet.statuses, trackedAlong] using this

theorem Sheet.Sound.create {row : Row} {line : HistoryLine} (hrow : row.booking.status = .searching)
    (hline : line.status = .searching) : (⟨some row, [line], []⟩ : Sheet).Sound := by
  refine ⟨?_, ?_⟩
  · simp only [Sheet.statuses, Sheet.status, List.map_cons, List.map_nil, Option.map_some, hrow,
      hline]
    exact .begin
  · rfl

theorem sheetAfter_created {row : Row} {priced : Row → Row} {note : Option String} :
    MachineStatement.sheetAfter b (MachineStatement.sheetAfter b
      (MachineStatement.sheetAfter b ⟨none, [], []⟩ (.insertBooking b (row.withStatus .searching)))
      (.updateColumns b priced)) (.insertHistory ⟨b, .searching, .customer, none, note, n⟩) =
    ⟨some ((priced (row.withStatus .searching)).withStatus .searching),
      [⟨b, .searching, .customer, none, note, n⟩], []⟩ := by
  simp [MachineStatement.sheetAfter, MachineStatement.rowAfter, Row.withStatus]

theorem Sheet.Extends.created {callable again again' once settled : Prop} {new : List HistoryLine}
    (h : x.Extends n callable again once settled y new) (hx : x.Sound) (hy : y = ⟨none, [], []⟩)
    {row : Row} {line : HistoryLine} (hcall : callable) (hagain : once → ¬again')
    (hrow : row.booking.status = .searching) (hline : line.status = .searching)
    (hn : line.createdAt = n) :
    x.Extends n callable again' once settled ⟨some row, [line], []⟩ [line] := by
  have hlines : x.lines = [] := by
    have := h.lines
    rw [hy] at this
    exact (List.append_eq_nil_iff.mp this.symm).1
  have hstatus : x.status = none := by
    rw [← hx.path.last, Sheet.statuses, hlines]
    rfl
  exact {
    sound := .create hrow hline
    lines := by rw [hlines]; rfl
    began := fun l hl ↦ by
      cases List.mem_singleton.mp hl
      exact hn
    called := fun hc ↦ absurd hcall hc
    once := fun ho ↦ ⟨le_rfl, fun ha ↦ absurd ha (hagain ho)⟩
    resolved := fun hd ↦ by
      rw [hstatus] at hd
      cases hd }

theorem insertSearching_safe {row : Row} {priced : Row → Row} {note : Option String}
    (D' : Set ℕ) (h : Between n C D once H T U) (hcall : b ∈ C) (hD : once → b ∈ D ∧ D' ⊆ D ∧ b ∉ D') :
    machineParts.Safe Recorded.Sound (fun _ ↦ Between n C D' once)
      (insertSearching n b row priced note) H T U := by
  intro T₁ U₁ hv₁
  have hb := h.view hv₁
  obtain ⟨new, hnew⟩ := hb.2 b
  have h₁ := hb.enter (l := .insertBooking b (row.withStatus .searching)) rfl
  cases hr : U₁.row b with
  | some r =>
    dsimp only
    rw [hr]
    have hy : MachineStatement.sheetAfter b (U₁.sheet b)
        (.insertBooking b (row.withStatus .searching)) = U₁.sheet b := by
      simp [MachineStatement.sheetAfter, MachineStatement.rowAfter, Recorded.sheet, hr]
    rw [hy] at h₁
    exact ((h₁.between hnew fun _ ↦ subset_rfl).mono fun ho ↦ (hD ho).2.1).done _
  | none =>
    dsimp only
    rw [hr]
    intro T₂ U₂ hv₂
    have h₂ := (h₁.view hv₂).step (l := .updateColumns b priced) subset_rfl
    intro T₃ U₃ hv₃
    have h₃ := (h₂.view hv₃).step
      (l := .insertHistory ⟨b, .searching, .customer, none, note, n⟩) subset_rfl
    have hy : U₁.sheet b = ⟨none, [], []⟩ := hnew.sound.absent hr
    rw [hy, sheetAfter_created] at h₃
    exact (h₃.between (hnew.created (hv₁.inv b) hy hcall (fun ho ↦ (hD ho).2.2) rfl rfl rfl)
      fun ho ↦ (hD ho).2.1).done _

theorem Sheet.Extends.columns {callable again once settled : Prop} {new : List HistoryLine}
    (h : x.Extends n callable again once settled y new) {patch : Row → Row} :
    x.Extends n callable again once settled
      (MachineStatement.sheetAfter b y (.updateColumns b patch)) new := by
  have hstatus : (MachineStatement.sheetAfter b y (.updateColumns b patch)).status = y.status := by
    cases hr : y.row <;>
      simp [Sheet.status, MachineStatement.sheetAfter, MachineStatement.rowAfter, hr, Row.withStatus]
  exact { h with sound := ⟨hstatus ▸ h.sound.path, h.sound.recorded⟩ }

/-- Every script keeps the history a legal path, whatever its calls answer. -/
theorem script_safe {s : Script} (h : Between n C D once H T U)
    (hs : machineParts.Sees Recorded.Sound H T U) (hC : s.called ⊆ C)
    (hD : once → s.called ⊆ D ∧ s.Once) :
    machineParts.Safe Recorded.Sound (fun _ K T U ↦ Between n C ∅ once K T U) (s.proc n) H T U := by
  induction s generalizing D H T U with
  | finish r => exact (h.mono fun _ ↦ Set.empty_subset D).done r
  | transition p next ih =>
    refine (transition_safe {b | ∃ r, b ∈ (next r).called} h (hC (.inl rfl)) fun ho ↦ ?_).follow hs
      fun r K T U hs h ↦ ?_
    · obtain ⟨hsub, honce⟩ := hD ho
      exact ⟨hsub (.inl rfl), (Set.subset_insert _ _).trans hsub, fun ⟨r, hr⟩ ↦ (honce r).1 hr⟩
    · exact ih r h hs (fun b hb ↦ hC (.inr ⟨r, hb⟩)) fun ho ↦
        ⟨fun b hb ↦ ⟨r, hb⟩, ((hD ho).2 r).2⟩
  | create b row priced note next ih =>
    refine (insertSearching_safe {c | ∃ r, c ∈ (next r).called} h (hC (.inl rfl)) fun ho ↦ ?_).follow
      hs fun r K T U hs h ↦ ?_
    · obtain ⟨hsub, honce⟩ := hD ho
      exact ⟨hsub (.inl rfl), (Set.subset_insert _ _).trans hsub, fun ⟨r, hr⟩ ↦ (honce r).1 hr⟩
    · exact ih r h hs (fun b hb ↦ hC (.inr ⟨r, hb⟩)) fun ho ↦
        ⟨fun b hb ↦ ⟨r, hb⟩, ((hD ho).2 r).2⟩
  | columns b patch next ih =>
    intro T₁ U₁ hv₁
    have h₁ := h.view hv₁
    obtain ⟨new, hnew⟩ := h₁.2 b
    exact ih ((h₁.enter (l := .updateColumns b patch) rfl).between hnew.columns fun _ ↦ subset_rfl)
      hv₁.toSees.step hC hD
  | read next ih =>
    intro T₁ U₁ hv₁
    have h₁ : Between n C D once (H ∪ machineParts.need .select) T₁ U₁ := by
      rw [show H ∪ machineParts.need .select = H from Set.union_empty H]
      exact h.view hv₁
    refine ih U₁ h₁ (hv₁.toSees.step (l := .select)) (fun b hb ↦ hC ⟨U₁, hb⟩) fun ho ↦ ?_
    exact ⟨fun b hb ↦ (hD ho).1 ⟨U₁, hb⟩, (hD ho).2 U₁⟩

end Towing.Trips
