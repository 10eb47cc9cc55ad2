import Towing.Trips.BookingStateMachineService
import Mathlib.Data.List.Chain

namespace Towing.Trips

open Towing.Process Towing.Money Towing.Db
open BookingStateMachineService (tracked)

/-- What the tables hold of one booking. -/
structure Sheet where
  row : Option Row
  lines : List HistoryLine
  events : List AnalyticsEvent

inductive MachineResource
  | booking (b : ℕ)
  | money
  deriving DecidableEq

/-- What the lock on a resource covers. -/
def MachineResource.Part : MachineResource → Type
  | .booking _ => Sheet
  | .money => List PaymentRow × Ledger LedgerKey

namespace Recorded

variable (T : Recorded)

def sheet (b : ℕ) : Sheet := ⟨T.row b, T.linesOf b, T.eventsOf b⟩

def part : (r : MachineResource) → r.Part
  | .booking b => T.sheet b
  | .money => (T.world.money.payments, T.world.money.ledger)

/-- A captured payment and a credit leg of the booking stay while it is disputed. -/
def StaysSettled (b : ℕ) (U : Recorded) : Prop :=
  T.status b = some .disputed → (T.captured b → U.captured b) ∧ (T.credited b → U.credited b)

variable {T} {b c : ℕ} {r : Row}

@[simp] theorem row_setRow : (T.setRow b r).row b = some r := by
  simp [Recorded.row, Recorded.setRow, World.row, World.setRow]

theorem row_setRow_ne (h : c ≠ b) : (T.setRow b r).row c = T.row c := by
  simp [Recorded.row, Recorded.setRow, World.row, World.setRow, h]

theorem sheet_setRow_ne (h : c ≠ b) : (T.setRow b r).sheet c = T.sheet c := by
  simp only [sheet, row_setRow_ne h]
  rfl

theorem sheet_setRow : (T.setRow b r).sheet b = { T.sheet b with row := some r } := by
  simp only [sheet, row_setRow]
  rfl

theorem sheet_insert {line : HistoryLine} : { T with history := T.history ++ [line] }.sheet c =
    { T.sheet c with lines := T.linesOf c ++ if line.bookingId = c then [line] else [] } := by
  simp only [sheet, linesOf, List.filter_append, List.filter_singleton, Bool.cond_decide]
  rfl

theorem sheet_track {event : AnalyticsEvent} : { T with events := T.events ++ [event] }.sheet c =
    { T.sheet c with events := T.eventsOf c ++ if event.bookingId = c then [event] else [] } := by
  simp only [sheet, eventsOf, List.filter_append, List.filter_singleton, Bool.cond_decide]
  rfl

theorem status_eq : T.status b = (T.sheet b).row.map (·.booking.status) := rfl

end Recorded

/-- The row locks a statement takes: an insert with a foreign key takes the row it
points at. -/
def MachineStatement.need : MachineStatement → Set MachineResource
  | .selectForUpdate b | .updateBooking b _ _ _ | .insertBooking b _ | .updateColumns b _ =>
    {.booking b}
  | .insertHistory line => {.booking line.bookingId}
  | .trackEvent event => {.booking event.bookingId}
  | .selectCaptured _ | .selectCredit _ | .select => ∅
  | .writeMoney _ _ => {.money}

/-- The row of the booking after the statement, from the row before it. -/
def MachineStatement.rowAfter (b : ℕ) (o : Option Row) : MachineStatement → Option Row
  | .updateBooking c source target patch =>
    if c = b then o.map fun r ↦
      if r.booking.status = source then (patch r).withStatus target else r
    else o
  | .insertBooking c row => if c = b then o <|> some row else o
  | .updateColumns c patch =>
    if c = b then o.map fun r ↦ (patch r).withStatus r.booking.status else o
  | _ => o

def MachineStatement.sheetAfter (b : ℕ) (x : Sheet) (l : MachineStatement) : Sheet where
  row := l.rowAfter b x.row
  lines := match l with
    | .insertHistory line => x.lines ++ if line.bookingId = b then [line] else []
    | _ => x.lines
  events := match l with
    | .trackEvent event => x.events ++ if event.bookingId = b then [event] else []
    | _ => x.events

theorem sheet_commit (l : MachineStatement) (T : Recorded) (b : ℕ) :
    (Store.commit l T).sheet b = l.sheetAfter b (T.sheet b) := by
  cases l with
  | selectForUpdate c => rfl
  | selectCaptured c => rfl
  | selectCredit c => rfl
  | select => rfl
  | writeMoney payments ledger => rfl
  | insertHistory line => exact Recorded.sheet_insert
  | trackEvent event => exact Recorded.sheet_track
  | updateBooking c source target patch =>
    by_cases hc : c = b
    · subst hc
      cases hr : T.row c with
      | none => simp [Store.commit, MachineStatement.sheetAfter, MachineStatement.rowAfter, hr,
          Recorded.sheet]
      | some r =>
        by_cases hs : r.booking.status = source
        · simp only [Store.commit, hr, if_pos hs, Recorded.sheet_setRow]
          simp [MachineStatement.sheetAfter, MachineStatement.rowAfter, Recorded.sheet, hr, hs]
        · simp [Store.commit, MachineStatement.sheetAfter, MachineStatement.rowAfter, hr, hs,
            Recorded.sheet]
    · have hframe : (Store.commit (MachineStatement.updateBooking c source target patch) T).sheet b =
          T.sheet b := by
        simp only [Store.commit]
        split
        · split_ifs
          · exact Recorded.sheet_setRow_ne (Ne.symm hc)
          · rfl
        · rfl
      rw [hframe]
      simp [MachineStatement.sheetAfter, MachineStatement.rowAfter, hc]
  | insertBooking c row =>
    by_cases hc : c = b
    · subst hc
      cases hr : T.row c with
      | none =>
        simp only [Store.commit, hr, Option.isNone_none, if_true, Recorded.sheet_setRow]
        simp [MachineStatement.sheetAfter, MachineStatement.rowAfter, Recorded.sheet, hr]
      | some r => simp [Store.commit, MachineStatement.sheetAfter, MachineStatement.rowAfter, hr,
          Recorded.sheet]
    · have hframe : (Store.commit (MachineStatement.insertBooking c row) T).sheet b =
          T.sheet b := by
        simp only [Store.commit]
        split_ifs
        · exact Recorded.sheet_setRow_ne (Ne.symm hc)
        · rfl
      rw [hframe]
      simp [MachineStatement.sheetAfter, MachineStatement.rowAfter, hc]
  | updateColumns c patch =>
    by_cases hc : c = b
    · subst hc
      cases hr : T.row c with
      | none => simp [Store.commit, MachineStatement.sheetAfter, MachineStatement.rowAfter, hr,
          Recorded.sheet]
      | some r =>
        simp only [Store.commit, hr, Recorded.sheet_setRow]
        simp [MachineStatement.sheetAfter, MachineStatement.rowAfter, Recorded.sheet, hr]
    · have hframe : (Store.commit (MachineStatement.updateColumns c patch) T).sheet b =
          T.sheet b := by
        simp only [Store.commit]
        split
        · exact Recorded.sheet_setRow_ne (Ne.symm hc)
        · rfl
      rw [hframe]
      simp [MachineStatement.sheetAfter, MachineStatement.rowAfter, hc]

theorem sheetAfter_of_not_need {l : MachineStatement} {b : ℕ} {x : Sheet}
    (h : .booking b ∉ l.need) : l.sheetAfter b x = x := by
  cases l <;> simp_all [MachineStatement.need, MachineStatement.sheetAfter,
    MachineStatement.rowAfter, eq_comm]

theorem money_commit {l : MachineStatement} {T : Recorded} (h : .money ∉ l.need) :
    (Store.commit l T).part .money = T.part .money := by
  cases l with
  | writeMoney payments ledger => exact absurd rfl h
  | updateBooking b source target patch =>
    simp only [Store.commit]
    split
    · split_ifs <;> rfl
    · rfl
  | insertBooking b row =>
    simp only [Store.commit]
    split_ifs <;> rfl
  | updateColumns b patch =>
    simp only [Store.commit]
    split <;> rfl
  | _ => rfl

def machineParts : Parts MachineStatement Recorded MachineResource MachineResource.Part where
  part := Recorded.part
  need := MachineStatement.need
  frame l T r h := by
    cases r with
    | booking b => exact (sheet_commit l T b).trans (sheetAfter_of_not_need h)
    | money => exact money_commit h
  respects l T U r h := by
    cases r with
    | booking b =>
      exact (sheet_commit l T b).trans ((congrArg (l.sheetAfter b) h).trans (sheet_commit l U b).symm)
    | money =>
      by_cases hl : .money ∈ l.need
      · cases l <;> simp_all [MachineStatement.need]
        rfl
      · rw [money_commit hl, money_commit hl, h]
  kept
    | .booking b => fun T U ↦ T.StaysSettled b U
    | .money => fun _ _ ↦ True
  refl r T := by
    cases r with
    | booking b => exact fun _ ↦ ⟨id, id⟩
    | money => trivial
  trans r T U V h hTU hUV := by
    cases r with
    | booking b =>
      intro hd
      obtain ⟨hc, hl⟩ := hTU hd
      have hd' : U.status b = some .disputed := by
        rw [Recorded.status_eq, show U.sheet b = T.sheet b from h, ← Recorded.status_eq, hd]
      obtain ⟨hc', hl'⟩ := hUV hd'
      exact ⟨hc' ∘ hc, hl' ∘ hl⟩
    | money => trivial

/-- Each step along a list of statuses that the tracker records. -/
def trackedAlong : List BookingStatus → List AnalyticsEventName
  | a :: b :: l => (tracked a b).toList ++ trackedAlong (b :: l)
  | _ => []

/-- From `searching` along the table's edges to where the booking stands. -/
structure LegalPath (statuses : List BookingStatus) (last : Option BookingStatus) : Prop where
  first : ∀ a ∈ statuses.head?, a = .searching
  steps : statuses.IsChain fun a b ↦ isLegal a b
  last : statuses.getLast? = last

namespace Sheet

def status (x : Sheet) : Option BookingStatus := x.row.map (·.booking.status)

def statuses (x : Sheet) : List BookingStatus := x.lines.map (·.status)

structure Sound (x : Sheet) : Prop where
  path : LegalPath x.statuses x.status
  recorded : x.events.map (·.name) = trackedAlong x.statuses

end Sheet

theorem trackedAlong_concat {l : List BookingStatus} {a b : BookingStatus}
    (h : l.getLast? = some a) : trackedAlong (l ++ [b]) = trackedAlong l ++ (tracked a b).toList := by
  induction l with
  | nil => cases h
  | cons c l ih =>
    cases l with
    | nil =>
      cases h
      simp [trackedAlong]
    | cons d l =>
      have hl : (d :: l).getLast? = some a := by rwa [List.getLast?_cons_cons] at h
      simp only [List.cons_append, trackedAlong] at ih ⊢
      rw [ih hl, List.append_assoc]

theorem LegalPath.concat {l : List BookingStatus} {a b : BookingStatus}
    (h : LegalPath l (some a)) (hab : isLegal a b) : LegalPath (l ++ [b]) (some b) where
  first c hc := by
    have hl : l ≠ [] := by
      rintro rfl
      cases h.last
    rw [List.head?_append_of_ne_nil l hl] at hc
    exact h.first c hc
  steps := by
    refine List.isChain_append.mpr ⟨h.steps, List.isChain_singleton b, fun c hc d hd ↦ ?_⟩
    rw [h.last] at hc
    cases hc
    cases hd
    exact hab
  last := List.getLast?_concat

theorem LegalPath.begin : LegalPath [.searching] (some .searching) :=
  ⟨by simp, List.isChain_singleton _, rfl⟩

/-- Nothing leaves a status without edges. -/
theorem LegalPath.stays {l new : List BookingStatus} {a : BookingStatus} {last : Option BookingStatus}
    (h : LegalPath (l ++ new) last) (hl : l.getLast? = some a) (ha : legalTransitions a = []) :
    new = [] := by
  cases new with
  | nil => rfl
  | cons b new =>
    have hab := (List.isChain_append.mp h.steps).2.2 a hl b rfl
    simp [isLegal, ha] at hab

end Towing.Trips
