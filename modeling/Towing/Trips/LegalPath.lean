import Towing.Trips.Scripts

namespace Towing.Trips

open Towing.Process Towing.Money Towing.Db

/-- Transactions on the machine's tables in flight together, statement by statement. -/
abbrev Machine (T₀ : Recorded)
    (os : List (Open MachineStatement Recorded Failure Unit MachineResource MachineCall))
    (T : Recorded) (es : List (Event (MachineCall × Except Failure Unit) Recorded)) : Prop :=
  Transactions MachineCall.body machineParts.locking T₀ os T es

namespace MachineCall

/-- What the call makes of the state it commits on. -/
def Post (T U : Recorded) : MachineCall → Prop
  | .script n s => U.part .money = T.part .money ∧ ∀ b, ∃ new,
      (T.sheet b).Extends n (b ∈ s.called) False s.Once (T.Settled b) (U.sheet b) new
  | .money payments ledger => U.part .money = (payments, ledger) ∧ ∀ b, U.sheet b = T.sheet b

/-- A transaction that moves bookings began after every line their histories have, and
moves none twice; one that writes money leaves the disputed bookings settled. -/
def Meets (T : Recorded) : MachineCall → Prop
  | .script n s => s.Once ∧ ∀ b ∈ s.called, ∀ l ∈ T.linesOf b, l.createdAt < n
  | .money payments ledger => ∀ b, T.StaysSettled b (T.writeMoney payments ledger)

end MachineCall

variable {T₀ T U : Recorded} {b : ℕ}
  {os : List (Open MachineStatement Recorded Failure Unit MachineResource MachineCall)}
  {es : List (Event (MachineCall × Except Failure Unit) Recorded)}

theorem body_safe (i : MachineCall) (hT : T.Sound) :
    machineParts.Safe Recorded.Sound
      (fun _ _ T U ↦ U.Sound ∧ i.Post T U) i.body ∅ T T := by
  have hs : machineParts.Sees Recorded.Sound ∅ T T := ⟨hT, fun _ _ ↦ rfl⟩
  cases i with
  | script n s =>
    have hbetween : Between n s.called s.called s.Once ∅ T T :=
      ⟨fun h ↦ h, fun b ↦ ⟨[], .refl (hT b)⟩⟩
    refine (script_safe hbetween hs subset_rfl fun h ↦ ⟨subset_rfl, h⟩).mono
      fun r K T U hs h ↦ ⟨fun b ↦ ?_, hs.outside .money h.1, h.2⟩
    obtain ⟨new, hnew⟩ := h.2 b
    exact hnew.sound
  | money payments ledger =>
    intro T₁ U₁ hv₁ T₂ U₂ hv₂
    have hsheet (b : ℕ) : U₂.sheet b = T₂.sheet b := hv₂.outside (.booking b) (by
      rintro (h | h)
      · exact h
      · cases h)
    refine ⟨fun b ↦ ?_, hv₂.own .money (.inr rfl), hsheet⟩
    rw [hsheet]
    exact hv₂.inv b

theorem kept_of_post {i : MachineCall} (h : i.Post T U) (hmeets : i.Meets T)
    (r : MachineResource) : machineParts.kept r T U := by
  cases r with
  | money => trivial
  | booking b =>
    intro hd
    cases i with
    | script n s => exact ⟨fun hc ↦ by rwa [captured_of_money h.1], fun hl ↦ by rwa [credited_of_money h.1]⟩
    | money payments ledger =>
      have hmoney : U.part .money = (T.writeMoney payments ledger).part .money := h.1
      obtain ⟨hc, hl⟩ := hmeets b hd
      exact ⟨fun h ↦ by rw [captured_of_money hmoney]; exact hc h,
        fun h ↦ by rw [credited_of_money hmoney]; exact hl h⟩

/-- What one commit does to the history of a booking. -/
structure Steps (b : ℕ) (T U : Recorded) (new : List HistoryLine) : Prop where
  lines : U.linesOf b = T.linesOf b ++ new
  later : ∀ l ∈ new, ∀ l' ∈ T.linesOf b, l'.createdAt < l.createdAt
  single : new.length ≤ 1
  resolved : T.status b = some .disputed → new.head?.map (·.status) = some .paid → T.Settled b

theorem steps_of_post {i : MachineCall} (h : i.Post T U) (hmeets : i.Meets T) (b : ℕ) :
    ∃ new, Steps b T U new := by
  cases i with
  | script n s =>
    obtain ⟨new, hnew⟩ := h.2 b
    refine ⟨new, hnew.lines, fun l hl l' hl' ↦ ?_, (hnew.once hmeets.1).1, hnew.resolved⟩
    rw [hnew.began l hl]
    by_cases hb : b ∈ s.called
    · exact hmeets.2 b hb l' hl'
    · rw [hnew.called hb] at hl
      cases hl
  | money payments ledger =>
    refine ⟨[], ?_, by simp, by simp, fun _ h ↦ (by cases h)⟩
    rw [List.append_nil]
    exact congrArg Sheet.lines (h.2 b)

/-- Every state that transactions in flight together reach is sound, and every commit
is a step of each booking's history. -/
theorem machine_runs (h₀ : T₀.Sound) (h : Machine T₀ os T es)
    (hmeets : ∀ e ∈ es, e.label.2 = .ok () → e.label.1.Meets e.before) :
    T.Sound ∧ Chained T₀ es T ∧ ∀ e ∈ es, e.before.Sound ∧ e.after.Sound ∧
      ∀ b, ∃ new, Steps b e.before e.after new := by
  obtain ⟨-, hT, hc, hes⟩ := Parts.Safe.runs (I := Recorded.Sound)
    (Q := fun (i : MachineCall) (_ : Except Failure Unit) _ T U ↦ U.Sound ∧ i.Post T U)
    (fun i T hT ↦ body_safe i hT) (fun i _ _ T U hq _ ↦ hq.1)
    (fun i _ _ T U r hq hp _ ↦ kept_of_post hq.2 (hp rfl) r) h₀ h hmeets
  refine ⟨hT, hc, fun e he ↦ ?_⟩
  obtain ⟨hbefore, hafter, ⟨-, hsame⟩ | ⟨a, H, hok, hq⟩⟩ := hes e he
  · refine ⟨hbefore, hafter, fun b ↦ ⟨[], ?_, by simp, by simp, fun _ h ↦ (by cases h)⟩⟩
    rw [hsame, List.append_nil]
  · exact ⟨hbefore, hafter, fun b ↦ steps_of_post hq.2 (hmeets e he hok) b⟩

namespace Recorded

def statuses (T : Recorded) (b : ℕ) : List BookingStatus := (T.linesOf b).map (·.status)

/-- No booking has been created yet. -/
structure Fresh (T : Recorded) : Prop where
  rows : ∀ b, T.row b = none
  history : T.history = []
  events : T.events = []

theorem Fresh.sheet {T : Recorded} (h : T.Fresh) (b : ℕ) : T.sheet b = ⟨none, [], []⟩ := by
  simp [Recorded.sheet, linesOf, eventsOf, h.rows, h.history, h.events]

theorem Fresh.sound {T : Recorded} (h : T.Fresh) : T.Sound := by
  intro b
  rw [h.sheet]
  exact ⟨⟨by simp [Sheet.statuses], List.isChain_nil, rfl⟩, rfl⟩

/-- In the order of `created_at`. -/
def Stamped (T : Recorded) (b : ℕ) : Prop :=
  (T.linesOf b).Pairwise fun l l' ↦ l.createdAt < l'.createdAt

theorem Stamped.sorted {T : Recorded} (h : T.Stamped b) {ls : List HistoryLine}
    (hperm : ls.Perm (T.linesOf b))
    (hsorted : ls.Pairwise fun l l' ↦ l.createdAt ≤ l'.createdAt) : ls = T.linesOf b := by
  refine hperm.eq_of_pairwise (fun l l' hl hl' hle hge ↦ ?_) hsorted (h.imp Nat.le_of_lt)
  have hnodup : ((T.linesOf b).map (·.createdAt)).Nodup :=
    List.pairwise_map.mpr (h.imp Nat.ne_of_lt)
  exact List.inj_on_of_nodup_map hnodup (hperm.mem_iff.mp hl) hl' (Nat.le_antisymm hle hge)

end Recorded

theorem Steps.stamped {new : List HistoryLine} (h : Steps b T U new) (hT : T.Stamped b) :
    U.Stamped b := by
  unfold Recorded.Stamped
  rw [h.lines]
  refine List.pairwise_append.mpr ⟨hT, ?_, fun l hl l' hl' ↦ h.later l' hl' l hl⟩
  cases new with
  | nil => exact .nil
  | cons l new =>
    cases List.length_eq_zero_iff.mp (Nat.le_zero.mp (Nat.le_of_succ_le_succ h.single))
    exact List.pairwise_singleton _ _

/-- A booking without edges to leave by stays where it is. -/
theorem absorbing {a : BookingStatus} (hT : T.Sound) (hU : U.Sound)
    (h : T.linesOf b <+: U.linesOf b) (ha : T.status b = some a) (hend : legalTransitions a = []) :
    U.status b = T.status b := by
  obtain ⟨rest, hrest⟩ := h
  have hpath : LegalPath (T.statuses b ++ rest.map (·.status)) (U.status b) := by
    have := (hU b).path
    rwa [show (U.sheet b).statuses = T.statuses b ++ rest.map (·.status) by
      rw [Sheet.statuses, Recorded.statuses, ← List.map_append, hrest]
      rfl] at this
  have hlast : (T.statuses b).getLast? = some a := (hT b).path.last.trans ha
  rw [← hpath.last, hpath.stays hlast hend, List.append_nil, hlast, ha]

/-- As long as the transactions that move a booking began in the order they commit and
no refund commits while it is disputed, its history is a legal path in the order of
`created_at`, whatever runs together. -/
theorem history_legal_path (h₀ : T₀.Fresh) (h : Machine T₀ os T es)
    (hmeets : ∀ e ∈ es, e.label.2 = .ok () → e.label.1.Meets e.before) (b : ℕ) :
    (∀ ls : List HistoryLine, ls.Perm (T.linesOf b) →
      (ls.Pairwise fun l l' ↦ l.createdAt ≤ l'.createdAt) →
      LegalPath (ls.map (·.status)) (T.status b)) ∧
    (∀ e ∈ es, e.after.status b = some .cancelled ∨ e.after.status b = some .refunded →
      T.status b = e.after.status b) ∧
    (∀ pre post : List BookingStatus, T.statuses b = pre ++ .disputed :: .paid :: post →
      ∃ e ∈ es, e.before.statuses b = pre ++ [.disputed] ∧
        e.after.statuses b = pre ++ [.disputed, .paid] ∧ e.before.Settled b) ∧
    (T.eventsOf b).map (·.name) = trackedAlong (T.statuses b) := by
  obtain ⟨hT, hc, hes⟩ := machine_runs h₀.sound h hmeets
  have hfresh : T₀.linesOf b = [] := by simp [Recorded.linesOf, h₀.history]
  refine ⟨fun ls hperm hsorted ↦ ?_, fun e he hend ↦ ?_, fun pre post hpre ↦ ?_, (hT b).recorded⟩
  · have hstamped : T.Stamped b := by
      refine (hc.invariant (I := fun T ↦ T.Stamped b) ?_ fun e he hb ↦ ?_).1
      · rw [Recorded.Stamped, hfresh]
        exact .nil
      · obtain ⟨new, hnew⟩ := (hes e he).2.2 b
        exact hnew.stamped hb
    rw [hstamped.sorted hperm hsorted]
    exact (hT b).path
  · have hprefix : e.after.linesOf b <+: T.linesOf b := by
      refine hc.rel_last (R := fun T U ↦ T.linesOf b <+: U.linesOf b) (fun _ ↦ List.prefix_rfl)
        (fun _ _ _ ↦ List.IsPrefix.trans) (fun e he ↦ ?_) e he
      obtain ⟨new, hnew⟩ := (hes e he).2.2 b
      exact ⟨new, hnew.lines.symm⟩
    rcases hend with hend | hend
    · exact absorbing (hes e he).2.1 hT hprefix hend rfl
    · exact absorbing (hes e he).2.1 hT hprefix hend rfl
  · obtain ⟨ls, rest, hls, hpre, hrest⟩ := List.map_eq_append_iff.mp hpre
    obtain ⟨l, rest, rfl, hl, hrest⟩ := List.map_eq_cons_iff.mp hrest
    obtain ⟨l', rest, rfl, hl', -⟩ := List.map_eq_cons_iff.mp hrest
    have hsplit : T.linesOf b = (ls ++ [l]) ++ l' :: rest := by simp [hls]
    obtain ⟨e, he, hbefore, hafter⟩ := hc.appended (f := fun T ↦ T.linesOf b) hfresh (fun e he ↦ by
      obtain ⟨new, hnew⟩ := (hes e he).2.2 b
      exact ⟨new, hnew.lines, hnew.single⟩) hsplit
    obtain ⟨hsound, -, hsteps⟩ := hes e he
    obtain ⟨new, hnew⟩ := hsteps b
    have hnew' : new = [l'] := by
      have := hnew.lines
      rw [hafter, hbefore] at this
      exact (List.append_cancel_left this).symm
    have hstood : e.before.status b = some .disputed := by
      refine (hsound b).path.last.symm.trans ?_
      simp [Sheet.statuses, Recorded.sheet, hbefore, hl]
    refine ⟨e, he, ?_, ?_, hnew.resolved hstood (by rw [hnew']; simp [hl'])⟩
    · simp [Recorded.statuses, hbefore, hpre, hl]
    · simp [Recorded.statuses, hafter, hpre, hl, hl']

def Recorded.blank : Recorded := ⟨World.blank, [], []⟩

theorem Recorded.blank_fresh : Recorded.blank.Fresh := ⟨fun _ ↦ rfl, rfl, rfl⟩

/-- The state once the call has committed alone. -/
def Recorded.after (T : Recorded) (c : MachineCall) : Recorded := (c.body.transact T).2

/-- One move of the sample booking, in a transaction that began at `n`. -/
def sampleMove (n : ℕ) (target : BookingStatus) (actor : BookingActor) : MachineCall :=
  .script n (.transition { bookingId := 0, target := target, actor := actor } fun r ↦
    .finish (r.map fun _ ↦ ()))

def sampleCreate : MachineCall :=
  .script 0 (.create 0 ⟨{ userId := 1, status := .searching, total := 50000 }, {}⟩ id none .finish)

def sampleSearching : Recorded := Recorded.blank.after sampleCreate

def sampleLine (n : ℕ) (status : BookingStatus) (actor : BookingActor) : HistoryLine :=
  ⟨0, status, actor, none, none, n⟩

/-- A cancellation that began before an accept and commits after it. -/
theorem history_out_of_order : Recorded.blank.Fresh ∧ ∃ T es ls, Machine Recorded.blank [] T es ∧
    List.Perm ls (T.linesOf 0) ∧ (ls.Pairwise fun l l' ↦ l.createdAt ≤ l'.createdAt) ∧
    ¬LegalPath (ls.map (·.status)) (T.status 0) := by
  have hstart : Machine Recorded.blank [] Recorded.blank [] := .start
  have hcancel : ((sampleMove 1 .cancelled .customer).body.exec
      (sampleSearching.after (sampleMove 2 .assigned .driver))).1 = .ok () := by rfl
  have haccept : ((sampleMove 2 .assigned .driver).body.exec sampleSearching).1 = .ok () := by rfl
  have hopen := ((hstart.alone sampleCreate).begin (sampleMove 1 .cancelled .customer)).begin
    (sampleMove 2 .assigned .driver)
  have hrun := (hopen.finish (by simp) (Prod.ext haccept rfl)).finish (by simp)
    (Prod.ext hcancel rfl)
  refine ⟨Recorded.blank_fresh, _, _, [sampleLine 0 .searching .customer, sampleLine 1 .cancelled .customer,
    sampleLine 2 .assigned .driver], hrun, ?_, ?_, fun h ↦ ?_⟩
  · exact List.Perm.cons _ (List.Perm.swap _ _ [])
  · decide
  · exact absurd h.steps (by decide)

theorem meets_create : sampleCreate.Meets Recorded.blank :=
  ⟨fun _ ↦ ⟨fun h ↦ h, trivial⟩, fun _ _ l hl ↦ (by cases hl)⟩

theorem meets_move {T : Recorded} {n : ℕ} {target : BookingStatus} {actor : BookingActor}
    (h : ∀ l ∈ T.linesOf 0, l.createdAt < n) : (sampleMove n target actor).Meets T := by
  refine ⟨fun _ ↦ ⟨fun h ↦ h, trivial⟩, fun b hb l hl ↦ ?_⟩
  rcases hb with rfl | ⟨_, hb⟩
  · exact h l hl
  · cases hb

theorem history_legal_path_sample :
    LegalPath ((sampleSearching.after (sampleMove 1 .assigned .driver)).statuses 0)
      (some .assigned) := by
  have hstart : Machine Recorded.blank [] Recorded.blank [] := .start
  have hrun := (hstart.alone sampleCreate).alone (sampleMove 1 .assigned .driver)
  refine (history_legal_path Recorded.blank_fresh hrun (fun e he _ ↦ ?_) 0).1 _ (.refl _) (by decide)
  rcases List.mem_append.mp he with he | he
  · rcases List.mem_append.mp he with he | he
    · cases he
    · cases List.mem_singleton.mp he
      exact meets_create
  · cases List.mem_singleton.mp he
    exact meets_move (by decide)

end Towing.Trips
