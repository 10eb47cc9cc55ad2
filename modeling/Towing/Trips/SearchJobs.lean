import Towing.Trips.Shifts

namespace Towing.Trips

open Towing.Process Towing.Money

/-- A job in the queue that will run a wave of the booking. -/
def Job.searches (b : ℕ) (j : Job) : Bool :=
  decide (j.payload = .search b) && match j.state with
    | .pending _ => true
    | _ => false

namespace World

variable {w : World} {b : ℕ} {id : JobId}

/-- How many waves of the booking are outstanding. -/
def searches (w : World) (b : ℕ) : ℕ := w.jobs.countP (Job.searches b)

/-- BullMQ knows every job that still waits. -/
theorem knows_of_searches {j : Job} (hj : j ∈ w.jobs) (hs : j.searches b = true) : w.knows j.id = true := by
  refine List.any_eq_true.mpr ⟨j, hj, ?_⟩
  simp only [Job.searches, Bool.and_eq_true] at hs
  obtain ⟨-, hpending⟩ := hs
  cases hstate : j.state with
  | pending readyAt => simp
  | active => simp
  | completed finishedAt => simp [hstate] at hpending
  | failed => simp

/-- An enqueue adds a wave exactly if it is one, under a new id, and the queue answers. -/
theorem searches_enqueue (payload : Payload) (delayMs : ℕ) :
    (w.run (.enqueue id payload delayMs)).searches b =
      w.searches b + if w.queueUp && !w.knows id && decide (payload = .search b) then 1 else 0 := by
  simp only [run]
  by_cases hnew : (w.queueUp && !w.knows id) = true
  · rw [if_pos hnew, hnew, Bool.true_and]
    have hknown : w.knows id = false := by
      simp only [Bool.and_eq_true, Bool.not_eq_true'] at hnew
      exact hnew.2
    have hold : (w.jobs.filter (·.id ≠ id)).countP (Job.searches b) = w.searches b := by
      rw [List.countP_filter, searches]
      refine List.countP_congr fun j hj ↦ ?_
      rw [Bool.and_eq_true, and_iff_left_iff_imp]
      intro hs
      refine decide_eq_true fun hid ↦ ?_
      rw [← hid, knows_of_searches hj hs] at hknown
      cases hknown
    rw [searches, List.countP_append, hold, List.countP_singleton]
    simp [Job.searches]
  · rw [if_neg hnew]
    simp only [Bool.not_eq_true] at hnew
    simp [hnew]

theorem searches_congr {w' : World} (h : w'.jobs = w.jobs) : w'.searches b = w.searches b :=
  congrArg (List.countP (Job.searches b)) h

/-- An enqueue says nothing of the other ids. -/
theorem knows_enqueue_ne {id' : JobId} (hid : id' ≠ id) (payload : Payload) (delayMs : ℕ) :
    (w.run (.enqueue id payload delayMs)).knows id' = w.knows id' := by
  simp only [run]
  split_ifs
  · have hother : decide (id = id') = false := decide_eq_false (Ne.symm hid)
    have hnow (jobs : List Job) : ({ w with jobs := jobs } : World).now = w.now := rfl
    simp only [knows, hnow, List.any_append, List.any_filter, List.any_cons, List.any_nil, hother,
      Bool.false_and, Bool.or_false]
    refine List.any_congr rfl fun j ↦ ?_
    by_cases hj : j.id = id
    · simp [hj, Ne.symm hid]
    · simp [hj]
  · rfl

end World

end Towing.Trips
