import Towing.Handset.Draining

namespace Towing.Handset

open Towing.Process Towing.Presence
open Towing.Money (Failure)

variable {distanceKm haversineMeters : GeoPoint → GeoPoint → ℚ} {s s' : System}
  {cs : List (Call Step System Failure)} {es : List (ℕ × Event Step System)}

structure Agrees (s : System) : Prop where
  /-- No fix of the last ones that were taken, and not dropped by a logout, is lost. -/
  window : ∀ pre x post, s.taken = pre ++ x :: post → s.dropped ≤ pre.length → post.length < MAX_BUFFERED →
    x ∈ s.phone.buffer ∨ x ∈ s.applied ∨ ∃ y ∈ post, y ∈ s.applied ∧ y.session = x.session
  /-- Once the flush in flight is over, the next ones that are served empty the buffer: the
  first does, or one more for each fix off the map, which the script may fail on once. -/
  drains : ∀ task d, s.phone.driver = some d → Serves s.server d →
    ∃ n ≤ s.phone.buffer.countP fun x ↦ !x.ping.toGeoPoint.onMap,
      ((flushes task n).exec (s.run .giveUp)).1 = .ok () ∧ ((flushes task n).exec (s.run .giveUp)).2.phone.buffer = []

theorem buffer_agrees (h : Calls (Streams distanceKm haversineMeters) s cs s' es) (hfresh : s.Fresh)
    (hsame : Apart es) : Agrees s' where
  window pre x post htaken hdropped hpost := by
    refine (kept_of_calls h hfresh hsame pre x post htaken hdropped hpost).imp_right fun hsuperseded ↦ ?_
    obtain ⟨y, hy, hsession, hle⟩ := hsuperseded
    have horder := (ordered_of_calls h hfresh).1.inOrder
    have hmem := applied_taken h hfresh hsame hy
    rw [htaken] at hmem horder
    rcases List.mem_append.mp hmem with hpre | hrest
    · have hbefore := (List.pairwise_append.mp horder).2.2 y hpre x List.mem_cons_self
      unfold Taken.before at hbefore
      omega
    · rcases List.mem_cons.mp hrest with rfl | hmem
      · exact .inl hy
      · exact .inr ⟨y, hmem, hy, hsession⟩
  drains task d hdriver hserves := flushes_drain (s := s'.run .giveUp) task rfl hdriver hserves

def sampleServer : Presence.World where
  now := 0
  drivers d := if d = 1 then some ⟨⟨true, none, none, none, false, false, false⟩, false, none, none, none⟩ else none
  hashes _ := none
  geo _ := ∅
  pending _ := ∅
  flushing _ := false
  destroyed _ := false
  path := []
  activeBookings _ := []
  zoneAt _ := some ⟨1, "Central"⟩
  config := ⟨60, 10000, 3000⟩
  pickup _ := none

def sampleSystem : System := ⟨⟨some 1, [], 0, 0, none, 0⟩, sampleServer, [], 0, [], fun _ ↦ none⟩

def sampleLocation : LocationObject := ⟨12, 77, 5, none, none, none⟩

def sampleRun (ps : List (Request Unit)) (turns : List ℕ) :
    List (Call Step System Failure) × System × List (ℕ × Event Step System) :=
  takeTurns turns (ps.map fun p ↦ ⟨p, p⟩) sampleSystem

def still (_ _ : GeoPoint) : ℚ := 0

theorem sampleRun_calls (ps : List (Request Unit)) (hps : ∀ p ∈ ps, Streams still still p) (turns : List ℕ) :
    Calls (Streams still still) sampleSystem (sampleRun ps turns).1 (sampleRun ps turns).2.1 (sampleRun ps turns).2.2 := by
  have hstart : Calls (Streams still still) sampleSystem [] sampleSystem [] := .start
  simpa [sampleRun] using (hstart.askAll hps).takeTurns turns

theorem sampleSystem_fresh : sampleSystem.Fresh := ⟨rfl, rfl, rfl, rfl, fun _ ↦ rfl⟩

/-- The driver goes online and streams two fixes, one after the other. -/
def sampleStream : List (Request Unit) :=
  [goOnline ⟨12, 77⟩, Proc.write (.enqueue sampleLocation), flush 0, Proc.write (.enqueue sampleLocation), flush 0]

theorem sampleStream_streams : ∀ p ∈ sampleStream, Streams still still p := by
  simp only [sampleStream, List.forall_mem_cons]
  exact ⟨.goOnline _, .enqueue _, .flush _, .enqueue _, .flush _, by simp⟩

instance (s : System) (l : Step) : Decidable (l.Same s) := by
  unfold Step.Same
  split <;> infer_instance

instance (es : List (ℕ × Event Step System)) : Decidable (Apart es) :=
  inferInstanceAs (Decidable (∀ x ∈ es, x.2.label.Same x.2.before))

theorem buffer_agrees_sample :
    Agrees (sampleRun sampleStream ([0, 1, 2, 3, 4].flatMap fun n ↦ List.replicate 12 n)).2.1 :=
  buffer_agrees (sampleRun_calls _ sampleStream_streams _) sampleSystem_fresh (by decide +kernel)

/-- The driver goes online again while the hash lives: the first fix of the new session is
discarded, and the stored number that the flush is answered with clears it. -/
theorem cleared_unapplied : ∃ cs s es, Calls (Streams still still) sampleSystem cs s es ∧ sampleSystem.Fresh ∧ ¬Agrees s := by
  have hstreams : ∀ p ∈ sampleStream ++ [goOnline ⟨12, 77⟩, Proc.write (.enqueue sampleLocation), flush 0],
      Streams still still p := by
    refine List.forall_mem_append.mpr ⟨sampleStream_streams, ?_⟩
    simp only [List.forall_mem_cons]
    exact ⟨.goOnline _, .enqueue _, .flush _, by simp⟩
  refine ⟨_, _, _, sampleRun_calls _ hstreams ([0, 1, 2, 3, 4, 5, 6, 7].flatMap fun n ↦ List.replicate 12 n),
    sampleSystem_fresh, fun h ↦ ?_⟩
  have hlost := h.window [⟨1, sampleLocation.ping 1⟩, ⟨1, sampleLocation.ping 2⟩] ⟨2, sampleLocation.ping 1⟩ []
    (by decide +kernel) (by decide +kernel) (by decide +kernel)
  exact absurd hlost (by decide +kernel)

end Towing.Handset
