import Towing.Common.RedisLock
import Towing.Process.Permits
import Mathlib.Order.Basic
import Mathlib.Order.Nat

namespace Towing.Common

open Towing.Process

variable {ω τ ε : Type} [Store ω τ] {s₀ w : Locking τ} {cs : List (Call (LockStep ω) (Locking τ) ε)}
  {es : List (ℕ × Event (LockStep ω) (Locking τ))} {key i j k m n x y : ℕ}
  {e f g : Event (LockStep ω) (Locking τ)}

/-- The last one to have acquired the key by then is request `n`. -/
def Holds (es : List (ℕ × Event (LockStep ω) (Locking τ))) (key n k : ℕ) : Prop :=
  ∃ i e x, i < k ∧ Makes es i n e ∧ Acquires key x e ∧
    ∀ j m g y, i < j → j < k → Makes es j m g → ¬Acquires key y g

/-- Nobody deletes a lock in force that another call has acquired. -/
def ReleasesOwn (es : List (ℕ × Event (LockStep ω) (Locking τ))) (key : ℕ) : Prop :=
  ∀ k n f, Makes es k n f → Deletes key f → f.before.locked key = true → Holds es key n k

/-- Every deletion comes before the call's own lock has expired, or finds no lock in
force. -/
def Timely (es : List (ℕ × Event (LockStep ω) (Locking τ))) (key : ℕ) : Prop :=
  ∀ i k n e f x, i < k → Makes es i n e → Acquires key x e → Makes es k n f → Deletes key f →
    f.before.now < x ∨ f.before.locked key = false

/-- The body of the call runs, under a lock that it has acquired until `x`. -/
def Running (es : List (ℕ × Event (LockStep ω) (Locking τ))) (key n x : ℕ) : Prop :=
  (∃ i e, Makes es i n e ∧ Acquires key x e) ∧ ∀ j f, Makes es j n f → f.label ≠ .finish key

theorem run_of_makes (h : Calls (Locks ω τ ε) s₀ cs w es) (he : Makes es i n e) :
    e.after = e.before.run e.label := h.commit_at he

theorem now_later (h : Calls (Locks ω τ ε) s₀ cs w es) (he : Makes es i n e) : e.before.now ≤ w.now :=
  h.rel_end (R := fun s t ↦ s.now ≤ t.now) (fun _ ↦ le_rfl) (fun _ _ _ ↦ le_trans) (fun _ _ ↦ le_now_run _ _) he

theorem clock_later (h : Calls (Locks ω τ ε) s₀ cs w es) (hij : i ≤ j) (he : Makes es i m e)
    (hf : Makes es j n f) : e.before.now ≤ f.before.now :=
  h.rel_later (R := fun s t ↦ s.now ≤ t.now) (fun _ ↦ le_rfl) (fun _ _ _ ↦ le_trans)
    (fun _ _ ↦ le_now_run _ _) hij he hf

theorem inOrder_of_makes (h : Calls (Locks ω τ ε) s₀ cs w es) (he : Makes es i n e) :
    InOrder (own n (es.take i)) e.label := by
  have hheeds : ∀ p, Locks ω τ ε p → p.Heeds InOrder (fun _ _ ↦ True) [] := fun _ ↦ locks_inOrder
  obtain ⟨c, -, hordered⟩ := h.heeds_at hheeds he
  exact hordered

/-- A call acquires once. -/
theorem acquires_once (h : Calls (Locks ω τ ε) s₀ cs w es) (he : Makes es i n e) (hx : Acquires key x e)
    (hf : Makes es j n f) (hy : Acquires key y f) : i = j := by
  have hfirst {i j : ℕ} {e f : Event (LockStep ω) (Locking τ)} (he : Makes es i n e) (hf : Makes es j n f)
      {y : ℕ} (hy : Acquires key y f) : ¬i < j := by
    intro hij
    obtain ⟨ttlMs, hl, -⟩ := hy
    have hnil := (inOrder_of_makes h hf).first key ttlMs hl
    have hmem := mem_own_of_makes hij he
    rw [hnil] at hmem
    cases hmem
  rcases Nat.lt_trichotomy i j with hlt | heq | hgt
  · exact absurd hlt (hfirst he hf hy)
  · exact heq
  · exact absurd hgt (hfirst hf he hx)

theorem locks_of_acquires (h : Calls (Locks ω τ ε) s₀ cs w es) (he : Makes es i n e) (hx : Acquires key x e) :
    e.after.locks key = some x := by
  obtain ⟨ttlMs, hl, hacquired, rfl⟩ := hx
  rw [run_of_makes h he, hl]
  simp [Locking.run, hacquired]

/-- While everybody releases their own lock only, one in time stays until its call
releases it. -/
theorem lock_kept (h : Calls (Locks ω τ ε) s₀ cs w es) (hown : ReleasesOwn es key) (he : Makes es i n e)
    (hx : Acquires key x e) (hnow : w.now < x) (hnot : ∀ j f, Makes es j n f → ¬Deletes key f) :
    w.locks key = some x ∧ ∀ j m f, i < j → Makes es j m f → f.before.locks key = some x := by
  refine h.kept_since (I := fun w ↦ w.locks key = some x) he (locks_of_acquires h he hx)
    fun j m f hij hf hkept ↦ ?_
  have hin {k o : ℕ} {g : Event (LockStep ω) (Locking τ)} (hik : i < k) (hkj : k ≤ j) (hg : Makes es k o g) :
      g.before.locked key = true :=
    locked_iff.mpr ⟨x, hkept k o g hik hkj hg, (now_later h hg).trans_lt hnow⟩
  rw [run_of_makes h hf]
  refine locks_stays (hkept j m f hij le_rfl hf) ((now_later h hf).trans_lt hnow) fun hl ↦ ?_
  have hl : Deletes key f := hl
  -- Who deletes it has acquired last, which is the call itself.
  obtain ⟨i', e', x', hi', he', hx', hlast⟩ := hown j m f hf hl (hin hij le_rfl hf)
  rcases Nat.lt_trichotomy i i' with hlt | rfl | hgt
  · have hfree := not_locked_of_acquires hx'
    rw [hin hlt hi'.le he'] at hfree
    cases hfree
  · obtain ⟨rfl, -⟩ := he.unique he'
    exact hnot j f hf hl
  · exact hlast i n e x hgt hij he hx

omit [Store ω τ] in
theorem Holds.snoc {z : ℕ × Event (LockStep ω) (Locking τ)} (hk : k ≤ es.length) :
    Holds (es ++ [z]) key n k ↔ Holds es key n k := by
  constructor
  · intro hholds
    obtain ⟨i, e, x, hik, he, hx, hlast⟩ := hholds
    have hold {i n : ℕ} {e : Event (LockStep ω) (Locking τ)} (hik : i < k) (he : Makes (es ++ [z]) i n e) :
        Makes es i n e := by
      rcases makes_snoc.mp he with he | ⟨rfl, -⟩
      · exact he
      · omega
    exact ⟨i, e, x, hik, hold hik he, hx, fun j m g y hij hjk hg ↦ hlast j m g y hij hjk (makes_snoc.mpr (.inl hg))⟩
  · intro hholds
    obtain ⟨i, e, x, hik, he, hx, hlast⟩ := hholds
    refine ⟨i, e, x, hik, makes_snoc.mpr (.inl he), hx, fun j m g y hij hjk hg ↦ ?_⟩
    rcases makes_snoc.mp hg with hg | ⟨rfl, -⟩
    · exact hlast j m g y hij hjk hg
    · omega

theorem releasesOwn_of_timely (h : Calls (Locks ω τ ε) s₀ cs w es) (htimely : Timely es key) :
    ReleasesOwn es key := by
  induction h with
  | start =>
    intro k n f hf
    simp [Makes] at hf
  | ask _ _ ih => exact ih htimely
  | @commit cs s es n p l next h hn ih =>
    have hprior : Timely es key := fun i k n e f x hik he hx hf hl ↦
      htimely i k n e f x hik (makes_snoc.mpr (.inl he)) hx (makes_snoc.mpr (.inl hf)) hl
    have hown := ih hprior
    intro k m f hf hl hlocked
    rcases makes_snoc.mp hf with hf | ⟨rfl, heq⟩
    · exact (Holds.snoc hf.lt.le).mpr (hown k m f hf hl hlocked)
    · obtain ⟨rfl, rfl⟩ := Prod.mk.inj heq
      have hnew := h.commit hn
      obtain ⟨⟨e, he, x, hx⟩, -, hnone⟩ := (inOrder_of_makes hnew hf).last key hl.1
      rw [List.take_left] at he hnone
      obtain ⟨i, hi, he⟩ := makes_of_own (by rwa [List.take_length] : e ∈ own n (es.take es.length))
      have hbefore : ∀ j f, Makes es j n f → ¬Deletes key f := fun j f hf hdel ↦
        hnone f (by simpa using mem_own_of_makes hf.lt hf) hdel.1
      have hnow : s.now < x := by
        rcases htimely i es.length n e _ x hi (makes_snoc.mpr (.inl he)) hx hf hl with hnow | hfree
        · exact hnow
        · rw [hfree] at hlocked
          cases hlocked
      obtain ⟨-, hkept⟩ := lock_kept h hown he hx hnow hbefore
      refine (Holds.snoc le_rfl).mpr ⟨i, e, x, hi, he, hx, fun j m g y hij _ hg hy ↦ ?_⟩
      have hfree := not_locked_of_acquires hy
      rw [locked_iff.mpr ⟨x, hkept j m g hij hg, (now_later h hg).trans_lt hnow⟩] at hfree
      cases hfree

theorem timely_of_releasesOwn (h : Calls (Locks ω τ ε) s₀ cs w es) (hs : ∀ key, s₀.locks key = none)
    (hown : ReleasesOwn es key) : Timely es key := by
  intro i k n e f x hik he hx hf hl
  rcases Bool.eq_false_or_eq_true (f.before.locked key) with hlocked | hfree
  · obtain ⟨i', e', x', hi', he', hx', hlast⟩ := hown k n f hf hl hlocked
    obtain rfl := acquires_once h he hx he' hx'
    obtain ⟨y, hy, hlive⟩ := locked_iff.mp hlocked
    obtain ⟨j, g, hjk, hg, hnot, hafter, hsince⟩ := h.chained.origin (R := fun w ↦ w.locks key = some y)
      (by simp [hs]) hf.event hy
    obtain ⟨m, hg⟩ := makes_of_event hg
    rw [run_of_makes h hg] at hafter
    rcases locks_brought hafter with hacquires | ⟨hkept, -⟩
    · have hgy : Acquires key y g := hacquires
      rcases Nat.lt_trichotomy i j with hlt | rfl | hgt
      · exact absurd hgy (hlast j m g y hlt hjk hg)
      · obtain ⟨-, rfl⟩ := he.unique hg
        obtain ⟨ttlMs, hl₁, -, rfl⟩ := hx
        obtain ⟨ttlMs', hl₂, -, rfl⟩ := hgy
        cases hl₁.symm.trans hl₂
        exact .inl hlive
      · have hlockedAt : e.before.locked key = true :=
          locked_iff.mpr ⟨y, hsince i e hgt hik.le he.event, (clock_later h hik.le he hf).trans_lt hlive⟩
        rw [not_locked_of_acquires hx] at hlockedAt
        cases hlockedAt
    · exact absurd hkept hnot
  · exact .inr hfree

/-- Of two bodies that run under locks still in time, one has acquired under the other's
lock: they are the same. -/
theorem running_unique (h : Calls (Locks ω τ ε) s₀ cs w es) (hown : ReleasesOwn es key)
    (hn : Running es key n x) (hm : Running es key m y) (hx : w.now < x) (hy : w.now < y) : n = m := by
  have hfirst {n m i j x y : ℕ} {e f : Event (LockStep ω) (Locking τ)} (he : Makes es i n e)
      (hn : Acquires key x e) (hnot : ∀ j f, Makes es j n f → f.label ≠ .finish key) (hf : Makes es j m f)
      (hm : Acquires key y f) (hx : w.now < x) : ¬i < j := by
    intro hij
    obtain ⟨-, hkept⟩ := lock_kept h hown he hn hx fun k g hg hl ↦ by
      obtain ⟨-, ⟨r, hr, hfinish⟩, -⟩ := (inOrder_of_makes h hg).last key hl.1
      obtain ⟨k', -, hr⟩ := makes_of_own hr
      exact hnot k' r hr hfinish
    have hfree := not_locked_of_acquires hm
    rw [locked_iff.mpr ⟨x, hkept j m f hij hf, (now_later h hf).trans_lt hx⟩] at hfree
    cases hfree
  obtain ⟨⟨i, e, he, hne⟩, hnot⟩ := hn
  obtain ⟨⟨j, f, hf, hmf⟩, hnot'⟩ := hm
  rcases Nat.lt_trichotomy i j with hlt | rfl | hgt
  · exact absurd hlt (hfirst he hne hnot hf hmf hx)
  · exact (he.unique hf).1
  · exact absurd hgt (hfirst hf hmf hnot' he hne hy)

/-- The calls keep to their own locks exactly when every deletion is timely; then no two
bodies in time run at once, and no two at all while none outlives its lock. -/
theorem lock_bounds_iff (h : Calls (Locks ω τ ε) s₀ cs w es) (hs : ∀ key, s₀.locks key = none) (key : ℕ) :
    (ReleasesOwn es key ∧
      (∀ n m x y, Running es key n x → Running es key m y → w.now < x → w.now < y → n = m) ∧
      ((∀ n x, Running es key n x → w.now < x) →
        ∀ n m x y, Running es key n x → Running es key m y → n = m)) ↔ Timely es key := by
  constructor
  · intro hall
    exact timely_of_releasesOwn h hs hall.1
  · intro htimely
    have hown := releasesOwn_of_timely h htimely
    refine ⟨hown, fun n m x y hn hm hx hy ↦ running_unique h hown hn hm hx hy, fun hin n m x y hn hm ↦ ?_⟩
    exact running_unique h hown hn hm (hin n x hn) (hin m y hm)

/-! A chain of three callers, each on the heels of the other. -/

instance : Store Unit Unit where
  commit _ _ := ()

def sampleLocking : Locking Unit := ⟨0, true, fun _ ↦ none, ()⟩

def sampleBody : Proc Unit Unit Unit Unit := Proc.write ()

def sampleCallers : List (LockRequest Unit Unit Unit Unit) :=
  [(RedisLock.withLock 1 10 false (working sampleBody)).ignore, Proc.write (.tick 10),
    (RedisLock.withLock 1 10 false (working sampleBody)).ignore,
    (RedisLock.withLock 1 10 false (working sampleBody)).ignore]

theorem sampleCallers_locks : ∀ p ∈ sampleCallers, Locks Unit Unit Unit p := by
  simp only [sampleCallers, List.forall_mem_cons]
  exact ⟨.withLock 1 10 false sampleBody, .tick 10, .withLock 1 10 false sampleBody,
    .withLock 1 10 false sampleBody, by simp⟩

def lockRun (turns : List ℕ) :
    List (Call (LockStep Unit) (Locking Unit) Unit) × Locking Unit × List (ℕ × Event (LockStep Unit) (Locking Unit)) :=
  takeTurns turns (sampleCallers.map fun p ↦ ⟨p, p⟩) sampleLocking

theorem lockRun_calls (turns : List ℕ) :
    Calls (Locks Unit Unit Unit) sampleLocking (lockRun turns).1 (lockRun turns).2.1 (lockRun turns).2.2 := by
  simpa [lockRun] using (Calls.start.askAll sampleCallers_locks).takeTurns turns

/-- Whether the step ends a body, and whether it deletes a key. -/
def LockStep.ends : LockStep Unit → Bool × Bool
  | .finish _ => (true, false)
  | .del _ => (false, true)
  | _ => (false, false)

theorem sample_ends {turns : List ℕ} {l : LockStep Unit} {e : Event (LockStep Unit) (Locking Unit)}
    (he : Makes (lockRun turns).2.2 i n e) (hl : e.label = l) :
    (i, n, l.ends) ∈ (lockRun turns).2.2.zipIdx.map fun x ↦ (x.2, x.1.1, x.1.2.label.ends) := by
  subst hl
  refine List.mem_map.mpr ⟨((n, e), i), ?_, rfl⟩
  exact List.mem_zipIdx_iff_getElem?.mpr he

def sampleOverrun : List ℕ := [0, 0, 1, 2, 0, 0, 3]

/-- The first body outlives its lock, the second caller acquires, and the first deletes
what the second has acquired; the third acquires beside it. -/
theorem overrun_spreads : ∃ cs w es, Calls (Locks Unit Unit Unit) sampleLocking cs w es ∧
    ∃ n m x y, Running es 1 n x ∧ Running es 1 m y ∧ w.now < x ∧ w.now < y ∧ n ≠ m := by
  have hends : (lockRun sampleOverrun).2.2.zipIdx.map (fun x ↦ (x.2, x.1.1, x.1.2.label.ends)) =
      [(0, 0, false, false), (1, 0, false, false), (2, 1, false, false), (3, 2, false, false),
        (4, 0, true, false), (5, 0, false, true), (6, 3, false, false)] := by decide +kernel
  refine ⟨_, _, _, lockRun_calls sampleOverrun, 2, 3, 20, 20, ⟨⟨3, _, rfl, 10, rfl, rfl, rfl⟩, fun j f hf hl ↦ ?_⟩,
    ⟨⟨6, _, rfl, 10, rfl, rfl, rfl⟩, fun j f hf hl ↦ ?_⟩, by decide, by decide, by decide⟩
  · have hmem := sample_ends hf hl
    rw [hends] at hmem
    simp [LockStep.ends] at hmem
  · have hmem := sample_ends hf hl
    rw [hends] at hmem
    simp [LockStep.ends] at hmem

def sampleInTime : List ℕ := [0, 0, 0, 0, 2]

theorem sampleInTime_timely : Timely (lockRun sampleInTime).2.2 1 := by
  have hends : (lockRun sampleInTime).2.2.zipIdx.map (fun x ↦ (x.2, x.1.1, x.1.2.label.ends)) =
      [(0, 0, false, false), (1, 0, false, false), (2, 0, true, false), (3, 0, false, true),
        (4, 2, false, false)] := by decide +kernel
  intro i k n e f x hik he hx hf hdel
  have hmem := sample_ends hf hdel.1
  rw [hends] at hmem
  obtain ⟨rfl, rfl⟩ : k = 3 ∧ n = 0 := by simpa [LockStep.ends] using hmem
  have hfirst : ∃ e, Makes (lockRun sampleInTime).2.2 0 0 e ∧ Acquires 1 10 e := ⟨_, rfl, 10, rfl, rfl, rfl⟩
  obtain ⟨e', he', hx'⟩ := hfirst
  obtain rfl := acquires_once (lockRun_calls sampleInTime) he hx he' hx'
  obtain ⟨-, rfl⟩ := he.unique he'
  obtain ⟨ttlMs, hl, -, rfl⟩ := hx
  obtain ⟨ttlMs', hl', -, h10⟩ := hx'
  cases hl.symm.trans hl'
  refine .inl (h10 ▸ ?_)
  have hnow : ∃ f, Makes (lockRun sampleInTime).2.2 3 0 f ∧ f.before.now = 0 := ⟨_, rfl, rfl⟩
  obtain ⟨f', hf', hnow⟩ := hnow
  obtain ⟨-, rfl⟩ := hf.unique hf'
  omega

theorem lock_bounds_iff_sample : ReleasesOwn (lockRun sampleInTime).2.2 1 := by
  have h := lock_bounds_iff (lockRun_calls sampleInTime) (fun _ ↦ rfl) 1
  exact (h.mpr sampleInTime_timely).1

end Towing.Common
