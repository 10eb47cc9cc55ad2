import Towing.Process.Lift
import Towing.Process.Moments
import Mathlib.Logic.Function.Basic

namespace Towing.Common

open Towing.Process

variable {ω τ ε α : Type}

/-- Redis, as far as locks go, beside what the bodies work on. A lock is its expiry: the
value of the key is the same for everybody. -/
structure Locking (τ : Type) where
  now : ℕ
  redisUp : Bool
  locks : ℕ → Option ℕ
  inner : τ

inductive LockStep (ω : Type)
  | acquire (key ttlMs : ℕ)
  | work (l : ω)
  /-- The body of the call is over. -/
  | finish (key : ℕ)
  | del (key : ℕ)
  | tick (ms : ℕ)
  | setRedis (up : Bool)

namespace Locking

variable (w : Locking τ)

def locked (key : ℕ) : Bool := (w.locks key).any (w.now < ·)

/-- Whether Redis carries out a `SET PX`: an expiry of nothing is refused. -/
def answers (ttlMs : ℕ) : Bool := w.redisUp && 0 < ttlMs

/-- What `SET NX PX` answers, if it does: whether the key is set. -/
def acquired (key ttlMs : ℕ) : Option Bool := if w.answers ttlMs then some (!w.locked key) else none

def run [Store ω τ] : LockStep ω → Locking τ
  | .acquire key ttlMs =>
    if w.acquired key ttlMs = some true then
      { w with locks := Function.update w.locks key (some (w.now + ttlMs)) }
    else w
  | .work l => { w with inner := Store.commit l w.inner }
  | .del key => if w.redisUp then { w with locks := Function.update w.locks key none } else w
  | .tick ms => { w with now := w.now + ms }
  | .setRedis up => { w with redisUp := up }
  | .finish _ => w

end Locking

instance [Store ω τ] : Store (LockStep ω) (Locking τ) where
  commit l w := w.run l

abbrev LockRequest (ω τ ε α : Type) := Proc (LockStep ω) (Locking τ) ε α

/-- Who works on the inner store only. -/
def working (p : Proc ω τ ε α) : LockRequest ω τ ε α := p.lift LockStep.work Locking.inner

namespace RedisLock

/-- The body under the lock: whatever it ends with, the key is deleted then. -/
def held (key : ℕ) (fn : LockRequest ω τ ε α) : LockRequest ω τ ε (Option α) :=
  fn.follow fun result ↦
    .step (.finish key) fun _ ↦ .step (.del key) fun _ ↦ .done (result.map some)

def withLock (key ttlMs : ℕ) (required : Bool) (fn : LockRequest ω τ ε α) : LockRequest ω τ ε (Option α) := do
  let acquired ← Proc.query (.acquire key ttlMs) fun w ↦ w.acquired key ttlMs
  match acquired with
  | none => if required then pure none else some <$> fn
  | some false => pure none
  | some true => held key fn

end RedisLock

/-- Calls under locks, and what goes on beside them. -/
inductive Locks (ω τ ε : Type) : LockRequest ω τ ε Unit → Prop
  | withLock {α : Type} (key ttlMs : ℕ) (required : Bool) (fn : Proc ω τ ε α) :
      Locks ω τ ε (RedisLock.withLock key ttlMs required (working fn)).ignore
  | work (p : Proc ω τ ε Unit) : Locks ω τ ε (working p)
  | tick (ms : ℕ) : Locks ω τ ε (Proc.write (.tick ms))
  | setRedis (up : Bool) : Locks ω τ ε (Proc.write (.setRedis up))

variable [Store ω τ]

/-- The key is set for the call, until then. -/
def Acquires (key expiresAt : ℕ) (e : Event (LockStep ω) (Locking τ)) : Prop :=
  ∃ ttlMs, e.label = .acquire key ttlMs ∧ e.before.acquired key ttlMs = some true ∧
    expiresAt = e.before.now + ttlMs

/-- The key is deleted, whoever has set it. -/
def Deletes (key : ℕ) (e : Event (LockStep ω) (Locking τ)) : Prop :=
  e.label = .del key ∧ e.before.redisUp = true

/-- A call acquires first of all, and only once it has acquired and its body is over, it
deletes the key, once. -/
structure InOrder (past : List (Event (LockStep ω) (Locking τ))) (l : LockStep ω) : Prop where
  first : ∀ key ttlMs, l = .acquire key ttlMs → past = []
  last : ∀ key, l = .del key → (∃ r ∈ past, ∃ expiresAt, Acquires key expiresAt r) ∧
    (∃ r ∈ past, r.label = .finish key) ∧ ∀ r ∈ past, r.label ≠ .del key
  finish : ∀ key, l = .finish key → ∃ r ∈ past, ∃ expiresAt, Acquires key expiresAt r

variable {past : List (Event (LockStep ω) (Locking τ))} {key ttlMs : ℕ}

/-- The step is the bodies' own. -/
def LockStep.isWork : LockStep ω → Bool
  | .work _ => true
  | _ => false

omit [Store ω τ] in
theorem inOrder_work {l : LockStep ω} (hl : l.isWork = true) : InOrder past l where
  first key ttlMs h := by
    subst h
    cases hl
  last key h := by
    subst h
    cases hl
  finish key h := by
    subst h
    cases hl

/-- A body adds only its own steps to what has been done. -/
theorem heeds_working (p : Proc ω τ ε α) : (working p).Heeds InOrder
    (fun _ past' ↦ ∃ works, past' = past ++ works ∧ ∀ r ∈ works, r.label.isWork = true) past := by
  induction p generalizing past with
  | done r => exact ⟨[], by simp, by simp⟩
  | step l next ih =>
    refine ⟨inOrder_work rfl, fun s ↦ (ih s.inner).mono (fun _ _ h ↦ h) fun _ past' hworks ↦ ?_⟩
    obtain ⟨works, rfl, hall⟩ := hworks
    exact ⟨⟨.work l, s, s.run (.work l)⟩ :: works, by simp [Store.commit], List.forall_mem_cons.mpr ⟨rfl, hall⟩⟩

theorem heeds_held {expiresAt : ℕ} {e : Event (LockStep ω) (Locking τ)} (he : Acquires key expiresAt e)
    (p : Proc ω τ ε α) :
    (RedisLock.held key (working p)).Heeds InOrder (fun _ _ ↦ True) [e] := by
  refine (heeds_working p).follow fun r past' hworks ↦ ?_
  obtain ⟨works, rfl, hall⟩ := hworks
  have hacquired : e ∈ [e] ++ works := List.mem_append_left _ (List.mem_singleton_self e)
  refine ⟨⟨(by simp), (by simp), fun key' hl ↦ ?_⟩, fun s ↦ ⟨⟨(by simp), fun key' hl ↦ ?_, (by simp)⟩, fun _ ↦ trivial⟩⟩
  · cases hl
    exact ⟨e, hacquired, expiresAt, he⟩
  · cases hl
    refine ⟨⟨e, List.mem_append_left _ hacquired, expiresAt, he⟩, ⟨_, List.mem_append_right _
      (List.mem_singleton_self _), rfl⟩, fun r hr hdel ↦ ?_⟩
    rcases List.mem_append.mp hr with hr | hr
    · rcases List.mem_append.mp hr with hr | hr
      · obtain rfl := List.mem_singleton.mp hr
        obtain ⟨ttlMs, hl, -⟩ := he
        rw [hdel] at hl
        cases hl
      · have := hall r hr
        rw [hdel] at this
        cases this
    · obtain rfl := List.mem_singleton.mp hr
      cases hdel

theorem heeds_withLock (ttlMs : ℕ) (required : Bool) (fn : Proc ω τ ε α) :
    (RedisLock.withLock key ttlMs required (working fn)).Heeds InOrder (fun _ _ ↦ True) [] := by
  refine ⟨⟨fun _ _ _ ↦ rfl, (by simp), (by simp)⟩, fun s ↦ ?_⟩
  simp only [Proc.bind_ok]
  cases hacquired : s.acquired key ttlMs with
  | none =>
    cases required with
    | true => trivial
    | false => exact (heeds_working fn).bind (fun _ _ _ ↦ trivial) fun _ _ _ ↦ trivial
  | some got =>
    cases got with
    | false => trivial
    | true => exact heeds_held ⟨ttlMs, rfl, hacquired, rfl⟩ fn

theorem locks_inOrder {p : LockRequest ω τ ε Unit} (h : Locks ω τ ε p) :
    p.Heeds InOrder (fun _ _ ↦ True) [] := by
  cases h with
  | withLock key ttlMs required fn =>
    exact (heeds_withLock ttlMs required fn).bind (fun _ _ _ ↦ trivial) fun _ _ _ ↦ trivial
  | work p => exact (heeds_working p).mono (fun _ _ h ↦ h) fun _ _ _ ↦ trivial
  | tick ms => exact ⟨⟨(by simp), (by simp), (by simp)⟩, fun _ ↦ trivial⟩
  | setRedis up => exact ⟨⟨(by simp), (by simp), (by simp)⟩, fun _ ↦ trivial⟩

/-! What the steps make of a lock. -/

variable {w : Locking τ} {l : LockStep ω} {expiresAt : ℕ}

theorem le_now_run (w : Locking τ) (l : LockStep ω) : w.now ≤ (w.run l).now := by
  cases l with
  | acquire | del =>
    simp only [Locking.run]
    split_ifs <;> exact le_rfl
  | tick ms => exact Nat.le_add_right _ _
  | _ => exact le_rfl

/-- A lock there is after a step has been acquired with it, or was there before. -/
theorem locks_brought (h : (w.run l).locks key = some expiresAt) :
    Acquires key expiresAt ⟨l, w, w.run l⟩ ∨
      w.locks key = some expiresAt ∧ (∀ x, ¬Acquires key x ⟨l, w, w.run l⟩) ∧ (l = .del key → w.redisUp = false) := by
  have hkept (hl : ∀ ttlMs, l = .acquire key ttlMs → w.acquired key ttlMs ≠ some true)
      (hdel : l = .del key → w.redisUp = false) (hsame : w.locks key = some expiresAt) :
      w.locks key = some expiresAt ∧ (∀ x, ¬Acquires key x ⟨l, w, w.run l⟩) ∧ (l = .del key → w.redisUp = false) := by
    refine ⟨hsame, fun x hx ↦ ?_, hdel⟩
    obtain ⟨ttlMs, hlabel, hacquired, -⟩ := hx
    exact hl ttlMs hlabel hacquired
  cases l with
  | acquire key' ttlMs =>
    simp only [Locking.run] at h
    split_ifs at h with hacquired
    · dsimp only at h
      by_cases hkey : key = key'
      · subst hkey
        rw [Function.update_self] at h
        exact .inl ⟨ttlMs, rfl, hacquired, (Option.some.inj h).symm⟩
      · rw [Function.update_of_ne hkey] at h
        refine .inr (hkept (fun _ hl ↦ ?_) (by simp) h)
        cases hl
        exact absurd rfl hkey
    · refine .inr (hkept (fun _ hl ↦ ?_) (by simp) h)
      cases hl
      exact hacquired
  | del key' =>
    simp only [Locking.run] at h
    split_ifs at h with hup
    · dsimp only at h
      by_cases hkey : key = key'
      · subst hkey
        rw [Function.update_self] at h
        cases h
      · rw [Function.update_of_ne hkey] at h
        exact .inr (hkept (by simp) (fun hl ↦ absurd (by cases hl; rfl) hkey) h)
    · exact .inr (hkept (by simp) (fun _ ↦ by simpa using hup) h)
  | _ => exact .inr (hkept (by simp) (by simp) h)

/-- A lock in force stays, but for who deletes the key. -/
theorem locks_stays (h : w.locks key = some expiresAt) (hlive : w.now < expiresAt)
    (hl : ¬Deletes key ⟨l, w, w.run l⟩) :
    (w.run l).locks key = some expiresAt := by
  cases l with
  | acquire key' ttlMs =>
    simp only [Locking.run]
    split_ifs with hacquired
    · dsimp only
      have hkey : key ≠ key' := by
        rintro rfl
        have hlocked : w.locked key = true := by simp [Locking.locked, h, hlive]
        simp [Locking.acquired, hlocked] at hacquired
      rw [Function.update_of_ne hkey]
      exact h
    · exact h
  | del key' =>
    simp only [Locking.run]
    split_ifs with hup
    · have hkey : key ≠ key' := fun heq ↦ hl ⟨heq ▸ rfl, hup⟩
      dsimp only
      rw [Function.update_of_ne hkey]
      exact h
    · exact h
  | _ => exact h

omit [Store ω τ] in
theorem locked_iff : w.locked key = true ↔ ∃ x, w.locks key = some x ∧ w.now < x := by
  rw [Locking.locked]
  cases w.locks key <;> simp

omit [Store ω τ] in
theorem not_locked_of_acquires {e : Event (LockStep ω) (Locking τ)} (h : Acquires key expiresAt e) :
    e.before.locked key = false := by
  obtain ⟨ttlMs, -, hacquired, -⟩ := h
  simp only [Locking.acquired] at hacquired
  split_ifs at hacquired
  simpa using hacquired

end Towing.Common
