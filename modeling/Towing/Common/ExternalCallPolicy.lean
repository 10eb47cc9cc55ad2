import Towing.Process.Moments
import Mathlib.Logic.Function.Basic

namespace Towing.Common

open Towing.Process

variable {ε α : Type}

/-- What the environment says of the breakers; both are checked to be positive. -/
structure PolicyEnv where
  EXTERNAL_CALL_BREAKER_THRESHOLD : ℕ
  EXTERNAL_CALL_BREAKER_RESET_MS : ℕ
  threshold_pos : 0 < EXTERNAL_CALL_BREAKER_THRESHOLD
  reset_pos : 0 < EXTERNAL_CALL_BREAKER_RESET_MS

structure BreakerState where
  consecutiveFailures : ℕ
  /-- 0 is closed. -/
  openUntil : ℕ
deriving DecidableEq

/-- The policy with its breakers, of which one that is not there yet is closed. -/
structure Policy where
  env : PolicyEnv
  now : ℕ
  breakers : String → BreakerState

/-- What the calls do to the breakers. A first attempt begins with the look at the
breaker, unless it is open. -/
inductive PolicyStep
  | isOpen (vendor : String)
  | attempt (vendor : String)
  | onSuccess (vendor : String)
  | onFailure (vendor : String)
  | setClock (now : ℕ)
deriving DecidableEq

namespace Policy

variable (w : Policy) (vendor : String)

def isOpen : Bool :=
  (w.breakers vendor).openUntil ≠ 0 && w.now < (w.breakers vendor).openUntil

def set (state : BreakerState) : Policy := { w with breakers := Function.update w.breakers vendor state }

/-- The breaker goes half open with the look at it. -/
def halfOpen : Policy :=
  if (w.breakers vendor).openUntil ≠ 0 ∧ (w.breakers vendor).openUntil ≤ w.now then
    w.set vendor { w.breakers vendor with openUntil := 0 }
  else w

def onSuccess : Policy := w.set vendor ⟨0, 0⟩

def onFailure : Policy :=
  let failures := (w.breakers vendor).consecutiveFailures + 1
  if w.env.EXTERNAL_CALL_BREAKER_THRESHOLD ≤ failures then
    w.set vendor ⟨failures, w.now + w.env.EXTERNAL_CALL_BREAKER_RESET_MS⟩
  else w.set vendor { w.breakers vendor with consecutiveFailures := failures }

def run : PolicyStep → Policy
  | .isOpen vendor => w.halfOpen vendor
  | .attempt _ => w
  | .onSuccess vendor => w.onSuccess vendor
  | .onFailure vendor => w.onFailure vendor
  | .setClock now => { w with now := now }

end Policy

instance : Store PolicyStep Policy where
  commit l w := w.run l

/-- How an attempt fails: at the deadline, or as the callee does. -/
inductive Failure (ε : Type)
  | timeout
  | error (e : ε)

inductive CallError (ε : Type)
  | circuitOpen
  | failed (failure : Failure ε)

structure ExternalCallOptions (ε : Type) where
  vendor : String
  attempts : ℕ
  attempts_pos : 0 < attempts
  isRetryable : Failure ε → Bool

abbrev PolicyCall (ε α : Type) := Proc PolicyStep Policy (CallError ε) α

namespace ExternalCallPolicy

/-- An attempt that has begun, and those that may come after it. -/
def attempts (options : ExternalCallOptions ε) (answers : ℕ → Except (Failure ε) α) : ℕ → ℕ → PolicyCall ε α
  | left, attempt =>
    match answers attempt with
    | .ok result => do
      Proc.write (.onSuccess options.vendor)
      pure result
    | .error failure => do
      Proc.write (.onFailure options.vendor)
      match left with
      | 0 => throw (.failed failure)
      | left + 1 =>
        if options.isRetryable failure then do
          Proc.write (.attempt options.vendor)
          attempts options answers left (attempt + 1)
        else throw (.failed failure)

/-- `answers` is what becomes of each attempt. -/
def run (options : ExternalCallOptions ε) (answers : ℕ → Except (Failure ε) α) : PolicyCall ε α := do
  let opened ← Proc.query (.isOpen options.vendor) (·.isOpen options.vendor)
  if opened then throw .circuitOpen
  else attempts options answers (options.attempts - 1) 1

end ExternalCallPolicy

/-- Calls of whatever outcome, and a clock that may be set to anything. -/
inductive Calling (ε α : Type) : PolicyCall ε Unit → Prop
  | run (options : ExternalCallOptions ε) (answers : ℕ → Except (Failure ε) α) :
      Calling ε α (ExternalCallPolicy.run options answers).ignore
  | setClock (now : ℕ) : Calling ε α (Proc.write (.setClock now))

end Towing.Common
