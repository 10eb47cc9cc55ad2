import Towing.Money.World

namespace Towing.Money

open Towing.Arith

structure CancellationConfig where
  freeWindowMs : ℕ
  partialWindowMs : ℕ
  partialFeePaise : ℤ
  driverCompensationPct : Pct
  deriving DecidableEq, Repr

def defaultCancellationConfig : CancellationConfig where
  freeWindowMs := 2 * 60 * 1000
  partialWindowMs := 10 * 60 * 1000
  partialFeePaise := 15000
  driverCompensationPct := 5000

inductive CancellationTier
  | free
  | part
  | full
  deriving DecidableEq, Repr

structure CancellationOutcome where
  tier : CancellationTier
  feePaise : ℤ
  reason : String
  driverCompensationPaise : ℤ
  deriving DecidableEq, Repr

def driverCommitted (status : BookingStatus) : Bool :=
  status = .enRoute || status = .arrived || status = .inProgress

/-- `Math.round(ms / 60_000)`. -/
def minutesOf (ms : ℕ) : String := toString ((ms + 30000) / 60000)

def cancellationPolicy (status : BookingStatus) (confirmedAt : ℕ) (basePaise : ℤ) (now : ℕ)
    (config : CancellationConfig) (hasDriver : Bool) : CancellationOutcome :=
  let elapsedMs : ℤ := now - confirmedAt
  let withCompensation (tier : CancellationTier) (feePaise : ℤ) (reason : String) :
      CancellationOutcome :=
    ⟨tier, feePaise, reason,
      if tier = .free || !hasDriver then 0
      else percentOf feePaise (Pct.number config.driverCompensationPct)⟩
  if status = .searching then
    withCompensation .free 0 "Free while we are still finding you a driver"
  else if driverCommitted status then
    withCompensation .full basePaise "Your driver is already on the way"
  else if elapsedMs ≤ config.freeWindowMs then
    withCompensation .free 0
      ("Free within " ++ minutesOf config.freeWindowMs ++ " minutes of booking")
  else if elapsedMs ≤ config.partialWindowMs then
    withCompensation .part config.partialFeePaise
      ("Cancelled between " ++ minutesOf config.freeWindowMs ++ " and " ++
        minutesOf config.partialWindowMs ++ " minutes after booking")
  else
    withCompensation .full basePaise
      ("Cancelled more than " ++ minutesOf config.partialWindowMs ++ " minutes after booking")

end Towing.Money
