import Towing.Process.Moments
import Mathlib.Logic.Function.Basic

namespace Towing.Referrals

open Towing.Process

inductive RedemptionStatus
  | pending
  | rewarded
  deriving DecidableEq, Repr

/-- A row of `referral_redemptions`, of which a referee has one, ever. -/
structure Redemption where
  referrerUserId : ℕ
  code : String
  status : RedemptionStatus := .pending
  rewardedBookingId : Option ℕ := none
  referrerRewardPaise : Option ℕ := none
  refereeRewardPaise : Option ℕ := none
  deriving DecidableEq, Repr

/-- `rr:v1:…:referee` and `rr:v1:…:referrer`, a redemption being known by its referee. -/
inductive CreditKey
  | referee (refereeUserId : ℕ)
  | referrer (refereeUserId : ℕ)
  deriving DecidableEq, Repr

/-- An `adjustment` leg of the ledger. -/
structure Credit where
  key : CreditKey
  ownerId : ℕ
  amountPaise : ℕ
  deriving DecidableEq, Repr

structure Booking where
  userId : ℕ
  paid : Bool
  deriving DecidableEq, Repr

structure AppConfig where
  referrerRewardPaise : Option ℕ
  refereeRewardPaise : Option ℕ
  deriving DecidableEq, Repr

structure Rewards where
  referrerRewardPaise : ℕ
  refereeRewardPaise : ℕ
  deriving DecidableEq, Repr

def DEFAULT_REWARD_PAISE : ℕ := 10000

/-- Codes are as they are matched, in upper case; a booking is known by its place. -/
structure World where
  codes : List (ℕ × String)
  redemptions : ℕ → Option Redemption
  bookings : List Booking
  credits : List Credit
  appConfig : Option AppConfig

def World.rewards (w : World) : Rewards :=
  match w.appConfig with
  | none => ⟨DEFAULT_REWARD_PAISE, DEFAULT_REWARD_PAISE⟩
  | some config =>
    ⟨config.referrerRewardPaise.getD DEFAULT_REWARD_PAISE, config.refereeRewardPaise.getD DEFAULT_REWARD_PAISE⟩

def World.ownerOf (w : World) (code : String) : Option ℕ := (w.codes.find? (·.2 = code)).map (·.1)

def World.pending (w : World) (refereeUserId : ℕ) : Option Redemption :=
  (w.redemptions refereeUserId).filter (·.status = .pending)

def World.paidTrips (w : World) (userId : ℕ) : ℕ := w.bookings.countP fun b ↦ b.userId = userId && b.paid

def World.creditOf (w : World) (key : CreditKey) : Option ℕ := (w.credits.find? (·.key = key)).map (·.amountPaise)

/-- `post` is a transaction of the ledger, in which a key that is there is a replay. -/
inductive Step
  | look
  | rates
  | find (refereeUserId : ℕ)
  | count (refereeUserId : ℕ)
  | mint (userId : ℕ) (code : String)
  | book (userId : ℕ)
  | pay (bookingId : ℕ)
  | configure (appConfig : Option AppConfig)
  | insert (referrerUserId refereeUserId : ℕ) (code : String)
  | post (credit : Credit)
  | note (refereeUserId refereeRewardPaise : ℕ)
  | reward (refereeUserId bookingId referrerRewardPaise : ℕ)
  deriving DecidableEq, Repr

def World.setRedemption (w : World) (refereeUserId : ℕ) (redemption : Redemption) : World :=
  { w with redemptions := Function.update w.redemptions refereeUserId (some redemption) }

def World.run (w : World) : Step → World
  | .look | .rates | .find _ | .count _ => w
  | .mint userId code =>
    if w.codes.any fun c ↦ c.1 = userId || c.2 = code then w else { w with codes := w.codes ++ [(userId, code)] }
  | .book userId => { w with bookings := w.bookings ++ [⟨userId, false⟩] }
  | .pay bookingId => { w with bookings := w.bookings.modify bookingId fun b ↦ { b with paid := true } }
  | .configure appConfig => { w with appConfig }
  | .insert referrerUserId refereeUserId code =>
    match w.redemptions refereeUserId with
    | none => w.setRedemption refereeUserId { referrerUserId, code }
    | some _ => w
  | .post credit =>
    if w.credits.any (·.key = credit.key) then w else { w with credits := w.credits ++ [credit] }
  | .note refereeUserId refereeRewardPaise =>
    match w.redemptions refereeUserId with
    | none => w
    | some r => w.setRedemption refereeUserId { r with refereeRewardPaise := some refereeRewardPaise }
  | .reward refereeUserId bookingId referrerRewardPaise =>
    match w.pending refereeUserId with
    | none => w
    | some r =>
      w.setRedemption refereeUserId { r with
        status := .rewarded
        rewardedBookingId := some bookingId
        referrerRewardPaise := some referrerRewardPaise }

instance : Store Step World := ⟨fun l w ↦ w.run l⟩

abbrev Request := Proc Step World String

namespace ReferralsService

/-- The credit that the referee gets at once. -/
def welcome (userId : ℕ) : Request Unit := do
  let refereeRewardPaise ← Proc.query .rates (·.rewards.refereeRewardPaise)
  Proc.when (0 < refereeRewardPaise) (do
    Proc.write (.post ⟨.referee userId, userId, refereeRewardPaise⟩)
    Proc.write (.note userId refereeRewardPaise))

/-- `code` is trimmed and in upper case. -/
def apply (userId : ℕ) (code : String) : Request Unit := do
  let owner ← Proc.query .look (·.ownerOf code)
  match owner with
  | none => throw "This referral code is not valid"
  | some owner =>
    if owner = userId then throw "You cannot use your own referral code"
    else
      let existing ← Proc.query .look fun w ↦ (w.redemptions userId).isSome
      if existing then throw "You have already used a referral code"
      else
        let booked ← Proc.query .look fun w ↦ w.bookings.any (·.userId = userId)
        if booked then throw "Referral codes are for customers who have not booked yet"
        else
          let inserted ← Proc.query (.insert owner userId code) fun w ↦ (w.redemptions userId).isNone
          if inserted then welcome userId else throw "You have already used a referral code"

/-- What follows once the referee's first paid trip has been found. -/
def rewarding (refereeUserId bookingId : ℕ) (redemption : Redemption) : Request Unit := do
  let referrerRewardPaise ← Proc.query .rates (·.rewards.referrerRewardPaise)
  Proc.when (0 < referrerRewardPaise)
    (Proc.write (.post ⟨.referrer refereeUserId, redemption.referrerUserId, referrerRewardPaise⟩))
  Proc.write (.reward refereeUserId bookingId referrerRewardPaise)

def rewardForBooking (bookingId : ℕ) : Request Unit := do
  let booking ← Proc.query .look (·.bookings[bookingId]?)
  match booking with
  | none => pure ()
  | some booking =>
    let redemption ← Proc.query (.find booking.userId) (·.pending booking.userId)
    match redemption with
    | none => pure ()
    | some redemption =>
      let n ← Proc.query (.count booking.userId) (·.paidTrips booking.userId)
      if n ≠ 1 then pure () else rewarding booking.userId bookingId redemption

/-- The end of a settlement: the trip becomes paid, and then its rewards are looked at. -/
def settle (bookingId : ℕ) : Request Unit := do
  Proc.write (.pay bookingId)
  rewardForBooking bookingId

end ReferralsService

/-- What customers and settlements ask, while codes are minted, trips booked and amounts changed. -/
inductive Refers : Request Unit → Prop
  | mint (userId : ℕ) (code : String) : Refers (Proc.write (.mint userId code))
  | book (userId : ℕ) : Refers (Proc.write (.book userId))
  | configure (appConfig : Option AppConfig) : Refers (Proc.write (.configure appConfig))
  | apply (userId : ℕ) (code : String) : Refers (ReferralsService.apply userId code)
  | settle (bookingId : ℕ) : Refers (ReferralsService.settle bookingId)
  | rewardForBooking (bookingId : ℕ) : Refers (ReferralsService.rewardForBooking bookingId)

/-- Nobody has a code or a trip. -/
def World.blank (appConfig : Option AppConfig) : World := ⟨[], fun _ ↦ none, [], [], appConfig⟩

end Towing.Referrals
