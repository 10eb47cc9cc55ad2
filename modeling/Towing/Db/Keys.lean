import Towing.Db.Ledger

namespace Towing.Db

/-- The keys `ledgerKeys` builds. `other` is any key outside its grammar, as the
seed and the referral rewards write them. -/
inductive LedgerKey
  | bookingDriverShare (bookingId : ℕ)
  | bookingFleetShare (bookingId : ℕ)
  | bookingNetFare (bookingId : ℕ)
  | payoutDebit (payoutId : ℕ)
  | payoutReversal (payoutId : ℕ)
  | adjustment (adjustmentId : ℕ)
  | cancellationCompensation (bookingId : ℕ)
  | refundDriverDebit (refundId : ℕ)
  | refundFleetDebit (refundId : ℕ)
  | refundUserCredit (refundId : ℕ)
  | disputeCompensation (disputeId : ℕ)
  | walletSpend (bookingId : ℕ)
  | cashCollected (bookingId : ℕ)
  | other (n : ℕ)
  deriving DecidableEq, Repr

def LedgerKey.text : LedgerKey → String
  | bookingDriverShare id => "bk:v1:" ++ toString id ++ ":driver"
  | bookingFleetShare id => "bk:v1:" ++ toString id ++ ":fleet"
  | bookingNetFare id => "bk:v1:" ++ toString id ++ ":net"
  | payoutDebit id => "po:v1:" ++ toString id ++ ":debit"
  | payoutReversal id => "po:v1:" ++ toString id ++ ":reversal"
  | adjustment id => "adj:v1:" ++ toString id
  | cancellationCompensation id => "cx:v1:" ++ toString id ++ ":driver"
  | refundDriverDebit id => "rf:v1:" ++ toString id ++ ":driver"
  | refundFleetDebit id => "rf:v1:" ++ toString id ++ ":fleet"
  | refundUserCredit id => "rf:v1:" ++ toString id ++ ":user"
  | disputeCompensation id => "dx:v1:" ++ toString id ++ ":driver"
  | walletSpend id => "ws:v1:" ++ toString id ++ ":user"
  | cashCollected id => "cc:v1:" ++ toString id ++ ":driver"
  | other n => "seed:v1:" ++ toString n

instance : IdempotencyKey LedgerKey where
  text := LedgerKey.text
  blank _ := false

end Towing.Db
