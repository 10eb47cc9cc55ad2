import Mathlib.Data.List.Sort
import Mathlib.Algebra.BigOperators.Group.List.Basic
import Mathlib.Algebra.Order.Ring.Int

namespace Towing.Db

inductive WalletOwnerType
  | driver
  | fleet
  | user
  deriving DecidableEq, Repr

structure WalletOwner where
  ownerType : WalletOwnerType
  ownerId : ℕ
  deriving DecidableEq, Repr

inductive WalletTxnType
  | fareCredit
  | commissionDebit
  | fleetShareCredit
  | driverShareCredit
  | payoutDebit
  | refundDebit
  | refundCredit
  | adjustment
  | cashCollectedDebit
  | walletSpendDebit
  deriving DecidableEq, Repr

def WalletTxnType.label : WalletTxnType → String
  | fareCredit => "fare_credit"
  | commissionDebit => "commission_debit"
  | fleetShareCredit => "fleet_share_credit"
  | driverShareCredit => "driver_share_credit"
  | payoutDebit => "payout_debit"
  | refundDebit => "refund_debit"
  | refundCredit => "refund_credit"
  | adjustment => "adjustment"
  | cashCollectedDebit => "cash_collected_debit"
  | walletSpendDebit => "wallet_spend_debit"

/-- The types whose label ends in `_credit`. -/
def WalletTxnType.mustBePositive : WalletTxnType → Bool
  | fareCredit | fleetShareCredit | driverShareCredit | refundCredit => true
  | _ => false

/-- The types whose label ends in `_debit`. -/
def WalletTxnType.mustBeNegative : WalletTxnType → Bool
  | commissionDebit | payoutDebit | refundDebit | cashCollectedDebit | walletSpendDebit => true
  | _ => false

/-- The record a leg is about. -/
inductive LedgerRef
  | booking (id : ℕ)
  | payout (id : ℕ)
  | redemption (id : ℕ)
  deriving DecidableEq, Repr

/-- A JavaScript number: an integer, or one that is none (a fraction, an
infinity, not a number at all) and only prints as `text`. -/
inductive JsNumber
  | int (n : ℤ)
  | other (text : String)
  deriving DecidableEq, Repr

instance : Coe ℤ JsNumber := ⟨JsNumber.int⟩

def JsNumber.toInt : JsNumber → ℤ
  | int n => n
  | other _ => 0

def JsNumber.toText : JsNumber → String
  | int n => toString n
  | other text => text

@[simp] theorem JsNumber.toInt_int (n : ℤ) : (JsNumber.int n).toInt = n := rfl

def JsNumber.isSafeInteger : JsNumber → Bool
  | int n => decide (|n| ≤ 2 ^ 53 - 1)
  | other _ => false

/-- What the ledger needs of its keys: the text that is stored, and whether
trimming leaves nothing of it. -/
class IdempotencyKey (κ : Type) where
  text : κ → String
  blank : κ → Bool

/-- The characters that `trim` removes. -/
def isJsSpace (c : Char) : Bool :=
  c.toNat ∈ [9, 10, 11, 12, 13, 32, 160, 5760, 8192, 8193, 8194, 8195, 8196, 8197, 8198, 8199,
    8200, 8201, 8202, 8232, 8233, 8239, 8287, 12288, 65279]

instance : IdempotencyKey String where
  text k := k
  blank k := k.toList.all isJsSpace

structure LedgerLeg (κ : Type) where
  owner : WalletOwner
  type : WalletTxnType
  amountPaise : JsNumber
  reason : String
  refId : Option LedgerRef
  idempotencyKey : κ
  deriving DecidableEq

structure WalletTransaction (κ : Type) where
  owner : WalletOwner
  type : WalletTxnType
  amount : ℤ
  reason : String
  refId : Option LedgerRef
  idempotencyKey : κ
  deriving DecidableEq

/-- The tables `wallets` (the cached balance of each owner that has a wallet)
and `wallet_transactions`, oldest row first. -/
structure Ledger (κ : Type) where
  wallets : WalletOwner → Option ℤ
  transactions : List (WalletTransaction κ)

structure PostedEntry where
  owner : WalletOwner
  amountPaise : ℤ
  replayed : Bool
  deriving DecidableEq, Repr

abbrev Balances := WalletOwner → Option ℤ

structure PostResult where
  entries : List PostedEntry
  replayed : Bool
  balances : Balances

/-- Why a post throws: the message of an `Error`, or a value that `numeric(12,2)`
does not hold. -/
inductive LedgerError
  | error (message : String)
  | numericOverflow
  deriving DecidableEq, Repr

variable {κ : Type}

def LedgerLeg.row (leg : LedgerLeg κ) : WalletTransaction κ where
  owner := leg.owner
  type := leg.type
  amount := leg.amountPaise.toInt
  reason := leg.reason
  refId := leg.refId
  idempotencyKey := leg.idempotencyKey

/-- The amounts in paise that a `numeric(12,2)` column holds. -/
def fitsNumeric (n : ℤ) : Bool := decide (|n| < 10 ^ 12)

namespace Ledger

def empty : Ledger κ := ⟨fun _ ↦ none, []⟩

def keys (L : Ledger κ) : List κ := L.transactions.map (·.idempotencyKey)

/-- The cached balance, zero for an owner with no wallet yet. -/
def balanceOf (L : Ledger κ) (o : WalletOwner) : ℤ := (L.wallets o).getD 0

/-- The sum of an owner's rows, which the balance is a projection of. -/
def sumOf (L : Ledger κ) (o : WalletOwner) : ℤ :=
  ((L.transactions.filter (·.owner = o)).map (·.amount)).sum

def ensureWallet (L : Ledger κ) (o : WalletOwner) : Ledger κ :=
  match L.wallets o with
  | some _ => L
  | none => { L with wallets := Function.update L.wallets o (some 0) }

def addBalance (L : Ledger κ) (o : WalletOwner) (x : ℤ) : Ledger κ :=
  { L with wallets := Function.update L.wallets o ((L.wallets o).map (· + x)) }

def insert (L : Ledger κ) (t : WalletTransaction κ) : Ledger κ :=
  { L with transactions := L.transactions ++ [t] }

variable (L : Ledger κ) (o o' : WalletOwner) (t : WalletTransaction κ) (x : ℤ)

@[simp] theorem keys_empty : (empty : Ledger κ).keys = [] := rfl

@[simp] theorem keys_insert : (L.insert t).keys = L.keys ++ [t.idempotencyKey] := by
  simp [keys, insert]

@[simp] theorem wallets_insert : (L.insert t).wallets = L.wallets := rfl

@[simp] theorem transactions_insert : (L.insert t).transactions = L.transactions ++ [t] := rfl

@[simp] theorem transactions_addBalance : (L.addBalance o x).transactions = L.transactions := rfl

@[simp] theorem keys_addBalance : (L.addBalance o x).keys = L.keys := rfl

@[simp] theorem wallets_addBalance_self :
    (L.addBalance o x).wallets o = (L.wallets o).map (· + x) := by simp [addBalance]

theorem wallets_addBalance_of_ne (h : o' ≠ o) : (L.addBalance o x).wallets o' = L.wallets o' := by
  simp [addBalance, h]

@[simp] theorem transactions_ensureWallet : (L.ensureWallet o).transactions = L.transactions := by
  unfold ensureWallet
  split <;> rfl

@[simp] theorem keys_ensureWallet : (L.ensureWallet o).keys = L.keys := by simp [keys]

theorem wallets_ensureWallet :
    (L.ensureWallet o).wallets o' =
      if o' = o then some (L.balanceOf o) else L.wallets o' := by
  unfold ensureWallet balanceOf
  cases h : L.wallets o with
  | some b => by_cases ho : o' = o <;> simp [ho, h]
  | none => by_cases ho : o' = o <;> simp [ho]

theorem sumOf_insert :
    (L.insert t).sumOf o = L.sumOf o + if t.owner = o then t.amount else 0 := by
  by_cases h : t.owner = o <;> simp [sumOf, List.filter_append, h]

end Ledger

end Towing.Db
