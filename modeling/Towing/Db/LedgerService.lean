import Towing.Db.Ledger
import Towing.Process.Transaction

namespace Towing.Db

open Towing.Process

variable {κ : Type}

/-- The statements of a post's transaction. -/
inductive Statement (κ : Type)
  | insertWallet (o : WalletOwner)
  | selectForUpdate (o : WalletOwner)
  | insertTransaction (t : WalletTransaction κ)
  | updateBalance (o : WalletOwner) (x : ℤ)

instance [DecidableEq κ] : Store (Statement κ) (Ledger κ) where
  commit
    | .insertWallet o, L => L.ensureWallet o
    | .selectForUpdate _, L => L
    | .insertTransaction t, L =>
      if fitsNumeric t.amount && decide (t.idempotencyKey ∉ L.keys) then L.insert t else L
    | .updateBalance o x, L => if fitsNumeric (L.balanceOf o + x) then L.addBalance o x else L

abbrev Sql (κ α : Type) := Proc (Statement κ) (Ledger κ) LedgerError α

/-- The order of the keys `driver:…`, `fleet:…`, `user:…`, in which wallets are locked. -/
def ownerLe (o o' : WalletOwner) : Prop :=
  o.ownerType.ctorIdx < o'.ownerType.ctorIdx ∨
    o.ownerType = o'.ownerType ∧ o.ownerId ≤ o'.ownerId

instance : DecidableRel ownerLe := fun _ _ ↦ inferInstanceAs (Decidable (_ ∨ _))

namespace LedgerService

def insertWallets : List WalletOwner → Sql κ Unit
  | [] => pure ()
  | o :: os => do
    Proc.write (.insertWallet o)
    insertWallets os

/-- Reads each balance under its row lock. -/
def lockBalances : List WalletOwner → Balances → Sql κ Balances
  | [], balances => pure balances
  | o :: os, balances => do
    let balance ← Proc.query (.selectForUpdate o) fun L ↦ L.balanceOf o
    lockBalances os (Function.update balances o (some balance))

def updateBalance (o : WalletOwner) (x : ℤ) : Sql κ Unit :=
  Proc.attempt (.updateBalance o x) fun L ↦
    if fitsNumeric (L.balanceOf o + x) then .ok () else .error .numericOverflow

variable [DecidableEq κ]

/-- Whether the row went in; a key that is already there is a replay. -/
def insertTransaction (t : WalletTransaction κ) : Sql κ Bool :=
  Proc.attempt (.insertTransaction t) fun L ↦
    if fitsNumeric t.amount then .ok (decide (t.idempotencyKey ∉ L.keys))
    else .error .numericOverflow

def postLegs : List (LedgerLeg κ) → Balances → List PostedEntry → Sql κ PostResult
  | [], balances, entries => pure ⟨entries, entries.all (·.replayed), balances⟩
  | leg :: legs, balances, entries => do
    let amount := leg.amountPaise.toInt
    let inserted ← insertTransaction leg.row
    if inserted then
      updateBalance leg.owner amount
      postLegs legs
        (Function.update balances leg.owner (some ((balances leg.owner).getD 0 + amount)))
        (entries ++ [⟨leg.owner, amount, false⟩])
    else
      postLegs legs balances (entries ++ [⟨leg.owner, amount, true⟩])

variable [IdempotencyKey κ]

def validate (leg : LedgerLeg κ) : Except LedgerError Unit :=
  let key := IdempotencyKey.text leg.idempotencyKey
  if !leg.amountPaise.isSafeInteger then
    .error (.error ("Ledger leg amount must be integer paise, got " ++ leg.amountPaise.toText))
  else if leg.amountPaise = .int 0 then
    .error (.error ("Ledger leg amount must be non-zero (" ++ key ++ ")"))
  else if IdempotencyKey.blank leg.idempotencyKey then
    .error (.error "Ledger leg is missing an idempotency key")
  else if leg.type.mustBePositive && decide (leg.amountPaise.toInt < 0) then
    .error (.error (leg.type.label ++ " must be a positive amount (" ++ key ++ ")"))
  else if leg.type.mustBeNegative && decide (0 < leg.amountPaise.toInt) then
    .error (.error (leg.type.label ++ " must be a negative amount (" ++ key ++ ")"))
  else .ok ()

def validateAll : List (LedgerLeg κ) → Except LedgerError Unit
  | [] => .ok ()
  | leg :: legs =>
    match validate leg with
    | .error e => .error e
    | .ok () => validateAll legs

/-- One transaction. `precondition` runs once every lock is held, before any insert. -/
def post (legs : List (LedgerLeg κ)) (precondition : Balances → Except LedgerError Unit) :
    Sql κ PostResult :=
  if legs.isEmpty then pure ⟨[], true, fun _ ↦ none⟩
  else do
    let owners := (legs.map (·.owner)).eraseDups
    Proc.done (validateAll legs)
    insertWallets owners
    let balances ← lockBalances (owners.insertionSort ownerLe) fun _ ↦ none
    Proc.done (precondition balances)
    postLegs legs balances []

end LedgerService

end Towing.Db
