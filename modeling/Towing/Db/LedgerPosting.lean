import Towing.Db.LedgerIntegrity
import Mathlib.Algebra.Order.BigOperators.Group.List
import Mathlib.Algebra.Order.Group.Unbundled.Abs

namespace Towing.Db

open Towing.Process LedgerService

variable {κ : Type} [DecidableEq κ] {L : Ledger κ} {legs : List (LedgerLeg κ)}
  {balances : Balances} {entries : List PostedEntry} {o : WalletOwner} {x : ℤ}
  {t : WalletTransaction κ}

/-- The most that the legs can move any balance. -/
def weight (legs : List (LedgerLeg κ)) : ℤ := (legs.map (|·.amountPaise.toInt|)).sum

/-- The balances of `owners` have room for that much. -/
def Room (L : Ledger κ) (owners : List WalletOwner) (n : ℤ) : Prop :=
  ∀ o ∈ owners, |L.balanceOf o| + n < 10 ^ 12

omit [DecidableEq κ] in
theorem weight_nonneg (legs : List (LedgerLeg κ)) : 0 ≤ weight legs := by
  apply List.sum_nonneg
  intro x hx
  obtain ⟨leg, -, rfl⟩ := List.mem_map.mp hx
  exact abs_nonneg _

omit [DecidableEq κ] in
theorem Room.mono {owners : List WalletOwner} {n m : ℤ} (h : Room L owners n) (hm : m ≤ n) :
    Room L owners m := by
  intro o ho
  have := h o ho
  omega

theorem insertTransaction_ok (h : |t.amount| < 10 ^ 12) :
    (insertTransaction t).exec L =
      (.ok (decide (t.idempotencyKey ∉ L.keys)),
        if t.idempotencyKey ∉ L.keys then L.insert t else L) := by
  have hfit : fitsNumeric t.amount = true := decide_eq_true h
  simp [insertTransaction, Store.commit, hfit]

theorem updateBalance_ok (h : |L.balanceOf o + x| < 10 ^ 12) :
    (updateBalance o x).exec L = (.ok (), L.addBalance o x) := by
  have hfit : fitsNumeric (L.balanceOf o + x) = true := decide_eq_true h
  simp [updateBalance, Store.commit, hfit]

omit [DecidableEq κ] in
/-- Moving one balance takes no more room than the amount moved. -/
theorem Room.addBalance {owners : List WalletOwner} {n : ℤ} (h : Room L owners (|x| + n)) :
    Room (L.addBalance o x) owners n := by
  intro o' ho'
  have hroom := h o' ho'
  by_cases heq : o' = o
  · subst heq
    have hbal : |(L.addBalance o' x).balanceOf o'| ≤ |L.balanceOf o'| + |x| := by
      rw [Ledger.balanceOf, Ledger.wallets_addBalance_self, Ledger.balanceOf]
      cases L.wallets o' with
      | none => simp
      | some y => exact abs_add_le y x
    omega
  · have hbal : (L.addBalance o x).balanceOf o' = L.balanceOf o' := by
      rw [Ledger.balanceOf, Ledger.wallets_addBalance_of_ne _ _ _ _ heq, Ledger.balanceOf]
    have := abs_nonneg x
    rw [hbal]
    omega

theorem postLegs_ok {owners : List WalletOwner} (hroom : Room L owners (weight legs))
    (hl : ∀ leg ∈ legs, leg.owner ∈ owners) :
    ∃ r L', (postLegs legs balances entries).exec L = (.ok r, L') := by
  induction legs generalizing L balances entries with
  | nil => exact ⟨_, _, rfl⟩
  | cons leg legs ih =>
    have hw : weight (leg :: legs) = |leg.amountPaise.toInt| + weight legs := by simp [weight]
    have hpos := weight_nonneg legs
    have hl' : ∀ leg ∈ legs, leg.owner ∈ owners := fun leg hm ↦ hl leg (List.mem_cons_of_mem _ hm)
    have hown := hroom _ (hl leg List.mem_cons_self)
    have hamount : |leg.row.amount| < 10 ^ 12 := by
      have := abs_nonneg (L.balanceOf leg.owner)
      change |leg.amountPaise.toInt| < _
      omega
    rw [hw] at hroom hown
    simp only [postLegs, Proc.bind_eq, Proc.exec_bind, insertTransaction_ok hamount]
    by_cases hk : leg.row.idempotencyKey ∈ L.keys
    · simp only [hk, not_true_eq_false, decide_false, if_false, Bool.false_eq_true]
      apply ih (hroom.mono ?_) hl'
      have := abs_nonneg leg.amountPaise.toInt
      omega
    · simp only [hk, not_false_eq_true, decide_true, if_true]
      have hfit : |(L.insert leg.row).balanceOf leg.owner + leg.amountPaise.toInt| < 10 ^ 12 := by
        have := abs_add_le (L.balanceOf leg.owner) leg.amountPaise.toInt
        change |L.balanceOf leg.owner + _| < _
        omega
      rw [Proc.exec_bind, updateBalance_ok hfit]
      exact ih (Room.addBalance (L := L.insert leg.row) hroom) hl'

variable [IdempotencyKey κ]

/-- A post adds its fresh rows, or refuses and adds nothing. -/
theorem transact_rows (legs : List (LedgerLeg κ)) (pre : Balances → Except LedgerError Unit)
    (h : L.Sound) :
    ((post legs pre).transact L).2.Sound ∧
      ((∃ e, ((post legs pre).transact L).1 = .error e) ∧ ((post legs pre).transact L).2 = L ∨
        (∃ r, ((post legs pre).transact L).1 = .ok r) ∧
          ((post legs pre).transact L).2.transactions =
            L.transactions ++ freshRows L.keys legs) := by
  rcases hr : (post legs pre).transact L with ⟨e | r, M⟩
  · have : M = L := Proc.transact_error hr
    subst this
    exact ⟨h, .inl ⟨⟨e, rfl⟩, rfl⟩⟩
  · obtain ⟨hM, hposted⟩ := post_exec h (Proc.transact_ok hr)
    exact ⟨hM, .inr ⟨⟨r, rfl⟩, hposted.rows⟩⟩

/-- Legs that are valid, on wallets with room for them, are posted. -/
theorem post_ok (hs : L.Sound) (hv : validateAll legs = .ok ())
    (hroom : Room L (legs.map (·.owner)) (weight legs)) :
    ∃ r L', (post legs fun _ ↦ .ok ()).exec L = (.ok r, L') := by
  cases legs with
  | nil => exact ⟨_, _, rfl⟩
  | cons leg legs =>
    let owners := ((leg :: legs).map (·.owner)).eraseDups
    obtain ⟨M, hM, -, -, hbal, hsome, -⟩ := insertWallets_exec hs owners
    have hlock : ∀ o ∈ owners.insertionSort ownerLe, (M.wallets o).isSome :=
      fun o ho ↦ hsome o ((List.mem_insertionSort ownerLe).mp ho)
    have hroomM : Room M ((leg :: legs).map (·.owner)) (weight (leg :: legs)) := by
      intro o ho
      rw [hbal]
      exact hroom o ho
    simp only [post, List.isEmpty_cons, Bool.false_eq_true, if_false, Proc.bind_eq]
    rw [Proc.exec_bind, Proc.exec_done, hv]
    dsimp only
    rw [Proc.exec_bind, hM]
    dsimp only
    rw [Proc.exec_bind, lockBalances_exec _ _ hlock]
    dsimp only
    rw [Proc.exec_bind, Proc.exec_done]
    exact postLegs_ok hroomM fun leg hleg ↦ List.mem_map_of_mem hleg

omit [DecidableEq κ] in
/-- A valid leg of a debit takes something. -/
theorem toInt_neg_of_validate {leg : LedgerLeg κ} (h : validate leg = .ok ())
    (ht : leg.type.mustBeNegative = true) : leg.amountPaise.toInt < 0 := by
  unfold validate at h
  split_ifs at h with hsafe hzero hblank hpos hneg
  rw [ht, Bool.true_and, decide_eq_true_eq] at hneg
  cases ha : leg.amountPaise with
  | int n =>
    have hne : n ≠ 0 := by
      intro hn
      exact hzero (by rw [ha, hn])
    rw [ha] at hneg
    rw [JsNumber.toInt_int] at hneg ⊢
    omega
  | other text => simp [ha, JsNumber.isSafeInteger] at hsafe

omit [DecidableEq κ] in
theorem validate_of_mem {leg : LedgerLeg κ} (h : validateAll legs = .ok ()) (hm : leg ∈ legs) :
    validate leg = .ok () := by
  induction legs with
  | nil => cases hm
  | cons leg' legs ih =>
    rw [validateAll] at h
    cases hv : validate leg' with
    | error e =>
      rw [hv] at h
      cases h
    | ok u =>
      rw [hv] at h
      rcases List.mem_cons.mp hm with rfl | hm
      · exact hv
      · exact ih h hm

/-- A valid leg whose wallet can take it is posted. -/
theorem transact_single_ok {leg : LedgerLeg κ} (hs : L.Sound) (hv : validate leg = .ok ())
    (ha : |leg.amountPaise.toInt| < 10 ^ 12)
    (hb : |L.balanceOf leg.owner + leg.amountPaise.toInt| < 10 ^ 12) :
    ∃ r, ((post [leg] fun _ ↦ .ok ()).transact L).1 = .ok r := by
  let owners := ([leg].map (·.owner)).eraseDups
  obtain ⟨M, hM, -, -, hbal, hsome, -⟩ := insertWallets_exec hs owners
  have hlock : ∀ o ∈ owners.insertionSort ownerLe, (M.wallets o).isSome :=
    fun o ho ↦ hsome o ((List.mem_insertionSort ownerLe).mp ho)
  have hvalid : validateAll [leg] = .ok () := by
    rw [validateAll, hv]
    rfl
  have hexec : ∃ r L', (post [leg] fun _ ↦ .ok ()).exec L = (.ok r, L') := by
    simp only [post, List.isEmpty_cons, Bool.false_eq_true, if_false, Proc.bind_eq]
    rw [Proc.exec_bind, Proc.exec_done, hvalid]
    dsimp only
    rw [Proc.exec_bind, hM]
    dsimp only
    rw [Proc.exec_bind, lockBalances_exec _ _ hlock]
    dsimp only
    rw [Proc.exec_bind, Proc.exec_done]
    dsimp only
    simp only [postLegs, Proc.bind_eq]
    rw [Proc.exec_bind, insertTransaction_ok (t := leg.row) ha]
    by_cases hk : leg.row.idempotencyKey ∈ M.keys
    · simp only [hk, not_true_eq_false, decide_false, if_false, Bool.false_eq_true]
      exact ⟨_, _, rfl⟩
    · simp only [hk, not_false_eq_true, decide_true, if_true]
      have hfit : |(M.insert leg.row).balanceOf leg.owner + leg.amountPaise.toInt| < 10 ^ 12 := by
        change |M.balanceOf leg.owner + _| < _
        rw [hbal]
        exact hb
      rw [Proc.exec_bind, updateBalance_ok hfit]
      exact ⟨_, _, rfl⟩
  obtain ⟨r, L', hr⟩ := hexec
  exact ⟨r, by rw [Proc.transact, hr]⟩

end Towing.Db
