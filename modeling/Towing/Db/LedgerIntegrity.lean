import Towing.Db.LedgerService

namespace Towing.Db

open Towing.Process LedgerService

variable {κ : Type} {L L' : Ledger κ} {o o' : WalletOwner} {t : WalletTransaction κ}

/-- Every balance is the sum of its rows and no key is on two of them. -/
structure Ledger.Sound (L : Ledger κ) : Prop where
  balance : ∀ o, L.balanceOf o = L.sumOf o
  wallet : ∀ t ∈ L.transactions, (L.wallets t.owner).isSome
  unique : L.keys.Nodup

theorem Ledger.Sound.empty : (Ledger.empty : Ledger κ).Sound where
  balance _ := rfl
  wallet _ ht := by cases ht
  unique := List.nodup_nil

theorem Ledger.balanceOf_ensureWallet : (L.ensureWallet o).balanceOf o' = L.balanceOf o' := by
  rw [balanceOf, wallets_ensureWallet]
  by_cases h : o' = o
  · simp [h]
  · rw [if_neg h, balanceOf]

theorem Ledger.isSome_ensureWallet (h : (L.wallets o').isSome) :
    ((L.ensureWallet o).wallets o').isSome := by
  rw [wallets_ensureWallet]
  split
  · rfl
  · exact h

theorem Ledger.Sound.ensureWallet (h : L.Sound) : (L.ensureWallet o).Sound where
  balance o' := by
    rw [balanceOf_ensureWallet, h.balance]
    simp only [sumOf, transactions_ensureWallet]
  wallet t ht := by
    rw [transactions_ensureWallet] at ht
    exact isSome_ensureWallet (h.wallet t ht)
  unique := by simpa only [keys_ensureWallet] using h.unique

theorem Ledger.balanceOf_post (hw : (L.wallets t.owner).isSome) :
    ((L.insert t).addBalance t.owner t.amount).balanceOf o =
      L.balanceOf o + if t.owner = o then t.amount else 0 := by
  by_cases h : t.owner = o
  · obtain ⟨b, hb⟩ := Option.isSome_iff_exists.mp hw
    rw [h] at hb
    simp [balanceOf, h, hb]
  · rw [balanceOf, wallets_addBalance_of_ne _ _ _ _ (Ne.symm h), if_neg h, add_zero]
    rfl

/-- What one inserted leg does: the row and its balance move together. -/
theorem Ledger.Sound.post (h : L.Sound) (hw : (L.wallets t.owner).isSome)
    (hk : t.idempotencyKey ∉ L.keys) : ((L.insert t).addBalance t.owner t.amount).Sound where
  balance o := by
    have hsum := sumOf_insert L o t
    rw [balanceOf_post hw, h.balance, ← hsum]
    rfl
  wallet u hu := by
    have hsome : (L.wallets u.owner).isSome := by
      rw [transactions_addBalance, transactions_insert, List.mem_append, List.mem_singleton] at hu
      rcases hu with hu | rfl
      · exact h.wallet u hu
      · exact hw
    by_cases ho : u.owner = t.owner
    · rw [ho, wallets_addBalance_self, Option.isSome_map]
      exact hw
    · rw [wallets_addBalance_of_ne _ _ _ _ ho]
      exact hsome
  unique := by
    rw [keys_addBalance, keys_insert]
    exact h.unique.append (List.nodup_singleton _) (by simpa using hk)

variable {owners : List WalletOwner} {balances : Balances}

/-- The running balances are the stored ones of the owners under lock. -/
def Tracks (owners : List WalletOwner) (balances : Balances) (L : Ledger κ) : Prop :=
  (∀ o ∈ owners, (L.wallets o).isSome) ∧
    ∀ o, balances o = if o ∈ owners then L.wallets o else none

theorem Tracks.post (h : Tracks owners balances L) (ho : t.owner ∈ owners) :
    Tracks owners
      (Function.update balances t.owner (some ((balances t.owner).getD 0 + t.amount)))
      ((L.insert t).addBalance t.owner t.amount) := by
  obtain ⟨b, hb⟩ := Option.isSome_iff_exists.mp (h.1 _ ho)
  constructor
  · intro o hm
    by_cases heq : o = t.owner
    · rw [heq, Ledger.wallets_addBalance_self, Ledger.wallets_insert, hb]
      rfl
    · rw [Ledger.wallets_addBalance_of_ne _ _ _ _ heq]
      exact h.1 o hm
  · intro o
    by_cases heq : o = t.owner
    · rw [heq, Function.update_self, if_pos ho, Ledger.wallets_addBalance_self,
        Ledger.wallets_insert, h.2, if_pos ho, hb]
      rfl
    · rw [Function.update_of_ne heq, Ledger.wallets_addBalance_of_ne _ _ _ _ heq]
      exact h.2 o

variable [DecidableEq κ] {legs : List (LedgerLeg κ)} {entries : List PostedEntry} {r : PostResult}

theorem insertWallets_exec (hs : L.Sound) (os : List WalletOwner) :
    ∃ M : Ledger κ, (insertWallets os).exec L = (.ok (), M) ∧ M.Sound ∧
      M.transactions = L.transactions ∧ (∀ o, M.balanceOf o = L.balanceOf o) ∧
      (∀ o ∈ os, (M.wallets o).isSome) ∧ ∀ o, (L.wallets o).isSome → (M.wallets o).isSome := by
  induction os generalizing L with
  | nil => exact ⟨L, rfl, hs, rfl, fun _ ↦ rfl, by simp, fun _ h ↦ h⟩
  | cons o os ih =>
    obtain ⟨M, he, hM, ht, hbal, hsome, hkeep⟩ := ih (hs.ensureWallet (o := o))
    refine ⟨M, he, hM, ?_, ?_, ?_, ?_⟩
    · rw [ht, Ledger.transactions_ensureWallet]
    · intro o'
      rw [hbal, Ledger.balanceOf_ensureWallet]
    · intro o' ho'
      rcases List.mem_cons.mp ho' with rfl | ho'
      · apply hkeep
        rw [Ledger.wallets_ensureWallet, if_pos rfl]
        rfl
      · exact hsome o' ho'
    · intro o' ho'
      exact hkeep o' (Ledger.isSome_ensureWallet ho')

theorem lockBalances_exec (os : List WalletOwner) (balances : Balances)
    (hos : ∀ o ∈ os, (L.wallets o).isSome) :
    (lockBalances os balances).exec L =
      (.ok fun o ↦ if o ∈ os then L.wallets o else balances o, L) := by
  induction os generalizing balances with
  | nil => simp [lockBalances]
  | cons o os ih =>
    have hrest : ∀ o ∈ os, (L.wallets o).isSome :=
      fun o h ↦ hos o (List.mem_cons_of_mem _ h)
    simp only [lockBalances, Proc.bind_eq, Proc.exec_bind, Proc.exec_query]
    rw [show Store.commit (Statement.selectForUpdate o) L = L from rfl, ih _ hrest]
    congr 2
    funext o'
    obtain ⟨b, hb⟩ := Option.isSome_iff_exists.mp (hos o List.mem_cons_self)
    by_cases hm : o' ∈ os
    · simp [hm]
    · by_cases ho : o' = o
      · simp [ho, hb, Ledger.balanceOf]
      · simp [hm, ho]

theorem updateBalance_exec {x : ℤ} {u : Unit} (h : (updateBalance o x).exec L = (.ok u, L')) :
    L' = L.addBalance o x := by
  rw [updateBalance, Proc.exec_attempt, Prod.mk.injEq] at h
  obtain ⟨hok, rfl⟩ := h
  split_ifs at hok with hfit
  exact if_pos hfit

theorem insertTransaction_exec {b : Bool} (h : (insertTransaction t).exec L = (.ok b, L')) :
    (b = false ∧ t.idempotencyKey ∈ L.keys ∧ L' = L) ∨
      (b = true ∧ t.idempotencyKey ∉ L.keys ∧ L' = L.insert t) := by
  rw [insertTransaction, Proc.exec_attempt, Prod.mk.injEq] at h
  obtain ⟨hok, rfl⟩ := h
  split_ifs at hok with hfit
  cases hok
  by_cases hk : t.idempotencyKey ∈ L.keys
  · exact .inl ⟨by simp [hk], hk, by simp [Store.commit, hk]⟩
  · exact .inr ⟨by simp [hk], hk, by simp [Store.commit, hk, hfit]⟩

/-- The rows a call adds: its legs, less those whose key is already there or
came earlier in the same call. -/
def freshRows : List κ → List (LedgerLeg κ) → List (WalletTransaction κ)
  | _, [] => []
  | keys, leg :: legs =>
    if leg.idempotencyKey ∈ keys then freshRows keys legs
    else leg.row :: freshRows (keys ++ [leg.idempotencyKey]) legs

theorem mem_keys_freshRows (keys : List κ) {leg : LedgerLeg κ} (h : leg ∈ legs) :
    leg.idempotencyKey ∈ keys ++ (freshRows keys legs).map (·.idempotencyKey) := by
  induction legs generalizing keys with
  | nil => cases h
  | cons leg' legs ih =>
    unfold freshRows
    rcases List.mem_cons.mp h with rfl | h
    · split_ifs with hk
      · exact List.mem_append_left _ hk
      · simp [LedgerLeg.row]
    · split_ifs with hk
      · exact ih keys h
      · simpa [LedgerLeg.row] using ih (keys ++ [leg'.idempotencyKey]) h

theorem freshRows_sublist (keys : List κ) (legs : List (LedgerLeg κ)) :
    (freshRows keys legs).Sublist (legs.map (·.row)) := by
  induction legs generalizing keys with
  | nil => exact .slnil
  | cons leg legs ih =>
    rw [freshRows]
    split_ifs
    · exact (ih keys).cons _
    · exact (ih _).cons_cons _

theorem mem_freshRows {keys : List κ} {t : WalletTransaction κ} (h : t ∈ freshRows keys legs) :
    ∃ leg ∈ legs, t = leg.row ∧ leg.idempotencyKey ∉ keys := by
  induction legs generalizing keys with
  | nil => cases h
  | cons leg legs ih =>
    rw [freshRows] at h
    split_ifs at h with hk
    · obtain ⟨leg', hmem, hrow, hkey⟩ := ih h
      exact ⟨leg', List.mem_cons_of_mem _ hmem, hrow, hkey⟩
    · rcases List.mem_cons.mp h with rfl | h
      · exact ⟨leg, List.mem_cons_self, rfl, hk⟩
      · obtain ⟨leg', hmem, hrow, hkey⟩ := ih h
        refine ⟨leg', List.mem_cons_of_mem _ hmem, hrow, fun h ↦ hkey ?_⟩
        exact List.mem_append_left _ h

/-- The loop over the legs, from any point of it. -/
theorem postLegs_exec (hs : L.Sound) (ht : Tracks owners balances L)
    (hl : ∀ leg ∈ legs, leg.owner ∈ owners)
    (h : (postLegs legs balances entries).exec L = (.ok r, L')) :
    L'.Sound ∧ Tracks owners r.balances L' ∧
      L'.transactions = L.transactions ++ freshRows L.keys legs ∧
      (r.replayed = true ↔ entries.all (·.replayed) = true ∧ freshRows L.keys legs = []) := by
  induction legs generalizing L balances entries with
  | nil =>
    cases h
    refine ⟨hs, ht, ?_, ?_⟩
    · rw [freshRows, List.append_nil]
    · simp [freshRows]
  | cons leg legs ih =>
    have ho : leg.row.owner ∈ owners := hl leg List.mem_cons_self
    have hl' : ∀ leg ∈ legs, leg.owner ∈ owners := fun leg hm ↦ hl leg (List.mem_cons_of_mem _ hm)
    simp only [postLegs, Proc.bind_eq] at h
    obtain ⟨b, M, hi, hrest⟩ := Proc.exec_bind_ok.mp h
    rcases insertTransaction_exec hi with ⟨rfl, hk, rfl⟩ | ⟨rfl, hk, rfl⟩
    · obtain ⟨hs', ht', hrows, hrep⟩ := ih hs ht hl' hrest
      have hfresh : freshRows M.keys (leg :: legs) = freshRows M.keys legs := if_pos hk
      refine ⟨hs', ht', ?_, ?_⟩
      · rw [hrows, hfresh]
      · rw [hrep, hfresh]
        simp
    · obtain ⟨u, M, hu, hrest⟩ := Proc.exec_bind_ok.mp hrest
      cases updateBalance_exec hu
      obtain ⟨hs', ht', hrows, hrep⟩ := ih (hs.post (ht.1 _ ho) hk) (ht.post ho) hl' hrest
      have hfresh : freshRows L.keys (leg :: legs) =
          leg.row :: freshRows (L.keys ++ [leg.idempotencyKey]) legs := if_neg hk
      rw [hfresh]
      refine ⟨hs', ht', ?_, ?_⟩
      · rw [hrows, Ledger.transactions_addBalance, Ledger.transactions_insert, List.append_assoc]
        simp [LedgerLeg.row]
      · rw [hrep]
        simp

variable [IdempotencyKey κ] {pre : Balances → Except LedgerError Unit}

/-- What a post that returns `r` has done to the ledger. -/
structure Posted (legs : List (LedgerLeg κ)) (pre : Balances → Except LedgerError Unit)
    (r : PostResult) (L L' : Ledger κ) : Prop where
  valid : validateAll legs = .ok ()
  checked : legs ≠ [] →
    pre (fun o ↦ if o ∈ legs.map (·.owner) then some (L.balanceOf o) else none) = .ok ()
  rows : L'.transactions = L.transactions ++ freshRows L.keys legs
  once : ∀ leg ∈ legs, L'.keys.count leg.idempotencyKey = 1
  balances : ∀ o, r.balances o = if o ∈ legs.map (·.owner) then L'.wallets o else none
  replayed : r.replayed = true ↔ L'.transactions = L.transactions

omit [IdempotencyKey κ] in
theorem count_key_of_rows (hs : L'.Sound)
    (hrows : L'.transactions = L.transactions ++ freshRows L.keys legs) {leg : LedgerLeg κ}
    (hm : leg ∈ legs) : L'.keys.count leg.idempotencyKey = 1 := by
  apply List.count_eq_one_of_mem hs.unique
  rw [Ledger.keys, hrows, List.map_append]
  exact mem_keys_freshRows L.keys hm

theorem post_exec (hs : L.Sound) (h : (post legs pre).exec L = (.ok r, L')) :
    L'.Sound ∧ Posted legs pre r L L' := by
  cases legs with
  | nil =>
    cases h
    refine ⟨hs, rfl, by simp, ?_, by simp, by simp, by simp⟩
    rw [freshRows, List.append_nil]
  | cons leg legs =>
    let owners := ((leg :: legs).map (·.owner)).eraseDups
    have howners (o : WalletOwner) : o ∈ owners ↔ o ∈ (leg :: legs).map (·.owner) :=
      List.mem_eraseDups
    obtain ⟨M, hM, hsM, htM, hbal, hsome, -⟩ := insertWallets_exec hs owners
    have hlock : ∀ o ∈ owners.insertionSort ownerLe, (M.wallets o).isSome :=
      fun o ho ↦ hsome o ((List.mem_insertionSort ownerLe).mp ho)
    simp only [post, List.isEmpty_cons, Bool.false_eq_true, if_false, Proc.bind_eq] at h
    obtain ⟨_, _, hv, hrest⟩ := Proc.exec_bind_ok.mp h
    rw [Proc.exec_done] at hv
    obtain ⟨hvalid, rfl⟩ := Prod.mk.inj hv
    obtain ⟨_, _, hw, hrest⟩ := Proc.exec_bind_ok.mp hrest
    rw [hM] at hw
    cases hw
    obtain ⟨balances, _, hb, hrest⟩ := Proc.exec_bind_ok.mp hrest
    rw [lockBalances_exec _ _ hlock] at hb
    cases hb
    obtain ⟨_, _, hp, hrest⟩ := Proc.exec_bind_ok.mp hrest
    rw [Proc.exec_done] at hp
    obtain ⟨hpre, rfl⟩ := Prod.mk.inj hp
    have htrack : Tracks owners
        (fun o ↦ if o ∈ owners.insertionSort ownerLe then M.wallets o else none) M :=
      ⟨hsome, fun o ↦ by simp only [List.mem_insertionSort]⟩
    have hlegs : ∀ leg' ∈ leg :: legs, leg'.owner ∈ owners :=
      fun leg' hm ↦ (howners _).mpr (List.mem_map_of_mem hm)
    obtain ⟨hs', ht', hrows, hrep⟩ := postLegs_exec hsM htrack hlegs hrest
    have hkeys : M.keys = L.keys := by rw [Ledger.keys, htM, Ledger.keys]
    rw [hkeys] at hrows hrep
    rw [htM] at hrows
    refine ⟨hs', hvalid, fun _ ↦ ?_, hrows, fun _ ↦ count_key_of_rows hs' hrows, fun o ↦ ?_, ?_⟩
    · rw [← hpre]
      congr 1
      funext o
      simp only [List.mem_insertionSort, howners]
      split_ifs with ho
      · obtain ⟨b, hb⟩ := Option.isSome_iff_exists.mp (hsome o ((howners o).mpr ho))
        rw [← hbal, Ledger.balanceOf, hb]
        rfl
      · rfl
    · rw [ht'.2]
      exact if_congr (howners o) rfl rfl
    · rw [hrep, hrows]
      simp

end Towing.Db
