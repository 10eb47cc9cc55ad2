import Towing.Db.LedgerConcurrency
import Towing.Process.LockOrder
import Mathlib.Data.Prod.Lex

namespace Towing.Db

open Towing.Process LedgerService

variable {κ α : Type}

/-- A call on wallets that are there, in which a key goes with one owner. -/
structure KnownCall (L₀ : Ledger κ) (ownerOf : κ → WalletOwner) extends Call κ where
  known : ∀ leg ∈ legs, (L₀.wallets leg.owner).isSome
  keyed : ∀ leg ∈ legs, ownerOf leg.idempotencyKey = leg.owner

def walletRank (o : WalletOwner) : ℕ ×ₗ ℕ := toLex (o.ownerType.ctorIdx, o.ownerId)

theorem ownerLe_iff {o o' : WalletOwner} : ownerLe o o' ↔ walletRank o ≤ walletRank o' := by
  have hidx : o.ownerType = o'.ownerType ↔ o.ownerType.ctorIdx = o'.ownerType.ctorIdx := by
    cases o.ownerType <;> cases o'.ownerType <;> decide
  rw [ownerLe, walletRank, walletRank, Prod.Lex.toLex_le_toLex, hidx]

theorem walletRank_injective : Function.Injective walletRank := by
  rintro ⟨t, i⟩ ⟨t', i'⟩ h
  obtain ⟨hidx, rfl⟩ := Prod.mk.inj (toLex.injective h)
  cases t <;> cases t' <;> first | rfl | cases hidx

/-- Wallets in the order they are locked in; a key is inserted under its wallet's lock. -/
def walletOrder (ownerOf : κ → WalletOwner) : LockOrder (Resource κ) (ℕ ×ₗ ℕ) where
  rank
    | .wallet o => walletRank o
    | .key k => walletRank (ownerOf k)
  guard
    | .wallet _ => none
    | .key k => some (.wallet (ownerOf k))

def HasWallets (L₀ L : Ledger κ) : Prop := ∀ o, (L₀.wallets o).isSome → (L.wallets o).isSome

variable {L₀ L : Ledger κ} {ownerOf : κ → WalletOwner} {H : Set (Resource κ)}

theorem HasWallets.commit [DecidableEq κ] (h : HasWallets L₀ L) (l : Statement κ) :
    HasWallets L₀ (Store.commit l L) := by
  intro o ho
  have hhas := h o ho
  cases l with
  | insertWallet o' => exact Ledger.isSome_ensureWallet hhas
  | selectForUpdate o' => exact hhas
  | insertTransaction t =>
    dsimp only [Store.commit]
    split_ifs
    · exact hhas
    · exact hhas
  | updateBalance o' x =>
    dsimp only [Store.commit]
    split_ifs
    · rwa [isSome_addBalance]
    · exact hhas

variable [DecidableEq κ]

omit [DecidableEq κ] in
theorem insertWallets_ascends (os : List WalletOwner) {f : Unit → Sql κ α}
    (hos : ∀ o ∈ os, (L₀.wallets o).isSome)
    (hf : (f ()).Ascends rowLocks (walletOrder ownerOf) (HasWallets L₀) H) :
    ((insertWallets os).bind f).Ascends rowLocks (walletOrder ownerOf) (HasWallets L₀) H := by
  induction os with
  | nil => exact hf
  | cons o os ih =>
    obtain ⟨ho, hos⟩ := List.forall_mem_cons.mp hos
    intro L hL
    -- A wallet that is there is not locked by the insert.
    have hnone : (rowLocks (κ := κ)).need (.insertWallet o) L = ∅ := by
      refine Set.eq_empty_of_forall_notMem ?_
      rintro r ⟨-, hr⟩
      have hhas := hL o ho
      rw [hr] at hhas
      cases hhas
    rw [hnone, Set.union_empty]
    exact ⟨fun r hr ↦ absurd hr (Set.notMem_empty r), ih hos⟩

omit [DecidableEq κ] in
theorem lockBalances_ascends (os : List WalletOwner) {balances : Balances} {f : Balances → Sql κ α}
    (hos : os.Pairwise fun o o' ↦ walletRank o < walletRank o')
    (hH : ∀ o ∈ os, ∀ r ∈ H, (walletOrder ownerOf).guard r = none → (walletOrder ownerOf).rank r < walletRank o)
    (hf : ∀ balances K, H ⊆ K → (∀ o ∈ os, .wallet o ∈ K) →
      (f balances).Ascends rowLocks (walletOrder ownerOf) (HasWallets L₀) K) :
    ((lockBalances os balances).bind f).Ascends rowLocks (walletOrder ownerOf) (HasWallets L₀) H := by
  induction os generalizing balances H with
  | nil => exact hf balances H subset_rfl (by simp)
  | cons o os ih =>
    obtain ⟨hfirst, hos⟩ := List.pairwise_cons.mp hos
    intro L hL
    refine ⟨?_, ih hos ?_ ?_⟩
    · rintro r rfl
      exact .inr (hH o List.mem_cons_self)
    · rintro o' ho' r (hr | rfl) hguard
      · exact hH o' (List.mem_cons_of_mem o ho') r hr hguard
      · exact hfirst o' ho'
    · intro balances K hK hlocked
      refine hf balances K (Set.subset_union_left.trans hK) (List.forall_mem_cons.mpr ⟨?_, hlocked⟩)
      exact hK (.inr rfl)

theorem postLegs_ascends (legs : List (LedgerLeg κ)) {balances : Balances} {entries : List PostedEntry}
    (hkeyed : ∀ leg ∈ legs, ownerOf leg.idempotencyKey = leg.owner)
    (hH : ∀ leg ∈ legs, .wallet leg.owner ∈ H) :
    (postLegs legs balances entries).Ascends rowLocks (walletOrder ownerOf) (HasWallets L₀) H := by
  induction legs generalizing balances entries H with
  | nil => trivial
  | cons leg legs ih =>
    obtain ⟨hkey, hkeyed⟩ := List.forall_mem_cons.mp hkeyed
    obtain ⟨hown, hH⟩ := List.forall_mem_cons.mp hH
    intro L hL
    refine ⟨?_, ?_⟩
    · rintro r ⟨rfl, -⟩
      refine .inr ?_
      show Resource.wallet (ownerOf leg.idempotencyKey) ∈ H
      rwa [hkey]
    · have hrest (K : Set (Resource κ)) (hK : H ⊆ K) (balances : Balances) (entries : List PostedEntry) :
          (postLegs legs balances entries).Ascends rowLocks (walletOrder ownerOf) (HasWallets L₀) K :=
        ih hkeyed fun leg hleg ↦ hK (hH leg hleg)
      show Proc.Ascends _ _ _ (Proc.bind (.done (if _ then .ok _ else .error _)) _) _
      split_ifs
      · by_cases hnew : leg.row.idempotencyKey ∉ L.keys
        · show Proc.Ascends _ _ _ (ite (decide _ = true) _ _) _
          rw [if_pos (decide_eq_true hnew)]
          -- The balance is updated under the lock that the wallet is held by.
          intro M hM
          refine ⟨?_, ?_⟩
          · rintro r rfl
            exact .inl (.inl hown)
          · show Proc.Ascends _ _ _ (Proc.bind (.done (if _ then .ok _ else .error _)) _) _
            split_ifs
            · exact hrest _ (Set.subset_union_left.trans Set.subset_union_left) _ _
            · trivial
        · show Proc.Ascends _ _ _ (ite (decide _ = true) _ _) _
          rw [if_neg (by simpa using hnew)]
          exact hrest _ Set.subset_union_left _ _
      · trivial

theorem nodup_eraseDups (owners : List WalletOwner) : owners.eraseDups.Nodup := by
  induction hn : owners.length using Nat.strong_induction_on generalizing owners with
  | h n ih =>
    cases owners with
    | nil => simp
    | cons o os =>
      rw [List.eraseDups_cons, List.nodup_cons]
      refine ⟨fun h ↦ ?_, ih _ ?_ _ rfl⟩
      · simp [List.mem_eraseDups] at h
      · subst hn
        exact Nat.lt_succ_of_le (List.length_filter_le _ os)

theorem locked_ascend (owners : List WalletOwner) :
    (owners.eraseDups.insertionSort ownerLe).Pairwise fun o o' ↦ walletRank o < walletRank o' := by
  have : Std.Total ownerLe := ⟨fun o o' ↦ by simpa only [ownerLe_iff] using le_total (walletRank o) (walletRank o')⟩
  have : IsTrans WalletOwner ownerLe := ⟨fun o o' o'' ↦ by simpa only [ownerLe_iff] using le_trans⟩
  have hnodup : (owners.eraseDups.insertionSort ownerLe).Nodup :=
    (List.perm_insertionSort ownerLe _).nodup_iff.mpr (nodup_eraseDups owners)
  refine (hnodup.and (List.pairwise_insertionSort ownerLe _)).imp ?_
  rintro o o' ⟨hne, hle⟩
  exact (ownerLe_iff.mp hle).lt_of_ne fun heq ↦ hne (walletRank_injective heq)

omit [DecidableEq κ] in
theorem insertWallets_endsIn (os : List WalletOwner) : (insertWallets os : Sql κ Unit).EndsIn os.length := by
  induction os with
  | nil => trivial
  | cons o os ih => exact fun _ ↦ ih

omit [DecidableEq κ] in
theorem lockBalances_endsIn (os : List WalletOwner) (balances : Balances) :
    (lockBalances os balances : Sql κ Balances).EndsIn os.length := by
  induction os generalizing balances with
  | nil => trivial
  | cons o os ih => exact fun _ ↦ ih _

theorem postLegs_endsIn (legs : List (LedgerLeg κ)) (balances : Balances) (entries : List PostedEntry) :
    (postLegs legs balances entries).EndsIn (2 * legs.length) := by
  induction legs generalizing balances entries with
  | nil => trivial
  | cons leg legs ih =>
    have hupdate : (updateBalance leg.owner leg.amountPaise.toInt : Sql κ Unit).EndsIn 1 := fun _ ↦ trivial
    have hinsert : (insertTransaction leg.row).EndsIn 1 := fun _ ↦ trivial
    rw [List.length_cons, show 2 * (legs.length + 1) = 1 + (1 + 2 * legs.length) by omega]
    refine hinsert.bind fun inserted ↦ ?_
    cases inserted with
    | false => exact (ih _ _).mono (Nat.le_add_left _ 1)
    | true => exact hupdate.bind fun _ ↦ ih _ _

variable [IdempotencyKey κ]

theorem post_ascends (c : KnownCall L₀ ownerOf) :
    (post c.legs c.precondition).Ascends rowLocks (walletOrder ownerOf) (HasWallets L₀) ∅ := by
  unfold post
  split_ifs with hempty
  · trivial
  · dsimp only
    cases hvalid : validateAll c.legs with
    | error e => trivial
    | ok u =>
      refine insertWallets_ascends _ (fun o ho ↦ ?_) (lockBalances_ascends _ (locked_ascend _) ?_ ?_)
      · obtain ⟨leg, hleg, rfl⟩ := List.mem_map.mp (List.mem_eraseDups.mp ho)
        exact c.known leg hleg
      · exact fun o _ r hr ↦ absurd hr (Set.notMem_empty r)
      · intro balances K _ hK
        show Proc.Ascends _ _ _ (Proc.bind (.done (c.precondition balances)) _) _
        cases c.precondition balances with
        | error e => trivial
        | ok u =>
          refine postLegs_ascends c.legs c.keyed fun leg hleg ↦ hK _ ?_
          rw [List.mem_insertionSort, List.mem_eraseDups]
          exact List.mem_map_of_mem hleg

theorem post_endsIn (legs : List (LedgerLeg κ)) (pre : Balances → Except LedgerError Unit) :
    ∃ n, (post legs pre).EndsIn n := by
  unfold post
  split_ifs
  · exact ⟨0, trivial⟩
  · exact ⟨_, (Proc.endsIn_done (n := 0) _).bind fun _ ↦ (insertWallets_endsIn _).bind fun _ ↦
      (lockBalances_endsIn _ _).bind fun _ ↦ (Proc.endsIn_done (n := 0) _).bind fun _ ↦ postLegs_endsIn _ _ _⟩

/-- Posts in flight together on wallets that are there never wait for each other in a circle: from
wherever they have come, all of them come to their ends. -/
theorem posts_drain
    {os : List (Open (Statement κ) (Ledger κ) LedgerError PostResult (Resource κ) (KnownCall L₀ ownerOf))}
    {es : List (Event (KnownCall L₀ ownerOf × Except LedgerError PostResult) (Ledger κ))}
    (h : Transactions (fun c : KnownCall L₀ ownerOf ↦ post c.legs c.precondition) rowLocks L₀ os L es) :
    ∃ M fs, Transactions (fun c : KnownCall L₀ ownerOf ↦ post c.legs c.precondition) rowLocks L₀ [] M (es ++ fs) ∧
      (fs.map (·.label.1)).Perm (os.map (·.call)) :=
  h.drains (fun c ↦ post_obeys c.legs c.precondition) (I := HasWallets L₀) (fun _ ho ↦ ho)
    (fun l _ hL ↦ hL.commit l) post_ascends fun c ↦ post_endsIn c.legs c.precondition

/-! Two trips settled at once, their shares named in opposite orders. -/

def sampleWallets : Ledger String := (Ledger.empty.ensureWallet ⟨.driver, 1⟩).ensureWallet ⟨.fleet, 2⟩

def sampleOwnerOf (key : String) : WalletOwner :=
  if key = "bk:v1:1:fleet" ∨ key = "bk:v1:2:fleet" then ⟨.fleet, 2⟩ else ⟨.driver, 1⟩

def driverFirst : KnownCall sampleWallets sampleOwnerOf where
  legs := [⟨⟨.driver, 1⟩, .driverShareCredit, .int 70, "", some (.booking 1), "bk:v1:1:driver"⟩,
    ⟨⟨.fleet, 2⟩, .fleetShareCredit, .int 30, "", some (.booking 1), "bk:v1:1:fleet"⟩]
  precondition _ := .ok ()
  known := by decide
  keyed := by decide

def fleetFirst : KnownCall sampleWallets sampleOwnerOf where
  legs := [⟨⟨.fleet, 2⟩, .fleetShareCredit, .int 40, "", some (.booking 2), "bk:v1:2:fleet"⟩,
    ⟨⟨.driver, 1⟩, .driverShareCredit, .int 60, "", some (.booking 2), "bk:v1:2:driver"⟩]
  precondition _ := .ok ()
  known := by decide
  keyed := by decide

theorem posts_drain_sample : ∃ M fs,
    Transactions (fun c : KnownCall sampleWallets sampleOwnerOf ↦ post c.legs c.precondition) rowLocks sampleWallets
        [] M ([] ++ fs) ∧ (fs.map (·.label.1)).Perm [driverFirst, fleetFirst] :=
  posts_drain ((Transactions.start.begin driverFirst).begin fleetFirst)

end Towing.Db
