import Towing.Db.LedgerIntegrity

namespace Towing.Db

open Towing.Process LedgerService

variable {κ : Type}

/-- What a statement can lock: a wallet, or a key being inserted. -/
inductive Resource (κ : Type)
  | wallet (o : WalletOwner)
  | key (k : κ)

/-- Rows are never deleted, and what is locked does not change. -/
structure Kept (H : Set (Resource κ)) (L M : Ledger κ) : Prop where
  wallet : ∀ o, (L.wallets o).isSome → (M.wallets o).isSome
  key : ∀ k ∈ L.keys, k ∈ M.keys
  walletHeld : ∀ o, .wallet o ∈ H → M.wallets o = L.wallets o
  keyHeld : ∀ k, .key k ∈ H → k ∈ M.keys → k ∈ L.keys

/-- The row locks and the unique index of the two tables. An insert that finds
its row committed locks nothing; one that finds it uncommitted waits. -/
def rowLocks : Locking (Statement κ) (Ledger κ) (Resource κ) where
  need
    | .insertWallet o, L => {r | r = .wallet o ∧ L.wallets o = none}
    | .selectForUpdate o, _ => {.wallet o}
    | .insertTransaction t, L => {r | r = .key t.idempotencyKey ∧ t.idempotencyKey ∉ L.keys}
    | .updateBalance o _, _ => {.wallet o}
  seen := Kept
  refl _ _ := ⟨fun _ h ↦ h, fun _ h ↦ h, fun _ _ ↦ rfl, fun _ _ h ↦ h⟩
  trans _ _ _ _ h h' := ⟨fun o ho ↦ h'.wallet o (h.wallet o ho), fun k hk ↦ h'.key k (h.key k hk),
    fun o ho ↦ (h'.walletHeld o ho).trans (h.walletHeld o ho),
    fun k hk hm ↦ h.keyHeld k hk (h'.keyHeld k hk hm)⟩
  anti _ _ _ _ hHK h := ⟨h.wallet, h.key, fun o ho ↦ h.walletHeld o (hHK ho),
    fun k hk ↦ h.keyHeld k (hHK hk)⟩

variable {H : Set (Resource κ)} {L M : Ledger κ} {o : WalletOwner} {k : κ} {x : ℤ}
  {t : WalletTransaction κ}

theorem Kept.balanceOf (h : Kept H L M) (ho : .wallet o ∈ H) : M.balanceOf o = L.balanceOf o := by
  rw [Ledger.balanceOf, h.walletHeld o ho, Ledger.balanceOf]

theorem Kept.ensureWallet (h : Kept H L M) :
    Kept H (L.ensureWallet o) (M.ensureWallet o) where
  wallet o' h' := by
    rw [Ledger.wallets_ensureWallet] at h' ⊢
    split_ifs at h' ⊢
    · rfl
    · exact h.wallet o' h'
  key k hk := by
    rw [Ledger.keys_ensureWallet] at hk ⊢
    exact h.key k hk
  walletHeld o' h' := by
    rw [Ledger.wallets_ensureWallet, Ledger.wallets_ensureWallet]
    split_ifs with heq
    · rw [Ledger.balanceOf, h.walletHeld o (heq ▸ h'), Ledger.balanceOf]
    · exact h.walletHeld o' h'
  keyHeld k hk hm := by
    rw [Ledger.keys_ensureWallet] at hm ⊢
    exact h.keyHeld k hk hm

theorem kept_ensureWallet (ho : .wallet o ∉ H ∨ (L.wallets o).isSome) :
    Kept H L (L.ensureWallet o) where
  wallet _ := Ledger.isSome_ensureWallet
  key k hk := by rwa [Ledger.keys_ensureWallet]
  walletHeld o' h' := by
    rw [Ledger.wallets_ensureWallet]
    split_ifs with heq
    · obtain ⟨b, hb⟩ := Option.isSome_iff_exists.mp (ho.resolve_left fun hn ↦ hn (heq ▸ h'))
      rw [heq, Ledger.balanceOf, hb]
      rfl
    · rfl
  keyHeld k _ hm := by rwa [Ledger.keys_ensureWallet] at hm

theorem Kept.insert (h : Kept H L M) : Kept H (L.insert t) (M.insert t) where
  wallet := h.wallet
  key k hk := by
    rw [Ledger.keys_insert, List.mem_append] at hk ⊢
    exact hk.imp_left (h.key k)
  walletHeld := h.walletHeld
  keyHeld k hk hm := by
    rw [Ledger.keys_insert, List.mem_append] at hm ⊢
    exact hm.imp_left (h.keyHeld k hk)

theorem kept_insert (ht : .key t.idempotencyKey ∉ H) : Kept H L (L.insert t) where
  wallet _ h := h
  key k hk := by
    rw [Ledger.keys_insert]
    exact List.mem_append_left _ hk
  walletHeld _ _ := rfl
  keyHeld k hk hm := by
    rw [Ledger.keys_insert, List.mem_append, List.mem_singleton] at hm
    refine hm.resolve_right fun heq ↦ ht ?_
    rwa [← heq]

theorem isSome_addBalance {o' : WalletOwner} :
    ((L.addBalance o x).wallets o').isSome = (L.wallets o').isSome := by
  by_cases heq : o' = o
  · rw [heq, Ledger.wallets_addBalance_self, Option.isSome_map]
  · rw [Ledger.wallets_addBalance_of_ne _ _ _ _ heq]

theorem Kept.addBalance (h : Kept H L M) : Kept H (L.addBalance o x) (M.addBalance o x) where
  wallet o' h' := by
    rw [isSome_addBalance] at h' ⊢
    exact h.wallet o' h'
  key := h.key
  walletHeld o' h' := by
    by_cases heq : o' = o
    · rw [heq, Ledger.wallets_addBalance_self, Ledger.wallets_addBalance_self,
        h.walletHeld o (heq ▸ h')]
    · rw [Ledger.wallets_addBalance_of_ne _ _ _ _ heq, Ledger.wallets_addBalance_of_ne _ _ _ _ heq]
      exact h.walletHeld o' h'
  keyHeld := h.keyHeld

theorem kept_addBalance (ho : .wallet o ∉ H) : Kept H L (L.addBalance o x) where
  wallet o' h' := by rwa [isSome_addBalance]
  key _ hk := hk
  walletHeld o' h' := by
    apply Ledger.wallets_addBalance_of_ne
    rintro rfl
    exact ho h'
  keyHeld _ _ hm := hm

variable [DecidableEq κ]

theorem insertWallets_obeys (os : List WalletOwner) :
    rowLocks.Obeys (insertWallets os : Sql κ Unit) := by
  induction os with
  | nil => trivial
  | cons o os ih =>
    refine Locking.Obeys.bind ⟨fun L H hd ↦ ?_, fun L M H hn hs ↦ ⟨?_, rfl, ?_⟩, fun _ ↦ trivial⟩
      fun _ ↦ ih
    · apply kept_ensureWallet
      cases h : L.wallets o with
      | some b => exact .inr rfl
      | none => exact .inl fun hm ↦ Set.disjoint_left.mp hd ⟨rfl, h⟩ hm
    · rintro r ⟨rfl, hM⟩
      cases h : L.wallets o with
      | some b => simpa [hM] using hs.wallet o (by rw [h]; rfl)
      | none => exact hn ⟨rfl, h⟩
    · exact hs.ensureWallet

theorem lockBalances_obeys (os : List WalletOwner) (balances : Balances) :
    rowLocks.Obeys (lockBalances os balances : Sql κ Balances) := by
  induction os generalizing balances with
  | nil => trivial
  | cons o os ih =>
    refine Locking.Obeys.bind ⟨fun L H _ ↦ rowLocks.refl H L,
      fun L M H hn hs ↦ ⟨hn, ?_, hs⟩, fun _ ↦ trivial⟩ fun b ↦ ih _
    dsimp only
    rw [hs.balanceOf (hn rfl)]

theorem updateBalance_obeys : rowLocks.Obeys (updateBalance o x : Sql κ Unit) := by
  refine ⟨fun L H hd ↦ ?_, fun L M H hn hs ↦ ⟨hn, ?_, ?_⟩, fun _ ↦ trivial⟩
  · dsimp only [Store.commit]
    split_ifs
    · exact kept_addBalance fun hm ↦ Set.disjoint_left.mp hd rfl hm
    · exact rowLocks.refl H L
  · dsimp only
    rw [hs.balanceOf (hn rfl)]
  · dsimp only [Store.commit]
    rw [hs.balanceOf (hn rfl)]
    split_ifs
    · exact hs.addBalance
    · exact hs

theorem insertTransaction_obeys : rowLocks.Obeys (insertTransaction t : Sql κ Bool) := by
  refine ⟨fun L H hd ↦ ?_, fun L M H hn hs ↦ ⟨?_, ?_, ?_⟩, fun _ ↦ trivial⟩
  · dsimp only [Store.commit]
    split_ifs with h
    · rw [Bool.and_eq_true, decide_eq_true_iff] at h
      exact kept_insert fun hm ↦ Set.disjoint_left.mp hd ⟨rfl, h.2⟩ hm
    · exact rowLocks.refl H L
  · rintro r ⟨rfl, hM⟩
    exact hn ⟨rfl, fun hL ↦ hM (hs.key _ hL)⟩
  all_goals
    have hiff : t.idempotencyKey ∈ M.keys ↔ t.idempotencyKey ∈ L.keys := by
      refine ⟨fun hM ↦ ?_, hs.key _⟩
      by_contra hL
      exact hL (hs.keyHeld _ (hn ⟨rfl, hL⟩) hM)
    dsimp only [Store.commit]
    simp only [hiff]
  split_ifs
  · exact hs.insert
  · exact hs

theorem postLegs_obeys (legs : List (LedgerLeg κ)) (balances : Balances)
    (entries : List PostedEntry) : rowLocks.Obeys (postLegs legs balances entries) := by
  induction legs generalizing balances entries with
  | nil => trivial
  | cons leg legs ih =>
    refine insertTransaction_obeys.bind fun inserted ↦ ?_
    cases inserted with
    | false => exact ih _ _
    | true => exact updateBalance_obeys.bind fun _ ↦ ih _ _

variable [IdempotencyKey κ]

theorem post_obeys (legs : List (LedgerLeg κ)) (pre : Balances → Except LedgerError Unit) :
    rowLocks.Obeys (post legs pre) := by
  cases legs with
  | nil => trivial
  | cons leg legs =>
    refine Locking.Obeys.bind trivial fun _ ↦ ?_
    refine (insertWallets_obeys _).bind fun _ ↦ (lockBalances_obeys _ _).bind fun balances ↦ ?_
    exact Locking.Obeys.bind trivial fun _ ↦ postLegs_obeys _ _ _

/-- A call of `post`. -/
structure Call (κ : Type) where
  legs : List (LedgerLeg κ)
  precondition : Balances → Except LedgerError Unit

/-- Calls of `post` in flight together, statement by statement, with the calls
that ended and the ledgers around them. -/
abbrev Posts (L₀ : Ledger κ)
    (os : List (Open (Statement κ) (Ledger κ) LedgerError PostResult (Resource κ) (Call κ)))
    (L : Ledger κ) (es : List (Event (Call κ × Except LedgerError PostResult) (Ledger κ))) : Prop :=
  Transactions (fun c : Call κ ↦ post c.legs c.precondition) rowLocks L₀ os L es

theorem post_step {c : Call κ} {L L' : Ledger κ} {res : Except LedgerError PostResult}
    (hs : L.Sound) (h : (post c.legs c.precondition).transact L = (res, L')) :
    L'.Sound ∧ L.transactions <+: L'.transactions ∧
      (∀ r, res = .ok r → Posted c.legs c.precondition r L L') ∧
      ∀ x, res = .error x → L' = L := by
  cases res with
  | error e =>
    cases Proc.transact_error h
    exact ⟨hs, List.prefix_rfl, fun r hr ↦ (by cases hr), fun _ _ ↦ rfl⟩
  | ok r =>
    obtain ⟨hs', hp⟩ := post_exec hs (Proc.transact_ok h)
    refine ⟨hs', ?_, fun r' hr ↦ ?_, fun x hx ↦ (by cases hx)⟩
    · rw [hp.rows]
      exact List.prefix_append _ _
    · cases hr
      exact hp

/-- Every call that ends leaves a sound ledger, having posted its legs or nothing. -/
theorem post_integrity {L₀ L : Ledger κ}
    {os : List (Open (Statement κ) (Ledger κ) LedgerError PostResult (Resource κ) (Call κ))}
    {es : List (Event (Call κ × Except LedgerError PostResult) (Ledger κ))}
    (h₀ : L₀.Sound) (h : Posts L₀ os L es) :
    Chained L₀ es L ∧ L.Sound ∧ ∀ e ∈ es, e.after.Sound ∧
      e.after.transactions <+: L.transactions ∧
      (∀ r, e.label.2 = .ok r →
        Posted e.label.1.legs e.label.1.precondition r e.before e.after) ∧
      ∀ x, e.label.2 = .error x → e.after = e.before := by
  obtain ⟨-, hc, hes⟩ := h.serializable fun c : Call κ ↦ post_obeys c.legs c.precondition
  obtain ⟨hL, hsound⟩ := hc.invariant h₀ fun e he hs ↦ (post_step hs (hes e he)).1
  have hkeep (e) (he : e ∈ es) : e.before.transactions <+: e.after.transactions :=
    (post_step (hsound e he).1 (hes e he)).2.1
  refine ⟨hc, hL, fun e he ↦ ?_⟩
  obtain ⟨hs', -, hok, herr⟩ := post_step (hsound e he).1 (hes e he)
  have hlast : e.after.transactions <+: L.transactions :=
    hc.rel_last (R := fun A B ↦ A.transactions <+: B.transactions) (fun _ ↦ List.prefix_rfl)
      (fun _ _ _ ↦ List.IsPrefix.trans) hkeep e he
  exact ⟨hs', hlast, hok, herr⟩

/-- A trip's two credits in one call, sharing the driver's wallet and then the key. -/
def sampleCall : Call String where
  legs := [⟨⟨.driver, 1⟩, .driverShareCredit, .int 70, "", some (.booking 1), "bk:v1:1:driver"⟩,
    ⟨⟨.driver, 1⟩, .adjustment, .int (-20), "", none, "adj:v1:1"⟩,
    ⟨⟨.fleet, 2⟩, .fleetShareCredit, .int 30, "", some (.booking 1), "bk:v1:1:driver"⟩]
  precondition _ := .ok ()

def sampleLedger (n : ℕ) : Ledger String :=
  ((fun L ↦ ((post sampleCall.legs sampleCall.precondition).transact L).2)^[n]) Ledger.empty

theorem post_integrity_sample : (sampleLedger 2).Sound ∧
    (sampleLedger 2).balanceOf ⟨.driver, 1⟩ = 50 ∧ (sampleLedger 2).balanceOf ⟨.fleet, 2⟩ = 0 :=
  ⟨(post_integrity Ledger.Sound.empty
    ((Transactions.start.alone sampleCall).alone sampleCall)).2.1, by decide, by decide⟩

end Towing.Db
