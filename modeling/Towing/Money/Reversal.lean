import Towing.Db.LedgerPosting
import Towing.Money.RefundPools
import Mathlib.Algebra.Order.BigOperators.Group.List

namespace Towing.Money

open Towing.Arith Towing.Db Towing.Process RefundsService

variable {w : World} {b : ℕ} {o : WalletOwner} {p : WalletTxnType → Bool}
  {legs : List (LedgerLeg LedgerKey)}

/-! What has been credited and taken back, owner by owner. -/

namespace World

variable (w b)

/-- A booking's rows of the given types. -/
def rowsOf (p : WalletTxnType → Bool) : List (WalletTransaction LedgerKey) :=
  w.ledger.transactions.filter fun t ↦ t.refId = some (.booking b) && p t.type

def sumOf (p : WalletTxnType → Bool) (o : WalletOwner) : ℤ :=
  (((w.rowsOf b p).filter (·.owner = o)).map (·.amount)).sum

def totalOf (p : WalletTxnType → Bool) : ℤ := ((w.rowsOf b p).map (·.amount)).sum

def credited (o : WalletOwner) : ℤ := w.sumOf b isSettlementCredit o

/-- As a positive amount. -/
def debited (o : WalletOwner) : ℤ := -w.sumOf b (· = .refundDebit) o

/-- The nightly check: more taken back than was ever given. -/
def ReversalDrift : Prop :=
  w.totalOf b (· = .refundDebit) ≠ 0 ∧
    w.totalOf b isSettlementCredit < |w.totalOf b (· = .refundDebit)|

/-- What the driver side still holds of its credits. -/
def providerHeld : ℤ :=
  ((providerOwners (w.sumByOwner b isSettlementCredit) (w.debited b)).map (·.2)).sum

variable {w b}

theorem sumByOwner_eq : w.sumByOwner b p =
    ((w.rowsOf b p).map (·.owner)).dedup.map fun o ↦ (o, w.sumOf b p o) := rfl

theorem mem_sumByOwner {c : WalletOwner × ℤ} (h : c ∈ w.sumByOwner b p) :
    c.2 = w.sumOf b p c.1 ∧ ∃ t ∈ w.rowsOf b p, t.owner = c.1 := by
  rw [sumByOwner_eq] at h
  obtain ⟨o, ho, rfl⟩ := List.mem_map.mp h
  exact ⟨rfl, List.mem_map.mp (List.mem_dedup.mp ho)⟩

theorem nodup_sumByOwner : ((w.sumByOwner b p).map (·.1)).Nodup := by
  rw [sumByOwner_eq, List.map_map, show (fun c : WalletOwner × ℤ ↦ c.1) ∘
    (fun o ↦ (o, w.sumOf b p o)) = id from rfl, List.map_id]
  exact List.nodup_dedup _

theorem sumOf_of_not_mem (h : ∀ c ∈ w.sumByOwner b p, c.1 ≠ o) : w.sumOf b p o = 0 := by
  have hnil : (w.rowsOf b p).filter (·.owner = o) = [] := by
    rw [List.filter_eq_nil_iff]
    intro t ht ho
    refine h (o, w.sumOf b p o) ?_ rfl
    rw [sumByOwner_eq]
    refine List.mem_map.mpr ⟨o, ?_, rfl⟩
    rw [List.mem_dedup, List.mem_map]
    exact ⟨t, ht, by simpa using ho⟩
  rw [sumOf, hnil]
  rfl

/-- What `reversedByOwner` reads. -/
theorem reversed_eq : (fun o ↦
    -((((w.sumByOwner b (· = .refundDebit)).find? (·.1 = o)).map (·.2)).getD 0)) = w.debited b := by
  funext o
  rw [debited]
  congr 1
  cases hfind : (w.sumByOwner b (· = .refundDebit)).find? (·.1 = o) with
  | some c =>
    have ho : c.1 = o := by simpa using List.find?_some hfind
    rw [← ho]
    exact (mem_sumByOwner (List.mem_of_find?_eq_some hfind)).1
  | none =>
    symm
    apply sumOf_of_not_mem
    intro c hc ho
    have := List.find?_eq_none.mp hfind c hc
    simp [ho] at this

end World

theorem sum_filter_add {α : Type} (q : α → Bool) (f : α → ℤ) (l : List α) :
    ((l.filter q).map f).sum + ((l.filter fun a ↦ !q a).map f).sum = (l.map f).sum := by
  induction l with
  | nil => rfl
  | cons a l ih =>
    cases hq : q a
    · simp only [List.filter_cons, hq, Bool.not_false, Bool.false_eq_true, if_false, if_true,
        List.map_cons, List.sum_cons]
      omega
    · simp only [List.filter_cons, hq, Bool.not_true, Bool.false_eq_true, if_false, if_true,
        List.map_cons, List.sum_cons]
      omega

/-- Owner by owner at least nothing is at least nothing altogether. -/
theorem sum_nonneg_of_owners (l : List (WalletOwner × ℤ))
    (h : ∀ o, 0 ≤ ((l.filter (·.1 = o)).map (·.2)).sum) : 0 ≤ (l.map (·.2)).sum := by
  induction hn : l.length using Nat.strong_induction_on generalizing l with
  | _ n ih =>
    cases l with
    | nil => rfl
    | cons c l =>
      rw [← sum_filter_add (fun c' : WalletOwner × ℤ ↦ decide (c'.1 = c.1)) (·.2)]
      have hrest := ih _ ?_ ((c :: l).filter fun c' ↦ !decide (c'.1 = c.1)) ?_ rfl
      · have := h c.1
        omega
      · rw [← hn, List.filter_cons_of_neg (by simp)]
        exact Nat.lt_succ_of_le (List.length_filter_le _ _)
      · intro o
        rw [List.filter_filter]
        by_cases ho : o = c.1
        · subst ho
          simp
        · have heq : ((c :: l).filter fun c' ↦ decide (c'.1 = o) && !decide (c'.1 = c.1)) =
              (c :: l).filter fun c' ↦ decide (c'.1 = o) := by
            apply List.filter_congr
            intro c' _
            by_cases h' : c'.1 = o
            · simp [h', ho]
            · simp [h']
          rw [heq]
          exact h o

/-- No owner overdrawn, no booking overdrawn. -/
theorem World.total_le (h : ∀ o, w.debited b o ≤ w.credited b o) :
    -w.totalOf b (· = .refundDebit) ≤ w.totalOf b isSettlementCredit := by
  let rows := w.rowsOf b isSettlementCredit ++ w.rowsOf b (· = .refundDebit)
  have htotal := sum_nonneg_of_owners (rows.map fun t ↦ (t.owner, t.amount)) fun o ↦ ?_
  · simp only [rows, List.map_map, List.map_append, List.sum_append] at htotal
    change 0 ≤ w.totalOf b _ + w.totalOf b _ at htotal
    omega
  · have ho := h o
    rw [List.filter_map, List.map_map]
    simp only [rows, List.filter_append, List.map_append, List.sum_append]
    change 0 ≤ w.sumOf b _ o + w.sumOf b _ o
    rw [debited, credited] at ho
    omega

/-! Posting. -/

/-- A post adds its fresh rows, or refuses and adds nothing. -/
theorem World.post_rows (legs : List (LedgerLeg LedgerKey)) (h : w.ledger.Sound) : (w.post legs).ledger.Sound ∧
    ((∃ e, (w.postResult legs).1 = .error e) ∧ (w.post legs).ledger = w.ledger ∨
      (∃ r, (w.postResult legs).1 = .ok r) ∧ (w.post legs).ledger.transactions =
        w.ledger.transactions ++ freshRows w.ledger.keys legs) :=
  transact_rows _ _ h

/-- A post that goes through moves every balance by its fresh rows. -/
theorem World.post_balance (h : w.ledger.Sound)
    (hrows : (w.post legs).ledger.transactions =
      w.ledger.transactions ++ freshRows w.ledger.keys legs) (o : WalletOwner) :
    (w.post legs).ledger.balanceOf o = w.ledger.balanceOf o +
      (((freshRows w.ledger.keys legs).filter (·.owner = o)).map (·.amount)).sum := by
  rw [(World.post_rows _ h).1.balance, h.balance, Ledger.sumOf, hrows, List.filter_append,
    List.map_append, List.sum_append]
  rfl

theorem World.mem_keys_post (h : w.ledger.Sound) {key : LedgerKey} (hk : key ∈ w.ledger.keys) :
    key ∈ (w.post legs).ledger.keys := by
  rcases (World.post_rows _ h).2 with ⟨-, heq⟩ | ⟨-, hrows⟩
  · rw [heq]
    exact hk
  · rw [Ledger.keys, hrows, List.map_append]
    exact List.mem_append_left _ hk

theorem rowsOf_append {w' : World} {rows : List (WalletTransaction LedgerKey)}
    (h : w'.ledger.transactions = w.ledger.transactions ++ rows) :
    w'.rowsOf b p = w.rowsOf b p ++ rows.filter fun t ↦ t.refId = some (.booking b) && p t.type := by
  simp [World.rowsOf, h]

theorem sumOf_append {w' : World} {rows : List (WalletTransaction LedgerKey)}
    (h : w'.ledger.transactions = w.ledger.transactions ++ rows) :
    w'.sumOf b p o = w.sumOf b p o + (((rows.filter (·.owner = o)).filter fun t ↦
      t.refId = some (.booking b) && p t.type).map (·.amount)).sum := by
  rw [World.sumOf, rowsOf_append h, List.filter_append, List.map_append, List.sum_append,
    List.filter_comm]
  rfl

/-- At most one element of a list has a given image that no two share. -/
theorem filter_image {α β : Type} [DecidableEq β] {f : α → β} {l : List α} (h : (l.map f).Nodup)
    (y : β) : (l.filter (f · = y) = [] ∧ ∀ a ∈ l, f a ≠ y) ∨
      ∃ a ∈ l, f a = y ∧ l.filter (f · = y) = [a] := by
  induction l with
  | nil => exact .inl ⟨rfl, by simp⟩
  | cons a l ih =>
    rw [List.map_cons, List.nodup_cons] at h
    by_cases ha : f a = y
    · right
      refine ⟨a, List.mem_cons_self, ha, ?_⟩
      rw [List.filter_cons_of_pos (by simpa using ha), List.cons_eq_cons]
      refine ⟨rfl, ?_⟩
      rw [List.filter_eq_nil_iff]
      intro a' ha' hy
      apply h.1
      rw [ha, ← (by simpa using hy : f a' = y)]
      exact List.mem_map_of_mem ha'
    · rw [List.filter_cons_of_neg (by simpa using ha)]
      rcases ih h.2 with ⟨hnil, hne⟩ | ⟨a', ha', hy, heq⟩
      · exact .inl ⟨hnil, List.forall_mem_cons.mpr ⟨ha, hne⟩⟩
      · exact .inr ⟨a', List.mem_cons_of_mem _ ha', hy, heq⟩

/-! Refund rows. -/

/-- What a refund row keeps once it is in. -/
def RefundRow.fixed (r : RefundRow) : RefundRow :=
  { r with
    status := .pending
    gatewayRef := none
    failureReason := none
    processedAt := none
    updatedAt := 0 }

theorem RefundRow.of_fixed {α : Type} {r r' : RefundRow} (f : RefundRow → α)
    (hf : ∀ r, f r.fixed = f r) (h : r.fixed = r'.fixed) : f r = f r' := by
  rw [← hf r, ← hf r', h]

variable {l : Step} {id : ℕ} {r : RefundRow}

namespace World

theorem updateRefund_fixed {f : RefundRow → RefundRow} (hf : ∀ r, (f r).fixed = r.fixed) :
    ∃ g, (w.updateRefund id f).refunds = w.refunds.map g ∧ ∀ r : RefundRow, (g r).fixed = r.fixed := by
  refine ⟨_, rfl, fun r ↦ ?_⟩
  split_ifs
  · exact hf r
  · rfl

theorem run_refunds_fixed (hi : ∀ r seen, l ≠ .insertRefund r seen) :
    ∃ g, (w.run l).refunds = w.refunds.map g ∧ ∀ r : RefundRow, (g r).fixed = r.fixed := by
  by_cases ht : l.table = .refunds
  · cases l with
    | insertRefund r seen => exact absurd rfl (hi r seen)
    | refundAnswered | refundFailed | refundProcessed => exact updateRefund_fixed fun _ ↦ rfl
    | refundConfirmed ref =>
      refine ⟨_, rfl, fun r ↦ ?_⟩
      split_ifs <;> rfl
    | _ => cases ht
  · exact ⟨id, by rw [run_refunds ht, List.map_id], fun _ ↦ rfl⟩

/-- A refund keeps its row, and the row what is fixed of it. -/
theorem run_refund (hi : ∀ r seen, l ≠ .insertRefund r seen) (id : ℕ) :
    ((w.run l).refund id).map RefundRow.fixed = (w.refund id).map RefundRow.fixed := by
  obtain ⟨g, hg, hfixed⟩ := run_refunds_fixed (w := w) hi
  have hid : ((fun r : RefundRow ↦ decide (r.id = id)) ∘ g) = fun r ↦ decide (r.id = id) := by
    funext r
    have : (g r).id = r.id := RefundRow.of_fixed (·.id) (fun _ ↦ rfl) (hfixed r)
    simp [this]
  rw [refund, refund, hg, List.find?_map, hid, Option.map_map]
  congr 1
  funext r
  exact hfixed r

/-- Refunds are numbered in the order they came. -/
def RefundsNumbered (w : World) : Prop := w.refunds.map (·.id) = List.range w.refunds.length

theorem run_refundsNumbered (hi : ∀ r seen, l ≠ .insertRefund r seen) (h : w.RefundsNumbered) :
    (w.run l).RefundsNumbered := by
  obtain ⟨g, hg, hfixed⟩ := run_refunds_fixed (w := w) hi
  have hid : (·.id) ∘ g = fun r : RefundRow ↦ r.id :=
    funext fun r ↦ RefundRow.of_fixed (·.id) (fun _ ↦ rfl) (hfixed r)
  rw [RefundsNumbered, hg, List.map_map, hid, List.length_map]
  exact h

theorem RefundsNumbered.insert (h : w.RefundsNumbered) {x : NewRefund} :
    (w.createRefund x).RefundsNumbered := by
  rcases createRefund_eq (w := w) x with heq | ⟨-, heq⟩
  · rwa [heq]
  · simp [RefundsNumbered, heq, newRefund, List.range_succ, show w.refunds.map (·.id) = _ from h]

theorem refund_insert (h : w.RefundsNumbered) {x : NewRefund}
    (hok : w.insertRefund x = .ok (some id)) :
    (w.createRefund x).refund id = some (w.newRefund x) := by
  have hid : id = w.refunds.length := by
    unfold insertRefund at hok
    split_ifs at hok
    · cases hok
    · exact (Option.some.inj (Except.ok.inj hok)).symm
  subst hid
  have hnone : w.refunds.find? (·.id = w.refunds.length) = none := by
    rw [List.find?_eq_none]
    intro r hr heq
    have hmem : r.id ∈ w.refunds.map (·.id) := List.mem_map_of_mem hr
    rw [h, List.mem_range] at hmem
    simp only [decide_eq_true_eq] at heq
    omega
  simp only [createRefund, hok]
  simp [refund, List.find?_append, hnone, newRefund]

end World

/-! The shares of a clawback. -/

variable {share pool left : ℤ} {cs : List (WalletOwner × ℤ)}

theorem shares_owners : (shares share pool left cs).map (·.1) = cs.map (·.1) := by
  induction cs generalizing left with
  | nil => rfl
  | cons c cs ih =>
    cases cs with
    | nil => rfl
    | cons c' cs => exact congrArg (c.1 :: ·) ih

/-- Between a driver and a fleet, neither gives back more than it holds, nor less
than nothing, while they hold the share together. -/
theorem shares_le (hlen : cs.length ≤ 2) (hpos : ∀ c ∈ cs, 0 < c.2) (h0 : 0 ≤ share)
    (hpool : pool = (cs.map (·.2)).sum) (hle : share ≤ pool) :
    ∀ x ∈ shares share pool share cs, ∃ c ∈ cs, c.1 = x.1 ∧ 0 ≤ x.2 ∧ x.2 ≤ c.2 := by
  match cs with
  | [] => intro x hx; cases hx
  | [c] =>
    simp only [List.map_cons, List.map_nil, List.sum_singleton] at hpool
    simp only [shares, List.mem_singleton]
    rintro x rfl
    exact ⟨c, rfl, rfl, h0, by omega⟩
  | [c, c'] =>
    simp only [List.map_cons, List.map_nil, List.sum_cons, List.sum_nil, add_zero] at hpool
    have hc := hpos c (by simp)
    have hc' := hpos c' (by simp)
    have hp : 0 < pool := by omega
    have h1 : 0 ≤ roundDiv (share * c.2) pool := roundDiv_nonneg hp (by positivity)
    have h2 : roundDiv (share * c.2) pool ≤ c.2 := by
      apply roundDiv_le hp
      nlinarith
    have h3 : share - c'.2 ≤ roundDiv (share * c.2) pool := by
      apply le_roundDiv hp
      subst hpool
      nlinarith
    have h4 : roundDiv (share * c.2) pool ≤ share := by
      apply roundDiv_le hp
      nlinarith
    simp only [shares, List.mem_cons, List.not_mem_nil, or_false]
    rintro x (rfl | rfl)
    · exact ⟨c, by simp, rfl, h1, h2⟩
    · exact ⟨c', by simp, rfl, by dsimp only; omega, by dsimp only; omega⟩
  | _ :: _ :: _ :: _ => simp at hlen

end Towing.Money
