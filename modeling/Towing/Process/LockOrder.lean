import Towing.Process.Transaction
import Mathlib.Data.Set.Finite.Lemmas

namespace Towing.Process

variable {ℓ σ ε α β ρ ι κ : Type} [Store ℓ σ]

/-- At most `n` statements are left, whatever they find. -/
def Proc.EndsIn : ℕ → Proc ℓ σ ε α → Prop
  | _, .done _ => True
  | 0, .step _ _ => False
  | n + 1, .step _ next => ∀ s, (next s).EndsIn n

omit [Store ℓ σ] in
theorem Proc.endsIn_done {n : ℕ} (r : Except ε α) : (Proc.done r : Proc ℓ σ ε α).EndsIn n := by
  cases n <;> trivial

omit [Store ℓ σ] in
theorem Proc.EndsIn.mono {p : Proc ℓ σ ε α} {n m : ℕ} (h : p.EndsIn n) (hnm : n ≤ m) : p.EndsIn m := by
  induction p generalizing n m with
  | done r => exact Proc.endsIn_done r
  | step l next ih =>
    cases n with
    | zero => exact h.elim
    | succ n =>
      obtain ⟨m, rfl⟩ := Nat.exists_eq_add_of_lt hnm
      intro s
      exact ih s (h s) (by omega)

omit [Store ℓ σ] in
theorem Proc.EndsIn.bind {p : Proc ℓ σ ε α} {f : α → Proc ℓ σ ε β} {n m : ℕ} (hp : p.EndsIn n)
    (hf : ∀ a, (f a).EndsIn m) : (p.bind f).EndsIn (n + m) := by
  induction p generalizing n with
  | done r =>
    cases r with
    | ok a => exact (hf a).mono (Nat.le_add_left m n)
    | error e => exact Proc.endsIn_done _
  | step l next ih =>
    cases n with
    | zero => exact hp.elim
    | succ n =>
      rw [Nat.add_right_comm]
      intro s
      exact ih s (hp s)

/-- How locks are ranked. A guarded lock is only asked for by who holds its guard. -/
structure LockOrder (ρ κ : Type) where
  rank : ρ → κ
  guard : ρ → Option ρ

/-- Who holds `H` may ask for `r`: it is above what they hold, or they hold its guard. -/
def LockOrder.Admits [LT κ] (R : LockOrder ρ κ) (H : Set ρ) (r : ρ) : Prop :=
  match R.guard r with
  | some g => g ∈ H
  | none => ∀ r' ∈ H, R.guard r' = none → R.rank r' < R.rank r

/-- Where `I` holds, whoever holds `H` and runs on asks for locks in their order. -/
def Proc.Ascends [LT κ] (D : Locking ℓ σ ρ) (R : LockOrder ρ κ) (I : σ → Prop) : Proc ℓ σ ε α → Set ρ → Prop
  | .done _, _ => True
  | .step l next, H => ∀ s, I s →
      (∀ r ∈ D.need l s, r ∈ H ∨ R.Admits H r) ∧ Proc.Ascends D R I (next s) (H ∪ D.need l s)

section Drain

variable [LinearOrder κ] {body : ι → Proc ℓ σ ε α} {D : Locking ℓ σ ρ} {R : LockOrder ρ κ} {I : σ → Prop}
  {s₀ s : σ} {os : List (Open ℓ σ ε α ρ ι)} {es : List (Event (ι × Except ε α) σ)}

/-- An open transaction that goes on in the order of the locks. -/
structure Open.Ordered (D : Locking ℓ σ ρ) (R : LockOrder ρ κ) (I : σ → Prop) (o : Open ℓ σ ε α ρ ι) : Prop where
  writes : ∀ s, I s → I (o.writes s)
  ascends : o.rest.Ascends D R I o.held
  guarded : ∀ r ∈ o.held, ∀ g, R.guard r = some g → g ∈ o.held

theorem Open.Ordered.statement {i : ι} {l : ℓ} {next : σ → Proc ℓ σ ε α} {w : σ → σ} {H : Set ρ}
    (hkeeps : ∀ (l : ℓ) s, I s → I (Store.commit l s)) (hs : I s) (h : Open.Ordered D R I ⟨i, .step l next, w, H⟩) :
    Open.Ordered D R I ⟨i, next (w s), Store.commit l ∘ w, H ∪ D.need l (w s)⟩ := by
  obtain ⟨hneed, hnext⟩ := h.ascends (w s) (h.writes s hs)
  refine ⟨fun t ht ↦ hkeeps l _ (h.writes t ht), hnext, fun r hr g hg ↦ ?_⟩
  rcases hr with hr | hr
  · exact .inl (h.guarded r hr g hg)
  · rcases hneed r hr with hr | hadmits
    · exact .inl (h.guarded r hr g hg)
    · unfold LockOrder.Admits at hadmits
      rw [hg] at hadmits
      exact .inl hadmits

theorem Transactions.ordered (h₀ : I s₀) (hkeeps : ∀ (l : ℓ) s, I s → I (Store.commit l s))
    (hbody : ∀ i, (body i).Ascends D R I ∅) (h : Transactions body D s₀ os s es) :
    I s ∧ ∀ o ∈ os, o.Ordered D R I := by
  induction h with
  | start => exact ⟨h₀, by simp⟩
  | begin i _ ih =>
    refine ⟨ih.1, List.forall_mem_append.mpr ⟨ih.2, List.forall_mem_singleton.mpr ?_⟩⟩
    exact ⟨fun _ hs ↦ hs, hbody i, fun r hr ↦ absurd hr (Set.notMem_empty r)⟩
  | statement _ _ ih =>
    obtain ⟨hs, hos⟩ := ih
    rw [List.forall_mem_append, List.forall_mem_cons] at hos ⊢
    exact ⟨hs, hos.1, hos.2.1.statement hkeeps hs, hos.2.2⟩
  | commit _ ih =>
    obtain ⟨hs, hos⟩ := ih
    exact ⟨(hos _ (List.mem_append_right _ List.mem_cons_self)).writes _ hs,
      fun o ho ↦ hos o (mem_of_mem_rest ho)⟩
  | rollback _ ih | abort _ ih => exact ⟨ih.1, fun o ho ↦ ih.2 o (mem_of_mem_rest ho)⟩

theorem Transactions.endsIn (hends : ∀ i, ∃ n, (body i).EndsIn n) (h : Transactions body D s₀ os s es) :
    ∀ o ∈ os, ∃ n, o.rest.EndsIn n := by
  induction h with
  | start => simp
  | begin i _ ih => exact List.forall_mem_append.mpr ⟨ih, List.forall_mem_singleton.mpr (hends i)⟩
  | @statement _ _ s _ _ _ _ w _ _ _ ih =>
    rw [List.forall_mem_append, List.forall_mem_cons] at ih ⊢
    refine ⟨ih.1, ?_, ih.2.2⟩
    obtain ⟨n, hn⟩ := ih.2.1
    cases n with
    | zero => exact hn.elim
    | succ n => exact ⟨n, hn (w s)⟩
  | commit _ ih | rollback _ ih | abort _ ih => exact fun o ho ↦ ih o (mem_of_mem_rest ho)

omit [Store ℓ σ] in
/-- What `o` waits for at `s`, another transaction holding it, is unguarded and above all the
unguarded locks that `o` holds. -/
theorem Open.Ordered.waits {o o' : Open ℓ σ ε α ρ ι} {l : ℓ} {next : σ → Proc ℓ σ ε α} {r : ρ}
    (ho : o.Ordered D R I) (ho' : o'.Ordered D R I) (hs : I s) (hapart : Disjoint o.held o'.held)
    (hrest : o.rest = .step l next) (hr : r ∈ D.need l (o.writes s)) (hr' : r ∈ o'.held) :
    R.guard r = none ∧ ∀ r' ∈ o.held, R.guard r' = none → R.rank r' < R.rank r := by
  have hascends := ho.ascends
  rw [hrest] at hascends
  have hnot : r ∉ o.held := fun h ↦ Set.disjoint_left.mp hapart h hr'
  have hadmits := ((hascends _ (ho.writes s hs)).1 r hr).resolve_left hnot
  unfold LockOrder.Admits at hadmits
  cases hguard : R.guard r with
  | none =>
    rw [hguard] at hadmits
    exact ⟨rfl, hadmits⟩
  | some g =>
    rw [hguard] at hadmits
    exact absurd (ho'.guarded r hr' g hguard) (Set.disjoint_left.mp hapart hadmits)

/-- Where the locks are asked for in their order, somebody can always go on. -/
theorem Transactions.progress (hobeys : ∀ i, D.Obeys (body i)) (h₀ : I s₀)
    (hkeeps : ∀ (l : ℓ) s, I s → I (Store.commit l s)) (hbody : ∀ i, (body i).Ascends D R I ∅)
    (h : Transactions body D s₀ os s es) (hos : os ≠ []) :
    ∃ os₁ o os₂, os = os₁ ++ o :: os₂ ∧
      ∀ l next, o.rest = .step l next → ∀ o' ∈ os₁ ++ os₂, Disjoint (D.need l (o.writes s)) o'.held := by
  by_contra hstuck
  push Not at hstuck
  obtain ⟨hs, hordered⟩ := h.ordered h₀ hkeeps hbody
  have hexclusive := (h.serializable hobeys).1.1
  have hwaits : ∀ o ∈ os, ∃ r, (∀ r' ∈ o.held, R.guard r' = none → R.rank r' < R.rank r) ∧
      R.guard r = none ∧ ∃ o' ∈ os, r ∈ o'.held := by
    intro o ho
    obtain ⟨os₁, os₂, rfl⟩ := List.append_of_mem ho
    obtain ⟨l, next, hrest, o', ho', hmeet⟩ := hstuck os₁ o os₂ rfl
    obtain ⟨r, hr, hr'⟩ := Set.not_disjoint_iff.mp hmeet
    have hapart := (Exclusive.middle.mp hexclusive).2 o' ho'
    obtain ⟨hguard, habove⟩ := (hordered o ho).waits (hordered o' (mem_of_mem_rest ho')) hs hapart hrest hr hr'
    exact ⟨r, habove, hguard, o', mem_of_mem_rest ho', hr'⟩
  obtain ⟨first, hfirst⟩ := List.exists_mem_of_ne_nil os hos
  have : Nonempty ρ := (hwaits first hfirst).nonempty
  choose! wanted habove hguard holder hholder hheld using hwaits
  -- Who wants the highest lock waits for somebody who wants a higher one.
  obtain ⟨o, ho, hmax⟩ := Set.exists_max_image {o | o ∈ os} (fun o ↦ R.rank (wanted o))
    (List.finite_toSet os) ⟨first, hfirst⟩
  have hlt := habove (holder o) (hholder o ho) (wanted o) (hheld o ho) (hguard o ho)
  exact absurd (hmax (holder o) (hholder o ho)) (not_le.mpr hlt)

/-- Where the locks are asked for in their order, transactions in flight all come to their ends,
none of them aborted. -/
theorem Transactions.drains (hobeys : ∀ i, D.Obeys (body i)) (h₀ : I s₀)
    (hkeeps : ∀ (l : ℓ) s, I s → I (Store.commit l s)) (hbody : ∀ i, (body i).Ascends D R I ∅)
    (hends : ∀ i, ∃ n, (body i).EndsIn n) (h : Transactions body D s₀ os s es) :
    ∃ t fs, Transactions body D s₀ [] t (es ++ fs) ∧ (fs.map (·.label.1)).Perm (os.map (·.call)) := by
  choose! left hleft using h.endsIn hends
  suffices H : ∀ n (xs : List (Open ℓ σ ε α ρ ι × ℕ)) (s : σ) (es : List (Event (ι × Except ε α) σ)),
      (xs.map fun x ↦ x.2 + 1).sum = n → (∀ x ∈ xs, x.1.rest.EndsIn x.2) →
      Transactions body D s₀ (xs.map Prod.fst) s es →
      ∃ t fs, Transactions body D s₀ [] t (es ++ fs) ∧ (fs.map (·.label.1)).Perm (xs.map (·.1.call)) by
    obtain ⟨t, fs, ht, hfs⟩ := H _ (os.map fun o ↦ (o, left o)) s es rfl
      (List.forall_mem_map.mpr hleft) (by simpa [Function.comp_def] using h)
    exact ⟨t, fs, ht, by simpa [Function.comp_def] using hfs⟩
  intro n
  induction n using Nat.strong_induction_on with
  | h n ih =>
    intro xs s es hsum hxs hrun
    rcases eq_or_ne xs [] with rfl | hne
    · exact ⟨s, [], by simpa using hrun, by simp⟩
    obtain ⟨os₁, o, os₂, hos, hfree⟩ := hrun.progress hobeys h₀ hkeeps hbody (by simpa using hne)
    obtain ⟨xs₁, xs', rfl, rfl, hxs'⟩ := List.map_eq_append_iff.mp hos
    obtain ⟨⟨o, k⟩, xs₂, rfl, rfl, rfl⟩ := List.map_eq_cons_iff.mp hxs'
    obtain ⟨hxs₁, hk, hxs₂⟩ := by simpa only [List.forall_mem_append, List.forall_mem_cons] using hxs
    have hrest : ∀ x ∈ xs₁ ++ xs₂, x.1.rest.EndsIn x.2 := List.forall_mem_append.mpr ⟨hxs₁, hxs₂⟩
    obtain ⟨i, p, w, H⟩ := o
    simp only [List.map_append, List.map_cons, List.sum_append, List.sum_cons] at hsum hrun
    cases p with
    | done r =>
      have hfewer : ((xs₁ ++ xs₂).map fun x ↦ x.2 + 1).sum < n := by
        rw [List.map_append, List.sum_append]
        omega
      cases r with
      | ok a =>
        obtain ⟨t, fs, ht, hfs⟩ := ih _ hfewer (xs₁ ++ xs₂) (w s) _ rfl hrest (by simpa using hrun.commit)
        refine ⟨t, ⟨(i, .ok a), s, w s⟩ :: fs, by simpa using ht, ?_⟩
        simpa using (hfs.cons i).trans (by simpa using List.perm_middle.symm)
      | error e =>
        obtain ⟨t, fs, ht, hfs⟩ := ih _ hfewer (xs₁ ++ xs₂) s _ rfl hrest (by simpa using hrun.rollback)
        refine ⟨t, ⟨(i, .error e), s, s⟩ :: fs, by simpa using ht, ?_⟩
        simpa using (hfs.cons i).trans (by simpa using List.perm_middle.symm)
    | step l next =>
      cases k with
      | zero => exact hk.elim
      | succ k =>
        have hstep := hrun.statement (hfree l next rfl)
        obtain ⟨t, fs, ht, hfs⟩ := ih _ (by
            simp only [List.map_append, List.map_cons, List.sum_append, List.sum_cons]
            omega)
          (xs₁ ++ (⟨i, next (w s), Store.commit l ∘ w, H ∪ D.need l (w s)⟩, k) :: xs₂) s es rfl
          (List.forall_mem_append.mpr ⟨hxs₁, List.forall_mem_cons.mpr ⟨hk (w s), hxs₂⟩⟩)
          (by simpa using hstep)
        exact ⟨t, fs, ht, by simpa using hfs⟩

end Drain

end Towing.Process
