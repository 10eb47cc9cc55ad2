import Towing.Process.Runs
import Mathlib.Order.Disjoint
import Mathlib.Data.Set.Lattice
import Mathlib.Order.CompletePartialOrder

namespace Towing.Process

variable {ℓ σ ε α β ρ ι : Type} [Store ℓ σ]

/-- What a transaction leaves when it runs alone: an error undoes its writes. -/
def Proc.transact (p : Proc ℓ σ ε α) (s : σ) : Except ε α × σ :=
  match p.exec s with
  | (.ok a, t) => (.ok a, t)
  | (.error e, _) => (.error e, s)

theorem Proc.transact_ok {p : Proc ℓ σ ε α} {a : α} {s t : σ} (h : p.transact s = (.ok a, t)) :
    p.exec s = (.ok a, t) := by
  unfold Proc.transact at h
  rcases hp : p.exec s with ⟨e | b, u⟩
  · rw [hp] at h
    cases h
  · rw [hp] at h
    exact h

theorem Proc.transact_error {p : Proc ℓ σ ε α} {e : ε} {s t : σ}
    (h : p.transact s = (.error e, t)) : t = s := by
  unfold Proc.transact at h
  rcases hp : p.exec s with ⟨e' | b, u⟩
  · rw [hp] at h
    cases h
    rfl
  · rw [hp] at h
    cases h

/-- What the first `n` steps of a request write once they have found `s`. -/
def Proc.wrote : ℕ → Proc ℓ σ ε α → σ → σ → σ
  | 0, _, _ => id
  | _ + 1, .done _, _ => id
  | n + 1, .step l next, s => (next s).wrote n (Store.commit l s) ∘ Store.commit l

/-- The locks a statement takes in the state it sees, and what those who hold
none of `H` can make of a state. -/
structure Locking (ℓ σ ρ : Type) where
  need : ℓ → σ → Set ρ
  seen : Set ρ → σ → σ → Prop
  refl : ∀ H s, seen H s s
  trans : ∀ H s t u, seen H s t → seen H t u → seen H s u
  anti : ∀ H K s t, H ⊆ K → seen K s t → seen H s t

namespace Locking

variable (D : Locking ℓ σ ρ)

/-- Every statement writes only what it locks, and under its locks answers the
same whatever the others have committed. -/
def Obeys : Proc ℓ σ ε α → Prop
  | .done _ => True
  | .step l next => (∀ s H, Disjoint (D.need l s) H → D.seen H s (Store.commit l s)) ∧
      (∀ s t H, D.need l s ⊆ H → D.seen H s t →
        D.need l t ⊆ H ∧ next t = next s ∧ D.seen H (Store.commit l s) (Store.commit l t)) ∧
      ∀ s, Obeys (next s)

variable {D}

theorem Obeys.bind {p : Proc ℓ σ ε α} {f : α → Proc ℓ σ ε β} (hp : D.Obeys p)
    (hf : ∀ a, D.Obeys (f a)) : D.Obeys (p.bind f) := by
  induction p with
  | done r =>
    cases r with
    | ok a => exact hf a
    | error e => trivial
  | step l next ih =>
    obtain ⟨hframe, hstable, hnext⟩ := hp
    refine ⟨hframe, fun s t H hn hs ↦ ?_, fun s ↦ ih s (hnext s)⟩
    obtain ⟨hneed, heq, hseen⟩ := hstable s t H hn hs
    exact ⟨hneed, congrArg (fun q ↦ q.bind f) heq, hseen⟩

end Locking

/-- A transaction between two of its statements: what is left of it, what it has
written but not committed, and the locks it holds. -/
structure Open (ℓ σ ε α ρ ι : Type) where
  call : ι
  rest : Proc ℓ σ ε α
  writes : σ → σ
  held : Set ρ

/-- The transactions of `body` in flight together. A statement sees the committed
state under the transaction's own writes, and waits for whoever holds a lock it
needs; an open transaction may be aborted anywhere. -/
inductive Transactions (body : ι → Proc ℓ σ ε α) (D : Locking ℓ σ ρ) (s₀ : σ) :
    List (Open ℓ σ ε α ρ ι) → σ → List (Event (ι × Except ε α) σ) → Prop
  | start : Transactions body D s₀ [] s₀ []
  | begin {os : List (Open ℓ σ ε α ρ ι)} {s : σ} {es : List (Event (ι × Except ε α) σ)} (i : ι) :
      Transactions body D s₀ os s es → Transactions body D s₀ (os ++ [⟨i, body i, id, ∅⟩]) s es
  | statement {os qs : List (Open ℓ σ ε α ρ ι)} {s : σ} {es : List (Event (ι × Except ε α) σ)}
      {i : ι} {l : ℓ} {next : σ → Proc ℓ σ ε α} {w : σ → σ} {H : Set ρ} :
      Transactions body D s₀ (os ++ ⟨i, .step l next, w, H⟩ :: qs) s es →
      (∀ o ∈ os ++ qs, Disjoint (D.need l (w s)) o.held) →
      Transactions body D s₀ (os ++ ⟨i, next (w s), Store.commit l ∘ w, H ∪ D.need l (w s)⟩ :: qs) s es
  | commit {os qs : List (Open ℓ σ ε α ρ ι)} {s : σ} {es : List (Event (ι × Except ε α) σ)}
      {i : ι} {a : α} {w : σ → σ} {H : Set ρ} :
      Transactions body D s₀ (os ++ ⟨i, .done (.ok a), w, H⟩ :: qs) s es →
      Transactions body D s₀ (os ++ qs) (w s) (es ++ [⟨(i, .ok a), s, w s⟩])
  | rollback {os qs : List (Open ℓ σ ε α ρ ι)} {s : σ} {es : List (Event (ι × Except ε α) σ)}
      {i : ι} {e : ε} {w : σ → σ} {H : Set ρ} :
      Transactions body D s₀ (os ++ ⟨i, .done (.error e), w, H⟩ :: qs) s es →
      Transactions body D s₀ (os ++ qs) s (es ++ [⟨(i, .error e), s, s⟩])
  | abort {os qs : List (Open ℓ σ ε α ρ ι)} {s : σ} {es : List (Event (ι × Except ε α) σ)}
      {o : Open ℓ σ ε α ρ ι} :
      Transactions body D s₀ (os ++ o :: qs) s es → Transactions body D s₀ (os ++ qs) s es

/-- Run alone from `s`, the transaction comes to `rest` having written `w`, and
never needs a lock outside `H`. -/
inductive Reaches (D : Locking ℓ σ ρ) (H : Set ρ) (p : Proc ℓ σ ε α) (s : σ) :
    Proc ℓ σ ε α → (σ → σ) → Prop
  | start : Reaches D H p s p id
  | step {l : ℓ} {next : σ → Proc ℓ σ ε α} {w : σ → σ} :
      Reaches D H p s (.step l next) w → D.need l (w s) ⊆ H →
      Reaches D H p s (next (w s)) (Store.commit l ∘ w)

variable {D : Locking ℓ σ ρ} {H K : Set ρ} {p q : Proc ℓ σ ε α} {s t : σ} {w : σ → σ}

theorem Reaches.mono (h : Reaches D H p s q w) (hK : H ⊆ K) : Reaches D K p s q w := by
  induction h with
  | start => exact .start
  | step _ hn ih => exact ih.step (hn.trans hK)

theorem Reaches.exec (h : Reaches D H p s q w) : p.exec s = q.exec (w s) := by
  induction h with
  | start => rfl
  | step _ _ ih => exact ih

theorem Reaches.obeys (h : Reaches D H p s q w) (hp : D.Obeys p) : D.Obeys q := by
  induction h with
  | start => exact hp
  | step _ _ ih => exact ih.2.2 _

/-- A transaction stays invisible to those whose locks it never needed. -/
theorem Reaches.unseen (h : Reaches D H p s q w) (hp : D.Obeys p) (hd : Disjoint H K) :
    D.seen K s (w s) := by
  induction h with
  | start => exact D.refl K s
  | step h hn ih => exact D.trans K _ _ _ ih ((h.obeys hp).1 _ K (hd.mono_left hn))

/-- The commits of others do not disturb an open transaction: run again from
whatever they leave, it comes to the same place with the same writes. -/
structure Open.Stable (body : ι → Proc ℓ σ ε α) (D : Locking ℓ σ ρ) (o : Open ℓ σ ε α ρ ι)
    (s : σ) : Prop where
  again : ∀ t, D.seen o.held s t → Reaches D o.held (body o.call) t o.rest o.writes
  seen : ∀ K t u, o.held ⊆ K → D.seen o.held s t → D.seen K t u →
    D.seen K (o.writes t) (o.writes u)

variable {body : ι → Proc ℓ σ ε α}

theorem Open.Stable.start (i : ι) (s : σ) : Open.Stable body D ⟨i, body i, id, ∅⟩ s :=
  ⟨fun _ _ ↦ .start, fun _ _ _ _ _ h ↦ h⟩

theorem Open.Stable.others {o : Open ℓ σ ε α ρ ι} (h : o.Stable body D s)
    (hs : D.seen o.held s t) : o.Stable body D t :=
  ⟨fun u hu ↦ h.again u (D.trans _ _ _ _ hs hu),
    fun K u v hK hu hv ↦ h.seen K u v hK (D.trans _ _ _ _ hs hu) hv⟩

theorem Open.Stable.statement {i : ι} {l : ℓ} {next : σ → Proc ℓ σ ε α}
    (hb : D.Obeys (body i)) (h : Open.Stable body D ⟨i, .step l next, w, H⟩ s) :
    Open.Stable body D ⟨i, next (w s), Store.commit l ∘ w, H ∪ D.need l (w s)⟩ s := by
  have hH : H ⊆ H ∪ D.need l (w s) := Set.subset_union_left
  have hstep : D.Obeys (Proc.step l next) := (h.again s (D.refl _ _)).obeys hb
  have hw (t : σ) (ht : D.seen (H ∪ D.need l (w s)) s t) :
      D.need l (w t) ⊆ H ∪ D.need l (w s) ∧ next (w t) = next (w s) := by
    have hseen := h.seen _ s t hH (D.refl _ _) ht
    obtain ⟨hn, he, -⟩ := hstep.2.1 _ _ _ Set.subset_union_right hseen
    exact ⟨hn, he⟩
  refine ⟨fun t ht ↦ ?_, fun K t u hK ht hu ↦ ?_⟩
  · obtain ⟨hn, he⟩ := hw t ht
    have hr := ((h.again t (D.anti _ _ _ _ hH ht)).mono hH).step hn
    rwa [he] at hr
  · have hseen := h.seen K t u (hH.trans hK) (D.anti _ _ _ _ hH ht) hu
    exact (hstep.2.1 _ _ K ((hw t ht).1.trans hK) hseen).2.2

/-- The locks of two open transactions never overlap. -/
def Exclusive (os : List (Open ℓ σ ε α ρ ι)) : Prop :=
  os.Pairwise fun o o' ↦ Disjoint o.held o'.held

omit [Store ℓ σ] in
theorem Exclusive.middle {os qs : List (Open ℓ σ ε α ρ ι)} {o : Open ℓ σ ε α ρ ι} :
    Exclusive (os ++ o :: qs) ↔
      Exclusive (os ++ qs) ∧ ∀ o' ∈ os ++ qs, Disjoint o.held o'.held := by
  unfold Exclusive
  rw [List.pairwise_middle fun h ↦ h.symm, List.pairwise_cons, and_comm]

theorem mem_of_mem_rest {os qs : List α} {a b : α} (h : b ∈ os ++ qs) : b ∈ os ++ a :: qs :=
  ((List.sublist_cons_self a qs).append_left os).subset h

/-- Two-phase locking: whatever the interleaving, every transaction that ends
answers and writes what it would have alone, from the state it committed on. -/
theorem Transactions.serializable {s₀ : σ} {os : List (Open ℓ σ ε α ρ ι)}
    {es : List (Event (ι × Except ε α) σ)} (hb : ∀ i, D.Obeys (body i))
    (h : Transactions body D s₀ os s es) :
    (Exclusive os ∧ ∀ o ∈ os, o.Stable body D s) ∧ Chained s₀ es s ∧
      ∀ e ∈ es, (body e.label.1).transact e.before = (e.label.2, e.after) := by
  induction h with
  | start => exact ⟨⟨.nil, by simp⟩, rfl, by simp⟩
  | begin i _ ih =>
    obtain ⟨⟨hx, hst⟩, hes⟩ := ih
    refine ⟨⟨?_, fun o ho ↦ ?_⟩, hes⟩
    · exact List.pairwise_append.mpr ⟨hx, List.pairwise_singleton _ _, by simp⟩
    · rcases List.mem_append.mp ho with ho | ho
      · exact hst o ho
      · cases List.mem_singleton.mp ho
        exact .start i _
  | @statement os qs s es i l next w H _ hfree ih =>
    obtain ⟨⟨hx, hst⟩, hes⟩ := ih
    obtain ⟨hx, hd⟩ := Exclusive.middle.mp hx
    refine ⟨⟨Exclusive.middle.mpr ⟨hx, fun o ho ↦ ?_⟩, ?_⟩, hes⟩
    · exact Set.disjoint_union_left.mpr ⟨hd o ho, hfree o ho⟩
    · have hi := (hst _ (List.mem_append_right os List.mem_cons_self)).statement (hb i)
      simp only [List.mem_append, List.mem_cons] at hst ⊢
      rintro o (ho | rfl | ho)
      · exact hst o (.inl ho)
      · exact hi
      · exact hst o (.inr (.inr ho))
  | @commit os qs s es i a w H _ ih =>
    obtain ⟨⟨hx, hst⟩, hc, hes⟩ := ih
    obtain ⟨hx, hd⟩ := Exclusive.middle.mp hx
    have hr := (hst _ (List.mem_append_right os List.mem_cons_self)).again s (D.refl _ _)
    refine ⟨⟨hx, fun o ho ↦ ?_⟩, hc.append ⟨rfl, rfl⟩, fun e he ↦ ?_⟩
    · exact (hst o (mem_of_mem_rest ho)).others (hr.unseen (hb i) (hd o ho))
    · rcases List.mem_append.mp he with he | he
      · exact hes e he
      · cases List.mem_singleton.mp he
        simp [Proc.transact, hr.exec]
  | @rollback os qs s es i e w H _ ih =>
    obtain ⟨⟨hx, hst⟩, hc, hes⟩ := ih
    obtain ⟨hx, -⟩ := Exclusive.middle.mp hx
    have hr := (hst _ (List.mem_append_right os List.mem_cons_self)).again s (D.refl _ _)
    refine ⟨⟨hx, fun o ho ↦ hst o (mem_of_mem_rest ho)⟩, hc.append ⟨rfl, rfl⟩, fun e' he ↦ ?_⟩
    rcases List.mem_append.mp he with he | he
    · exact hes e' he
    · cases List.mem_singleton.mp he
      simp [Proc.transact, hr.exec]
  | @abort os qs s es o _ ih =>
    obtain ⟨⟨hx, hst⟩, hes⟩ := ih
    obtain ⟨hx, -⟩ := Exclusive.middle.mp hx
    exact ⟨⟨hx, fun o ho ↦ hst o (mem_of_mem_rest ho)⟩, hes⟩

/-- A transaction that asks for no lock that is held runs to its end. -/
theorem Transactions.finish_past {s₀ : σ} (os : List (Open ℓ σ ε α ρ ι))
    {es : List (Event (ι × Except ε α) σ)} {i : ι} {p : Proc ℓ σ ε α} {a : α}
    (hos : ∀ e ∈ p.events (w s), ∀ o ∈ os, Disjoint (D.need e.label e.before) o.held)
    (h : Transactions body D s₀ (os ++ [⟨i, p, w, H⟩]) s es) (hp : p.exec (w s) = (.ok a, t)) :
    Transactions body D s₀ os t (es ++ [⟨(i, .ok a), s, t⟩]) := by
  induction p generalizing w H with
  | done r =>
    obtain ⟨rfl, rfl⟩ := Prod.mk.inj hp
    simpa using h.commit
  | step l next ih =>
    have hstep := h.statement fun o ho ↦ hos _ List.mem_cons_self o (by simpa using ho)
    exact ih _ (fun e he ↦ hos e (List.mem_cons_of_mem _ he)) hstep hp

/-- A transaction never waits for those that hold no locks. -/
theorem Transactions.finish {s₀ : σ} {os : List (Open ℓ σ ε α ρ ι)}
    {es : List (Event (ι × Except ε α) σ)} (hos : ∀ o ∈ os, o.held = ∅) {i : ι}
    {p : Proc ℓ σ ε α} {a : α} (h : Transactions body D s₀ (os ++ [⟨i, p, w, H⟩]) s es)
    (hp : p.exec (w s) = (.ok a, t)) :
    Transactions body D s₀ os t (es ++ [⟨(i, .ok a), s, t⟩]) :=
  h.finish_past os (fun e _ o ho ↦ (by simp [hos o ho])) hp

/-- The first `n` statements of a transaction that meets nobody. -/
theorem Transactions.advance {s₀ : σ} {es : List (Event (ι × Except ε α) σ)} {i : ι}
    {p : Proc ℓ σ ε α} (n : ℕ) (h : Transactions body D s₀ [⟨i, p, w, H⟩] s es)
    (hK : ∀ e ∈ (p.events (w s)).take n, D.need e.label e.before ⊆ K) (hH : H ⊆ K) :
    ∃ L ⊆ K, Transactions body D s₀ [⟨i, p.rest n (w s), p.wrote n (w s) ∘ w, L⟩] s es := by
  induction n generalizing p w H with
  | zero => exact ⟨H, hH, h⟩
  | succ n ih =>
    cases p with
    | done r => exact ⟨H, hH, h⟩
    | step l next =>
      have hneed := hK ⟨l, w s, Store.commit l (w s)⟩ (by simp [Proc.events])
      have hstep := Transactions.statement
        (show Transactions body D s₀ ([] ++ ⟨i, .step l next, w, H⟩ :: []) s es from h) (by simp)
      refine ih hstep (fun e he ↦ hK e ?_) (Set.union_subset hH hneed)
      rw [Proc.events, List.take_succ_cons]
      exact List.mem_cons_of_mem _ he

/-- A transaction that meets nobody never waits. -/
theorem Transactions.alone {s₀ : σ} {es : List (Event (ι × Except ε α) σ)}
    (h : Transactions body D s₀ [] s es) (i : ι) :
    Transactions body D s₀ [] ((body i).transact s).2
      (es ++ [⟨(i, ((body i).transact s).1), s, ((body i).transact s).2⟩]) := by
  suffices H : ∀ (p : Proc ℓ σ ε α) (w : σ → σ) (K : Set ρ),
      Transactions body D s₀ ([] ++ ⟨i, p, w, K⟩ :: []) s es → (body i).exec s = p.exec (w s) →
      Transactions body D s₀ [] ((body i).transact s).2
        (es ++ [⟨(i, ((body i).transact s).1), s, ((body i).transact s).2⟩]) from
    H (body i) id ∅ (h.begin i) rfl
  intro p
  induction p with
  | done r =>
    intro w K hrun he
    cases r with
    | ok a => simpa [Proc.transact, he] using hrun.commit
    | error e => simpa [Proc.transact, he] using hrun.rollback
  | step l next ih =>
    intro w K hrun he
    exact ih (w s) (Store.commit l ∘ w) _ (hrun.statement (by simp)) he

end Towing.Process
