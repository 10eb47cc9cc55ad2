import Towing.Process.Basic
import Mathlib.Tactic.SplitIfs

namespace Towing.Process

variable {ℓ σ ε α β : Type} [Store ℓ σ]

/-- Every step the request can take has a label in `P`. -/
def Proc.Only (P : ℓ → Prop) : Proc ℓ σ ε α → Prop
  | .done _ => True
  | .step l next => P l ∧ ∀ s, Only P (next s)

namespace Proc.Only

omit [Store ℓ σ]

variable {P Q : ℓ → Prop}

@[simp] theorem done (r : Except ε α) : Only P (Proc.done r : Proc ℓ σ ε α) := trivial

@[simp] theorem attempt_iff (l : ℓ) (f : σ → Except ε α) : Only P (attempt l f) ↔ P l :=
  ⟨fun h ↦ h.1, fun h ↦ ⟨h, fun _ ↦ trivial⟩⟩

@[simp] theorem query_iff (l : ℓ) (f : σ → α) : Only P (query l f : Proc ℓ σ ε α) ↔ P l :=
  attempt_iff l _

@[simp] theorem write_iff (l : ℓ) : Only P (write l : Proc ℓ σ ε Unit) ↔ P l := attempt_iff l _

theorem mono {p : Proc ℓ σ ε α} (h : Only P p) (hPQ : ∀ l, P l → Q l) : Only Q p := by
  induction p with
  | done r => trivial
  | step l next ih => exact ⟨hPQ l h.1, fun s ↦ ih s (h.2 s)⟩

theorem and {p : Proc ℓ σ ε α} (hp : Only P p) (hq : Only Q p) : Only (fun l ↦ P l ∧ Q l) p := by
  induction p with
  | done r => trivial
  | step l next ih => exact ⟨⟨hp.1, hq.1⟩, fun s ↦ ih s (hp.2 s) (hq.2 s)⟩

theorem bind {p : Proc ℓ σ ε α} {f : α → Proc ℓ σ ε β} (hp : Only P p) (hf : ∀ a, Only P (f a)) :
    Only P (p.bind f) := by
  induction p with
  | done r =>
    cases r with
    | ok a => exact hf a
    | error e => trivial
  | step l next ih => exact ⟨hp.1, fun s ↦ ih s (hp.2 s)⟩

theorem handle {p : Proc ℓ σ ε α} {h : ε → Proc ℓ σ ε α} (hp : Only P p) (hh : ∀ e, Only P (h e)) :
    Only P (p.handle h) := by
  induction p with
  | done r =>
    cases r with
    | ok a => trivial
    | error e => exact hh e
  | step l next ih => exact ⟨hp.1, fun s ↦ ih s (hp.2 s)⟩

theorem ignore {p : Proc ℓ σ ε α} (hp : Only P p) : Only P p.ignore := hp.bind fun _ ↦ trivial

theorem when {c : Prop} [Decidable c] {p : Proc ℓ σ ε Unit} (hp : Only P p) : Only P (when c p) := by
  unfold Proc.when
  split_ifs
  · exact hp
  · trivial

end Proc.Only

/-- What a request may assume and must promise. `rely` bounds what the others do
between two of its steps, `cond` restricts the steps under consideration, and
`guar` is promised of every step in the state that commits it. -/
structure Contract (ℓ σ : Type) where
  inv : σ → Prop
  rely : σ → σ → Prop
  cond : ℓ → σ → Prop
  guar : ℓ → σ → Prop

namespace Contract

variable (c : Contract ℓ σ)

/-- The steps that keep `guar` keep `inv`. -/
structure Preserves : Prop where
  refl : ∀ s, c.rely s s
  inv_commit : ∀ l s, c.inv s → c.cond l s → c.guar l s → c.inv (Store.commit l s)

/-- They also stay within `rely`. -/
structure Sound : Prop extends c.Preserves where
  trans : ∀ s t u, c.rely s t → c.rely t u → c.rely s u
  rely_commit : ∀ l s, c.inv s → c.cond l s → c.guar l s → c.rely s (Store.commit l s)

/-- The request keeps the contract from the state it last saw on, and answers
within `Φ`. -/
def Meets (Φ : Except ε α → σ → Prop) : Proc ℓ σ ε α → σ → Prop
  | .done r, s => Φ r s
  | .step l next, s => ∀ t, c.rely s t → c.inv t → c.cond l t →
      c.guar l t ∧ Meets Φ (next t) (Store.commit l t)

variable {c}

@[simp] theorem meets_done (Φ : Except ε α → σ → Prop) (r : Except ε α) (s : σ) :
    c.Meets Φ (.done r) s ↔ Φ r s := Iff.rfl

theorem Meets.mono {Φ Q : Except ε α → σ → Prop} {p : Proc ℓ σ ε α} {s : σ}
    (h : c.Meets Φ p s) (hΦ : ∀ r t, Φ r t → Q r t) : c.Meets Q p s := by
  induction p generalizing s with
  | done r => exact hΦ r s h
  | step l next ih =>
    intro t hr hi hc
    obtain ⟨hg, hn⟩ := h t hr hi hc
    exact ⟨hg, ih t hn⟩

theorem meets_bind (Φ : Except ε β → σ → Prop) (p : Proc ℓ σ ε α) (f : α → Proc ℓ σ ε β) (s : σ) :
    c.Meets Φ (p.bind f) s ↔
      c.Meets (fun r t ↦ match r with
        | .ok a => c.Meets Φ (f a) t
        | .error e => Φ (.error e) t) p s := by
  induction p generalizing s with
  | done r => cases r <;> rfl
  | step l next ih =>
    simp only [Proc.bind, Meets]
    exact forall_congr' fun t ↦ forall_congr' fun _ ↦ forall_congr' fun _ ↦ forall_congr' fun _ ↦
      and_congr_right fun _ ↦ ih t (Store.commit l t)

theorem meets_handle (Φ : Except ε α → σ → Prop) (p : Proc ℓ σ ε α) (h : ε → Proc ℓ σ ε α) (s : σ) :
    c.Meets Φ (p.handle h) s ↔
      c.Meets (fun r t ↦ match r with
        | .ok a => Φ (.ok a) t
        | .error e => c.Meets Φ (h e) t) p s := by
  induction p generalizing s with
  | done r => cases r <;> rfl
  | step l next ih =>
    simp only [Proc.handle, Meets]
    exact forall_congr' fun t ↦ forall_congr' fun _ ↦ forall_congr' fun _ ↦ forall_congr' fun _ ↦
      and_congr_right fun _ ↦ ih t (Store.commit l t)

/-- The sequencing rule: what the first part answers is what the second starts from. -/
theorem Meets.bind {Φ : Except ε β → σ → Prop} {Q : Except ε α → σ → Prop} {p : Proc ℓ σ ε α}
    {f : α → Proc ℓ σ ε β} {s : σ} (hp : c.Meets Q p s)
    (hok : ∀ a t, Q (.ok a) t → c.Meets Φ (f a) t)
    (herr : ∀ e t, Q (.error e) t → Φ (.error e) t) : c.Meets Φ (p.bind f) s := by
  rw [meets_bind]
  refine hp.mono fun r t hr ↦ ?_
  cases r with
  | ok a => exact hok a t hr
  | error e => exact herr e t hr

theorem Meets.handle {Φ Q : Except ε α → σ → Prop} {p : Proc ℓ σ ε α} {h : ε → Proc ℓ σ ε α}
    {s : σ} (hp : c.Meets Q p s) (hok : ∀ a t, Q (.ok a) t → Φ (.ok a) t)
    (herr : ∀ e t, Q (.error e) t → c.Meets Φ (h e) t) : c.Meets Φ (p.handle h) s := by
  rw [meets_handle]
  refine hp.mono fun r t hr ↦ ?_
  cases r with
  | ok a => exact hok a t hr
  | error e => exact herr e t hr

@[simp] theorem meets_attempt (Φ : Except ε α → σ → Prop) (l : ℓ) (f : σ → Except ε α) (s : σ) :
    c.Meets Φ (Proc.attempt l f) s ↔ ∀ t, c.rely s t → c.inv t → c.cond l t →
      c.guar l t ∧ Φ (f t) (Store.commit l t) := Iff.rfl

@[simp] theorem meets_query (Φ : Except ε α → σ → Prop) (l : ℓ) (f : σ → α) (s : σ) :
    c.Meets Φ (Proc.query l f) s ↔ ∀ t, c.rely s t → c.inv t → c.cond l t →
      c.guar l t ∧ Φ (.ok (f t)) (Store.commit l t) := Iff.rfl

@[simp] theorem meets_write (Φ : Except ε Unit → σ → Prop) (l : ℓ) (s : σ) :
    c.Meets Φ (Proc.write l) s ↔ ∀ t, c.rely s t → c.inv t → c.cond l t →
      c.guar l t ∧ Φ (.ok ()) (Store.commit l t) := Iff.rfl

theorem Meets.when {Φ : Except ε Unit → σ → Prop} {q : Prop} [Decidable q] {p : Proc ℓ σ ε Unit}
    {s : σ} (h : q → c.Meets Φ p s) (h' : ¬q → Φ (.ok ()) s) : c.Meets Φ (Proc.when q p) s := by
  unfold Proc.when
  split_ifs with hq
  · exact h hq
  · exact h' hq

/-- A request of harmless steps keeps whatever they and the others keep. -/
theorem Meets.of_only {P : ℓ → Prop} {R : σ → Prop} {p : Proc ℓ σ ε α} {s : σ} (h : p.Only P)
    (hP : ∀ l t, P l → c.inv t → c.cond l t → R t → c.guar l t ∧ R (Store.commit l t))
    (hR : ∀ s t, c.rely s t → R s → R t) (hs : R s) : c.Meets (fun _ t ↦ R t) p s := by
  induction p generalizing s with
  | done r => exact hs
  | step l next ih =>
    intro t hr hi hc
    obtain ⟨hg, ht⟩ := hP l t h.1 hi hc (hR s t hr hs)
    exact ⟨hg, ih t (h.2 t) ht⟩

/-- The invariant, and whatever the others and the request itself may have made
of the state it started from, are there at the end. -/
theorem Meets.sound {Φ : Except ε α → σ → Prop} {p : Proc ℓ σ ε α} {s : σ} (hc : c.Sound)
    (h : c.Meets Φ p s) (hi : c.inv s) :
    c.Meets (fun r t ↦ Φ r t ∧ c.inv t ∧ c.rely s t) p s := by
  suffices H : ∀ u, c.rely u s → c.Meets (fun r t ↦ Φ r t ∧ c.inv t ∧ c.rely u t) p s from
    H s (hc.refl s)
  induction p generalizing s with
  | done r => exact fun u hu ↦ ⟨h, hi, hu⟩
  | step l next ih =>
    intro u hu t hr ht hl
    obtain ⟨hg, hn⟩ := h t hr ht hl
    have hut := hc.trans _ _ _ hu hr
    exact ⟨hg, ih t hn (hc.inv_commit l t ht hl hg) u
      (hc.trans _ _ _ hut (hc.rely_commit l t ht hl hg))⟩

theorem Meets.seq {Φ : Except ε β → σ → Prop} {Q : Except ε α → σ → Prop} {p : Proc ℓ σ ε α}
    {f : α → Proc ℓ σ ε β} {s : σ} (hp : c.Meets Q p s) (hc : c.Sound) (hi : c.inv s)
    (hok : ∀ a t, Q (.ok a) t → c.inv t → c.rely s t → c.Meets Φ (f a) t)
    (herr : ∀ e t, Q (.error e) t → Φ (.error e) t) : c.Meets Φ (p.bind f) s :=
  (hp.sound hc hi).bind (fun a t h ↦ hok a t h.1 h.2.1 h.2.2) fun e t h ↦ herr e t h.1

theorem Meets.orElse {Φ : Except ε α → σ → Prop} {Q : Except ε α → σ → Prop} {p : Proc ℓ σ ε α}
    {h : ε → Proc ℓ σ ε α} {s : σ} (hp : c.Meets Q p s) (hc : c.Sound) (hi : c.inv s)
    (hok : ∀ a t, Q (.ok a) t → Φ (.ok a) t)
    (herr : ∀ e t, Q (.error e) t → c.inv t → c.rely s t → c.Meets Φ (h e) t) :
    c.Meets Φ (p.handle h) s :=
  (hp.sound hc hi).handle (fun a t hr ↦ hok a t hr.1) fun e t hr ↦ herr e t hr.1 hr.2.1 hr.2.2

/-- What holds against more interference holds against less, beside anything else
that does. -/
theorem Meets.strengthen {Φ Q : Except ε α → σ → Prop} {rely : σ → σ → Prop}
    {guar : ℓ → σ → Prop} {p : Proc ℓ σ ε α} {s : σ} (h : c.Meets Φ p s)
    (hrely : ∀ s t, rely s t → c.rely s t)
    (h' : (⟨c.inv, rely, c.cond, guar⟩ : Contract ℓ σ).Meets Q p s) :
    (⟨c.inv, rely, c.cond, fun l s ↦ c.guar l s ∧ guar l s⟩ : Contract ℓ σ).Meets
      (fun r t ↦ Φ r t ∧ Q r t) p s := by
  induction p generalizing s with
  | done r => exact ⟨h, h'⟩
  | step l next ih =>
    intro t hr hi hc
    obtain ⟨hg, hn⟩ := h t (hrely s t hr) hi hc
    obtain ⟨hg', hn'⟩ := h' t hr hi hc
    exact ⟨⟨hg, hg'⟩, ih t hn hn'⟩

/-- A request that keeps the contract keeps it after losing its answer. -/
theorem Meets.ignore {Φ : Except ε α → σ → Prop} {p : Proc ℓ σ ε α} {s : σ}
    (h : c.Meets Φ p s) : c.Meets (fun _ _ ↦ True) p.ignore s :=
  h.bind (fun _ _ _ ↦ trivial) (fun _ _ _ ↦ trivial)

end Contract

end Towing.Process
