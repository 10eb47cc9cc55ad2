import Towing.Process.Runs

namespace Towing.Process

variable {ℓ ℓ' σ σ' ε α β : Type}

/-- A request to a part of the store, as a request to the whole of it. -/
def Proc.lift (inj : ℓ → ℓ') (view : σ' → σ) : Proc ℓ σ ε α → Proc ℓ' σ' ε α
  | .done r => .done r
  | .step l next => .step (inj l) fun s ↦ (next (view s)).lift inj view

/-- The steps `inj` names write in the part what they would write there alone,
and nothing beside it. -/
structure Embeds [Store ℓ σ] [Store ℓ' σ'] (inj : ℓ → ℓ') (view : σ' → σ)
    (put : σ' → σ → σ') : Prop where
  commit : ∀ l s, Store.commit (inj l) s = put s (Store.commit l (view s))
  view_put : ∀ s t, view (put s t) = t
  put_put : ∀ s t u, put (put s t) u = put s u
  put_view : ∀ s, put s (view s) = s

variable {inj : ℓ → ℓ'} {view : σ' → σ} {put : σ' → σ → σ'}

namespace Proc

theorem Only.lift {P : ℓ' → Prop} {p : Proc ℓ σ ε α} (h : p.Only fun l ↦ P (inj l)) :
    (p.lift inj view : Proc ℓ' σ' ε α).Only P := by
  induction p with
  | done r => trivial
  | step l next ih => exact ⟨h.1, fun s ↦ ih (view s) (h.2 (view s))⟩

variable [Store ℓ σ] [Store ℓ' σ']

theorem exec_lift (h : Embeds inj view put) (p : Proc ℓ σ ε α) (s : σ') :
    (p.lift inj view : Proc ℓ' σ' ε α).exec s = ((p.exec (view s)).1, put s (p.exec (view s)).2) := by
  induction p generalizing s with
  | done r => simp [lift, exec, h.put_view]
  | step l next ih =>
    have := ih (view s) (Store.commit (inj l) s)
    rw [h.commit, h.view_put, h.put_put] at this
    simpa [lift, exec, h.commit] using this

end Proc

/-- What a request keeps of the part, it keeps of the part of the whole. -/
theorem Contract.Meets.lift [Store ℓ σ] [Store ℓ' σ'] {c : Contract ℓ σ} {c' : Contract ℓ' σ'}
    {Φ : Except ε α → σ → Prop} {p : Proc ℓ σ ε α} {s : σ'} (he : Embeds inj view put)
    (h : c.Meets Φ p (view s)) (hrely : ∀ s t, c'.rely s t → c.rely (view s) (view t))
    (hinv : ∀ s, c'.inv s → c.inv (view s))
    (hcond : ∀ l s, c'.cond (inj l) s → c.cond l (view s))
    (hguar : ∀ l s, c'.inv s → c.guar l (view s) → c'.guar (inj l) s) :
    c'.Meets (fun r t ↦ Φ r (view t)) (p.lift inj view) s := by
  induction p generalizing s with
  | done r => exact h
  | step l next ih =>
    intro t hr hi hc
    obtain ⟨hg, hn⟩ := h (view t) (hrely s t hr) (hinv t hi) (hcond l t hc)
    refine ⟨hguar l t hi hg, ih (view t) ?_⟩
    rwa [he.commit, he.view_put]

end Towing.Process
