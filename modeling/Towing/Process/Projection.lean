import Towing.Process.Moments

namespace Towing.Process

variable {ℓ ℓ' σ σ' ε ε' α β : Type} {part : ℓ' → Option ℓ} {view : σ' → σ}

/-- A request, as what it does to a part of the store: its other steps leave that part alone. -/
def Proc.Shadows (part : ℓ' → Option ℓ) (view : σ' → σ) : Proc ℓ' σ' ε' Unit → Proc ℓ σ ε Unit → Prop
  | .done _, _ => True
  | .step l next, q =>
    match part l with
    | none => ∀ s, (next s).Shadows part view q
    | some l => ∃ next', q = .step l next' ∧ ∀ s, (next s).Shadows part view (next' (view s))

/-- The commits to the part. -/
def projected (part : ℓ' → Option ℓ) (view : σ' → σ) (es : List (ℕ × Event ℓ' σ')) : List (ℕ × Event ℓ σ) :=
  es.filterMap fun x ↦ (part x.2.label).map fun l ↦ (x.1, ⟨l, view x.2.before, view x.2.after⟩)

theorem projected_append (es es' : List (ℕ × Event ℓ' σ')) :
    projected part view (es ++ es') = projected part view es ++ projected part view es' :=
  List.filterMap_append

theorem projected_part {l' : ℓ'} {l : ℓ} (h : part l' = some l) (n : ℕ) (s t : σ') :
    projected part view [(n, ⟨l', s, t⟩)] = [(n, ⟨l, view s, view t⟩)] := by
  simp [projected, h]

theorem projected_beside {l' : ℓ'} (h : part l' = none) (n : ℕ) (s t : σ') :
    projected part view [(n, ⟨l', s, t⟩)] = [] := by
  simp [projected, h]

namespace Proc.Shadows

theorem of_only {p : Proc ℓ' σ' ε' Unit} (h : p.Only fun l ↦ part l = none) (q : Proc ℓ σ ε Unit) :
    p.Shadows part view q := by
  induction p with
  | done r => trivial
  | step l next ih =>
    simp only [Shadows, h.1]
    exact fun s ↦ ih s (h.2 s)

/-- Steps beside the part come before anything. -/
theorem bind {p : Proc ℓ' σ' ε' α} {f : α → Proc ℓ' σ' ε' Unit} {q : Proc ℓ σ ε Unit}
    (hp : p.Only fun l ↦ part l = none) (hf : ∀ a, (f a).Shadows part view q) :
    (p.bind f).Shadows part view q := by
  induction p with
  | done r =>
    cases r with
    | ok a => exact hf a
    | error e => trivial
  | step l next ih =>
    simp only [Proc.bind, Shadows, hp.1]
    exact fun s ↦ ih s (hp.2 s)

theorem lift {inj : ℓ → ℓ'} (hinj : ∀ l, part (inj l) = some l) (p : Proc ℓ σ ε Unit) :
    (p.lift inj view : Proc ℓ' σ' ε Unit).Shadows part view p := by
  induction p with
  | done r => trivial
  | step l next ih =>
    simp only [Proc.lift, Shadows, hinj]
    exact ⟨next, rfl, fun s ↦ ih (view s)⟩

/-- What works on the part, and goes on beside it. -/
theorem lift_follow {inj : ℓ → ℓ'} (hinj : ∀ l, part (inj l) = some l) {p : Proc ℓ σ ε α}
    {k : Except ε α → Proc ℓ' σ' ε Unit} {g : α → Proc ℓ σ ε Unit} (hk : ∀ r, (k r).Only fun l ↦ part l = none) :
    ((p.lift inj view : Proc ℓ' σ' ε α).follow k).Shadows part view (p.bind g) := by
  induction p with
  | done r => exact of_only (hk r) _
  | step l next ih =>
    simp only [Proc.lift, follow, Shadows, hinj]
    exact ⟨fun s ↦ (next s).bind g, rfl, fun s ↦ ih (view s)⟩

end Proc.Shadows

variable [Store ℓ σ] [Store ℓ' σ']

/-- The steps of the whole store that are steps of the part, and those that leave it alone. -/
structure Projects (part : ℓ' → Option ℓ) (view : σ' → σ) : Prop where
  within : ∀ l' l s, part l' = some l → view (Store.commit l' s) = Store.commit l (view s)
  beside : ∀ l' s, part l' = none → view (Store.commit l' s) = view s

variable {Req' : Proc ℓ' σ' ε' Unit → Prop} {Req : Proc ℓ σ ε Unit → Prop}

/-- A run on the whole store is one on the part. -/
theorem Calls.projected {s₀ s : σ'} {cs : List (Call ℓ' σ' ε')} {es : List (ℕ × Event ℓ' σ')}
    (hprojects : Projects part view) (hreq : ∀ p, Req' p → ∃ q, Req q ∧ p.Shadows part view q)
    (h : Calls Req' s₀ cs s es) :
    ∃ cs', Calls Req (view s₀) cs' (view s) (projected part view es) ∧
      List.Forall₂ (fun c c' ↦ c.rest.Shadows part view c'.rest) cs cs' := by
  induction h with
  | start => exact ⟨[], .start, .nil⟩
  | @ask cs s es p _ hp ih =>
    obtain ⟨cs', h, hcs⟩ := ih
    obtain ⟨q, hq, hshadows⟩ := hreq p hp
    exact ⟨_, h.ask hq, List.rel_append hcs (.cons hshadows .nil)⟩
  | @commit cs s es n p l next _ hn ih =>
    obtain ⟨cs', h, hcs⟩ := ih
    obtain ⟨hlt, hget⟩ := List.getElem?_eq_some_iff.mp hn
    have hlt' : n < cs'.length := hcs.length_eq ▸ hlt
    have hhere : (Proc.step l next).Shadows part view cs'[n].rest := by
      have := hcs.get hlt hlt'
      rw [List.get_eq_getElem, List.get_eq_getElem, hget] at this
      exact this
    have hset (c : Call ℓ' σ' ε') (c' : Call ℓ σ ε) (hc : c.rest.Shadows part view c'.rest) :
        List.Forall₂ (fun c c' ↦ c.rest.Shadows part view c'.rest) (cs.set n c) (cs'.set n c') := by
      refine List.forall₂_iff_get.mpr ⟨by simp [hcs.length_eq], fun i hi hi' ↦ ?_⟩
      simp only [List.get_eq_getElem, List.getElem_set]
      split_ifs
      · exact hc
      · exact hcs.get (by simpa using hi) (by simpa using hi')
    cases hl : part l with
    | none =>
      simp only [Proc.Shadows, hl] at hhere
      refine ⟨cs', ?_, ?_⟩
      · rw [projected_append, projected_beside hl, List.append_nil, hprojects.beside l s hl]
        exact h
      · have := hset ⟨p, next s⟩ cs'[n] (hhere s)
        rwa [List.set_getElem_self] at this
    | some l' =>
      simp only [Proc.Shadows, hl] at hhere
      obtain ⟨next', heq, hnext⟩ := hhere
      have hn' : cs'[n]? = some ⟨cs'[n].asked, .step l' next'⟩ := by
        rw [List.getElem?_eq_getElem hlt', ← heq]
      refine ⟨cs'.set n ⟨cs'[n].asked, next' (view s)⟩, ?_, hset _ _ (hnext s)⟩
      rw [projected_append, projected_part hl, hprojects.within l l' s hl]
      exact h.commit hn'

omit [Store ℓ σ] [Store ℓ' σ'] in
/-- What a request has done to the part. -/
theorem own_projected (n : ℕ) (es : List (ℕ × Event ℓ' σ')) :
    own n (projected part view es) =
      (own n es).filterMap fun e ↦ (part e.label).map fun l ↦ ⟨l, view e.before, view e.after⟩ := by
  induction es with
  | nil => rfl
  | cons x es ih =>
    have hcons : projected part view (x :: es) = projected part view [x] ++ projected part view es :=
      projected_append [x] es
    have hown : own n (x :: es) = own n [x] ++ own n es := own_append n [x] es
    rw [hcons, own_append, hown, List.filterMap_append, ih]
    congr 1
    obtain ⟨m, l, s, t⟩ := x
    cases hl : part l with
    | none =>
      rw [projected_beside hl]
      by_cases hm : m = n <;> simp [own, hm, hl]
    | some l' =>
      rw [projected_part hl]
      by_cases hm : m = n <;> simp [own, hm, hl]

end Towing.Process
