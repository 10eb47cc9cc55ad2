import Towing.Process.Transaction

namespace Towing.Process

variable {ℓ σ ε α β ρ ι : Type} {δ : ρ → Type} [Store ℓ σ]

/-- A state in parts, each under a lock of its own. A statement writes the parts it
locks, from what they hold; `kept` is what else nobody else undoes of a locked part. -/
structure Parts (ℓ σ ρ : Type) (δ : ρ → Type) [Store ℓ σ] where
  part : σ → (r : ρ) → δ r
  need : ℓ → Set ρ
  frame : ∀ (l : ℓ) (s : σ) r, r ∉ need l → part (Store.commit l s) r = part s r
  respects : ∀ (l : ℓ) (s t : σ) r, part s r = part t r →
    part (Store.commit l s) r = part (Store.commit l t) r
  kept : ρ → σ → σ → Prop
  refl : ∀ r s, kept r s s
  trans : ∀ r s t u, part t r = part s r → kept r s t → kept r t u → kept r s u

namespace Parts

variable (D : Parts ℓ σ ρ δ)

def locking : Locking ℓ σ ρ where
  need l _ := D.need l
  seen H s t := ∀ r ∈ H, D.part t r = D.part s r ∧ D.kept r s t
  refl _ s r _ := ⟨rfl, D.refl r s⟩
  trans _ s t u h h' r hr :=
    ⟨(h' r hr).1.trans (h r hr).1, D.trans r s t u (h r hr).1 (h r hr).2 (h' r hr).2⟩
  anti _ _ _ _ hHK h r hr := h r (hHK hr)

/-- What a transaction sees of a committed state of `I`: only what it has locked can differ. -/
structure Sees (I : σ → Prop) (H : Set ρ) (s v : σ) : Prop where
  inv : I s
  outside : ∀ r ∉ H, D.part v r = D.part s r

/-- What may have become of the committed state `s` and of the view `v` a transaction
has of it under the locks `H`, while the others commit states of `I`. -/
structure View (I : σ → Prop) (H : Set ρ) (s v s' v' : σ) : Prop extends D.Sees I H s' v' where
  committed : D.locking.seen H s s'
  own : ∀ r ∈ H, D.part v' r = D.part v r

/-- From the view `v` of the committed state `s`, whatever the others commit, the
transaction ends with a `Q` between the state it commits on and the one it leaves. -/
def Safe (I : σ → Prop) (Q : Except ε α → Set ρ → σ → σ → Prop) :
    Proc ℓ σ ε α → Set ρ → σ → σ → Prop
  | .done r, H, s, v => ∀ s' v', D.View I H s v s' v' → Q r H s' v'
  | .step l next, H, s, v => ∀ s' v', D.View I H s v s' v' →
      Safe I Q (next v') (H ∪ D.need l) s' (Store.commit l v')

variable {D} {I : σ → Prop} {H K : Set ρ} {s v s' v' t : σ}
  {Q : Except ε α → Set ρ → σ → σ → Prop} {p : Proc ℓ σ ε α}

theorem Sees.step {l : ℓ} (h : D.Sees I H s v) :
    D.Sees I (H ∪ D.need l) s (Store.commit l v) where
  inv := h.inv
  outside r hr := by
    rw [D.frame l v r fun hl ↦ hr (.inr hl)]
    exact h.outside r fun hH ↦ hr (.inl hH)

theorem View.refl (h : D.Sees I H s v) : D.View I H s v s v :=
  ⟨h, D.locking.refl H s, fun _ _ ↦ rfl⟩

theorem View.trans {s'' v'' : σ} (h : D.View I H s v s' v') (h' : D.View I H s' v' s'' v'') :
    D.View I H s v s'' v'' :=
  ⟨h'.toSees, D.locking.trans H s s' s'' h.committed h'.committed,
    fun r hr ↦ (h'.own r hr).trans (h.own r hr)⟩

theorem Safe.view (h : D.Safe I Q p H s v) (hv : D.View I H s v s' v') :
    D.Safe I Q p H s' v' := by
  cases p with
  | done r => exact fun t u ht ↦ h t u (hv.trans ht)
  | step l next => exact fun t u ht ↦ h t u (hv.trans ht)

theorem Safe.ite {c : Prop} [Decidable c] {q : Proc ℓ σ ε α} (hp : c → D.Safe I Q p H s v)
    (hq : ¬c → D.Safe I Q q H s v) : D.Safe I Q (if c then p else q) H s v := by
  by_cases hc : c
  · rw [if_pos hc]
    exact hp hc
  · rw [if_neg hc]
    exact hq hc

theorem Safe.mono {Q' : Except ε α → Set ρ → σ → σ → Prop} (h : D.Safe I Q p H s v)
    (hQ : ∀ r K t u, D.Sees I K t u → Q r K t u → Q' r K t u) : D.Safe I Q' p H s v := by
  induction p generalizing H s v with
  | done r => exact fun s' v' hv ↦ hQ r H s' v' hv.toSees (h s' v' hv)
  | step l next ih => exact fun s' v' hv ↦ ih v' (h s' v' hv)

/-- The sequencing rule: what follows starts where the first part could have ended. -/
theorem Safe.follow {Q' : Except ε β → Set ρ → σ → σ → Prop}
    {k : Except ε α → Proc ℓ σ ε β} (hp : D.Safe I Q p H s v) (hs : D.Sees I H s v)
    (hk : ∀ r K t u, D.Sees I K t u → Q r K t u → D.Safe I Q' (k r) K t u) :
    D.Safe I Q' (p.follow k) H s v := by
  induction p generalizing H s v with
  | done r => exact hk r H s v hs (hp s v (.refl hs))
  | step l next ih => exact fun s' v' hv ↦ ih v' (hp s' v' hv) hv.toSees.step

theorem Safe.bind {Q' : Except ε β → Set ρ → σ → σ → Prop} {f : α → Proc ℓ σ ε β}
    (hp : D.Safe I Q p H s v) (hs : D.Sees I H s v)
    (hok : ∀ a K t u, D.Sees I K t u → Q (.ok a) K t u → D.Safe I Q' (f a) K t u)
    (herror : ∀ e K t u, Q (.error e) K t u → D.Safe I Q' (.done (.error e)) K t u) :
    D.Safe I Q' (p.bind f) H s v := by
  induction p generalizing H s v with
  | done r =>
    cases r with
    | ok a => exact hok a H s v hs (hp s v (.refl hs))
    | error e => exact herror e H s v (hp s v (.refl hs))
  | step l next ih => exact fun s' v' hv ↦ ih v' (hp s' v' hv) hv.toSees.step

/-- An open transaction between two statements. -/
structure Kept (D : Parts ℓ σ ρ δ) (I : σ → Prop) (Q : ι → Except ε α → Set ρ → σ → σ → Prop)
    (o : Open ℓ σ ε α ρ ι) (s : σ) : Prop where
  frame : ∀ t, ∀ r ∉ o.held, D.part (o.writes t) r = D.part t r
  respects : ∀ t u r, D.part t r = D.part u r → D.part (o.writes t) r = D.part (o.writes u) r
  safe : D.Safe I (Q o.call) o.rest o.held s (o.writes s)

variable {body : ι → Proc ℓ σ ε α} {Q : ι → Except ε α → Set ρ → σ → σ → Prop}
  {P : Event (ι × Except ε α) σ → Prop} {s₀ : σ} {os : List (Open ℓ σ ε α ρ ι)}
  {es : List (Event (ι × Except ε α) σ)}

theorem Kept.others {o : Open ℓ σ ε α ρ ι} (h : Kept D I Q o s) (hI : I t)
    (hs : D.locking.seen o.held s t) : Kept D I Q o t where
  frame := h.frame
  respects := h.respects
  safe := h.safe.view ⟨⟨hI, h.frame t⟩, hs, fun r hr ↦ h.respects _ _ r (hs r hr).1⟩

/-- If each transaction is safe by itself from the states of `I`, they are together,
as long as their commits keep what the locks of the others promise. -/
theorem Safe.runs (hbody : ∀ i s, I s → D.Safe I (Q i) (body i) ∅ s s)
    (hQ : ∀ i a H s v, Q i (.ok a) H s v → P ⟨(i, .ok a), s, v⟩ → I v)
    (hkept : ∀ i a H s v r, Q i (.ok a) H s v → P ⟨(i, .ok a), s, v⟩ →
      D.part v r = D.part s r → D.kept r s v)
    (h₀ : I s₀) (h : Transactions body D.locking s₀ os s es) (hP : ∀ e ∈ es, P e) :
    (Exclusive os ∧ ∀ o ∈ os, Kept D I Q o s) ∧ I s ∧ Chained s₀ es s ∧
      ∀ e ∈ es, I e.before ∧ I e.after ∧
        ((∃ x, e.label.2 = .error x) ∧ e.after = e.before ∨
          ∃ a H, e.label.2 = .ok a ∧ Q e.label.1 (.ok a) H e.before e.after) := by
  induction h with
  | start => exact ⟨⟨.nil, by simp⟩, h₀, rfl, by simp⟩
  | @«begin» os s es i _ ih =>
    obtain ⟨⟨hx, hos⟩, hI, hrest⟩ := ih hP
    refine ⟨⟨?_, fun o ho ↦ ?_⟩, hI, hrest⟩
    · exact List.pairwise_append.mpr ⟨hx, List.pairwise_singleton _ _, by simp⟩
    · rcases List.mem_append.mp ho with ho | ho
      · exact hos o ho
      · cases List.mem_singleton.mp ho
        exact ⟨fun _ _ _ ↦ rfl, fun _ _ _ h ↦ h, hbody i s hI⟩
  | @statement os qs s es i l next w H _ hfree ih =>
    obtain ⟨⟨hx, hos⟩, hI, hrest⟩ := ih hP
    obtain ⟨hx, hd⟩ := Exclusive.middle.mp hx
    have ho := hos _ (List.mem_append_right os List.mem_cons_self)
    refine ⟨⟨Exclusive.middle.mpr ⟨hx, fun o ho ↦ ?_⟩, fun o hm ↦ ?_⟩, hI, hrest⟩
    · exact Set.disjoint_union_left.mpr ⟨hd o ho, hfree o ho⟩
    · rcases List.mem_append.mp hm with hm | hm
      · exact hos o (List.mem_append_left _ hm)
      · rcases List.mem_cons.mp hm with rfl | hm
        · refine ⟨fun t r hr ↦ ?_, fun t u r hr ↦ D.respects _ _ _ _ (ho.respects t u r hr),
            ho.safe s (w s) (.refl ⟨hI, ho.frame s⟩)⟩
          dsimp only [Function.comp_apply]
          rw [D.frame l (w t) r fun h ↦ hr (.inr h)]
          exact ho.frame t r fun h ↦ hr (.inl h)
        · exact hos o (List.mem_append_right _ (List.mem_cons_of_mem _ hm))
  | @commit os qs s es i a w H _ ih =>
    obtain ⟨⟨hx, hos⟩, hI, hc, hes⟩ := ih fun e he ↦ hP e (List.mem_append_left _ he)
    obtain ⟨hx, hd⟩ := Exclusive.middle.mp hx
    have hPe := hP ⟨(i, .ok a), s, w s⟩ (by simp)
    have ho := hos _ (List.mem_append_right os List.mem_cons_self)
    have hq := ho.safe s (w s) (.refl ⟨hI, ho.frame s⟩)
    have hI' := hQ i a H s (w s) hq hPe
    refine ⟨⟨hx, fun o hm ↦ ?_⟩, hI', hc.append ⟨rfl, rfl⟩, fun e he ↦ ?_⟩
    · refine (hos o (mem_of_mem_rest hm)).others hI' fun r hr ↦ ?_
      have hr : D.part (w s) r = D.part s r :=
        ho.frame s r fun h ↦ Set.disjoint_left.mp (hd o hm) h hr
      exact ⟨hr, hkept i a H s (w s) r hq hPe hr⟩
    · rcases List.mem_append.mp he with he | he
      · exact hes e he
      · cases List.mem_singleton.mp he
        exact ⟨hI, hI', .inr ⟨a, H, rfl, hq⟩⟩
  | @rollback os qs s es i e w H _ ih =>
    obtain ⟨⟨hx, hos⟩, hI, hc, hes⟩ := ih fun e he ↦ hP e (List.mem_append_left _ he)
    obtain ⟨hx, -⟩ := Exclusive.middle.mp hx
    refine ⟨⟨hx, fun o ho ↦ hos o (mem_of_mem_rest ho)⟩, hI, hc.append ⟨rfl, rfl⟩, fun e' he ↦ ?_⟩
    rcases List.mem_append.mp he with he | he
    · exact hes e' he
    · cases List.mem_singleton.mp he
      exact ⟨hI, hI, .inl ⟨⟨e, rfl⟩, rfl⟩⟩
  | @abort os qs s es o _ ih =>
    obtain ⟨⟨hx, hos⟩, hI, hrest⟩ := ih hP
    obtain ⟨hx, -⟩ := Exclusive.middle.mp hx
    exact ⟨⟨hx, fun o ho ↦ hos o (mem_of_mem_rest ho)⟩, hI, hrest⟩

end Parts

end Towing.Process
