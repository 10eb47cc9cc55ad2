import Towing.Process.Runs

namespace Towing.Process

variable {ℓ σ ε α : Type}

/-- What a request answered, and the state it answered in. -/
structure Answer (σ ε α : Type) where
  result : Except ε α
  state : σ

variable [Store ℓ σ]

/-- `Runs` with the answers of the requests that come to their end. -/
inductive Served (Req : Proc ℓ σ ε α → Prop) (s₀ : σ) :
    List (Proc ℓ σ ε α) → σ → List (Event ℓ σ) → List (Answer σ ε α) → Prop
  | start : Served Req s₀ [] s₀ [] []
  | issue {ps : List (Proc ℓ σ ε α)} {s : σ} {es : List (Event ℓ σ)} {as : List (Answer σ ε α)}
      {p : Proc ℓ σ ε α} :
      Served Req s₀ ps s es as → Req p → Served Req s₀ (ps ++ [p]) s es as
  | commit {ps qs : List (Proc ℓ σ ε α)} {s : σ} {es : List (Event ℓ σ)}
      {as : List (Answer σ ε α)} {l : ℓ} {next : σ → Proc ℓ σ ε α} :
      Served Req s₀ (ps ++ .step l next :: qs) s es as →
      Served Req s₀ (ps ++ next s :: qs) (Store.commit l s) (es ++ [⟨l, s, Store.commit l s⟩]) as
  | answer {ps qs : List (Proc ℓ σ ε α)} {s : σ} {es : List (Event ℓ σ)}
      {as : List (Answer σ ε α)} {r : Except ε α} :
      Served Req s₀ (ps ++ .done r :: qs) s es as →
      Served Req s₀ (ps ++ qs) s es (as ++ [⟨r, s⟩])
  | die {ps qs : List (Proc ℓ σ ε α)} {s : σ} {es : List (Event ℓ σ)} {as : List (Answer σ ε α)}
      {p : Proc ℓ σ ε α} :
      Served Req s₀ (ps ++ p :: qs) s es as → Served Req s₀ (ps ++ qs) s es as

variable {Req : Proc ℓ σ ε α → Prop} {s₀ s : σ} {es : List (Event ℓ σ)} {as : List (Answer σ ε α)}

theorem Served.exec {ps : List (Proc ℓ σ ε α)} {p : Proc ℓ σ ε α}
    (h : Served Req s₀ (ps ++ [p]) s es as) :
    Served Req s₀ ps (p.exec s).2 (es ++ p.events s) (as ++ [⟨(p.exec s).1, (p.exec s).2⟩]) := by
  induction p generalizing s es with
  | done r => simpa [Proc.exec, Proc.events] using h.answer
  | step l next ih =>
    have := ih s h.commit
    simpa [Proc.exec, Proc.events, List.append_assoc] using this

theorem Served.crash {ps : List (Proc ℓ σ ε α)} {p : Proc ℓ σ ε α} (n : ℕ)
    (h : Served Req s₀ (ps ++ [p]) s es as) :
    Served Req s₀ ps (p.crash n s) (es ++ (p.events s).take n) as := by
  induction p generalizing s es n with
  | done r => cases n <;> simpa [Proc.crash, Proc.events] using h.die
  | step l next ih =>
    cases n with
    | zero => simpa [Proc.crash] using h.die
    | succ n =>
      have := ih s n h.commit
      simpa [Proc.crash, Proc.events, List.append_assoc] using this

/-- A list of requests one after the other, each with the commits it dies after, if
it dies, and the answers of the others. -/
def serveCut : List (Proc ℓ σ ε α × Option ℕ) → σ → σ × List (Event ℓ σ) × List (Answer σ ε α)
  | [], s => (s, [], [])
  | (p, none) :: ps, s =>
    let rest := serveCut ps (p.exec s).2
    (rest.1, p.events s ++ rest.2.1, ⟨(p.exec s).1, (p.exec s).2⟩ :: rest.2.2)
  | (p, some n) :: ps, s =>
    let rest := serveCut ps (p.crash n s)
    (rest.1, (p.events s).take n ++ rest.2.1, rest.2.2)

theorem Served.serveCut {ps : List (Proc ℓ σ ε α × Option ℕ)} (hps : ∀ p ∈ ps, Req p.1)
    (h : Served Req s₀ [] s es as) :
    Served Req s₀ [] (serveCut ps s).1 (es ++ (serveCut ps s).2.1) (as ++ (serveCut ps s).2.2) := by
  induction ps generalizing s es as with
  | nil => simpa [Process.serveCut] using h
  | cons p ps ih =>
    obtain ⟨p, n⟩ := p
    have hp : Req p := hps (p, n) List.mem_cons_self
    have hrest : ∀ q ∈ ps, Req q.1 := fun q hq ↦ hps q (List.mem_cons_of_mem _ hq)
    cases n with
    | none => simpa [Process.serveCut, List.append_assoc] using ih hrest (h.issue hp).exec
    | some n => simpa [Process.serveCut, List.append_assoc] using ih hrest ((h.issue hp).crash n)

variable {c : Contract ℓ σ} {Φ : Except ε α → σ → Prop}

/-- `Runs.safe`, with what the contract promises of the answers. -/
theorem Served.safe {ps : List (Proc ℓ σ ε α)} (hc : c.Sound)
    (hreq : ∀ p, Req p → ∀ s, c.inv s → c.Meets Φ p s)
    (hΦ : ∀ r s t, c.rely s t → Φ r s → Φ r t)
    (h₀ : c.inv s₀) (h : Served Req s₀ ps s es as) (hcond : ∀ e ∈ es, c.cond e.label e.before) :
    c.inv s ∧ (∀ e ∈ es, c.inv e.before ∧ c.guar e.label e.before) ∧
      (∀ a ∈ as, Φ a.result a.state) ∧ ∀ p ∈ ps, ∃ t, c.rely t s ∧ c.Meets Φ p t := by
  induction h with
  | start => exact ⟨h₀, by simp, by simp, by simp⟩
  | @issue ps s es as p _ hp ih =>
    obtain ⟨hi, he, ha, hps⟩ := ih hcond
    refine ⟨hi, he, ha, fun q hq ↦ ?_⟩
    rcases List.mem_append.mp hq with hq | hq
    · exact hps q hq
    · cases List.mem_singleton.mp hq
      exact ⟨s, hc.refl s, hreq _ hp s hi⟩
  | @commit ps qs s es as l next _ ih =>
    obtain ⟨hi, he, ha, hps⟩ := ih fun e he ↦ hcond e (List.mem_append_left _ he)
    have hl : c.cond l s := hcond ⟨l, s, Store.commit l s⟩ (by simp)
    obtain ⟨t, hts, hm⟩ := hps _ (List.mem_append_right _ List.mem_cons_self)
    obtain ⟨hg, hn⟩ := hm s hts hi hl
    have hrely := hc.rely_commit l s hi hl hg
    refine ⟨hc.inv_commit l s hi hl hg, fun e hm ↦ ?_, ha, fun q hq ↦ ?_⟩
    · rcases List.mem_append.mp hm with hm | hm
      · exact he e hm
      · cases List.mem_singleton.mp hm
        exact ⟨hi, hg⟩
    · rcases List.mem_append.mp hq with hq | hq
      · obtain ⟨u, hu, hq⟩ := hps q (List.mem_append_left _ hq)
        exact ⟨u, hc.trans _ _ _ hu hrely, hq⟩
      · rcases List.mem_cons.mp hq with rfl | hq
        · exact ⟨_, hc.refl _, hn⟩
        · obtain ⟨u, hu, hq⟩ := hps q (List.mem_append_right _ (List.mem_cons_of_mem _ hq))
          exact ⟨u, hc.trans _ _ _ hu hrely, hq⟩
  | @answer ps qs s es as r _ ih =>
    obtain ⟨hi, he, ha, hps⟩ := ih hcond
    obtain ⟨t, hts, hr⟩ := hps _ (List.mem_append_right _ List.mem_cons_self)
    refine ⟨hi, he, fun a hm ↦ ?_, fun q hq ↦ hps q ?_⟩
    · rcases List.mem_append.mp hm with hm | hm
      · exact ha a hm
      · cases List.mem_singleton.mp hm
        exact hΦ r t s hts hr
    · rcases List.mem_append.mp hq with hq | hq
      · exact List.mem_append_left _ hq
      · exact List.mem_append_right _ (List.mem_cons_of_mem _ hq)
  | @die ps qs s es as p _ ih =>
    obtain ⟨hi, he, ha, hps⟩ := ih hcond
    refine ⟨hi, he, ha, fun q hq ↦ hps q ?_⟩
    rcases List.mem_append.mp hq with hq | hq
    · exact List.mem_append_left _ hq
    · exact List.mem_append_right _ (List.mem_cons_of_mem _ hq)

end Towing.Process
