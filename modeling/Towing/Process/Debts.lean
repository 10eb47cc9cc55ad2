import Towing.Process.Runs
import Mathlib.Algebra.Order.Group.Multiset

namespace Towing.Process

variable {ℓ σ ε α β : Type} [Store ℓ σ]

/-- Steps that oblige the request that commits them to one particular next step.
`follows` are the steps that are only taken when they are owed. -/
structure Duties (ℓ σ : Type) where
  follows : ℓ → Bool
  owes : ℓ → σ → Option ℓ
  owes_follows : ∀ l s d, owes l s = some d → follows d = true

namespace Duties

variable (D : Duties ℓ σ)

/-- A request that owes `d` takes that step next, and whatever it owes then. -/
def Pays : Option ℓ → Proc ℓ σ ε α → Prop
  | d, .done _ => d = none
  | d, .step l next =>
    (d = some l ∨ d = none ∧ D.follows l = false) ∧ ∀ s, Pays (D.owes l s) (next s)

/-- What a request owes by the step it stands before. -/
def debt : Proc ℓ σ ε α → Option ℓ
  | .done _ => none
  | .step l _ => if D.follows l then some l else none

variable {D}

omit [Store ℓ σ]

theorem Pays.bind {d : Option ℓ} {p : Proc ℓ σ ε α} {f : α → Proc ℓ σ ε β} (hp : D.Pays d p)
    (hf : ∀ a, D.Pays none (f a)) : D.Pays d (p.bind f) := by
  induction p generalizing d with
  | done r =>
    cases hp
    cases r with
    | ok a => exact hf a
    | error e => rfl
  | step l next ih => exact ⟨hp.1, fun s ↦ ih s (hp.2 s)⟩

theorem Pays.handle {d : Option ℓ} {p : Proc ℓ σ ε α} {h : ε → Proc ℓ σ ε α} (hp : D.Pays d p)
    (hh : ∀ e, D.Pays none (h e)) : D.Pays d (p.handle h) := by
  induction p generalizing d with
  | done r =>
    cases hp
    cases r with
    | ok a => rfl
    | error e => exact hh e
  | step l next ih => exact ⟨hp.1, fun s ↦ ih s (hp.2 s)⟩

theorem Pays.ignore {d : Option ℓ} {p : Proc ℓ σ ε α} (hp : D.Pays d p) : D.Pays d p.ignore :=
  hp.bind fun _ ↦ rfl

theorem Pays.when {c : Prop} [Decidable c] {p : Proc ℓ σ ε Unit} (hp : D.Pays none p) :
    D.Pays none (Proc.when c p) := by
  unfold Proc.when
  split_ifs
  · exact hp
  · rfl

/-- A step that owes nothing and is not owed. -/
theorem pays_attempt {l : ℓ} {f : σ → Except ε α} (hl : D.follows l = false)
    (ho : ∀ s, D.owes l s = none) : D.Pays none (Proc.attempt l f) :=
  ⟨.inr ⟨rfl, hl⟩, ho⟩

theorem Pays.debt_eq {d : Option ℓ} {p : Proc ℓ σ ε α} (h : D.Pays d p)
    (hd : ∀ l, d = some l → D.follows l = true) : D.debt p = d := by
  cases p with
  | done r => exact h.symm
  | step l next =>
    rcases h.1 with rfl | ⟨rfl, hl⟩
    · exact if_pos (hd l rfl)
    · rw [debt, hl]
      rfl

end Duties

/-- `Runs` in which a request dies only before the steps that `dies` allows. -/
inductive RunsDying (Req : Proc ℓ σ ε Unit → Prop) (dies : ℓ → Prop) (s₀ : σ) :
    List (Proc ℓ σ ε Unit) → σ → List (Event ℓ σ) → Prop
  | start : RunsDying Req dies s₀ [] s₀ []
  | issue {ps : List (Proc ℓ σ ε Unit)} {s : σ} {es : List (Event ℓ σ)} {p : Proc ℓ σ ε Unit} :
      RunsDying Req dies s₀ ps s es → Req p → RunsDying Req dies s₀ (ps ++ [p]) s es
  | commit {ps qs : List (Proc ℓ σ ε Unit)} {s : σ} {es : List (Event ℓ σ)} {l : ℓ}
      {next : σ → Proc ℓ σ ε Unit} :
      RunsDying Req dies s₀ (ps ++ .step l next :: qs) s es →
      RunsDying Req dies s₀ (ps ++ next s :: qs) (Store.commit l s)
        (es ++ [⟨l, s, Store.commit l s⟩])
  | finish {ps qs : List (Proc ℓ σ ε Unit)} {s : σ} {es : List (Event ℓ σ)} {r : Except ε Unit} :
      RunsDying Req dies s₀ (ps ++ .done r :: qs) s es → RunsDying Req dies s₀ (ps ++ qs) s es
  | die {ps qs : List (Proc ℓ σ ε Unit)} {s : σ} {es : List (Event ℓ σ)} {l : ℓ}
      {next : σ → Proc ℓ σ ε Unit} :
      RunsDying Req dies s₀ (ps ++ .step l next :: qs) s es → dies l →
      RunsDying Req dies s₀ (ps ++ qs) s es

variable {Req : Proc ℓ σ ε Unit → Prop} {dies : ℓ → Prop} {s₀ s : σ} {es : List (Event ℓ σ)}
  {ps : List (Proc ℓ σ ε Unit)}

theorem RunsDying.exec {p : Proc ℓ σ ε Unit} (h : RunsDying Req dies s₀ (ps ++ [p]) s es) :
    RunsDying Req dies s₀ ps (p.exec s).2 (es ++ p.events s) := by
  induction p generalizing s es with
  | done r => simpa [Proc.exec, Proc.events] using h.finish
  | step l next ih =>
    have := ih s h.commit
    simpa [Proc.exec, Proc.events, List.append_assoc] using this

/-- Requests that run to their end do not die. -/
theorem Uncut.runsDying (h : Uncut Req s₀ s es) : RunsDying Req dies s₀ [] s es := by
  induction h with
  | start => exact .start
  | @call s es p _ hp ih => exact RunsDying.exec (ih.issue hp)

namespace Duties

variable (D : Duties ℓ σ)

/-- What the requests in flight owe together. -/
def debts (ps : List (Proc ℓ σ ε Unit)) : Multiset ℓ := (ps.filterMap D.debt : List ℓ)

variable {D}

omit [Store ℓ σ] in
theorem debts_append (ps qs : List (Proc ℓ σ ε Unit)) : D.debts (ps ++ qs) = D.debts ps + D.debts qs := by
  rw [debts, List.filterMap_append, ← Multiset.coe_add]
  rfl

omit [Store ℓ σ] in
theorem debts_middle (ps qs : List (Proc ℓ σ ε Unit)) (p : Proc ℓ σ ε Unit) :
    D.debts (ps ++ p :: qs) = D.debts (ps ++ qs) + (D.debt p).elim 0 ({·}) := by
  rw [debts_append, debts_append, add_assoc]
  congr 1
  rw [debts, List.filterMap_cons]
  cases hd : D.debt p with
  | none => simp [debts]
  | some d =>
    rw [debts, Option.elim_some, add_comm]
    rfl

/-- A property of the state and of what is owed in it, kept by every step that is
free to be taken, by every payment of what is owed, and by every debt that dies. -/
structure Keeps (D : Duties ℓ σ) (cond : ℓ → σ → Prop) (dies : ℓ → Prop)
    (J : Multiset ℓ → σ → Prop) : Prop where
  free : ∀ ds l s, J ds s → cond l s → D.follows l = false →
    J (ds + (D.owes l s).elim 0 ({·})) (Store.commit l s)
  pay : ∀ ds l s, J (ds + {l}) s → cond l s → D.follows l = true →
    J (ds + (D.owes l s).elim 0 ({·})) (Store.commit l s)
  die : ∀ ds l s, J (ds + {l}) s → D.follows l = true → dies l → J ds s

variable {J : Multiset ℓ → σ → Prop} {cond : ℓ → σ → Prop}

theorem Keeps.commit (hk : D.Keeps cond dies J) {qs : List (Proc ℓ σ ε Unit)} {l : ℓ}
    {next : σ → Proc ℓ σ ε Unit} (hp : D.Pays (D.owes l s) (next s)) (hc : cond l s)
    (h : J (D.debts (ps ++ .step l next :: qs)) s) :
    J (D.debts (ps ++ next s :: qs)) (Store.commit l s) := by
  rw [debts_middle] at h ⊢
  rw [hp.debt_eq (D.owes_follows l s)]
  cases hl : D.follows l with
  | false =>
    have hnone : D.debt (Proc.step l next) = none := by
      rw [debt, hl]
      rfl
    rw [hnone] at h
    exact hk.free _ l s (by simpa using h) hc hl
  | true =>
    have hsome : D.debt (Proc.step l next) = some l := if_pos hl
    rw [hsome] at h
    exact hk.pay _ l s h hc hl

/-- It holds all along the runs of requests that pay what they owe. -/
theorem Keeps.runs (hk : D.Keeps cond dies J) (hreq : ∀ p, Req p → D.Pays none p) (h₀ : J 0 s₀)
    (h : RunsDying Req dies s₀ ps s es) (hcond : ∀ e ∈ es, cond e.label e.before) :
    J (D.debts ps) s := by
  suffices H : J (D.debts ps) s ∧ ∀ p ∈ ps, ∃ d, D.Pays d p from H.1
  induction h with
  | start => exact ⟨h₀, by simp⟩
  | @issue ps s es p _ hp ih =>
    obtain ⟨hj, hps⟩ := ih hcond
    have hpay := hreq p hp
    refine ⟨?_, fun q hq ↦ ?_⟩
    · rw [debts_middle ps [] p, hpay.debt_eq (by simp), List.append_nil]
      simpa using hj
    · rcases List.mem_append.mp hq with hq | hq
      · exact hps q hq
      · cases List.mem_singleton.mp hq
        exact ⟨none, hpay⟩
  | @commit ps qs s es l next _ ih =>
    obtain ⟨hj, hps⟩ := ih fun e he ↦ hcond e (List.mem_append_left _ he)
    obtain ⟨d, hd⟩ := hps (.step l next) (by simp)
    have hc := hcond ⟨l, s, Store.commit l s⟩ (by simp)
    refine ⟨hk.commit (hd.2 s) hc hj, fun q hq ↦ ?_⟩
    rcases List.mem_append.mp hq with hq | hq
    · exact hps q (List.mem_append_left _ hq)
    · rcases List.mem_cons.mp hq with rfl | hq
      · exact ⟨_, hd.2 s⟩
      · exact hps q (List.mem_append_right _ (List.mem_cons_of_mem _ hq))
  | @finish ps qs s es r _ ih =>
    obtain ⟨hj, hps⟩ := ih hcond
    refine ⟨?_, fun q hq ↦ hps q ?_⟩
    · rw [debts_middle] at hj
      simpa [debt] using hj
    · rcases List.mem_append.mp hq with hq | hq
      · exact List.mem_append_left _ hq
      · exact List.mem_append_right _ (List.mem_cons_of_mem _ hq)
  | @die ps qs s es l next _ hdies ih =>
    obtain ⟨hj, hps⟩ := ih hcond
    refine ⟨?_, fun q hq ↦ hps q ?_⟩
    · rw [debts_middle] at hj
      cases hl : D.follows l with
      | false =>
        have hnone : D.debt (Proc.step l next) = none := by
          rw [debt, hl]
          rfl
        rw [hnone] at hj
        simpa using hj
      | true =>
        have hsome : D.debt (Proc.step l next) = some l := if_pos hl
        rw [hsome] at hj
        exact hk.die _ l s hj hl hdies
    · rcases List.mem_append.mp hq with hq | hq
      · exact List.mem_append_left _ hq
      · exact List.mem_append_right _ (List.mem_cons_of_mem _ hq)

end Duties

end Towing.Process
