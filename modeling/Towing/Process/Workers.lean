import Towing.Process.Runs
import Mathlib.Logic.Function.Basic

namespace Towing.Process

variable {ι ℓ σ ε : Type} [DecidableEq ι] [Store ℓ σ]

/-- One request of each name, all in flight together: any of them commits its
next step at any time, and any may die where it stands. -/
inductive Workers (prog : ι → Proc ℓ σ ε Unit) (s₀ : σ) :
    (ι → Proc ℓ σ ε Unit) → σ → List (Event ℓ σ) → Prop
  | start : Workers prog s₀ prog s₀ []
  | commit {ps : ι → Proc ℓ σ ε Unit} {s : σ} {es : List (Event ℓ σ)} {l : ℓ}
      {next : σ → Proc ℓ σ ε Unit} (i : ι) :
      Workers prog s₀ ps s es → ps i = .step l next →
      Workers prog s₀ (Function.update ps i (next s)) (Store.commit l s)
        (es ++ [⟨l, s, Store.commit l s⟩])
  | die {ps : ι → Proc ℓ σ ε Unit} {s : σ} {es : List (Event ℓ σ)} (i : ι) :
      Workers prog s₀ ps s es → Workers prog s₀ (Function.update ps i (.done (.ok ()))) s es

/-- Contracts that differ in what each worker may rely on and must promise. -/
structure Shared (ι ℓ σ : Type) where
  inv : σ → Prop
  cond : ℓ → σ → Prop
  rely : ι → σ → σ → Prop
  guar : ι → ℓ → σ → Prop

namespace Shared

variable (c : Shared ι ℓ σ)

def contract (i : ι) : Contract ℓ σ := ⟨c.inv, c.rely i, c.cond, c.guar i⟩

/-- A worker's steps keep the invariant, and stay within what all others rely on. -/
structure Sound : Prop where
  refl : ∀ i s, c.rely i s s
  trans : ∀ i s t u, c.rely i s t → c.rely i t u → c.rely i s u
  inv_commit : ∀ i l s, c.inv s → c.cond l s → c.guar i l s → c.inv (Store.commit l s)
  rely_commit : ∀ i j l s, i ≠ j → c.inv s → c.cond l s → c.guar i l s →
    c.rely j s (Store.commit l s)

end Shared

variable {c : Shared ι ℓ σ} {prog ps : ι → Proc ℓ σ ε Unit} {s₀ s : σ} {es : List (Event ℓ σ)}

theorem Workers.safe (hc : c.Sound)
    (hprog : ∀ i, (c.contract i).Meets (fun _ _ ↦ True) (prog i) s₀)
    (h₀ : c.inv s₀) (h : Workers prog s₀ ps s es) (hcond : ∀ e ∈ es, c.cond e.label e.before) :
    c.inv s ∧ (∀ e ∈ es, c.inv e.before ∧ c.inv e.after) ∧
      ∀ i, ∃ t, c.rely i t s ∧ (c.contract i).Meets (fun _ _ ↦ True) (ps i) t := by
  induction h with
  | start => exact ⟨h₀, by simp, fun i ↦ ⟨s₀, hc.refl i s₀, hprog i⟩⟩
  | @commit ps s es l next i _ heq ih =>
    obtain ⟨hi, he, hps⟩ := ih fun e he ↦ hcond e (List.mem_append_left _ he)
    have hl : c.cond l s := hcond ⟨l, s, Store.commit l s⟩ (by simp)
    obtain ⟨t, hts, hm⟩ := hps i
    rw [heq] at hm
    obtain ⟨hg, hn⟩ := hm s hts hi hl
    have hinv := hc.inv_commit i l s hi hl hg
    refine ⟨hinv, fun e hm ↦ ?_, fun j ↦ ?_⟩
    · rcases List.mem_append.mp hm with hm | hm
      · exact he e hm
      · cases List.mem_singleton.mp hm
        exact ⟨hi, hinv⟩
    · by_cases hij : j = i
      · subst hij
        rw [Function.update_self]
        exact ⟨_, hc.refl j _, hn⟩
      · rw [Function.update_of_ne hij]
        obtain ⟨u, hu, hq⟩ := hps j
        exact ⟨u, hc.trans j _ _ _ hu (hc.rely_commit i j l s (Ne.symm hij) hi hl hg), hq⟩
  | @die ps s es i _ ih =>
    obtain ⟨hi, he, hps⟩ := ih hcond
    refine ⟨hi, he, fun j ↦ ?_⟩
    by_cases hij : j = i
    · subst hij
      rw [Function.update_self]
      exact ⟨s, hc.refl j s, trivial⟩
    · rw [Function.update_of_ne hij]
      exact hps j

/-- The run of a schedule, in which each turn lets one worker commit a step. -/
def schedule : List ι → (ι → Proc ℓ σ ε Unit) → σ →
    (ι → Proc ℓ σ ε Unit) × σ × List (Event ℓ σ)
  | [], ps, s => (ps, s, [])
  | i :: is, ps, s =>
    match ps i with
    | .done _ => schedule is ps s
    | .step l next =>
      let t := Store.commit l s
      let rest := schedule is (Function.update ps i (next s)) t
      (rest.1, rest.2.1, ⟨l, s, t⟩ :: rest.2.2)

theorem Workers.schedule (is : List ι) (h : Workers prog s₀ ps s es) :
    Workers prog s₀ (schedule is ps s).1 (schedule is ps s).2.1
      (es ++ (schedule is ps s).2.2) := by
  induction is generalizing ps s es with
  | nil => simpa [Process.schedule] using h
  | cons i is ih =>
    unfold Process.schedule
    cases hp : ps i with
    | done r => exact ih h
    | step l next => simpa using ih (h.commit i hp)

end Towing.Process
