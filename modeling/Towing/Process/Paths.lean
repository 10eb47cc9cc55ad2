import Towing.Process.Moments

namespace Towing.Process

variable {ℓ σ ε α β : Type} [Store ℓ σ]

/-- By these steps of its own, the request comes to what is left of it. -/
inductive Proc.Leads : Proc ℓ σ ε α → List (Event ℓ σ) → Proc ℓ σ ε α → Prop
  | here (p : Proc ℓ σ ε α) : Leads p [] p
  | step {l : ℓ} {next : σ → Proc ℓ σ ε α} {es : List (Event ℓ σ)} {q : Proc ℓ σ ε α} (s : σ) :
      Leads (next s) es q → Leads (.step l next) (⟨l, s, Store.commit l s⟩ :: es) q

namespace Proc.Leads

variable {p q : Proc ℓ σ ε α} {f : α → Proc ℓ σ ε β} {es pre later : List (Event ℓ σ)} {e : Event ℓ σ}
  {P : ℓ → Prop}

theorem done_iff {r : Except ε α} : (Proc.done r : Proc ℓ σ ε α).Leads es q ↔ es = [] ∧ q = .done r := by
  constructor
  · intro h
    cases h
    exact ⟨rfl, rfl⟩
  · rintro ⟨rfl, rfl⟩
    exact .here _

theorem step_iff {l : ℓ} {next : σ → Proc ℓ σ ε α} : (Proc.step l next).Leads es q ↔
    es = [] ∧ q = .step l next ∨
      ∃ s rest, es = ⟨l, s, Store.commit l s⟩ :: rest ∧ (next s).Leads rest q := by
  constructor
  · intro h
    cases h with
    | here => exact .inl ⟨rfl, rfl⟩
    | step s h => exact .inr ⟨s, _, rfl, h⟩
  · rintro (⟨rfl, rfl⟩ | ⟨s, rest, rfl, h⟩)
    · exact .here _
    · exact .step s h

theorem snoc {l : ℓ} {next : σ → Proc ℓ σ ε α} (h : p.Leads es (.step l next)) (s : σ) :
    p.Leads (es ++ [⟨l, s, Store.commit l s⟩]) (next s) := by
  generalize hq : Proc.step l next = q at h
  induction h with
  | here =>
    subst hq
    exact .step s (.here _)
  | step t _ ih => exact .step t (ih hq)

theorem only (h : p.Leads es q) (hp : p.Only P) : ∀ e ∈ es, P e.label := by
  induction h with
  | here => simp
  | step s _ ih => exact List.forall_mem_cons.mpr ⟨hp.1, ih (hp.2 s)⟩

/-- The steps of one request after the other are steps of the first, and those of the second
once it has answered. -/
theorem of_bind {q : Proc ℓ σ ε β} (h : (p.bind f).Leads es q) :
    (∃ p', p.Leads es p' ∧ q = p'.bind f) ∨
      ∃ es₁ es₂ a, es = es₁ ++ es₂ ∧ p.Leads es₁ (.done (.ok a)) ∧ (f a).Leads es₂ q := by
  induction p generalizing es with
  | done r =>
    cases r with
    | ok a => exact .inr ⟨[], es, a, rfl, .here _, h⟩
    | error e =>
      obtain ⟨rfl, rfl⟩ := done_iff.mp h
      exact .inl ⟨_, .here _, rfl⟩
  | step l next ih =>
    rcases step_iff.mp h with ⟨rfl, rfl⟩ | ⟨s, rest, rfl, hrest⟩
    · exact .inl ⟨_, .here _, rfl⟩
    · rcases ih s hrest with ⟨p', hp', rfl⟩ | ⟨es₁, es₂, a, rfl, h₁, h₂⟩
      · exact .inl ⟨p', .step s hp', rfl⟩
      · exact .inr ⟨_ :: es₁, es₂, a, rfl, .step s h₁, h₂⟩

/-- A step that the first request never takes is one of the second. -/
theorem bind_later {q : Proc ℓ σ ε β} (h : (p.bind f).Leads (pre ++ e :: later) q) (hp : p.Only P)
    (he : ¬P e.label) : ∃ pre₁ pre₂ a, pre = pre₁ ++ pre₂ ∧ p.Leads pre₁ (.done (.ok a)) ∧
      (f a).Leads (pre₂ ++ e :: later) q := by
  rcases h.of_bind with ⟨p', hp', -⟩ | ⟨es₁, es₂, a, heq, h₁, h₂⟩
  · exact absurd (hp'.only hp e (by simp)) he
  · rcases List.append_eq_append_iff.mp heq with ⟨mid, rfl, hmid⟩ | ⟨mid, rfl, rfl⟩
    · cases mid with
      | nil => exact ⟨pre, [], a, by simp, by simpa using h₁, by rwa [List.nil_append, hmid]⟩
      | cons x mid =>
        obtain ⟨rfl, -⟩ := List.cons.inj hmid
        exact absurd (h₁.only hp e (by simp)) he
    · exact ⟨es₁, mid, a, rfl, h₁, h₂⟩

theorem of_ignore {q : Proc ℓ σ ε Unit} (h : p.ignore.Leads es q) : ∃ p', p.Leads es p' ∧ q = p'.ignore := by
  rcases h.of_bind with h | ⟨es₁, es₂, a, rfl, h₁, h₂⟩
  · exact h
  · obtain ⟨rfl, rfl⟩ := done_iff.mp h₂
    exact ⟨_, by simpa using h₁, rfl⟩

end Proc.Leads

variable {Req : Proc ℓ σ ε Unit → Prop} {s₀ s : σ} {cs : List (Call ℓ σ ε)} {es : List (ℕ × Event ℓ σ)}

/-- By what it has committed, a request has come from what was asked to what is left of it. -/
theorem Calls.leads (h : Calls Req s₀ cs s es) :
    ∀ (n : ℕ) (c : Call ℓ σ ε), cs[n]? = some c → c.asked.Leads (own n es) c.rest := by
  induction h with
  | start => simp
  | @ask cs s es p h hp ih =>
    intro n c hn
    rcases Nat.lt_or_ge n cs.length with hlt | hge
    · rw [List.getElem?_append_left hlt] at hn
      exact ih n c hn
    · rw [List.getElem?_append_right hge, List.getElem?_singleton] at hn
      split_ifs at hn
      cases hn
      rw [h.unheard n hge]
      exact .here p
  | @commit cs s es n p l next h hn ih =>
    intro m c hm
    by_cases hnm : n = m
    · subst hnm
      rw [List.getElem?_set_self (List.getElem?_eq_some_iff.mp hn).1] at hm
      cases hm
      rw [own_append, own_self]
      exact (ih n _ hn).snoc s
    · rw [List.getElem?_set_ne hnm] at hm
      rw [own_append, own_other hnm, List.append_nil]
      exact ih m c hm

omit [Store ℓ σ] in
theorem Makes.own_split {i n : ℕ} {e : Event ℓ σ} (h : Makes es i n e) :
    own n es = own n (es.take i) ++ e :: own n (es.drop (i + 1)) := by
  conv_lhs => rw [h.split]
  rw [own_append, List.append_cancel_left_eq]
  simp [own]

omit [Store ℓ σ] in
theorem makes_of_own_drop {i n : ℕ} {e : Event ℓ σ} (h : e ∈ own n (es.drop (i + 1))) : ∃ j, i < j ∧ Makes es j n e := by
  obtain ⟨pre, post, heq⟩ := of_mem_own h
  have hget : (es.drop (i + 1))[pre.length]? = some (n, e) := by simp [heq]
  rw [List.getElem?_drop] at hget
  exact ⟨i + 1 + pre.length, by omega, hget⟩

end Towing.Process
