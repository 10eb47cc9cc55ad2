import Towing.Process.Contract

namespace Towing.Process

variable {ℓ σ ε : Type}

/-- The events of a run follow one another from the first state to the last. -/
def Chained : σ → List (Event ℓ σ) → σ → Prop
  | s, [], t => s = t
  | s, e :: es, t => e.before = s ∧ Chained e.after es t

theorem Chained.append {s t u : σ} {es fs : List (Event ℓ σ)} (h : Chained s es t)
    (h' : Chained t fs u) : Chained s (es ++ fs) u := by
  induction es generalizing s with
  | nil => cases h; exact h'
  | cons e es ih => exact ⟨h.1, ih h.2⟩

theorem Chained.of_append {s u : σ} {es fs : List (Event ℓ σ)} (h : Chained s (es ++ fs) u) :
    ∃ t, Chained s es t ∧ Chained t fs u := by
  induction es generalizing s with
  | nil => exact ⟨s, rfl, h⟩
  | cons e es ih =>
    obtain ⟨t, ht, hu⟩ := ih h.2
    exact ⟨t, ⟨h.1, ht⟩, hu⟩

/-- A property of histories that every step preserves holds after the run. -/
theorem Chained.history {J : List (Event ℓ σ) → σ → Prop} {s t : σ} {es : List (Event ℓ σ)}
    (h : Chained s es t) (h₀ : J [] s)
    (hstep : ∀ pre e, e ∈ es → J pre e.before → J (pre ++ [e]) e.after) : J es t := by
  suffices H : ∀ pre, J pre s → J (pre ++ es) t by simpa using H [] h₀
  clear h₀
  induction es generalizing s with
  | nil => intro pre hp; cases h; simpa using hp
  | cons e es ih =>
    intro pre hp
    obtain ⟨rfl, h⟩ := h
    have he := hstep pre e List.mem_cons_self hp
    have := ih h (fun pre' e' he' ↦ hstep pre' e' (List.mem_cons_of_mem _ he')) _ he
    simpa using this

/-- What holds of the history and the state after every event of a run. -/
def Throughout (J : List (Event ℓ σ) → σ → Prop) (es : List (Event ℓ σ)) : Prop :=
  ∀ pre e post, es = pre ++ e :: post → J (pre ++ [e]) e.after

theorem Throughout.nil (J : List (Event ℓ σ) → σ → Prop) : Throughout J [] := by
  intro pre e post h
  simp at h

theorem Throughout.snoc {J : List (Event ℓ σ) → σ → Prop} {es : List (Event ℓ σ)} {e : Event ℓ σ}
    (h : Throughout J es) (he : J (es ++ [e]) e.after) : Throughout J (es ++ [e]) := by
  intro pre e' post heq
  rcases List.eq_nil_or_concat post with rfl | ⟨post', e'', rfl⟩
  · obtain ⟨rfl, h'⟩ := List.append_inj' heq rfl
    cases h'
    exact he
  · have heq' : es ++ [e] = (pre ++ e' :: post') ++ [e''] := by simpa using heq
    obtain ⟨rfl, -⟩ := List.append_inj' heq' rfl
    exact h pre e' post' rfl

theorem Chained.throughout {J : List (Event ℓ σ) → σ → Prop} {s t : σ} {es : List (Event ℓ σ)}
    (h : Chained s es t) (h₀ : J [] s)
    (hstep : ∀ pre e, e ∈ es → J pre e.before → J (pre ++ [e]) e.after) :
    J es t ∧ Throughout J es := by
  refine h.history (J := fun es t ↦ J es t ∧ Throughout J es) ⟨h₀, .nil J⟩ fun pre e he hJ ↦ ?_
  have := hstep pre e he hJ.1
  exact ⟨this, hJ.2.snoc this⟩

/-- What is found before an event was found after the one before it. -/
theorem Chained.before {s t : σ} {pre post : List (Event ℓ σ)} {e : Event ℓ σ}
    (h : Chained s (pre ++ e :: post) t) :
    (pre = [] ∧ e.before = s) ∨ ∃ pre' e', pre = pre' ++ [e'] ∧ e'.after = e.before := by
  obtain ⟨u, hu, rfl, -⟩ := h.of_append
  rcases List.eq_nil_or_concat pre with rfl | ⟨pre', e', rfl⟩
  · exact .inl ⟨rfl, hu.symm⟩
  · rw [List.concat_eq_append] at hu ⊢
    obtain ⟨v, -, -, hv⟩ := hu.of_append
    exact .inr ⟨pre', e', rfl, hv⟩

/-- A list that each step extends by one entry at most: every entry came with a step. -/
theorem Chained.appended {δ : Type} {f : σ → List δ} {s t : σ} {es : List (Event ℓ σ)}
    (h : Chained s es t) (hs : f s = [])
    (hstep : ∀ e ∈ es, ∃ new, f e.after = f e.before ++ new ∧ new.length ≤ 1)
    {pre post : List δ} {a : δ} (ht : f t = pre ++ a :: post) :
    ∃ e ∈ es, f e.before = pre ∧ f e.after = pre ++ [a] := by
  suffices H : ∀ pre a post, f t = pre ++ a :: post →
      ∃ e ∈ es, f e.before = pre ∧ f e.after = pre ++ [a] from H pre a post ht
  clear ht
  refine h.history (J := fun es t ↦ ∀ pre a post, f t = pre ++ a :: post →
    ∃ e ∈ es, f e.before = pre ∧ f e.after = pre ++ [a]) (by simp [hs]) fun es' e he ih ↦ ?_
  intro pre a post hpre
  obtain ⟨new, hnew, hlen⟩ := hstep e he
  rcases List.eq_nil_or_concat post with rfl | ⟨post, x, rfl⟩
  · cases new with
    | nil =>
      rw [List.append_nil] at hnew
      obtain ⟨e', he', h'⟩ := ih pre a [] (hnew ▸ hpre)
      exact ⟨e', List.mem_append_left _ he', h'⟩
    | cons y new =>
      cases List.length_eq_zero_iff.mp (Nat.le_zero.mp (Nat.le_of_succ_le_succ hlen))
      obtain ⟨hl, -⟩ := List.append_inj' (hnew.symm.trans hpre) rfl
      exact ⟨e, List.mem_append_right _ List.mem_cons_self, hl, hpre⟩
  · have hbefore : ∃ post', f e.before = pre ++ a :: post' := by
      cases new with
      | nil =>
        rw [List.append_nil] at hnew
        exact ⟨_, hnew ▸ hpre⟩
      | cons y new =>
        cases List.length_eq_zero_iff.mp (Nat.le_zero.mp (Nat.le_of_succ_le_succ hlen))
        rw [List.concat_eq_append, ← List.cons_append, ← List.append_assoc, hnew] at hpre
        exact ⟨post, (List.append_inj' hpre rfl).1⟩
    obtain ⟨post', hpost'⟩ := hbefore
    obtain ⟨e', he', h'⟩ := ih pre a post' hpost'
    exact ⟨e', List.mem_append_left _ he', h'⟩

theorem Chained.invariant {I : σ → Prop} {s t : σ} {es : List (Event ℓ σ)} (h : Chained s es t)
    (hs : I s) (hes : ∀ e ∈ es, I e.before → I e.after) :
    I t ∧ ∀ e ∈ es, I e.before ∧ I e.after := by
  induction es generalizing s with
  | nil =>
    cases h
    exact ⟨hs, by simp⟩
  | cons e es ih =>
    obtain ⟨rfl, h⟩ := h
    have he := hes e List.mem_cons_self hs
    obtain ⟨ht, hall⟩ := ih h he fun e' he' ↦ hes e' (List.mem_cons_of_mem _ he')
    exact ⟨ht, List.forall_mem_cons.mpr ⟨⟨hs, he⟩, hall⟩⟩

/-- A preorder that every step respects relates the ends of the run. -/
theorem Chained.rel {R : σ → σ → Prop} (hrefl : ∀ s, R s s)
    (htrans : ∀ s t u, R s t → R t u → R s u) {s t : σ} {es : List (Event ℓ σ)}
    (h : Chained s es t) (hes : ∀ e ∈ es, R e.before e.after) : R s t := by
  induction es generalizing s with
  | nil => cases h; exact hrefl _
  | cons e es ih =>
    obtain ⟨rfl, h⟩ := h
    exact htrans _ _ _ (hes e List.mem_cons_self)
      (ih h fun e' he' ↦ hes e' (List.mem_cons_of_mem _ he'))

/-- The state an event leaves is related to the state the run ends in. -/
theorem Chained.rel_last {R : σ → σ → Prop} (hrefl : ∀ s, R s s)
    (htrans : ∀ s t u, R s t → R t u → R s u) {s t : σ} {es : List (Event ℓ σ)}
    (h : Chained s es t) (hes : ∀ e ∈ es, R e.before e.after) (e : Event ℓ σ) (he : e ∈ es) :
    R e.after t := by
  obtain ⟨pre, post, rfl⟩ := List.append_of_mem he
  obtain ⟨u, -, -, hu⟩ := h.of_append
  exact hu.rel hrefl htrans fun e' he' ↦ hes e' (by simp [he'])

variable [Store ℓ σ]

/-- Requests from `Req` in flight together: any one of them commits its next
step at any time, new ones arrive, and a request may die where it stands. -/
inductive Runs (Req : Proc ℓ σ ε Unit → Prop) (s₀ : σ) :
    List (Proc ℓ σ ε Unit) → σ → List (Event ℓ σ) → Prop
  | start : Runs Req s₀ [] s₀ []
  | issue {ps : List (Proc ℓ σ ε Unit)} {s : σ} {es : List (Event ℓ σ)} {p : Proc ℓ σ ε Unit} :
      Runs Req s₀ ps s es → Req p → Runs Req s₀ (ps ++ [p]) s es
  | commit {ps qs : List (Proc ℓ σ ε Unit)} {s : σ} {es : List (Event ℓ σ)} {l : ℓ}
      {next : σ → Proc ℓ σ ε Unit} :
      Runs Req s₀ (ps ++ .step l next :: qs) s es →
      Runs Req s₀ (ps ++ next s :: qs) (Store.commit l s) (es ++ [⟨l, s, Store.commit l s⟩])
  | die {ps qs : List (Proc ℓ σ ε Unit)} {s : σ} {es : List (Event ℓ σ)} {p : Proc ℓ σ ε Unit} :
      Runs Req s₀ (ps ++ p :: qs) s es → Runs Req s₀ (ps ++ qs) s es

/-- Requests from `Req` one after the other, each cut short after `n` commits;
a large `n` lets the request finish. -/
inductive Serial (Req : Proc ℓ σ ε Unit → Prop) (s₀ : σ) : σ → List (Event ℓ σ) → Prop
  | start : Serial Req s₀ s₀ []
  | call {s : σ} {es : List (Event ℓ σ)} {p : Proc ℓ σ ε Unit} (n : ℕ) :
      Serial Req s₀ s es → Req p → Serial Req s₀ (p.crash n s) (es ++ (p.events s).take n)

/-- Requests from `Req` one after the other, none cut short. -/
inductive Uncut (Req : Proc ℓ σ ε Unit → Prop) (s₀ : σ) : σ → List (Event ℓ σ) → Prop
  | start : Uncut Req s₀ s₀ []
  | call {s : σ} {es : List (Event ℓ σ)} {p : Proc ℓ σ ε Unit} :
      Uncut Req s₀ s es → Req p → Uncut Req s₀ (p.exec s).2 (es ++ p.events s)

variable {Req : Proc ℓ σ ε Unit → Prop} {s₀ s : σ} {es : List (Event ℓ σ)}

theorem Serial.exec {p : Proc ℓ σ ε Unit} (h : Serial Req s₀ s es) (hp : Req p) :
    Serial Req s₀ (p.exec s).2 (es ++ p.events s) := by
  have := h.call (p.events s).length hp
  rwa [List.take_length, Proc.crash_of_length_le p s _ (Nat.le_refl _)] at this

theorem Uncut.serial (h : Uncut Req s₀ s es) : Serial Req s₀ s es := by
  induction h with
  | start => exact .start
  | call _ hp ih => exact ih.exec hp

theorem Runs.crash {ps : List (Proc ℓ σ ε Unit)} {p : Proc ℓ σ ε Unit} (n : ℕ)
    (h : Runs Req s₀ (ps ++ [p]) s es) :
    Runs Req s₀ ps (p.crash n s) (es ++ (p.events s).take n) := by
  induction p generalizing s es n with
  | done r => cases n <;> simpa [Proc.crash, Proc.events] using h.die
  | step l next ih =>
    cases n with
    | zero => simpa [Proc.crash] using h.die
    | succ n =>
      have := ih s n h.commit
      simpa [Proc.crash, Proc.events, List.append_assoc] using this

/-- What is left of a request once it has committed `n` steps with nobody in between. -/
def Proc.rest {α : Type} : ℕ → Proc ℓ σ ε α → σ → Proc ℓ σ ε α
  | 0, p, _ => p
  | _ + 1, .done r, _ => .done r
  | n + 1, .step l next, s => rest n (next s) (Store.commit l s)

/-- Requests that do not overlap are one way of running together. -/
theorem Serial.runs (h : Serial Req s₀ s es) : Runs Req s₀ [] s es := by
  induction h with
  | start => exact .start
  | @call s es p n _ hp ih => exact Runs.crash n (ih.issue hp)

theorem Runs.chained {ps : List (Proc ℓ σ ε Unit)} (h : Runs Req s₀ ps s es) : Chained s₀ es s := by
  induction h with
  | start => rfl
  | issue _ _ ih => exact ih
  | commit _ ih => exact ih.append ⟨rfl, rfl⟩
  | die _ ih => exact ih

theorem Runs.committed {ps : List (Proc ℓ σ ε Unit)} (h : Runs Req s₀ ps s es) :
    ∀ e ∈ es, e.after = Store.commit e.label e.before := by
  induction h with
  | start => simp
  | issue _ _ ih => exact ih
  | commit _ ih =>
    intro e he
    rcases List.mem_append.mp he with he | he
    · exact ih e he
    · cases List.mem_singleton.mp he
      rfl
  | die _ ih => exact ih

/-- What every request keeps to, the run keeps to. -/
theorem Runs.only {P : ℓ → Prop} {ps : List (Proc ℓ σ ε Unit)} (hreq : ∀ p, Req p → p.Only P)
    (h : Runs Req s₀ ps s es) : (∀ e ∈ es, P e.label) ∧ ∀ p ∈ ps, p.Only P := by
  induction h with
  | start => simp
  | @issue ps s es p _ hp ih =>
    refine ⟨ih.1, fun q hq ↦ ?_⟩
    rcases List.mem_append.mp hq with hq | hq
    · exact ih.2 q hq
    · cases List.mem_singleton.mp hq
      exact hreq _ hp
  | @commit ps qs s es l next _ ih =>
    obtain ⟨hl, hnext⟩ := ih.2 _ (List.mem_append_right ps List.mem_cons_self)
    refine ⟨fun e he ↦ ?_, fun q hq ↦ ?_⟩
    · rcases List.mem_append.mp he with he | he
      · exact ih.1 e he
      · cases List.mem_singleton.mp he
        exact hl
    · rcases List.mem_append.mp hq with hq | hq
      · exact ih.2 q (List.mem_append_left _ hq)
      · rcases List.mem_cons.mp hq with rfl | hq
        · exact hnext s
        · exact ih.2 q (List.mem_append_right _ (List.mem_cons_of_mem _ hq))
  | @die ps qs s es p _ ih =>
    refine ⟨ih.1, fun q hq ↦ ih.2 q ?_⟩
    rcases List.mem_append.mp hq with hq | hq
    · exact List.mem_append_left _ hq
    · exact List.mem_append_right _ (List.mem_cons_of_mem _ hq)

/-- A list of requests run to the end, one after the other. -/
def runAll : List (Proc ℓ σ ε Unit) → σ → σ × List (Event ℓ σ)
  | [], s => (s, [])
  | p :: ps, s =>
    let rest := runAll ps (p.exec s).2
    (rest.1, p.events s ++ rest.2)

theorem Uncut.runAll {ps : List (Proc ℓ σ ε Unit)} (hps : ∀ p ∈ ps, Req p)
    (h : Uncut Req s₀ s es) : Uncut Req s₀ (runAll ps s).1 (es ++ (runAll ps s).2) := by
  induction ps generalizing s es with
  | nil => simpa [Process.runAll] using h
  | cons p ps ih =>
    have := ih (fun q hq ↦ hps q (List.mem_cons_of_mem _ hq)) (h.call (hps p List.mem_cons_self))
    simpa [Process.runAll, List.append_assoc] using this

/-- A list of requests one after the other, each with the commits it dies after, if
it dies. -/
def runCut : List (Proc ℓ σ ε Unit × Option ℕ) → σ → σ × List (Event ℓ σ)
  | [], s => (s, [])
  | (p, none) :: ps, s =>
    let rest := runCut ps (p.exec s).2
    (rest.1, p.events s ++ rest.2)
  | (p, some n) :: ps, s =>
    let rest := runCut ps (p.crash n s)
    (rest.1, (p.events s).take n ++ rest.2)

theorem Serial.runCut {ps : List (Proc ℓ σ ε Unit × Option ℕ)} (hps : ∀ p ∈ ps, Req p.1)
    (h : Serial Req s₀ s es) : Serial Req s₀ (runCut ps s).1 (es ++ (runCut ps s).2) := by
  induction ps generalizing s es with
  | nil => simpa [Process.runCut] using h
  | cons p ps ih =>
    obtain ⟨p, n⟩ := p
    have hp : Req p := hps (p, n) List.mem_cons_self
    have hrest : ∀ q ∈ ps, Req q.1 := fun q hq ↦ hps q (List.mem_cons_of_mem _ hq)
    cases n with
    | none => simpa [Process.runCut, List.append_assoc] using ih hrest (h.exec hp)
    | some n => simpa [Process.runCut, List.append_assoc] using ih hrest (h.call n hp)

variable {c : Contract ℓ σ}

/-- If every request keeps the contract against interference bounded by `rely`,
then all of them together keep it. -/
theorem Runs.safe {ps : List (Proc ℓ σ ε Unit)} (hc : c.Sound)
    (hreq : ∀ p, Req p → ∀ s, c.inv s → c.Meets (fun _ _ ↦ True) p s)
    (h₀ : c.inv s₀) (h : Runs Req s₀ ps s es) (hcond : ∀ e ∈ es, c.cond e.label e.before) :
    c.inv s ∧ (∀ e ∈ es, c.inv e.before ∧ c.guar e.label e.before) ∧
      ∀ p ∈ ps, ∃ t, c.rely t s ∧ c.Meets (fun _ _ ↦ True) p t := by
  induction h with
  | start => exact ⟨h₀, by simp, by simp⟩
  | @issue ps s es p _ hp ih =>
    obtain ⟨hi, he, hps⟩ := ih hcond
    refine ⟨hi, he, fun q hq ↦ ?_⟩
    rcases List.mem_append.mp hq with hq | hq
    · exact hps q hq
    · cases List.mem_singleton.mp hq
      exact ⟨s, hc.refl s, hreq _ hp s hi⟩
  | @commit ps qs s es l next _ ih =>
    obtain ⟨hi, he, hps⟩ := ih fun e he ↦ hcond e (List.mem_append_left _ he)
    have hl : c.cond l s := hcond ⟨l, s, Store.commit l s⟩ (by simp)
    obtain ⟨t, hts, hm⟩ := hps _ (List.mem_append_right _ List.mem_cons_self)
    obtain ⟨hg, hn⟩ := hm s hts hi hl
    have hrely := hc.rely_commit l s hi hl hg
    refine ⟨hc.inv_commit l s hi hl hg, fun e hm ↦ ?_, fun q hq ↦ ?_⟩
    · rcases List.mem_append.mp hm with hm | hm
      · exact he e hm
      · cases List.mem_singleton.mp hm
        exact ⟨hi, hg⟩
    · rcases List.mem_append.mp hq with hq | hq
      · obtain ⟨u, hu, hq⟩ := hps q (List.mem_append_left _ hq)
        exact ⟨u, hc.trans _ _ _ hu hrely, hq⟩
      · rcases List.mem_cons.mp hq with rfl | hq
        · exact ⟨_, hc.refl _, hn⟩
        · obtain ⟨u, hu, hq⟩ := hps q (List.mem_append_right _ (List.mem_cons_of_mem _ hq))
          exact ⟨u, hc.trans _ _ _ hu hrely, hq⟩
  | @die ps qs s es p _ ih =>
    obtain ⟨hi, he, hps⟩ := ih hcond
    refine ⟨hi, he, fun q hq ↦ hps q ?_⟩
    rcases List.mem_append.mp hq with hq | hq
    · exact List.mem_append_left _ hq
    · exact List.mem_append_right _ (List.mem_cons_of_mem _ hq)

/-- With nobody else running, the contract holds of every state a request passes through. -/
theorem Contract.Meets.crash {α : Type} {Φ : Except ε α → σ → Prop} {p : Proc ℓ σ ε α} {s : σ}
    (hc : c.Preserves) (hm : c.Meets Φ p s) (hi : c.inv s) (n : ℕ)
    (hcond : ∀ e ∈ (p.events s).take n, c.cond e.label e.before) :
    c.inv (p.crash n s) ∧
      ∀ e ∈ (p.events s).take n, c.inv e.before ∧ c.guar e.label e.before := by
  induction p generalizing s n with
  | done r => cases n <;> simpa [Proc.crash, Proc.events] using hi
  | step l next ih =>
    cases n with
    | zero => simpa [Proc.crash] using hi
    | succ n =>
      simp only [Proc.events, List.take_succ_cons, List.mem_cons, forall_eq_or_imp] at hcond ⊢
      obtain ⟨hg, hn⟩ := hm s (hc.refl s) hi hcond.1
      obtain ⟨hlast, hrest⟩ := ih s hn (hc.inv_commit l s hi hcond.1 hg) n hcond.2
      exact ⟨hlast, ⟨hi, hg⟩, hrest⟩

theorem Contract.Meets.exec {α : Type} {Φ : Except ε α → σ → Prop} {p : Proc ℓ σ ε α} {s : σ}
    (hc : c.Preserves) (hm : c.Meets Φ p s) (hi : c.inv s)
    (hcond : ∀ e ∈ p.events s, c.cond e.label e.before) :
    c.inv (p.exec s).2 ∧ Φ (p.exec s).1 (p.exec s).2 ∧
      ∀ e ∈ p.events s, c.inv e.before ∧ c.guar e.label e.before := by
  induction p generalizing s with
  | done r => exact ⟨hi, hm, by simp [Proc.events]⟩
  | step l next ih =>
    simp only [Proc.events, List.mem_cons, forall_eq_or_imp] at hcond ⊢
    obtain ⟨hg, hn⟩ := hm s (hc.refl s) hi hcond.1
    obtain ⟨hlast, hΦ, hrest⟩ := ih s hn (hc.inv_commit l s hi hcond.1 hg) hcond.2
    exact ⟨hlast, hΦ, ⟨hi, hg⟩, hrest⟩

theorem Serial.safe (hc : c.Preserves)
    (hreq : ∀ p, Req p → ∀ s, c.inv s → c.Meets (fun _ _ ↦ True) p s)
    (h₀ : c.inv s₀) (h : Serial Req s₀ s es) (hcond : ∀ e ∈ es, c.cond e.label e.before) :
    c.inv s ∧ ∀ e ∈ es, c.inv e.before ∧ c.guar e.label e.before := by
  induction h with
  | start => exact ⟨h₀, by simp⟩
  | @call s es p n _ hp ih =>
    obtain ⟨hi, he⟩ := ih fun e he ↦ hcond e (List.mem_append_left _ he)
    obtain ⟨hi', he'⟩ := (hreq p hp s hi).crash hc hi n
      fun e he ↦ hcond e (List.mem_append_right _ he)
    refine ⟨hi', fun e hm ↦ ?_⟩
    rcases List.mem_append.mp hm with hm | hm
    · exact he e hm
    · exact he' e hm

/-- Between whole requests a stronger property may hold than within them. -/
theorem Uncut.safe (J : σ → Prop) (hc : c.Preserves)
    (hreq : ∀ p, Req p → ∀ s, c.inv s → J s → c.Meets (fun _ t ↦ J t) p s)
    (h₀ : c.inv s₀) (hJ : J s₀) (h : Uncut Req s₀ s es)
    (hcond : ∀ e ∈ es, c.cond e.label e.before) :
    c.inv s ∧ J s ∧ ∀ e ∈ es, c.inv e.before ∧ c.guar e.label e.before := by
  induction h with
  | start => exact ⟨h₀, hJ, by simp⟩
  | @call s es p _ hp ih =>
    obtain ⟨hi, hj, he⟩ := ih fun e he ↦ hcond e (List.mem_append_left _ he)
    obtain ⟨hi', hj', he'⟩ := (hreq p hp s hi hj).exec hc hi
      fun e he ↦ hcond e (List.mem_append_right _ he)
    refine ⟨hi', hj', fun e hm ↦ ?_⟩
    rcases List.mem_append.mp hm with hm | hm
    · exact he e hm
    · exact he' e hm

end Towing.Process
