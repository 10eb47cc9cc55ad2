import Towing.Common.ExternalCallPolicy

namespace Towing.Common

open Towing.Process

variable {ε α : Type} {vendor : String}

/-- An attempt for the vendor begins: its first, let through, or a later one. -/
def Begins (vendor : String) (e : Event PolicyStep Policy) : Prop :=
  e.label = .isOpen vendor ∧ e.before.isOpen vendor = false ∨ e.label = .attempt vendor

/-- It begins after the open period, and nothing else has since. -/
def Probes (vendor : String) (e : Event PolicyStep Policy) : Prop :=
  Begins vendor e ∧ (e.before.breakers vendor).openUntil ≠ 0 ∧ e.before.isOpen vendor = false

/-- An attempt for the vendor comes to its end. -/
def Answered (vendor : String) (e : Event PolicyStep Policy) : Prop :=
  e.label = .onSuccess vendor ∨ e.label = .onFailure vendor

/-- What the breaker of a vendor is to do. -/
structure BreaksFor (vendor : String) (es : List (ℕ × Event PolicyStep Policy)) : Prop where
  shut : ∀ i n e, Makes es i n e → Begins vendor e → e.before.isOpen vendor = false
  refuses : ∀ i j n e f, Makes es i n e → e.label = .isOpen vendor → e.before.isOpen vendor = true →
    Makes es j n f → j ≤ i
  /-- Who is let through after an open period has answered before anybody else is. -/
  single : ∀ i j n m e f, Makes es i n e → Probes vendor e → i < j → Makes es j m f → Begins vendor f →
    ∃ k g, i < k ∧ k < j ∧ Makes es k n g ∧ Answered vendor g
  /-- Where that one fails, the breaker opens for a full period. -/
  reopens : ∀ i k n e g, Makes es i n e → Probes vendor e → i < k → Makes es k n g → g.label = .onFailure vendor →
    (∀ l f, i < l → l < k → ¬Makes es l n f) →
    (g.after.breakers vendor).openUntil = g.before.now + g.before.env.EXTERNAL_CALL_BREAKER_RESET_MS
  closes : ∀ k n g, Makes es k n g → g.label = .onSuccess vendor → g.after.breakers vendor = ⟨0, 0⟩

/-- The breaker is half open, as far as its two numbers say. -/
def Policy.isHalfOpen (w : Policy) (vendor : String) : Prop :=
  (w.breakers vendor).openUntil = 0 ∧
    w.env.EXTERNAL_CALL_BREAKER_THRESHOLD ≤ (w.breakers vendor).consecutiveFailures

/-- No attempt begins while the breaker is half open, none that is a retry while it is
open, and while it is half open nobody answers but who was let through last. -/
structure Spaced (vendor : String) (es : List (ℕ × Event PolicyStep Policy)) : Prop where
  begins : ∀ i n e, Makes es i n e → Begins vendor e → ¬e.before.isHalfOpen vendor
  retries : ∀ i n e, Makes es i n e → e.label = .attempt vendor → (e.before.breakers vendor).openUntil = 0
  answers : ∀ k m g, Makes es k m g → Answered vendor g → g.before.isHalfOpen vendor →
    ∃ i e, i < k ∧ Makes es i m e ∧ Probes vendor e ∧ ∀ j o f, i < j → j < k → Makes es j o f → ¬Probes vendor f

namespace Policy

variable (w : Policy)

/-- An open breaker has its count at the threshold. -/
def Sound (w : Policy) : Prop :=
  ∀ vendor, (w.breakers vendor).openUntil ≠ 0 →
    w.env.EXTERNAL_CALL_BREAKER_THRESHOLD ≤ (w.breakers vendor).consecutiveFailures

theorem Sound.set {w : Policy} (h : w.Sound) (vendor : String) {state : BreakerState}
    (hstate : state.openUntil ≠ 0 → w.env.EXTERNAL_CALL_BREAKER_THRESHOLD ≤ state.consecutiveFailures) :
    (w.set vendor state).Sound := by
  intro v hv
  by_cases hvv : v = vendor
  · subst hvv
    simp only [Policy.set, Function.update_self] at hv ⊢
    exact hstate hv
  · simp only [Policy.set, Function.update_of_ne hvv] at hv ⊢
    exact h v hv

theorem Sound.run {w : Policy} (h : w.Sound) (l : PolicyStep) : (w.run l).Sound := by
  cases l with
  | isOpen vendor =>
    change (w.halfOpen vendor).Sound
    unfold halfOpen
    split_ifs with hexpired
    · exact h.set vendor (by simp)
    · exact h
  | attempt vendor => exact h
  | onSuccess vendor => exact h.set vendor (by simp)
  | onFailure vendor =>
    change (w.onFailure vendor).Sound
    unfold onFailure
    dsimp only
    split_ifs with hfull
    · exact h.set vendor fun _ ↦ hfull
    · refine h.set vendor fun hopen ↦ ?_
      have := h vendor hopen
      omega
  | setClock now => exact h

end Policy

variable {w w' : Policy} {cs : List (Call PolicyStep Policy (CallError ε))} {es : List (ℕ × Event PolicyStep Policy)}
  {i j k m n : ℕ} {e f g : Event PolicyStep Policy}

theorem policy_run (h : Calls (Calling ε α) w cs w' es) (he : Makes es i n e) : e.after = e.before.run e.label :=
  h.commit_at he

theorem sound_before (h : Calls (Calling ε α) w cs w' es) (hw : w.Sound) (he : Makes es i n e) : e.before.Sound := by
  refine (h.chained.invariant hw fun f hf hsound ↦ ?_).2 e (List.mem_of_getElem? he.event) |>.1
  obtain ⟨⟨m, f⟩, hmem, rfl⟩ := List.mem_map.mp hf
  rw [h.committed _ hmem]
  exact hsound.run _

/-- None of the looks at a breaker has been refused. -/
def LetThrough (past : List (Event PolicyStep Policy)) : Prop :=
  ∀ r ∈ past, ∀ vendor, r.label = .isOpen vendor → r.before.isOpen vendor = false

theorem attempts_heeds (options : ExternalCallOptions ε) (answers : ℕ → Except (Failure ε) α) (left attempt : ℕ)
    {past : List (Event PolicyStep Policy)} (hpast : LetThrough past) :
    (ExternalCallPolicy.attempts options answers left attempt).Heeds (fun past _ ↦ LetThrough past)
      (fun _ _ ↦ True) past := by
  induction left generalizing attempt past with
  | zero =>
    unfold ExternalCallPolicy.attempts
    cases answers attempt with
    | ok result => exact ⟨hpast, fun _ ↦ trivial⟩
    | error failure => exact ⟨hpast, fun _ ↦ trivial⟩
  | succ left ih =>
    unfold ExternalCallPolicy.attempts
    cases answers attempt with
    | ok result => exact ⟨hpast, fun _ ↦ trivial⟩
    | error failure =>
      refine ⟨hpast, fun s ↦ ?_⟩
      have hpast' : LetThrough (past ++ [⟨.onFailure options.vendor, s, s.onFailure options.vendor⟩]) :=
        forall_mem_concat hpast fun vendor hl ↦ by cases hl
      simp only [Proc.bind_ok]
      split_ifs with hretryable
      · exact ⟨hpast', fun s' ↦ ih _ (forall_mem_concat hpast' fun vendor hl ↦ by cases hl)⟩
      · trivial

/-- Nothing comes of a call that is refused. -/
theorem calling_heeds {p : PolicyCall ε Unit} (h : Calling ε α p) :
    p.Heeds (fun past _ ↦ LetThrough past) (fun _ _ ↦ True) [] := by
  cases h with
  | run options answers =>
    refine Proc.Heeds.bind (Q := fun _ _ ↦ True) ?_ (fun _ _ _ ↦ trivial) fun _ _ _ ↦ trivial
    refine ⟨(by simp [LetThrough]), fun s ↦ ?_⟩
    simp only [Proc.bind_ok]
    cases hopen : s.isOpen options.vendor with
    | true => trivial
    | false =>
      refine attempts_heeds options answers _ _ (forall_mem_concat (by simp) fun vendor hl ↦ ?_)
      cases hl
      exact hopen
  | setClock now => exact ⟨(by simp [LetThrough]), fun _ ↦ trivial⟩

theorem refused_ends (h : Calls (Calling ε α) w cs w' es) (he : Makes es i n e) (hl : e.label = .isOpen vendor)
    (hopen : e.before.isOpen vendor = true) (hf : Makes es j n f) : j ≤ i := by
  by_contra hlt
  obtain ⟨c, -, hpast⟩ := h.heeds_at (Φ := fun _ past _ ↦ LetThrough past) (fun p hp ↦ calling_heeds hp) hf
  have := hpast e (mem_own_of_makes (by omega) he) vendor hl
  rw [hopen] at this
  cases this

namespace Policy

theorem isOpen_false {w : Policy} (h : (w.breakers vendor).openUntil = 0) : w.isOpen vendor = false := by
  simp [isOpen, h]

/-- Other steps leave a half-open breaker half open. -/
theorem isHalfOpen_run {w : Policy} (h : w.isHalfOpen vendor) {l : PolicyStep}
    (hl : l ≠ .onSuccess vendor ∧ l ≠ .onFailure vendor) : (w.run l).isHalfOpen vendor := by
  have hset {v : String} (hv : v ≠ vendor) (state : BreakerState) : (w.set v state).isHalfOpen vendor := by
    simp only [isHalfOpen, Policy.set, Function.update_of_ne hv.symm]
    exact h
  cases l with
  | isOpen v =>
    change (w.halfOpen v).isHalfOpen vendor
    unfold halfOpen
    split_ifs with hexpired
    · refine hset (fun hv ↦ ?_) _
      subst hv
      exact hexpired.1 h.1
    · exact h
  | attempt v => exact h
  | onSuccess v => exact hset (fun hv ↦ hl.1 (hv ▸ rfl)) _
  | onFailure v =>
    have hv : v ≠ vendor := fun hv ↦ hl.2 (hv ▸ rfl)
    change (w.onFailure v).isHalfOpen vendor
    unfold onFailure
    dsimp only
    split_ifs <;> exact hset hv _
  | setClock now => exact h

/-- Who is let through after an open period leaves the breaker half open. -/
theorem isHalfOpen_of_probe {w : Policy} (h : w.Sound) (hopen : (w.breakers vendor).openUntil ≠ 0)
    (hover : w.isOpen vendor = false) : (w.run (.isOpen vendor)).isHalfOpen vendor := by
  have hexpired : (w.breakers vendor).openUntil ≤ w.now := by
    simpa [isOpen, hopen] using hover
  change (w.halfOpen vendor).isHalfOpen vendor
  unfold halfOpen
  rw [if_pos ⟨hopen, hexpired⟩]
  simp only [isHalfOpen, Policy.set, Function.update_self]
  exact ⟨trivial, h vendor hopen⟩

theorem openUntil_onFailure {w : Policy} (h : w.isHalfOpen vendor) :
    ((w.run (.onFailure vendor)).breakers vendor).openUntil = w.now + w.env.EXTERNAL_CALL_BREAKER_RESET_MS := by
  have hfull : w.env.EXTERNAL_CALL_BREAKER_THRESHOLD ≤ (w.breakers vendor).consecutiveFailures + 1 := by
    have := h.2
    omega
  change ((w.onFailure vendor).breakers vendor).openUntil = _
  unfold onFailure
  dsimp only
  rw [if_pos hfull]
  simp [Policy.set]

end Policy

/-- Until who was let through has answered, the breaker stays half open. -/
theorem half_open_until (h : Calls (Calling ε α) w cs w' es) (hw : w.Sound) (hspaced : Spaced vendor es)
    (he : Makes es i n e) (hprobes : Probes vendor e) (hij : i < j) (hf : Makes es j m f)
    (hnone : ∀ k g, i < k → k < j → Makes es k n g → ¬Answered vendor g) : f.before.isHalfOpen vendor := by
  obtain ⟨cs', h'⟩ := h.before hf
  have hafter : e.after.isHalfOpen vendor := by
    obtain ⟨⟨hl, -⟩ | hl, hopen, hover⟩ := hprobes
    · rw [policy_run h he, hl]
      exact Policy.isHalfOpen_of_probe (sound_before h hw he) hopen hover
    · exact absurd (hspaced.retries i n e he hl) hopen
  refine (h'.kept_since (I := fun t ↦ t.isHalfOpen vendor) (he.take hij) hafter fun k o g hik hg hsince ↦ ?_).1
  have hhere := hsince k o g hik (Nat.le_refl k) hg
  obtain ⟨hkj, hg'⟩ := hg.of_take
  rw [policy_run h hg']
  refine Policy.isHalfOpen_run hhere ?_
  by_contra hanswered
  have hanswered : Answered vendor g := by
    unfold Answered
    tauto
  -- Who answers here was let through last, and that is who was let through first.
  obtain ⟨i', e', hik', he', hprobes', hlast⟩ := hspaced.answers k o g hg' hanswered hhere
  rcases Nat.lt_trichotomy i' i with hlt | rfl | hlt
  · exact hlast i n e hlt hik he hprobes
  · obtain ⟨rfl, rfl⟩ := he'.unique he
    exact hnone k g hik hkj hg' hanswered
  · have hhalf := hsince i' o e' hlt (Nat.le_of_lt hik') (he'.take (by omega))
    exact hprobes'.2.1 hhalf.1

/-- Where attempts are spaced so, the breaker of the vendor admits one probe. -/
theorem breaks_of_spaced (h : Calls (Calling ε α) w cs w' es) (hw : ∀ vendor, w.breakers vendor = ⟨0, 0⟩)
    (hspaced : Spaced vendor es) : BreaksFor vendor es := by
  have hsound : w.Sound := by
    intro v hv
    rw [hw v] at hv
    exact absurd rfl hv
  constructor
  · intro i n e he hbegins
    obtain ⟨-, hover⟩ | hl := hbegins
    · exact hover
    · exact Policy.isOpen_false (hspaced.retries i n e he hl)
  · intro i j n e f he hl hopen hf
    exact refused_ends h he hl hopen hf
  · intro i j n m e f he hprobes hij hf hbegins
    by_contra hnone
    refine hspaced.begins j m f hf hbegins (half_open_until h hsound hspaced he hprobes hij hf ?_)
    intro k g hik hkj hg hanswered
    exact hnone ⟨k, g, hik, hkj, hg, hanswered⟩
  · intro i k n e g he hprobes hik hg hl hfirst
    have hhalf := half_open_until h hsound hspaced he hprobes hik hg fun l f hil hlk hf _ ↦ hfirst l f hil hlk hf
    rw [policy_run h hg, hl]
    exact Policy.openUntil_onFailure hhalf
  · intro k n g hg hl
    rw [policy_run h hg, hl]
    change (g.before.onSuccess vendor).breakers vendor = _
    simp [Policy.onSuccess, Policy.set]

/-! A vendor that fails once, and calls after its open period. -/

instance (vendor : String) (e : Event PolicyStep Policy) : Decidable (Begins vendor e) :=
  inferInstanceAs (Decidable (_ ∨ _))

instance (vendor : String) (e : Event PolicyStep Policy) : Decidable (Answered vendor e) :=
  inferInstanceAs (Decidable (_ ∨ _))

instance (w : Policy) (vendor : String) : Decidable (w.isHalfOpen vendor) :=
  inferInstanceAs (Decidable (_ ∧ _))

def samplePolicy : Policy := ⟨⟨1, 10, by decide, by decide⟩, 0, fun _ ↦ ⟨0, 0⟩⟩

def sampleOptions : ExternalCallOptions Unit := ⟨"maps", 1, by decide, fun _ ↦ true⟩

def sampleCalls : List (PolicyCall Unit Unit) :=
  [(ExternalCallPolicy.run sampleOptions fun _ ↦ (.error .timeout : Except (Failure Unit) Unit)).ignore,
    Proc.write (.setClock 10), (ExternalCallPolicy.run sampleOptions fun _ ↦ (.ok () : Except (Failure Unit) Unit)).ignore,
    (ExternalCallPolicy.run sampleOptions fun _ ↦ (.ok () : Except (Failure Unit) Unit)).ignore]

theorem sampleCalls_calling : ∀ p ∈ sampleCalls, Calling Unit Unit p := by
  simp only [sampleCalls, List.forall_mem_cons]
  exact ⟨.run sampleOptions _, .setClock 10, .run sampleOptions _, .run sampleOptions _, by simp⟩

def policyRun (turns : List ℕ) :
    List (Call PolicyStep Policy (CallError Unit)) × Policy × List (ℕ × Event PolicyStep Policy) :=
  takeTurns turns (sampleCalls.map fun p ↦ ⟨p, p⟩) samplePolicy

theorem policyRun_calls (turns : List ℕ) :
    Calls (Calling Unit Unit) samplePolicy (policyRun turns).1 (policyRun turns).2.1 (policyRun turns).2.2 := by
  simpa [policyRun] using (Calls.start.askAll sampleCalls_calling).takeTurns turns

/-- The open period over, two calls are let through before either has answered. -/
theorem two_probes : ∃ cs w es, Calls (Calling Unit Unit) samplePolicy cs w es ∧ ¬BreaksFor "maps" es := by
  refine ⟨_, _, _, policyRun_calls [0, 0, 1, 2, 3], fun hbreaks ↦ ?_⟩
  obtain ⟨k, g, h3k, hk4, -⟩ := hbreaks.single 3 4 2 3 _ _ rfl ⟨.inl ⟨rfl, rfl⟩, by decide +kernel, rfl⟩ (by decide) rfl
    (.inl ⟨rfl, rfl⟩)
  omega

def sampleSpacing : List ℕ := [0, 0, 1, 2, 2, 3, 3]

theorem sampleSpacing_spaced : Spaced "maps" (policyRun sampleSpacing).2.2 := by
  have hbegins : ∀ x ∈ (policyRun sampleSpacing).2.2, (Begins "maps" x.2 → ¬x.2.before.isHalfOpen "maps") ∧
      x.2.label ≠ .attempt "maps" := by decide +kernel
  have hanswers : ∀ x ∈ (policyRun sampleSpacing).2.2.zipIdx,
      Answered "maps" x.1.2 → x.1.2.before.isHalfOpen "maps" → x.2 = 4 ∧ x.1.1 = 2 := by decide +kernel
  constructor
  · intro i n e he hb
    exact (hbegins _ (List.mem_of_getElem? he)).1 hb
  · intro i n e he hl
    exact absurd hl (hbegins _ (List.mem_of_getElem? he)).2
  · intro k m g hg hanswered hhalf
    obtain ⟨rfl, rfl⟩ := hanswers ((m, g), k) (List.mem_zipIdx_iff_getElem?.mpr hg) hanswered hhalf
    exact ⟨3, _, by decide, rfl, ⟨.inl ⟨rfl, rfl⟩, by decide +kernel, rfl⟩, fun j o f h3j hj4 ↦ by omega⟩

theorem breaks_of_spaced_sample : BreaksFor "maps" (policyRun sampleSpacing).2.2 :=
  breaks_of_spaced (policyRun_calls sampleSpacing) (fun _ ↦ rfl) sampleSpacing_spaced

end Towing.Common
